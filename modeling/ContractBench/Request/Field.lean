import ContractBench.Fault
import ContractBench.Request.Issue
import ContractBench.Request.WholeNumber
import ContractBench.Text.Utf8

/-! # Fields of a request

Readers of the fields of a request. A reader gives the value of a field or all its issues, and
the issues of several fields come together in the order of the fields.
-/

namespace ContractBench.Request

/-- A value, or the issues of what should have been one. -/
abbrev Checked (α : Type) := Except (List Issue) α

/-- A reader of values. -/
abbrev Reader (α : Type) := Value → Checked α

namespace Checked

variable {α β : Type}

/-- A value that breaks a rule as a whole. -/
def broken (rule : Rule) (found : Value) : Checked α := .error [⟨[], rule, found⟩]

def map (f : α → β) : Checked α → Checked β
  | .ok x => .ok (f x)
  | .error issues => .error issues

/-- Applies a function to one more value; the issues of both sides come in order. -/
def take : Checked (α → β) → Checked α → Checked β
  | .ok f, .ok x => .ok (f x)
  | .ok _, .error issues => .error issues
  | .error issues, .ok _ => .error issues
  | .error issues, .error more => .error (issues ++ more)

theorem map_eq_ok_iff {f : α → β} {x : Checked α} {b : β} :
    x.map f = .ok b ↔ ∃ a, x = .ok a ∧ f a = b := by
  cases x <;> simp [Checked.map]

theorem take_eq_ok_iff {f : Checked (α → β)} {x : Checked α} {b : β} :
    f.take x = .ok b ↔ ∃ g a, f = .ok g ∧ x = .ok a ∧ g a = b := by
  cases f <;> cases x <;> simp [Checked.take]

/-- A part of a value, its issues seen from the whole. -/
def within (step : Step) : Checked α → Checked α
  | .ok x => .ok x
  | .error issues => .error (issues.map (Issue.within step))

@[simp] theorem within_eq_ok_iff {step : Step} {x : Checked α} {a : α} :
    x.within step = .ok a ↔ x = .ok a := by
  cases x <;> simp [within]

end Checked

section Scalars

/-- A text, as a value. Bytes that encode a text stand for it. -/
def textValue : Reader Value
  | .text s => .ok (.text s)
  | .brokenText ps => .ok (.brokenText ps)
  | .bytes bs =>
      match Text.Utf8.text? bs with
      | some s => .ok (.text s)
      | none => .broken .stringEncoding (.bytes bs)
  | v => .broken .stringType v

/-- A text. Where a field sets no bounds for it, it may be broken. -/
def text : Reader RawText := fun v => Checked.map (fun t => t.raw?.getD "") (textValue v)

@[simp] theorem textValue_ofRaw (t : RawText) : textValue (.ofRaw t) = .ok (.ofRaw t) := by
  unfold Value.ofRaw Value.ofPoints
  split <;> rfl

@[simp] theorem text_ofRaw (t : RawText) : text (.ofRaw t) = .ok t := by
  rw [text, textValue_ofRaw, Checked.map, Value.raw?_ofRaw]
  rfl

/-- A text that is not broken, as a field with bounds needs it. -/
def soundText : Reader String := fun v => do
  match (← text v).string? with
  | some s => return s
  | none => .broken .stringEncoding v

theorem soundText_text (s : String) : soundText (.text s) = .ok s := by
  have hread : text (.text s) = .ok s := rfl
  simp only [soundText, hread, bind, Except.bind, RawText.string?_ofString]
  rfl

/-- Any value. -/
def anything : Reader Value := .ok

/-- The whole numbers that a number with a point may stand for: those strictly between these
bounds. -/
def wholeBound : Int := Nat.pow 2 63

/-- A whole number written as a number with a point. -/
def wholeOf (bits : UInt64) : Checked Int :=
  match Binary64.quantity bits with
  | .dyadic m e =>
      match (Quantity.dyadic m e).toInt? with
      | some n =>
          if -wholeBound < n ∧ n < wholeBound then .ok n
          else .broken .intParsingSize (.double bits)
      | none => .broken .intFromFloat (.double bits)
  | _ => .broken .finiteNumber (.double bits)

/-- A whole number written as text. A text that is too long as it is given breaks a rule of its
own; one that is too long in plain form is no number. -/
def wholeOfText (found : Value) (s : String) : Checked Int :=
  if isTooLong s.toList then
    .broken .intParsingSize found
  else
    match (plainForm? s.toList).bind plainNumber? with
    | some n => .ok n
    | none => .broken .intParsing found

def wholeNumber : Reader Int
  | .bool b => .ok (if b then 1 else 0)
  | .int n => .ok n
  | .double bits => wholeOf bits
  | .text s => wholeOfText (.text s) s
  | .brokenText ps => .broken .stringEncoding (.brokenText ps)
  | .bytes bs =>
      match Text.Utf8.text? bs with
      | some s => wholeOfText (.bytes bs) s
      | none => .broken .intParsing (.bytes bs)
  | v => .broken .intType v

/-- The words for the two truth values. -/
def truthWords : List (String × Bool) :=
  [("0", false), ("off", false), ("f", false), ("false", false), ("n", false), ("no", false),
    ("1", true), ("on", true), ("t", true), ("true", true), ("y", true), ("yes", true)]

/-- A truth value written as text. -/
def truthOfText (found : Value) (s : String) : Checked Bool :=
  match Ordered.get? truthWords (Text.lowered s) with
  | some b => .ok b
  | none => .broken .boolParsing found

/-- A truth value written as a number: one or zero. -/
def truthOfNumber (found : Value) (n : Int) : Checked Bool :=
  if n = 0 then .ok false else if n = 1 then .ok true else .broken .boolParsing found

def truth : Reader Bool
  | .bool b => .ok b
  | .int n =>
      if -wholeBound ≤ n ∧ n < wholeBound then truthOfNumber (.int n) n
      else .broken .boolType (.int n)
  | .double bits =>
      match wholeOf bits with
      | .ok n => truthOfNumber (.double bits) n
      | .error _ => .broken .boolType (.double bits)
  | .text s => truthOfText (.text s) s
  | .brokenText ps => .broken .stringEncoding (.brokenText ps)
  | .bytes bs =>
      match Text.Utf8.text? bs with
      | some s => truthOfText (.bytes bs) s
      | none => .broken .boolParsing (.bytes bs)
  | v => .broken .boolType v

end Scalars

section Readers

variable {α : Type}

/-- A value that may be null. -/
def optional (reader : Reader α) : Reader (Option α)
  | .null => .ok none
  | v => Checked.map some (reader v)

@[simp] theorem optional_text_ofRaw (t : RawText) : optional text (.ofRaw t) = .ok (some t) := by
  have hread := text_ofRaw t
  have hkind := Value.kind_ofRaw t
  cases h : Value.ofRaw t with
  | null =>
      rw [h] at hkind
      cases hkind
  | _ =>
      rw [h] at hread
      rw [optional, hread]
      · rfl
      · exact nofun

def sized (low : Nat) (high : Option Nat) (reader : Reader String) : Reader String := fun v => do
  let s ← reader v
  if s.length < low then .broken .stringTooShort v
  else if high.any (· < s.length) then .broken .stringTooLong v
  else return s

def between (low high : Int) (reader : Reader Int) : Reader Int := fun v => do
  let n ← reader v
  if n < low then .broken .greaterThanEqual v
  else if high < n then .broken .lessThanEqual v
  else return n

/-- The items of a list from a position on. -/
def itemsFrom (reader : Reader α) : Nat → List Value → Checked (List α)
  | _, [] => .ok []
  | position, x :: xs =>
      ((Checked.within (.position position) (reader x)).map List.cons).take
        (itemsFrom reader (position + 1) xs)

/-- A list of values of one kind. -/
def listOf (reader : Reader α) : Reader (List α)
  | .list xs => itemsFrom reader 0 xs
  | .tuple xs => itemsFrom reader 0 xs
  | .record fields => itemsFrom reader 0 (fields.map Prod.snd)
  | v => .broken .listType v

theorem itemsFrom_text_ofRaw (position : Nat) (ts : List RawText) :
    itemsFrom text position (ts.map .ofRaw) = .ok ts := by
  induction ts generalizing position with
  | nil => rfl
  | cons t ts ih => rw [List.map_cons, itemsFrom, text_ofRaw, ih]; rfl

@[simp] theorem listOf_text_ofRaws (ts : List RawText) : listOf text (.ofRaws ts) = .ok ts :=
  itemsFrom_text_ofRaw 0 ts

/-- The step to the value under a key. -/
def stepTo : Value → Step
  | .text s => .name s
  | .bool b => .position (if b then 1 else 0)
  | .int n =>
      if -wholeBound ≤ n ∧ n < wholeBound then .position n else .name (Numeral.print n)
  | v => .name ((Value.inner v).toOption.getD "")

/-- The step to a key itself. -/
def keyStep : Step := .name "[key]"

/-- An entry of a table whose keys are texts. -/
def entry (reader : Reader α) (key v : Value) : Checked (Value × α) :=
  Checked.within (stepTo key)
    (((Checked.within keyStep (textValue key)).map Prod.mk).take (reader v))

/-- Entries of a table whose keys are texts. -/
def entriesOf (reader : Reader α) : List (Value × Value) → Checked (List (Value × α))
  | [] => .ok []
  | (key, v) :: rest => ((entry reader key v).map List.cons).take (entriesOf reader rest)

/-- A table whose keys are texts. Keys that are read as one text are one key. -/
def tableOf (reader : Reader α) : Reader (List (Value × α))
  | .table entries => Checked.map Ordered.ofEntries (entriesOf reader entries)
  | v => .broken .tableType v

/-- A table whose keys are texts, as a value. -/
def fields : Reader Value := fun v => Checked.map .table (tableOf anything v)

/-- A field that has to be there. -/
def required (v : Value) (name : String) (reader : Reader α) : Checked α :=
  Checked.within (.name name)
    (match v.field? name with
      | some x => reader x
      | none => .broken .missing v)

/-- A field that is read is there. -/
theorem required_eq_ok_iff {v : Value} {name : String} {reader : Reader α} {a : α} :
    required v name reader = .ok a ↔ ∃ x, v.field? name = some x ∧ reader x = .ok a := by
  unfold required
  rw [Checked.within_eq_ok_iff]
  cases v.field? name <;> simp [Checked.broken]

/-- A field that has a value where it is not given. -/
def withDefault (v : Value) (name : String) (default : α) (reader : Reader α) : Checked α :=
  match v.field? name with
  | some x => Checked.within (.name name) (reader x)
  | none => .ok default

/-- A value with fields of its own. -/
def model (reader : Reader α) : Reader α
  | .table entries => reader (.table entries)
  | v => .broken .modelType v

end Readers

end ContractBench.Request
