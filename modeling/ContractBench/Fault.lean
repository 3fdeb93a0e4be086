import ContractBench.Numeral
import ContractBench.Text.Pieces
import ContractBench.Text.Quoted
import ContractBench.Value

/-! # Faults

What goes wrong when data has another shape than the place that reads it needs, and the readers
of members, items and texts that report it.
-/

namespace ContractBench

/-- The reasons for which data of a wrong shape stops an operation. -/
inductive Fault where
  | missingKey (name : String)
  /-- A table has no entry under a key that is not a text. -/
  | missingEntry
  /-- A value of this kind has no operation of this name. -/
  | noOperation (kind : Kind) (operation : String)
  | notIterable (kind : Kind)
  | notIndexable (kind : Kind)
  /-- A sequence was asked for an item by something that is no position. -/
  | notPosition (container : Kind) (index : Kind)
  | notComparable (left right : Kind)
  | notSized (kind : Kind)
  /-- A value that is no text stands at this place of a list that is to be joined. -/
  | notTextAt (position : Nat) (kind : Kind)
  | notText (kind : Kind)
  | notHashable (kind : Kind)
  | notWritable (kind : Kind)
  | missingArgument (name : String)
  | unreadableNumeral
  | numeralTooLong
  /-- A text is broken and cannot be written. -/
  | brokenText
deriving DecidableEq, Repr

namespace Fault

def message : Fault → String
  | missingKey name => Text.quoted (Text.points name)
  | missingEntry => ""
  | noOperation kind operation =>
      "'" ++ kind.label ++ "' object has no attribute '" ++ operation ++ "'"
  | notIterable kind => "'" ++ kind.label ++ "' object is not iterable"
  | notIndexable kind => "'" ++ kind.label ++ "' object is not subscriptable"
  | notPosition .text index => "string indices must be integers, not '" ++ index.label ++ "'"
  | notPosition .bytes index => "byte indices must be integers or slices, not " ++ index.label
  | notPosition container index =>
      container.label ++ " indices must be integers or slices, not " ++ index.label
  | notComparable left right =>
      "'<' not supported between instances of '" ++ left.label ++ "' and '" ++ right.label ++ "'"
  | notSized kind => "object of type '" ++ kind.label ++ "' has no len()"
  | notTextAt position kind =>
      "sequence item " ++ toString position ++ ": expected str instance, " ++ kind.label ++
        " found"
  | notText kind => "expected string or bytes-like object, got '" ++ kind.label ++ "'"
  | notHashable kind => "unhashable type: '" ++ kind.label ++ "'"
  | notWritable kind => "Object of type " ++ kind.label ++ " is not JSON serializable"
  | missingArgument name => "missing 1 required positional argument: '" ++ name ++ "'"
  | unreadableNumeral => "invalid literal for int()"
  | numeralTooLong =>
      "Exceeds the limit (4300 digits) for integer string conversion; " ++
        "use sys.set_int_max_str_digits() to increase the limit"
  | brokenText => "surrogates not allowed"

end Fault

namespace Value

/-- The entry of a table under a name, if there is one. -/
def get (v : Value) (name : String) : Except Fault (Option Value) :=
  match v with
  | .table entries => .ok (Ordered.get? entries (.text name))
  | _ => .error (.noOperation v.kind "get")

/-- The entry of a table under a name that may be broken, if there is one. -/
def getRaw (v : Value) (name : RawText) : Except Fault (Option Value) :=
  match v with
  | .table entries => .ok (Ordered.get? entries (.ofRaw name))
  | _ => .error (.noOperation v.kind "get")

/-- The entry of a table under a name, or a given value where there is none. -/
def getD (v : Value) (name : String) (default : Value) : Except Fault Value :=
  (v.get name).map (·.getD default)

theorem getD_ofFields (fields : List (String × Value)) (name : String) (default : Value) :
    (ofFields fields).getD name default = .ok ((Ordered.get? fields name).getD default) := by
  have hfield := field?_ofFields fields name
  simp only [field?, ofFields] at hfield
  simp only [getD, get, ofFields, Except.map, hfield]

theorem getD_of_table {v : Value} (h : v.kind = .table) (name : String) (default : Value) :
    v.getD name default = .ok ((v.field? name).getD default) := by
  cases v with
  | table entries => rfl
  | _ => cases h

/-- The entry of a table under a name that has to be there. -/
def need (v : Value) (name : String) : Except Fault Value :=
  match v with
  | .table entries =>
      match Ordered.get? entries (.text name) with
      | some x => .ok x
      | none => .error (.missingKey name)
  | .text _ | .brokenText _ | .bytes _ | .list _ | .tuple _ | .record _ =>
      .error (.notPosition v.kind .text)
  | _ => .error (.notIndexable v.kind)

theorem need_of_field? {v x : Value} {name : String} (h : v.field? name = some x) :
    v.need name = .ok x := by
  cases v with
  | table entries =>
      have hthere : Ordered.get? entries (.text name) = some x := h
      change (match Ordered.get? entries (.text name) with
        | some x => Except.ok x
        | none => .error (Fault.missingKey name)) = _
      rw [hthere]
  | _ => cases h

/-- The items of a value in order: the keys of a table, the characters of a text. -/
def items (v : Value) : Except Fault (List Value) :=
  match v with
  | .list xs => .ok xs
  | .tuple xs => .ok xs
  | .record fields => .ok (fields.map Prod.snd)
  | .table entries => .ok (entries.map Prod.fst)
  | .text s => .ok (s.toList.map fun c => .text (String.ofList [c]))
  | .brokenText ps => .ok (ps.map fun n => ofPoints [n])
  | .bytes bs => .ok (bs.map fun b => .int b.toNat)
  | _ => .error (.notIterable v.kind)

def entries (v : Value) : Except Fault (List (Value × Value)) :=
  match v with
  | .table entries => .ok entries
  | _ => .error (.noOperation v.kind "items")

theorem entries_eq_ok_iff {v : Value} {entries : List (Value × Value)} :
    v.entries = .ok entries ↔ v = .table entries := by
  cases v <;> simp [Value.entries]

def size (v : Value) : Except Fault Nat :=
  match v with
  | .list xs => .ok xs.length
  | .tuple xs => .ok xs.length
  | .record fields => .ok fields.length
  | .table entries => .ok entries.length
  | .text s => .ok s.length
  | .brokenText ps => .ok ps.length
  | .bytes bs => .ok bs.length
  | _ => .error (.notSized v.kind)

/-- The texts that values are; the number is the position of the first. -/
def textsFrom : Nat → List Value → Except Fault (List RawText)
  | _, [] => .ok []
  | position, v :: rest =>
      match v.raw? with
      | some t => (textsFrom (position + 1) rest).map (t :: ·)
      | none => .error (.notTextAt position v.kind)

theorem textsFrom_eq_ok_iff {position : Nat} {vs : List Value} {texts : List RawText} :
    textsFrom position vs = .ok texts ↔ vs.mapM raw? = some texts := by
  induction vs generalizing position texts with
  | nil => simp [textsFrom, eq_comm]
  | cons v vs ih =>
      rw [textsFrom, List.mapM_cons]
      cases v.raw? with
      | none => simp
      | some t =>
          cases hrest : textsFrom (position + 1) vs with
          | ok rest =>
              rw [ih.mp hrest]
              simp [Except.map]
          | error fault =>
              have hnone : vs.mapM raw? = none := by
                cases h : vs.mapM raw? with
                | none => rfl
                | some rest => cases hrest.symm.trans (ih.mpr h)
              simp [Except.map, hnone]

/-- Whether a value may be a key of a table. -/
def isKey : Value → Bool
  | .list _ => false
  | .table _ => false
  | .tuple xs => allKeys xs
  | .record fields => allFieldKeys fields
  | _ => true
where
  /-- Whether all items may be keys. -/
  allKeys : List Value → Bool
    | [] => true
    | x :: xs => isKey x && allKeys xs
  /-- Whether all fields may be keys. -/
  allFieldKeys : List (String × Value) → Bool
    | [] => true
    | (_, x) :: xs => isKey x && allFieldKeys xs

/-- Whole numbers as decimal text, if they are not too long. -/
def printInt (n : Int) : Except Fault String :=
  match Numeral.print? n with
  | some s => .ok s
  | none => .error .numeralTooLong

mutual

/-- A value as it is written inside another one. -/
def inner : Value → Except Fault String
  | .null => .ok "None"
  | .bool b => .ok (if b then "True" else "False")
  | .int n => printInt n
  | .double bits => .ok (Binary64.print bits)
  | .text s => .ok (Text.quoted (Text.points s))
  | .brokenText ps => .ok (Text.quoted ps)
  | .bytes bs => .ok (Text.quotedBytes bs)
  | .list xs => do return "[" ++ Text.joined ", " (← innerItems xs) ++ "]"
  | .tuple xs => do
      match ← innerItems xs with
      | [x] => return "(" ++ x ++ ",)"
      | shown => return "(" ++ Text.joined ", " shown ++ ")"
  | .record fields => do return "(" ++ Text.joined ", " (← innerFields fields) ++ ")"
  | .table entries => do return "\x7b" ++ Text.joined ", " (← innerEntries entries) ++ "\x7d"

def innerItems : List Value → Except Fault (List String)
  | [] => .ok []
  | x :: xs => do
      let shown ← inner x
      return shown :: (← innerItems xs)

def innerFields : List (String × Value) → Except Fault (List String)
  | [] => .ok []
  | (name, x) :: xs => do
      let shown ← inner x
      return (name ++ "=" ++ shown) :: (← innerFields xs)

def innerEntries : List (Value × Value) → Except Fault (List String)
  | [] => .ok []
  | (key, x) :: xs => do
      let shownKey ← inner key
      let shown ← inner x
      return (shownKey ++ ": " ++ shown) :: (← innerEntries xs)

end

/-- A value as part of a message: a text as it is, anything else as inside a list. -/
def shown (v : Value) : Except Fault RawText :=
  match v.raw? with
  | some t => .ok t
  | none => v.inner.map .ofString

end Value

end ContractBench
