import ContractBench.Fault

/-! # Displaying results

Turns what a call returned into data that can be shown: whole numbers become text, so that they
keep all digits, tuples become lists, and records become tables. A decoded result often holds
each field twice, by position and by name; then the one by position is dropped.
-/

namespace ContractBench.Display

/-- Whether the text of a key consists of digits, in the wide sense. -/
def isPosition (key : Value) : Except Fault Bool :=
  match key with
  | .text s => .ok (s ≠ "" && s.toList.all Text.isDigitLike)
  | .int n => (Value.printInt n).map fun s => s.toList.all Text.isDigitLike
  -- The text of a tuple has brackets, but a number in it may be too long to be written.
  | .tuple xs => (Value.inner (.tuple xs)).map fun _ => false
  | .record fields => (Value.inner (.record fields)).map fun _ => false
  | _ => .ok false

/-- The position that a key of digits writes. -/
def position (key : Value) : Except Fault Nat :=
  match key with
  | .text s =>
      match Numeral.decimal? s with
      | some n => .ok n.toNat
      | none => .error .unreadableNumeral
  | .int n => .ok n.toNat
  | _ => .error .unreadableNumeral

/-- The values of the entries whose keys are not positions. -/
def namedValues : List (Value × Value) → Except Fault (List Value)
  | [] => .ok []
  | (key, v) :: entries => do
      let positional ← isPosition key
      let rest ← namedValues entries
      return if positional then rest else v :: rest

/-- Whether an entry repeats the named value at the position that its key writes. -/
def repeats (named : List Value) (key v : Value) : Except Fault Bool := do
  if ← isPosition key then
    match named[← position key]? with
    | some x => return x.same v
    | none => return false
  else
    return false

mutual

/-- A value as it is shown. -/
def shown : Value → Except Fault Value
  | .int n => (Value.printInt n).map .text
  | .list xs => (shownItems xs).map .list
  | .tuple xs => (shownItems xs).map .list
  | .record fields => do
      match ← shownFields fields with
      | [] => return .list []
      | entries => return .table entries
  | .table entries => do
      let named ← namedValues entries
      (shownEntries named entries).map .table
  | v => .ok v

def shownItems : List Value → Except Fault (List Value)
  | [] => .ok []
  | x :: xs => do
      let first ← shown x
      return first :: (← shownItems xs)

def shownFields : List (String × Value) → Except Fault (List (Value × Value))
  | [] => .ok []
  | (name, x) :: xs => do
      let first ← shown x
      return (.text name, first) :: (← shownFields xs)

/-- The entries of a table as they are shown, without those that repeat a named value. -/
def shownEntries (named : List Value) :
    List (Value × Value) → Except Fault (List (Value × Value))
  | [] => .ok []
  | (key, x) :: xs => do
      let dropped ← repeats named key x
      let first ← if dropped then pure [] else (shown x).map fun v => [(key, v)]
      return first ++ (← shownEntries named xs)

end

end ContractBench.Display
