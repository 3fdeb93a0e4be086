import ContractBench.Binary64
import ContractBench.Ordered
import ContractBench.Text.Raw

/-! # Values

The data that contracts, compilers and explorers exchange: JSON values, together with the byte
strings, tuples and records that a decoded call can return. A table keeps the order of its
entries, and its keys may be any values. A JSON text can write halves of surrogate pairs that
stand alone, so a text may be broken; it is a text all the same, but it cannot be encoded.
-/

namespace ContractBench

/-- A dynamic value. -/
inductive Value where
  | null
  | bool (b : Bool)
  | int (n : Int)
  /-- A double, by its bits. -/
  | double (bits : UInt64)
  | text (s : String)
  /-- A text in which halves of pairs stand alone, by its code points. -/
  | brokenText (points : List Nat)
  | bytes (bs : List UInt8)
  | list (items : List Value)
  | tuple (items : List Value)
  /-- A tuple whose fields have names. -/
  | record (fields : List (String × Value))
  | table (entries : List (Value × Value))
deriving Repr, Inhabited

/-- The kinds of values that an error text can name. A record is a kind of tuple. -/
inductive Kind where
  | null | bool | int | double | text | bytes | list | tuple | table
deriving DecidableEq, Repr

namespace Kind

/-- The word for a kind in error texts. -/
def label : Kind → String
  | null => "NoneType"
  | bool => "bool"
  | int => "int"
  | double => "float"
  | text => "str"
  | bytes => "bytes"
  | list => "list"
  | tuple => "tuple"
  | table => "dict"

end Kind

namespace Value

def kind : Value → Kind
  | .null => .null
  | .bool _ => .bool
  | .int _ => .int
  | .double _ => .double
  | .text _ => .text
  | .brokenText _ => .text
  | .bytes _ => .bytes
  | .list _ => .list
  | .tuple _ => .tuple
  | .record _ => .tuple
  | .table _ => .table

def isNull : Value → Bool
  | .null => true
  | _ => false

/-- The number that a value stands for; truth values count as one and zero. -/
def quantity? : Value → Option Quantity
  | .bool b => some (.ofInt (if b then 1 else 0))
  | .int n => some (.ofInt n)
  | .double bits => some (Binary64.quantity bits)
  | _ => none

/-- Whether a value counts as present: everything but null, false, zero and what is empty. -/
def isTruthy : Value → Bool
  | .null => false
  | .bool b => b
  | .int n => n != 0
  | .double bits => !(Binary64.quantity bits).same (.ofInt 0)
  | .text s => s != ""
  | .brokenText ps => !ps.isEmpty
  | .bytes bs => !bs.isEmpty
  | .list xs => !xs.isEmpty
  | .tuple xs => !xs.isEmpty
  | .record fields => !fields.isEmpty
  | .table entries => !entries.isEmpty

/-- Equality of two values of which one is a number. -/
def sameQuantity (a b : Value) : Bool :=
  match a.quantity?, b.quantity? with
  | some x, some y => x.same y
  | _, _ => false

/-- Whether two values are one double, bit for bit. Of a number this says no more than equality
does, but a double that is no number equals none, not even itself. -/
def isOneDouble : Value → Value → Bool
  | .double x, .double y => x == y
  | _, _ => false

/-- The items of a tuple, with or without field names. -/
def tupleItems? : Value → Option (List Value)
  | .tuple xs => some xs
  | .record fields => some (fields.map Prod.snd)
  | _ => none

mutual

/-- Equality of values: numbers by the number they stand for, whatever their kind, tuples with
and without field names by their items, and tables regardless of order. What two of them hold in
one place also agrees where it is one double. -/
def same : Value → Value → Bool
  | .null, b => b.isNull
  | .bool x, b => sameQuantity (.bool x) b
  | .int x, b => sameQuantity (.int x) b
  | .double x, b => sameQuantity (.double x) b
  | .text x, b => match b with
      | .text y => x == y
      | _ => false
  | .brokenText x, b => match b with
      | .brokenText y => x == y
      | _ => false
  | .bytes x, b => match b with
      | .bytes y => x == y
      | _ => false
  | .list xs, b => match b with
      | .list ys => sameItems xs ys
      | _ => false
  | .tuple xs, b => match b.tupleItems? with
      | some ys => sameItems xs ys
      | none => false
  | .record fields, b => match b.tupleItems? with
      | some ys => sameFields fields ys
      | none => false
  | .table xs, b => match b with
      -- Keys occur once, so tables of one size agree if the entries of one are among the other's.
      | .table ys => xs.length == ys.length && sameEntries xs ys
      | _ => false

def sameItems : List Value → List Value → Bool
  | [], [] => true
  | x :: xs, y :: ys => (isOneDouble x y || same x y) && sameItems xs ys
  | _, _ => false

def sameFields : List (String × Value) → List Value → Bool
  | [], [] => true
  | (_, x) :: xs, y :: ys => (isOneDouble x y || same x y) && sameFields xs ys
  | _, _ => false

/-- Whether every entry is found, with a value that agrees, among other entries. -/
def sameEntries : List (Value × Value) → List (Value × Value) → Bool
  | [], _ => true
  | (k, v) :: rest, others =>
      (others.any fun other => (isOneDouble k other.1 || same k other.1) &&
        (isOneDouble v other.2 || same v other.2)) && sameEntries rest others

end

/-- Whether two values agree as parts of larger ones: they are equal, or one double. -/
def agrees (a b : Value) : Bool := isOneDouble a b || same a b

instance : BEq Value := ⟨same⟩

@[simp] theorem text_beq_text (s t : String) : (text s == text t) = (s == t) := by
  simp [BEq.beq, same]

def ofTexts (xs : List String) : Value := .list (xs.map .text)

/-- A table with text keys. -/
def ofFields (fields : List (String × Value)) : Value :=
  .table (fields.map fun field => (.text field.1, field.2))

/-- The text that a value is, unless it is broken. -/
def text? : Value → Option String
  | .text s => some s
  | _ => none

/-- The text of code points, which is broken where a half is among them. -/
def ofPoints (ps : List Nat) : Value :=
  if ps.any Text.isHalf then .brokenText ps else .text (Text.ofPoints ps)

@[simp] theorem kind_ofPoints (ps : List Nat) : (ofPoints ps).kind = .text := by
  unfold ofPoints
  split <;> rfl

theorem ofPoints_points (s : String) : ofPoints (Text.points s) = .text s := by
  have h : (Text.points s).any Text.isHalf = false := by
    simp [Text.points, Text.isHalf_toNat]
  simp [ofPoints, h, Text.ofPoints_points]

/-- The code points of the text that a value is. -/
def points? : Value → Option (List Nat)
  | .text s => some (Text.points s)
  | .brokenText ps => some ps
  | _ => none

section RawTexts

def ofRaw (t : RawText) : Value := ofPoints t.numbers

def ofRaws (ts : List RawText) : Value := .list (ts.map ofRaw)

/-- A text, or null where there is none. -/
def ofRaw? : Option RawText → Value
  | some t => ofRaw t
  | none => .null

/-- The text that a value is. -/
def raw? : Value → Option RawText
  | .text s => some s
  | .brokenText ps => some (.ofNumbers ps)
  | _ => none

@[simp] theorem kind_ofRaw (t : RawText) : (ofRaw t).kind = .text := kind_ofPoints _

@[simp] theorem ofRaw_ofString (s : String) : ofRaw s = .text s := by
  rw [ofRaw, RawText.numbers_ofString, ofPoints_points]

@[simp] theorem raw?_ofRaw (t : RawText) : (ofRaw t).raw? = some t := by
  unfold ofRaw ofPoints
  split
  next => exact congrArg some (RawText.ofNumbers_numbers t)
  next hwhole => exact congrArg some (RawText.ofString_replaced (by simpa using hwhole))

theorem exists_raw?_iff {v : Value} : (∃ t, v.raw? = some t) ↔ v.kind = .text := by
  cases v <;> simp [raw?, kind]

theorem ofRaw_inj {t u : RawText} : ofRaw t = ofRaw u ↔ t = u := by
  refine ⟨fun h => ?_, fun h => h ▸ rfl⟩
  have hraw := congrArg raw? h
  rwa [raw?_ofRaw, raw?_ofRaw, Option.some_inj] at hraw

end RawTexts

/-- The entry under a name, if the value is a table that has one. -/
def field? (v : Value) (name : String) : Option Value :=
  match v with
  | .table entries => Ordered.get? entries (.text name)
  | _ => none

theorem field?_ofFields (fields : List (String × Value)) (name : String) :
    (ofFields fields).field? name = Ordered.get? fields name := by
  simp [field?, ofFields, Ordered.get?, List.find?_map, Function.comp_def]

end Value

end ContractBench
