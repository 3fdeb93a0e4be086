import ContractBench.Encoding.Layout
import ContractBench.Encoding.Parameter
import ContractBench.Json.Reader

/-! # Coercion

Brings arguments into the form in which they are encoded. Texts are read as what the type of
their parameter needs: numbers, addresses, byte strings, and lists and tuples in JSON or, for
lists, with commas between the items.
-/

namespace ContractBench.Encoding

/-- A type text without its last array length, if it ends in one. A line end may follow it. -/
def arrayItem? (cs : List Char) : Option (List Char) :=
  let body :=
    match cs.reverse with
    | '\n' :: rest => rest
    | rest => rest
  match body with
  | ']' :: inside =>
      match inside.dropWhile Text.isDecimal with
      | '[' :: base => if '\n' ∈ base then none else some base.reverse
      | _ => none
  | _ => none

/-- A type text without its array lengths, and their number. -/
def withoutArrays : Nat → List Char → List Char × Nat
  | 0, cs => (cs, 0)
  | fuel + 1, cs =>
      match arrayItem? cs with
      | some item =>
          let (base, depth) := withoutArrays fuel item
          (base, depth + 1)
      | none => (cs, 0)

def trimmedStart (ps : List Nat) : List Nat := ps.dropWhile fun n => Text.isBlank (Text.charOf n)

def trimmed (ps : List Nat) : List Nat := (trimmedStart (trimmedStart ps).reverse).reverse

/-- The items of an argument for an array. A text is a list in JSON if it begins with a bracket,
and else a list of texts with commas between them. -/
def arrayItems? (v : Value) : Option (List Value) :=
  match v with
  | .text s =>
      if (Text.trimStart s.toList).head? = some '[' then
        (Json.read? s).bind fun parsed => parsed.items.toOption
      else
        some ((Text.pieces ',' s.toList).map fun p => .text (String.ofList (Text.trim p)))
  | .brokenText ps =>
      if (trimmedStart ps).head? = some '['.toNat then
        (Json.readPoints ps).toOption.bind fun parsed => parsed.items.toOption
      else
        some ((Text.pieces ','.toNat ps).map fun p => .ofPoints (trimmed p))
  | v => v.items.toOption

def coerceItems (coerce : Value → Option Value) : List Value → Option (List Value)
  | [] => some []
  | x :: xs => do
      let first ← coerce x
      return first :: (← coerceItems coerce xs)

/-- Brings arrays of a depth into form, down to their innermost items. -/
def coerceArrays (coerce : Value → Option Value) : Nat → Value → Option Value
  | 0, v => coerce v
  | depth + 1, v => do
      let xs ← arrayItems? v
      return .list (← coerceItems (coerceArrays coerce depth) xs)

/-- The text that a value is written as, without blanks at its ends. -/
def plainText? (v : Value) : Option String :=
  (v.shown.toOption.bind RawText.string?).map Text.stripped

@[simp] theorem plainText?_text (s : String) : plainText? (.text s) = some (Text.stripped s) := by
  simp [plainText?, Value.shown, Value.raw?, Except.toOption]

/-- Brings a number into form: a number as it is, and a text in hexadecimal digits behind its
mark or else in decimal digits. -/
def coerceNumber (v : Value) : Option Value :=
  match v with
  | .int _ | .bool _ => some v
  | _ => do
      let text ← plainText? v
      if Text.beginsWith "0x" (Text.lowered text) then
        (Numeral.hexadecimal? text).map .int
      else
        (Numeral.decimal? text).map .int

/-- Brings a truth value into form; what is neither true nor one counts as false. -/
def coerceTruth (v : Value) : Option Value :=
  match v with
  | .bool _ => some v
  | .brokenText _ => some (.bool false)
  | _ => do
      let text := Text.lowered (← plainText? v)
      return .bool (text == "true" || text == "1")

/-- The text of an address: its mark and forty digits. -/
def addressText (n : Nat) : String :=
  let digits := Nat.toDigits 16 n
  String.ofList (['0', 'x'] ++ List.replicate (2 * addressSize - digits.length) '0' ++ digits)

/-- Brings an address into form. It is a text of forty digits, twenty bytes, or a number that is
written with forty digits. -/
def coerceAddress (v : Value) : Option Value :=
  match v with
  | .int n =>
      if Nat.pow 16 39 ≤ n ∧ n < Nat.pow 16 40 then some (.text (addressText n.toNat)) else none
  | _ => (addressOf? v).map fun n => .text (addressText n)

/-- The bytes of a text of hexadecimal digits, two for each byte. -/
def hexBytes? : List Char → Option (List UInt8)
  | [] => some []
  | [_] => none
  | a :: b :: rest => do
      let high ← Text.asciiHexValue? a
      let low ← Text.asciiHexValue? b
      return UInt8.ofNat (high * 16 + low) :: (← hexBytes? rest)

/-- A hexadecimal text without its mark. -/
def withoutMark : List Char → List Char
  | '0' :: x :: rest => if x = 'x' ∨ x = 'X' then rest else '0' :: x :: rest
  | cs => cs

/-- Brings a byte string into form. A text of an odd number of characters, mark included, gets a
zero in front of its digits. -/
def coerceBytes (v : Value) : Option Value :=
  match v with
  | .bytes _ => some v
  | .text s =>
      let cs := s.toList
      let digits := withoutMark cs
      (hexBytes? (if cs.length % 2 = 1 then '0' :: digits else digits)).map .bytes
  | _ => none

/-- Brings a value without parts into form, by the first rule that fits its type. -/
def coerceLeaf (type : String) (v : Value) : Option Value :=
  -- Of most types only the front counts here; whether the sizes exist is seen on encoding.
  if Text.beginsWith "uint" type || Text.beginsWith "int" type then coerceNumber v
  else if type = "bool" then coerceTruth v
  else if type = "address" then coerceAddress v
  else if Text.beginsWith "bytes" type then coerceBytes v
  else some v

/-- The values for the components of a tuple, by the names of the components. -/
def valuesByName? (entries : List (Value × Value)) : List Parameter → Option (List Value)
  | [] => some []
  | component :: components => do
      let name ← component.name
      let x ← if name.isKey then Ordered.get? entries name else none
      return x :: (← valuesByName? entries components)

/-- The values for the components of a tuple. A text is read as JSON, and a table is read by the
names of the components. -/
def tupleValues? (components : List Parameter) (v : Value) : Option (List Value) :=
  let parsed? :=
    match v with
    | .text s => Json.read? s
    | .brokenText ps => (Json.readPoints ps).toOption
    | _ => some v
  match parsed? with
  | some (.table entries) => valuesByName? entries components
  | some parsed => parsed.items.toOption
  | none => none

mutual

/-- Brings an argument into the form of its parameter. -/
def coerce? : Parameter → Value → Option Value
  | .mk type _ components, v =>
      let (base, depth) := withoutArrays type.length type.toList
      coerceArrays (fun v =>
        if String.ofList base = Parameter.tupleWord then do
          let xs ← tupleValues? components v
          return .tuple (← coerceComponents? components xs)
        else
          coerceLeaf (String.ofList base) v) depth v

/-- Brings values into the form of components, as far as both go. -/
def coerceComponents? : List Parameter → List Value → Option (List Value)
  | component :: components, x :: xs => do
      let first ← coerce? component x
      return first :: (← coerceComponents? components xs)
  | _, _ => some []

end

end ContractBench.Encoding
