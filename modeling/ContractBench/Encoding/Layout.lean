import ContractBench.Encoding.AbiType
import ContractBench.Encoding.Word
import ContractBench.Fault

/-! # Layout of encoded data

Values of fixed length stand in place. Of others the place holds the offset at which they stand
behind all places. A value that does not belong to its type has no encoding.
-/

namespace ContractBench.Encoding

/-- The encoding of a part of a tuple or an array, and whether it stands behind the places. -/
structure Part where
  bytes : List UInt8
  deferred : Bool

namespace Part

def placeSize (p : Part) : Nat := if p.deferred then wordSize else p.bytes.length

def placesSize (ps : List Part) : Nat := ps.foldr (fun p size => p.placeSize + size) 0

/-- The places of parts; the number is the offset of the next deferred part. -/
def places : Nat → List Part → List UInt8
  | _, [] => []
  | offset, p :: ps =>
      if p.deferred then word offset ++ places (offset + p.bytes.length) ps
      else p.bytes ++ places offset ps

/-- The parts that stand behind the places. -/
def behind (ps : List Part) : List UInt8 := (ps.filter (·.deferred)).flatMap (·.bytes)

/-- Parts with their places. -/
def layout (ps : List Part) : List UInt8 :=
  places (placesSize ps) ps ++ behind ps

end Part

def addressSize : Nat := 20

/-- The digits of an address, with or without their mark. -/
def addressNumber? (cs : List Char) : Option Nat :=
  let digits :=
    match cs with
    | '0' :: x :: rest => if x = 'x' ∨ x = 'X' then rest else cs
    | _ => cs
  if digits.length = 2 * addressSize then
    digits.foldlM (fun n c => (Text.asciiHexValue? c).map (n * 16 + ·)) 0
  else
    none

/-- The number of an address that is written as a value: a text of digits, or its bytes. -/
def addressOf? : Value → Option Nat
  | .text s => addressNumber? s.toList
  | .bytes bs => if bs.length = addressSize then some (bigEndianValue bs) else none
  | _ => none

/-- The whole number that a value is. Truth values are no numbers here. -/
def wholeNumber? : Value → Option Int
  | .int n => some n
  | _ => none

/-- A number without places that is taken as one with places. -/
def scaledNumber? (places : Nat) : Value → Option Int
  | .int n => some (n * Nat.pow 10 places)
  | .bool b => some (if b then Nat.pow 10 places else 0)
  | _ => none

def unsignedWord? (bits : Nat) (n : Int) : Option (List UInt8) :=
  if 0 ≤ n ∧ n < Nat.pow 2 bits then some (signedWord n) else none

def signedWord? (bits : Nat) (n : Int) : Option (List UInt8) :=
  if -(Nat.pow 2 (bits - 1) : Int) ≤ n ∧ n < Nat.pow 2 (bits - 1) then some (signedWord n) else none

/-- Bytes behind the word of their number. -/
def counted (bs : List UInt8) : List UInt8 := word bs.length ++ paddedEnd bs

/-- The encoding of a value of an elementary type. -/
def encodeElementary? (type : Elementary) (v : Value) : Option (List UInt8) :=
  match type with
  | .uint bits => do unsignedWord? bits (← wholeNumber? v)
  | .int bits => do signedWord? bits (← wholeNumber? v)
  | .ufixed bits places => do unsignedWord? bits (← scaledNumber? places v)
  | .fixed bits places => do signedWord? bits (← scaledNumber? places v)
  | .address => (addressOf? v).map word
  | .bool =>
      match v with
      | .bool b => some (word (if b then 1 else 0))
      | _ => none
  | .fixedBytes size =>
      match v with
      | .bytes bs => if bs.length ≤ size then some (filled bs) else none
      | _ => none
  | .bytes =>
      match v with
      | .bytes bs => some (counted bs)
      | _ => none
  | .string =>
      match v with
      | .text s => some (counted s.toUTF8.toList)
      | _ => none

/-- The items of a list or a tuple. -/
def sequence? : Value → Option (List Value)
  | .list xs => some xs
  | v => v.tupleItems?

/-- The parts of an array whose items are encoded one by one. -/
def itemParts? (encode : Value → Option (List UInt8)) (deferred : Bool) :
    List Value → Option (List Part)
  | [] => some []
  | x :: xs => do
      let bytes ← encode x
      return ⟨bytes, deferred⟩ :: (← itemParts? encode deferred xs)

mutual

/-- The encoding of a value. -/
def encode? : AbiType → Value → Option (List UInt8)
  | .elementary type, v => encodeElementary? type v
  | .tuple components, v => do
      return Part.layout (← componentParts? components (← sequence? v))
  | .array item, v => do
      let xs ← sequence? v
      return word xs.length ++ Part.layout (← itemParts? (encode? item) item.isDynamic xs)
  | .fixedArray item length, v => do
      let xs ← sequence? v
      if xs.length = length then
        return Part.layout (← itemParts? (encode? item) item.isDynamic xs)
      else
        none

/-- The parts of a tuple: as many values as components. -/
def componentParts? : List AbiType → List Value → Option (List Part)
  | [], [] => some []
  | component :: components, x :: xs => do
      let bytes ← encode? component x
      return ⟨bytes, component.isDynamic⟩ :: (← componentParts? components xs)
  | _, _ => none

end

end ContractBench.Encoding
