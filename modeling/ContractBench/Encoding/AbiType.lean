import ContractBench.Encoding.TypeText

/-! # Types of encoded data

The types that data can have, among all that can be written.
-/

namespace ContractBench.Encoding

/-- Types without parts. -/
inductive Elementary where
  | uint (bits : Nat)
  | int (bits : Nat)
  /-- Numbers with a fixed number of decimal places. -/
  | ufixed (bits places : Nat)
  | fixed (bits places : Nat)
  | address
  | bool
  | fixedBytes (size : Nat)
  | bytes
  | string
deriving DecidableEq, Repr

namespace Elementary

/-- Whether numbers of a size exist: whole bytes, at most 256 bits. -/
def isBitSize (bits : Nat) : Bool := 8 ≤ bits && bits ≤ 256 && bits % 8 == 0

/-- The elementary type of a word with sizes. Those of truth values do not count. -/
def ofWord? (word : String) (sizes : Sizes) : Option Elementary :=
  match word, sizes with
  | "uint", .one n => if isBitSize n then some (.uint n) else none
  | "int", .one n => if isBitSize n then some (.int n) else none
  | "ufixed", .two n m => if isBitSize n && m ≤ 80 then some (.ufixed n m) else none
  | "fixed", .two n m => if isBitSize n && m ≤ 80 then some (.fixed n m) else none
  | "address", .none => some .address
  | "bool", _ => some .bool
  | "bytes", .one n => if n ≤ 32 then some (.fixedBytes n) else none
  | "bytes", .none => some .bytes
  | "string", .none => some .string
  | _, _ => none

/-- Whether the values of a type differ in length. -/
def isDynamic : Elementary → Bool
  | bytes | string => true
  | _ => false

end Elementary

/-- A type of encoded data. -/
inductive AbiType where
  | elementary (type : Elementary)
  | tuple (components : List AbiType)
  | array (item : AbiType)
  | fixedArray (item : AbiType) (length : Nat)
deriving Repr

namespace AbiType

mutual

/-- The type that is written, if all its words name types. -/
def ofSyntax? : TypeSyntax → Option AbiType
  | .basic word sizes => (Elementary.ofWord? word sizes).map .elementary
  | .tuple components => (ofComponents? components).map .tuple
  | .array item => (ofSyntax? item).map .array
  | .fixedArray item length => (ofSyntax? item).map (.fixedArray · length)

def ofComponents? : List TypeSyntax → Option (List AbiType)
  | [] => some []
  | component :: components => do
      let first ← ofSyntax? component
      return first :: (← ofComponents? components)

end

mutual

/-- Whether the values of a type differ in length. -/
def isDynamic : AbiType → Bool
  | .elementary type => type.isDynamic
  | .tuple components => anyDynamic components
  | .array _ => true
  | .fixedArray item _ => isDynamic item

def anyDynamic : List AbiType → Bool
  | [] => false
  | component :: components => isDynamic component || anyDynamic components

end

end AbiType

end ContractBench.Encoding
