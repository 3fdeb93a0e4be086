import ContractBench.Text.Pieces

/-! # Categories of types

The rough kind of a type, by which a form chooses the field for a value. The first rule that
fits decides.
-/

namespace ContractBench.Abi

/-- The rough kind of a type. -/
def typeCategory (type : String) : String :=
  if Text.beginsWith "uint" type then "uint"
  else if Text.beginsWith "int" type then "int"
  else if type = "address" then "address"
  else if type = "bool" then "bool"
  else if type = "string" then "string"
  else if Text.beginsWith "bytes" type then "bytes"
  else if Text.hasPart ['[', ']'] type.toList then "array"
  else if type = "tuple" then "tuple"
  else "unknown"

end ContractBench.Abi
