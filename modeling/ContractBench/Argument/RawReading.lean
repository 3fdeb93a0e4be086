import ContractBench.Argument.Reading

/-! # Reading raw texts

Typed values and types as clients send them: texts that may be broken. What tells the way of a type
are its characters, none of which is a half of a pair or what a half is replaced by. So halves are
replaced where a type is looked into, and kept in what is read.
-/

namespace ContractBench.Argument

/-- The value of one scalar, or none for blank text. -/
def rawScalar? (base : String) (piece : RawText) : Option Value :=
  let text := piece.trimmed
  if text.isEmpty then
    none
  else if Text.stripped base = "bool" then
    some (.bool (Text.lowered text.replaced == "true" || text.replaced == "1"))
  else
    some (.ofRaw text)

/-- The values of an array text. -/
def rawElements (type : RawText) (base : String) (text : RawText) : Except Failure (List Value) :=
  match (text.pieces ',').mapM (rawScalar? base) with
  | some xs => .ok xs
  | none => .error (emptyElement type text)

/-- The value of a text that is not blank, cut of its blanks, in the way a type is read. -/
def readRawAs (type : RawText) (way : ArgumentType) (text : RawText) : Except Failure Value :=
  match way with
  | .scalar name => .ok ((rawScalar? name text).getD .null)
  | .array base => (rawElements type base text).map .list
  | .fixedArray base length => do
      let xs ← rawElements type base text
      if xs.length = length then return .list xs
      else throw (wrongCount length type xs.length)
  | .tuple _ => tupleIn (Json.readPoints text.numbers)
  | .nested _ => nestedIn type.trimmed (Json.readPoints text.numbers)

/-- The value typed for a parameter of a type, or none for blank text. -/
def readRaw (value type : RawText) : Except Failure (Option Value) := do
  let text := value.trimmed
  if text.isEmpty then
    return none
  else
    let way ← orFail (ArgumentType.ofText type.replaced)
    return some (← readRawAs type way text)

end ContractBench.Argument
