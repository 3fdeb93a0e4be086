import ContractBench.Argument.ArgumentType
import ContractBench.Failure
import ContractBench.Json.Encoded

/-! # Reading arguments

Turns the text typed for a parameter into the value that its type asks for. Numbers, addresses
and byte strings stay text; they are judged when a call is encoded. Blank text is no argument.
-/

namespace ContractBench.Argument

/-- The value of one scalar, or none for blank text. The text is cut of its blanks. -/
def scalar? (base : String) (cs : List Char) : Option Value :=
  let cs := Text.trim cs
  if cs = [] then
    none
  else
    let text := String.ofList cs
    if Text.stripped base = "bool" then
      some (.bool (Text.lowered text == "true" || text == "1"))
    else
      some (.text text)

/-- The values of all pieces, or none if one of them is blank. -/
def scalars? (base : String) : List (List Char) → Option (List Value)
  | [] => some []
  | piece :: pieces => do
      let x ← scalar? base piece
      return x :: (← scalars? base pieces)

def emptyElement (type value : RawText) : Failure :=
  .argument .format ("Elemento vazio em " ++ type ++ ": " ++ value) none

def wrongCount (expected : Nat) (type : RawText) (found : Nat) : Failure :=
  .argument .count
    ("Esperados " ++ Numeral.print expected ++ " valores para " ++ type ++ ", recebidos " ++
      Numeral.print found) none

def notNested (type : RawText) : Failure :=
  .argument .format
    ("JSON inválido para " ++ type ++
      ". Formato esperado: [[1,2],[3,4]] ou estrutura aninhada similar") none

def notTuple : Failure :=
  .argument .format "JSON inválido para tuple. Formato esperado: [valor1, valor2, ...]" none

/-- The values of an array text. -/
def elements (type base : String) (cs : List Char) : Except Failure (List Value) :=
  match scalars? base (Text.pieces ',' cs) with
  | some xs => .ok xs
  | none => .error (emptyElement type (String.ofList cs))

/-- The tuple that a JSON text writes: a list or a table. -/
def tupleIn : Except Json.ReadError Value → Except Failure Value
  | .ok (.list xs) => .ok (.list xs)
  | .ok (.table entries) => .ok (.table entries)
  | _ => .error notTuple

/-- The value of a nested type that a JSON text writes. -/
def nestedIn (type : RawText) : Except Json.ReadError Value → Except Failure Value
  | .ok v => .ok v
  | .error _ => .error (notNested type)

/-- The value of a text that is not blank, cut of its blanks, in the way a type is read. -/
def readAs (type : String) (way : ArgumentType) (cs : List Char) : Except Failure Value :=
  match way with
  | .scalar name =>
      .ok ((scalar? name cs).getD .null)
  | .array base => (elements type base cs).map .list
  | .fixedArray base length => do
      let xs ← elements type base cs
      if xs.length = length then return .list xs
      else throw (wrongCount length type xs.length)
  | .tuple _ => tupleIn (Json.read (String.ofList cs))
  | .nested name => nestedIn name (Json.read (String.ofList cs))

/-- The value typed for a parameter of a type, or none for blank text. -/
def read (value type : String) : Except Failure (Option Value) := do
  let cs := Text.trim value.toList
  if cs = [] then
    return none
  else
    let way ← orFail (ArgumentType.ofText type)
    return some (← readAs type way cs)

section Bytes

/-- The blanks of byte strings: spaces, line ends and tabs of ASCII. -/
def isBlankByte (b : UInt8) : Bool := b == 0x20 || (0x9 ≤ b && b ≤ 0xD)

def trimmedBytes (bs : List UInt8) : List UInt8 :=
  ((bs.dropWhile isBlankByte).reverse.dropWhile isBlankByte).reverse

/-- The value of bytes that are not blank, in the way a type is read. They are no text: they are
taken as they are or read as JSON, but not cut at commas, and no byte string is true. -/
def readBytesAs (type : RawText) (way : ArgumentType) (bs : List UInt8) : Except Failure Value :=
  match way with
  | .scalar name => .ok (if name = "bool" then .bool false else .bytes bs)
  | .array _ | .fixedArray .. => .error (.fault (.notText .bytes))
  | .tuple _ => tupleIn (Json.readBytes bs)
  | .nested _ => nestedIn type.trimmed (Json.readBytes bs)

end Bytes

end ContractBench.Argument
