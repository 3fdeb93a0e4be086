import ContractBench.Encoding.Coercion
import ContractBench.Failure

/-! # Constructor arguments

Encodes the arguments of a constructor as hexadecimal text. Arguments that cannot be encoded are
a failure of the verification; only type texts outside the grammar and declarations without an
order of words stop it otherwise.
-/

namespace ContractBench.Encoding

/-- The declaration of the constructor: the first entry of its type. -/
def constructorOf : List Value → Except Fault (Option Value)
  | [] => .ok none
  | entry :: entries => do
      match ← entry.get "type" with
      | some (.text "constructor") => return some entry
      | _ => constructorOf entries

def notEncodable : Failure := .verification "Falha ao codificar argumentos do construtor"

def wrongArity (expected found : Nat) : Failure :=
  .verification
    ("O construtor espera " ++ toString expected ++ " argumentos, recebidos " ++ toString found)

/-- A fault of a declaration: a value that has not the operations of a text stops the work, any
other makes the arguments impossible to encode. -/
def declarationFailure : Fault → Failure
  | .noOperation kind operation => .fault (.noOperation kind operation)
  | _ => notEncodable

/-- Brings arguments into the form of their parameters, as far as both go. -/
def coerceAll : List Parameter → List Value → Except Failure (List Value)
  | parameter :: parameters, x :: xs => do
      match coerce? parameter x with
      | some first => return first :: (← coerceAll parameters xs)
      | none => throw notEncodable
  | _, _ => .ok []

/-- The short name that is no type on its own: it names one only as a part of another type. -/
def partialName : String := "byte"

def typeOf (text : String) : Except Failure AbiType :=
  if text = partialName then .error notEncodable else
  match TypeSyntax.ofText? text with
  | none => if Text.hasPart ['(', ')'] text.toList then .error notEncodable
      else .error .unreadableType
  | some written =>
      match AbiType.ofSyntax? written with
      | some type => .ok type
      | none => .error notEncodable

def typesOf : List String → Except Failure (List AbiType)
  | [] => .ok []
  | text :: texts => do
      let first ← typeOf text
      return first :: (← typesOf texts)

/-- The encoding of arguments by their declarations. -/
def encodeArguments (inputs args : Value) : Except Failure (List UInt8) := do
  let parameters ← (Parameter.ofSequence inputs).mapError declarationFailure
  let items ← args.items.mapError declarationFailure
  let values ← coerceAll parameters items
  let types ← typesOf (parameters.map Parameter.canonical)
  match encode? (.tuple types) (.tuple values) with
  | some bytes => return bytes
  | none => throw notEncodable

def hexText (bs : List UInt8) : String :=
  String.ofList (bs.flatMap fun b => Text.hexByte b.toNat)

/-- The encoded arguments of the constructor of an interface, or none where there are no
arguments or no parameters. -/
def constructorArguments (abi args : Value) : Except Failure (Option String) := do
  match ← orFail (do constructorOf (← abi.items)) with
  | none => return none
  | some constructor =>
      let inputs ← orFail (constructor.getD "inputs" .null)
      -- Absent is what counts as absent: an empty list, but null and zero as well.
      if !inputs.isTruthy || !args.isTruthy then
        return none
      else
        let found ← orFail args.size
        let expected ← orFail inputs.size
        if found = expected then
          return some (hexText (← encodeArguments inputs args))
        else
          throw (wrongArity expected found)

end ContractBench.Encoding
