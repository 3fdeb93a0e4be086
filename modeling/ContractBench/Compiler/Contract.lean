import ContractBench.Encoding.Constructor
import ContractBench.Request.Field

/-! # Contracts

The contract that a compilation yields, and how it is selected from the output of the compiler:
the first one of the submitted file, if it has code.
-/

namespace ContractBench.Compiler

/-- A parameter of a constructor, as clients are told of it. -/
structure ConstructorInput where
  name : RawText
  type : RawText
  internalType : Option RawText
deriving DecidableEq, Repr

namespace ConstructorInput

def read : Request.Reader ConstructorInput := fun v =>
  (((Request.withDefault v "name" ↑"" Request.text).map ConstructorInput.mk).take
    (Request.required v "type" Request.text)).take
    (Request.withDefault v "internal_type" none (Request.optional Request.text))

def toValue (input : ConstructorInput) : Value :=
  Value.ofFields [("name", .ofRaw input.name), ("type", .ofRaw input.type),
    ("internal_type", .ofRaw? input.internalType)]

end ConstructorInput

/-- A compiled contract. -/
structure Contract where
  abi : List Value
  /-- The code in hexadecimal digits after `0x`. -/
  bytecode : RawText
  name : RawText
  constructorInputs : List ConstructorInput
  /-- The source in one file. -/
  flattened : Option RawText
deriving Repr

namespace Contract

def read : Request.Reader Contract := fun v =>
  (((((Request.required v "abi" (Request.listOf Request.fields)).map Contract.mk).take
    (Request.required v "bytecode" Request.text)).take
    (Request.required v "contract_name" Request.text)).take
    (Request.withDefault v "constructor_inputs" []
      (Request.listOf (Request.model ConstructorInput.read)))).take
    (Request.withDefault v "flattened_source" none (Request.optional Request.text))

def toValue (contract : Contract) : Value :=
  Value.ofFields [("abi", .list contract.abi), ("bytecode", .ofRaw contract.bytecode),
    ("contract_name", .ofRaw contract.name),
    ("constructor_inputs", .list (contract.constructorInputs.map ConstructorInput.toValue)),
    ("flattened_source", .ofRaw? contract.flattened)]

end Contract

section Selection

/-- A checked value, or the failure that its issues are. -/
def orInvalid {α : Type} : Request.Checked α → Except Failure α
  | .ok x => .ok x
  | .error issues => .error (.invalid issues)

/-- The parameter that a declaration declares. -/
def constructorInput (declaration : Value) : Except Failure ConstructorInput := do
  let name ← orFail (declaration.getD "name" (.text ""))
  let type ← orFail (declaration.need "type")
  let internalType ← orFail (declaration.getD "internalType" .null)
  orInvalid (ConstructorInput.read (Value.ofFields
    [("name", name), ("type", type), ("internal_type", internalType)]))

/-- The parameters that declarations declare. -/
def constructorInputsOf : List Value → Except Failure (List ConstructorInput)
  | [] => .ok []
  | declaration :: rest => do
      let first ← constructorInput declaration
      return first :: (← constructorInputsOf rest)

/-- The parameters of the constructor of an interface; one without constructor has none. -/
def constructorInputs (abi : Value) : Except Failure (List ConstructorInput) := do
  match ← orFail (do Encoding.constructorOf (← abi.items)) with
  | none => return []
  | some constructor =>
      constructorInputsOf (← orFail (do (← constructor.getD "inputs" (.list [])).items))

def nothingFound : Failure := .noContract "Nenhum contrato encontrado no código-fonte"

/-- The failure to find code in a contract. -/
def withoutCode (name : Value) : Failure :=
  match name.shown with
  | .ok name =>
      .noContract ("O contrato " ++ name ++ " não gerou bytecode (abstract ou interface?)")
  | .error fault => .fault fault

/-- The code of a contract in the output of the compiler, null where there is none. -/
def codeOf (output : Value) : Except Fault Value := do
  let evm ← output.getD "evm" (.table [])
  let bytecode ← evm.getD "bytecode" (.table [])
  bytecode.getD "object" .null

/-- The first contract of a file, with its name as the output has it. -/
def firstContract (output : Value) (fileName : RawText) : Except Failure (Value × Value) := do
  let files ← orFail (output.getD "contracts" (.table []))
  let contracts := (← orFail (files.getRaw fileName)).getD .null
  if !contracts.isTruthy then
    throw nothingFound
  match ← orFail contracts.entries with
  | first :: _ => return first
  | [] => throw nothingFound

/-- The contract that an output of the compiler yields for a file. -/
def select (output : Value) (fileName : RawText) : Except Failure Contract := do
  let (name, contract) ← firstContract output fileName
  let code ← orFail (codeOf contract)
  if !code.isTruthy then
    throw (withoutCode name)
  let abi ← orFail (contract.getD "abi" (.list []))
  let inputs ← constructorInputs abi
  let digits ← orFail code.shown
  orInvalid ((Contract.read (Value.ofFields
    [("abi", abi), ("bytecode", .ofRaw ("0x" ++ digits)), ("contract_name", name)])).map
      fun found => { found with constructorInputs := inputs })

end Selection

end ContractBench.Compiler
