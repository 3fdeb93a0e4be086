import ContractBench.Encoding.Constructor
import ContractBench.Response
import ContractBench.Verification.Network
import ContractBench.Verification.Submission

/-! # The explorer

Sends submissions to the service that verifies contracts for all networks, and asks it how a
verification stands. Nothing is sent for an unknown network or without a key.
-/

namespace ContractBench.Verification

/-- The address of the service that is used unless another is given. -/
def defaultService : String := "https://api.etherscan.io/v2/api"

/-- A service that verifies contracts, and the key for it. -/
structure Explorer where
  address : String := defaultService
  key : Option String := none
deriving DecidableEq, Repr

/-- The ways to call the service. -/
inductive Method where
  | get
  | post
deriving DecidableEq, Repr

namespace Method

def name : Method → String
  | get => "GET"
  | post => "POST"

end Method

/-- A call of the service. -/
structure Call where
  method : Method
  address : String
  parameters : List (String × Value)
  /-- The fields that are sent as a form. -/
  form : Option (List (String × Value)) := none
deriving Repr

/-- What becomes of a submission. -/
structure Receipt where
  accepted : Bool
  message : Value
  /-- The name under which the service keeps the submission. -/
  ticket : Value := .null
deriving Repr

/-- How a verification stands. -/
structure Standing where
  passed : Bool
  status : Value
deriving Repr

/-- What an operation comes to, and the call that it made, if any. -/
structure Outcome (α : Type) where
  result : Except Failure α
  call : Option Call := none

namespace Explorer

/-- The explorer with an address and a key; empty texts stand for the default and for none. -/
def named (address : String) (key : Option String) : Explorer where
  address := if address = "" then defaultService else address
  key := key.filter (· != "")

/-- The answer of a service as a value, or a text on why there is none. A failure of the machine
is none of the two. -/
def answerOf (reply : Reply) : Except Failure (Except RawText Value) :=
  match reply with
  | .error (.outage kind message) =>
      if kind.isUnusableAnswer then .ok (.error message) else .error (.outage kind message)
  | .error failure => .error failure
  | .ok response => .ok (response.json.mapError .ofString)

/-- The answer of a service, where a status that reports an error makes it unusable. -/
def checkedAnswerOf (address : String) (reply : Reply) :
    Except Failure (Except RawText Value) :=
  match reply with
  | .ok response =>
      if response.isError then .ok (.error (response.errorText address)) else answerOf reply
  | .error _ => answerOf reply

/-- Whether an answer says that the work is done. -/
def isDone (answer : Value) : Except Fault Bool := do
  return (← answer.getD "status" .null).same (.text "1")

/-- What an answer brings, or a text where it brings nothing. -/
def resultOr (answer : Value) (default : String) : Except Fault Value := do
  let result ← answer.getD "result" .null
  return if result.isTruthy then result else .text default

section Submit

/-- A version with its `v` in front. -/
def markedVersion (version : RawText) : RawText :=
  if RawText.beginsWith "v" version then version else "v" ++ version

/-- The encoded constructor arguments of a submission; those that cannot be encoded are left
out. -/
def encodedArguments (s : Submission) : Except Failure (Option String) :=
  match Encoding.constructorArguments (.list s.abi) (.list s.arguments) with
  | .error (.verification _) => .ok none
  | other => other

/-- The fields of the form of a submission, without constructor arguments. -/
def baseForm (s : Submission) (key chain runs : String) : List (String × Value) :=
  [("chainid", .text chain), ("module", .text "contract"), ("action", .text "verifysourcecode"),
    ("contractaddress", .text s.address), ("sourceCode", .ofRaw s.source),
    ("codeformat", .text "solidity-single-file"), ("contractname", .ofRaw s.contractName),
    ("compilerversion", .ofRaw (markedVersion s.compilerVersion)),
    ("optimizationUsed", .text (if s.optimised then "1" else "0")), ("runs", .text runs),
    ("evmversion", .ofRaw s.evm), ("apikey", .text key)]

/-- The form of a submission. -/
def formOf (s : Submission) (key : String) : Except Failure (List (String × Value)) := do
  let chain ← orFail (Value.printInt s.chain)
  let runs ← orFail (Value.printInt s.runs)
  match ← encodedArguments s with
  | some encoded =>
      -- An encoding of no bytes is left out like one that cannot be made.
      if encoded = "" then return baseForm s key chain runs
      else return baseForm s key chain runs ++ [("constructorArguments", .text encoded)]
  | none => return baseForm s key chain runs

def receiptOf (answer : Value) : Except Fault Receipt := do
  if ← isDone answer then
    return ⟨true, .text "Verificação enviada com sucesso", ← answer.getD "result" .null⟩
  else
    return ⟨false, ← resultOr answer "Falha na verificação", .null⟩

def receiptOfReply (address : String) (reply : Reply) : Except Failure Receipt := do
  match ← checkedAnswerOf address reply with
  | .error reason => return ⟨false, .ofRaw reason, .null⟩
  | .ok answer => orFail (receiptOf answer)

/-- The receipt for a network that is not known. -/
def unknownChain (chain : Int) : Except Fault Receipt := do
  return ⟨false, .text ("Rede não encontrada para chain ID " ++ (← Value.printInt chain)), .null⟩

/-- The receipt where there is no key. -/
def keyless : Receipt :=
  ⟨false, .text "ETHERSCAN_API_KEY não configurada. Adicione nas variáveis de ambiente.", .null⟩

/-- Submits a contract; the reply is what the service answers. -/
def submit (explorer : Explorer) (reply : Reply) (s : Submission) : Outcome Receipt :=
  if (Network.find? (.int s.chain)).isNone then
    { result := orFail (unknownChain s.chain) }
  else
    match explorer.key with
    | none => { result := .ok keyless }
    | some key =>
        match formOf s key with
        | .error failure => { result := .error failure }
        | .ok form =>
            { result := receiptOfReply explorer.address reply
              call := some ⟨.post, explorer.address, [("chainid", .int s.chain)], some form⟩ }

end Submit

section Status

def standingOf (answer : Value) : Except Fault Standing := do
  let passed ← isDone answer
  return ⟨passed, ← resultOr answer "Status desconhecido"⟩

def standingOfReply (reply : Reply) : Except Failure Standing := do
  match ← answerOf reply with
  | .error _ => return ⟨false, .text "Falha ao consultar status"⟩
  | .ok answer => orFail (standingOf answer)

/-- Asks how a submission stands; the reply is what the service answers. -/
def standing (explorer : Explorer) (reply : Reply) (ticket : String) (chain : Value) :
    Outcome Standing :=
  if (Network.find? chain).isNone then
    { result := .ok ⟨false, .text "Rede não encontrada"⟩ }
  else
    match explorer.key with
    | none => { result := .ok ⟨false, .text "API key não configurada"⟩ }
    | some key =>
        { result := standingOfReply reply
          call := some
            ⟨.get, explorer.address,
              [("chainid", chain), ("module", .text "contract"),
                ("action", .text "checkverifystatus"), ("guid", .text ticket),
                ("apikey", .text key)], none⟩ }

end Status

end Explorer

end ContractBench.Verification
