import ContractBench.Request.Field

/-! # Submissions

A deployed contract whose source a client wants a block explorer to verify.
-/

namespace ContractBench.Verification

def addressLength : Nat := 42

/-- A request to verify a contract. -/
structure Submission where
  address : String
  chain : Int
  source : RawText
  contractName : RawText
  /-- The long version of the compiler, with or without the `v` in front. -/
  compilerVersion : RawText
  abi : List Value
  arguments : List Value
  optimised : Bool
  runs : Int
  evm : RawText
deriving Repr

namespace Submission

def read : Request.Reader Submission := fun v =>
  ((((((((((Request.required v "contract_address"
      (Request.sized addressLength (some addressLength) Request.soundText)).map Submission.mk).take
    (Request.required v "chain_id" Request.wholeNumber)).take
    (Request.required v "source_code" Request.text)).take
    (Request.required v "contract_name" Request.text)).take
    (Request.required v "compiler_version" Request.text)).take
    (Request.withDefault v "abi" [] (Request.listOf Request.fields))).take
    (Request.withDefault v "constructor_args" [] (Request.listOf Request.anything))).take
    (Request.withDefault v "optimization_enabled" true Request.truth)).take
    (Request.withDefault v "optimization_runs" 200 Request.wholeNumber)).take
    (Request.withDefault v "evm_version" ↑"paris" Request.text)

def toFields (s : Submission) : List (String × Value) :=
  [("contract_address", .text s.address), ("chain_id", .int s.chain),
    ("source_code", .ofRaw s.source), ("contract_name", .ofRaw s.contractName),
    ("compiler_version", .ofRaw s.compilerVersion), ("abi", .list s.abi),
    ("constructor_args", .list s.arguments), ("optimization_enabled", .bool s.optimised),
    ("optimization_runs", .int s.runs), ("evm_version", .ofRaw s.evm)]

end Submission

end ContractBench.Verification
