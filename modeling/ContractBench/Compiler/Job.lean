import ContractBench.Request.Field

/-! # Compilation jobs

What a client asks the workbench to compile, and how it is read from the fields of a request.
-/

namespace ContractBench.Compiler

/-- The machines that code can be compiled for. -/
inductive EvmVersion where
  | paris | shanghai | cancun | london | berlin | istanbul
deriving DecidableEq, Repr

namespace EvmVersion

def name : EvmVersion → String
  | paris => "paris"
  | shanghai => "shanghai"
  | cancun => "cancun"
  | london => "london"
  | berlin => "berlin"
  | istanbul => "istanbul"

def all : List EvmVersion := [paris, shanghai, cancun, london, berlin, istanbul]

def ofName? (s : String) : Option EvmVersion := all.find? fun v => v.name == s

theorem mem_all (v : EvmVersion) : v ∈ all := by cases v <;> decide

theorem ofName?_name (v : EvmVersion) : ofName? v.name = some v := by cases v <;> decide

def read : Request.Reader EvmVersion
  | .text s =>
      match ofName? s with
      | some v => .ok v
      | none => .broken .literal (.text s)
  | v => .broken .literal v

end EvmVersion

/-- The name of a source that comes without one. -/
def defaultFileName : RawText := "Contract.sol"

/-- The version of the compiler that is used unless another is asked for. -/
def defaultVersion : RawText := "0.8.20"

/-- The number of runs that code is optimised for unless another is asked for. -/
def defaultRuns : Int := 200

/-- The least and the greatest number of runs to optimise for. -/
def runsRange : Int × Int := (1, 10000)

/-- A source to compile, and how. -/
structure Job where
  source : String
  fileName : RawText
  version : RawText
  optimised : Bool
  runs : Int
  evm : EvmVersion
deriving DecidableEq, Repr

namespace Job

def read : Request.Reader Job := fun v =>
  ((((((Request.required v "source_code" (Request.sized 1 none Request.soundText)).map Job.mk).take
    (Request.withDefault v "file_name" defaultFileName Request.text)).take
    (Request.withDefault v "solc_version" defaultVersion Request.text)).take
    (Request.withDefault v "optimization_enabled" true Request.truth)).take
    (Request.withDefault v "optimization_runs" defaultRuns
      (Request.between runsRange.1 runsRange.2 Request.wholeNumber))).take
    (Request.withDefault v "evm_version" .paris EvmVersion.read)

def toFields (job : Job) : List (String × Value) :=
  [("source_code", .text job.source), ("file_name", .ofRaw job.fileName),
    ("solc_version", .ofRaw job.version), ("optimization_enabled", .bool job.optimised),
    ("optimization_runs", .int job.runs), ("evm_version", .text job.evm.name)]

end Job

/-- A source to write as one file without compiling it. -/
structure FlatteningJob where
  source : String
  fileName : RawText
deriving DecidableEq, Repr

namespace FlatteningJob

def read : Request.Reader FlatteningJob := fun v =>
  ((Request.required v "source_code" (Request.sized 1 none Request.soundText)).map
    FlatteningJob.mk).take
    (Request.withDefault v "file_name" defaultFileName Request.text)

end FlatteningJob

end ContractBench.Compiler
