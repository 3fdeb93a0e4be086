import ContractBench.Compiler.Catalog
import ContractBench.Compiler.Contract
import ContractBench.Compiler.Input
import ContractBench.Compiler.Loader
import ContractBench.Compiler.Output
import ContractBench.Source.Flattening

/-! # Compilation

Compiles a job: chooses the release, loads its compiler, collects the sources, runs the compiler
and selects the contract. A failure at any point ends the compilation and becomes its result.
-/

namespace ContractBench.Compiler

/-- What clients are told of a compilation. -/
structure Compilation where
  success : Bool
  message : Option RawText := none
  diagnostics : List RawText := []
  contract : Option Contract := none
  /-- The long version of the compiler. -/
  version : Option RawText := none
deriving Repr

namespace Compilation

def unknownFailure : String := "Erro desconhecido na compilação"

def successMessage : String := "Contrato compilado com sucesso"

def read : Request.Reader Compilation := fun v =>
  (((((Request.required v "success" Request.truth).map Compilation.mk).take
    (Request.withDefault v "message" none (Request.optional Request.text))).take
    (Request.withDefault v "diagnostics" [] (Request.listOf Request.text))).take
    (Request.withDefault v "contract" none
      (Request.optional (Request.model Contract.read)))).take
    (Request.withDefault v "compiler_version" none (Request.optional Request.text))

/-- The result of a compilation that failed. It is read from its fields, as a client gives them. -/
def failed (message : RawText) (diagnostics : List RawText) : Except Failure Compilation :=
  orInvalid (read (Value.ofFields
    [("success", .bool false), ("message", .ofRaw message),
      ("diagnostics", .ofRaws diagnostics)]))

/-- The result that a failure becomes. One without text gets a text unless the workbench itself
reports it. -/
def ofFailure : Failure → Except Failure Compilation
  | .compilation diagnostics => failed (Failure.compilation diagnostics).message diagnostics
  | failure =>
      let message := failure.message
      failed (if message = "" ∧ !failure.isReported then unknownFailure else message) []

/-- The result of a compilation that succeeded. -/
def ofContract (contract : Contract) (binary : Binary) : Except Failure Compilation :=
  (orInvalid (read (Value.ofFields
    [("success", .bool true), ("message", .text successMessage),
      ("compiler_version", .ofRaw binary.longVersion)]))).map
        fun c => { c with contract := some contract }

def ofOutcome : Except Failure (Contract × Binary) → Except Failure Compilation
  | .ok (contract, binary) => ofContract contract binary
  | .error failure => ofFailure failure

/-- The contract as a value, null where there is none. -/
def contractValue (c : Compilation) : Value :=
  match c.contract with
  | some contract => contract.toValue
  | none => .null

def toFields (c : Compilation) : List (String × Value) :=
  [("success", .bool c.success), ("message", .ofRaw? c.message),
    ("diagnostics", .ofRaws c.diagnostics), ("contract", c.contractValue),
    ("compiler_version", .ofRaw? c.version)]

end Compilation

/-- What the world outside answers during a compilation. -/
structure Surroundings where
  /-- The answer for the manifest of releases. -/
  manifest : Reply
  web : Web
  /-- What a run of the compiler comes to. -/
  run : Run

/-- What lives from one compilation to the next. -/
structure Workbench where
  catalog : Catalog := {}
  loader : Loader := {}
  toolchain : Toolchain := {}

/-- A compilation and what was done for it. -/
structure Report where
  outcome : Except Failure (Contract × Binary)
  workbench : Workbench
  /-- The paths of the library that were asked for. -/
  asked : List RawText := []
  /-- The executables that were run, with their inputs. -/
  runs : List (RawText × Input) := []

namespace Report

/-- The result of the compilation. -/
def result (report : Report) : Except Failure Compilation := Compilation.ofOutcome report.outcome

end Report

/-- The contract that a run yields for a job, with the source in one file. -/
def contractOf (library : Source.Library) (job : Job) (set : Source.SourceSet) (run : Run) :
    Except Failure Contract := do
  let output ← accepted (← run.output?)
  let contract ← select output job.fileName
  return { contract with
    flattened :=
      some ↑(Source.flatten library.scope set.dependencies ⟨job.fileName, job.source⟩) }

/-- Compiles a job once its compiler is loaded. -/
def compileWith (library : Source.Library) (surroundings : Surroundings) (job : Job)
    (workbench : Workbench) (binary : Binary) : Report :=
  let resolution := Source.resolveAll library surroundings.web job.source job.fileName
  match resolution.outcome with
  | .error failure => { outcome := .error failure, workbench, asked := resolution.asked }
  | .ok set =>
      { outcome := (contractOf library job set surroundings.run).map fun contract =>
          (contract, binary)
        workbench
        asked := resolution.asked
        runs := [(binary.executable, Input.ofJob job set)] }

/-- Compiles a job. -/
def compile (library : Source.Library) (surroundings : Surroundings) (workbench : Workbench)
    (job : Job) : Report :=
  match workbench.catalog.find surroundings.manifest job.version with
  | (.error failure, catalog) =>
      { outcome := .error failure, workbench := { workbench with catalog } }
  | (.ok release, catalog) =>
      match workbench.loader.load workbench.toolchain release with
      | (.error failure, loader, toolchain) =>
          { outcome := .error failure, workbench := { catalog, loader, toolchain } }
      | (.ok binary, loader, toolchain) =>
          compileWith library surroundings job { catalog, loader, toolchain } binary

end ContractBench.Compiler
