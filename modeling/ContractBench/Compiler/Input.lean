import ContractBench.Compiler.Job
import ContractBench.Source.SourceSet

/-! # Input of the compiler

What the compiler is given: the sources by path and the settings.
-/

namespace ContractBench.Compiler

/-- An input of the compiler. -/
structure Input where
  sources : List (RawText × String)
  optimised : Bool
  runs : Int
  evm : EvmVersion
deriving DecidableEq, Repr

namespace Input

/-- The input for a job with the sources that it needs. -/
def ofJob (job : Job) (set : Source.SourceSet) : Input :=
  ⟨set.compilerSources, job.optimised, job.runs, job.evm⟩

def language : String := "Solidity"

/-- What the compiler is asked to put out for every contract of every file. -/
def selection : Value :=
  Value.ofFields
    [("*", Value.ofFields [("*", Value.ofTexts ["abi", "evm.bytecode.object"])])]

def settings (input : Input) : Value :=
  Value.ofFields
    [("outputSelection", selection),
      ("optimizer", Value.ofFields
        [("enabled", .bool input.optimised), ("runs", .int input.runs)]),
      ("evmVersion", .text input.evm.name)]

end Input

end ContractBench.Compiler
