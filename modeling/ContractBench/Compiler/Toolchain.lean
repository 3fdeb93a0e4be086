import ContractBench.Compiler.Release

/-! # The toolchain

The compilers that are installed on the machine, and the outcomes of the installations to come.
-/

namespace ContractBench.Compiler

/-- The compilers of a machine. -/
structure Toolchain where
  /-- The versions that are installed. -/
  installed : List RawText := []
  /-- What the next installations come to: nothing, or a failure. Those after them succeed. -/
  outcomes : List (Option Failure) := []
  /-- What keeps the machine from telling where an executable is. -/
  locating : Option Failure := none
  /-- The versions that were to be installed, in order, failures included. -/
  installs : List RawText := []

namespace Toolchain

def install (t : Toolchain) (version : RawText) : Option Failure × Toolchain :=
  let rest := { t with outcomes := t.outcomes.tail, installs := t.installs ++ [version] }
  match t.outcomes.head?.join with
  | some failure => (some failure, rest)
  | none => (none, { rest with installed := t.installed ++ [version] })

/-- A path from the root without empty steps and steps that stay. -/
def plainPath (path : RawText) : RawText :=
  "/" ++ .joined "/" ((path.pieces '/').filter fun step => step ≠ "" ∧ step ≠ ".")

/-- Where the executable of a version is kept. -/
def executable (version : RawText) : RawText := plainPath ("/opt/solcx/solc-v" ++ version)

/-- The failure to get the compiler of a version, which repeats the text of what kept the machine
from it. -/
def unavailable (version : RawText) (failure : Failure) : Failure :=
  .loading ("Falha ao carregar o compilador Solidity " ++ version ++ ": " ++ failure.message)

def locate (t : Toolchain) (version : RawText) : Except Failure RawText :=
  match t.locating with
  | some failure => .error (unavailable version failure)
  | none => .ok (executable version)

/-- The executable of a version, which is installed if it is not yet. -/
def obtain (t : Toolchain) (version : RawText) : Except Failure RawText × Toolchain :=
  if version ∈ t.installed then
    (t.locate version, t)
  else
    match t.install version with
    | (some failure, t) => (.error (unavailable version failure), t)
    | (none, t) => (t.locate version, t)

end Toolchain

end ContractBench.Compiler
