import ContractBench.Compiler.Toolchain

/-! # The loader

Keeps the compilers that were loaded, by version. A load takes the table of the loader twice for
itself: once to enter, where it finds the compiler, or another load of the version that is under
way, or takes the load over; and once to leave, with the compiler or without. In between it
obtains the executable, while others may enter.
-/

namespace ContractBench.Compiler

/-- A compiler that was loaded. -/
structure Binary where
  version : RawText
  longVersion : RawText
  executable : RawText
  /-- The number of compilers that were loaded before it. -/
  serial : Nat
deriving DecidableEq, Repr

/-- The state of a loader. -/
structure Loader where
  /-- The loaded compilers by version, in the order of their loading. -/
  ready : List (RawText × Binary) := []
  /-- The loads under way by version, with their tickets. -/
  pending : List (RawText × Nat) := []
  /-- The number of tickets that were given out. -/
  tickets : Nat := 0
  /-- The number of compilers that were loaded. -/
  loaded : Nat := 0
deriving Repr

/-- What a load finds when it enters. -/
inductive Entry where
  /-- The compiler is loaded. -/
  | found (binary : Binary)
  /-- The load is the one that obtains the compiler. -/
  | own (ticket : Nat)
  /-- Another load of the version is under way. -/
  | wait (ticket : Nat)
deriving DecidableEq, Repr

namespace Loader

def erase (version : RawText) (table : List (RawText × Nat)) : List (RawText × Nat) :=
  table.filter fun entry => entry.1 != version

/-- A load enters. -/
def enter (loader : Loader) (version : RawText) : Entry × Loader :=
  match Ordered.get? loader.ready version with
  | some binary => (.found binary, loader)
  | none =>
      match Ordered.get? loader.pending version with
      | some ticket => (.wait ticket, loader)
      -- Nobody has or loads this compiler: the load is the caller's own, under a new ticket.
      | none =>
          (.own loader.tickets,
            { loader with
              pending := loader.pending ++ [(version, loader.tickets)]
              tickets := loader.tickets + 1 })

/-- A load leaves without a compiler. -/
def withdraw (loader : Loader) (version : RawText) : Loader :=
  { loader with pending := erase version loader.pending }

/-- A load leaves with the executable of a release. -/
def publish (loader : Loader) (release : Release) (executable : RawText) : Binary × Loader :=
  let binary : Binary := ⟨release.version, release.longVersion, executable, loader.loaded⟩
  (binary,
    { loader with
      ready := Ordered.put release.version binary loader.ready
      pending := erase release.version loader.pending
      loaded := loader.loaded + 1 })

/-- A load leaves with what came of obtaining the executable. -/
def leave (loader : Loader) (release : Release) :
    Except Failure RawText → Except Failure Binary × Loader
  | .ok executable =>
      let (binary, loader) := loader.publish release executable
      (.ok binary, loader)
  | .error failure => (.error failure, loader.withdraw release.version)

/-- The failure of a load that waits for one that nobody ends. -/
def abandoned (version : RawText) : Failure :=
  Toolchain.unavailable version (.outage .runtime "")

/-- Loads the compiler of a release while nobody else does. -/
def load (loader : Loader) (toolchain : Toolchain) (release : Release) :
    Except Failure Binary × Loader × Toolchain :=
  match loader.enter release.version with
  | (.found binary, loader) => (.ok binary, loader, toolchain)
  | (.wait _, loader) => (.error (abandoned release.version), loader, toolchain)
  | (.own _, loader) =>
      let (outcome, toolchain) := toolchain.obtain release.version
      let (outcome, loader) := loader.leave release outcome
      (outcome, loader, toolchain)

def versions (loader : Loader) : List RawText := Ordered.keys loader.ready

def isLoading (loader : Loader) (version : RawText) : Bool := Ordered.has loader.pending version

def forget (loader : Loader) : Loader := { loader with ready := [] }

end Loader

end ContractBench.Compiler
