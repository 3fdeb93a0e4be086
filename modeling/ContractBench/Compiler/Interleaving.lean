import ContractBench.Compiler.Loader

/-! # Interleaved loads

Several callers that load compilers through one loader. A caller goes through its load in steps:
it enters, obtains the executable, leaves, and then announces the outcome to those that wait on
its ticket. Steps of different callers may come in any order.
-/

namespace ContractBench.Compiler

/-- Where a caller is in its load. -/
inductive Stage where
  | arriving
  /-- It has to obtain the executable. -/
  | obtaining (ticket : Nat)
  /-- It has what came of obtaining the executable. -/
  | leaving (ticket : Nat) (outcome : Except Failure RawText)
  /-- It has left, and others may still wait for its outcome. -/
  | announcing (ticket : Nat) (outcome : Except Failure Binary)
  | waiting (ticket : Nat)
  | done (outcome : Except Failure Binary)

/-- A caller and the release that it loads. -/
structure Caller where
  release : Release
  stage : Stage

/-- A loader, its callers, and the outcomes that were announced by ticket. -/
structure Crowd where
  loader : Loader
  callers : List Caller
  announced : List (Nat × Except Failure Binary) := []

/-- What happens next: a caller takes its next step, where obtaining an executable comes to the
given outcome, or the loader forgets its compilers. -/
inductive Move where
  | step (caller : Nat)
  | obtain (caller : Nat) (outcome : Except Failure RawText)
  | forget

namespace Crowd

/-- The crowd after a caller went on to a stage. -/
def advance (crowd : Crowd) (i : Nat) (caller : Caller) (stage : Stage) : Crowd :=
  { crowd with callers := crowd.callers.set i { caller with stage } }

/-- The stage of a caller that found something on entering. -/
def entered : Entry → Stage
  | .found binary => .done (.ok binary)
  | .own ticket => .obtaining ticket
  | .wait ticket => .waiting ticket

/-- The next step of a caller, if it has one. -/
def stepOf (crowd : Crowd) (i : Nat) (caller : Caller) : Option Crowd :=
  match caller.stage with
  | .arriving =>
      let (entry, loader) := crowd.loader.enter caller.release.version
      some ({ crowd with loader }.advance i caller (entered entry))
  | .leaving ticket outcome =>
      let (outcome, loader) := crowd.loader.leave caller.release outcome
      some ({ crowd with loader }.advance i caller (.announcing ticket outcome))
  | .announcing ticket outcome =>
      some ({ crowd with announced := crowd.announced ++ [(ticket, outcome)] }.advance i caller
        (.done outcome))
  -- Who waits goes on once the ticket is announced; obtaining ends by a move of its own.
  | .waiting ticket =>
      (Ordered.get? crowd.announced ticket).map fun outcome =>
        crowd.advance i caller (.done outcome)
  | .obtaining _ | .done _ => none

def move (crowd : Crowd) : Move → Option Crowd
  | .forget => some { crowd with loader := crowd.loader.forget }
  | .step i => do crowd.stepOf i (← crowd.callers[i]?)
  | .obtain i outcome => do
      let caller ← crowd.callers[i]?
      match caller.stage with
      | .obtaining ticket => return crowd.advance i caller (.leaving ticket outcome)
      | _ => none

/-- The crowd after moves, of which those that are not possible are passed over. -/
def run (crowd : Crowd) (moves : List Move) : Crowd :=
  moves.foldl (fun crowd m => (crowd.move m).getD crowd) crowd

def outcomes (crowd : Crowd) : List (Except Failure Binary) :=
  crowd.callers.filterMap fun caller =>
    match caller.stage with
    | .done outcome => some outcome
    | _ => none

/-- Callers that all load one release. -/
def gather (loader : Loader) (release : Release) (count : Nat) : Crowd :=
  ⟨loader, List.replicate count ⟨release, .arriving⟩, []⟩

def isObtaining (crowd : Crowd) : Bool :=
  crowd.callers.any fun caller => caller.stage matches .obtaining _

/-- One step of each of the first callers. -/
def round (count : Nat) : List Move := (List.range count).map .step

end Crowd

/-- Loads a release for several callers at once: all of them enter before the first one obtains
the executable. -/
def Loader.loadTogether (loader : Loader) (toolchain : Toolchain) (release : Release)
    (count : Nat) : List (Except Failure Binary) × Loader × Toolchain :=
  let crowd := (Crowd.gather loader release count).run (Crowd.round count)
  if crowd.isObtaining then
    let (outcome, toolchain) := toolchain.obtain release.version
    -- The first caller entered first, so it is the one that obtains, and the others wait.
    let moves := .obtain 0 outcome :: (.step 0 :: Crowd.round count)
    let crowd := crowd.run moves
    (crowd.outcomes, crowd.loader, toolchain)
  else
    (crowd.outcomes, crowd.loader, toolchain)

end ContractBench.Compiler
