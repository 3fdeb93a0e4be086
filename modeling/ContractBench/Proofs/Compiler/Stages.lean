import ContractBench.Proofs.Compiler.Selection

/-! # Stages of a compilation

A compilation chooses a release, loads its compiler, collects the sources and runs the compiler.
The module says what it comes to by the stage that fails.
-/

namespace ContractBench.Compiler

section Stages

variable (library : Source.Library) (surroundings : Surroundings) (workbench : Workbench)
  (job : Job)

/-- The first stage: the release of the version of a job. -/
def chosen : Except Failure Release := (workbench.catalog.find surroundings.manifest job.version).1

/-- The second stage: the compiler of a release. -/
def loaded (release : Release) : Except Failure Binary :=
  (workbench.loader.load workbench.toolchain release).1

/-- The third stage: the sources of a job. -/
def resolved : Source.Resolution :=
  Source.resolveAll library surroundings.web job.source job.fileName

/-- The compiler of a job is loaded, and its sources are collected. -/
structure Ready (binary : Binary) (set : Source.SourceSet) : Prop where
  loaded : ∃ release, chosen surroundings workbench job = .ok release ∧
    Compiler.loaded workbench release = .ok binary
  resolved : (Compiler.resolved library surroundings job).outcome = .ok set

/-- All that a compilation can come to: each stage fails or hands on to the next, and nothing is
done for a stage behind one that fails. -/
theorem compile_cases :
    (∃ failure, chosen surroundings workbench job = .error failure ∧
      (compile library surroundings workbench job).outcome = .error failure ∧
      (compile library surroundings workbench job).workbench.toolchain = workbench.toolchain ∧
      (compile library surroundings workbench job).asked = [] ∧
      (compile library surroundings workbench job).runs = []) ∨
    (∃ release failure, chosen surroundings workbench job = .ok release ∧
      loaded workbench release = .error failure ∧
      (compile library surroundings workbench job).outcome = .error failure ∧
      (compile library surroundings workbench job).asked = [] ∧
      (compile library surroundings workbench job).runs = []) ∨
    (∃ release binary failure, chosen surroundings workbench job = .ok release ∧
      loaded workbench release = .ok binary ∧
      (resolved library surroundings job).outcome = .error failure ∧
      (compile library surroundings workbench job).outcome = .error failure ∧
      (compile library surroundings workbench job).runs = []) ∨
    ∃ binary set, Ready library surroundings workbench job binary set ∧
      (compile library surroundings workbench job).outcome =
        (contractOf library job set surroundings.run).map (fun contract => (contract, binary)) ∧
      (compile library surroundings workbench job).runs =
        [(binary.executable, Input.ofJob job set)] := by
  unfold compile
  rcases hfind : workbench.catalog.find surroundings.manifest job.version with
    ⟨failure | release, catalog⟩
  · exact Or.inl ⟨failure, congrArg Prod.fst hfind, rfl, rfl, rfl, rfl⟩
  have hchosen : chosen surroundings workbench job = .ok release := congrArg Prod.fst hfind
  rcases hload : workbench.loader.load workbench.toolchain release with
    ⟨failure | binary, loader, toolchain⟩
  · exact Or.inr (Or.inl ⟨release, failure, hchosen, congrArg Prod.fst hload, by simp [hload],
      by simp [hload], by simp [hload]⟩)
  have hloaded : loaded workbench release = .ok binary := congrArg Prod.fst hload
  refine Or.inr (Or.inr ?_)
  simp only [hload, compileWith]
  cases hset : (Source.resolveAll library surroundings.web job.source job.fileName).outcome with
  | error failure =>
      exact Or.inl ⟨release, binary, failure, hchosen, hloaded, hset, rfl, rfl⟩
  | ok set => exact Or.inr ⟨binary, set, ⟨⟨release, hchosen, hloaded⟩, hset⟩, rfl, rfl⟩

/-- What a compilation comes to, as its stages one after the other. -/
theorem compile_outcome : (compile library surroundings workbench job).outcome = (do
    let release ← chosen surroundings workbench job
    let binary ← loaded workbench release
    let set ← (resolved library surroundings job).outcome
    (contractOf library job set surroundings.run).map fun contract => (contract, binary)) := by
  obtain ⟨failure, hchosen, houtcome, -⟩ | ⟨release, failure, hchosen, hloaded, houtcome, -⟩ |
    ⟨release, binary, failure, hchosen, hloaded, hresolved, houtcome, -⟩ |
    ⟨binary, set, ⟨⟨release, hchosen, hloaded⟩, hresolved⟩, houtcome, -⟩ :=
    compile_cases library surroundings workbench job
  · rw [houtcome, hchosen]; rfl
  · simp only [houtcome, hchosen, hloaded, bind, Except.bind]
  · simp only [houtcome, hchosen, hloaded, hresolved, bind, Except.bind]
  · simp only [houtcome, hchosen, hloaded, hresolved, bind, Except.bind]

/-- A compilation succeeds if its compiler is loaded, its sources are collected, and the run yields
a contract. -/
theorem outcome_eq_ok_iff {contract : Contract} {binary : Binary} :
    (compile library surroundings workbench job).outcome = .ok (contract, binary) ↔
      ∃ set, Ready library surroundings workbench job binary set ∧
        contractOf library job set surroundings.run = .ok contract := by
  simp only [compile_outcome, bind_eq_ok_iff, map_eq_ok_iff]
  constructor
  · rintro ⟨release, hchosen, _, hloaded, set, hresolved, _, hcontract, heq⟩
    cases heq
    exact ⟨set, ⟨⟨release, hchosen, hloaded⟩, hresolved⟩, hcontract⟩
  · rintro ⟨set, ⟨⟨release, hchosen, hloaded⟩, hresolved⟩, hcontract⟩
    exact ⟨release, hchosen, binary, hloaded, set, hresolved, contract, hcontract, rfl⟩

end Stages

end ContractBench.Compiler
