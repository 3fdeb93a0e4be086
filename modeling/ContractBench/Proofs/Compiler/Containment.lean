import ContractBench.Proofs.Compiler.Stages

/-! # Containment of failures

A compilation ends with a result, whatever fails on the way: the failure becomes the result. The
module says so, and what a result says of the stages that were run.
-/

namespace ContractBench.Compiler

namespace Compilation

theorem failed_eq (message : RawText) (diagnostics : List RawText) :
    failed message diagnostics =
      .ok { success := false, message := some message, diagnostics } := by
  simp [failed, read, Request.required, Request.withDefault, Value.field?_ofFields,
    Ordered.get?, orInvalid, Request.truth, Request.Checked.map, Request.Checked.take,
    Request.Checked.within]

/-- A failure can always be told. -/
theorem exists_ofFailure (failure : Failure) : ∃ message diagnostics,
    ofFailure failure = .ok { success := false, message := some message, diagnostics } := by
  cases failure <;> exact ⟨_, _, failed_eq _ _⟩

/-- A success tells the contract and the long version of the compiler. -/
theorem ofContract_eq (contract : Contract) (binary : Binary) :
    ofContract contract binary =
      .ok { success := true, message := some successMessage, contract := some contract
            version := some binary.longVersion } := by
  simp [ofContract, read, Request.required, Request.withDefault, Value.field?_ofFields,
    Ordered.get?, orInvalid, Request.truth, Request.Checked.map, Request.Checked.take,
    Request.Checked.within, ← Value.ofRaw_ofString, Except.map]

end Compilation

section Containment

variable (library : Source.Library) (surroundings : Surroundings) (workbench : Workbench)
  (job : Job)

/-- What a result says is what the stages came to. -/
structure Faithful (c : Compilation) : Prop where
  outcome : c.success = true ↔
    ∃ compiled, (compile library surroundings workbench job).outcome = .ok compiled
  /-- A success tells the contract that the output has first for the file, the long version of the
  compiler that was loaded, and the source as flattening it alone writes it. -/
  success : c.success = true → ∃ binary set output contract, ∃ flattened : String,
    Ready library surroundings workbench job binary set ∧
    surroundings.run.output? = .ok output ∧
    Selected output job.fileName contract ∧
    c.contract = some contract ∧ c.version = some binary.longVersion ∧
    contract.flattened = some ↑flattened ∧
    (Source.flattenResolved library surroundings.web job.source job.fileName).1 = .ok flattened
  failure : c.success = false → c.contract = none ∧ c.version = none

/-- A failure becomes a result that is faithful to it. -/
theorem exists_faithful_of_error {failure : Failure}
    (h : (compile library surroundings workbench job).outcome = .error failure) :
    ∃ c, (compile library surroundings workbench job).result = .ok c ∧
      Faithful library surroundings workbench job c := by
  obtain ⟨message, diagnostics, htold⟩ := Compilation.exists_ofFailure failure
  exact ⟨_, by rw [Report.result, h]; exact htold, ⟨by simp [h], by simp, fun _ => ⟨rfl, rfl⟩⟩⟩

/-- Every compilation has a result, which is faithful to its stages. -/
theorem exists_faithful : ∃ c, (compile library surroundings workbench job).result = .ok c ∧
    Faithful library surroundings workbench job c := by
  cases houtcome : (compile library surroundings workbench job).outcome with
  | error failure => exact exists_faithful_of_error _ _ _ _ houtcome
  | ok compiled =>
      obtain ⟨contract, binary⟩ := compiled
      obtain ⟨set, hready, hcontract⟩ := (outcome_eq_ok_iff _ _ _ _).mp houtcome
      obtain ⟨output, houtput, hselected, hflattened⟩ := selected_of_contractOf hcontract
      have hset : (Source.resolveAll library surroundings.web job.source job.fileName).outcome =
          .ok set := hready.resolved
      have hresult : (compile library surroundings workbench job).result =
          .ok { success := true, message := some Compilation.successMessage
                contract := some contract, version := some binary.longVersion } := by
        rw [Report.result, houtcome]
        exact Compilation.ofContract_eq contract binary
      refine ⟨_, hresult, ⟨by simp [houtcome], fun _ => ?_, by simp⟩⟩
      refine ⟨binary, set, output, contract, _, hready, houtput, hselected, rfl, rfl,
        hflattened, ?_⟩
      simp only [Source.flattenResolved, hset, Except.map]

/-- The failures of a compilation end in its result: it has one, whatever fails, which is faithful
to the stages, and no stage runs behind one that failed. -/
theorem compile_contained :
    (∃ c, (compile library surroundings workbench job).result = .ok c ∧
      Faithful library surroundings workbench job c) ∧
    ((∀ release, chosen surroundings workbench job ≠ .ok release) →
      (compile library surroundings workbench job).workbench.toolchain = workbench.toolchain ∧
      (compile library surroundings workbench job).asked = [] ∧
      (compile library surroundings workbench job).runs = []) ∧
    (∀ release, chosen surroundings workbench job = .ok release →
      (∀ binary, loaded workbench release ≠ .ok binary) →
      (compile library surroundings workbench job).asked = [] ∧
      (compile library surroundings workbench job).runs = []) ∧
    (compile library surroundings workbench job).runs.length ≤ 1 := by
  refine ⟨exists_faithful library surroundings workbench job, ?_⟩
  obtain ⟨failure, hchosen, -, htoolchain, hasked, hruns⟩ |
    ⟨release, failure, hchosen, hloaded, -, hasked, hruns⟩ |
    ⟨release, binary, failure, hchosen, hloaded, -, -, hruns⟩ |
    ⟨binary, set, ⟨⟨release, hchosen, hloaded⟩, -⟩, -, hruns⟩ :=
    compile_cases library surroundings workbench job
  · refine ⟨fun _ => ⟨htoolchain, hasked, hruns⟩, fun release h => ?_, by simp [hruns]⟩
    cases hchosen.symm.trans h
  · exact ⟨fun h => absurd hchosen (h release), fun _ _ _ => ⟨hasked, hruns⟩, by simp [hruns]⟩
  · refine ⟨fun h => absurd hchosen (h release), fun other hother h => ?_, by simp [hruns]⟩
    cases hchosen.symm.trans hother
    exact absurd hloaded (h binary)
  · refine ⟨fun h => absurd hchosen (h release), fun other hother h => ?_, by simp [hruns]⟩
    cases hchosen.symm.trans hother
    exact absurd hloaded (h binary)

end Containment

end ContractBench.Compiler
