import ContractBench.Compiler.Compilation

/-! # Selection of the contract

What the output of the compiler must have been for a contract to be selected from it.
-/

namespace ContractBench.Compiler

/-- What a contract says is what the output of the compiler says: no error, and for a file first of
all a contract of this name with this code. -/
structure Selected (output : Value) (fileName : RawText) (contract : Contract) : Prop where
  faultless : ∃ reports, (output.getD "errors" (.list []) >>= Value.items) = .ok reports ∧
    ∀ report ∈ reports, report.getD "severity" .null ≠ .ok (.text "error")
  first : ∃ name data rest code digits,
    (output.getD "contracts" (.table []) >>= (Value.getRaw · fileName)) =
      .ok (some (.table ((name, data) :: rest))) ∧
    Request.text name = .ok contract.name ∧
    codeOf data = .ok code ∧ code.isTruthy = true ∧
    code.shown = .ok digits ∧ contract.bytecode = "0x" ++ digits ∧
    ∀ text, code.raw? = some text → text = digits ∧ text ≠ ""

/-- Reports among which there is no error have another severity each. -/
theorem severity_ne_of_errorsAmong {reports : List Value} (h : errorsAmong reports = .ok []) :
    ∀ report ∈ reports, report.getD "severity" .null ≠ .ok (.text "error") := by
  induction reports with
  | nil => exact fun _ hmem => nomatch hmem
  | cons report reports ih =>
      obtain ⟨severity, hseverity, hrest⟩ := bind_eq_ok_iff.mp h
      split at hrest
      next herror =>
        obtain ⟨first, -, hmore⟩ := bind_eq_ok_iff.mp hrest
        obtain ⟨more, -, hnil⟩ := bind_eq_ok_iff.mp hmore
        cases hnil
      next hother =>
        intro other hmem
        rcases List.mem_cons.mp hmem with rfl | hmem
        · rw [hseverity]
          intro heq
          cases heq
          exact hother (by simp [Value.same])
        · exact ih hrest other hmem

/-- An output is accepted as it is, and only if its list of reports has no error. -/
theorem accepted_eq_ok_iff {output found : Value} :
    accepted output = .ok found ↔ found = output ∧ diagnostics output = .ok [] := by
  unfold accepted
  rw [bind_eq_ok_iff]
  simp only [orFail_eq_ok]
  constructor
  · rintro ⟨errors, herrors, h⟩
    cases errors with
    | nil => exact ⟨(Except.ok.inj h).symm, herrors⟩
    | cons error errors => cases h
  · rintro ⟨rfl, herrors⟩
    exact ⟨[], herrors, rfl⟩

theorem faultless_of_diagnostics {output : Value} (h : diagnostics output = .ok []) :
    ∃ reports, (output.getD "errors" (.list []) >>= Value.items) = .ok reports ∧
      ∀ report ∈ reports, report.getD "severity" .null ≠ .ok (.text "error") := by
  obtain ⟨errors, herrors, hrest⟩ := bind_eq_ok_iff.mp h
  obtain ⟨reports, hreports, hnone⟩ := bind_eq_ok_iff.mp hrest
  exact ⟨reports, bind_eq_ok_iff.mpr ⟨errors, herrors, hreports⟩, severity_ne_of_errorsAmong hnone⟩

/-- The first contract of a file is the first entry of the table that the output has for it. -/
theorem firstContract_eq_ok {output name data : Value} {fileName : RawText}
    (h : firstContract output fileName = .ok (name, data)) :
    ∃ rest, (output.getD "contracts" (.table []) >>= (Value.getRaw · fileName)) =
      .ok (some (.table ((name, data) :: rest))) := by
  obtain ⟨files, hfiles, h⟩ := bind_eq_ok_iff.mp h
  obtain ⟨contracts, hcontracts, h⟩ := bind_eq_ok_iff.mp h
  rw [orFail_eq_ok] at hfiles hcontracts
  cases contracts with
  | none => cases h
  | some contracts =>
      dsimp only [Option.getD_some] at h
      split at h
      next => cases h
      next =>
        obtain ⟨entries, hentries, h⟩ := bind_eq_ok_iff.mp h
        rw [orFail_eq_ok, Value.entries_eq_ok_iff] at hentries
        cases entries with
        | nil => cases h
        | cons first rest =>
            cases h
            subst hentries
            exact ⟨rest, bind_eq_ok_iff.mpr ⟨files, hfiles, hcontracts⟩⟩

theorem orInvalid_eq_ok {α : Type} {checked : Request.Checked α} {a : α} :
    orInvalid checked = .ok a ↔ checked = .ok a := by
  cases checked <;> simp [orInvalid]

/-- A text counts as present unless it is empty, and it is shown as it is. -/
theorem shown_of_raw? {v : Value} {t : RawText} (ht : v.raw? = some t)
    (htruthy : v.isTruthy = true) : v.shown = .ok t ∧ t ≠ "" := by
  refine ⟨by rw [Value.shown, ht], ?_⟩
  rintro rfl
  cases v with
  | text s => simp_all [Value.raw?, Value.isTruthy]
  | brokenText ps =>
      have hpoints := congrArg RawText.points (Option.some.inj ht)
      simp_all [RawText.ofNumbers, Value.isTruthy]
  | _ => cases ht

/-- A contract that is read from its fields has them. -/
theorem Contract.read_eq_ok {abi bytecode name : Value} {contract : Contract}
    (h : Contract.read (Value.ofFields
      [("abi", abi), ("bytecode", bytecode), ("contract_name", name)]) = .ok contract) :
    Request.text bytecode = .ok contract.bytecode ∧ Request.text name = .ok contract.name := by
  obtain ⟨_, _, hinputs, -, rfl⟩ := Request.Checked.take_eq_ok_iff.mp h
  obtain ⟨_, _, hnames, -, rfl⟩ := Request.Checked.take_eq_ok_iff.mp hinputs
  obtain ⟨_, _, hcodes, hname, rfl⟩ := Request.Checked.take_eq_ok_iff.mp hnames
  obtain ⟨_, _, habi, hcode, rfl⟩ := Request.Checked.take_eq_ok_iff.mp hcodes
  obtain ⟨_, -, rfl⟩ := Request.Checked.map_eq_ok_iff.mp habi
  obtain ⟨found, hfound, hcode⟩ := Request.required_eq_ok_iff.mp hcode
  obtain ⟨named, hnamed, hname⟩ := Request.required_eq_ok_iff.mp hname
  rw [Value.field?_ofFields] at hfound hnamed
  cases hfound
  cases hnamed
  exact ⟨hcode, hname⟩

/-- A contract that is selected is the one that the output has first. -/
theorem selected_of_select {output : Value} {fileName : RawText} {contract : Contract}
    (hdiagnostics : diagnostics output = .ok []) (h : select output fileName = .ok contract) :
    Selected output fileName contract := by
  refine ⟨faultless_of_diagnostics hdiagnostics, ?_⟩
  obtain ⟨⟨name, data⟩, hfirst, h⟩ := bind_eq_ok_iff.mp h
  obtain ⟨code, hcode, h⟩ := bind_eq_ok_iff.mp h
  rw [orFail_eq_ok] at hcode
  split at h
  next => cases h
  next htruthy =>
    obtain ⟨abi, -, h⟩ := bind_eq_ok_iff.mp h
    obtain ⟨inputs, -, h⟩ := bind_eq_ok_iff.mp h
    obtain ⟨digits, hdigits, h⟩ := bind_eq_ok_iff.mp h
    rw [orFail_eq_ok] at hdigits
    obtain ⟨found, hread, rfl⟩ := Request.Checked.map_eq_ok_iff.mp (orInvalid_eq_ok.mp h)
    obtain ⟨hbytecode, hname⟩ := Contract.read_eq_ok hread
    rw [Request.text_ofRaw, Except.ok.injEq] at hbytecode
    obtain ⟨rest, hrest⟩ := firstContract_eq_ok hfirst
    have hpresent : code.isTruthy = true := by simpa using htruthy
    refine ⟨name, data, rest, code, digits, hrest, hname, hcode, hpresent, hdigits,
      hbytecode.symm, fun text htext => ?_⟩
    -- Code that is a text is told behind the mark as it stands.
    obtain ⟨hshown, hsome⟩ := shown_of_raw? htext hpresent
    exact ⟨Except.ok.inj (hshown.symm.trans hdigits), hsome⟩

theorem selected_of_contractOf {library : Source.Library} {job : Job} {set : Source.SourceSet}
    {run : Run} {contract : Contract} (h : contractOf library job set run = .ok contract) :
    ∃ output, run.output? = .ok output ∧ Selected output job.fileName contract ∧
      contract.flattened =
        some ↑(Source.flatten library.scope set.dependencies ⟨job.fileName, job.source⟩) := by
  obtain ⟨output, houtput, hrun⟩ := bind_eq_ok_iff.mp h
  obtain ⟨found, haccepted, hrest⟩ := bind_eq_ok_iff.mp hrun
  obtain ⟨rfl, hdiagnostics⟩ := accepted_eq_ok_iff.mp haccepted
  obtain ⟨selected, hselect, hcontract⟩ := bind_eq_ok_iff.mp hrest
  cases hcontract
  have hselected := selected_of_select hdiagnostics hselect
  exact ⟨found, houtput, ⟨hselected.faultless, hselected.first⟩, rfl⟩

end ContractBench.Compiler
