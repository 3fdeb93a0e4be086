import ContractBench.Abi.Signature
import ContractBench.Proofs.Abi.Partition
import ContractBench.Proofs.Value.Keys

/-! # Signatures of overloaded functions

A function with well-formed parameters has a signature. The table of signatures has one place for
each name, where the last function of the name stands. So all functions find their signatures there
exactly where those of one name have the same.
-/

namespace ContractBench.Abi

section Definitions

/-- A parameter has a type, and may have a name. -/
structure IsParameter (parameter : Value) : Prop where
  table : parameter.kind = .table
  type : ∃ type, parameter.field? "type" = some (.text type)
  name : ∀ v, parameter.field? "name" = some v → ∃ name, v = .text name

def AreParameters (v : Value) : Prop :=
  ∃ parameters, v = .list parameters ∧ ∀ parameter ∈ parameters, IsParameter parameter

/-- A function that has a name and well-formed parameters, of which it may state none. -/
structure IsSigned (entry : Value) : Prop where
  table : entry.kind = .table
  name : ∃ name, entry.field? "name" = some (.text name) ∧ name ≠ ""
  inputs : ∀ v, entry.field? "inputs" = some v → AreParameters v
  outputs : ∀ v, entry.field? "outputs" = some v → AreParameters v

/-- All functions of an interface are well-formed. -/
def AreSigned (abi : List Value) : Prop :=
  ∀ entry ∈ abi, hasType "function" entry = true → IsSigned entry

/-- The signature of a function stands under its name. -/
def Keeps (table : List (Value × Value)) (entry : Value) : Prop :=
  ∃ text, signature entry = .ok text ∧ Ordered.get? table (nameOf entry) = some (.ofRaw text)

/-- The last function of each name finds its signature. -/
def KeepsLast (table : List (Value × Value)) (functions : List Value) : Prop :=
  ∀ front f rest, functions = front ++ f :: rest → (∀ g ∈ rest, nameOf g ≠ nameOf f) →
    Keeps table f

/-- A table in which texts stand under different texts, of which none is broken. -/
structure HoldsTexts (table : List (Value × Value)) : Prop where
  keyed : Ordered.TextKeyed table
  texts : ∀ entry ∈ table, ∃ name text, entry = (.text name, .text text)

/-- Functions of one name have the same signature. -/
def AreSingle (functions : List Value) : Prop :=
  ∀ f ∈ functions, ∀ g ∈ functions, nameOf f = nameOf g → signature f = signature g

end Definitions

variable {entry parameter v : Value} {abi parameters functions : List Value}
  {table result : List (Value × Value)} {c : Categorised}

section Texts

theorem exists_parameterText (h : IsParameter parameter) :
    ∃ text : String, parameterText parameter = .ok text := by
  obtain ⟨type, htype⟩ := h.type
  obtain ⟨name, hname⟩ : ∃ name, (parameter.field? "name").getD (.text "") = .text name := by
    cases hfield : parameter.field? "name" with
    | none => exact ⟨"", rfl⟩
    | some v =>
        obtain ⟨name, rfl⟩ := h.name v hfield
        exact ⟨name, rfl⟩
  refine ⟨Text.strippedEnd (type ++ " " ++ name), ?_⟩
  rw [parameterText, Value.need_of_field? htype, Value.getD_of_table h.table, hname,
    ← RawText.trimmedEnd_ofString, RawText.ofString_append, RawText.ofString_append]
  rfl

theorem exists_parameterTexts (h : ∀ parameter ∈ parameters, IsParameter parameter) :
    ∃ texts : List String, parameterTexts parameters = .ok (texts.map .ofString) := by
  induction parameters with
  | nil => exact ⟨[], rfl⟩
  | cons parameter parameters ih =>
      obtain ⟨hfirst, hrest⟩ := List.forall_mem_cons.mp h
      obtain ⟨text, htext⟩ := exists_parameterText hfirst
      obtain ⟨texts, htexts⟩ := ih hrest
      refine ⟨text :: texts, ?_⟩
      rw [parameterTexts, htext, htexts]
      rfl

theorem exists_outputTypes (h : ∀ parameter ∈ parameters, IsParameter parameter) :
    ∃ types : List String, outputTypes parameters = .ok (types.map .text) := by
  induction parameters with
  | nil => exact ⟨[], rfl⟩
  | cons parameter parameters ih =>
      obtain ⟨hfirst, hrest⟩ := List.forall_mem_cons.mp h
      obtain ⟨type, htype⟩ := hfirst.type
      obtain ⟨types, htypes⟩ := ih hrest
      refine ⟨type :: types, ?_⟩
      rw [outputTypes, Value.need_of_field? htype, htypes]
      rfl

theorem textsFrom_map_text (position : Nat) (texts : List String) :
    Value.textsFrom position (texts.map .text) = .ok (texts.map .ofString) := by
  refine Value.textsFrom_eq_ok_iff.mpr ?_
  induction texts with
  | nil => rfl
  | cons s texts ih =>
      rw [List.map_cons, List.mapM_cons, ih]
      rfl

theorem exists_returnsText (htable : entry.kind = .table)
    (h : ∀ v, entry.field? "outputs" = some v → AreParameters v) :
    ∃ text : String, returnsText entry = .ok text := by
  rw [returnsText, Value.getD_of_table htable]
  cases houtputs : entry.field? "outputs" with
  | none => exact ⟨"", rfl⟩
  | some v =>
      obtain ⟨outputs, rfl, hall⟩ := h v houtputs
      obtain ⟨types, htypes⟩ := exists_outputTypes hall
      simp only [Option.getD_some, bind, Except.bind]
      split
      next =>
        refine ⟨" returns (" ++ Text.joined ", " types ++ ")", ?_⟩
        simp only [Value.items, htypes, textsFrom_map_text, RawText.joined_ofString,
          RawText.ofString_append]
        rfl
      next => exact ⟨"", rfl⟩

/-- A function with well-formed parameters has a signature. -/
theorem exists_signature (h : IsSigned entry) :
    ∃ text : String, signature entry = .ok text := by
  obtain ⟨name, hname, -⟩ := h.name
  obtain ⟨inputs, hinputs, hall⟩ : AreParameters ((entry.field? "inputs").getD (.list [])) := by
    cases hfield : entry.field? "inputs" with
    | none => exact ⟨[], rfl, List.forall_mem_nil _⟩
    | some v => exact h.inputs v hfield
  obtain ⟨texts, htexts⟩ := exists_parameterTexts hall
  obtain ⟨returns, hreturns⟩ := exists_returnsText h.table h.outputs
  refine ⟨name ++ "(" ++ Text.joined ", " texts ++ ")" ++ returns, ?_⟩
  simp only [signature, Value.getD_of_table h.table, hinputs, hname, hreturns, bind, Except.bind,
    Value.items, htexts, RawText.joined_ofString, RawText.ofString_append]
  rfl

end Texts

section Names

theorem IsSigned.kind_nameOf (h : IsSigned entry) : (nameOf entry).kind = .text := by
  obtain ⟨name, hname, -⟩ := h.name
  rw [nameOf, hname]
  rfl

theorem IsSigned.isNamed (h : IsSigned entry) : IsNamed entry := ⟨h.table, h.kind_nameOf⟩

/-- Of the functions of one name one is the last. -/
theorem exists_last {name : Value} (h : ∃ f ∈ functions, nameOf f = name) :
    ∃ front f rest, functions = front ++ f :: rest ∧ nameOf f = name ∧
      ∀ g ∈ rest, nameOf g ≠ name := by
  induction functions with
  | nil =>
      obtain ⟨_, hmem, -⟩ := h
      cases hmem
  | cons first others ih =>
      by_cases hlater : ∃ f ∈ others, nameOf f = name
      · obtain ⟨front, f, rest, rfl, hname, hrest⟩ := ih hlater
        exact ⟨first :: front, f, rest, rfl, hname, hrest⟩
      · obtain ⟨f, hmem, hname⟩ := h
        rcases List.mem_cons.mp hmem with rfl | hmem
        · exact ⟨[], f, others, rfl, hname, fun g hg heq => hlater ⟨g, hg, heq⟩⟩
        · exact absurd ⟨f, hmem, hname⟩ hlater

end Names

section Tables

theorem holdsTexts_nil : HoldsTexts [] := ⟨Ordered.textKeyed_nil, List.forall_mem_nil _⟩

theorem HoldsTexts.put (h : HoldsTexts table) (name text : String) :
    HoldsTexts (Ordered.put (.text name) (.text text) table) := by
  refine ⟨h.keyed.put rfl, fun entry hentry => ?_⟩
  obtain ⟨hkey, hvalue⟩ := Ordered.mem_put hentry
  have hname : ∃ name, entry.1 = .text name := by
    rcases hkey with heq | hthere
    · exact ⟨name, heq⟩
    · obtain ⟨other, hother, heq⟩ := List.mem_map.mp hthere
      obtain ⟨name, text, rfl⟩ := h.texts other hother
      exact ⟨name, heq.symm⟩
  have htext : ∃ text, entry.2 = .text text := by
    rcases hvalue with heq | ⟨key, hthere⟩
    · exact ⟨text, heq⟩
    · obtain ⟨_, text, heq⟩ := h.texts _ hthere
      exact ⟨text, (Prod.mk.inj heq).2⟩
  obtain ⟨name, hname⟩ := hname
  obtain ⟨text, htext⟩ := htext
  exact ⟨name, text, Prod.ext hname htext⟩

/-- A function writes its signature under its name. -/
theorem signaturesFrom_cons (table : List (Value × Value)) (functions : List Value)
    (h : IsSigned entry) : ∃ name text : String, nameOf entry = .text name ∧
    signature entry = .ok text ∧ signaturesFrom table (entry :: functions) =
      signaturesFrom (Ordered.put (.text name) (.text text) table) functions := by
  obtain ⟨text, htext⟩ := exists_signature h
  obtain ⟨name, hname, hsome⟩ := h.name
  have htruthy : (Value.text name).isTruthy = true := by simpa [Value.isTruthy] using hsome
  refine ⟨name, text, by rw [nameOf, hname]; rfl, htext, ?_⟩
  rw [signaturesFrom, Value.getD_of_table h.table, hname, htext]
  simp only [Option.getD_some, bind, Except.bind, htruthy, if_true, Value.isKey,
    Value.ofRaw_ofString]

/-- Well-formed functions have a table of signatures. Under a name that none of them has stands what
stood there, and under the others the signature of the last function of the name. -/
theorem exists_signaturesFrom (h : ∀ f ∈ functions, IsSigned f) (htable : HoldsTexts table) :
    ∃ result, signaturesFrom table functions = .ok result ∧ HoldsTexts result ∧
      (∀ name, (∀ f ∈ functions, nameOf f ≠ name) →
        Ordered.get? result name = Ordered.get? table name) ∧ KeepsLast result functions := by
  induction functions generalizing table with
  | nil => exact ⟨table, rfl, htable, fun _ _ => rfl, by simp [KeepsLast]⟩
  | cons first others ih =>
      obtain ⟨hfirst, hothers⟩ := List.forall_mem_cons.mp h
      obtain ⟨name, text, hname, htext, hstep⟩ := signaturesFrom_cons table others hfirst
      obtain ⟨result, hresult, htexts, hkept, hlast⟩ := ih hothers (htable.put name text)
      refine ⟨result, hstep.trans hresult, htexts, fun other hother => ?_, ?_⟩
      · obtain ⟨hne, hrest⟩ := List.forall_mem_cons.mp hother
        rw [hkept other hrest, htable.keyed.get?_put_of_ne rfl (hname ▸ hne)]
      · intro front f rest hsplit hrest
        cases front with
        | nil =>
            -- No other function of the name follows, so what is written first stays.
            cases hsplit
            refine ⟨text, htext, ?_⟩
            rw [hkept _ hrest, hname, Ordered.get?_put_self_of_kind rfl, Value.ofRaw_ofString]
        | cons _ front =>
            cases hsplit
            exact hlast front f rest rfl hrest

/-- Where under each name the signature of its last function stands, all functions find theirs
exactly if those of one name have the same. -/
theorem forall_keeps_iff (hlast : KeepsLast table functions) :
    (∀ f ∈ functions, Keeps table f) ↔ AreSingle functions := by
  constructor
  · intro hkeeps f hf g hg hname
    obtain ⟨text, htext, hunder⟩ := hkeeps f hf
    obtain ⟨other, hother, hsame⟩ := hkeeps g hg
    rw [← hname, hunder] at hsame
    rw [htext, hother, Value.ofRaw_inj.mp (Option.some.inj hsame)]
  · intro hsingle f hf
    obtain ⟨front, g, rest, hsplit, hname, hrest⟩ := exists_last ⟨f, hf, rfl⟩
    obtain ⟨text, htext, hunder⟩ := hlast front g rest hsplit (by rwa [hname])
    have hg : g ∈ functions := hsplit ▸ List.mem_append_right _ List.mem_cons_self
    rw [hname] at hunder
    exact ⟨text, (hsingle f hf g hg hname.symm).trans htext, hunder⟩

end Tables

section Functions

/-- What has no type counts as a function, so all entries are tables where functions are
well-formed. -/
theorem AreSigned.kind_eq (h : AreSigned abi) : ∀ entry ∈ abi, entry.kind = .table := by
  intro entry hentry
  cases htype : hasType "function" entry with
  | true => exact (h entry hentry htype).table
  | false =>
      cases entry with
      | table entries => rfl
      | _ => cases htype

/-- Well-formed functions can be put in the order of their names. -/
theorem AreSigned.exists_byName (h : AreSigned abi) {category : Category}
    (hfunction : ∀ entry, belongs category entry = true → hasType "function" entry = true) :
    ∃ sorted, byName (abi.filter (belongs category)) = .ok sorted ∧
      sorted.Perm (abi.filter (belongs category)) := by
  have hnamed : ∀ entry ∈ abi.filter (belongs category), HasTextName entry := by
    intro entry hentry
    obtain ⟨hmem, hbelongs⟩ := List.mem_filter.mp hentry
    exact (h entry hmem (hfunction entry hbelongs)).kind_nameOf
  obtain ⟨sorted, hsorted, harranged⟩ := Abi.exists_byName hnamed
  exact ⟨sorted, hsorted, harranged.perm⟩

/-- The categories of an interface hold its well-formed functions. -/
theorem AreSigned.perm_functions (h : AreSigned abi) (hc : categorise (.list abi) = .ok c) :
    (c.readFunctions ++ c.writeFunctions).Perm (abi.filter (hasType "function")) := by
  obtain ⟨found, hfound, hentries⟩ := exists_withCategories h.kind_eq
  obtain ⟨reading, hreading, hread⟩ :=
    @AreSigned.exists_byName _ h .read fun entry hbelongs => (Bool.and_eq_true_iff.mp hbelongs).1
  obtain ⟨writing, hwriting, hwrite⟩ :=
    @AreSigned.exists_byName _ h .write fun entry hbelongs => (Bool.and_eq_true_iff.mp hbelongs).1
  rw [← hentries] at hreading hwriting
  obtain ⟨_, ⟨⟩, hc⟩ := bind_eq_ok_iff.mp hc
  obtain ⟨_, hthere, hc⟩ := bind_eq_ok_iff.mp hc
  cases hfound.symm.trans hthere
  obtain ⟨_, hthere, hc⟩ := bind_eq_ok_iff.mp hc
  cases hreading.symm.trans hthere
  obtain ⟨_, hthere, hc⟩ := bind_eq_ok_iff.mp hc
  cases hwriting.symm.trans hthere
  obtain ⟨events, -, hc⟩ := bind_eq_ok_iff.mp hc
  obtain ⟨errors, -, hc⟩ := bind_eq_ok_iff.mp hc
  cases hc
  exact Abi.perm_functions hread hwrite

/-- Well-formed functions of an interface have a table of signatures. -/
theorem AreSigned.exists_signatures (h : AreSigned abi)
    (hperm : (c.readFunctions ++ c.writeFunctions).Perm (abi.filter (hasType "function"))) :
    ∃ table, signatures c = .ok table ∧ HoldsTexts table ∧
      KeepsLast table (c.readFunctions ++ c.writeFunctions) := by
  have hsigned : ∀ f ∈ c.readFunctions ++ c.writeFunctions, IsSigned f := by
    intro f hf
    obtain ⟨hmem, htype⟩ := List.mem_filter.mp (hperm.mem_iff.mp hf)
    exact h f hmem htype
  obtain ⟨table, htable, htexts, -, hlast⟩ := exists_signaturesFrom hsigned holdsTexts_nil
  exact ⟨table, htable, htexts, hlast⟩

theorem AreSingle.congr {others : List Value} (hperm : functions.Perm others) :
    AreSingle functions ↔ AreSingle others := by
  simp only [AreSingle, hperm.mem_iff]

end Functions

end ContractBench.Abi
