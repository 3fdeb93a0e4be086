import ContractBench.Abi.Categories
import ContractBench.Proofs.Abi.NameOrder
import ContractBench.Proofs.Traversal

/-! # The categories of an interface

An interface whose entries have texts as names is always separated: every function is in one of two
lists, events and errors are in lists of their own, and of special entries the last counts. Where
the names within the lists are different, the order of the interface does not matter.
-/

namespace ContractBench

theorem Value.text?_eq_some_iff {v : Value} {s : String} : v.text? = some s ↔ v = .text s := by
  cases v <;> simp [Value.text?]

namespace Abi

section Definitions

/-- An entry that is a table and whose name, if it has one, is a text. -/
def IsNamed (entry : Value) : Prop := entry.kind = .table ∧ HasTextName entry

instance (entry : Value) : Decidable (IsNamed entry) := inferInstanceAs (Decidable (_ ∧ _))

/-- The type of an entry. One without type is a function. -/
def typeOf (entry : Value) : Value := (entry.field? "type").getD (.text "function")

def hasType (type : String) (entry : Value) : Bool := (typeOf entry).text? == some type

/-- What an entry states on its use of the state. -/
def statedMutability (entry : Value) : Value := (entry.field? "stateMutability").getD .null

/-- Whether a function only reads. Where nothing is stated, the flag `constant` tells it. -/
def reads (entry : Value) : Bool :=
  if (statedMutability entry).isTruthy then
    (statedMutability entry).text? == some "view" || (statedMutability entry).text? == some "pure"
  else
    ((entry.field? "constant").getD .null).isTruthy

/-- Whether an entry belongs to a category. -/
def belongs : Category → Value → Bool
  | .read, entry => hasType "function" entry && reads entry
  | .write, entry => hasType "function" entry && !reads entry
  | .event, entry => hasType "event" entry
  | .error, entry => hasType "error" entry
  | .constructor, entry => hasType "constructor" entry
  | .fallback, entry => hasType "fallback" entry
  | .receive, entry => hasType "receive" entry

/-- All entries that have a place among the categories. -/
def Categorised.entries (c : Categorised) : List Value :=
  c.readFunctions ++ c.writeFunctions ++ c.events ++ c.errors ++ c.constructor.toList ++
    c.fallback.toList ++ c.receive.toList

/-- An interface in categories: four lists in the order of names, and the last entry of each special
type. -/
structure Categorised.Separates (c : Categorised) (abi : List Value) : Prop where
  read : Arranged (abi.filter (belongs .read)) c.readFunctions
  write : Arranged (abi.filter (belongs .write)) c.writeFunctions
  events : Arranged (abi.filter (belongs .event)) c.events
  errors : Arranged (abi.filter (belongs .error)) c.errors
  constructor : c.constructor = (abi.filter (belongs .constructor)).getLast?
  fallback : c.fallback = (abi.filter (belongs .fallback)).getLast?
  receive : c.receive = (abi.filter (belongs .receive)).getLast?

/-- The names within each list are different, and there is at most one entry of each special
type. -/
structure IsUnambiguous (abi : List Value) : Prop where
  names : ∀ category ∈ [Category.read, .write, .event, .error],
    ((abi.filter (belongs category)).map namePoints).Nodup
  special : ∀ category ∈ [Category.constructor, .fallback, .receive],
    (abi.filter (belongs category)).length ≤ 1

end Definitions

variable {entry : Value} {abi others : List Value} {c d : Categorised} {category : Category}

section Entries

theorem mutability_eq (h : entry.kind = .table) :
    mutability entry = .ok (if (statedMutability entry).isTruthy then statedMutability entry
      else if ((entry.field? "constant").getD .null).isTruthy then .text "view"
      else if ((entry.field? "payable").getD .null).isTruthy then .text "payable"
      else .text "nonpayable") := by
  simp only [mutability, Value.getD_of_table h, bind, Except.bind, pure, Except.pure]
  rw [statedMutability]
  split_ifs <;> rfl

/-- The functions that read are those that may do no more than view the state. -/
theorem reads_iff (h : entry.kind = .table) : reads entry = true ↔
    mutability entry = .ok (.text "view") ∨ mutability entry = .ok (.text "pure") := by
  rw [mutability_eq h, reads]
  simp only [Except.ok.injEq]
  split_ifs with hstated hconstant hpayable
  · simp [Value.text?_eq_some_iff]
  · simp [hconstant]
  · simp [hconstant]
  · simp [hconstant]

theorem isRead_eq (h : entry.kind = .table) : isRead entry = .ok (reads entry) := by
  obtain ⟨stated, hstated⟩ : ∃ stated, mutability entry = .ok stated := ⟨_, mutability_eq h⟩
  rw [isRead, hstated]
  refine congrArg Except.ok (Bool.eq_iff_iff.mpr ?_)
  rw [reads_iff h, hstated]
  simp [Option.any_eq_true, Value.text?_eq_some_iff, readMutabilities, and_or_left, exists_or]

/-- The category of an entry is the one that it belongs to, if there is one. -/
theorem exists_categoryOf (h : entry.kind = .table) :
    ∃ found, categoryOf entry = .ok found ∧
      ∀ category, (found == some category) = belongs category entry := by
  have htyped : entry.getD "type" (.text "function") = .ok (typeOf entry) :=
    Value.getD_of_table h _ _
  simp only [categoryOf, htyped, isRead_eq h, bind, Except.bind, pure, Except.pure]
  split
  next htype =>
    refine ⟨_, rfl, fun category => ?_⟩
    cases hreads : reads entry <;> cases category <;>
      simp [belongs, hasType, htype, hreads]
  iterate 5
    next htype =>
      refine ⟨_, rfl, fun category => ?_⟩
      cases category <;> simp [belongs, hasType, htype]
  next =>
    refine ⟨none, rfl, fun category => ?_⟩
    cases category <;> simp_all [belongs, hasType]

end Entries

section Separating

/-- An interface whose entries are tables is separated into the entries of each category. -/
theorem exists_withCategories (h : ∀ entry ∈ abi, entry.kind = .table) :
    ∃ found, withCategories abi = .ok found ∧
      ∀ category, entriesOf category found = abi.filter (belongs category) := by
  induction abi with
  | nil => exact ⟨[], rfl, fun _ => rfl⟩
  | cons entry abi ih =>
      obtain ⟨hentry, hrest⟩ := List.forall_mem_cons.mp h
      obtain ⟨one, hone, hbelongs⟩ := exists_categoryOf hentry
      obtain ⟨found, hfound, hentries⟩ := ih hrest
      refine ⟨(one, entry) :: found, ?_, fun category => ?_⟩
      · rw [withCategories, hone, hfound]
        rfl
      · have hrest := hentries category
        simp only [entriesOf, List.filter_cons, hbelongs] at hrest ⊢
        cases belongs category entry <;> simp [hrest]

/-- An interface with names that are texts has categories. -/
theorem exists_separates (h : ∀ entry ∈ abi, IsNamed entry) :
    ∃ c, categorise (.list abi) = .ok c ∧ c.Separates abi := by
  obtain ⟨found, hfound, hentries⟩ := exists_withCategories fun entry hentry => (h entry hentry).1
  have hsorted (category : Category) : ∃ sorted, byName (entriesOf category found) = .ok sorted ∧
      Arranged (abi.filter (belongs category)) sorted := by
    rw [hentries]
    exact exists_byName fun entry hentry => (h entry (List.mem_of_mem_filter hentry)).2
  obtain ⟨reading, hreading, hread⟩ := hsorted .read
  obtain ⟨writing, hwriting, hwrite⟩ := hsorted .write
  obtain ⟨events, hevents, hevent⟩ := hsorted .event
  obtain ⟨errors, herrors, herror⟩ := hsorted .error
  refine ⟨⟨reading, writing, events, errors, _, _, _⟩, ?_, hread, hwrite, hevent, herror,
    congrArg List.getLast? (hentries .constructor), congrArg List.getLast? (hentries .fallback),
    congrArg List.getLast? (hentries .receive)⟩
  rw [categorise, Value.items]
  simp only [hfound, hreading, hwriting, hevents, herrors, bind, Except.bind]
  rfl

/-- The functions that read and those that write are all functions. -/
theorem perm_functions {reading writing : List Value}
    (hreading : reading.Perm (abi.filter (belongs .read)))
    (hwriting : writing.Perm (abi.filter (belongs .write))) :
    (reading ++ writing).Perm (abi.filter (hasType "function")) := by
  have hread : abi.filter (belongs .read) = (abi.filter (hasType "function")).filter reads := by
    rw [List.filter_filter]
    exact List.filter_congr fun _ _ => Bool.and_comm _ _
  have hwrite : abi.filter (belongs .write) =
      (abi.filter (hasType "function")).filter fun entry => !reads entry := by
    rw [List.filter_filter]
    exact List.filter_congr fun _ _ => Bool.and_comm _ _
  have hparts := List.filter_append_perm reads (abi.filter (hasType "function"))
  rw [← hread, ← hwrite] at hparts
  exact (hreading.append hwriting).trans hparts

namespace Categorised.Separates

/-- What has a place among the categories is an entry that belongs to one. -/
theorem exists_of_mem (h : c.Separates abi) (hentry : entry ∈ c.entries) :
    entry ∈ abi ∧ ∃ category, belongs category entry = true := by
  have hlist {category : Category} {sorted : List Value}
      (hsorted : Arranged (abi.filter (belongs category)) sorted) (hmem : entry ∈ sorted) :
      entry ∈ abi ∧ ∃ category, belongs category entry = true := by
    obtain ⟨hthere, hbelongs⟩ := List.mem_filter.mp (hsorted.perm.mem_iff.mp hmem)
    exact ⟨hthere, category, hbelongs⟩
  have hlast {category : Category} {one : Option Value}
      (hone : one = (abi.filter (belongs category)).getLast?) (hmem : entry ∈ one.toList) :
      entry ∈ abi ∧ ∃ category, belongs category entry = true := by
    rw [Option.mem_toList, hone] at hmem
    obtain ⟨hthere, hbelongs⟩ := List.mem_filter.mp (List.mem_of_getLast? hmem)
    exact ⟨hthere, category, hbelongs⟩
  simp only [entries, List.mem_append] at hentry
  rcases hentry with (((((hmem | hmem) | hmem) | hmem) | hmem) | hmem) | hmem
  · exact hlist h.read hmem
  · exact hlist h.write hmem
  · exact hlist h.events hmem
  · exact hlist h.errors hmem
  · exact hlast h.constructor hmem
  · exact hlast h.fallback hmem
  · exact hlast h.receive hmem

/-- Where nothing in an interface is ambiguous, its order does not matter. -/
theorem eq_of_perm (h : c.Separates abi) (h' : d.Separates others) (hperm : abi.Perm others)
    (hclear : IsUnambiguous abi) : c = d := by
  have hlist {category : Category} {sorted resorted : List Value}
      (hcategory : category ∈ [Category.read, .write, .event, .error])
      (hsorted : Arranged (abi.filter (belongs category)) sorted)
      (hresorted : Arranged (others.filter (belongs category)) resorted) : sorted = resorted :=
    hsorted.eq_of_perm hresorted (hperm.filter _) (hclear.names category hcategory)
  have hlast {category : Category}
      (hcategory : category ∈ [Category.constructor, .fallback, .receive]) :
      (abi.filter (belongs category)).getLast? = (others.filter (belongs category)).getLast? := by
    have hsame := hperm.filter (belongs category)
    rcases Nat.le_one_iff_eq_zero_or_eq_one.mp (hclear.special category hcategory) with hzero | hone
    · rw [List.length_eq_zero_iff.mp hzero] at hsame ⊢
      rw [hsame.nil_eq]
    · obtain ⟨entry, hentry⟩ := List.length_eq_one_iff.mp hone
      rw [hentry] at hsame ⊢
      rw [hsame.singleton_eq]
  cases c with
  | mk =>
      cases d with
      | mk =>
          congr 1
          · exact hlist (by decide) h.read h'.read
          · exact hlist (by decide) h.write h'.write
          · exact hlist (by decide) h.events h'.events
          · exact hlist (by decide) h.errors h'.errors
          · exact h.constructor.trans ((hlast (by decide)).trans h'.constructor.symm)
          · exact h.fallback.trans ((hlast (by decide)).trans h'.fallback.symm)
          · exact h.receive.trans ((hlast (by decide)).trans h'.receive.symm)

end Categorised.Separates

/-- The categories of an interface hold its entries by their types, each as often as it occurs, in
the order of their names, and functions by whether they read. Of each special type they hold the
last entry. Where nothing in the interface is ambiguous, they do not depend on its order. -/
theorem categorise_separates (h : ∀ entry ∈ abi, IsNamed entry) :
    ∃ c, categorise (.list abi) = .ok c ∧ c.Separates abi ∧
      (c.readFunctions ++ c.writeFunctions).Perm (abi.filter (hasType "function")) ∧
      (∀ entry ∈ abi, reads entry = true ↔
        mutability entry = .ok (.text "view") ∨ mutability entry = .ok (.text "pure")) ∧
      (∀ entry ∈ c.entries, entry ∈ abi ∧ ∃ category, belongs category entry = true) ∧
      ∀ others, abi.Perm others → IsUnambiguous abi → categorise (.list others) = .ok c := by
  obtain ⟨c, hc, hseparates⟩ := exists_separates h
  refine ⟨c, hc, hseparates, perm_functions hseparates.read.perm hseparates.write.perm,
    fun entry hentry => reads_iff (h entry hentry).1, fun entry => hseparates.exists_of_mem, ?_⟩
  intro others hperm hclear
  obtain ⟨d, hd, hothers⟩ :=
    exists_separates fun entry hentry => h entry (hperm.mem_iff.mpr hentry)
  rw [hd, hseparates.eq_of_perm hothers hperm hclear]

end Separating

section Samples

/-- An old interface: one function has no type, and another only a flag. -/
def oldAbi : List Value :=
  [.ofFields [("name", .text "send")],
    .ofFields [("type", .text "function"), ("name", .text "owner"), ("constant", .bool true)],
    .ofFields [("type", .text "constructor")],
    .ofFields [("type", .text "function"), ("name", .text "burn"),
      ("stateMutability", .text "nonpayable")],
    .ofFields [("type", .text "event"), ("name", .text "Sent")]]

theorem categorise_separates_of_old :
    (∀ entry ∈ oldAbi, IsNamed entry) ∧ oldAbi.Perm oldAbi.reverse ∧ IsUnambiguous oldAbi ∧
    ∃ c, categorise (.list oldAbi) = .ok c ∧ c.Separates oldAbi ∧
      categorise (.list oldAbi.reverse) = .ok c := by
  have hnamed : ∀ entry ∈ oldAbi, IsNamed entry := by decide +kernel
  have hperm : oldAbi.Perm oldAbi.reverse := oldAbi.reverse_perm.symm
  have hclear : IsUnambiguous oldAbi := ⟨by decide +kernel, by decide +kernel⟩
  obtain ⟨c, hc, hseparates, -, -, -, hothers⟩ := categorise_separates hnamed
  exact ⟨hnamed, hperm, hclear, c, hc, hseparates, hothers _ hperm hclear⟩

end Samples

end Abi

end ContractBench
