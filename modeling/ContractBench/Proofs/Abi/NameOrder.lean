import ContractBench.Abi.NameOrder
import Mathlib.Data.List.Lex
import Mathlib.Data.List.Nodup
import Mathlib.Data.List.Sort

/-! # Entries in the order of names

Names that are texts are compared by their code points, so entries that have such names can always
be put in order. The order is ascending, keeps what stands under one name as it was, and is the only
one where the names are different.
-/

namespace ContractBench

/-- Texts are in the order of their code points. -/
theorem Text.points_lt_points_iff {s t : String} : points s < points t ↔ s < t := by
  rw [String.lt_iff, points, points]
  generalize s.toList = cs
  generalize t.toList = ds
  induction cs generalizing ds with
  | nil => cases ds <;> simp
  | cons c cs ih =>
      cases ds with
      | nil => simp
      | cons d ds =>
          have hpoint : c.toNat = d.toNat ↔ c = d := Char.toNat_inj
          rw [List.map_cons, List.map_cons, List.cons_lt_cons_iff, List.cons_lt_cons_iff, ih,
            hpoint, Char.lt_def, UInt32.lt_iff_toNat_lt]
          rfl

namespace Abi

section Definitions

/-- The code points of the name of an entry. -/
def namePoints (entry : Value) : List Nat := (nameOf entry).points?.getD []

/-- The name of an entry is a text. An entry without name has the empty one. -/
def HasTextName (entry : Value) : Prop := (nameOf entry).kind = .text

instance (entry : Value) : Decidable (HasTextName entry) :=
  inferInstanceAs (Decidable (_ = Kind.text))

/-- The entries of one name. -/
def under (name : List Nat) (entries : List Value) : List Value :=
  entries.filter fun entry => namePoints entry = name

/-- Entries in the ascending order of their names, of which each occurs as often as before, and
those of one name in the same order. -/
structure Arranged (entries sorted : List Value) : Prop where
  perm : sorted.Perm entries
  ascending : sorted.Pairwise fun a b => namePoints a ≤ namePoints b
  stable : ∀ name, under name sorted = under name entries

end Definitions

variable {a b : Value} {entries others sorted resorted : List Value}

section Comparing

theorem precedes_of_kind (ha : a.kind = .text) (hb : b.kind = .text) :
    precedes a b = .ok (decide (a.points?.getD [] < b.points?.getD [])) := by
  cases a with
  | text s =>
      cases b with
      | text t =>
          rw [precedes]
          exact congrArg _ (decide_eq_decide.mpr Text.points_lt_points_iff.symm)
      | brokenText qs => rw [precedes]; rfl
      | _ => cases hb
  | brokenText ps =>
      cases b with
      | text t => rw [precedes]; rfl
      | brokenText qs => rw [precedes]; rfl
      | _ => cases hb
  | _ => cases ha

theorem isOrdered_of_kind (h : a.kind = .text) : isOrdered a = true := by
  cases a with
  | text s => simp only [isOrdered]
  | brokenText ps => simp only [isOrdered]
  | _ => cases h

theorem mayPrecede_eq (ha : HasTextName a) (hb : HasTextName b) :
    mayPrecede a b = decide (namePoints a ≤ namePoints b) := by
  rw [mayPrecede, precedes_of_kind hb ha]
  change (!decide (namePoints b < namePoints a)) = _
  rw [← decide_not]
  exact decide_eq_decide.mpr not_lt

theorem disorder?_eq_none (h : ∀ entry ∈ entries, HasTextName entry) :
    disorder? entries = none := by
  induction entries with
  | nil => rfl
  | cons entry rest ih =>
      obtain ⟨hentry, hrest⟩ := List.forall_mem_cons.mp h
      rw [disorder?, ih hrest, Option.orElse_eq_orElse, Option.orElse_eq_or,
        Option.or_none]
      refine List.findSome?_eq_none_iff.mpr fun other hother => ?_
      rw [precedes_of_kind (hrest other hother) hentry]

/-- Entries whose names are texts are sorted by the code points of their names. -/
theorem byName_eq (h : ∀ entry ∈ entries, HasTextName entry) :
    byName entries =
      .ok (entries.mergeSort fun a b => decide (namePoints a ≤ namePoints b)) := by
  have hordered : (entries.all fun entry => isOrdered (nameOf entry)) = true :=
    List.all_eq_true.mpr fun entry hentry => isOrdered_of_kind (h entry hentry)
  have hsort : entries.mergeSort mayPrecede =
      entries.mergeSort fun a b => decide (namePoints a ≤ namePoints b) := by
    have hmap : (entries.mergeSort mayPrecede).map id =
        (entries.map id).mergeSort fun a b => decide (namePoints a ≤ namePoints b) :=
      List.map_mergeSort fun a ha b hb => mayPrecede_eq (h a ha) (h b hb)
    simpa using hmap
  rw [byName, if_pos hordered, disorder?_eq_none h, hsort]

end Comparing

section Arranging

theorem exists_byName (h : ∀ entry ∈ entries, HasTextName entry) :
    ∃ sorted, byName entries = .ok sorted ∧ Arranged entries sorted := by
  have htrans : ∀ a b c : Value, decide (namePoints a ≤ namePoints b) = true →
      decide (namePoints b ≤ namePoints c) = true →
      decide (namePoints a ≤ namePoints c) = true := by
    simp only [decide_eq_true_eq]
    exact fun a b c => le_trans
  have htotal : ∀ a b : Value, (decide (namePoints a ≤ namePoints b) ||
      decide (namePoints b ≤ namePoints a)) = true := by
    simp only [Bool.or_eq_true, decide_eq_true_eq]
    exact fun a b => le_total _ _
  have hperm := List.mergeSort_perm entries fun a b => decide (namePoints a ≤ namePoints b)
  refine ⟨_, byName_eq h, hperm, ?_, fun name => ?_⟩
  · simpa using List.pairwise_mergeSort htrans htotal entries
  · -- What stands under one name is in order, so it is found again in the sorted entries.
    have hsublist : (under name entries).Sublist
        (entries.mergeSort fun a b => decide (namePoints a ≤ namePoints b)) := by
      refine List.sublist_mergeSort htrans htotal ?_ List.filter_sublist
      refine List.pairwise_of_forall_mem_list fun a ha b hb => ?_
      have hname := (of_decide_eq_true (List.mem_filter.mp ha).2).trans
        (of_decide_eq_true (List.mem_filter.mp hb).2).symm
      rw [hname]
      exact decide_eq_true (le_refl _)
    have hthere := hsublist.filter fun entry => decide (namePoints entry = name)
    have hidem : (under name entries).filter (fun entry => decide (namePoints entry = name)) =
        under name entries :=
      List.filter_eq_self.mpr fun entry hentry => (List.mem_filter.mp hentry).2
    rw [hidem] at hthere
    exact (hthere.eq_of_length (hperm.filter _).length_eq.symm).symm

/-- Where the names are different, the order of the entries does not matter. -/
theorem Arranged.eq_of_perm (h : Arranged entries sorted) (h' : Arranged others resorted)
    (hperm : entries.Perm others) (hdistinct : (entries.map namePoints).Nodup) :
    sorted = resorted := by
  refine List.Perm.eq_of_pairwise ?_ h.ascending h'.ascending
    (h.perm.trans (hperm.trans h'.perm.symm))
  intro a b ha hb hab hba
  have hname : namePoints a = namePoints b := le_antisymm hab hba
  have hb : b ∈ entries := hperm.mem_iff.mpr (h'.perm.mem_iff.mp hb)
  exact List.inj_on_of_nodup_map hdistinct (h.perm.mem_iff.mp ha) hb hname

end Arranging

end Abi

end ContractBench
