import ContractBench.Ordered
import Mathlib.Data.List.Induction
import Mathlib.Data.List.Nodup

/-! # Tables and their entries

A table that is made by writing entries one after the other. It has the keys of the entries, in the
order in which they were first written, and under each of them what was written last.
-/

namespace ContractBench

variable {κ α : Type} [BEq κ] [LawfulBEq κ]

theorem eraseDups_concat {xs : List κ} {x : κ} :
    (xs ++ [x]).eraseDups = xs.eraseDups ++ if x ∈ xs then [] else [x] := by
  rw [List.eraseDups_append]
  by_cases hmem : x ∈ xs <;> simp [List.removeAll, List.eraseDups_cons, hmem]

theorem nodup_eraseDups (xs : List κ) : xs.eraseDups.Nodup := by
  induction xs using List.reverseRecOn with
  | nil => exact List.nodup_nil
  | append_singleton xs x ih =>
      rw [eraseDups_concat]
      split
      next => rwa [List.append_nil]
      next hnew =>
        exact List.nodup_append_comm.mp (List.nodup_cons.mpr ⟨by simpa using hnew, ih⟩)

theorem eraseDups_of_nodup {xs : List κ} (h : xs.Nodup) : xs.eraseDups = xs := by
  induction xs with
  | nil => rfl
  | cons x xs ih =>
      obtain ⟨hnew, hxs⟩ := List.nodup_cons.mp h
      have hothers : xs.filter (fun y => !y == x) = xs :=
        List.filter_eq_self.mpr fun y hy => by simpa using ne_of_mem_of_not_mem hy hnew
      rw [List.eraseDups_cons, hothers, ih hxs]

namespace Ordered

variable {table : List (κ × α)}

omit [LawfulBEq κ] in
theorem ofEntries_concat (entries : List (κ × α)) (entry : κ × α) :
    ofEntries (entries ++ [entry]) = put entry.1 entry.2 (ofEntries entries) :=
  List.foldl_concat ..

theorem keys_ofEntries (entries : List (κ × α)) :
    keys (ofEntries entries) = (keys entries).eraseDups := by
  induction entries using List.reverseRecOn with
  | nil => rfl
  | append_singleton entries entry ih =>
      rw [ofEntries_concat, keys_concat, eraseDups_concat, ← ih]
      split
      next hmem =>
        have hthere : has (ofEntries entries) entry.1 = true :=
          has_iff_mem_keys.mpr (mem_keys_ofEntries.mpr hmem)
        rw [keys_put_of_has hthere, List.append_nil]
      next hnew =>
        have habsent : has (ofEntries entries) entry.1 = false :=
          has_eq_false_iff.mpr (mt mem_keys_ofEntries.mp hnew)
        rw [keys_put_of_not_has habsent]

/-- Under a key stands what was written last. -/
theorem get?_ofEntries (entries : List (κ × α)) (key : κ) :
    get? (ofEntries entries) key = get? entries.reverse key := by
  induction entries using List.reverseRecOn with
  | nil => rfl
  | append_singleton entries entry ih =>
      rw [ofEntries_concat, List.reverse_concat]
      by_cases h : key = entry.1
      · rw [h, get?_put_self]
        simp [get?]
      · have hne : (entry.1 == key) = false := beq_eq_false_iff_ne.mpr (Ne.symm h)
        rw [get?_put_of_ne h, ih]
        simp [get?, hne]

theorem ofEntries_of_nodup (h : (keys table).Nodup) : ofEntries table = table :=
  ofEntries_of_pairwise ((List.pairwise_map.mp h).imp fun hne => beq_eq_false_iff_ne.mpr hne)

theorem get?_eq_none_iff {key : κ} : get? table key = none ↔ key ∉ keys table := by
  rw [← has_eq_false_iff, ← isSome_get?, Option.isSome_eq_false_iff, Option.isNone_iff_eq_none]

/-- In a table without double keys it makes no difference where a lookup begins. -/
theorem get?_reverse (h : (keys table).Nodup) (key : κ) :
    get? table.reverse key = get? table key := by
  rw [← get?_ofEntries, ofEntries_of_nodup h]

end Ordered

end ContractBench
