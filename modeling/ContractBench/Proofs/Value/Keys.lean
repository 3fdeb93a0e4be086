import ContractBench.Fault
import Mathlib.Data.List.Nodup

/-! # Text keys

Texts, broken or not, are equal only to themselves. So a table whose keys are texts can be looked
up like any other table, although values in general can be equal without being the same.
-/

namespace ContractBench

namespace Value

variable {a b : Value}

/-- A text equals itself alone. -/
theorem same_iff_of_kind (h : a.kind = .text) : a.same b = true ↔ a = b := by
  cases a with
  | text s => cases b <;> simp [same]
  | brokenText ps => cases b <;> simp [same]
  | _ => cases h

theorem beq_iff_of_kind (h : a.kind = .text) : (a == b) = true ↔ a = b := same_iff_of_kind h

/-- Only a text itself equals that text, also with another value on the left. -/
theorem beq_iff_of_kind_right (h : b.kind = .text) : (a == b) = true ↔ a = b := by
  cases a with
  | text s => exact beq_iff_of_kind rfl
  | brokenText ps => exact beq_iff_of_kind rfl
  | _ =>
      cases b with
      | text s => simp [BEq.beq, same, isNull, sameQuantity, quantity?, tupleItems?]
      | brokenText ps => simp [BEq.beq, same, isNull, sameQuantity, quantity?, tupleItems?]
      | _ => cases h

theorem isKey_of_kind (h : a.kind = .text) : a.isKey = true := by
  cases a with
  | text s => rfl
  | brokenText ps => rfl
  | _ => cases h

end Value

namespace Ordered

variable {α : Type} {table entries : List (Value × α)} {key : Value} {value : α}

/-- The keys of a table are texts that differ from each other. -/
structure TextKeyed (table : List (Value × α)) : Prop where
  texts : ∀ k ∈ keys table, k.kind = .text
  distinct : (keys table).Nodup

theorem TextKeyed.kind_eq {entry : Value × α} (h : TextKeyed table) (hentry : entry ∈ table) :
    entry.1.kind = .text := h.texts entry.1 (List.mem_map_of_mem hentry)

theorem textKeyed_nil : TextKeyed ([] : List (Value × α)) := ⟨List.forall_mem_nil _, List.nodup_nil⟩

theorem textKeyed_cons_iff {entry : Value × α} : TextKeyed (entry :: table) ↔
    entry.1.kind = .text ∧ entry.1 ∉ keys table ∧ TextKeyed table := by
  constructor
  · rintro ⟨htexts, hdistinct⟩
    obtain ⟨hentry, htexts⟩ := List.forall_mem_cons.mp htexts
    obtain ⟨hnew, hdistinct⟩ := List.nodup_cons.mp hdistinct
    exact ⟨hentry, hnew, htexts, hdistinct⟩
  · rintro ⟨hentry, hnew, htexts, hdistinct⟩
    exact ⟨List.forall_mem_cons.mpr ⟨hentry, htexts⟩, List.nodup_cons.mpr ⟨hnew, hdistinct⟩⟩

/-- Every entry of a table with text keys can be looked up. -/
theorem TextKeyed.get?_of_mem (h : TextKeyed table) (hmem : (key, value) ∈ table) :
    get? table key = some value := by
  induction table with
  | nil => cases hmem
  | cons entry rest ih =>
      obtain ⟨hentry, hnew, hrest⟩ := textKeyed_cons_iff.mp h
      rcases List.mem_cons.mp hmem with rfl | hmem
      · simp [get?, (Value.beq_iff_of_kind hentry).mpr rfl]
      · have hne : (entry.1 == key) = false := by
          rw [← Bool.not_eq_true, Value.beq_iff_of_kind hentry]
          intro heq
          have hthere : key ∈ keys rest := List.mem_map_of_mem hmem
          exact hnew (heq ▸ hthere)
        simpa [get?, hne] using ih hrest hmem

/-- A text stands over one value of a table with text keys. -/
theorem TextKeyed.eq_of_mem {other : α} (h : TextKeyed table) (hvalue : (key, value) ∈ table)
    (hother : (key, other) ∈ table) : value = other :=
  Option.some.inj ((h.get?_of_mem hvalue).symm.trans (h.get?_of_mem hother))

/-- What is in a table that is written to was there, or is what is written. -/
theorem mem_put {entry : Value × α} (h : entry ∈ put key value table) :
    (entry.1 = key ∨ entry.1 ∈ keys table) ∧ (entry.2 = value ∨ ∃ k, (k, entry.2) ∈ table) := by
  induction table with
  | nil =>
      obtain rfl := List.mem_singleton.mp h
      exact ⟨Or.inl rfl, Or.inl rfl⟩
  | cons first rest ih =>
      rw [put] at h
      split at h
      · rcases List.mem_cons.mp h with rfl | hrest
        · exact ⟨Or.inr List.mem_cons_self, Or.inl rfl⟩
        · exact ⟨Or.inr (List.mem_map_of_mem (List.mem_cons_of_mem _ hrest)),
            Or.inr ⟨_, List.mem_cons_of_mem _ hrest⟩⟩
      · rcases List.mem_cons.mp h with rfl | hrest
        · exact ⟨Or.inr List.mem_cons_self, Or.inr ⟨_, List.mem_cons_self⟩⟩
        · obtain ⟨hkey, hvalue⟩ := ih hrest
          exact ⟨hkey.imp_right (List.mem_cons_of_mem _),
            hvalue.imp_right (Exists.imp fun _ => List.mem_cons_of_mem _)⟩

/-- The values of a table are among those that were written to it. -/
theorem exists_of_mem_ofEntries {entry : Value × α} (h : entry ∈ ofEntries entries) :
    ∃ k, (k, entry.2) ∈ entries := by
  refine List.foldlRecOn (motive := fun table : List (Value × α) =>
    ∀ entry ∈ table, ∃ k, (k, entry.2) ∈ entries) entries _ (List.forall_mem_nil _) ?_ entry h
  intro table htable written hwritten entry hentry
  rcases (mem_put hentry).2 with hvalue | ⟨k, hk⟩
  · exact ⟨written.1, hvalue ▸ hwritten⟩
  · exact htable (k, entry.2) hk

/-- A table with text keys stays one where a text is written to it. -/
theorem TextKeyed.put (h : TextKeyed table) (hkey : key.kind = .text) :
    TextKeyed (put key value table) := by
  induction table with
  | nil => exact textKeyed_cons_iff.mpr ⟨hkey, List.not_mem_nil, textKeyed_nil⟩
  | cons entry rest ih =>
      obtain ⟨hentry, hnew, hrest⟩ := textKeyed_cons_iff.mp h
      rw [Ordered.put]
      split
      · exact textKeyed_cons_iff.mpr ⟨hentry, hnew, hrest⟩
      next hne =>
        refine textKeyed_cons_iff.mpr ⟨hentry, fun hmem => ?_, ih hrest⟩
        obtain ⟨other, hother, heq⟩ := List.mem_map.mp hmem
        rcases (mem_put hother).1 with hthere | hthere
        · exact hne ((Value.beq_iff_of_kind hentry).mpr (heq.symm.trans hthere))
        · exact hnew (heq ▸ hthere)

/-- Where a table is written to, what is written is found under a text that it is written under, and
under any other text is found what stood there. -/
theorem get?_put_of_kind {other : Value} (hother : other.kind = .text) (table : List (Value × α)) :
    get? (Ordered.put key value table) other =
      if key == other then some value else get? table other := by
  induction table with
  | nil => cases hkey : key == other <;> simp [Ordered.put, get?, hkey]
  | cons entry rest ih =>
      rw [Ordered.put]
      split
      next heq =>
        -- An entry whose key equals what it is written under is found under the same texts.
        have hsame : (entry.1 == other) = (key == other) := by
          rw [Bool.eq_iff_iff, Value.beq_iff_of_kind_right hother,
            Value.beq_iff_of_kind_right hother]
          constructor
          · rintro rfl
            exact ((Value.beq_iff_of_kind hother).mp heq).symm
          · rintro rfl
            exact (Value.beq_iff_of_kind_right hother).mp heq
        cases hkey : key == other <;> simp [get?, hsame, hkey]
      next hne =>
        rw [get?] at ih ⊢
        rw [List.find?_cons]
        split
        next heq =>
          have hkey : ¬(key == other) = true := fun hkey => hne <| by
            rwa [(Value.beq_iff_of_kind_right hother).mp hkey]
          simp [get?, heq, hkey]
        next hentry => simp [ih, get?, hentry]

/-- What is written under a text is found there. -/
theorem get?_put_self_of_kind (hkey : key.kind = .text) (table : List (Value × α)) :
    get? (Ordered.put key value table) key = some value := by
  rw [get?_put_of_kind hkey, if_pos ((Value.beq_iff_of_kind hkey).mpr rfl)]

/-- Under another key stands what stood there. -/
theorem TextKeyed.get?_put_of_ne {other : Value} (h : TextKeyed table) (hkey : key.kind = .text)
    (hne : key ≠ other) : get? (Ordered.put key value table) other = get? table other := by
  have hother : ¬(key == other) = true := mt (Value.beq_iff_of_kind hkey).mp hne
  induction table with
  | nil => simp [Ordered.put, get?, hother]
  | cons entry rest ih =>
      obtain ⟨hentry, -, hrest⟩ := textKeyed_cons_iff.mp h
      have hthere := ih hrest
      rw [get?, get?] at hthere ⊢
      rw [Ordered.put]
      split
      next heq =>
        obtain rfl := (Value.beq_iff_of_kind hentry).mp heq
        simp [hother]
      next =>
        rw [List.find?_cons, List.find?_cons]
        split
        next => rfl
        next => exact hthere

/-- A table with text keys is made again of its own entries. -/
theorem TextKeyed.ofEntries_eq (h : TextKeyed table) : ofEntries table = table := by
  refine ofEntries_of_pairwise ((List.pairwise_map.mp h.distinct).imp_of_mem ?_)
  intro first second hfirst _ hne
  rwa [← Bool.not_eq_true, Value.beq_iff_of_kind (h.kind_eq hfirst)]

/-- A table with text keys is made of entries with text keys. -/
theorem textKeyed_ofEntries (h : ∀ entry ∈ entries, entry.1.kind = .text) :
    TextKeyed (ofEntries entries) :=
  List.foldlRecOn (motive := TextKeyed) entries _ textKeyed_nil fun _ htable entry hentry =>
    htable.put (h entry hentry)

end Ordered

end ContractBench
