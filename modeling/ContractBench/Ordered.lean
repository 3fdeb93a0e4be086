/-! # Ordered tables

Tables as lists of entries in the order in which their keys were first written. Writing to a
key that is present changes its value and keeps its place.
-/

namespace ContractBench.Ordered

variable {κ α : Type} [BEq κ]

def put (key : κ) (value : α) : List (κ × α) → List (κ × α)
  | [] => [(key, value)]
  | entry :: rest =>
      if entry.1 == key then (entry.1, value) :: rest else entry :: put key value rest

def get? (table : List (κ × α)) (key : κ) : Option α :=
  (table.find? fun entry => entry.1 == key).map Prod.snd

def has (table : List (κ × α)) (key : κ) : Bool := table.any fun entry => entry.1 == key

/-- The table that results from writing the entries one after the other. -/
def ofEntries (entries : List (κ × α)) : List (κ × α) :=
  entries.foldl (fun table entry => put entry.1 entry.2 table) []

def keys (table : List (κ × α)) : List κ := table.map Prod.fst

omit [BEq κ] in
theorem keys_concat (table : List (κ × α)) (key : κ) (value : α) :
    keys (table ++ [(key, value)]) = keys table ++ [key] := List.map_append ..

omit [BEq κ] in
theorem nodup_keys_concat {table : List (κ × α)} {key : κ} {value : α}
    (h : (keys table).Nodup) (hnew : key ∉ keys table) :
    (keys (table ++ [(key, value)])).Nodup := by
  rw [keys_concat, List.nodup_append]
  refine ⟨h, List.pairwise_singleton _ key, fun other hother last hlast => ?_⟩
  rw [List.mem_singleton.mp hlast]
  exact fun heq => hnew (heq ▸ hother)

theorem put_of_not_has {key : κ} {table : List (κ × α)} (h : has table key = false) (value : α) :
    put key value table = table ++ [(key, value)] := by
  induction table with
  | nil => rfl
  | cons entry rest ih =>
      obtain ⟨hne, hrest⟩ : (entry.1 == key) = false ∧ has rest key = false := by
        simpa [has] using h
      simpa [put, hne] using ih hrest

theorem keys_put_of_not_has {key : κ} {table : List (κ × α)} (h : has table key = false)
    (value : α) : keys (put key value table) = keys table ++ [key] := by
  rw [put_of_not_has h, keys_concat]

/-- Entries with different keys make up the table as they stand. -/
theorem ofEntries_of_pairwise {entries : List (κ × α)}
    (h : entries.Pairwise fun first second => (first.1 == second.1) = false) :
    ofEntries entries = entries := by
  suffices hfold : ∀ table : List (κ × α),
      (table ++ entries).Pairwise (fun first second => (first.1 == second.1) = false) →
      entries.foldl (fun table entry => put entry.1 entry.2 table) table = table ++ entries from
    hfold [] h
  clear h
  induction entries with
  | nil => exact fun table _ => (List.append_nil table).symm
  | cons entry rest ih =>
      intro table h
      have hnew : has table entry.1 = false :=
        List.any_eq_false.mpr fun other hother =>
          Bool.not_eq_true _ ▸ (List.pairwise_append.mp h).2.2 other hother entry List.mem_cons_self
      rw [List.append_cons] at h
      rw [List.foldl_cons, put_of_not_has hnew, ih _ h, ← List.append_cons]

theorem isSome_get? (table : List (κ × α)) (key : κ) :
    (get? table key).isSome = has table key := by
  rw [get?, has, Option.isSome_map, List.isSome_find?]

theorem get?_append (first second : List (κ × α)) (key : κ) :
    get? (first ++ second) key = (get? first key).or (get? second key) := by
  rw [get?, List.find?_append, Option.map_or]
  rfl

section Lawful

variable [LawfulBEq κ]

theorem mem_of_get?_eq_some {table : List (κ × α)} {key : κ} {value : α}
    (h : get? table key = some value) : (key, value) ∈ table := by
  obtain ⟨entry, hfind, rfl⟩ := Option.map_eq_some_iff.mp h
  have hkey : entry.1 = key := by simpa using List.find?_some hfind
  exact hkey ▸ List.mem_of_find?_eq_some hfind

theorem has_iff_mem_keys {table : List (κ × α)} {key : κ} :
    has table key = true ↔ key ∈ keys table := by
  simp only [has, List.any_eq_true, beq_iff_eq, keys, List.mem_map]

theorem has_eq_false_iff {table : List (κ × α)} {key : κ} :
    has table key = false ↔ key ∉ keys table := by
  rw [← Bool.not_eq_true, has_iff_mem_keys]

theorem mem_keys_of_get?_eq_some {table : List (κ × α)} {key : κ} {value : α}
    (h : get? table key = some value) : key ∈ keys table :=
  List.mem_map_of_mem (mem_of_get?_eq_some h)

theorem exists_get?_of_mem_keys {table : List (κ × α)} {key : κ} (h : key ∈ keys table) :
    ∃ value, get? table key = some value := by
  rw [← has_iff_mem_keys, ← isSome_get?] at h
  exact Option.isSome_iff_exists.mp h

/-- Every entry of a table without double keys can be looked up. -/
theorem get?_of_mem {table : List (κ × α)} {key : κ} {value : α} (h : (keys table).Nodup)
    (hmem : (key, value) ∈ table) : get? table key = some value := by
  induction table with
  | nil => cases hmem
  | cons entry rest ih =>
      obtain ⟨hnew, hrest⟩ := List.nodup_cons.mp h
      rcases List.mem_cons.mp hmem with rfl | hmem
      · simp [get?]
      · have hne : (entry.1 == key) = false :=
          beq_eq_false_iff_ne.mpr fun heq => hnew (heq ▸ List.mem_map_of_mem hmem)
        simpa [get?, hne] using ih hrest hmem

theorem get?_put_self (key : κ) (value : α) (table : List (κ × α)) :
    get? (put key value table) key = some value := by
  induction table with
  | nil => simp [put, get?]
  | cons entry rest ih =>
      by_cases h : (entry.1 == key) = true
      · simp [put, get?, h]
      · have hne : (entry.1 == key) = false := by simpa using h
        simp only [get?] at ih
        simp [put, get?, hne, ih]

theorem get?_put_of_ne {key other : κ} (h : other ≠ key) (value : α) (table : List (κ × α)) :
    get? (put key value table) other = get? table other := by
  have hko : (key == other) = false := by simpa using Ne.symm h
  induction table with
  | nil => simp [put, get?, hko]
  | cons entry rest ih =>
      simp only [get?] at ih
      by_cases hk : (entry.1 == key) = true
      · have he : entry.1 = key := by simpa using hk
        simp [put, get?, he, hko]
      · have hne : (entry.1 == key) = false := by simpa using hk
        by_cases ho : (entry.1 == other) = true
        · simp [put, get?, hne, ho]
        · have hno : (entry.1 == other) = false := by simpa using ho
          simp [put, get?, hne, hno, ih]

theorem keys_put_of_has {key : κ} {table : List (κ × α)} (h : has table key = true) (value : α) :
    keys (put key value table) = keys table := by
  induction table with
  | nil => simp [has] at h
  | cons entry rest ih =>
      by_cases hk : (entry.1 == key) = true
      · simp [put, keys, hk]
      · have hne : (entry.1 == key) = false := by simpa using hk
        have hrest : has rest key = true := by simpa [has, hne] using h
        simpa [put, keys, hne] using ih hrest

theorem mem_keys_put {key other : κ} {value : α} {table : List (κ × α)} :
    other ∈ keys (put key value table) ↔ other = key ∨ other ∈ keys table := by
  cases h : has table key with
  | true =>
      rw [keys_put_of_has h]
      refine ⟨Or.inr, ?_⟩
      rintro (rfl | hmem)
      · exact has_iff_mem_keys.mp h
      · exact hmem
  | false =>
      rw [keys_put_of_not_has h, List.mem_append, List.mem_singleton, or_comm]

theorem mem_keys_ofEntries {key : κ} {entries : List (κ × α)} :
    key ∈ keys (ofEntries entries) ↔ key ∈ keys entries := by
  suffices hfold : ∀ table : List (κ × α),
      key ∈ keys (entries.foldl (fun table entry => put entry.1 entry.2 table) table) ↔
        key ∈ keys table ∨ key ∈ keys entries by
    simpa [ofEntries, keys] using hfold []
  induction entries with
  | nil => simp [keys]
  | cons entry rest ih =>
      intro table
      rw [List.foldl_cons, ih, mem_keys_put]
      simp only [keys, List.map_cons, List.mem_cons]
      rw [or_assoc, or_left_comm]

end Lawful

end ContractBench.Ordered
