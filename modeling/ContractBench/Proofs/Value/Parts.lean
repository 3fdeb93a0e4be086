import ContractBench.Proofs.Traversal
import ContractBench.Proofs.Value.Keys
import Mathlib.Data.List.Perm.Subperm

/-! # Parts of values

What a value holds directly, and properties of a value and of all that it holds at any depth. The
module says which values JSON can write, and what of them is kept where two values are equal.
-/

namespace ContractBench.Value

/-- What a value holds directly: items, fields and the values of entries. -/
def parts : Value → List Value
  | .list xs => xs
  | .tuple xs => xs
  | .record fields => fields.map Prod.snd
  | .table entries => entries.map Prod.snd
  | _ => []

/-- A property of a value and of all that it holds. -/
inductive Throughout (p : Value → Prop) : Value → Prop
  | intro {v : Value} (h : p v) (hparts : ∀ x ∈ v.parts, Throughout p x) : Throughout p v

section Throughout

variable {p : Value → Prop} {v : Value}

theorem throughout_iff : Throughout p v ↔ p v ∧ ∀ x ∈ v.parts, Throughout p x :=
  ⟨fun ⟨h, hparts⟩ => ⟨h, hparts⟩, fun ⟨h, hparts⟩ => ⟨h, hparts⟩⟩

theorem Throughout.leaf (h : p v) (hparts : v.parts = []) : Throughout p v :=
  throughout_iff.mpr ⟨h, hparts ▸ List.forall_mem_nil _⟩

theorem Throughout.holds (h : Throughout p v) : p v := (throughout_iff.mp h).1

theorem Throughout.of_mem {x : Value} (h : Throughout p v) (hx : x ∈ v.parts) : Throughout p x :=
  (throughout_iff.mp h).2 x hx

theorem Throughout.of_field? {name : String} {x : Value} (h : Throughout p v)
    (hfield : v.field? name = some x) : Throughout p x := by
  cases v with
  | table entries =>
      obtain ⟨entry, hfind, rfl⟩ := Option.map_eq_some_iff.mp hfield
      exact h.of_mem (List.mem_map_of_mem (List.mem_of_find?_eq_some hfind))
  | _ => cases hfield

end Throughout

/-- What a JSON text can write, as far as it is not left to the parts: a number is not too long, and
the keys of a table are different texts. -/
def IsWritten : Value → Prop
  | .int n => (Numeral.digitsOf n.natAbs).length ≤ Numeral.longest
  | .table entries => Ordered.TextKeyed entries
  | .bytes _ | .tuple _ | .record _ => False
  | _ => True

/-- Data as JSON texts write it. -/
def IsData (v : Value) : Prop := Throughout IsWritten v

theorem isData_null : IsData .null := .leaf trivial rfl

/-- Neither a text nor a key is broken, as far as it is not left to the parts. -/
def IsUnbroken : Value → Prop
  | .brokenText _ => False
  | .table entries => ∀ entry ∈ entries, ∀ ps, entry.1 ≠ .brokenText ps
  | _ => True

/-- No text in a value is broken. -/
def IsWhole (v : Value) : Prop := Throughout IsUnbroken v

theorem isWhole_null : IsWhole .null := .leaf trivial rfl

section Texts

variable {p : Value → Prop} {t : RawText}

theorem throughout_ofPoints (hwhole : ∀ s, p (.text s)) (hbroken : ∀ ps, p (.brokenText ps))
    (ps : List Nat) : Throughout p (.ofPoints ps) := by
  unfold ofPoints
  split
  · exact .leaf (hbroken _) rfl
  · exact .leaf (hwhole _) rfl

theorem isData_ofPoints (ps : List Nat) : IsData (.ofPoints ps) :=
  throughout_ofPoints (fun _ => trivial) (fun _ => trivial) ps

theorem isData_ofRaw (t : RawText) : IsData (.ofRaw t) := isData_ofPoints t.numbers

theorem isData_ofRaw? (t? : Option RawText) : IsData (.ofRaw? t?) := by
  cases t? with
  | none => exact isData_null
  | some t => exact isData_ofRaw t

theorem isWhole_ofRaw_iff : IsWhole (.ofRaw t) ↔ ∃ s : String, t = s := by
  constructor
  · intro h
    cases htext : Value.ofRaw t with
    | text s => exact ⟨s, ofRaw_inj.mp (htext.trans (ofRaw_ofString s).symm)⟩
    | brokenText ps => exact absurd h.holds (by simp [htext, IsUnbroken])
    | _ => simpa [htext, kind] using kind_ofRaw t
  · rintro ⟨s, rfl⟩
    rw [ofRaw_ofString]
    exact .leaf trivial rfl

end Texts

section Equality

variable {a b : Value} {xs ys : List Value} {entries others : List (Value × Value)}

theorem sameItems_iff :
    sameItems xs ys = true ↔ List.Forall₂ (fun x y => agrees x y = true) xs ys := by
  induction xs generalizing ys with
  | nil => cases ys <;> simp [sameItems]
  | cons x xs ih =>
      cases ys with
      | nil => simp [sameItems]
      | cons y ys => rw [sameItems, Bool.and_eq_true, ih, List.forall₂_cons, agrees]

theorem sameEntries_iff :
    sameEntries entries others = true ↔ ∀ entry ∈ entries, ∃ other ∈ others,
      agrees entry.1 other.1 = true ∧ agrees entry.2 other.2 = true := by
  induction entries with
  | nil => simp [sameEntries]
  | cons entry entries ih =>
      rw [sameEntries, Bool.and_eq_true, ih, List.any_eq_true, List.forall_mem_cons]
      simp only [Bool.and_eq_true, agrees]

theorem agrees_iff_of_kind (h : a.kind = .text) : agrees a b = true ↔ a = b := by
  rw [← same_iff_of_kind h, agrees]
  cases a with
  | text s => rfl
  | brokenText ps => rfl
  | _ => cases h

/-- A list agrees with lists of the same length whose items agree in their places. -/
theorem agrees_list_iff : agrees (.list xs) b = true ↔
    ∃ ys, b = .list ys ∧ List.Forall₂ (fun x y => agrees x y = true) xs ys := by
  simp only [← sameItems_iff]
  cases b <;> simp [agrees, isOneDouble, same]

/-- Tables with text keys agree if they have the same keys and agreeing values under them. -/
theorem agrees_table_iff (hentries : Ordered.TextKeyed entries) :
    agrees (.table entries) b = true ↔
      ∃ others, b = .table others ∧ entries.length = others.length ∧
        ∀ entry ∈ entries, ∃ v, (entry.1, v) ∈ others ∧ agrees entry.2 v = true := by
  have hsame (others : List (Value × Value)) : sameEntries entries others = true ↔
      ∀ entry ∈ entries, ∃ v, (entry.1, v) ∈ others ∧ agrees entry.2 v = true := by
    rw [sameEntries_iff]
    refine forall₂_congr fun entry hentry => ?_
    have hkey := hentries.kind_eq hentry
    constructor
    · rintro ⟨other, hother, heq, hvalue⟩
      rw [agrees_iff_of_kind hkey] at heq
      exact ⟨other.2, heq ▸ hother, hvalue⟩
    · rintro ⟨v, hv, hvalue⟩
      exact ⟨(entry.1, v), hv, (agrees_iff_of_kind hkey).mpr rfl, hvalue⟩
  simp only [← hsame]
  cases b <;> simp [agrees, isOneDouble, same]

/-- Of two tables that agree neither has a key that the other has not. -/
theorem exists_of_agrees_table (hentries : Ordered.TextKeyed entries)
    (hothers : Ordered.TextKeyed others)
    (h : agrees (.table entries) (.table others) = true) :
    ∀ other ∈ others, ∃ v, (other.1, v) ∈ entries ∧ agrees v other.2 = true := by
  obtain ⟨_, ⟨⟩, hlength, hthere⟩ := (agrees_table_iff hentries).mp h
  have hsubset : Ordered.keys entries ⊆ Ordered.keys others := by
    intro key hkey
    obtain ⟨entry, hentry, rfl⟩ := List.mem_map.mp hkey
    obtain ⟨v, hv, -⟩ := hthere entry hentry
    exact List.mem_map.mpr ⟨_, hv, rfl⟩
  have hperm : (Ordered.keys entries).Perm (Ordered.keys others) :=
    (List.subperm_of_subset hentries.distinct hsubset).perm_of_length_le
      (by simp [Ordered.keys, hlength])
  intro other hother
  obtain ⟨entry, hentry, hkey⟩ := List.mem_map.mp (hperm.mem_iff.mpr (List.mem_map_of_mem hother))
  obtain ⟨v, hv, hagrees⟩ := hthere entry hentry
  rw [hkey] at hv
  obtain rfl := hothers.eq_of_mem hv hother
  exact ⟨entry.2, hkey ▸ hentry, hagrees⟩

/-- What holds of the keys of one of two tables that agree holds of those of the other. -/
theorem forall_keys_iff_of_agrees {p : Value → Prop} (ha : IsWritten a) (hb : IsWritten b)
    (h : agrees a b = true) (heq : a = .table entries) :
    ∃ others, b = .table others ∧
      ((∀ entry ∈ entries, p entry.1) ↔ ∀ other ∈ others, p other.1) := by
  subst heq
  obtain ⟨others, rfl, -, hthere⟩ := (agrees_table_iff ha).mp h
  refine ⟨others, rfl, fun hkeys other hother => ?_, fun hkeys entry hentry => ?_⟩
  · obtain ⟨v, hv, -⟩ := exists_of_agrees_table ha hb h other hother
    exact hkeys (other.1, v) hv
  · obtain ⟨v, hv, -⟩ := hthere entry hentry
    exact hkeys (entry.1, v) hv

/-- What data that agree hold agrees as well. -/
theorem exists_part_of_agrees (ha : IsWritten a) (hb : IsWritten b) (h : agrees a b = true) :
    (∀ x ∈ a.parts, ∃ y ∈ b.parts, agrees x y = true) ∧
      ∀ y ∈ b.parts, ∃ x ∈ a.parts, agrees x y = true := by
  cases a with
  | list xs =>
      obtain ⟨ys, rfl, hitems⟩ := agrees_list_iff.mp h
      exact exists_of_forall₂_mem hitems
  | table entries =>
      obtain ⟨others, rfl, -, hthere⟩ := (agrees_table_iff ha).mp h
      constructor
      · refine List.forall_mem_map.mpr fun entry hentry => ?_
        obtain ⟨v, hv, hagrees⟩ := hthere entry hentry
        exact ⟨v, List.mem_map.mpr ⟨_, hv, rfl⟩, hagrees⟩
      · refine List.forall_mem_map.mpr fun other hother => ?_
        obtain ⟨v, hv, hagrees⟩ := exists_of_agrees_table ha hb h other hother
        exact ⟨v, List.mem_map.mpr ⟨_, hv, rfl⟩, hagrees⟩
  | bytes | tuple | record => cases ha
  | null | bool | int | double | text | brokenText =>
      have hleaf : b.parts = [] := by
        cases b with
        | list | tuple | record | table =>
            simp [agrees, isOneDouble, same, isNull, sameQuantity, quantity?] at h
        | _ => rfl
      rw [hleaf]
      exact ⟨List.forall_mem_nil _, List.forall_mem_nil _⟩

/-- A property that equality keeps where it is asked for holds throughout both of two data that
agree, or throughout neither. -/
theorem throughout_iff_of_agrees {p : Value → Prop}
    (hp : ∀ {a b : Value}, IsWritten a → IsWritten b → agrees a b = true → (p a ↔ p b))
    (ha : IsData a) (hb : IsData b) (h : agrees a b = true) : Throughout p a ↔ Throughout p b := by
  induction ha generalizing b with
  | @intro a ha _ ih =>
      obtain ⟨hforth, hback⟩ := exists_part_of_agrees ha hb.holds h
      rw [throughout_iff, throughout_iff (v := b), hp ha hb.holds h]
      refine and_congr_right fun _ => ⟨fun hparts y hy => ?_, fun hparts x hx => ?_⟩
      · obtain ⟨x, hx, hagrees⟩ := hback y hy
        exact (ih x hx (hb.of_mem hy) hagrees).mp (hparts x hx)
      · obtain ⟨y, hy, hagrees⟩ := hforth x hx
        exact (ih x hx (hb.of_mem hy) hagrees).mpr (hparts y hy)

theorem isUnbroken_iff_of_agrees (ha : IsWritten a) (hb : IsWritten b) (h : agrees a b = true) :
    IsUnbroken a ↔ IsUnbroken b := by
  cases a with
  | brokenText ps =>
      obtain rfl := (agrees_iff_of_kind rfl).mp h
      rfl
  | table entries =>
      obtain ⟨others, rfl, hkeys⟩ := forall_keys_iff_of_agrees
        (p := fun key => ∀ ps, key ≠ .brokenText ps) ha hb h rfl
      exact hkeys
  | bytes | tuple | record => cases ha
  | null | bool | int | double | text | list =>
      have hother : IsUnbroken b := by
        cases b with
        | brokenText | table =>
            simp [agrees, isOneDouble, same, isNull, sameQuantity, quantity?] at h
        | _ => trivial
      exact iff_of_true trivial hother

end Equality

end ContractBench.Value
