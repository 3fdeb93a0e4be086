import ContractBench.Display
import ContractBench.Proofs.Numeral
import ContractBench.Proofs.Traversal
import ContractBench.Proofs.Value.Parts
import Mathlib.Data.List.ReduceOption

/-! # Positions among keys

A key of digits counts as the position of a field. What looks like a digit need not have a value,
and numerals have a greatest length, so that not every key of digits can be read. Data is shown if
its keys of digits can be, and only then.
-/

namespace ContractBench.Display

open Value (IsData IsWhole IsWritten Throughout)

section Definitions

/-- Whether a key is a text of digits, in the wide sense. -/
def isDigits : Value → Bool
  | .text s => s ≠ "" && s.toList.all Text.isDigitLike
  | _ => false

/-- The entries of a table whose keys are no digits. -/
def named (entries : List (Value × Value)) : List (Value × Value) :=
  entries.filter fun entry => !isDigits entry.1

/-- A key is a numeral that can be read: all its digits have a value, and they are not too many. -/
def IsNumeral (key : Value) : Prop :=
  ∃ s, key = .text s ∧ (∀ c ∈ s.toList, Text.isDecimal c = true) ∧
    s.toList.length ≤ Numeral.longest

/-- The keys of digits in a table are numerals, as far as it is not left to the parts. -/
def IsNumbered : Value → Prop
  | .table entries => ∀ entry ∈ entries, isDigits entry.1 = true → IsNumeral entry.1
  | _ => True

/-- The number that a key writes. -/
def numberOf : Value → Nat
  | .text s => ((Numeral.decimal? s).getD 0).toNat
  | _ => 0

/-- Whether an entry repeats the named entry at the position that its key writes. -/
def isLeftOut (entries : List (Value × Value)) (entry : Value × Value) : Bool :=
  isDigits entry.1 && (named entries)[numberOf entry.1]?.any fun x => x.2.same entry.2

/-- The entries of a table that repeat no other. -/
def kept (entries : List (Value × Value)) : List (Value × Value) :=
  entries.filter fun entry => !isLeftOut entries entry

/-- An entry of a table, and an entry with the same key and the value as it is shown. -/
def IsShownAs (entry other : Value × Value) : Prop :=
  other.1 = entry.1 ∧ shown entry.2 = .ok other.2

/-- An entry of a table as it is shown, or none where it repeats a named value. -/
def shownEntry (names : List Value) (entry : Value × Value) :
    Except Fault (Option (Value × Value)) := do
  if ← repeats names entry.1 entry.2 then return none
  else return some (entry.1, ← shown entry.2)

end Definitions

section Keys

variable {key v : Value} {names : List Value} {entries : List (Value × Value)}

theorem isPosition_of_kind (h : key.kind = .text) : isPosition key = .ok (isDigits key) := by
  cases key with
  | text s => rfl
  | brokenText ps => rfl
  | _ => cases h

theorem isDigits_iff : isDigits key = true ↔
    ∃ s, key = .text s ∧ s.toList ≠ [] ∧ ∀ c ∈ s.toList, Text.isDigitLike c = true := by
  cases key <;> simp [isDigits]

/-- A key of digits is read if it is a numeral. -/
theorem exists_position_iff (h : isDigits key = true) :
    (∃ n, position key = .ok n) ↔ IsNumeral key := by
  obtain ⟨s, rfl, hsome, hlike⟩ := isDigits_iff.mp h
  have hread := Numeral.isSome_decimal?_iff hsome hlike
  rw [String.ofList_toList] at hread
  have hnumeral : IsNumeral (.text s) ↔ (Numeral.decimal? s).isSome = true := by
    rw [hread]
    constructor
    · rintro ⟨_, ⟨⟩, hdecimal⟩
      exact hdecimal
    · exact fun hdecimal => ⟨s, rfl, hdecimal⟩
  rw [hnumeral, position]
  cases Numeral.decimal? s with
  | none => exact iff_of_false nofun nofun
  | some n => exact iff_of_true ⟨_, rfl⟩ rfl

/-- The named values of a table with text keys. -/
theorem namedValues_eq (h : ∀ entry ∈ entries, entry.1.kind = .text) :
    namedValues entries = .ok ((named entries).map Prod.snd) := by
  induction entries with
  | nil => rfl
  | cons entry entries ih =>
      obtain ⟨hkey, hkeys⟩ := List.forall_mem_cons.mp h
      rw [namedValues, isPosition_of_kind hkey, ih hkeys]
      simp only [named, List.filter_cons]
      cases isDigits entry.1 <;> rfl

theorem position_of_isNumeral (hdigits : isDigits key = true) (h : IsNumeral key) :
    position key = .ok (numberOf key) := by
  obtain ⟨n, hn⟩ := (exists_position_iff hdigits).mpr h
  obtain ⟨s, rfl, -⟩ := h
  rw [position] at hn ⊢
  rw [numberOf]
  cases hread : Numeral.decimal? s with
  | none =>
      rw [hread] at hn
      cases hn
  | some i => rfl

/-- An entry repeats another one if it is left out. -/
theorem repeats_eq {entry : Value × Value} (hkey : entry.1.kind = .text)
    (hnumeral : isDigits entry.1 = true → IsNumeral entry.1) :
    repeats ((named entries).map Prod.snd) entry.1 entry.2 = .ok (isLeftOut entries entry) := by
  rw [repeats, isPosition_of_kind hkey, isLeftOut]
  cases hdigits : isDigits entry.1 with
  | false => rfl
  | true =>
      rw [position_of_isNumeral hdigits (hnumeral hdigits)]
      simp only [bind, Except.bind, List.getElem?_map, Bool.true_and]
      cases (named entries)[numberOf entry.1]? <;> rfl

theorem repeats_eq_error (hdigits : isDigits key = true) (hkey : ¬IsNumeral key)
    (names : List Value) (v : Value) : ∃ fault, repeats names key v = .error fault := by
  have hkind : key.kind = .text := by
    obtain ⟨s, rfl, -⟩ := isDigits_iff.mp hdigits
    rfl
  rw [repeats, isPosition_of_kind hkind, hdigits]
  cases hposition : position key with
  | ok n => exact absurd ((exists_position_iff hdigits).mp ⟨n, hposition⟩) hkey
  | error fault => exact ⟨fault, rfl⟩

end Keys

section Entries

variable {v w : Value} {names xs : List Value} {entries es out : List (Value × Value)}
  {entry : Value × Value}

theorem shownItems_eq (xs : List Value) : shownItems xs = xs.mapM shown := by
  induction xs with
  | nil => rw [shownItems, List.mapM_nil]; rfl
  | cons x xs ih => rw [shownItems, List.mapM_cons, ih]

theorem shownEntries_eq (names : List Value) (entries : List (Value × Value)) :
    shownEntries names entries =
      (entries.mapM (shownEntry names)).map List.reduceOption := by
  induction entries with
  | nil => rw [shownEntries, List.mapM_nil]; rfl
  | cons entry entries ih =>
      rw [shownEntries, List.mapM_cons, ih, shownEntry]
      cases repeats names entry.1 entry.2 with
      | error fault => rfl
      | ok dropped =>
          cases dropped with
          | true => cases entries.mapM (shownEntry names) <;> rfl
          | false =>
              cases shown entry.2 with
              | error fault => rfl
              | ok first => cases entries.mapM (shownEntry names) <;> rfl

theorem shown_list_eq_ok_iff :
    shown (.list xs) = .ok w ↔
      ∃ ys, List.Forall₂ (fun x y => shown x = .ok y) xs ys ∧ .list ys = w := by
  rw [shown, shownItems_eq, map_eq_ok_iff]
  exact exists_congr fun ys => and_congr_left' mapM_eq_ok_iff

theorem shown_tuple (xs : List Value) : shown (.tuple xs) = shown (.list xs) := by
  rw [shown, shown]

/-- An entry that is left out is not shown, and any other is shown with its value. A key of digits
has to be a numeral. -/
theorem shownEntry_eq_ok_iff (hkey : entry.1.kind = .text) {o : Option (Value × Value)} :
    shownEntry ((named entries).map Prod.snd) entry = .ok o ↔
      (isDigits entry.1 = true → IsNumeral entry.1) ∧
        if isLeftOut entries entry then o = none
        else ∃ other, IsShownAs entry other ∧ o = some other := by
  by_cases hnumeral : isDigits entry.1 = true → IsNumeral entry.1
  · rw [and_iff_right hnumeral, shownEntry, repeats_eq hkey hnumeral]
    cases isLeftOut entries entry with
    | true => exact ⟨fun h => (Except.ok.inj h).symm, fun h => h ▸ rfl⟩
    | false =>
        rw [if_neg Bool.false_ne_true]
        change (shown entry.2 >>= fun value => pure (some (entry.1, value))) = .ok o ↔ _
        constructor
        · intro h
          obtain ⟨value, hvalue, hdone⟩ := bind_eq_ok_iff.mp h
          cases hdone
          exact ⟨(entry.1, value), ⟨rfl, hvalue⟩, rfl⟩
        · rintro ⟨⟨name, value⟩, ⟨rfl, hvalue⟩, rfl⟩
          exact bind_eq_ok_iff.mpr ⟨value, hvalue, rfl⟩
  · refine iff_of_false (fun h => ?_) fun h => hnumeral h.1
    obtain ⟨hdigits, hkey⟩ := Classical.not_imp.mp hnumeral
    obtain ⟨fault, hfault⟩ :=
      repeats_eq_error hdigits hkey ((named entries).map Prod.snd) entry.2
    rw [shownEntry, hfault] at h
    cases h

/-- What is shown of some entries of a table. -/
theorem exists_reduceOption_iff (hkeys : ∀ entry ∈ es, entry.1.kind = .text) :
    (∃ found, List.Forall₂
        (fun entry o => shownEntry ((named entries).map Prod.snd) entry = .ok o) es found ∧
        found.reduceOption = out) ↔
      (∀ entry ∈ es, isDigits entry.1 = true → IsNumeral entry.1) ∧
        List.Forall₂ IsShownAs (es.filter fun entry => !isLeftOut entries entry) out := by
  induction es generalizing out with
  | nil =>
      simp only [List.forall₂_nil_left_iff, exists_eq_left, List.filter_nil]
      exact ⟨fun h => ⟨nofun, h.symm⟩, fun h => h.2.symm⟩
  | cons entry es ih =>
      obtain ⟨hkey, hkeys⟩ := List.forall_mem_cons.mp hkeys
      rw [List.forall_mem_cons, List.filter_cons]
      cases hleft : isLeftOut entries entry with
      | true =>
          rw [Bool.not_true, if_neg Bool.false_ne_true, and_assoc, ← ih hkeys]
          constructor
          · rintro ⟨_, _ | ⟨ho, hrest⟩, hout⟩
            rw [shownEntry_eq_ok_iff hkey, hleft, if_pos rfl] at ho
            obtain ⟨hnumeral, rfl⟩ := ho
            exact ⟨hnumeral, _, hrest, hout⟩
          · rintro ⟨hnumeral, found, hrest, hout⟩
            refine ⟨none :: found, .cons ?_ hrest, hout⟩
            rw [shownEntry_eq_ok_iff hkey, hleft, if_pos rfl]
            exact ⟨hnumeral, rfl⟩
      | false =>
          rw [Bool.not_false, if_pos rfl]
          constructor
          · rintro ⟨_, _ | ⟨ho, hrest⟩, rfl⟩
            rw [shownEntry_eq_ok_iff hkey, hleft, if_neg Bool.false_ne_true] at ho
            obtain ⟨hnumeral, other, hother, rfl⟩ := ho
            obtain ⟨hnumerals, hshown⟩ := (ih hkeys).mp ⟨_, hrest, rfl⟩
            exact ⟨⟨hnumeral, hnumerals⟩, .cons hother hshown⟩
          · rintro ⟨⟨hnumeral, hnumerals⟩, _ | ⟨hother, hshown⟩⟩
            obtain ⟨found, hrest, rfl⟩ := (ih hkeys).mpr ⟨hnumerals, hshown⟩
            refine ⟨some _ :: found, .cons ?_ hrest, rfl⟩
            rw [shownEntry_eq_ok_iff hkey, hleft, if_neg Bool.false_ne_true]
            exact ⟨hnumeral, _, hother, rfl⟩

/-- A table with text keys is shown if its keys of digits are numerals and the values of the entries
that are kept are shown. It is shown as these entries, in order. -/
theorem shown_table_eq_ok_iff (h : ∀ entry ∈ entries, entry.1.kind = .text) :
    shown (.table entries) = .ok w ↔
      (∀ entry ∈ entries, isDigits entry.1 = true → IsNumeral entry.1) ∧
        ∃ out, List.Forall₂ IsShownAs (kept entries) out ∧ .table out = w := by
  rw [shown, namedValues_eq h]
  change (shownEntries _ entries).map _ = _ ↔ _
  simp only [shownEntries_eq, map_eq_ok_iff, mapM_eq_ok_iff]
  simp only [exists_reduceOption_iff h, kept, and_assoc, exists_and_left]

end Entries

end ContractBench.Display
