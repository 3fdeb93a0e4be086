import ContractBench.Proofs.Display.Positions

/-! # Data that is shown

Data is shown if all its keys of digits are numerals, and only then. What is shown is data again,
with a broken text in it if there was one.
-/

namespace ContractBench.Display

open Value (IsData IsWhole IsWritten Throughout)

variable {v w : Value} {entries out : List (Value × Value)} {entry x : Value × Value}

section Kept

theorem exists_named_of_isLeftOut (h : isLeftOut entries entry = true) :
    isDigits entry.1 = true ∧
      ∃ x, (named entries)[numberOf entry.1]? = some x ∧ x.2.same entry.2 = true := by
  obtain ⟨hdigits, hthere⟩ := Bool.and_eq_true_iff.mp h
  refine ⟨hdigits, ?_⟩
  cases hx : (named entries)[numberOf entry.1]? with
  | none =>
      rw [hx] at hthere
      cases hthere
  | some x =>
      rw [hx] at hthere
      exact ⟨x, rfl, hthere⟩

/-- Named entries are kept. -/
theorem mem_kept_of_named (h : x ∈ named entries) : x ∈ entries ∧ x ∈ kept entries := by
  obtain ⟨hmem, hname⟩ := List.mem_filter.mp h
  refine ⟨hmem, List.mem_filter.mpr ⟨hmem, ?_⟩⟩
  simp only [Bool.not_eq_true'] at hname
  rw [isLeftOut, hname]
  rfl

/-- A value is kept, or equal to a named one. -/
theorem mem_kept_or (h : entry ∈ entries) : entry ∈ kept entries ∨
    isDigits entry.1 = true ∧ ∃ x ∈ named entries, x.2.same entry.2 = true := by
  cases hleft : isLeftOut entries entry with
  | false => exact Or.inl (List.mem_filter.mpr ⟨h, by rw [hleft]; rfl⟩)
  | true =>
      obtain ⟨hdigits, x, hx, hsame⟩ := exists_named_of_isLeftOut hleft
      exact Or.inr ⟨hdigits, x, List.mem_of_getElem? hx, hsame⟩

theorem agrees_of_same {a b : Value} (h : a.same b = true) : a.agrees b = true := by
  rw [Value.agrees, h, Bool.or_true]

/-- A property of data that equality keeps holds of all values of a table if it holds of those that
are kept. -/
theorem throughout_of_kept {p : Value → Prop} (hdata : ∀ entry ∈ entries, IsData entry.2)
    (hp : ∀ {a b : Value}, IsWritten a → IsWritten b → a.agrees b = true → (p a ↔ p b))
    (h : ∀ entry ∈ kept entries, Throughout p entry.2) :
    ∀ entry ∈ entries, Throughout p entry.2 := by
  intro entry hentry
  rcases mem_kept_or hentry with hkept | ⟨-, x, hx, hsame⟩
  · exact h entry hkept
  · obtain ⟨hmem, hkept⟩ := mem_kept_of_named hx
    exact (Value.throughout_iff_of_agrees hp (hdata x hmem) (hdata entry hentry)
      (agrees_of_same hsame)).mp (h x hkept)

theorem keys_of_shown (h : List.Forall₂ IsShownAs entries out) :
    Ordered.keys out = Ordered.keys entries := by
  induction h with
  | nil => rfl
  | cons hone _ ih =>
      simp only [Ordered.keys, List.map_cons] at ih ⊢
      rw [hone.1, ih]

end Kept

section Showing

theorem isNumbered_iff_of_agrees {a b : Value} (ha : IsWritten a) (hb : IsWritten b)
    (h : a.agrees b = true) : IsNumbered a ↔ IsNumbered b := by
  cases a with
  | table entries =>
      obtain ⟨others, rfl, hkeys⟩ := Value.forall_keys_iff_of_agrees
        (p := fun key => isDigits key = true → IsNumeral key) ha hb h rfl
      exact hkeys
  | bytes | tuple | record => cases ha
  | null | bool | int | double | text | brokenText | list =>
      have hother : IsNumbered b := by
        cases b with
        | table =>
            simp [Value.agrees, Value.isOneDouble, Value.same, Value.isNull, Value.sameQuantity,
              Value.quantity?] at h
        | _ => trivial
      exact iff_of_true trivial hother

theorem exists_printInt {n : Int} (h : IsWritten (.int n)) : ∃ s, Value.printInt n = .ok s := by
  have hlength : ¬Numeral.longest < (Numeral.digitsOf n.natAbs).length := Nat.not_lt.mpr h
  refine ⟨Numeral.print n, ?_⟩
  rw [Value.printInt, Numeral.print?, if_neg hlength]

/-- A table is shown if its keys of digits are numerals and what it keeps is shown. -/
theorem exists_shown_table_iff (h : Ordered.TextKeyed entries)
    (hdata : ∀ entry ∈ entries, IsData entry.2)
    (hvalue : ∀ entry ∈ entries, (∃ w, shown entry.2 = .ok w) ↔ Throughout IsNumbered entry.2) :
    (∃ w, shown (.table entries) = .ok w) ↔ Throughout IsNumbered (.table entries) := by
  rw [Value.throughout_iff]
  simp only [shown_table_eq_ok_iff fun _ => h.kind_eq]
  constructor
  · rintro ⟨_, hnumerals, out, hout, -⟩
    refine ⟨hnumerals, List.forall_mem_map.mpr ?_⟩
    refine throughout_of_kept hdata isNumbered_iff_of_agrees fun entry hentry => ?_
    obtain ⟨other, -, hother⟩ := (exists_of_forall₂_mem hout).1 entry hentry
    exact (hvalue entry (List.mem_of_mem_filter hentry)).mp ⟨_, hother.2⟩
  · rintro ⟨hnumerals, hvalues⟩
    have hshown : ∀ entry ∈ kept entries, ∃ other, IsShownAs entry other := by
      intro entry hentry
      have hmem := List.mem_of_mem_filter hentry
      obtain ⟨w, hw⟩ := (hvalue entry hmem).mpr (hvalues _ (List.mem_map_of_mem hmem))
      exact ⟨(entry.1, w), rfl, hw⟩
    obtain ⟨out, hout⟩ := exists_forall₂_iff.mpr hshown
    exact ⟨_, hnumerals, out, hout, rfl⟩

/-- Data is shown if its keys of digits are numerals. -/
theorem exists_shown_iff (h : IsData v) : (∃ w, shown v = .ok w) ↔ Throughout IsNumbered v := by
  induction h with
  | @intro v h hparts ih =>
      cases v with
      | null | bool | double | text | brokenText =>
          refine iff_of_true ?_ (.leaf trivial rfl)
          simp only [shown]
          exact ⟨_, rfl⟩
      | int n =>
          obtain ⟨s, hs⟩ := exists_printInt h
          refine iff_of_true ⟨.text s, ?_⟩ (.leaf trivial rfl)
          rw [shown, hs]
          rfl
      | list xs =>
          have hitems : (∃ w, shown (.list xs) = .ok w) ↔ ∀ x ∈ xs, ∃ w, shown x = .ok w := by
            simp only [shown_list_eq_ok_iff, ← exists_forall₂_iff]
            constructor
            · rintro ⟨_, ys, hys, -⟩
              exact ⟨ys, hys⟩
            · rintro ⟨ys, hys⟩
              exact ⟨_, ys, hys, rfl⟩
          rw [hitems, Value.throughout_iff]
          exact (forall₂_congr ih).trans (and_iff_right trivial).symm
      | table entries =>
          exact exists_shown_table_iff h (List.forall_mem_map.mp hparts) (List.forall_mem_map.mp ih)
      | bytes | tuple | record => cases h

/-- The keys of a table as it is shown are among its own. -/
theorem textKeyed_of_shown (h : Ordered.TextKeyed entries)
    (hout : List.Forall₂ IsShownAs (kept entries) out) : Ordered.TextKeyed out := by
  have hsublist : (Ordered.keys out).Sublist (Ordered.keys entries) := by
    rw [keys_of_shown hout]
    exact List.filter_sublist.map Prod.fst
  exact ⟨fun key hkey => h.texts key (hsublist.subset hkey), h.distinct.sublist hsublist⟩

/-- A table as it is shown has a broken text in it if the table has, since what is left out agrees
with a value that is kept. -/
theorem isWhole_table_iff_of_shown (hdata : ∀ entry ∈ entries, IsData entry.2)
    (hout : List.Forall₂ IsShownAs (kept entries) out)
    (hvalue : ∀ entry ∈ kept entries, ∀ other, IsShownAs entry other →
      (IsWhole other.2 ↔ IsWhole entry.2)) :
    IsWhole (.table out) ↔ IsWhole (.table entries) := by
  obtain ⟨hforth, hback⟩ := exists_of_forall₂_mem hout
  rw [IsWhole, IsWhole, Value.throughout_iff, Value.throughout_iff (v := .table entries)]
  constructor
  · rintro ⟨hunbroken, hwholes⟩
    constructor
    · intro entry hentry ps hbroken
      rcases mem_kept_or hentry with hkept | ⟨hdigits, -⟩
      · obtain ⟨other, hother, hname, -⟩ := hforth entry hkept
        exact hunbroken other hother ps (hname.trans hbroken)
      · rw [hbroken] at hdigits
        cases hdigits
    · refine List.forall_mem_map.mpr
        (throughout_of_kept hdata Value.isUnbroken_iff_of_agrees fun entry hkept => ?_)
      obtain ⟨other, hother, hone⟩ := hforth entry hkept
      exact (hvalue entry hkept other hone).mp (hwholes _ (List.mem_map_of_mem hother))
  · rintro ⟨hunbroken, hwholes⟩
    constructor
    · intro other hother ps hbroken
      obtain ⟨entry, hkept, hname, -⟩ := hback other hother
      exact hunbroken entry (List.mem_of_mem_filter hkept) ps (hname.symm.trans hbroken)
    · refine List.forall_mem_map.mpr fun other hother => ?_
      obtain ⟨entry, hkept, hone⟩ := hback other hother
      exact (hvalue entry hkept other hone).mpr
        (hwholes _ (List.mem_map_of_mem (List.mem_of_mem_filter hkept)))

/-- What is shown of data is data, and it has a broken text in it if the data has. -/
theorem isData_of_shown (h : IsData v) (hshown : shown v = .ok w) :
    IsData w ∧ (IsWhole w ↔ IsWhole v) := by
  induction h generalizing w with
  | @intro v h hparts ih =>
      cases v with
      | null | bool | double | text | brokenText =>
          simp only [shown, Except.ok.injEq] at hshown
          subst hshown
          exact ⟨⟨h, hparts⟩, Iff.rfl⟩
      | int n =>
          obtain ⟨s, -, rfl⟩ := map_eq_ok_iff.mp hshown
          exact ⟨.leaf trivial rfl, iff_of_true (.leaf trivial rfl) (.leaf trivial rfl)⟩
      | list xs =>
          obtain ⟨ys, hys, rfl⟩ := shown_list_eq_ok_iff.mp hshown
          obtain ⟨hforth, hback⟩ := exists_of_forall₂_mem hys
          refine ⟨⟨trivial, fun y hy => ?_⟩, ?_⟩
          · obtain ⟨x, hx, hxy⟩ := hback y hy
            exact (ih x hx hxy).1
          · rw [IsWhole, IsWhole, Value.throughout_iff, Value.throughout_iff (v := .list xs)]
            refine and_congr_right' ⟨fun hwhole x hx => ?_, fun hwhole y hy => ?_⟩
            · obtain ⟨y, hy, hxy⟩ := hforth x hx
              exact (ih x hx hxy).2.mp (hwhole y hy)
            · obtain ⟨x, hx, hxy⟩ := hback y hy
              exact (ih x hx hxy).2.mpr (hwhole x hx)
      | table entries =>
          have hdata := List.forall_mem_map.mp hparts
          have hvalue := List.forall_mem_map.mp ih
          obtain ⟨-, out, hout, rfl⟩ := (shown_table_eq_ok_iff fun _ => h.kind_eq).mp hshown
          obtain ⟨-, hback⟩ := exists_of_forall₂_mem hout
          refine ⟨⟨textKeyed_of_shown h hout, List.forall_mem_map.mpr fun other hother => ?_⟩, ?_⟩
          · obtain ⟨entry, hentry, -, hone⟩ := hback other hother
            exact (hvalue entry (List.mem_of_mem_filter hentry) hone).1
          · refine isWhole_table_iff_of_shown hdata hout fun entry hkept other hone => ?_
            exact (hvalue entry (List.mem_of_mem_filter hkept) hone.2).2
      | bytes | tuple | record => cases h

end Showing

end ContractBench.Display
