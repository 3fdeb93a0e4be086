import ContractBench.Proofs.Display.Shown

/-! # Entries that are left out

An entry is left out of a display where its key writes the position of a named entry with an equal
value. Numbers are equal across kinds, and so are what holds them, while a display tells the kinds
apart. So what is left out is told by the named entry exactly where the two values are alike, but
for what their own displays leave out.
-/

namespace ContractBench

/-- Values of one kind and content. The entries of tables may stand in any order. -/
inductive Value.Alike : Value → Value → Prop
  | leaf {v : Value} (h : v.parts = []) : Alike v v
  | list {xs ys : List Value} (h : List.Forall₂ Alike xs ys) : Alike (.list xs) (.list ys)
  | tuple {xs ys : List Value} (h : List.Forall₂ Alike xs ys) : Alike (.tuple xs) (.tuple ys)
  | table {entries others : List (Value × Value)}
      (hkeys : (Ordered.keys entries).Perm (Ordered.keys others))
      (h : ∀ key x y, (key, x) ∈ entries → (key, y) ∈ others → Alike x y) :
      Alike (.table entries) (.table others)

namespace Display

open Value (Alike Throughout)

mutual

/-- A value without the entries that its display leaves out, at any depth. -/
def trimmed : Value → Value
  | .list xs => .list (trimmedItems xs)
  | .tuple xs => .tuple (trimmedItems xs)
  | .table entries => .table (trimmedEntries entries entries)
  | v => v

def trimmedItems : List Value → List Value
  | [] => []
  | x :: xs => trimmed x :: trimmedItems xs

/-- Some entries of a table, without those that its display leaves out. -/
def trimmedEntries (all : List (Value × Value)) : List (Value × Value) → List (Value × Value)
  | [] => []
  | (key, x) :: rest =>
      if isLeftOut all (key, x) then trimmedEntries all rest
      else (key, trimmed x) :: trimmedEntries all rest

end

/-- The keys of tables are different texts, and there are no records, as far as it is not left to
the parts. -/
def IsKeyed : Value → Prop
  | .table entries => Ordered.TextKeyed entries
  | .record _ => False
  | _ => True

variable {a b x y w w' key : Value} {xs ys ws ws' : List Value}
  {entries others out out' : List (Value × Value)} {entry : Value × Value}

section Alike

theorem kind_eq_of_alike (h : Alike a b) : a.kind = b.kind := by
  cases h <;> rfl

theorem not_alike_of_kind (h : a.kind ≠ b.kind) : ¬Alike a b := mt kind_eq_of_alike h

theorem alike_list_iff : Alike (.list xs) (.list ys) ↔ List.Forall₂ Alike xs ys := by
  refine ⟨fun h => ?_, .list⟩
  cases h with
  | leaf h =>
      obtain rfl : xs = [] := h
      exact .nil
  | list h => exact h

theorem alike_tuple_iff : Alike (.tuple xs) (.tuple ys) ↔ List.Forall₂ Alike xs ys := by
  refine ⟨fun h => ?_, .tuple⟩
  cases h with
  | leaf h =>
      obtain rfl : xs = [] := h
      exact .nil
  | tuple h => exact h

theorem alike_table_iff : Alike (.table entries) (.table others) ↔
    (Ordered.keys entries).Perm (Ordered.keys others) ∧
      ∀ key x y, (key, x) ∈ entries → (key, y) ∈ others → Alike x y := by
  refine ⟨fun h => ?_, fun h => .table h.1 h.2⟩
  cases h with
  | leaf h =>
      obtain rfl : entries = [] := List.map_eq_nil_iff.mp h
      exact ⟨.refl _, nofun⟩
  | table hkeys h => exact ⟨hkeys, h⟩

/-- Null, texts and bytes equal themselves alone. -/
theorem eq_of_agrees (hkind : a.kind = .null ∨ a.kind = .text ∨ a.kind = .bytes)
    (h : a.agrees b = true) : b = a := by
  rcases hkind with hkind | hkind | hkind
  · cases a with
    | null => cases b <;> simp [Value.agrees, Value.isOneDouble, Value.same, Value.isNull] at h ⊢
    | _ => cases hkind
  · exact ((Value.agrees_iff_of_kind hkind).mp h).symm
  · cases a with
    | bytes bs =>
        cases b <;> simp [Value.agrees, Value.isOneDouble, Value.same] at h ⊢
        exact h.symm
    | _ => cases hkind

theorem eq_of_agrees_int (ha : a.kind = .int) (hb : b.kind = .int) (h : a.agrees b = true) :
    a = b := by
  cases a with
  | int n =>
      cases b with
      | int m =>
          simpa [Value.agrees, Value.isOneDouble, Value.same, Value.sameQuantity, Value.quantity?,
            Quantity.ofInt, Quantity.same, Quantity.aligned] using h
      | _ => cases hb
  | _ => cases ha

/-- Nothing but truth values and numbers equals one of these. -/
theorem isSome_quantity?_of_agrees (ha : a.quantity?.isSome = true) (h : a.agrees b = true) :
    b.quantity?.isSome = true := by
  cases a with
  | bool | int | double =>
      cases b <;>
        simp [Value.agrees, Value.isOneDouble, Value.same, Value.sameQuantity, Value.quantity?]
          at h ⊢
  | _ => cases ha

theorem parts_of_kind (h : a.kind = .int ∨ a.kind = .text) : a.parts = [] := by
  cases a with
  | int | text | brokenText => rfl
  | _ => simp [Value.kind] at h

theorem tuple_or_record_of_agrees (h : (Value.tuple xs).agrees b = true) :
    (∃ ys, b = .tuple ys) ∨ ∃ fields, b = .record fields := by
  cases b with
  | tuple ys => exact Or.inl ⟨ys, rfl⟩
  | record fields => exact Or.inr ⟨fields, rfl⟩
  | _ => simp [Value.agrees, Value.isOneDouble, Value.same, Value.tupleItems?] at h

/-- A tuple agrees with tuples of the same length whose items agree in their places. -/
theorem agrees_tuple_iff : (Value.tuple xs).agrees (.tuple ys) = true ↔
    List.Forall₂ (fun x y => x.agrees y = true) xs ys := by
  rw [← Value.sameItems_iff]
  simp [Value.agrees, Value.isOneDouble, Value.same, Value.tupleItems?]

end Alike

section Trimmed

theorem trimmedItems_eq (xs : List Value) : trimmedItems xs = xs.map trimmed := by
  induction xs with
  | nil => rw [trimmedItems, List.map_nil]
  | cons x xs ih => rw [trimmedItems, List.map_cons, ih]

theorem trimmed_table (entries : List (Value × Value)) :
    trimmed (.table entries) =
      .table ((kept entries).map fun entry => (entry.1, trimmed entry.2)) := by
  have htrimmed (es : List (Value × Value)) : trimmedEntries entries es =
      (es.filter fun entry => !isLeftOut entries entry).map
        fun entry => (entry.1, trimmed entry.2) := by
    induction es with
    | nil => rw [trimmedEntries, List.filter_nil, List.map_nil]
    | cons entry es ih =>
        rw [trimmedEntries, ih, List.filter_cons]
        cases isLeftOut entries entry <;> rfl
  rw [trimmed, htrimmed, kept]

/-- Items that are equal in their places are shown alike if they are alike without what is left out,
where this holds of each. -/
theorem forall₂_alike_iff (h : List.Forall₂ (fun x y => x.agrees y = true) xs ys)
    (hone : ∀ x ∈ xs, ∀ y ∈ ys, ∀ w w', x.agrees y = true → shown x = .ok w → shown y = .ok w' →
      (Alike w w' ↔ Alike (trimmed x) (trimmed y)))
    (hws : List.Forall₂ (fun x w => shown x = .ok w) xs ws)
    (hws' : List.Forall₂ (fun y w => shown y = .ok w) ys ws') :
    List.Forall₂ Alike ws ws' ↔ List.Forall₂ Alike (xs.map trimmed) (ys.map trimmed) := by
  induction h generalizing ws ws' with
  | nil =>
      cases hws
      cases hws'
      exact iff_of_true .nil .nil
  | cons hagrees _ ih =>
      obtain _ | ⟨hw, hws⟩ := hws
      obtain _ | ⟨hw', hws'⟩ := hws'
      rw [List.map_cons, List.map_cons, List.forall₂_cons, List.forall₂_cons,
        hone _ List.mem_cons_self _ List.mem_cons_self _ _ hagrees hw hw']
      refine and_congr_right' (ih (fun x hx y hy => ?_) hws hws')
      exact hone x (List.mem_cons_of_mem _ hx) y (List.mem_cons_of_mem _ hy)

/-- Equal tables are shown alike if they are alike without what is left out, where this holds of the
values under each key. -/
theorem alike_table_shown_iff (hentries : Ordered.TextKeyed entries)
    (hothers : Ordered.TextKeyed others)
    (hagrees : (Value.table entries).agrees (.table others) = true)
    (hone : ∀ key x y w w', (key, x) ∈ entries → (key, y) ∈ others → x.agrees y = true →
      shown x = .ok w → shown y = .ok w' → (Alike w w' ↔ Alike (trimmed x) (trimmed y)))
    (hout : List.Forall₂ IsShownAs (kept entries) out)
    (hout' : List.Forall₂ IsShownAs (kept others) out') :
    Alike (.table out) (.table out') ↔
      Alike (trimmed (.table entries)) (trimmed (.table others)) := by
  -- Under one key the tables have values that agree, so what is known of these applies.
  have hthere {key x y w w' : Value} (hx : (key, x) ∈ kept entries) (hy : (key, y) ∈ kept others)
      (hw : shown x = .ok w) (hw' : shown y = .ok w') :
      Alike w w' ↔ Alike (trimmed x) (trimmed y) := by
    have hx := List.mem_of_mem_filter hx
    have hy := List.mem_of_mem_filter hy
    obtain ⟨_, ⟨⟩, -, hall⟩ := (Value.agrees_table_iff hentries).mp hagrees
    obtain ⟨v, hv, hxv⟩ := hall (key, x) hx
    obtain rfl := hothers.eq_of_mem hy hv
    exact hone key x y w w' hx hy hxv hw hw'
  have htrimmed (es : List (Value × Value)) :
      Ordered.keys (es.map fun entry => (entry.1, trimmed entry.2)) = Ordered.keys es := by
    rw [Ordered.keys, List.map_map]
    rfl
  obtain ⟨hforth, hback⟩ := exists_of_forall₂_mem hout
  obtain ⟨hforth', hback'⟩ := exists_of_forall₂_mem hout'
  rw [trimmed_table, trimmed_table, alike_table_iff, alike_table_iff, keys_of_shown hout,
    keys_of_shown hout', htrimmed, htrimmed]
  refine and_congr_right' ⟨fun h key tx ty hx hy => ?_, fun h key w w' hw hw' => ?_⟩
  · obtain ⟨⟨_, x⟩, hmem, ⟨⟩⟩ := List.mem_map.mp hx
    obtain ⟨⟨_, y⟩, hmem', heq⟩ := List.mem_map.mp hy
    cases heq
    obtain ⟨⟨_, w⟩, hw, rfl, hxw⟩ := hforth _ hmem
    obtain ⟨⟨_, w'⟩, hw', rfl, hyw'⟩ := hforth' _ hmem'
    exact (hthere hmem hmem' hxw hyw').mp (h _ w w' hw hw')
  · obtain ⟨⟨_, x⟩, hx, rfl, hxw⟩ := hback _ hw
    obtain ⟨⟨_, y⟩, hy, heq, hyw'⟩ := hback' _ hw'
    cases heq
    exact (hthere hx hy hxw hyw').mpr
      (h _ _ _ (List.mem_map.mpr ⟨_, hx, rfl⟩) (List.mem_map.mpr ⟨_, hy, rfl⟩))

/-- A truth value or a number is shown as it is, unless it is a whole number, which is shown as a
text. Nothing of it is left out. -/
theorem shown_quantity_cases (hx : x.quantity?.isSome = true) (hw : shown x = .ok w) :
    trimmed x = x ∧ ((x.kind = .int ∧ w.kind = .text) ∨
      ((x.kind = .bool ∨ x.kind = .double) ∧ w = x)) := by
  cases x with
  | bool | double =>
      simp only [shown, Except.ok.injEq] at hw
      exact ⟨by simp only [trimmed], Or.inr ⟨by simp [Value.kind], hw.symm⟩⟩
  | int n =>
      obtain ⟨s, -, rfl⟩ := map_eq_ok_iff.mp hw
      exact ⟨by simp only [trimmed], Or.inl ⟨rfl, rfl⟩⟩
  | _ => cases hx

/-- Equal numbers are shown alike if they are of one kind. -/
theorem alike_shown_quantity_iff (hx : x.quantity?.isSome = true) (h : x.agrees y = true)
    (hw : shown x = .ok w) (hw' : shown y = .ok w') :
    Alike w w' ↔ Alike (trimmed x) (trimmed y) := by
  obtain ⟨htrimmed, hshown⟩ := shown_quantity_cases hx hw
  obtain ⟨htrimmed', hshown'⟩ := shown_quantity_cases (isSome_quantity?_of_agrees hx h) hw'
  rw [htrimmed, htrimmed']
  rcases hshown with ⟨hkind, htext⟩ | ⟨hkind, rfl⟩
  · rcases hshown' with ⟨hkind', htext'⟩ | ⟨hkind', rfl⟩
    · obtain rfl := eq_of_agrees_int hkind hkind' h
      obtain rfl := Except.ok.inj (hw.symm.trans hw')
      exact iff_of_true (.leaf (parts_of_kind (Or.inr htext)))
        (.leaf (parts_of_kind (Or.inl hkind)))
    · -- The whole number is shown as a text, and neither is of the kind of the other value.
      refine iff_of_false (not_alike_of_kind ?_) (not_alike_of_kind ?_) <;>
        rcases hkind' with hkind' | hkind' <;> simp [hkind, htext, hkind']
  · rcases hshown' with ⟨hkind', htext'⟩ | ⟨-, rfl⟩
    · refine iff_of_false (not_alike_of_kind ?_) (not_alike_of_kind ?_) <;>
        rcases hkind with hkind | hkind <;> simp [hkind, hkind', htext']
    · exact Iff.rfl

/-- Equal values are shown alike if they are alike without what is left out. -/
theorem alike_shown_iff (hx : Throughout IsKeyed x) (hy : Throughout IsKeyed y)
    (h : x.agrees y = true) (hw : shown x = .ok w) (hw' : shown y = .ok w') :
    Alike w w' ↔ Alike (trimmed x) (trimmed y) := by
  induction hx generalizing y w w' with
  | @intro x hkeyed _ ih =>
      cases x with
      | null | text | brokenText | bytes =>
          obtain rfl := eq_of_agrees (by simp [Value.kind]) h
          obtain rfl := Except.ok.inj (hw.symm.trans hw')
          simp only [shown, Except.ok.injEq] at hw
          rw [← hw]
          simp only [trimmed]
      | bool | int | double => exact alike_shown_quantity_iff rfl h hw hw'
      | list xs =>
          obtain ⟨ys, rfl, hitems⟩ := Value.agrees_list_iff.mp h
          obtain ⟨ws, hws, rfl⟩ := shown_list_eq_ok_iff.mp hw
          obtain ⟨ws', hws', rfl⟩ := shown_list_eq_ok_iff.mp hw'
          rw [trimmed, trimmed, trimmedItems_eq, trimmedItems_eq, alike_list_iff, alike_list_iff]
          exact forall₂_alike_iff hitems
            (fun x hx y hmem w w' hxy => ih x hx (hy.of_mem hmem) hxy) hws hws'
      | tuple xs =>
          obtain ⟨ys, rfl⟩ | ⟨fields, rfl⟩ := tuple_or_record_of_agrees h
          · rw [shown_tuple] at hw hw'
            obtain ⟨ws, hws, rfl⟩ := shown_list_eq_ok_iff.mp hw
            obtain ⟨ws', hws', rfl⟩ := shown_list_eq_ok_iff.mp hw'
            rw [trimmed, trimmed, trimmedItems_eq, trimmedItems_eq, alike_list_iff,
              alike_tuple_iff]
            exact forall₂_alike_iff (agrees_tuple_iff.mp h)
              (fun x hx y hmem w w' hxy => ih x hx (hy.of_mem hmem) hxy) hws hws'
          · exact hy.holds.elim
      | record fields => cases hkeyed
      | table entries =>
          obtain ⟨others, rfl, -⟩ := (Value.agrees_table_iff hkeyed).mp h
          obtain ⟨-, out, hout, rfl⟩ := (shown_table_eq_ok_iff fun _ => hkeyed.kind_eq).mp hw
          obtain ⟨-, out', hout', rfl⟩ := (shown_table_eq_ok_iff fun _ => hy.holds.kind_eq).mp hw'
          refine alike_table_shown_iff hkeyed hy.holds h ?_ hout hout'
          intro key x y w w' hx hmem hxy hw hw'
          exact ih x (List.mem_map.mpr ⟨_, hx, rfl⟩)
            (hy.of_mem (List.mem_map.mpr ⟨_, hmem, rfl⟩)) hxy hw hw'

end Trimmed

section Tables

/-- A key of digits that is written in ASCII. -/
def IsPlainNumeral (key : Value) : Prop :=
  ∃ s, key = .text s ∧ ∀ c ∈ s.toList, c.isDigit = true

theorem numberOf_eq {s : String} (hdigits : isDigits (.text s) = true)
    (hplain : IsPlainNumeral (.text s)) (hnumeral : IsNumeral (.text s)) :
    numberOf (.text s) = Nat.ofDigitChars 10 s.toList 0 := by
  obtain ⟨_, ⟨⟩, hsome, hlike⟩ := isDigits_iff.mp hdigits
  obtain ⟨_, ⟨⟩, hascii⟩ := hplain
  obtain ⟨_, ⟨⟩, -, hlength⟩ := hnumeral
  have hread : Numeral.digitsFrom Text.digitValue? 10 0 false s.toList = some _ :=
    Numeral.digitsFrom_of_digits hascii (Or.inr hsome) 0
  have hdecimal := Numeral.decimal?_of_digitLike hlike
  rw [String.ofList_toList, if_neg (Nat.not_lt.mpr hlength), Numeral.digits?, hread] at hdecimal
  rw [numberOf, hdecimal]
  rfl

/-- What is left out repeats a named entry, whose place its key writes in decimal. -/
theorem exists_of_isLeftOut (hdigits : isDigits entry.1 = true → IsPlainNumeral entry.1)
    (hnumeral : isDigits entry.1 = true → IsNumeral entry.1)
    (h : isLeftOut entries entry = true) :
    ∃ s x, entry.1 = .text s ∧ (named entries)[Nat.ofDigitChars 10 s.toList 0]? = some x ∧
      x ∈ kept entries ∧ x.2.same entry.2 = true := by
  obtain ⟨hkey, x, hx, hsame⟩ := exists_named_of_isLeftOut h
  obtain ⟨s, hs, -⟩ := hdigits hkey
  have hplain := hdigits hkey
  have hread := hnumeral hkey
  rw [hs] at hkey hplain hread hx
  rw [numberOf_eq hkey hplain hread] at hx
  exact ⟨s, x, hs, hx, (mem_kept_of_named (List.mem_of_getElem? hx)).2, hsame⟩

/-- What a display of a table with text keys leaves out. It keeps all other entries, in order, with
their values as they are shown. What is left out has a key that writes the position of a named entry
with an equal value, and this entry is kept. The two values are shown alike exactly where they are
alike without what their own displays leave out. -/
theorem shown_of_table (hkeys : ∀ entry ∈ entries, entry.1.kind = .text)
    (hdigits : ∀ entry ∈ entries, isDigits entry.1 = true → IsPlainNumeral entry.1) :
    ((∃ out, shown (.table entries) = .ok (.table out)) ↔
      (∀ entry ∈ entries, isDigits entry.1 = true → IsNumeral entry.1) ∧
        ∀ entry ∈ kept entries, ∃ w, shown entry.2 = .ok w) ∧
    ∀ out, shown (.table entries) = .ok (.table out) →
      List.Forall₂ IsShownAs (kept entries) out ∧
      ∀ entry ∈ entries, isLeftOut entries entry = true →
        ∃ s x w, entry.1 = .text s ∧
          (named entries)[Nat.ofDigitChars 10 s.toList 0]? = some x ∧ x ∈ kept entries ∧
          (x.1, w) ∈ out ∧ shown x.2 = .ok w ∧
          ∀ w', shown entry.2 = .ok w' → Throughout IsKeyed x.2 → Throughout IsKeyed entry.2 →
            (Alike w w' ↔ Alike (trimmed x.2) (trimmed entry.2)) := by
  refine ⟨?_, fun out hout => ?_⟩
  · have hvalues : (∀ entry ∈ kept entries, ∃ w, shown entry.2 = .ok w) ↔
        ∃ out, List.Forall₂ IsShownAs (kept entries) out := by
      rw [exists_forall₂_iff]
      refine forall₂_congr fun entry _ => ⟨?_, ?_⟩
      · rintro ⟨w, hw⟩
        exact ⟨(entry.1, w), rfl, hw⟩
      · rintro ⟨other, -, hother⟩
        exact ⟨_, hother⟩
    rw [hvalues]
    simp only [shown_table_eq_ok_iff hkeys, Value.table.injEq, exists_and_left, exists_eq_right]
  · obtain ⟨hnumerals, _, hshown, ⟨⟩⟩ := (shown_table_eq_ok_iff hkeys).mp hout
    refine ⟨hshown, fun entry hentry hleft => ?_⟩
    obtain ⟨s, x, hs, hx, hkept, hsame⟩ :=
      exists_of_isLeftOut (hdigits entry hentry) (hnumerals entry hentry) hleft
    obtain ⟨⟨_, w⟩, hw, rfl, hxw⟩ := (exists_of_forall₂_mem hshown).1 x hkept
    refine ⟨s, x, w, hs, hx, hkept, hw, hxw, fun w' hw' hkeyed hkeyed' => ?_⟩
    exact alike_shown_iff hkeyed hkeyed' (agrees_of_same hsame) hxw hw'

end Tables

section Samples

/-- A field by its name and by its position. -/
def repeatedEntries : List (Value × Value) := [(.text "a", .int 7), (.text "0", .int 7)]

theorem shown_of_table_of_repeated :
    ((∀ entry ∈ repeatedEntries, entry.1.kind = .text) ∧
      ∀ entry ∈ repeatedEntries, isDigits entry.1 = true → IsPlainNumeral entry.1) ∧
    isLeftOut repeatedEntries (.text "0", .int 7) = true ∧
    ∃ out w, shown (.table repeatedEntries) = .ok (.table out) ∧ (.text "a", w) ∈ out ∧
      ∀ w', shown (.int 7) = .ok w' → Alike w w' := by
  have hkeys : ∀ entry ∈ repeatedEntries, entry.1.kind = .text := by
    simp [repeatedEntries, Value.kind]
  have hdigits : ∀ entry ∈ repeatedEntries, isDigits entry.1 = true → IsPlainNumeral entry.1 := by
    simp only [repeatedEntries, List.forall_mem_cons]
    refine ⟨fun hname => ?_, fun _ => ⟨"0", rfl, by decide⟩, List.forall_mem_nil _⟩
    cases hname
  have hleft : isLeftOut repeatedEntries (.text "0", .int 7) = true := by decide +kernel
  have hshown : shown (.table repeatedEntries) = .ok (.table [(.text "a", .text "7")]) := by
    with_unfolding_all rfl
  obtain ⟨-, hout⟩ := shown_of_table hkeys hdigits
  obtain ⟨s, x, w, hs, hx, -, hw, -, halike⟩ :=
    (hout _ hshown).2 (.text "0", .int 7) (by simp [repeatedEntries]) hleft
  obtain rfl : "0" = s := Value.text.inj hs
  have hfirst : (named repeatedEntries)[Nat.ofDigitChars 10 "0".toList 0]? =
      some (.text "a", .int 7) := rfl
  obtain rfl := Option.some.inj (hfirst.symm.trans hx)
  have hkeyed : Throughout IsKeyed (.int 7) := .leaf trivial rfl
  exact ⟨⟨hkeys, hdigits⟩, hleft, _, w, hshown, hw,
    fun w' hw' => (halike w' hw' hkeyed hkeyed).mpr (.leaf rfl)⟩

/-- The field by its position holds a number, and the named one a truth value. -/
def mixedEntries : List (Value × Value) := [(.text "0", .int 1), (.text "x", .bool true)]

/-- A number is left out for a truth value. -/
theorem not_forall_alike :
    ¬∀ entries out : List (Value × Value), (∀ entry ∈ entries, entry.1.kind = .text) →
      (∀ entry ∈ entries, isDigits entry.1 = true → IsPlainNumeral entry.1) →
      shown (.table entries) = .ok (.table out) →
      ∀ entry ∈ entries, isLeftOut entries entry = true →
        ∃ s x w w', entry.1 = .text s ∧
          (named entries)[Nat.ofDigitChars 10 s.toList 0]? = some x ∧ (x.1, w) ∈ out ∧
          shown entry.2 = .ok w' ∧ Alike w w' := by
  intro h
  have hkeys : ∀ entry ∈ mixedEntries, entry.1.kind = .text := by
    simp [mixedEntries, Value.kind]
  have hdigits : ∀ entry ∈ mixedEntries, isDigits entry.1 = true → IsPlainNumeral entry.1 := by
    simp only [mixedEntries, List.forall_mem_cons]
    refine ⟨fun _ => ⟨"0", rfl, by decide⟩, fun hname => ?_, List.forall_mem_nil _⟩
    cases hname
  have hleft : isLeftOut mixedEntries (.text "0", .int 1) = true := by decide +kernel
  have hshown : shown (.table mixedEntries) = .ok (.table [(.text "x", .bool true)]) := by
    with_unfolding_all rfl
  obtain ⟨s, x, w, w', -, -, hw, hw', halike⟩ :=
    h mixedEntries _ hkeys hdigits hshown (.text "0", .int 1) (by simp [mixedEntries]) hleft
  obtain ⟨-, rfl⟩ := Prod.mk.inj (List.mem_singleton.mp hw)
  have hnumber : shown (.int 1) = .ok (.text "1") := rfl
  obtain rfl := Except.ok.inj (hnumber.symm.trans hw')
  cases kind_eq_of_alike halike

end Samples

end Display

end ContractBench
