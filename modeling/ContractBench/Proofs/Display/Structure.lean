import ContractBench.Proofs.Display.Shown

/-! # The structure of a display

A display keeps the structure of a value whose keys are no positions: tuples become lists, named
tuples become tables of their fields, and whole numbers become texts that read back. Nothing in it
is left to be turned into anything else, so a display is shown as it is.
-/

namespace ContractBench.Display

open Value (IsWritten Throughout)

section Definitions

/-- Values that are shown as they are, whatever they hold. -/
def IsLeaf : Value → Prop
  | .null | .bool _ | .double _ | .text _ | .brokenText _ | .bytes _ => True
  | _ => False

/-- A value and its display. -/
inductive Rendered : Value → Value → Prop
  | leaf {v : Value} (h : IsLeaf v) : Rendered v v
  | int {n : Int} {s : String} (h : Numeral.decimal? s = some n) : Rendered (.int n) (.text s)
  | list {xs ys : List Value} (h : List.Forall₂ Rendered xs ys) : Rendered (.list xs) (.list ys)
  | tuple {xs ys : List Value} (h : List.Forall₂ Rendered xs ys) : Rendered (.tuple xs) (.list ys)
  /-- A named tuple without fields has no names to show. -/
  | noFields : Rendered (.record []) (.list [])
  | fields {fields : List (String × Value)} {out : List (Value × Value)} (hsome : fields ≠ [])
      (hkeys : Ordered.keys out = fields.map fun field => .text field.1)
      (h : ∀ name x w, (name, x) ∈ fields → Ordered.get? out (.text name) = some w →
        Rendered x w) :
      Rendered (.record fields) (.table out)
  | table {entries out : List (Value × Value)} (hkeys : Ordered.keys out = Ordered.keys entries)
      (h : List.Forall₂ Rendered (entries.map Prod.snd) (out.map Prod.snd)) :
      Rendered (.table entries) (.table out)

/-- Numbers are not too long, the names of fields are different and, like all identifiers, not made
of digits, and no key has a text of digits, as far as it is not left to the parts. -/
def IsUnpositioned : Value → Prop
  | .int n => (Numeral.digitsOf n.natAbs).length ≤ Numeral.longest
  | .record fields => (fields.map Prod.fst).Nodup ∧
      ∀ field ∈ fields, isDigits (.text field.1) = false
  | .table entries => ∀ entry ∈ entries, isPosition entry.1 = .ok false
  | _ => True

/-- No whole number, no tuple and no key of digits, as far as it is not left to the parts. -/
def IsSettled : Value → Prop
  | .int _ | .tuple _ | .record _ => False
  | .table entries => ∀ entry ∈ entries, isPosition entry.1 = .ok false
  | _ => True

end Definitions

section Tables

variable {w : Value} {names : List Value} {entries out : List (Value × Value)}
  {fields : List (String × Value)}

theorem namedValues_of_unpositioned (h : ∀ entry ∈ entries, isPosition entry.1 = .ok false) :
    namedValues entries = .ok (entries.map Prod.snd) := by
  induction entries with
  | nil => rfl
  | cons entry entries ih =>
      obtain ⟨hkey, hkeys⟩ := List.forall_mem_cons.mp h
      rw [namedValues, hkey, ih hkeys]
      rfl

/-- Entries whose keys are no positions are all shown, whatever values have names. -/
theorem shownEntries_eq_ok_iff (h : ∀ entry ∈ entries, isPosition entry.1 = .ok false) :
    shownEntries names entries = .ok out ↔ List.Forall₂ IsShownAs entries out := by
  induction entries generalizing out with
  | nil =>
      rw [shownEntries, List.forall₂_nil_left_iff]
      exact ⟨fun h => (Except.ok.inj h).symm, fun h => h ▸ rfl⟩
  | cons entry entries ih =>
      obtain ⟨hkey, hkeys⟩ := List.forall_mem_cons.mp h
      have hrepeats : repeats names entry.1 entry.2 = .ok false := by
        rw [repeats, hkey]
        rfl
      rw [shownEntries, hrepeats]
      change (((shown entry.2).map fun v => [(entry.1, v)]) >>= fun first => do
        return first ++ (← shownEntries names entries)) = .ok out ↔ _
      rw [bind_eq_ok_iff]
      constructor
      · rintro ⟨_, hfirst, hrest⟩
        obtain ⟨value, hvalue, rfl⟩ := map_eq_ok_iff.mp hfirst
        obtain ⟨rest, hshown, hdone⟩ := bind_eq_ok_iff.mp hrest
        cases hdone
        exact .cons ⟨rfl, hvalue⟩ ((ih hkeys).mp hshown)
      · rintro (_ | ⟨⟨hname, hvalue⟩, hshown⟩)
        refine ⟨_, map_eq_ok_iff.mpr ⟨_, hvalue, rfl⟩,
          bind_eq_ok_iff.mpr ⟨_, (ih hkeys).mpr hshown, ?_⟩⟩
        rw [← hname]
        rfl

/-- A table whose keys are no positions is shown entry by entry. -/
theorem shown_table_of_unpositioned (h : ∀ entry ∈ entries, isPosition entry.1 = .ok false) :
    shown (.table entries) = .ok w ↔
      ∃ out, List.Forall₂ IsShownAs entries out ∧ .table out = w := by
  rw [shown, namedValues_of_unpositioned h]
  change (shownEntries _ entries).map _ = _ ↔ _
  simp only [map_eq_ok_iff, shownEntries_eq_ok_iff h]

/-- A field of a named tuple, and an entry with its name and its value as it is shown. -/
def IsFieldShownAs (field : String × Value) (entry : Value × Value) : Prop :=
  entry.1 = .text field.1 ∧ shown field.2 = .ok entry.2

theorem shownFields_eq_ok_iff :
    shownFields fields = .ok out ↔ List.Forall₂ IsFieldShownAs fields out := by
  induction fields generalizing out with
  | nil =>
      rw [shownFields, List.forall₂_nil_left_iff]
      exact ⟨fun h => (Except.ok.inj h).symm, fun h => h ▸ rfl⟩
  | cons field fields ih =>
      rw [shownFields, bind_eq_ok_iff]
      constructor
      · rintro ⟨value, hvalue, hrest⟩
        obtain ⟨rest, hshown, hdone⟩ := bind_eq_ok_iff.mp hrest
        cases hdone
        exact .cons ⟨rfl, hvalue⟩ (ih.mp hshown)
      · rintro (_ | ⟨⟨hname, hvalue⟩, hshown⟩)
        refine ⟨_, hvalue, bind_eq_ok_iff.mpr ⟨_, ih.mpr hshown, ?_⟩⟩
        rw [← hname]
        rfl

theorem keys_of_fields_shown (h : List.Forall₂ IsFieldShownAs fields out) :
    Ordered.keys out = fields.map fun field => .text field.1 := by
  induction h with
  | nil => rfl
  | cons hone _ ih =>
      simp only [Ordered.keys, List.map_cons] at ih ⊢
      rw [hone.1, ih]

/-- A named tuple with fields is shown as a table. -/
theorem shown_record (hsome : fields ≠ []) (h : List.Forall₂ IsFieldShownAs fields out) :
    shown (.record fields) = .ok (.table out) := by
  rw [shown, shownFields_eq_ok_iff.mpr h]
  cases h with
  | nil => exact absurd rfl hsome
  | cons _ _ => rfl

end Tables

section Structure

variable {v w : Value} {xs : List Value} {entries : List (Value × Value)}
  {fields : List (String × Value)}

theorem isPosition_of_digits {s : String} (h : isDigits (.text s) = false) :
    isPosition (.text s) = .ok false := by
  rw [isPosition_of_kind rfl, h]

/-- What is settled is shown as it is. -/
theorem shown_of_isSettled (h : Throughout IsSettled w) : shown w = .ok w := by
  induction h with
  | @intro w h _ ih =>
      cases w with
      | int | tuple | record => cases h
      | list xs => exact shown_list_eq_ok_iff.mpr ⟨xs, List.forall₂_same.mpr ih, rfl⟩
      | table entries =>
          have hvalues := List.forall_mem_map.mp ih
          exact (shown_table_of_unpositioned h).mpr
            ⟨entries, List.forall₂_same.mpr fun entry hentry => ⟨rfl, hvalues entry hentry⟩, rfl⟩
      | _ => simp only [shown]

/-- The value has a display that keeps its structure and is settled. -/
def IsRenderable (v : Value) : Prop :=
  ∃ w, shown v = .ok w ∧ Rendered v w ∧ Throughout IsSettled w

theorem exists_rendered_items (h : ∀ x ∈ xs, IsRenderable x) :
    ∃ ys, List.Forall₂ (fun x y => shown x = .ok y) xs ys ∧ List.Forall₂ Rendered xs ys ∧
      Throughout IsSettled (.list ys) := by
  obtain ⟨ys, hys⟩ := exists_forall₂_iff.mpr h
  refine ⟨ys, hys.imp fun _ _ h => h.1, hys.imp fun _ _ h => h.2.1, trivial, fun y hy => ?_⟩
  obtain ⟨x, -, hxy⟩ := (exists_of_forall₂_mem hys).2 y hy
  exact hxy.2.2

theorem isRenderable_record (hfields : IsUnpositioned (.record fields))
    (h : ∀ field ∈ fields, IsRenderable field.2) : IsRenderable (.record fields) := by
  by_cases hsome : fields = []
  · subst hsome
    exact ⟨.list [], by simp only [shown, shownFields]; rfl, .noFields, trivial,
      List.forall_mem_nil _⟩
  obtain ⟨hnames, hdigits⟩ := hfields
  have hchosen : ∀ field ∈ fields, ∃ entry, IsFieldShownAs field entry ∧
      Rendered field.2 entry.2 ∧ Throughout IsSettled entry.2 := by
    intro field hfield
    obtain ⟨w, hw, hrest⟩ := h field hfield
    exact ⟨(.text field.1, w), ⟨rfl, hw⟩, hrest⟩
  obtain ⟨out, hout⟩ := exists_forall₂_iff.mpr hchosen
  have hshown : List.Forall₂ IsFieldShownAs fields out := hout.imp fun _ _ h => h.1
  have hkeys := keys_of_fields_shown hshown
  obtain ⟨hforth, hback⟩ := exists_of_forall₂_mem hout
  have hkeyed : Ordered.TextKeyed out := by
    constructor
    · rw [hkeys]
      exact List.forall_mem_map.mpr fun _ _ => rfl
    · have hdistinct := hnames.map fun _ _ => Value.text.inj
      rw [List.map_map] at hdistinct
      rwa [hkeys]
  refine ⟨.table out, shown_record hsome hshown, .fields hsome hkeys ?_, ?_, ?_⟩
  · -- No two fields have one name, so what stands under it is what the field is shown as.
    intro name x w hx hw
    obtain ⟨entry, hentry, ⟨hname, -⟩, hrendered, -⟩ := hforth _ hx
    have hthere := hkeyed.get?_of_mem hentry
    rw [hname, hw] at hthere
    rwa [Option.some.inj hthere]
  · intro entry hentry
    obtain ⟨field, hfield, ⟨hname, -⟩, -⟩ := hback entry hentry
    rw [hname]
    exact isPosition_of_digits (hdigits field hfield)
  · refine List.forall_mem_map.mpr fun entry hentry => ?_
    obtain ⟨field, -, -, -, hsettled⟩ := hback entry hentry
    exact hsettled

theorem isRenderable_table (hkeys : ∀ entry ∈ entries, isPosition entry.1 = .ok false)
    (h : ∀ entry ∈ entries, IsRenderable entry.2) : IsRenderable (.table entries) := by
  have hchosen : ∀ entry ∈ entries, ∃ other, IsShownAs entry other ∧
      Rendered entry.2 other.2 ∧ Throughout IsSettled other.2 := by
    intro entry hentry
    obtain ⟨w, hw, hrest⟩ := h entry hentry
    exact ⟨(entry.1, w), ⟨rfl, hw⟩, hrest⟩
  obtain ⟨out, hout⟩ := exists_forall₂_iff.mpr hchosen
  have hshown : List.Forall₂ IsShownAs entries out := hout.imp fun _ _ h => h.1
  obtain ⟨-, hback⟩ := exists_of_forall₂_mem hout
  refine ⟨.table out, (shown_table_of_unpositioned hkeys).mpr ⟨out, hshown, rfl⟩,
    .table (keys_of_shown hshown) ?_, fun other hother => ?_, ?_⟩
  · rw [List.forall₂_map_left_iff, List.forall₂_map_right_iff]
    exact hout.imp fun _ _ h => h.2.1
  · obtain ⟨entry, hentry, ⟨hname, -⟩, -⟩ := hback other hother
    rw [hname]
    exact hkeys entry hentry
  · refine List.forall_mem_map.mpr fun other hother => ?_
    obtain ⟨entry, -, -, -, hsettled⟩ := hback other hother
    exact hsettled

theorem isRenderable_of_unpositioned (h : Throughout IsUnpositioned v) : IsRenderable v := by
  induction h with
  | @intro v h _ ih =>
      cases v with
      | int n =>
          obtain ⟨s, hs⟩ := exists_printInt h
          have hread := Numeral.decimal?_of_print? (Value.printInt_eq_ok_iff.mp hs)
          exact ⟨.text s, by rw [shown, hs]; rfl, .int hread, trivial, List.forall_mem_nil _⟩
      | list xs =>
          obtain ⟨ys, hys, hrendered, hsettled⟩ := exists_rendered_items ih
          exact ⟨.list ys, shown_list_eq_ok_iff.mpr ⟨ys, hys, rfl⟩, .list hrendered, hsettled⟩
      | tuple xs =>
          obtain ⟨ys, hys, hrendered, hsettled⟩ := exists_rendered_items ih
          refine ⟨.list ys, ?_, .tuple hrendered, hsettled⟩
          rw [shown_tuple]
          exact shown_list_eq_ok_iff.mpr ⟨ys, hys, rfl⟩
      | record fields => exact isRenderable_record h (List.forall_mem_map.mp ih)
      | table entries => exact isRenderable_table h (List.forall_mem_map.mp ih)
      | _ => exact ⟨_, by simp only [shown], .leaf trivial, trivial, List.forall_mem_nil _⟩

/-- A value in which no key is a position has a display of the same structure, in which whole
numbers are texts and tuples are lists or tables, and which is shown as it is. -/
theorem shown_keeps_structure (h : Throughout IsUnpositioned v) :
    ∃ w, shown v = .ok w ∧ Rendered v w ∧ Throughout IsSettled w ∧ shown w = .ok w := by
  obtain ⟨w, hshown, hrendered, hsettled⟩ := isRenderable_of_unpositioned h
  exact ⟨w, hshown, hrendered, hsettled, shown_of_isSettled hsettled⟩

end Structure

section Samples

/-- A named tuple under a text, and a tuple under a number that is no position. -/
def nestedSample : Value :=
  .table [(.text "owner", .record [("name", .text "a"), ("amount", .int 7)]),
    (.int (-1), .tuple [.bool true, .int (-3)])]

theorem shown_keeps_structure_of_nested :
    Throughout IsUnpositioned nestedSample ∧
    ∃ w, shown nestedSample = .ok w ∧ Rendered nestedSample w ∧ Throughout IsSettled w ∧
      shown w = .ok w := by
  have hint {n : Int} (h : (Numeral.digitsOf n.natAbs).length ≤ Numeral.longest) :
      Throughout IsUnpositioned (.int n) := .leaf h rfl
  have hrecord : Throughout IsUnpositioned (.record [("name", .text "a"), ("amount", .int 7)]) := by
    refine ⟨⟨by decide, by decide⟩, ?_⟩
    simp only [Value.parts, List.map_cons, List.forall_mem_cons]
    exact ⟨.leaf trivial rfl, hint (by decide), List.forall_mem_nil _⟩
  have htuple : Throughout IsUnpositioned (.tuple [.bool true, .int (-3)]) := by
    refine ⟨trivial, ?_⟩
    simp only [Value.parts, List.forall_mem_cons]
    exact ⟨.leaf trivial rfl, hint (by decide), List.forall_mem_nil _⟩
  have hsample : Throughout IsUnpositioned nestedSample := by
    refine ⟨?_, ?_⟩
    · simp only [nestedSample, IsUnpositioned, List.forall_mem_cons]
      exact ⟨rfl, rfl, List.forall_mem_nil _⟩
    · simp only [nestedSample, Value.parts, List.map_cons, List.forall_mem_cons]
      exact ⟨hrecord, htuple, List.forall_mem_nil _⟩
  exact ⟨hsample, shown_keeps_structure hsample⟩

end Samples

end ContractBench.Display
