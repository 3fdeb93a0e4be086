import ContractBench.Proofs.Argument.Forms
import ContractBench.Proofs.Value.Keys
import Mathlib.Data.List.Nodup

/-! # Keys of fields

The keys under which the fields of a form are filled in. A key is the name of its input, or tells
the position of one that has no name. The two kinds share one space of names: inputs with different
names have different keys unless one of them is named like the position of another, and just then
each can be given a text of its own.
-/

namespace ContractBench.Argument

section Definitions

/-- The name of an input, if it has one that is not empty. -/
def nameOf? (input : Value) : Option Value := (input.field? "name").filter Value.isTruthy

/-- The key of an input at a position. -/
def keyOf (position : Nat) (input : Value) : Value :=
  (nameOf? input).getD (.text ("param" ++ toString position))

/-- An input as an interface lists it: a table, whose name is a text where it has one. -/
def IsInput (input : Value) : Prop :=
  (∃ entries, input = .table entries) ∧ ∀ name ∈ nameOf? input, name.kind = .text

/-- No input is named like the position of an input without a name. -/
def NamedApart (inputs : List Value) : Prop :=
  ∀ (position : Nat) (input : Value), inputs[position]? = some input → nameOf? input = none →
    ∀ other ∈ inputs, nameOf? other ≠ some (.text ("param" ++ toString position))

/-- Each input is read from the text that is meant for it. -/
def GivesEach (values : Value) (inputs : List Value) (texts : List String) : Prop :=
  ∀ (position : Nat) (input : Value) (text : String), inputs[position]? = some input →
    texts[position]? = some text →
    typedInto values (keyOf position input) = .ok (.text text)

end Definitions

section Keys

variable {inputs : List Value} {input : Value} {position : Nat}

theorem fieldOf_eq_keyOf (h : IsInput input) (position : Nat) :
    fieldOf position input = .ok (keyOf position input) := by
  obtain ⟨⟨entries, rfl⟩, -⟩ := h
  have hget : (Value.table entries).get "name" = .ok ((Value.table entries).field? "name") := rfl
  rw [fieldOf, hget, keyOf, nameOf?]
  cases (Value.table entries).field? "name" with
  | none => rfl
  | some name =>
      by_cases hname : name.isTruthy = true
      · rw [Option.filter_some_pos hname]
        exact congrArg Except.ok (if_pos hname)
      · rw [Option.filter_some_neg (Bool.eq_false_iff.mpr hname)]
        exact congrArg Except.ok (if_neg hname)

theorem kind_keyOf (h : IsInput input) (position : Nat) : (keyOf position input).kind = .text := by
  rw [keyOf]
  cases hname : nameOf? input with
  | none => rfl
  | some name => exact h.2 name hname

/-- Positions are told apart by their keys. -/
theorem byPosition_inj {i j : Nat} (h : "param" ++ toString i = "param" ++ toString j) : i = j := by
  have hlist := congrArg String.toList h
  rw [String.toList_append, String.toList_append] at hlist
  have hdigits := congrArg (fun ds => Nat.ofDigitChars 10 ds 0) (List.append_cancel_left hlist)
  simpa [Nat.toString_eq_ofList_toDigits] using hdigits

theorem nodup_mapIdx_iff {α β : Type} {f : Nat → α → β} {xs : List α} :
    (xs.mapIdx f).Nodup ↔ ∀ (i j : Nat) (a b : α), xs[i]? = some a → xs[j]? = some b →
      f i a = f j b → i = j := by
  rw [List.nodup_iff_getElem?_ne_getElem?]
  simp only [List.getElem?_mapIdx, List.length_mapIdx]
  constructor
  · intro h i j a b ha hb heq
    have hne {i j : Nat} {a b : α} (ha : xs[i]? = some a) (hb : xs[j]? = some b) (hij : i < j) :
        f i a ≠ f j b := by
      obtain ⟨hj, -⟩ := List.getElem?_eq_some_iff.mp hb
      simpa [ha, hb] using h i j hij hj
    rcases Nat.lt_trichotomy i j with hij | hij | hij
    · exact absurd heq (hne ha hb hij)
    · exact hij
    · exact absurd heq.symm (hne hb ha hij)
  · intro h i j hij hj
    rw [List.getElem?_eq_getElem hj, List.getElem?_eq_getElem (hij.trans hj)]
    intro heq
    have hsame := h i j _ _ (List.getElem?_eq_getElem (hij.trans hj)) (List.getElem?_eq_getElem hj)
      (Option.some.inj heq)
    exact hij.ne hsame

/-- Inputs with one name are one input where the names differ from each other. -/
theorem eq_of_nameOf? (h : (inputs.filterMap nameOf?).Nodup) {i j : Nat} {a b name : Value}
    (ha : inputs[i]? = some a) (hb : inputs[j]? = some b) (hna : nameOf? a = some name)
    (hnb : nameOf? b = some name) : i = j := by
  rw [List.Nodup, List.pairwise_filterMap, List.pairwise_iff_getElem] at h
  obtain ⟨hi, rfl⟩ := List.getElem?_eq_some_iff.mp ha
  obtain ⟨hj, rfl⟩ := List.getElem?_eq_some_iff.mp hb
  rcases Nat.lt_trichotomy i j with hij | hij | hij
  · exact absurd rfl (h i j hi hj hij name hna name hnb)
  · exact hij
  · exact absurd rfl (h j i hj hi hij name hnb name hna)

/-- The keys of inputs with different names differ if none is named like the position of another. -/
theorem nodup_keys_iff (hnames : (inputs.filterMap nameOf?).Nodup) :
    (inputs.mapIdx keyOf).Nodup ↔ NamedApart inputs := by
  rw [nodup_mapIdx_iff]
  constructor
  · intro h position input hinput hunnamed other hother hname
    obtain ⟨place, hplace⟩ := List.getElem?_of_mem hother
    have hkey : keyOf position input = keyOf place other := by
      rw [keyOf, keyOf, hunnamed, hname]
      rfl
    obtain rfl := h position place input other hinput hplace hkey
    obtain rfl := Option.some.inj (hinput.symm.trans hplace)
    rw [hunnamed] at hname
    cases hname
  · -- A key is a name or tells a position, and the two meet only in a name like a position.
    intro h i j a b ha hb hkey
    rw [keyOf, keyOf] at hkey
    cases hna : nameOf? a with
    | none =>
        cases hnb : nameOf? b with
        | none =>
            rw [hna, hnb] at hkey
            exact byPosition_inj (Value.text.inj hkey)
        | some name =>
            rw [hna, hnb] at hkey
            obtain rfl : .text ("param" ++ toString i) = name := hkey
            exact absurd hnb (h i a ha hna b (List.mem_of_getElem? hb))
    | some name =>
        cases hnb : nameOf? b with
        | none =>
            rw [hna, hnb] at hkey
            obtain rfl : name = .text ("param" ++ toString j) := hkey
            exact absurd hna (h j b hb hnb a (List.mem_of_getElem? ha))
        | some other =>
            rw [hna, hnb] at hkey
            obtain rfl : name = other := hkey
            exact eq_of_nameOf? hnames ha hb hna hnb

end Keys

section Filling

variable {inputs : List Value} {values : Value} {texts : List String}

/-- What was typed into a field of a form that has it. -/
theorem typedInto_of_get? {entries : List (Value × Value)} {key : Value} {text : String}
    (hkey : key.kind = .text) (h : Ordered.get? entries key = some (.text text)) :
    typedInto (.table entries) key = .ok (.text text) := by
  have hunder : valueUnder (.table entries) key = .ok (some (.text text)) := by
    rw [valueUnder, if_pos (Value.isKey_of_kind hkey), h]
  rw [typedInto, hunder]
  by_cases hempty : text = ""
  · subst hempty
    rfl
  · have htruthy : (Value.text text).isTruthy = true := by simpa [Value.isTruthy] using hempty
    exact congrArg Except.ok (if_pos htruthy)

/-- The form into which the texts are typed, each under the key of its input. -/
def filledWith (inputs : List Value) (texts : List String) : Value :=
  .table ((inputs.mapIdx keyOf).zip (texts.map .text))

theorem isForm_filledWith (inputs : List Value) (texts : List String) :
    IsForm (filledWith inputs texts) := by
  refine ⟨_, rfl, fun entry hentry => Or.inr ?_⟩
  obtain ⟨text, -, htext⟩ := List.mem_map.mp (List.of_mem_zip hentry).2
  exact ⟨text, htext.symm⟩

/-- With different keys each input is read from its own text. -/
theorem givesEach_filledWith (hinputs : ∀ input ∈ inputs, IsInput input)
    (hkeys : (inputs.mapIdx keyOf).Nodup) (hlength : texts.length = inputs.length) :
    GivesEach (filledWith inputs texts) inputs texts := by
  have hfst : Ordered.keys ((inputs.mapIdx keyOf).zip (texts.map Value.text)) =
      inputs.mapIdx keyOf := List.map_fst_zip (by simp [hlength])
  have htexts : ∀ key ∈ inputs.mapIdx keyOf, key.kind = .text := by
    intro key hkey
    obtain ⟨position, hposition, rfl⟩ := List.mem_mapIdx.mp hkey
    exact kind_keyOf (hinputs _ (List.getElem_mem hposition)) position
  have htable : Ordered.TextKeyed ((inputs.mapIdx keyOf).zip (texts.map Value.text)) :=
    ⟨hfst.symm ▸ htexts, hfst.symm ▸ hkeys⟩
  intro position input text hinput htext
  apply typedInto_of_get? (kind_keyOf (hinputs _ (List.mem_of_getElem? hinput)) position)
  apply htable.get?_of_mem
  apply List.mem_of_getElem? (i := position)
  simp [List.getElem?_zip_eq_some, hinput, htext]

/-- If every choice of texts can be typed in, the keys differ. -/
theorem nodup_of_givesEach (h : ∀ texts : List String, texts.length = inputs.length →
    ∃ values, GivesEach values inputs texts) : (inputs.mapIdx keyOf).Nodup := by
  -- Texts that differ from each other tell under which key they were typed.
  obtain ⟨values, hvalues⟩ := h ((List.range inputs.length).map toString) (by simp)
  refine nodup_mapIdx_iff.mpr fun i j a b ha hb hkey => ?_
  obtain ⟨hi, -⟩ := List.getElem?_eq_some_iff.mp ha
  obtain ⟨hj, -⟩ := List.getElem?_eq_some_iff.mp hb
  have hfirst := hvalues i a (toString i) ha (by simp [hi])
  have hsecond := hvalues j b (toString j) hb (by simp [hj])
  rw [hkey] at hfirst
  have htext := Value.text.inj (Except.ok.inj (hfirst.symm.trans hsecond))
  exact byPosition_inj (congrArg ("param" ++ ·) htext)

/-- Inputs whose names differ from each other are looked up under their names, and under their
positions where they have none. These keys differ just if no input is named like the position of
one without a name, and just then any texts can be typed in so that each input gets its own. -/
theorem own_fields_iff (hinputs : ∀ input ∈ inputs, IsInput input)
    (hnames : (inputs.filterMap nameOf?).Nodup) :
    (∀ (position : Nat) (input : Value), inputs[position]? = some input →
      fieldOf position input = .ok (keyOf position input)) ∧
    ((inputs.mapIdx keyOf).Nodup ↔ NamedApart inputs) ∧
    ((∀ texts : List String, texts.length = inputs.length →
      ∃ values, IsForm values ∧ GivesEach values inputs texts) ↔ NamedApart inputs) := by
  refine ⟨fun position input hinput =>
    fieldOf_eq_keyOf (hinputs input (List.mem_of_getElem? hinput)) position,
    nodup_keys_iff hnames, ?_⟩
  rw [← nodup_keys_iff hnames]
  constructor
  · intro h
    apply nodup_of_givesEach
    intro texts hlength
    obtain ⟨values, -, hvalues⟩ := h texts hlength
    exact ⟨values, hvalues⟩
  · intro hkeys texts hlength
    exact ⟨filledWith inputs texts, isForm_filledWith inputs texts,
      givesEach_filledWith hinputs hkeys hlength⟩

end Filling

section Samples

theorem nameOf?_inputOf (name? : Option String) (type : String) :
    nameOf? (inputOf name? type) = (name?.map Value.text).filter Value.isTruthy := by
  cases name? <;> simp [nameOf?, inputOf, Value.field?_ofFields, Ordered.get?]

theorem isInput_inputOf (name? : Option String) (type : String) : IsInput (inputOf name? type) := by
  refine ⟨⟨_, rfl⟩, ?_⟩
  rw [nameOf?_inputOf]
  intro name hname
  obtain ⟨text, -, rfl⟩ := Option.map_eq_some_iff.mp (Option.mem_filter_iff.mp hname).1
  rfl

/-- The second input is named like the position of the third, which has a name. -/
def apartInputs : List Value :=
  [inputOf none "bool", inputOf (some "param2") "uint8", inputOf (some "memo") "string"]

theorem names_apartInputs :
    apartInputs.map nameOf? = [none, some (.text "param2"), some (.text "memo")] := by
  simp [apartInputs, nameOf?_inputOf, Value.isTruthy, Option.filter]

theorem own_fields_of_apartInputs :
    ((∀ input ∈ apartInputs, IsInput input) ∧ (apartInputs.filterMap nameOf?).Nodup) ∧
    NamedApart apartInputs ∧
    ∃ values, IsForm values ∧ GivesEach values apartInputs ["true", "7", "fee"] := by
  have hinputs : ∀ input ∈ apartInputs, IsInput input := by
    simp [apartInputs, isInput_inputOf]
  have hnames : (apartInputs.filterMap nameOf?).Nodup := by
    simp [apartInputs, nameOf?_inputOf, Value.isTruthy, Option.filter]
  have hapart : NamedApart apartInputs := by
    intro position input hinput hunnamed other hother hname
    have hplace : (apartInputs.map nameOf?)[position]? = some none := by
      rw [List.getElem?_map, hinput, Option.map_some, hunnamed]
    have hmem : some (.text ("param" ++ toString position)) ∈ apartInputs.map nameOf? :=
      List.mem_map.mpr ⟨other, hother, hname⟩
    rw [names_apartInputs] at hplace hmem
    obtain _ | _ | _ | position := position
    · have hkey : "param" ++ toString 0 = "param0" := by decide
      rw [hkey] at hmem
      simp at hmem
    all_goals cases hplace
  obtain ⟨-, -, hfill⟩ := own_fields_iff hinputs hnames
  exact ⟨⟨hinputs, hnames⟩, hapart, hfill.mpr hapart _ rfl⟩

/-- The second input is named like the position of the first, which has no name. -/
def sharingInputs : List Value := [inputOf none "uint256", inputOf (some "param0") "uint256"]

/-- What is typed into the one field of two inputs becomes the argument of both. -/
theorem not_forall_own_fields :
    (¬∀ inputs : List Value, (∀ input ∈ inputs, IsInput input) →
      (inputs.filterMap nameOf?).Nodup → (inputs.mapIdx keyOf).Nodup ∧
        ∀ texts : List String, texts.length = inputs.length →
          ∃ values, IsForm values ∧ GivesEach values inputs texts) ∧
    arguments (.list sharingInputs) (.ofFields [("param0", .text "7")]) =
      .ok [.text "7", .text "7"] := by
  refine ⟨fun h => ?_, by with_unfolding_all rfl⟩
  have hinputs : ∀ input ∈ sharingInputs, IsInput input := by
    simp [sharingInputs, isInput_inputOf]
  have hnames : (sharingInputs.filterMap nameOf?).Nodup := by
    simp [sharingInputs, nameOf?_inputOf, Value.isTruthy, Option.filter]
  have hapart := (nodup_keys_iff hnames).mp (h sharingInputs hinputs hnames).1
  have hunnamed : nameOf? (inputOf none "uint256") = none := nameOf?_inputOf none "uint256"
  have hnamed : nameOf? (inputOf (some "param0") "uint256") = some (.text "param0") := by
    simp [nameOf?_inputOf, Value.isTruthy, Option.filter]
  exact hapart 0 _ rfl hunnamed _ (by simp [sharingInputs]) hnamed

end Samples

end ContractBench.Argument
