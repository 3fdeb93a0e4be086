import ContractBench.Proofs.Argument.Retyping
import ContractBench.Proofs.Encoding.Schema

/-! # Spellings

The ways in which the value of a parameter can be written: numbers in decimal or hexadecimal digits,
arrays with commas between their items, tuples by the names of their components, and lists and
tables as JSON, at any depth. All spellings of a value are brought into one form, except for numbers
that are too long to be read.
-/

namespace ContractBench.Encoding

open Argument (Suffix)

section Definitions

/-- A text of hexadecimal digits behind their mark. -/
def marked (digits : List Char) : String := String.ofList ('0' :: 'x' :: digits)

/-- Hexadecimal digits in either case. -/
def AreHex (digits : List Char) : Prop := ∀ d ∈ digits, (Text.asciiHexValue? d).isSome = true

/-- The spellings of a value without parts. -/
inductive Leaf.Spells : Leaf → Value → Value → Prop
  | number {signed : Bool} {size : Option (Fin 32)} (n : Int) :
      Spells (.number signed size) (.int n) (.int n)
  | decimal {signed : Bool} {size : Option (Fin 32)} (n : Int) :
      Spells (.number signed size) (.int n) (.text (Numeral.print n))
  | hexadecimal {signed : Bool} {size : Option (Fin 32)} {n : Nat} {s : String}
      (hs : Text.lowered s = marked (Nat.toDigits 16 n)) :
      Spells (.number signed size) (.int n) (.text s)
  | truth (b : Bool) : Spells .truth (.bool b) (.bool b)
  | word {b : Bool} {s : String} (hs : Text.lowered s = if b then "true" else "false") :
      Spells .truth (.bool b) (.text s)
  | address {s : String} (hs : (addressNumber? s.toList).isSome = true) :
      Spells .address (.text s) (.text s)
  | bytes {size : Option (Fin 32)} {digits : List Char} (hdigits : AreHex digits) :
      Spells (.bytes size) (.text (marked digits)) (.text (marked digits))

/-- A value has a number in it whose decimal digits are more than can be read. -/
inductive HasLongNumber : Value → Prop
  | number {n : Int} (hn : Numeral.print? n = none) : HasLongNumber (.int n)
  | item {xs : List Value} {x : Value} (hx : x ∈ xs) (hlong : HasLongNumber x) :
      HasLongNumber (.list xs)

/-- Lists and tables, and the signs with which their texts open in JSON. -/
inductive OpensWith : Value → Char → Prop
  | list (xs : List Value) : OpensWith (.list xs) '['
  | table (entries : List (Value × Value)) : OpensWith (.table entries) '\x7b'

/-- The spellings of a value. The value itself has its numbers as numbers, its truth values as truth
values, and its arrays and tuples as lists. -/
inductive Spells : Schema → Value → Value → Prop
  | leaf {type : Leaf} {x v : Value} (h : type.Spells x v) : Spells (.leaf type) x v
  /-- The rows are the items and their spellings. -/
  | list {item : Schema} {suffix : Suffix} (rows : List (Value × Value))
      (h : ∀ row ∈ rows, Spells item row.1 row.2) :
      Spells (.array item suffix) (.list (rows.map (·.1))) (.list (rows.map (·.2)))
  /-- The rows are the items and what stands between the commas, with or without blanks. -/
  | commas {type : Leaf} {suffix : Suffix} (rows : List (Value × String)) (hsome : rows ≠ [])
      (h : ∀ row ∈ rows, type.Spells row.1 (.text (Text.stripped row.2))) :
      Spells (.array (.leaf type) suffix) (.list (rows.map (·.1)))
        (.text (Text.joined "," (rows.map (·.2))))
  /-- The rows are the components, their values and the spellings of these. -/
  | tuple (rows : List ((String × Schema) × Value × Value))
      (h : ∀ row ∈ rows, Spells row.1.2 row.2.1 row.2.2) :
      Spells (.tuple (rows.map (·.1))) (.list (rows.map (·.2.1))) (.list (rows.map (·.2.2)))
  /-- The fields are the names of the components and the spellings of their values. -/
  | table {components : List (String × Schema)} {x : Value} {vs : List Value}
      {fields : List (String × Value)} (h : Spells (.tuple components) x (.list vs))
      (hfields : fields.Perm ((components.map (·.1)).zip vs)) :
      Spells (.tuple components) x (Value.ofFields fields)
  /-- A JSON text of a list or a table. -/
  | json {schema : Schema} {x v : Value} {s : String} {sign : Char} (h : Spells schema x v)
      (hv : OpensWith v sign) (hs : Json.read s = .ok v) : Spells schema x (.text s)
  /-- A JSON text with a number that is too long is not read, so nothing else is asked of it than
  how it opens. -/
  | unread {schema : Schema} {x v : Value} {s : String} {sign : Char} {digits : Nat}
      (h : Spells schema x v) (hv : OpensWith v sign) (hlong : HasLongNumber x)
      (hs : Json.read s = .error (.numeralTooLong digits))
      (hopen : (Text.trimStart s.toList).head? = some sign) : Spells schema x (.text s)

end Definitions

section Leaves

variable {type : Leaf} {x v : Value} {s : String}

/-- The characters of the texts of values without parts. -/
def isPlain (c : Char) : Bool := c.isAlphanum || c == '-'

theorem isPlain_of_asciiHexValue? {c : Char} (h : (Text.asciiHexValue? c).isSome = true) :
    isPlain c = true := by
  have hlt : c.toNat < 0x80 := by
    unfold Text.asciiHexValue? at h
    split at h
    next hlt => exact hlt
    next => cases h
  have hall : (Text.asciiHexValue? c).isSome = true → isPlain c = true :=
    Text.of_ascii hlt (by decide +kernel)
  exact hall h

theorem toNat_lt_of_isPlain {c : Char} (h : isPlain c = true) : c.toNat < 0x80 := by
  rcases Bool.or_eq_true_iff.mp h with h | h
  · exact TypeSyntax.toNat_lt_of_isAlphanum h
  · rw [beq_iff_eq.mp h]
    decide

theorem isPlain_of_toLower {c : Char} (h : isPlain c.toLower = true) : isPlain c = true := by
  have hlt := Numeral.toNat_lt_of_toLower (toNat_lt_of_isPlain h)
  have hall : isPlain c.toLower = true → isPlain c = true := Text.of_ascii hlt (by decide +kernel)
  exact hall h

theorem not_blank_of_isPlain {c : Char} (h : isPlain c = true) : Text.isBlank c = false := by
  rcases Bool.or_eq_true_iff.mp h with h | h
  · cases hblank : Text.isBlank c with
    | false => rfl
    | true =>
        rw [← Text.isWord_of_isBlank hblank]
        exact (TypeSyntax.isWord_of_isAlphanum h).symm
  · rw [beq_iff_eq.mp h]
    decide

theorem isPlain_of_lowered {t : String} (hs : Text.lowered s = t)
    (ht : ∀ c ∈ t.toList, isPlain c = true) : ∀ c ∈ s.toList, isPlain c = true := by
  intro c hc
  apply isPlain_of_toLower
  apply ht
  rw [← hs, Text.lowered, String.toList_map]
  exact List.mem_map_of_mem hc

theorem isPlain_of_mem_toDigits {n : Nat} {c : Char} (h : c ∈ Nat.toDigits 16 n) :
    isPlain c = true := by
  obtain ⟨d, hd, rfl⟩ := Numeral.exists_digitChar_of_mem_toDigits (by decide) h
  exact (by decide : ∀ d < 16, isPlain (Nat.digitChar d) = true) d hd

theorem isPlain_of_mem_marked {digits : List Char} (h : ∀ c ∈ digits, isPlain c = true) :
    ∀ c ∈ (marked digits).toList, isPlain c = true := by
  rw [marked, String.toList_ofList]
  exact List.forall_mem_cons.mpr ⟨by decide, List.forall_mem_cons.mpr ⟨by decide, h⟩⟩

theorem isPlain_of_foldlM {digits : List Char} {n : Nat}
    (h : (digits.foldlM (fun n c => (Text.asciiHexValue? c).map (n * 16 + ·)) n).isSome = true) :
    ∀ c ∈ digits, isPlain c = true := by
  induction digits generalizing n with
  | nil => nofun
  | cons d digits ih =>
      rw [List.foldlM_cons] at h
      cases hd : Text.asciiHexValue? d with
      | none =>
          rw [hd] at h
          cases h
      | some value =>
          rw [hd] at h
          have hplain : isPlain d = true := isPlain_of_asciiHexValue? (by rw [hd]; rfl)
          exact List.forall_mem_cons.mpr ⟨hplain, ih h⟩

theorem isPlain_of_addressNumber? {cs : List Char} (h : (addressNumber? cs).isSome = true) :
    ∀ c ∈ cs, isPlain c = true := by
  have hdigits : ∀ digits : List Char, (if digits.length = 2 * addressSize then
        digits.foldlM (fun n c => (Text.asciiHexValue? c).map (n * 16 + ·)) 0
      else none).isSome = true → ∀ c ∈ digits, isPlain c = true := by
    intro digits h
    split at h
    next => exact isPlain_of_foldlM h
    next => cases h
  unfold addressNumber? at h
  dsimp only at h
  split at h
  next x rest =>
    split at h
    next hmark =>
      have hx : isPlain x = true := by rcases hmark with rfl | rfl <;> decide
      exact List.forall_mem_cons.mpr ⟨by decide, List.forall_mem_cons.mpr ⟨hx, hdigits rest h⟩⟩
    next => exact hdigits _ h
  next => exact hdigits _ h

/-- Nothing in the text of a value without parts is taken for anything else. -/
theorem Leaf.Spells.plain (h : type.Spells x (.text s)) : ∀ c ∈ s.toList, isPlain c = true := by
  cases h with
  | decimal n =>
      have hsigns : ∀ c ∈ Numeral.signs, isPlain c = true := by decide
      exact fun c hc => hsigns c (Numeral.mem_signs_of_mem_print hc)
  | hexadecimal hs =>
      exact isPlain_of_lowered hs (isPlain_of_mem_marked fun c hc => isPlain_of_mem_toDigits hc)
  | @word b s hs =>
      have hplain : ∀ c ∈ (if b then "true" else "false").toList, isPlain c = true := by
        cases b <;> decide
      exact isPlain_of_lowered hs hplain
  | address hs => exact isPlain_of_addressNumber? hs
  | bytes hdigits =>
      exact isPlain_of_mem_marked fun c hc => isPlain_of_asciiHexValue? (hdigits c hc)

theorem Leaf.Spells.trim (h : type.Spells x (.text s)) : Text.trim s.toList = s.toList :=
  Text.trim_of_unblank fun c hc => not_blank_of_isPlain (h.plain c hc)

/-- Something is found as expected, or else nothing is, and for a reason. -/
def Unless {α : Type} (reason : Prop) (expected found : Option α) : Prop :=
  found = expected ∨ reason ∧ found = none

/-- A spelling is brought into the form of the value, unless a number is too long to be read. -/
def Alike (coerce : Value → Option Value) (x v : Value) : Prop :=
  Unless (HasLongNumber x) (coerce x) (coerce v)

theorem coerceLeaf_number (signed : Bool) (size : Option (Fin 32)) (v : Value) :
    coerceLeaf (String.ofList (Leaf.number signed size).chars) v = coerceNumber v := by
  have hnumber : (Text.beginsWith "uint" (String.ofList (Leaf.number signed size).chars) ||
      Text.beginsWith "int" (String.ofList (Leaf.number signed size).chars)) = true := by
    have htext : (String.ofList (Leaf.number signed size).chars).toList =
        (Leaf.number signed size).chars := String.toList_ofList
    rw [Bool.or_eq_true, Text.beginsWith_iff, Text.beginsWith_iff, htext]
    cases signed with
    | false => exact Or.inl (List.prefix_append _ _)
    | true => exact Or.inr (List.prefix_append _ _)
  rw [coerceLeaf, if_pos hnumber]

theorem coerceLeaf_truth (v : Value) :
    coerceLeaf (String.ofList Leaf.truth.chars) v = coerceTruth v := by
  have hnumber : (Text.beginsWith "uint" (String.ofList Leaf.truth.chars) ||
      Text.beginsWith "int" (String.ofList Leaf.truth.chars)) = false := by decide
  rw [coerceLeaf, if_neg (by simp [hnumber]), if_pos (by decide)]

theorem alike_decimal (n : Int) : Alike coerceNumber (.int n) (.text (Numeral.print n)) := by
  rw [Alike, Unless, Argument.coerceNumber_decimal, Numeral.decimal?_print]
  cases hprint : Numeral.print? n with
  | none => exact Or.inr ⟨.number hprint, rfl⟩
  | some text => exact Or.inl rfl

theorem coerceNumber_hexadecimal {n : Nat} (hs : Text.lowered s = marked (Nat.toDigits 16 n))
    (htrim : Text.trim s.toList = s.toList) : coerceNumber (.text s) = some (.int n) := by
  have hmark : Text.beginsWith "0x" (Text.lowered s) = true := by
    have htext : (marked (Nat.toDigits 16 n)).toList = "0x".toList ++ Nat.toDigits 16 n :=
      String.toList_ofList
    rw [Text.beginsWith_iff, hs, htext]
    exact List.prefix_append _ _
  have hread : Numeral.hexadecimal? s = some (n : Int) :=
    Numeral.hexadecimal?_of_lowered (by rw [hs, marked, String.toList_ofList]) htrim
  rw [coerceNumber_of_trim htrim, if_pos hmark, hread, Option.map_some]

theorem coerceTruth_word {b : Bool} (hs : Text.lowered s = if b then "true" else "false")
    (htrim : Text.trim s.toList = s.toList) : coerceTruth (.text s) = some (.bool b) := by
  have hstripped : Text.stripped s = s := by rw [Text.stripped, htrim, String.ofList_toList]
  have hplain : plainText? (.text s) = some s := by rw [plainText?_text, hstripped]
  simp only [coerceTruth, hplain, Option.bind_eq_bind, Option.bind_some, hs]
  cases b <;> rfl

theorem Leaf.Spells.alike (h : type.Spells x v) :
    Alike (coerceLeaf (String.ofList type.chars)) x v := by
  have htrim : ∀ s, v = .text s → Text.trim s.toList = s.toList := by
    rintro s rfl
    exact h.trim
  cases h with
  | decimal n =>
      rw [funext (coerceLeaf_number _ _)]
      exact alike_decimal n
  | hexadecimal hs =>
      rw [funext (coerceLeaf_number _ _)]
      exact Or.inl (coerceNumber_hexadecimal hs (htrim _ rfl))
  | word hs =>
      rw [funext coerceLeaf_truth]
      exact Or.inl (coerceTruth_word hs (htrim _ rfl))
  | _ => exact Or.inl rfl

end Leaves

section Groups

variable {schema : Schema} {x v : Value} {s : String} {sign : Char}

theorem mapM_unless {α β : Type} {reason : Prop} {rows : List α} {f g : α → Option β}
    (h : ∀ row ∈ rows, Unless reason (f row) (g row)) :
    Unless reason (rows.mapM f) (rows.mapM g) := by
  induction rows with
  | nil => exact Or.inl rfl
  | cons row rows ih =>
      obtain ⟨hrow, hrows⟩ := List.forall_mem_cons.mp h
      rw [List.mapM_cons, List.mapM_cons]
      rcases hrow with hrow | ⟨hreason, hnone⟩
      · rw [hrow]
        rcases ih hrows with hsame | ⟨hreason, hnone⟩
        · exact Or.inl (by rw [hsame])
        · refine Or.inr ⟨hreason, ?_⟩
          rw [hnone]
          cases f row <;> rfl
      · exact Or.inr ⟨hreason, by rw [hnone]; rfl⟩

theorem Unless.map {α β : Type} {reason : Prop} {expected found : Option α}
    (h : Unless reason expected found) (f : α → β) :
    Unless reason (expected.map f) (found.map f) := by
  rcases h with rfl | ⟨hreason, rfl⟩
  · exact Or.inl rfl
  · exact Or.inr ⟨hreason, rfl⟩

/-- A list for an array is brought into form item by item. -/
theorem coerce?_array_list (item : Schema) (suffix : Suffix) (name : Option Value)
    (xs : List Value) : coerce? ((item.array suffix).parameter name) (.list xs) =
      (xs.mapM (coerce? (item.parameter name))).map .list := by
  have hitems : arrayItems? (.list xs) = some xs := rfl
  rw [Schema.coerce?_array, hitems, Option.bind_some, coerceItems_eq_mapM]

/-- A list for a tuple is brought into form component by component. -/
theorem coerce?_tuple_list {α : Type} (name : Option Value) (component : α → String × Schema)
    (x : α → Value) (rows : List α) :
    coerce? ((Schema.tuple (rows.map component)).parameter name) (.list (rows.map x)) =
      (rows.mapM fun row =>
        coerce? ((component row).2.parameter (some (.text (component row).1))) (x row)).map
          .tuple := by
  have hvalues (components : List Parameter) (xs : List Value) :
      tupleValues? components (.list xs) = some xs := rfl
  rw [Schema.coerce?_tuple, hvalues, Option.bind_some, Schema.parametersOf_eq, List.map_map,
    coerceComponents?_map_eq_mapM]
  rfl

/-- Rows of items whose spellings are alike make lists that are alike. -/
theorem unless_of_rows {α : Type} {rows : List α} {x v : α → Value}
    {coerce : α → Value → Option Value}
    (h : ∀ row ∈ rows, Alike (coerce row) (x row) (v row)) :
    Unless (HasLongNumber (.list (rows.map x))) (rows.mapM fun row => coerce row (x row))
      (rows.mapM fun row => coerce row (v row)) := by
  refine mapM_unless fun row hrow => ?_
  rcases h row hrow with hsame | ⟨hlong, hnone⟩
  · exact Or.inl hsame
  · exact Or.inr ⟨.item (List.mem_map_of_mem hrow) hlong, hnone⟩

theorem alike_list {item : Schema} {suffix : Suffix} {name : Option Value}
    {rows : List (Value × Value)}
    (h : ∀ row ∈ rows, Alike (coerce? (item.parameter name)) row.1 row.2) :
    Alike (coerce? ((item.array suffix).parameter name)) (.list (rows.map (·.1)))
      (.list (rows.map (·.2))) := by
  rw [Alike, coerce?_array_list, coerce?_array_list, List.mapM_map, List.mapM_map]
  exact (unless_of_rows h).map Value.list

/-- Pieces between commas are the items of an array if nothing in them is taken for anything
else. -/
theorem arrayItems?_joined {pieces : List String} (hsome : pieces ≠ [])
    (h : ∀ piece ∈ pieces, ∀ c ∈ (Text.stripped piece).toList, isPlain c = true) :
    arrayItems? (.text (Text.joined "," pieces)) =
      some (pieces.map fun piece => .text (Text.stripped piece)) := by
  have hnot {c : Char} (hblank : Text.isBlank c = false) (hplain : isPlain c = false) :
      ∀ piece ∈ pieces, c ∉ piece.toList := by
    intro piece hpiece hc
    have htrim := Text.mem_trim_of_not_blank hblank hc
    rw [← Text.toList_stripped] at htrim
    rw [h piece hpiece c htrim] at hplain
    cases hplain
  have hbracket : (Text.trimStart (Text.joined "," pieces).toList).head? ≠ some '[' := by
    intro hhead
    have hmem := (List.dropWhile_suffix _).subset (List.mem_of_mem_head? hhead)
    rcases Text.mem_of_mem_joined hmem with hcomma | ⟨piece, hpiece, hc⟩
    · exact absurd hcomma (by decide)
    · exact hnot (by decide) (by decide) piece hpiece hc
  have hpieces : Text.pieces ',' (Text.joined "," pieces).toList = pieces.map String.toList :=
    Text.pieces_joined hsome (hnot (by decide) (by decide))
  rw [arrayItems?_of_not_bracket hbracket, hpieces, List.map_map]
  rfl

theorem alike_commas {type : Leaf} {suffix : Suffix} {name : Option Value}
    {rows : List (Value × String)} (hsome : rows ≠ [])
    (h : ∀ row ∈ rows, type.Spells row.1 (.text (Text.stripped row.2))) :
    Alike (coerce? (((Schema.leaf type).array suffix).parameter name)) (.list (rows.map (·.1)))
      (.text (Text.joined "," (rows.map (·.2)))) := by
  have hplain : ∀ piece ∈ rows.map (·.2), ∀ c ∈ (Text.stripped piece).toList,
      isPlain c = true := by
    intro piece hpiece
    obtain ⟨row, hrow, rfl⟩ := List.mem_map.mp hpiece
    exact (h row hrow).plain
  rw [Alike, coerce?_array_list, Schema.coerce?_array,
    arrayItems?_joined (by simpa using hsome) hplain, Option.bind_some, List.map_map,
    coerceItems_eq_mapM, List.mapM_map, List.mapM_map]
  refine (unless_of_rows fun row hrow => ?_).map Value.list
  rw [funext (Schema.coerce?_leaf type name)]
  exact (h row hrow).alike

theorem alike_tuple {name : Option Value} {rows : List ((String × Schema) × Value × Value)}
    (h : ∀ row ∈ rows, Alike (coerce? (row.1.2.parameter (some (.text row.1.1)))) row.2.1 row.2.2) :
    Alike (coerce? ((Schema.tuple (rows.map (·.1))).parameter name)) (.list (rows.map (·.2.1)))
      (.list (rows.map (·.2.2))) := by
  rw [Alike, coerce?_tuple_list, coerce?_tuple_list]
  exact (unless_of_rows h).map Value.tuple

theorem valuesByName?_of_get? {entries : List (Value × Value)}
    {components : List (String × Schema)} {vs : List Value}
    (hlength : components.length = vs.length)
    (h : ∀ field ∈ (components.map (·.1)).zip vs,
      Ordered.get? entries (.text field.1) = some field.2) :
    valuesByName? entries (Schema.parametersOf components) = some vs := by
  induction components generalizing vs with
  | nil =>
      obtain rfl := List.length_eq_zero_iff.mp hlength.symm
      rfl
  | cons component components ih =>
      cases vs with
      | nil => cases hlength
      | cons v vs =>
          obtain ⟨hfirst, hrest⟩ := List.forall_mem_cons.mp h
          rw [Schema.parametersOf, valuesByName?, Parameter.name]
          simp only [Option.bind_eq_bind, Option.bind_some, Value.isKey, if_true, hfirst,
            ih (Nat.succ.inj hlength) hrest]
          rfl

/-- The values of a tuple that are given by name are found in the order of the components. -/
theorem tupleValues?_ofFields {components : List (String × Schema)} {vs : List Value}
    {fields : List (String × Value)} (hnames : (components.map (·.1)).Nodup)
    (hlength : components.length = vs.length)
    (hfields : fields.Perm ((components.map (·.1)).zip vs)) :
    tupleValues? (Schema.parametersOf components) (Value.ofFields fields) = some vs := by
  have hkeys : (Ordered.keys fields).Nodup := by
    have hperm := hfields.map Prod.fst
    rw [List.map_fst_zip (by rw [List.length_map, hlength])] at hperm
    exact hperm.nodup_iff.mpr hnames
  have hget : ∀ field ∈ (components.map (·.1)).zip vs,
      (Value.ofFields fields).field? field.1 = some field.2 := by
    intro field hfield
    rw [Value.field?_ofFields]
    exact Ordered.get?_of_mem hkeys (hfields.mem_iff.mpr hfield)
  exact valuesByName?_of_get? hlength hget

/-- Only arrays and tuples are spelled by lists and tables, and arrays by lists alone. -/
theorem Spells.opens_cases (h : Spells schema x v) (hv : OpensWith v sign) :
    (∃ item suffix vs, schema = .array item suffix ∧ v = .list vs ∧ sign = '[') ∨
      ∃ components, schema = .tuple components := by
  cases h with
  | leaf h => cases h <;> cases hv
  | list rows h =>
      cases hv
      exact Or.inl ⟨_, _, _, rfl, rfl, rfl⟩
  | tuple rows h => exact Or.inr ⟨_, rfl⟩
  | table h hfields => exact Or.inr ⟨_, rfl⟩
  | _ => cases hv

/-- The JSON text of a list or a table is brought into form as that is. -/
theorem Spells.coerce?_json (h : Spells schema x v) (hv : OpensWith v sign)
    (hs : Json.read s = .ok v) (name : Option Value) :
    coerce? (schema.parameter name) (.text s) = coerce? (schema.parameter name) v := by
  rcases h.opens_cases hv with ⟨item, suffix, vs, rfl, rfl, -⟩ | ⟨components, rfl⟩
  · have hopen := Json.head?_trimStart_of_read_list hs
    have hitems : arrayItems? (.text s) = arrayItems? (.list vs) := by
      simp [arrayItems?, hopen, Json.read?, hs, Except.toOption]
    rw [Schema.coerce?_array, Schema.coerce?_array, hitems]
  · have hvalues : tupleValues? (Schema.parametersOf components) (.text s) =
        tupleValues? (Schema.parametersOf components) v := by
      cases hv <;> simp [tupleValues?, Json.read?, hs, Except.toOption]
    rw [Schema.coerce?_tuple, Schema.coerce?_tuple, hvalues]

/-- A JSON text that is not read is brought into no form. -/
theorem Spells.coerce?_unread {error : Json.ReadError} (h : Spells schema x v)
    (hv : OpensWith v sign) (hs : Json.read s = .error error)
    (hopen : (Text.trimStart s.toList).head? = some sign) (name : Option Value) :
    coerce? (schema.parameter name) (.text s) = none := by
  rcases h.opens_cases hv with ⟨item, suffix, vs, rfl, rfl, rfl⟩ | ⟨components, rfl⟩
  · have hitems : arrayItems? (.text s) = none := by
      simp [arrayItems?, hopen, Json.read?, hs, Except.toOption]
    rw [Schema.coerce?_array, hitems, Option.bind_none]
  · have hvalues : tupleValues? (Schema.parametersOf components) (.text s) = none := by
      simp [tupleValues?, Json.read?, hs, Except.toOption]
    rw [Schema.coerce?_tuple, hvalues, Option.bind_none]

/-- A spelling of a value is brought into the form of the value, unless a number in it is too long
to be read. -/
theorem Spells.alike (h : Spells schema x v) (hschema : schema.WellFormed) (name : Option Value) :
    Alike (coerce? (schema.parameter name)) x v := by
  induction h generalizing name with
  | @leaf type x v h =>
      rw [funext (Schema.coerce?_leaf type name)]
      exact h.alike
  | list rows h ih =>
      cases hschema with
      | array hitem hsuffix => exact alike_list fun row hrow => ih row hrow hitem name
  | commas rows hsome h => exact alike_commas hsome h
  | tuple rows h ih =>
      cases hschema with
      | tuple hsome hnames hcomponents =>
          exact alike_tuple fun row hrow =>
            ih row hrow (hcomponents row.1 (List.mem_map_of_mem hrow)) _
  | @table components x vs fields h hfields ih =>
      have hlength : components.length = vs.length := by
        cases h
        simp
      have hsame : coerce? ((Schema.tuple components).parameter name) (Value.ofFields fields) =
          coerce? ((Schema.tuple components).parameter name) (.list vs) := by
        cases hschema with
        | tuple hsome hnames hcomponents =>
            rw [Schema.coerce?_tuple, Schema.coerce?_tuple,
              tupleValues?_ofFields hnames hlength hfields]
            rfl
      rw [Alike, hsame]
      exact ih hschema name
  | json h hv hs ih =>
      rw [Alike, h.coerce?_json hv hs]
      exact ih hschema name
  | unread h hv hlong hs hopen ih => exact Or.inr ⟨hlong, h.coerce?_unread hv hs hopen name⟩

end Groups

end ContractBench.Encoding
