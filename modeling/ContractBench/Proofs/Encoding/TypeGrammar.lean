import ContractBench.Encoding.Constructor
import ContractBench.Proofs.Encoding.ShortNames

/-! # The grammar of type texts

Which characters a text that names a type is made of. A type without parts is named by letters and
digits alone, and no type text holds a blank.
-/

namespace ContractBench.Encoding

open Text (isBlank isWord)

namespace TypeSyntax

section Signs

variable {type : TypeSyntax} {c : Char} {cs : List Char}

/-- The characters of type texts. -/
def isSign (c : Char) : Bool := c.isAlphanum || ['(', ')', '[', ']', ','].contains c

theorem isSign_of_isAlphanum (h : c.isAlphanum = true) : isSign c = true := by
  simp [isSign, h]

/-- No character of a type text is a blank. -/
theorem not_blank_of_isSign (h : isSign c = true) : isBlank c = false := by
  rcases Bool.or_eq_true_iff.mp h with hword | hother
  · cases hblank : isBlank c with
    | false => rfl
    | true =>
        have hne := Text.isWord_of_isBlank hblank
        rw [isWord_of_isAlphanum hword] at hne
        cases hne
  · have hall : ∀ sign ∈ ['(', ')', '[', ']', ','], isBlank sign = false := by decide
    exact hall c (List.contains_iff_mem.mp hother)

theorem isAlphanum_of_mem_chars {found : Sizes} (h : c ∈ found.chars) : c.isAlphanum = true := by
  have hdigits (n : Nat) (h : c ∈ Numeral.digitsOf n) : c.isAlphanum = true :=
    isAlphanum_of_isDigit (Numeral.isDigit_of_mem_digitsOf h)
  cases found with
  | none => cases h
  | one n => exact hdigits n h
  | two n m =>
      rcases List.mem_append.mp h with h | h
      · exact hdigits n h
      · rcases List.mem_cons.mp h with rfl | h
        · decide
        · exact hdigits m h

theorem isAlphanum_of_mem_basic {word : String} {found : Sizes}
    (h : (basic word found).WellFormed) (hc : c ∈ (basic word found).print) :
    c.isAlphanum = true := by
  cases h with
  | basic hsome hword hsizes =>
      rcases List.mem_append.mp hc with hc | hc
      · exact isAlphanum_of_isLetter (hword c hc)
      · exact isAlphanum_of_mem_chars hc

theorem isSign_of_mem_lengthChars {length? : Option Nat} (h : c ∈ lengthChars length?) :
    isSign c = true := by
  rcases List.mem_cons.mp h with rfl | h
  · decide
  rcases List.mem_append.mp h with h | h
  · cases length? with
    | none => cases h
    | some length =>
        exact isSign_of_isAlphanum (isAlphanum_of_isDigit (Numeral.isDigit_of_mem_digitsOf h))
  · obtain rfl := List.mem_singleton.mp h
    decide

theorem mem_of_mem_intercalate {sep : Char} {parts : List (List Char)}
    (h : c ∈ [sep].intercalate parts) : c = sep ∨ ∃ part ∈ parts, c ∈ part := by
  induction parts with
  | nil => cases h
  | cons part parts ih =>
      cases parts with
      | nil => exact Or.inr ⟨part, List.mem_cons_self, by simpa using h⟩
      | cons next parts =>
          rw [List.intercalate_cons_cons, List.append_assoc, List.singleton_append] at h
          rcases List.mem_append.mp h with h | h
          · exact Or.inr ⟨part, List.mem_cons_self, h⟩
          rcases List.mem_cons.mp h with rfl | h
          · exact Or.inl rfl
          · rcases ih h with rfl | ⟨other, hother, hc⟩
            · exact Or.inl rfl
            · exact Or.inr ⟨other, List.mem_cons_of_mem _ hother, hc⟩

theorem WellFormed.isSign_of_mem (h : type.WellFormed) : ∀ c ∈ type.print, isSign c = true := by
  induction h with
  | basic hsome hword hsizes =>
      exact fun c hc => isSign_of_isAlphanum
        (isAlphanum_of_mem_basic (.basic hsome hword hsizes) hc)
  | @tuple components hsome hcomponents ih =>
      intro c hc
      rw [print, printEach_eq_map] at hc
      rcases List.mem_cons.mp hc with rfl | hc
      · decide
      rcases List.mem_append.mp hc with hc | hc
      · rcases mem_of_mem_intercalate hc with rfl | ⟨part, hpart, hc⟩
        · decide
        · obtain ⟨component, hcomponent, rfl⟩ := List.mem_map.mp hpart
          exact ih component hcomponent c hc
      · obtain rfl := List.mem_singleton.mp hc
        decide
  | array hitem ih =>
      exact fun c hc => (List.mem_append.mp hc).elim (ih c) isSign_of_mem_lengthChars
  | fixedArray hitem hlength ih =>
      exact fun c hc => (List.mem_append.mp hc).elim (ih c) isSign_of_mem_lengthChars

theorem isSign_of_ofChars? (h : ofChars? cs = some type) : ∀ c ∈ cs, isSign c = true := by
  obtain ⟨hwell, rfl⟩ := ofChars?_eq_some_iff.mp h
  exact hwell.isSign_of_mem

/-- A type without parts is written with letters and digits alone. -/
theorem isAlphanum_of_ofChars? {word : String} {found : Sizes}
    (h : ofChars? cs = some (.basic word found)) : ∀ c ∈ cs, c.isAlphanum = true := by
  obtain ⟨hwell, rfl⟩ := ofChars?_eq_some_iff.mp h
  exact fun c hc => isAlphanum_of_mem_basic hwell hc

/-- A type text begins with a letter or a parenthesis. -/
theorem WellFormed.exists_print_eq_cons (h : type.WellFormed) :
    ∃ c cs, type.print = c :: cs ∧ (isLetter c = true ∨ c = '(') := by
  induction h with
  | basic hsome hword hsizes =>
      obtain ⟨c, cs, hcs⟩ := List.exists_cons_of_ne_nil hsome
      exact ⟨c, _, by rw [print, hcs]; rfl, Or.inl (hword c (hcs ▸ List.mem_cons_self))⟩
  | tuple hsome hcomponents ih => exact ⟨'(', _, rfl, Or.inr rfl⟩
  | array hitem ih =>
      obtain ⟨c, cs, hcs, hc⟩ := ih
      exact ⟨c, _, by rw [print, hcs]; rfl, hc⟩
  | fixedArray hitem hlength ih =>
      obtain ⟨c, cs, hcs, hc⟩ := ih
      exact ⟨c, _, by rw [print, hcs]; rfl, hc⟩

/-- No type text begins with a bracket. -/
theorem head?_ne_of_ofChars? (h : ofChars? cs = some type) : cs.head? ≠ some '[' := by
  obtain ⟨hwell, rfl⟩ := ofChars?_eq_some_iff.mp h
  obtain ⟨c, cs, hcs, hc⟩ := hwell.exists_print_eq_cons
  rw [hcs]
  rintro ⟨⟩
  rcases hc with hc | hc
  · exact absurd hc (by decide)
  · cases hc

end Signs

end TypeSyntax

section Types

variable {text : String} {c : Char}

theorem exists_syntax_of_typeOf {type : AbiType} (h : typeOf text = .ok type) :
    ∃ written, TypeSyntax.ofText? text = some written ∧ AbiType.ofSyntax? written = some type := by
  unfold typeOf at h
  split at h
  next => cases h
  next =>
    split at h
    next => split at h <;> cases h
    next written hwritten =>
      split at h
      next found htype =>
        cases h
        exact ⟨written, hwritten, htype⟩
      next => cases h

/-- A type text holds no blank. -/
theorem not_blank_of_typeOf {type : AbiType} (h : typeOf text = .ok type) :
    ∀ c ∈ text.toList, isBlank c = false := by
  obtain ⟨written, hwritten, -⟩ := exists_syntax_of_typeOf h
  intro c hc
  cases hblank : isBlank c with
  | false => rfl
  | true =>
      have hword := Text.isWord_of_isBlank hblank
      have hsign := TypeSyntax.isSign_of_ofChars? hwritten c
        (TypeSyntax.mem_resolved_of_mem hword hc)
      rw [← hblank, TypeSyntax.not_blank_of_isSign hsign]

theorem head?_ne_of_typeOf {type : AbiType} (h : typeOf text = .ok type) :
    text.toList.head? ≠ some '[' := by
  obtain ⟨written, hwritten, -⟩ := exists_syntax_of_typeOf h
  intro hhead
  obtain ⟨more, hmore⟩ := List.head?_eq_some_iff.mp hhead
  apply TypeSyntax.head?_ne_of_ofChars? hwritten
  rw [hmore, TypeSyntax.head?_resolved (by decide)]

/-- The name of a type without parts holds no bracket and no parenthesis. -/
theorem isWord_of_typeOf_elementary {type : Elementary} (h : typeOf text = .ok (.elementary type)) :
    ∀ c ∈ text.toList, isWord c = true := by
  obtain ⟨written, hwritten, htype⟩ := exists_syntax_of_typeOf h
  obtain ⟨word, sizes, rfl⟩ : ∃ word sizes, written = .basic word sizes := by
    cases written with
    | basic word sizes => exact ⟨word, sizes, rfl⟩
    | _ => simp [AbiType.ofSyntax?] at htype
  intro c hc
  cases hword : isWord c with
  | true => rfl
  | false =>
      have halphanum := TypeSyntax.isAlphanum_of_ofChars? hwritten c
        (TypeSyntax.mem_resolved_of_mem hword hc)
      rw [← hword, TypeSyntax.isWord_of_isAlphanum halphanum]

end Types

section Parameters

variable {type : String} {name : Option Value} {components : List Parameter} {abiType : AbiType}

/-- An array is one of tuples if its items are. -/
theorem isTuple_append_bracket (type : String) (more : List Char) :
    Parameter.isTuple (type ++ String.ofList ('[' :: more)) = Parameter.isTuple type := by
  rw [Parameter.isTuple, Parameter.isTuple, Bool.eq_iff_iff, Text.beginsWith_iff,
    Text.beginsWith_iff, String.toList_append, String.toList_ofList]
  refine ⟨fun h => ?_, fun h => h.trans (List.prefix_append _ _)⟩
  rcases List.prefix_or_prefix_of_prefix h (List.prefix_append type.toList ('[' :: more)) with
    hprefix | ⟨rest, hrest⟩
  · exact hprefix
  · -- What is missing of the word would have to go on with the bracket.
    rw [← hrest, List.prefix_append_right_inj] at h
    cases rest with
    | nil => exact ⟨[], by rw [List.append_nil, ← hrest, List.append_nil]⟩
    | cons c rest =>
        have hbracket : c = '[' := (List.cons_prefix_cons.mp h).1
        have hmem : '[' ∈ Parameter.tupleWord.toList := by
          rw [← hrest, hbracket]
          exact List.mem_append_right _ List.mem_cons_self
        exact absurd hmem (by decide)

theorem mem_canonical {c : Char} (hc : c ∈ type.toList) (hword : c ∉ Parameter.tupleWord.toList) :
    c ∈ (Parameter.canonical (.mk type name components)).toList := by
  rw [Parameter.canonical]
  split
  next htuple =>
    obtain ⟨rest, hrest⟩ : ∃ rest, Text.after? Parameter.tupleWord type = some rest := by
      obtain ⟨rest, hrest⟩ := Text.beginsWith_iff.mp htuple
      refine ⟨String.ofList rest, ?_⟩
      have heq : type = Parameter.tupleWord ++ String.ofList rest := by
        rw [← String.toList_inj, String.toList_append, String.toList_ofList, hrest]
      rw [heq, Text.after?_append]
    rw [hrest, Option.getD_some, String.toList_append]
    rw [Text.eq_append_of_after? hrest, String.toList_append] at hc
    exact List.mem_append_right _ ((List.mem_append.mp hc).resolve_left hword)
  next => exact hc

/-- The text of a type that is encoded holds no blank. -/
theorem not_blank_of_canonical
    (h : typeOf (Parameter.canonical (.mk type name components)) = .ok abiType) :
    ∀ c ∈ type.toList, isBlank c = false := by
  intro c hc
  by_cases hword : c ∈ Parameter.tupleWord.toList
  · exact (by decide : ∀ c ∈ Parameter.tupleWord.toList, isBlank c = false) c hword
  · exact not_blank_of_typeOf h c (mem_canonical hc hword)

theorem head?_ne_of_canonical
    (h : typeOf (Parameter.canonical (.mk type name components)) = .ok abiType) :
    type.toList.head? ≠ some '[' := by
  rw [Parameter.canonical] at h
  split at h
  next htuple =>
    obtain ⟨rest, hrest⟩ := Text.beginsWith_iff.mp htuple
    have hlead : Parameter.tupleWord.toList = ['t', 'u', 'p', 'l', 'e'] := rfl
    rw [← hrest, hlead]
    simp
  next => exact head?_ne_of_typeOf h

/-- A type with two brackets, or one of tuples, has parts. -/
theorem not_elementary_of_canonical {elementary : Elementary}
    (hjson : 1 < type.toList.count '[' ∨ Parameter.tupleWord.toList <+: type.toList) :
    typeOf (Parameter.canonical (.mk type name components)) ≠ .ok (.elementary elementary) := by
  intro h
  have hall := isWord_of_typeOf_elementary h
  rw [Parameter.canonical] at hall
  split at hall
  next htuple =>
    have hopen := hall '(' (by simp [String.toList_append])
    revert hopen
    decide
  next htuple =>
    have hcount := hjson.resolve_right fun h => htuple (Text.beginsWith_iff.mpr h)
    have hbracket := hall '[' (List.count_pos_iff.mp (by omega))
    revert hbracket
    decide

end Parameters

end ContractBench.Encoding
