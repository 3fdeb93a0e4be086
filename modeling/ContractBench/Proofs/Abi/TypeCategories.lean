import ContractBench.Abi.TypeCategory
import ContractBench.Proofs.Argument.Suffixes

/-! # Rough kinds of types

The rough kind of a type against the way in which its values are read. The two agree on types that
are no arrays. On arrays they agree only where the name in front is not told by its first letters
and some suffix sets no length.
-/

namespace ContractBench

namespace Text

variable {c : Char} {part front rest : List Char}

/-- A part is not found in front of its first character. -/
theorem hasPart_append_of_notMem (h : c ∉ front) :
    hasPart (c :: part) (front ++ rest) = hasPart (c :: part) rest := by
  induction front with
  | nil => rfl
  | cons d front ih =>
      obtain ⟨hne, hfront⟩ := not_or.mp (mt List.mem_cons.mpr h)
      rw [List.cons_append, hasPart, ih hfront]
      simp [List.isPrefixOf, hne]

end Text

namespace Abi

open Argument (ArgumentType Suffix)

/-- The names that a type can begin with: those of types without parts, of any size, and that of
tuples. -/
inductive TypeName where
  | uint (bits : Nat)
  | int (bits : Nat)
  | address
  | bool
  | string
  | bytes
  | bytesOf (size : Nat)
  | tuple
deriving DecidableEq, Repr

namespace TypeName

/-- The name without its size, which is also the rough kind of the type. -/
def word : TypeName → String
  | uint _ => "uint"
  | int _ => "int"
  | address => "address"
  | bool => "bool"
  | string => "string"
  | bytes | bytesOf _ => "bytes"
  | tuple => "tuple"

def digits : TypeName → List Char
  | uint n | int n | bytesOf n => Numeral.digitsOf n
  | address | bool | string | bytes | tuple => []

def chars (name : TypeName) : List Char := name.word.toList ++ name.digits

/-- Whether the rough kind of a type is told by what it begins with, whatever follows. -/
def isLeading : TypeName → Bool
  | uint _ | int _ | bytes | bytesOf _ => true
  | address | bool | string | tuple => false

theorem word_ne_array (name : TypeName) : name.word ≠ "array" := by
  cases name <;> simp [word]

theorem word_eq_tuple_iff {name : TypeName} : name.word = "tuple" ↔ name = .tuple := by
  cases name <;> simp [word]

end TypeName

/-- The text of a type: a name and the array suffixes behind it. -/
def typeChars (name : TypeName) (suffixes : List Suffix) : List Char :=
  name.chars ++ suffixes.flatMap Suffix.chars

def typeText (name : TypeName) (suffixes : List Suffix) : String :=
  String.ofList (typeChars name suffixes)

/-- Whether values of a type are read as lists. -/
def IsList : ArgumentType → Prop
  | .array _ | .fixedArray _ _ | .nested _ => True
  | .scalar _ | .tuple _ => False

/-- The rough kind of a type agrees with the way in which its values are read. -/
def KindAgrees (name : TypeName) (suffixes : List Suffix) : Prop :=
  ∃ way, ArgumentType.ofText (typeText name suffixes) = .ok way ∧
    (typeCategory (typeText name suffixes) = "array" ↔ IsList way) ∧
    (typeCategory (typeText name suffixes) = "tuple" ↔ ∃ text, way = .tuple text) ∧
    ((∃ text, way = .scalar text) → typeCategory (typeText name suffixes) = name.word)

variable {name : TypeName} {suffixes : List Suffix} {c : Char}

section Characters

def TypeName.words : List String := ["uint", "int", "address", "bool", "string", "bytes", "tuple"]

/-- What holds of digits and of the letters of the words holds of the characters of a name. -/
theorem TypeName.of_mem_chars {p : Char → Prop} (hwords : ∀ word ∈ words, ∀ c ∈ word.toList, p c)
    (hdigit : ∀ c, c.isDigit = true → p c) (h : c ∈ name.chars) : p c := by
  rcases List.mem_append.mp h with h | h
  · exact hwords name.word (by cases name <;> simp [words, word]) c h
  · refine hdigit c ?_
    cases name with
    | uint n | int n | bytesOf n => exact Numeral.isDigit_of_mem_digitsOf h
    | _ => cases h

theorem bracket_notMem_chars (name : TypeName) : '[' ∉ name.chars := fun h =>
  TypeName.of_mem_chars (p := (· ≠ '[')) (by decide) (by rintro _ h rfl; cases h) h rfl

theorem line_notMem_chars (name : TypeName) : '\n' ∉ name.chars := fun h =>
  TypeName.of_mem_chars (p := (· ≠ '\n')) (by decide) (by rintro _ h rfl; cases h) h rfl

theorem trim_typeChars (name : TypeName) (suffixes : List Suffix) :
    Text.trim (typeChars name suffixes) = typeChars name suffixes := by
  refine Text.trim_of_unblank fun c hc => ?_
  rcases List.mem_append.mp hc with hname | hsuffix
  · refine TypeName.of_mem_chars (p := fun c => Text.isBlank c = false) (by decide) ?_ hname
    exact fun c hdigit => Numeral.not_blank_of_mem_signs (Numeral.mem_signs_of_isDigit hdigit)
  · obtain ⟨suffix, -, hmem⟩ := List.mem_flatMap.mp hsuffix
    exact Argument.not_blank_of_mem_chars hmem

theorem count_typeChars (name : TypeName) (suffixes : List Suffix) :
    (typeChars name suffixes).count '[' = suffixes.length := by
  rw [typeChars, List.count_append, List.count_eq_zero.mpr (bracket_notMem_chars name),
    Nat.zero_add]
  induction suffixes with
  | nil => rfl
  | cons suffix suffixes ih =>
      rw [List.flatMap_cons, List.count_append, suffix.count_chars, ih, List.length_cons,
        Nat.add_comm]

/-- Empty brackets are found where a suffix sets no length. -/
theorem hasPart_typeChars (name : TypeName) (suffixes : List Suffix) :
    Text.hasPart ['[', ']'] (typeChars name suffixes) = decide (.any ∈ suffixes) := by
  rw [typeChars, Text.hasPart_append_of_notMem (bracket_notMem_chars name)]
  induction suffixes with
  | nil => rfl
  | cons suffix suffixes ih =>
      cases suffix with
      | any => simp [Suffix.chars, Suffix.digits, Text.hasPart, List.isPrefixOf]
      | exactly n =>
          obtain ⟨d, ds, hds, hd⟩ := Numeral.exists_digitsOf n
          have hclose : ']' ≠ d := by
            rintro rfl
            cases hd
          have hopen : '[' ∉ Numeral.digitsOf n ++ [']'] := by
            intro h
            rcases List.mem_append.mp h with h | h
            · exact absurd (Numeral.isDigit_of_mem_digitsOf h) (by decide)
            · exact absurd (List.mem_singleton.mp h) (by decide)
          have hfirst : ['[', ']'].isPrefixOf ('[' :: (Numeral.digitsOf n ++ [']'] ++
              suffixes.flatMap Suffix.chars)) = false := by
            simp [hds, List.isPrefixOf, hclose]
          rw [List.flatMap_cons, Suffix.chars, Suffix.digits, List.cons_append, Text.hasPart,
            hfirst, Text.hasPart_append_of_notMem hopen, ih]
          simp

end Characters

section Kinds

/-- The rough kind of a type in full. -/
theorem typeCategory_eq (name : TypeName) (suffixes : List Suffix) :
    typeCategory (typeText name suffixes) =
      if name.isLeading = true ∨ suffixes = [] then name.word
      else if .any ∈ suffixes then "array" else "unknown" := by
  have htext : (typeText name suffixes).toList = typeChars name suffixes := String.toList_ofList
  have heq (word : String) :
      typeText name suffixes = word ↔ typeChars name suffixes = word.toList := by
    rw [← String.toList_inj, htext]
  simp only [typeCategory, Text.beginsWith, heq, htext, hasPart_typeChars]
  simp only [typeChars, TypeName.chars]
  cases name with
  | uint | int | bytes | bytesOf => simp [TypeName.word, TypeName.isLeading]
  | address | bool | string | tuple =>
      cases suffixes <;> simp [TypeName.word, TypeName.isLeading, TypeName.digits, Suffix.chars]

theorem typeCategory_eq_array_iff : typeCategory (typeText name suffixes) = "array" ↔
    name.isLeading = false ∧ .any ∈ suffixes := by
  rw [typeCategory_eq]
  split_ifs with hname hany
  · refine iff_of_false name.word_ne_array ?_
    rintro ⟨hlate, hany⟩
    rcases hname with hlead | rfl
    · simp [hlead] at hlate
    · cases hany
  · exact iff_of_true rfl ⟨by simpa using (not_or.mp hname).1, hany⟩
  · exact iff_of_false (by decide) fun h => hany h.2

/-- A type with a suffix is never of the kind of tuples. -/
theorem typeCategory_ne_tuple (h : suffixes ≠ []) :
    typeCategory (typeText name suffixes) ≠ "tuple" := by
  rw [typeCategory_eq]
  split_ifs with hname hany
  · have hlead : name.isLeading = true := hname.resolve_right h
    rw [Ne, TypeName.word_eq_tuple_iff]
    rintro rfl
    cases hlead
  · decide
  · decide

end Kinds

section Ways

open Argument.ArgumentType (tupleWord)

theorem tupleWord_prefix_iff : tupleWord <+: typeChars name suffixes ↔ name = .tuple := by
  rw [typeChars, TypeName.chars]
  cases name <;> simp [tupleWord, TypeName.word]

theorem ofText_typeText (name : TypeName) (suffixes : List Suffix) :
    ArgumentType.ofText (typeText name suffixes) =
      ArgumentType.ofChars (typeChars name suffixes) := by
  rw [ArgumentType.ofText, typeText, String.toList_ofList, trim_typeChars]

theorem ofText_name (h : name ≠ .tuple) :
    ArgumentType.ofText (typeText name []) = .ok (.scalar (typeText name [])) := by
  rw [ofText_typeText]
  refine ArgumentType.ofChars_of_notMem ?_ (mt tupleWord_prefix_iff.mp h)
  rw [typeChars, List.flatMap_nil, List.append_nil]
  exact bracket_notMem_chars name

theorem ofText_tuple : ArgumentType.ofText (typeText .tuple []) = .ok (.tuple "tuple") := rfl

/-- With more than one suffix, and on tuples with one, values are read as JSON. -/
theorem ofText_nested (h : 1 < suffixes.length ∨ name = .tuple ∧ suffixes ≠ []) :
    ArgumentType.ofText (typeText name suffixes) = .ok (.nested (typeText name suffixes)) := by
  rw [ofText_typeText]
  rcases h with h | ⟨rfl, hsome⟩
  · exact ArgumentType.ofChars_of_brackets (by rwa [count_typeChars])
  · obtain ⟨suffix, rest, rfl⟩ := List.exists_cons_of_ne_nil hsome
    have hmark : (tupleWord ++ ['[']).isPrefixOf (typeChars .tuple (suffix :: rest)) = true := rfl
    rw [ArgumentType.ofChars, if_pos (Or.inr hmark)]
    rfl

theorem ofText_any (h : name ≠ .tuple) :
    ArgumentType.ofText (typeText name [.any]) = .ok (.array (String.ofList name.chars)) := by
  rw [ofText_typeText]
  have htuple : ¬tupleWord <+: typeChars name [.any] := mt tupleWord_prefix_iff.mp h
  exact ArgumentType.ofChars_append_any (bracket_notMem_chars name) htuple

/-- Values of a type with one set length are read as lists, unless that has too many digits. -/
theorem ofText_exactly (h : name ≠ .tuple) (n : Nat) :
    (∃ k, ArgumentType.ofText (typeText name [.exactly n]) =
      .ok (.fixedArray (String.ofList name.chars) k)) ∨
    ArgumentType.ofText (typeText name [.exactly n]) = .error .numeralTooLong := by
  have hchars : typeChars name [.exactly n] =
      name.chars ++ '[' :: (Numeral.digitsOf n ++ [']']) := by
    simp [typeChars, Suffix.chars, Suffix.digits]
  have htuple : ¬tupleWord <+: typeChars name [.exactly n] := mt tupleWord_prefix_iff.mp h
  rw [hchars] at htuple
  have hname : name.chars ≠ [] := by cases name <;> simp [TypeName.chars, TypeName.word]
  have hdigits : Numeral.digitsOf n ≠ [] := Nat.toDigits_ne_nil
  have hdecimal : ∀ c ∈ Numeral.digitsOf n, Text.isDecimal c = true :=
    (Suffix.exactly n).isDecimal_of_mem_digits
  rw [ofText_typeText, hchars, ArgumentType.ofChars_append_exactly hname (line_notMem_chars name)
    (bracket_notMem_chars name) hdigits hdecimal htuple]
  split
  next k => exact Or.inl ⟨_, rfl⟩
  next => exact Or.inr rfl

/-- Values of a type with a suffix are read as lists, unless its only length has too many digits. -/
theorem isList_or_tooLong (name : TypeName) (hsome : suffixes ≠ []) :
    (∃ way, ArgumentType.ofText (typeText name suffixes) = .ok way ∧ IsList way) ∨
      .any ∉ suffixes ∧
        ArgumentType.ofText (typeText name suffixes) = .error .numeralTooLong := by
  by_cases hname : name = .tuple
  · exact Or.inl ⟨_, ofText_nested (Or.inr ⟨hname, hsome⟩), trivial⟩
  · match suffixes, hsome with
    | [.any], _ => exact Or.inl ⟨_, ofText_any hname, trivial⟩
    | [.exactly n], _ =>
        rcases ofText_exactly hname n with ⟨k, hk⟩ | hlong
        · exact Or.inl ⟨_, hk, trivial⟩
        · exact Or.inr ⟨by simp, hlong⟩
    | _ :: _ :: _, _ => exact Or.inl ⟨_, ofText_nested (Or.inl (by simp)), trivial⟩

end Ways

/-- Without suffixes the rough kind is the word of the name, which is that of values without parts
or of tuples. -/
theorem kindAgrees_nil (name : TypeName) : KindAgrees name [] := by
  have hkind : typeCategory (typeText name []) = name.word := by
    rw [typeCategory_eq, if_pos (Or.inr rfl)]
  rw [KindAgrees, hkind, TypeName.word_eq_tuple_iff]
  have harray : ¬name.word = "array" := name.word_ne_array
  by_cases hname : name = .tuple
  · subst hname
    exact ⟨_, ofText_tuple, iff_of_false harray id, iff_of_true rfl ⟨_, rfl⟩, fun _ => rfl⟩
  · refine ⟨_, ofText_name hname, iff_of_false harray id, iff_of_false hname ?_, fun _ => rfl⟩
    rintro ⟨_, h⟩
    cases h

/-- The rough kind of a type agrees with the reading of its values exactly when the type is no
array, or the first letters of its name do not tell its kind and some suffix sets no length. -/
theorem kindAgrees_iff (name : TypeName) (suffixes : List Suffix) :
    KindAgrees name suffixes ↔
      suffixes = [] ∨ name.isLeading = false ∧ .any ∈ suffixes := by
  by_cases hsome : suffixes = []
  · subst hsome
    exact iff_of_true (kindAgrees_nil name) (Or.inl rfl)
  rw [or_iff_right hsome, ← typeCategory_eq_array_iff]
  rcases isList_or_tooLong name hsome with ⟨way, hway, hlist⟩ | ⟨hlong, herror⟩
  · constructor
    · rintro ⟨way', hway', harray, -, -⟩
      cases hway.symm.trans hway'
      exact harray.mpr hlist
    · intro harray
      have hkind : ¬typeCategory (typeText name suffixes) = "tuple" := typeCategory_ne_tuple hsome
      refine ⟨way, hway, iff_of_true harray hlist, iff_of_false hkind ?_, ?_⟩
      · rintro ⟨text, rfl⟩
        exact hlist
      · rintro ⟨text, rfl⟩
        exact hlist.elim
  · constructor
    · rintro ⟨way, hway, -⟩
      cases herror.symm.trans hway
    · intro harray
      exact absurd (typeCategory_eq_array_iff.mp harray).2 hlong

/-- An array of integers is of the kind of integers, while its values are read as a list. -/
theorem not_forall_kindAgrees : ¬∀ name suffixes, KindAgrees name suffixes := by
  intro h
  obtain ⟨way, hway, harray, -, -⟩ := h (.uint 256) [.any]
  have hkind : typeCategory (typeText (.uint 256) [.any]) ≠ "array" := by decide
  cases hway
  exact hkind (harray.mpr trivial)

end Abi

end ContractBench
