import ContractBench.Proofs.Argument.TypeReading
import ContractBench.Proofs.Numeral

/-! # Arrays of integers

The types of integers of 256 bits with any array suffixes: how the reading of arguments tells them
apart by their number of brackets, and how the suffixes come off again where arguments are brought
into form.
-/

namespace ContractBench.Argument

open Encoding

/-- The types of integers. -/
inductive IntegerType where
  | signed
  | unsigned
deriving DecidableEq, Repr

namespace IntegerType

def word : IntegerType → List Char
  | signed => "int256".toList
  | unsigned => "uint256".toList

/-- Whether an integer is in the range of a type. -/
def Holds : IntegerType → Int → Prop
  | signed, n => -(Nat.pow 2 255 : Int) ≤ n ∧ n < Nat.pow 2 255
  | unsigned, n => 0 ≤ n ∧ n < Nat.pow 2 256

theorem Holds.print? {type : IntegerType} {n : Int} (h : type.Holds n) :
    Numeral.print? n = some (Numeral.print n) := by
  have hhalf : Nat.pow 2 255 ≤ Nat.pow 2 256 := by decide
  apply Numeral.print?_of_natAbs_le
  cases type <;> simp only [Holds] at h <;> omega

end IntegerType

/-- An array suffix: with any length, or with a set one. -/
inductive Suffix where
  | any
  | exactly (length : Nat)
deriving DecidableEq, Repr

namespace Suffix

def digits : Suffix → List Char
  | any => []
  | exactly length => Numeral.digitsOf length

def chars (suffix : Suffix) : List Char := '[' :: (suffix.digits ++ [']'])

/-- Whether arrays of a length fit. A set length has to be one that can be written. -/
def Fits : Suffix → Nat → Prop
  | any, _ => True
  | exactly length, n => length = n ∧ Numeral.print? length = some (Numeral.print length)

theorem isDigit_of_mem_digits {suffix : Suffix} {c : Char} (h : c ∈ suffix.digits) :
    c.isDigit = true := by
  cases suffix with
  | any => cases h
  | exactly length => exact Numeral.isDigit_of_mem_digitsOf h

theorem isDecimal_of_mem_digits {suffix : Suffix} :
    ∀ c ∈ suffix.digits, Text.isDecimal c = true := by
  intro c hc
  simp [Text.isDecimal, Text.digitValue?, isDigit_of_mem_digits hc]

theorem count_chars (suffix : Suffix) : suffix.chars.count '[' = 1 := by
  have hdigits : suffix.digits.count '[' = 0 := by
    rw [List.count_eq_zero]
    intro h
    exact absurd (isDigit_of_mem_digits h) (by decide)
  rw [chars, List.count_cons_self, List.count_append, hdigits]
  rfl

end Suffix

/-- The text of an integer type with array suffixes. The outermost comes first here and last in the
text. -/
def suffixed (type : IntegerType) : List Suffix → List Char
  | [] => type.word
  | suffix :: suffixes => suffixed type suffixes ++ suffix.chars

section Characters

variable {type : IntegerType} {suffix : Suffix} {suffixes : List Suffix} {c : Char}

theorem not_blank_of_mem_chars (h : c ∈ suffix.chars) : Text.isBlank c = false := by
  rcases List.mem_cons.mp h with rfl | h
  · decide
  rcases List.mem_append.mp h with h | h
  · have hdigit := Suffix.isDigit_of_mem_digits h
    exact Numeral.not_blank_of_mem_signs (Numeral.mem_signs_of_isDigit hdigit)
  · obtain rfl := List.mem_singleton.mp h
    decide

theorem not_blank_of_mem_suffixed (h : c ∈ suffixed type suffixes) : Text.isBlank c = false := by
  induction suffixes with
  | nil =>
      have hword : ∀ c ∈ type.word, Text.isBlank c = false := by cases type <;> decide
      exact hword c h
  | cons suffix suffixes ih =>
      rcases List.mem_append.mp h with h | h
      · exact ih h
      · exact not_blank_of_mem_chars h

theorem trim_suffixed (type : IntegerType) (suffixes : List Suffix) :
    Text.trim (suffixed type suffixes) = suffixed type suffixes :=
  Text.trim_of_unblank fun _ hc => not_blank_of_mem_suffixed hc

theorem line_notMem_suffixed (type : IntegerType) (suffixes : List Suffix) :
    '\n' ∉ suffixed type suffixes := by
  intro h
  exact absurd (not_blank_of_mem_suffixed h) (by decide)

theorem word_prefix_suffixed (type : IntegerType) (suffixes : List Suffix) :
    type.word <+: suffixed type suffixes := by
  induction suffixes with
  | nil => exact List.prefix_refl _
  | cons suffix suffixes ih => exact ih.trans (List.prefix_append _ _)

theorem exists_suffixed_eq_cons (type : IntegerType) (suffixes : List Suffix) :
    ∃ c cs, suffixed type suffixes = c :: cs ∧ (c = 'i' ∨ c = 'u') := by
  obtain ⟨rest, hrest⟩ := word_prefix_suffixed type suffixes
  rw [← hrest]
  cases type with
  | signed => exact ⟨'i', _, rfl, Or.inl rfl⟩
  | unsigned => exact ⟨'u', _, rfl, Or.inr rfl⟩

/-- No integer type is taken for a tuple. -/
theorem not_tupleWord_prefix (type : IntegerType) (suffixes : List Suffix) (rest : List Char) :
    ¬('t' :: rest) <+: suffixed type suffixes := by
  intro h
  obtain ⟨c, cs, hcs, hc⟩ := exists_suffixed_eq_cons type suffixes
  rw [hcs, List.cons_prefix_cons] at h
  rcases hc with rfl | rfl <;> exact absurd h.1 (by decide)

theorem count_suffixed (type : IntegerType) (suffixes : List Suffix) :
    (suffixed type suffixes).count '[' = suffixes.length := by
  induction suffixes with
  | nil => cases type <;> decide
  | cons suffix suffixes ih =>
      rw [suffixed, List.count_append, ih, suffix.count_chars, List.length_cons]

end Characters

section Depth

theorem arrayItem?_word (type : IntegerType) : arrayItem? type.word = none :=
  arrayItem?_eq_none_of_notMem (line_notMem_suffixed type []) (by cases type <;> decide)

/-- The suffixes come off from the outermost, which is the last of the text. -/
theorem withoutArrays_suffixed (type : IntegerType) (suffixes : List Suffix) {fuel : Nat}
    (hfuel : suffixes.length ≤ fuel) :
    withoutArrays fuel (suffixed type suffixes) = (type.word, suffixes.length) := by
  induction suffixes generalizing fuel with
  | nil => exact withoutArrays_of_none (arrayItem?_word type) fuel
  | cons suffix suffixes ih =>
      cases fuel with
      | zero => cases hfuel
      | succ fuel =>
          have hitem : arrayItem? (suffixed type (suffix :: suffixes)) =
              some (suffixed type suffixes) :=
            arrayItem?_append (line_notMem_suffixed type suffixes) Suffix.isDecimal_of_mem_digits
          rw [withoutArrays, hitem]
          simp only [ih (Nat.le_of_succ_le_succ hfuel), List.length_cons]

theorem length_le_length_suffixed (type : IntegerType) (suffixes : List Suffix) :
    suffixes.length ≤ (suffixed type suffixes).length := by
  rw [← count_suffixed type suffixes]
  exact List.count_le_length

end Depth

section Ways

/-- The name of a type with its suffixes. -/
def named (type : IntegerType) (suffixes : List Suffix) : String :=
  String.ofList (suffixed type suffixes)

variable {type : IntegerType} {suffixes : List Suffix}

theorem ofText_named (type : IntegerType) (suffixes : List Suffix) :
    ArgumentType.ofText (named type suffixes) = ArgumentType.ofChars (suffixed type suffixes) := by
  rw [ArgumentType.ofText, named, String.toList_ofList, trim_suffixed]

theorem ofText_scalar (type : IntegerType) :
    ArgumentType.ofText (named type []) = .ok (.scalar (named type [])) := by
  rw [ofText_named]
  cases type <;> rfl

theorem ofText_array (type : IntegerType) :
    ArgumentType.ofText (named type [.any]) = .ok (.array (named type [])) := by
  rw [ofText_named]
  cases type <;> rfl

theorem ofText_fixedArray (type : IntegerType) {length : Nat}
    (hlength : Numeral.print? length = some (Numeral.print length)) :
    ArgumentType.ofText (named type [.exactly length]) =
      .ok (.fixedArray (named type []) length) := by
  have hword : '[' ∉ type.word := by cases type <;> decide
  have hline : '\n' ∉ type.word := line_notMem_suffixed type []
  have hdigits : Numeral.digitsOf length ≠ [] := Nat.toDigits_ne_nil
  have hnumber : Numeral.decimal? (String.ofList (Numeral.digitsOf length)) = some (length : Int) :=
    Numeral.decimal?_of_print? hlength
  have htuple := not_tupleWord_prefix type [.exactly length] ['u', 'p', 'l', 'e']
  have hread := ArgumentType.ofChars_append_exactly (by cases type <;> decide) hline hword hdigits
    (Suffix.exactly length).isDecimal_of_mem_digits htuple
  rw [hnumber] at hread
  rw [ofText_named]
  exact hread

theorem ofText_nested (type : IntegerType) (hnested : 1 < suffixes.length) :
    ArgumentType.ofText (named type suffixes) = .ok (.nested (named type suffixes)) := by
  rw [ofText_named]
  exact ArgumentType.ofChars_of_brackets (by rwa [count_suffixed])

end Ways

end ContractBench.Argument
