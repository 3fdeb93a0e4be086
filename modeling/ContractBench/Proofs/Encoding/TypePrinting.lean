import ContractBench.Encoding.TypeText
import ContractBench.Proofs.Numeral
import Mathlib.Data.List.TakeDrop
import Mathlib.Data.List.TakeWhile

/-! # Printed types

The texts of the grammar of types are those that types are printed as: a type of the grammar is read
back from its text, and nothing else is read as it.
-/

namespace ContractBench.Encoding

open Text (isWord)

namespace Sizes

def chars : Sizes → List Char
  | none => []
  | one n => Numeral.digitsOf n
  | two n m => Numeral.digitsOf n ++ 'x' :: Numeral.digitsOf m

/-- No size is zero. -/
def Positive : Sizes → Prop
  | none => True
  | one n => 0 < n
  | two n m => 0 < n ∧ 0 < m

instance : DecidablePred Positive
  | none => inferInstanceAs (Decidable True)
  | one n => inferInstanceAs (Decidable (0 < n))
  | two n m => inferInstanceAs (Decidable (0 < n ∧ 0 < m))

end Sizes

namespace TypeSyntax

section Definitions

/-- The text of an array length. -/
def lengthChars (length? : Option Nat) : List Char :=
  '[' :: ((length?.map Numeral.digitsOf).getD [] ++ [']'])

mutual

/-- The text of a type. -/
def print : TypeSyntax → List Char
  | basic word sizes => word.toList ++ sizes.chars
  | tuple components => '(' :: ([','].intercalate (printEach components) ++ [')'])
  | array item => item.print ++ lengthChars none
  | fixedArray item length => item.print ++ lengthChars (some length)

def printEach : List TypeSyntax → List (List Char)
  | [] => []
  | component :: components => component.print :: printEach components

end

/-- The types of the grammar: words are made of letters, tuples have components, and no number is
zero. -/
inductive WellFormed : TypeSyntax → Prop
  | basic {word : String} {sizes : Sizes} (hsome : word.toList ≠ [])
      (hword : ∀ c ∈ word.toList, isLetter c = true) (hsizes : sizes.Positive) :
      WellFormed (.basic word sizes)
  | tuple {components : List TypeSyntax} (hsome : components ≠ [])
      (hcomponents : ∀ c ∈ components, WellFormed c) : WellFormed (.tuple components)
  | array {item : TypeSyntax} (hitem : WellFormed item) : WellFormed (.array item)
  | fixedArray {item : TypeSyntax} {length : Nat} (hitem : WellFormed item)
      (hlength : 0 < length) : WellFormed (.fixedArray item length)

theorem printEach_eq_map (components : List TypeSyntax) :
    printEach components = components.map print := by
  induction components with
  | nil => rfl
  | cons component components ih => rw [printEach, ih, List.map_cons]

@[simp]
theorem print_arrayOf (item : TypeSyntax) (length? : Option Nat) :
    (arrayOf item length?).print = item.print ++ lengthChars length? := by
  cases length? <;> rw [arrayOf, print]

theorem wellFormed_arrayOf_iff {item : TypeSyntax} {length? : Option Nat} :
    (arrayOf item length?).WellFormed ↔ item.WellFormed ∧ length? ≠ some 0 := by
  cases length? with
  | none =>
      refine ⟨fun h => ?_, fun h => .array h.1⟩
      cases h with
      | array hitem => exact ⟨hitem, nofun⟩
  | some length =>
      refine ⟨fun h => ?_, fun ⟨hitem, hlength⟩ => .fixedArray hitem ?_⟩
      · cases h with
        | fixedArray hitem hlength => exact ⟨hitem, fun h => hlength.ne' (Option.some.inj h)⟩
      · exact Nat.pos_of_ne_zero fun h => hlength (congrArg some h)

end Definitions

section Numbers

variable {cs rest : List Char} {n : Nat}

theorem number?_digitsOf (hn : 0 < n) (hrest : ∀ c ∈ rest.head?, c.isDigit = false) :
    number? (Numeral.digitsOf n ++ rest) = some (n, rest) := by
  have hdigits : ∀ c ∈ Numeral.digitsOf n, c.isDigit = true :=
    fun c hc => Numeral.isDigit_of_mem_digitsOf hc
  have hspan := Text.span_append hdigits hrest
  have hvalue : Nat.ofDigitChars 10 (Numeral.digitsOf n) 0 = n := Nat.ofDigitChars_ten_toDigits
  have hfirst := Numeral.head?_digitsOf hn
  unfold number?
  rw [hspan]
  split
  next heq => exact absurd (Prod.mk.inj heq).1 Nat.toDigits_ne_nil
  next heq => exact absurd (by rw [(Prod.mk.inj heq).1]; rfl) hfirst
  next heq =>
    cases heq
    rw [Numeral.foldl_eq_ofDigitChars, hvalue]

theorem number?_of_not_digit (hrest : ∀ c ∈ rest.head?, c.isDigit = false) :
    number? rest = none := by
  have hspan : ([] ++ rest).span Char.isDigit = ([], rest) := Text.span_append nofun hrest
  rw [List.nil_append] at hspan
  rw [number?, hspan]

/-- A number is read of the digits that it is written with. -/
theorem eq_of_number? (h : number? cs = some (n, rest)) :
    0 < n ∧ cs = Numeral.digitsOf n ++ rest := by
  unfold number? at h
  split at h
  next => cases h
  next => cases h
  next digits more hsome hzero hspan =>
    cases h
    rw [List.span_eq_takeWhile_dropWhile] at hspan
    obtain ⟨hdigits, hmore⟩ := Prod.mk.inj hspan
    have hall : ∀ c ∈ digits, c.isDigit = true := by
      rw [← hdigits]
      exact fun c hc => List.mem_takeWhile_imp hc
    have hfirst : digits.head? ≠ some '0' := by
      intro hhead
      obtain ⟨ds, rfl⟩ := List.head?_eq_some_iff.mp hhead
      exact hzero ds rfl
    obtain ⟨hpos, hwritten⟩ := Numeral.digitsOf_ofDigitChars hall hsome hfirst
    rw [Numeral.foldl_eq_ofDigitChars]
    refine ⟨hpos, ?_⟩
    rw [hwritten, ← hdigits, ← hmore, List.takeWhile_append_dropWhile]

end Numbers

section Boundaries

variable {c : Char} {rest : List Char}

theorem isAlphanum_of_isDigit (h : c.isDigit = true) : c.isAlphanum = true := by
  simp [Char.isAlphanum, h]

theorem isAlphanum_of_isLetter (h : isLetter c = true) : c.isAlphanum = true := by
  simp [Char.isAlphanum, show c.isAlpha = true from h]

theorem toNat_lt_of_isAlphanum (h : c.isAlphanum = true) : c.toNat < 0x80 := by
  have hranges : (decide (65 ≤ c.val ∧ c.val ≤ 90) ||
      (decide (97 ≤ c.val) && decide (c.val ≤ 122)) ||
      (decide (48 ≤ c.val) && decide (c.val ≤ 57))) = true := h
  simp only [Bool.or_eq_true, Bool.and_eq_true, decide_eq_true_eq,
    UInt32.le_iff_toNat_le] at hranges
  simp at hranges
  omega

theorem isWord_of_isAlphanum (h : c.isAlphanum = true) : isWord c = true := by
  simp [isWord, toNat_lt_of_isAlphanum h, h]

/-- Nothing that a word could go on with stands at the front. -/
def Bounded (rest : List Char) : Prop := ∀ c ∈ rest.head?, isWord c = false

theorem bounded_cons (hc : isWord c = false) (rest : List Char) : Bounded (c :: rest) := by
  intro d hd
  cases hd
  exact hc

theorem bounded_nil : Bounded [] := nofun

/-- Nothing of a kind that words are made of stands at the front. -/
theorem Bounded.outside {p : Char → Bool} (hp : ∀ {c}, p c = true → isWord c = true)
    (hrest : Bounded rest) : ∀ c ∈ rest.head?, p c = false := by
  intro c hc
  cases hkind : p c with
  | false => rfl
  | true =>
      rw [← hrest c hc]
      exact (hp hkind).symm

theorem Bounded.not_digit (hrest : Bounded rest) : ∀ c ∈ rest.head?, c.isDigit = false :=
  hrest.outside fun h => isWord_of_isAlphanum (isAlphanum_of_isDigit h)

theorem Bounded.not_letter (hrest : Bounded rest) : ∀ c ∈ rest.head?, isLetter c = false :=
  hrest.outside fun h => isWord_of_isAlphanum (isAlphanum_of_isLetter h)

theorem not_letter_of_isDigit (h : c.isDigit = true) : isLetter c = false :=
  (by decide : ∀ c ∈ Numeral.signs, isLetter c = false) c (Numeral.mem_signs_of_isDigit h)

end Boundaries

section Sizes

variable {cs rest : List Char}

/-- The sizes are read that stand behind a word. -/
theorem sizes_chars {found : Sizes} (hfound : found.Positive) (hrest : Bounded rest) :
    sizes (found.chars ++ rest) = (found, rest) := by
  cases found with
  | none =>
      have hnone := number?_of_not_digit hrest.not_digit
      rw [Sizes.chars, List.nil_append, sizes, hnone]
  | one n =>
      have hnumber := number?_digitsOf hfound hrest.not_digit
      rw [Sizes.chars, sizes, hnumber]
      simp only
      split
      next more => exact absurd (hrest 'x' rfl) (by decide)
      next => rfl
  | two n m =>
      have hcross : ∀ c ∈ ('x' :: (Numeral.digitsOf m ++ rest)).head?, c.isDigit = false := by
        intro c hc
        cases hc
        decide
      have hfirst := number?_digitsOf hfound.1 hcross
      have hsecond := number?_digitsOf hfound.2 hrest.not_digit
      rw [Sizes.chars, List.append_assoc, List.cons_append, sizes, hfirst]
      simp only [hsecond]

/-- The sizes at the front of a text are written there. -/
theorem sizes_sound (cs : List Char) :
    (sizes cs).1.Positive ∧ cs = (sizes cs).1.chars ++ (sizes cs).2 := by
  unfold sizes
  split
  next => exact ⟨trivial, rfl⟩
  next n rest hfirst =>
    obtain ⟨hn, rfl⟩ := eq_of_number? hfirst
    split
    next more =>
      split
      next m after hsecond =>
        obtain ⟨hm, rfl⟩ := eq_of_number? hsecond
        exact ⟨⟨hn, hm⟩, by rw [Sizes.chars, List.append_assoc, List.cons_append]⟩
      next => exact ⟨hn, rfl⟩
    next => exact ⟨hn, rfl⟩

theorem head?_chars_append {found : Sizes} (hrest : Bounded rest) :
    ∀ c ∈ (found.chars ++ rest).head?, isLetter c = false := by
  have hdigits (n : Nat) (more : List Char) :
      ∀ c ∈ (Numeral.digitsOf n ++ more).head?, isLetter c = false := by
    obtain ⟨d, ds, hds, hd⟩ := Numeral.exists_digitsOf n
    intro c hc
    rw [hds] at hc
    cases hc
    exact not_letter_of_isDigit hd
  cases found with
  | none => exact hrest.not_letter
  | one n => exact hdigits n rest
  | two n m =>
      rw [Sizes.chars, List.append_assoc]
      exact hdigits n _

end Sizes

section Lengths

variable {cs rest : List Char} {length? : Option Nat} {type : TypeSyntax}

theorem brackets?_lengthChars (hlength : length? ≠ some 0) (rest : List Char) :
    brackets? (lengthChars length? ++ rest) = some (length?, rest) := by
  cases length? with
  | none => rfl
  | some length =>
      have hpos : 0 < length := Nat.pos_of_ne_zero fun h => hlength (congrArg some h)
      have hclose : ∀ c ∈ (']' :: rest).head?, c.isDigit = false := by
        intro c hc
        cases hc
        decide
      have hnumber := number?_digitsOf hpos hclose
      have hchars : lengthChars (some length) ++ rest =
          '[' :: (Numeral.digitsOf length ++ ']' :: rest) := by simp [lengthChars]
      rw [hchars]
      unfold brackets?
      split
      next more heq =>
        -- A length begins with a digit, and not with the bracket behind it.
        have hdigits := (List.cons.inj heq).2
        obtain ⟨d, ds, hds, hd⟩ := Numeral.exists_digitsOf length
        rw [hds, List.cons_append] at hdigits
        rw [(List.cons.inj hdigits).1] at hd
        exact absurd hd (by decide)
      next more _ heq =>
        rw [← (List.cons.inj heq).2, hnumber]
        rfl
      next hother => exact absurd rfl (hother _)

theorem eq_of_brackets? (h : brackets? cs = some (length?, rest)) :
    length? ≠ some 0 ∧ cs = lengthChars length? ++ rest := by
  unfold brackets? at h
  split at h
  next =>
    cases h
    exact ⟨nofun, rfl⟩
  next =>
    split at h
    next hnumber =>
      cases h
      obtain ⟨hpos, hcs⟩ := eq_of_number? hnumber
      exact ⟨fun h => hpos.ne' (Option.some.inj h), by simp [lengthChars, hcs]⟩
    next => cases h
  next => cases h

theorem arrays_lengthChars (hlength : length? ≠ some 0) (type : TypeSyntax) (rest : List Char)
    (fuel : Nat) :
    arrays (fuel + 1) type (lengthChars length? ++ rest) =
      arrays fuel (arrayOf type length?) rest := by
  rw [arrays, brackets?_lengthChars hlength]

theorem arrays_of_head? (hrest : rest.head? ≠ some '[') (type : TypeSyntax) (fuel : Nat) :
    arrays fuel type rest = (type, rest) := by
  cases fuel with
  | zero => rfl
  | succ fuel =>
      have hnone : brackets? rest = none := by
        unfold brackets?
        split
        next => exact absurd rfl hrest
        next => exact absurd rfl hrest
        next => rfl
      rw [arrays, hnone]

/-- Array lengths are read on behind a type. -/
theorem arrays_sound (fuel : Nat) (htype : type.WellFormed) (cs : List Char) :
    (arrays fuel type cs).1.WellFormed ∧
      type.print ++ cs = (arrays fuel type cs).1.print ++ (arrays fuel type cs).2 := by
  induction fuel generalizing type cs with
  | zero => exact ⟨htype, rfl⟩
  | succ fuel ih =>
      rw [arrays]
      split
      next length? rest hbrackets =>
        obtain ⟨hlength, rfl⟩ := eq_of_brackets? hbrackets
        obtain ⟨hall, hprint⟩ := ih (wellFormed_arrayOf_iff.mpr ⟨htype, hlength⟩) rest
        refine ⟨hall, ?_⟩
        rw [← hprint, print_arrayOf, List.append_assoc]
      next => exact ⟨htype, rfl⟩

end Lengths

section Reading

variable {type : TypeSyntax} {components : List TypeSyntax} {cs rest : List Char} {fuel : Nat}

/-- A type is read of its text, in front of whatever no word goes on with. Array lengths that follow
are read on. -/
def Reads (type : TypeSyntax) : Prop :=
  ∀ (fuel : Nat) (rest : List Char), type.print.length ≤ fuel → Bounded rest →
    ∃ k, rest.length ≤ k ∧ readType fuel (type.print ++ rest) = some (arrays k type rest)

theorem reads_basic {word : String} {found : Sizes} (hsome : word.toList ≠ [])
    (hword : ∀ c ∈ word.toList, isLetter c = true) (hfound : found.Positive) :
    Reads (.basic word found) := by
  intro fuel rest hfuel hrest
  obtain ⟨c, letters, hletters⟩ := List.exists_cons_of_ne_nil hsome
  have hbehind : ∀ c ∈ (found.chars ++ rest).head?, isLetter c = false := head?_chars_append hrest
  have hspan := Text.span_append hword hbehind
  have hsizes := sizes_chars hfound hrest
  obtain ⟨fuel, rfl⟩ : ∃ m, fuel = m + 1 := by
    refine Nat.exists_eq_succ_of_ne_zero ?_
    rintro rfl
    rw [print, hletters] at hfuel
    cases hfuel
  refine ⟨((basic word found).print ++ rest).length, by simp, ?_⟩
  rw [print, List.append_assoc]
  unfold readType
  split
  next more heq =>
    rw [hletters, List.cons_append] at heq
    have hparenthesis := hword '(' (by rw [hletters, (List.cons.inj heq).1]; simp)
    exact absurd hparenthesis (by decide)
  next =>
    rw [hspan]
    split
    next heq => exact absurd (congrArg Prod.fst heq) hsome
    next heq =>
      cases heq
      simp only [hsizes, String.ofList_toList]

theorem reads_arrayOf {length? : Option Nat} (hlength : length? ≠ some 0) (hitem : Reads type) :
    Reads (arrayOf type length?) := by
  intro fuel rest hfuel hrest
  rw [print_arrayOf, List.length_append] at hfuel
  obtain ⟨k, hk, hread⟩ := hitem fuel (lengthChars length? ++ rest) (by omega)
    (bounded_cons (by decide) _)
  rw [lengthChars, List.length_append, List.length_cons] at hk
  obtain ⟨k, rfl⟩ : ∃ m, k = m + 1 := Nat.exists_eq_succ_of_ne_zero (by omega)
  refine ⟨k, by omega, ?_⟩
  rw [print_arrayOf, List.append_assoc, hread, arrays_lengthChars hlength]

/-- The texts of components are read up to the closing parenthesis. -/
theorem readComponents_print (hsome : components ≠ []) (h : ∀ c ∈ components, Reads c)
    (rest : List Char) (hfuel : ([','].intercalate (printEach components)).length < fuel) :
    readComponents fuel ([','].intercalate (printEach components) ++ ')' :: rest) =
      some (components, rest) := by
  induction components generalizing fuel with
  | nil => exact absurd rfl hsome
  | cons first components ih =>
      obtain ⟨hfirst, hmore⟩ := List.forall_mem_cons.mp h
      obtain ⟨fuel, rfl⟩ : ∃ m, fuel = m + 1 := Nat.exists_eq_succ_of_ne_zero (by omega)
      cases components with
      | nil =>
          simp only [printEach, List.intercalate_singleton] at hfuel ⊢
          obtain ⟨k, -, hread⟩ := hfirst fuel (')' :: rest) (by omega)
            (bounded_cons (by decide) rest)
          rw [arrays_of_head? (by simp)] at hread
          rw [readComponents, hread]
          rfl
      | cons next components =>
          have hjoined : [','].intercalate (printEach (first :: next :: components)) =
              first.print ++ ',' :: [','].intercalate (printEach (next :: components)) := by
            simp [printEach, List.intercalate_cons_cons]
          rw [hjoined, List.length_append, List.length_cons] at hfuel
          obtain ⟨k, -, hread⟩ := hfirst fuel
            (',' :: ([','].intercalate (printEach (next :: components)) ++ ')' :: rest)) (by omega)
            (bounded_cons (by decide) _)
          rw [arrays_of_head? (by simp)] at hread
          have hothers := @ih fuel (List.cons_ne_nil _ _) hmore (by omega)
          rw [hjoined, List.append_assoc, List.cons_append, readComponents, hread]
          simp only [Option.bind_eq_bind, Option.bind_some, hothers]
          rfl

theorem reads_tuple (hsome : components ≠ []) (h : ∀ c ∈ components, Reads c) :
    Reads (.tuple components) := by
  intro fuel rest hfuel hrest
  rw [print, List.length_cons, List.length_append, List.length_singleton] at hfuel
  obtain ⟨fuel, rfl⟩ : ∃ m, fuel = m + 1 := Nat.exists_eq_succ_of_ne_zero (by omega)
  have hread := @readComponents_print components fuel hsome h rest (by omega)
  refine ⟨((tuple components).print ++ rest).length, by simp, ?_⟩
  rw [print, List.cons_append, List.append_assoc, List.singleton_append, readType, hread]
  rfl

theorem WellFormed.reads (h : type.WellFormed) : Reads type := by
  induction h with
  | basic hsome hword hsizes => exact reads_basic hsome hword hsizes
  | tuple hsome hcomponents ih => exact reads_tuple hsome ih
  | array hitem ih => exact @reads_arrayOf _ none nofun ih
  | fixedArray hitem hlength ih =>
      exact reads_arrayOf (fun h => hlength.ne' (Option.some.inj h)) ih

/-- A type that is read of a text is written at its front. -/
def TypesSound (fuel : Nat) : Prop :=
  ∀ cs type rest, readType fuel cs = some (type, rest) →
    type.WellFormed ∧ cs = type.print ++ rest

/-- Components that are read of a text are written at its front, up to the closing parenthesis. -/
def ComponentsSound (fuel : Nat) : Prop :=
  ∀ cs components rest, readComponents fuel cs = some (components, rest) →
    components ≠ [] ∧ (∀ c ∈ components, c.WellFormed) ∧
      cs = [','].intercalate (printEach components) ++ ')' :: rest

/-- A word is read with the sizes that follow it. -/
theorem basic_sound {letters : List Char} (hspan : cs.span isLetter = (letters, rest))
    (hsome : letters ≠ []) :
    (basic (String.ofList letters) (sizes rest).1).WellFormed ∧
      cs = (basic (String.ofList letters) (sizes rest).1).print ++ (sizes rest).2 := by
  rw [List.span_eq_takeWhile_dropWhile] at hspan
  obtain ⟨rfl, rfl⟩ := Prod.mk.inj hspan
  obtain ⟨hpositive, hsizes⟩ := sizes_sound (cs.dropWhile isLetter)
  refine ⟨.basic ?_ ?_ hpositive, ?_⟩
  · rwa [String.toList_ofList]
  · rw [String.toList_ofList]
    exact fun c hc => List.mem_takeWhile_imp hc
  · rw [print, String.toList_ofList, List.append_assoc, ← hsizes, List.takeWhile_append_dropWhile]

theorem typesSound_succ (hcomponents : ComponentsSound fuel) : TypesSound (fuel + 1) := by
  intro cs type rest h
  unfold readType at h
  split at h
  next inner =>
    obtain ⟨⟨components, after⟩, hinner, harrays⟩ := Option.bind_eq_some_iff.mp h
    obtain ⟨hsome, hall, rfl⟩ := hcomponents _ _ _ hinner
    have hsound := arrays_sound ('(' :: ([','].intercalate (printEach components) ++
      ')' :: after)).length (.tuple hsome hall) after
    rw [Option.some.inj harrays] at hsound
    refine ⟨hsound.1, ?_⟩
    rw [← hsound.2, print]
    simp
  next =>
    split at h
    next => cases h
    next letters after hsome hspan =>
      obtain ⟨hword, hcs⟩ := basic_sound hspan hsome
      generalize sizes after = found at h hword hcs
      have hsound := arrays_sound cs.length hword found.2
      rw [Option.some.inj h, ← hcs] at hsound
      exact hsound

theorem componentsSound_succ (htypes : TypesSound fuel) (hcomponents : ComponentsSound fuel) :
    ComponentsSound (fuel + 1) := by
  intro cs components rest h
  unfold readComponents at h
  obtain ⟨⟨first, after⟩, hfirst, hrest⟩ := Option.bind_eq_some_iff.mp h
  obtain ⟨hwell, rfl⟩ := htypes _ _ _ hfirst
  dsimp only at hrest
  split at hrest
  next more =>
    obtain ⟨⟨others, last⟩, hothers, hall⟩ := Option.bind_eq_some_iff.mp hrest
    cases hall
    obtain ⟨hsome, hmore, rfl⟩ := hcomponents _ _ _ hothers
    refine ⟨List.cons_ne_nil _ _, List.forall_mem_cons.mpr ⟨hwell, hmore⟩, ?_⟩
    obtain ⟨next, others, rfl⟩ := List.exists_cons_of_ne_nil hsome
    simp [printEach, List.intercalate_cons_cons]
  next more =>
    cases hrest
    refine ⟨List.cons_ne_nil _ _, List.forall_mem_singleton.mpr hwell, ?_⟩
    simp [printEach]
  next => cases hrest

/-- Whatever is read of a text is written there. -/
theorem readers_sound (fuel : Nat) : TypesSound fuel ∧ ComponentsSound fuel := by
  -- The two readers call each other, so one induction is for both.
  induction fuel with
  | zero => exact ⟨nofun, nofun⟩
  | succ fuel ih => exact ⟨typesSound_succ ih.2, componentsSound_succ ih.1 ih.2⟩

/-- A text is read as a type if it is what the type is printed as. -/
theorem ofChars?_eq_some_iff : ofChars? cs = some type ↔ type.WellFormed ∧ cs = type.print := by
  constructor
  · intro h
    unfold ofChars? at h
    split at h
    next hread =>
      cases h
      obtain ⟨hwell, hcs⟩ := (readers_sound _).1 _ _ _ hread
      exact ⟨hwell, by rwa [List.append_nil] at hcs⟩
    next => cases h
  · rintro ⟨hwell, rfl⟩
    obtain ⟨k, -, hread⟩ := hwell.reads (2 * type.print.length + 2) [] (by omega) bounded_nil
    rw [List.append_nil, arrays_of_head? (by simp)] at hread
    rw [ofChars?, hread]

/-- Types of the grammar that are printed alike are the same. -/
theorem WellFormed.print_inj {other : TypeSyntax} (h : type.WellFormed) (hother : other.WellFormed)
    (heq : type.print = other.print) : type = other := by
  have hread := ofChars?_eq_some_iff.mpr ⟨h, rfl⟩
  rw [heq, ofChars?_eq_some_iff.mpr ⟨hother, rfl⟩] at hread
  exact (Option.some.inj hread).symm

end Reading

end TypeSyntax

end ContractBench.Encoding
