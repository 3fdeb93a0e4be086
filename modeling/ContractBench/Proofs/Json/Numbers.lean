import ContractBench.Json.Reader
import ContractBench.Json.Writer
import ContractBench.Proofs.Numeral

/-! # Written numbers

A whole number is written in decimal digits, and is read back where a list, a table or the text
closes behind it.
-/

namespace ContractBench.Json

/-- Whether nothing follows that could belong to a value: a comma, the end of a list or a table, or
nothing at all. -/
def Closes (rest : List Nat) : Prop := ∀ n ∈ rest.head?, n = comma ∨ n = listEnd ∨ n = tableEnd

section Digits

variable {c : Char} {cs : List Char} {rest : List Nat}

theorem isDigit_toNat : isDigit c.toNat = c.isDigit := by
  simp only [isDigit, zero, Char.isDigit, ge_iff_le, UInt32.le_iff_toNat_le]
  change (decide (48 ≤ c.toNat) && decide (c.toNat < 58)) =
    (decide (48 ≤ c.toNat) && decide (c.toNat ≤ 57))
  rw [decide_eq_decide.mpr Nat.lt_succ_iff]

theorem digitsValue_map (cs : List Char) :
    digitsValue (cs.map Char.toNat) = Nat.ofDigitChars 10 cs 0 := by
  have hfold : ∀ value, (cs.map Char.toNat).foldl (fun n d => n * 10 + (d - zero)) value =
      Nat.ofDigitChars 10 cs value := by
    induction cs with
    | nil => exact fun value => rfl
    | cons c cs ih =>
        intro value
        rw [List.map_cons, List.foldl_cons, ih, Nat.ofDigitChars_cons, Nat.mul_comm 10]
        rfl
  exact hfold 0

theorem digitsValue_digitsOf (n : Nat) :
    digitsValue ((Numeral.digitsOf n).map Char.toNat) = n := by
  rw [digitsValue_map, Numeral.digitsOf, Nat.ofDigitChars_toDigits (by decide) (by decide)]

theorem Closes.head_ne (h : Closes rest) {n : Nat} (hn : n ∈ rest.head?) :
    isDigit n = false ∧ n ≠ point ∧ n ≠ 'e'.toNat ∧ n ≠ 'E'.toNat := by
  rcases h n hn with rfl | rfl | rfl <;> decide

/-- Digits are taken up to what closes. -/
theorem span_digits (h : ∀ c ∈ cs, c.isDigit = true) (hrest : Closes rest) :
    (cs.map Char.toNat ++ rest).span isDigit = (cs.map Char.toNat, rest) := by
  have hdigits : ∀ n ∈ cs.map Char.toNat, isDigit n = true := by
    intro n hn
    obtain ⟨c, hc, rfl⟩ := List.mem_map.mp hn
    rw [isDigit_toNat]
    exact h c hc
  exact Text.span_append hdigits fun n hn => (hrest.head_ne hn).1

theorem fraction?_of_closes (h : Closes rest) : fraction? rest = none := by
  unfold fraction?
  split
  next => exact absurd rfl (h.head_ne rfl).2.1
  next => rfl

theorem exponent?_of_closes (h : Closes rest) : exponent? rest = none := by
  unfold exponent?
  split
  next =>
    obtain ⟨-, -, hsmall, hlarge⟩ := h.head_ne rfl
    exact if_neg (not_or.mpr ⟨hsmall, hlarge⟩)
  next => rfl

end Digits

section Numbers

variable {n : Nat} {rest : List Nat}

theorem wholeDigits?_digitsOf (hrest : Closes rest) :
    wholeDigits? ((Numeral.digitsOf n).map Char.toNat ++ rest) =
      some ((Numeral.digitsOf n).map Char.toNat, rest) := by
  have hdigits : ∀ c ∈ Numeral.digitsOf n, c.isDigit = true :=
    fun c hc => Numeral.isDigit_of_mem_digitsOf hc
  rcases Nat.eq_zero_or_pos n with rfl | hpos
  · rfl
  · have hspan := span_digits hdigits hrest
    have hfirst := Numeral.head?_digitsOf hpos
    obtain ⟨c, cs, hcs, -⟩ := Numeral.exists_digitsOf n
    rw [hcs] at hspan hfirst ⊢
    unfold wholeDigits?
    split
    next heq => exact absurd (congrArg some (Char.toNat_inj.mp (List.cons.inj heq).1)) hfirst
    next =>
      rw [hspan]
      rfl

theorem readNumber_digitsOf (hrest : Closes rest)
    (hlength : (Numeral.digitsOf n).length ≤ Numeral.longest) (start : List Nat) (negative : Bool) :
    readNumber start negative ((Numeral.digitsOf n).map Char.toNat ++ rest) =
      .ok (.int (Numeral.withSign negative n), rest) := by
  unfold readNumber
  rw [wholeDigits?_digitsOf hrest]
  simp only [fraction?_of_closes hrest, exponent?_of_closes hrest, Option.map_none,
    Option.getD_none, List.length_map, if_neg (Nat.not_lt.mpr hlength), digitsValue_digitsOf]

/-- No word has a digit among its first two signs. -/
theorem first_of_word : ∀ word ∈ words, 2 ≤ (Text.points word.1).length ∧
    ∀ n ∈ (Text.points word.1).take 2, isDigit n = false := by
  decide

theorem word?_of_digit {ns : List Nat} {d : Nat} (hmem : d ∈ ns.take 2)
    (hdigit : isDigit d = true) : word? ns = none := by
  rw [word?, List.findSome?_eq_none_iff]
  intro word hword
  obtain ⟨hlength, hfirst⟩ := first_of_word word hword
  rw [Option.map_eq_none_iff, Option.eq_none_iff_forall_ne_some]
  intro rest hafter
  rw [Text.eq_append_of_afterPrefix? hafter, List.take_append_of_le_length hlength] at hmem
  simp [hfirst d hmem] at hdigit

/-- The first sign of a written number is a minus or a digit. -/
theorem exists_print (i : Int) :
    ∃ c cs, (Numeral.print i).toList = c :: cs ∧ c ∈ Numeral.signs := by
  obtain ⟨c, cs, hcs⟩ := List.exists_cons_of_ne_nil (Numeral.print_ne_nil i)
  exact ⟨c, cs, hcs, Numeral.mem_signs_of_mem_print (hcs ▸ List.mem_cons_self)⟩

theorem word?_print (i : Int) (rest : List Nat) :
    word? ((Numeral.print i).toList.map Char.toNat ++ rest) = none := by
  obtain ⟨c, cs, hcs, hdigit⟩ := Numeral.exists_digitsOf i.natAbs
  rw [← isDigit_toNat] at hdigit
  apply word?_of_digit ?_ hdigit
  rw [Numeral.toList_print, hcs]
  split <;> simp

theorem readPlain_print {i : Int} (hrest : Closes rest)
    (hlength : (Numeral.digitsOf i.natAbs).length ≤ Numeral.longest) :
    readPlain ((Numeral.print i).toList.map Char.toNat ++ rest) = .ok (.int i, rest) := by
  have hvalue := Numeral.withSign_natAbs i
  unfold readPlain
  rw [word?_print]
  by_cases hi : i < 0
  · rw [Numeral.toList_print, if_pos hi]
    rw [decide_eq_true hi] at hvalue
    refine (readNumber_digitsOf hrest hlength _ true).trans ?_
    rw [hvalue]
  · rw [Numeral.toList_print, if_neg hi, List.nil_append]
    rw [decide_eq_false hi] at hvalue
    dsimp only
    split
    next heq =>
      -- No digit is a minus sign.
      obtain ⟨c, cs, hcs, hdigit⟩ := Numeral.exists_digitsOf i.natAbs
      rw [hcs] at heq
      rw [← isDigit_toNat, (List.cons.inj heq).1] at hdigit
      cases hdigit
    next => rw [readNumber_digitsOf hrest hlength, hvalue]

/-- A whole number is read as the plain value that it is. -/
theorem readValue_print {i : Int} (hrest : Closes rest)
    (hlength : (Numeral.digitsOf i.natAbs).length ≤ Numeral.longest) (fuel : Nat) :
    readValue (fuel + 1) ((Numeral.print i).toList.map Char.toNat ++ rest) =
      .ok (.int i, rest) := by
  rw [← readPlain_print hrest hlength]
  obtain ⟨c, cs, hcs, hc⟩ := exists_print i
  have hsign : ∀ c ∈ Numeral.signs,
      c.toNat ≠ quote ∧ c.toNat ≠ listStart ∧ c.toNat ≠ tableStart := by
    decide
  obtain ⟨hquote, hlist, htable⟩ := hsign c hc
  rw [hcs, List.map_cons, List.cons_append]
  unfold readValue
  split
  next heq => exact absurd (List.cons.inj heq).1 hquote
  next heq => exact absurd (List.cons.inj heq).1 hlist
  next heq => exact absurd (List.cons.inj heq).1 htable
  next => rfl

end Numbers

end ContractBench.Json
