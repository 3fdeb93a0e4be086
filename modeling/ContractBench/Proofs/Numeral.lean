import ContractBench.Fault
import ContractBench.Proofs.Text.Trimming

/-! # Written numbers

A number that is written in decimal digits is read back, and its text has nothing in it but digits
and a sign. One that is written in hexadecimal digits is read back in either case of the letters.
-/

namespace ContractBench.Numeral

variable {n : Nat} {i : Int} {c : Char} {cs : List Char}

theorem isDigit_of_mem_digitsOf (h : c ∈ digitsOf n) : c.isDigit = true :=
  Nat.isDigit_of_mem_toDigits (by decide) (by decide) h

/-- The characters of written numbers. -/
def signs : List Char := "-0123456789".toList

theorem mem_signs_of_isDigit (h : c.isDigit = true) : c ∈ signs := by
  simp only [Char.isDigit, Bool.and_eq_true, decide_eq_true_eq, ge_iff_le,
    UInt32.le_iff_toNat_le] at h
  obtain ⟨hlow, hhigh⟩ : 0x30 ≤ c.toNat ∧ c.toNat ≤ 0x39 := h
  have hall : ∀ n < 0x3A, 0x30 ≤ n → Char.ofNat n ∈ signs := by decide
  rw [← Char.ofNat_toNat c]
  exact hall c.toNat (Nat.lt_succ_of_le hhigh) hlow

theorem exists_digitsOf (n : Nat) : ∃ c cs, digitsOf n = c :: cs ∧ c.isDigit = true := by
  obtain ⟨c, cs, hcs⟩ := List.exists_cons_of_ne_nil (Nat.toDigits_ne_nil (b := 10) (n := n))
  exact ⟨c, cs, hcs, Nat.isDigit_of_mem_toDigits (by decide) (by decide)
    (hcs ▸ List.mem_cons_self)⟩

/-- Only zero is written with a zero at the front. -/
theorem head?_digitsOf (h : 0 < n) : (digitsOf n).head? ≠ some '0' := by
  induction n using Nat.strongRecOn with
  | ind n ih =>
      by_cases hn : n < 10
      · have hall : ∀ n < 10, 0 < n → Nat.digitChar n ≠ '0' := by decide
        rw [digitsOf, Nat.toDigits_of_lt_base hn]
        simpa using hall n hn h
      · have hfirst := ih (n / 10) (by omega) (by omega)
        rw [digitsOf, Nat.toDigits_of_base_le (by decide) (by omega),
          List.head?_append_of_ne_nil _ Nat.toDigits_ne_nil]
        exact hfirst

/-- The value of digits is that which the library gives them. -/
theorem foldl_eq_ofDigitChars (cs : List Char) (value : Nat) :
    cs.foldl (fun n d => n * 10 + (d.toNat - '0'.toNat)) value = Nat.ofDigitChars 10 cs value := by
  rw [Nat.ofDigitChars_eq_foldl]
  simp only [Nat.mul_comm]

/-- Digits without a zero at the front are those of the number that they write. -/
theorem digitsOf_ofDigitChars (hdigits : ∀ c ∈ cs, c.isDigit = true) (hsome : cs ≠ [])
    (hfirst : cs.head? ≠ some '0') :
    0 < Nat.ofDigitChars 10 cs 0 ∧ digitsOf (Nat.ofDigitChars 10 cs 0) = cs := by
  have hvalue : ∀ d ∈ signs, d.isDigit = true →
      d.toNat - '0'.toNat < 10 ∧ Nat.digitChar (d.toNat - '0'.toNat) = d ∧
        (d ≠ '0' → 0 < d.toNat - '0'.toNat) := by
    decide
  -- The last digit is split off, as it is where numbers are written.
  induction cs using List.reverseRecOn with
  | nil => exact absurd rfl hsome
  | append_singleton ds d ih =>
      have hd := hdigits d (by simp)
      obtain ⟨hlt, hchar, hpos⟩ := hvalue d (mem_signs_of_isDigit hd) hd
      have hlast (value : Nat) : Nat.ofDigitChars 10 (ds ++ [d]) value =
          10 * Nat.ofDigitChars 10 ds value + (d.toNat - '0'.toNat) := by
        rw [Nat.ofDigitChars_append, Nat.ofDigitChars_cons, Nat.ofDigitChars_nil]
      by_cases hds : ds = []
      · subst hds
        have hzero : d ≠ '0' := fun h => hfirst (congrArg some h)
        rw [hlast, Nat.ofDigitChars_nil, Nat.mul_zero, Nat.zero_add, digitsOf,
          Nat.toDigits_of_lt_base hlt, hchar]
        exact ⟨hpos hzero, rfl⟩
      · have hhead : ds.head? ≠ some '0' := by
          rwa [List.head?_append_of_ne_nil ds hds] at hfirst
        obtain ⟨hfront, hwritten⟩ :=
          ih (fun c hc => hdigits c (List.mem_append_left _ hc)) hds hhead
        rw [hlast]
        refine ⟨by omega, ?_⟩
        rw [digitsOf, ← Nat.toDigits_append_toDigits (by decide) hfront hlt,
          Nat.toDigits_of_lt_base hlt, hchar]
        exact congrArg (· ++ [d]) hwritten

theorem not_blank_of_mem_signs (h : c ∈ signs) : Text.isBlank c = false :=
  (by decide : ∀ c ∈ signs, Text.isBlank c = false) c h

theorem toList_print (i : Int) :
    (print i).toList = (if i < 0 then ['-'] else []) ++ digitsOf i.natAbs := by
  cases i with
  | ofNat n =>
      have hsign : ¬Int.ofNat n < 0 := Int.not_lt.mpr (Int.natCast_nonneg n)
      rw [print, String.toList_ofList, if_neg hsign]
      rfl
  | negSucc n =>
      rw [print, String.toList_ofList, if_pos (Int.negSucc_lt_zero n)]
      rfl

theorem mem_signs_of_mem_print (h : c ∈ (print i).toList) : c ∈ signs := by
  rw [toList_print] at h
  rcases List.mem_append.mp h with h | h
  · split at h
    · obtain rfl := List.mem_singleton.mp h
      decide
    · cases h
  · exact mem_signs_of_isDigit (isDigit_of_mem_digitsOf h)

theorem trim_print (i : Int) : Text.trim (print i).toList = (print i).toList :=
  Text.trim_of_unblank fun _ hc => not_blank_of_mem_signs (mem_signs_of_mem_print hc)

theorem print_ne_nil (i : Int) : (print i).toList ≠ [] := by
  rw [toList_print]
  exact List.append_ne_nil_of_right_ne_nil _ Nat.toDigits_ne_nil

/-- Digits are read as the number that they write. -/
theorem digitsFrom_of_digits {afterDigit : Bool} (hdigits : ∀ c ∈ cs, c.isDigit = true)
    (hsome : afterDigit = true ∨ cs ≠ []) (value : Nat) :
    digitsFrom Text.digitValue? 10 value afterDigit cs = some (Nat.ofDigitChars 10 cs value) := by
  induction cs generalizing afterDigit value with
  | nil =>
      obtain rfl := hsome.resolve_right (not_not_intro rfl)
      rfl
  | cons c cs ih =>
      obtain ⟨hc, hcs⟩ := List.forall_mem_cons.mp hdigits
      have hline : c ≠ '_' := by
        rintro rfl
        exact absurd hc (by decide)
      have hvalue : Text.digitValue? c = some (c.toNat - '0'.toNat) := by
        rw [Text.digitValue?, if_pos hc]
        rfl
      rw [digitsFrom, if_neg hline, hvalue, Nat.ofDigitChars_cons, Nat.mul_comm 10]
      exact ih hcs (Or.inl rfl) _

theorem digits?_digitsOf (n : Nat) : digits? Text.digitValue? 10 (digitsOf n) = some n := by
  have hread : digitsFrom Text.digitValue? 10 0 false (digitsOf n) = _ :=
    digitsFrom_of_digits (fun c hc => isDigit_of_mem_digitsOf hc) (Or.inr Nat.toDigits_ne_nil) 0
  rw [digits?, hread, digitsOf, Nat.ofDigitChars_toDigits (by decide) (by decide)]

/-- Decimal digits of any script are read. -/
theorem exists_digitsFrom {afterDigit : Bool} (hdigits : ∀ c ∈ cs, Text.isDecimal c = true)
    (hsome : afterDigit = true ∨ cs ≠ []) (value : Nat) :
    ∃ n, digitsFrom Text.digitValue? 10 value afterDigit cs = some n := by
  induction cs generalizing afterDigit value with
  | nil =>
      obtain rfl := hsome.resolve_right (not_not_intro rfl)
      exact ⟨value, rfl⟩
  | cons c cs ih =>
      obtain ⟨hc, hcs⟩ := List.forall_mem_cons.mp hdigits
      have hline : c ≠ '_' := by
        rintro rfl
        exact absurd hc (by decide)
      obtain ⟨d, hd⟩ := Option.isSome_iff_exists.mp hc
      rw [digitsFrom, if_neg hline, hd]
      exact ih hcs (Or.inl rfl) _

theorem isDigitLike_of_isDecimal (h : Text.isDecimal c = true) : Text.isDigitLike c = true := by
  rw [Text.isDigitLike, h, Bool.true_or]

/-- What looks like a digit is none of the other signs of a numeral. -/
theorem ne_of_isDigitLike (h : Text.isDigitLike c = true) :
    Text.isBlank c = false ∧ c ≠ '_' ∧ c ≠ '+' ∧ c ≠ '-' := by
  refine ⟨?_, ?_, ?_, ?_⟩
  · cases hblank : Text.isBlank c with
    | false => rfl
    | true =>
        have hlike : Text.isDigitLike c = false := Text.of_isBlank (by decide +kernel) hblank
        rw [hlike] at h
        cases h
  all_goals
    rintro rfl
    exact absurd h (by decide +kernel)

/-- Where something looks like a digit and has no value, no number is read. -/
theorem digitsFrom_of_not_decimal {afterDigit : Bool} (hlike : ∀ c ∈ cs, Text.isDigitLike c = true)
    (h : ∃ c ∈ cs, Text.isDecimal c = false) (value : Nat) :
    digitsFrom Text.digitValue? 10 value afterDigit cs = none := by
  induction cs generalizing afterDigit value with
  | nil => simp at h
  | cons c cs ih =>
      obtain ⟨hc, hcs⟩ := List.forall_mem_cons.mp hlike
      obtain ⟨-, hline, -⟩ := ne_of_isDigitLike hc
      rw [digitsFrom, if_neg hline]
      cases hvalue : Text.digitValue? c with
      | none => rfl
      | some d =>
          have hdecimal : Text.isDecimal c = true := by
            rw [Text.isDecimal, hvalue, Option.isSome_some]
          have hrest : ∃ c ∈ cs, Text.isDecimal c = false := by simpa [hdecimal] using h
          exact ih hcs hrest _

/-- A text of digits has no sign, and its length is that of the numeral. -/
theorem decimal?_of_digitLike (hlike : ∀ c ∈ cs, Text.isDigitLike c = true) :
    decimal? (String.ofList cs) =
      if longest < cs.length then none
      else (digits? Text.digitValue? 10 cs).map (withSign false) := by
  have htrim : Text.trim cs = cs :=
    Text.trim_of_unblank fun c hc => (ne_of_isDigitLike (hlike c hc)).1
  have hsigned : signed cs = (false, cs) := by
    unfold signed
    split
    next =>
      obtain ⟨-, -, -, hminus⟩ := ne_of_isDigitLike (hlike '-' List.mem_cons_self)
      exact absurd rfl hminus
    next =>
      obtain ⟨-, -, hplus, -⟩ := ne_of_isDigitLike (hlike '+' List.mem_cons_self)
      exact absurd rfl hplus
    next => rfl
  have hfilter : cs.filter (· != '_') = cs := by
    apply List.filter_eq_self.mpr
    intro c hc
    exact bne_iff_ne.mpr (ne_of_isDigitLike (hlike c hc)).2.1
  simp only [decimal?, String.toList_ofList, htrim, hsigned, hfilter]

/-- A text of digits is read as a number if all of them have a value and they are not too many. -/
theorem isSome_decimal?_iff (hsome : cs ≠ []) (hlike : ∀ c ∈ cs, Text.isDigitLike c = true) :
    (decimal? (String.ofList cs)).isSome = true ↔
      (∀ c ∈ cs, Text.isDecimal c = true) ∧ cs.length ≤ longest := by
  rw [decimal?_of_digitLike hlike]
  by_cases hlong : longest < cs.length
  · rw [if_pos hlong]
    exact iff_of_false nofun fun h => by omega
  · rw [if_neg hlong, Option.isSome_map, digits?]
    by_cases hdecimal : ∀ c ∈ cs, Text.isDecimal c = true
    · obtain ⟨n, hn⟩ : ∃ n, digitsFrom Text.digitValue? 10 0 false cs = some n :=
        exists_digitsFrom hdecimal (Or.inr hsome) 0
      rw [hn]
      exact iff_of_true rfl ⟨hdecimal, Nat.le_of_not_lt hlong⟩
    · have hother : ∃ c ∈ cs, Text.isDecimal c = false := by simpa using hdecimal
      rw [digitsFrom_of_not_decimal hlike hother]
      exact iff_of_false nofun fun h => hdecimal h.1

/-- Decimal digits are read as a number if there are not too many of them. -/
theorem exists_decimal? (hsome : cs ≠ []) (hdigits : ∀ c ∈ cs, Text.isDecimal c = true)
    (hlength : cs.length ≤ longest) : ∃ i, decimal? (String.ofList cs) = some i := by
  have hlike : ∀ c ∈ cs, Text.isDigitLike c = true :=
    fun c hc => isDigitLike_of_isDecimal (hdigits c hc)
  exact Option.isSome_iff_exists.mp ((isSome_decimal?_iff hsome hlike).mpr ⟨hdigits, hlength⟩)

theorem signed_print (i : Int) : signed (print i).toList = (decide (i < 0), digitsOf i.natAbs) := by
  rw [toList_print]
  by_cases hi : i < 0
  · simp [hi, signed]
  · rw [if_neg hi, List.nil_append, decide_eq_false hi]
    unfold signed
    split
    next cs heq =>
      have hminus : '-' ∈ digitsOf i.natAbs := by simp [heq]
      exact absurd (isDigit_of_mem_digitsOf hminus) (by decide)
    next cs heq =>
      have hplus : '+' ∈ digitsOf i.natAbs := by simp [heq]
      exact absurd (isDigit_of_mem_digitsOf hplus) (by decide)
    next => rfl

theorem withSign_natAbs (i : Int) : withSign (decide (i < 0)) i.natAbs = i := by
  unfold withSign
  split
  next hi =>
    have := of_decide_eq_true hi
    omega
  next hi =>
    have := of_decide_eq_false (Bool.eq_false_iff.mpr hi)
    omega

theorem print_of_print? {text : String} (h : print? i = some text) :
    text = print i ∧ (digitsOf i.natAbs).length ≤ longest := by
  unfold print? at h
  split at h
  next => cases h
  next hlength =>
    cases h
    exact ⟨rfl, by omega⟩

/-- A number is read in its digits if it may be written in them. -/
theorem decimal?_print (i : Int) : decimal? (print i) = (print? i).map fun _ => i := by
  have hfilter : (digitsOf i.natAbs).filter (· != '_') = digitsOf i.natAbs := by
    rw [List.filter_eq_self]
    intro c hc
    have hdigit := isDigit_of_mem_digitsOf hc
    rw [bne_iff_ne]
    rintro rfl
    exact absurd hdigit (by decide)
  rw [decimal?, trim_print, signed_print]
  simp only [hfilter, digits?_digitsOf, Option.map_some, withSign_natAbs, print?]
  split <;> rfl

/-- A number that is written is read back. -/
theorem decimal?_of_print? {text : String} (h : print? i = some text) : decimal? text = some i := by
  obtain ⟨rfl, -⟩ := print_of_print? h
  rw [decimal?_print, h, Option.map_some]

theorem length_digitsOf_le {k : Nat} (hpos : 0 < k) (h : n < Nat.pow 10 k) :
    (digitsOf n).length ≤ k :=
  (Nat.length_toDigits_le_iff (by decide) hpos).mpr h

theorem print?_of_natAbs_lt {k : Nat} (hpos : 0 < k) (hk : k ≤ longest)
    (h : i.natAbs < Nat.pow 10 k) : print? i = some (print i) := by
  rw [print?, if_neg (Nat.not_lt.mpr (Nat.le_trans (length_digitsOf_le hpos h) hk))]

/-- Numbers of 256 bits are written. -/
theorem print?_of_natAbs_le (h : i.natAbs ≤ Nat.pow 2 256) : print? i = some (print i) := by
  have hdigits : Nat.pow 2 256 < Nat.pow 10 78 := by decide
  exact print?_of_natAbs_lt (by decide) (by decide) (Nat.lt_of_le_of_lt h hdigits)

section Hexadecimal

/-- Digits are digits of a base. -/
theorem exists_digitChar_of_mem_toDigits {base n : Nat} {c : Char} (hbase : 1 < base)
    (h : c ∈ Nat.toDigits base n) : ∃ d < base, c = Nat.digitChar d := by
  induction n using Nat.strongRecOn with
  | ind n ih =>
      by_cases hn : n < base
      · rw [Nat.toDigits_of_lt_base hn, List.mem_singleton] at h
        exact ⟨n, hn, h⟩
      · have hle : base ≤ n := Nat.le_of_not_lt hn
        rw [Nat.toDigits_of_base_le hbase hle, List.mem_append, List.mem_singleton] at h
        rcases h with h | h
        · exact ih (n / base) (Nat.div_lt_self (by omega) hbase) h
        · exact ⟨n % base, Nat.mod_lt _ (by omega), h⟩

theorem toNat_lt_of_toLower {c : Char} (h : c.toLower.toNat < 0x80) : c.toNat < 0x80 := by
  by_cases hlarge : c.toNat < 0x80
  · exact hlarge
  · have hsame : c.toLower = c := by
      unfold Char.toLower
      rw [dif_neg]
      rintro ⟨-, hhigh⟩
      have hle : c.toNat ≤ 'Z'.toNat := UInt32.le_iff_toNat_le.mp hhigh
      have hz : 'Z'.toNat = 90 := rfl
      omega
    rwa [hsame] at h

theorem hexValue?_of_toLower {c : Char} {d : Nat} (hd : d < 16)
    (h : c.toLower = Nat.digitChar d) : Text.hexValue? c = some d ∧ c ≠ '_' := by
  have hsmall : ∀ d < 16, (Nat.digitChar d).toNat < 0x80 := by decide
  have hlt : c.toNat < 0x80 := toNat_lt_of_toLower (by rw [h]; exact hsmall d hd)
  have hall : ∀ d < 16, c.toLower = Nat.digitChar d → Text.hexValue? c = some d ∧ c ≠ '_' :=
    Text.of_ascii hlt (by decide +kernel)
  exact hall d hd h

/-- Hexadecimal digits of either case are read as the number that they write. -/
theorem digitsFrom_of_lowered {n : Nat} {cs : List Char}
    (h : cs.map Char.toLower = Nat.toDigits 16 n) (rest : List Char) :
    digitsFrom Text.hexValue? 16 0 false (cs ++ rest) =
      digitsFrom Text.hexValue? 16 n true rest := by
  have hstep {value d : Nat} {afterDigit : Bool} {c : Char} (hd : d < 16)
      (hc : c.toLower = Nat.digitChar d) (rest : List Char) :
      digitsFrom Text.hexValue? 16 value afterDigit (c :: rest) =
        digitsFrom Text.hexValue? 16 (value * 16 + d) true rest := by
    obtain ⟨hvalue, hline⟩ := hexValue?_of_toLower hd hc
    rw [digitsFrom, if_neg hline, hvalue]
  -- The last digit is the first that the digits of a number tell.
  induction n using Nat.strongRecOn generalizing cs rest with
  | ind n ih =>
      by_cases hn : n < 16
      · rw [Nat.toDigits_of_lt_base hn, List.map_eq_singleton_iff] at h
        obtain ⟨c, rfl, hc⟩ := h
        rw [List.singleton_append, hstep hn hc, Nat.zero_mul, Nat.zero_add]
      · rw [Nat.toDigits_of_base_le (by decide) (Nat.le_of_not_lt hn), List.map_eq_append_iff] at h
        obtain ⟨front, back, rfl, hfront, hback⟩ := h
        rw [List.map_eq_singleton_iff] at hback
        obtain ⟨c, rfl, hc⟩ := hback
        rw [List.append_assoc, List.singleton_append, ih (n / 16) (by omega) hfront,
          hstep (Nat.mod_lt n (by decide)) hc, Nat.div_add_mod']

/-- A hexadecimal text in either case is read as the number that it writes. -/
theorem hexadecimal?_of_lowered {n : Nat} {s : String}
    (h : (Text.lowered s).toList = '0' :: 'x' :: Nat.toDigits 16 n)
    (htrim : Text.trim s.toList = s.toList) : hexadecimal? s = some (n : Int) := by
  rw [Text.lowered, String.toList_map, List.map_eq_cons_iff] at h
  obtain ⟨zero, more, hs, hzero, h⟩ := h
  obtain ⟨x, cs, rfl, hx, hcs⟩ := List.map_eq_cons_iff.mp h
  obtain rfl : zero = '0' := Text.eq_of_toLower_eq (by decide) hzero
  have hmark : x = 'x' ∨ x = 'X' := by
    have hlt : x.toNat < 0x80 := toNat_lt_of_toLower (by rw [hx]; decide)
    have hcase : x.toLower = 'x' → x = 'x' ∨ x = 'X' := Text.of_ascii hlt (by decide +kernel)
    exact hcase hx
  have hline : cs.head? ≠ some '_' := by
    intro hhead
    obtain ⟨rest, rfl⟩ := List.head?_eq_some_iff.mp hhead
    have hmem : Char.toLower '_' ∈ Nat.toDigits 16 n := hcs ▸ List.mem_cons_self
    obtain ⟨d, hd, hc⟩ := exists_digitChar_of_mem_toDigits (by decide) hmem
    exact (hexValue?_of_toLower hd hc).2 rfl
  have hdigits : hexDigits ('0' :: x :: cs) = cs := by
    simp only [hexDigits, if_pos hmark]
    split
    next rest => exact absurd rfl hline
    next => rfl
  have hsigned : signed ('0' :: x :: cs) = (false, '0' :: x :: cs) := rfl
  have hread := digitsFrom_of_lowered hcs []
  rw [List.append_nil] at hread
  rw [hexadecimal?, htrim, hs, hsigned]
  simp only [hdigits, digits?, hread, digitsFrom, if_true, Option.map_some]
  rfl

end Hexadecimal

end ContractBench.Numeral

namespace ContractBench.Value

theorem printInt_eq_error_iff {n : Int} {fault : Fault} :
    printInt n = .error fault ↔ Numeral.print? n = none ∧ fault = .numeralTooLong := by
  unfold printInt
  cases Numeral.print? n <;> simp [eq_comm]

theorem printInt_eq_ok_iff {n : Int} {text : String} :
    printInt n = .ok text ↔ Numeral.print? n = some text := by
  unfold printInt
  cases Numeral.print? n <;> simp

end ContractBench.Value
