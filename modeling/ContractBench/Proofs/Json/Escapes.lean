import ContractBench.Json.Reader
import ContractBench.Json.Writer
import Mathlib.Data.List.Chain

/-! # Written strings

A string is written in ASCII without control characters, and its code points are read back. Two
halves of a pair that stand next to each other would be read as one code point; every other sequence
of code points is kept.
-/

namespace ContractBench.Json

/-- The characters that JSON is written in. -/
def isPrintable (c : Char) : Bool := 0x20 ≤ c.toNat && c.toNat < 0x7F

/-- Code points of which no two form a pair. -/
def Unjoined (ps : List Nat) : Prop :=
  (∀ n ∈ ps, n < 0x110000) ∧
    ps.IsChain fun first second => Text.isFirstHalf first = true → Text.isSecondHalf second = false

theorem toNat_lt (c : Char) : c.toNat < 0x110000 := by
  have h := c.valid
  simp only [UInt32.isValidChar, Nat.isValidChar] at h
  change c.val.toNat < _
  omega

/-- The characters of a text are no halves. -/
theorem unjoined_points (s : String) : Unjoined (Text.points s) := by
  refine ⟨fun n hn => ?_, ?_⟩
  · obtain ⟨c, -, rfl⟩ := List.mem_map.mp hn
    exact toNat_lt c
  · rw [Text.points, List.isChain_map]
    refine List.Pairwise.isChain (List.pairwise_of_forall fun c d hfirst => ?_)
    have := Text.isHalf_toNat c
    rw [Text.isHalf, hfirst] at this
    cases this

section Units

variable {n m : Nat} {rest : List Nat}

theorem isPrintable_digitChar (h : n < 16) : isPrintable (Nat.digitChar n) = true :=
  (by decide : ∀ n < 16, isPrintable (Nat.digitChar n) = true) n h

theorem hexPoint?_digitChar (h : n < 16) : hexPoint? (Nat.digitChar n).toNat = some n :=
  (by decide : ∀ n < 16, hexPoint? (Nat.digitChar n).toNat = some n) n h

theorem isPrintable_of_mem_unitEscape {c : Char} (h : c ∈ unitEscape n) : isPrintable c = true := by
  have hdigit (k : Nat) : isPrintable (Nat.digitChar (k % 16)) = true :=
    isPrintable_digitChar (Nat.mod_lt _ (by decide))
  simp only [unitEscape, hexUnit, List.mem_cons, List.not_mem_nil, or_false] at h
  rcases h with rfl | rfl | rfl | rfl | rfl | rfl
  · decide
  · decide
  all_goals exact hdigit _

/-- A code unit is read from its four digits. -/
theorem codeUnit?_hexUnit (h : n < 0x10000) :
    codeUnit? ((hexUnit n).map Char.toNat ++ m :: rest) = some (n, m :: rest) := by
  have hdigit (k : Nat) : hexPoint? (Nat.digitChar (k % 16)).toNat = some (k % 16) :=
    hexPoint?_digitChar (Nat.mod_lt _ (by decide))
  have hvalue : ((n / 4096 % 16 * 16 + n / 256 % 16) * 16 + n / 16 % 16) * 16 + n % 16 = n := by
    omega
  simp only [hexUnit, List.map_cons, List.map_nil, List.cons_append, List.nil_append, codeUnit?,
    hdigit, hvalue]

end Units

section Forms

variable {n m : Nat} {cs : List Char} {rest : List Nat}

/-- How a code point can be written: as it is, as a letter behind a backslash, as a code unit, or as
the two code units of a pair. -/
inductive Form (n : Nat) : List Char → Prop
  | plain {c : Char} (hc : c.toNat = n) (hlow : 0x20 ≤ n) (hhigh : n < 0x7F) (hquote : n ≠ quote)
      (hslash : n ≠ backslash) : Form n [c]
  | letter {l : Char} (hletter : escaped? l.toNat = some n) (hunit : l.toNat ≠ unitMark)
      (hprintable : isPrintable l = true) : Form n ['\\', l]
  | unit (h : n < 0x10000) : Form n (unitEscape n)
  | pair {first second : Nat} (hfirst : Text.isFirstHalf first = true)
      (hsecond : Text.isSecondHalf second = true) (h : Text.joinedHalves first second = n) :
      Form n (unitEscape first ++ unitEscape second)

theorem lt_of_isHalf (h : Text.isHalf n = true) : n < 0x10000 := by
  simp only [Text.isHalf, Text.isFirstHalf, Text.isSecondHalf, Bool.or_eq_true, Bool.and_eq_true,
    decide_eq_true_eq] at h
  omega

theorem lt_of_isFirstHalf (h : Text.isFirstHalf n = true) : n < 0x10000 :=
  lt_of_isHalf (by simp [Text.isHalf, h])

theorem lt_of_isSecondHalf (h : Text.isSecondHalf n = true) : n < 0x10000 :=
  lt_of_isHalf (by simp [Text.isHalf, h])

/-- Beyond the first plane a code point is cut into the two halves of its pair. -/
theorem form_of_beyond (hlow : 0x10000 ≤ n) (hhigh : n < 0x110000) :
    Form n (unitEscape (0xD800 + (n - 0x10000) / 0x400) ++
      unitEscape (0xDC00 + (n - 0x10000) % 0x400)) := by
  refine .pair ?_ ?_ ?_
  · simp only [Text.isFirstHalf, Bool.and_eq_true, decide_eq_true_eq]
    omega
  · simp only [Text.isSecondHalf, Bool.and_eq_true, decide_eq_true_eq]
    omega
  · unfold Text.joinedHalves
    omega

theorem form_writeChar (c : Char) : Form c.toNat (writeChar c) := by
  unfold writeChar
  split
  next h =>
    subst h
    exact .letter (by decide) (by decide) (by decide)
  next hquote =>
    split
    next h =>
      subst h
      exact .letter (by decide) (by decide) (by decide)
    next hslash =>
      split
      next h =>
        subst h
        exact .letter (by decide) (by decide) (by decide)
      split
      next h =>
        subst h
        exact .letter (by decide) (by decide) (by decide)
      split
      next h =>
        subst h
        exact .letter (by decide) (by decide) (by decide)
      split
      next h =>
        subst h
        exact .letter (by decide) (by decide) (by decide)
      split
      next h =>
        subst h
        exact .letter (by decide) (by decide) (by decide)
      split
      next h =>
        exact .plain rfl h.1 h.2 (fun heq => hquote (Char.toNat_inj.mp heq))
          fun heq => hslash (Char.toNat_inj.mp heq)
      split
      next h => exact .unit h
      next h => exact form_of_beyond (Nat.le_of_not_lt h) (toNat_lt c)

theorem form_writePoint (h : n < 0x110000) : Form n (writePoint n) := by
  unfold writePoint
  split
  next hhalf => exact .unit (lt_of_isHalf hhalf)
  next hhalf =>
    have hvalid : n.isValidChar := by
      simp only [Text.isHalf, Text.isFirstHalf, Text.isSecondHalf, Bool.or_eq_true,
        Bool.and_eq_true, decide_eq_true_eq] at hhalf
      simp only [Nat.isValidChar]
      omega
    obtain ⟨c, rfl⟩ : ∃ c : Char, c.toNat = n := ⟨Char.ofNatAux n hvalid, rfl⟩
    rw [Char.ofNat_toNat]
    exact form_writeChar c

theorem Form.isPrintable (h : Form n cs) : ∀ c ∈ cs, isPrintable c = true := by
  cases h with
  | plain hc hlow hhigh =>
      subst hc
      simpa [Json.isPrintable] using ⟨hlow, hhigh⟩
  | letter _ _ hprintable => simpa using ⟨by decide, hprintable⟩
  | unit => exact fun c hc => isPrintable_of_mem_unitEscape hc
  | pair =>
      intro c hc
      rcases List.mem_append.mp hc with hc | hc <;> exact isPrintable_of_mem_unitEscape hc

/-- Whether the escape of a second half stands at the front. -/
def secondNext (ns : List Nat) : Bool :=
  match ns with
  | backslash :: unitMark :: more => (codeUnit? more).any fun found => Text.isSecondHalf found.1
  | _ => false

/-- Without a second half behind it a code unit is a code point of its own. -/
theorem unitPoint_of_not_secondNext (h : secondNext rest = false) (unit : Nat) :
    unitPoint unit rest = (unit, rest) := by
  unfold unitPoint
  split
  next =>
    split
    next more =>
      split
      next second after hunit =>
        have hsecond : Text.isSecondHalf second = false := by simpa [secondNext, hunit] using h
        simp [hsecond]
      next => rfl
    next => rfl
  next => rfl

theorem unitEscape_append (unit : Nat) (ns : List Nat) :
    (unitEscape unit).map Char.toNat ++ ns =
      backslash :: unitMark :: ((hexUnit unit).map Char.toNat ++ ns) := rfl

theorem secondNext_unitEscape {unit : Nat} (h : unit < 0x10000) (ns : List Nat) :
    secondNext ((unitEscape unit).map Char.toNat ++ m :: ns) = Text.isSecondHalf unit := by
  rw [unitEscape_append]
  change (codeUnit? _).any _ = _
  rw [codeUnit?_hexUnit h]
  rfl

/-- Only the escape of a second half begins with one. -/
theorem Form.secondNext_eq_false (h : Form n cs) (hn : Text.isSecondHalf n = false) :
    secondNext (cs.map Char.toNat ++ m :: rest) = false := by
  cases h with
  | plain hc hlow hhigh hquote hslash =>
      subst hc
      unfold secondNext
      split
      next heq => exact absurd (List.cons.inj heq).1 hslash
      next => rfl
  | letter hletter hunit =>
      unfold secondNext
      split
      next heq => exact absurd (List.cons.inj (List.cons.inj heq).2).1 hunit
      next => rfl
  | unit hunit => rw [secondNext_unitEscape hunit, hn]
  | pair hfirst hsecond =>
      rw [List.map_append, List.append_assoc, unitEscape_append _ (m :: rest),
        secondNext_unitEscape (lt_of_isFirstHalf hfirst)]
      simp only [Text.isFirstHalf, Text.isSecondHalf, Bool.and_eq_true, decide_eq_true_eq,
        Bool.and_eq_false_iff, decide_eq_false_iff_not] at hfirst ⊢
      omega

theorem readEscape_unitEscape (opened : List Nat) {unit : Nat} (h : unit < 0x10000) :
    readEscape opened ((unitEscape unit).map Char.toNat ++ m :: rest) =
      .ok (unitPoint unit (m :: rest)) := by
  rw [unitEscape_append]
  unfold readEscape
  split
  next heq => cases heq
  next heq =>
    cases heq
    rw [codeUnit?_hexUnit h]
  next hletter heq =>
    cases heq
    exact absurd rfl hletter

/-- The escapes of two halves write the code point that they form together. -/
theorem unitPoint_unitEscape {first second : Nat} (hfirst : Text.isFirstHalf first = true)
    (hsecond : Text.isSecondHalf second = true) :
    unitPoint first ((unitEscape second).map Char.toNat ++ m :: rest) =
      (Text.joinedHalves first second, m :: rest) := by
  rw [unitEscape_append]
  unfold unitPoint
  rw [if_pos hfirst]
  split
  next heq =>
    cases heq
    rw [codeUnit?_hexUnit (lt_of_isSecondHalf hsecond)]
    exact if_pos hsecond
  next hother => exact absurd rfl (hother _)

theorem unitPoint_of_not_isFirstHalf {unit : Nat} (h : Text.isFirstHalf unit = false)
    (rest : List Nat) : unitPoint unit rest = (unit, rest) := if_neg (by simp [h])

end Forms

section Strings

variable {n m : Nat} {cs : List Char} {rest : List Nat}

theorem readString_of_readEscape {opened escape after : List Nat} {fuel : Nat}
    (h : readEscape opened (backslash :: escape) = .ok (n, after)) :
    readString opened (fuel + 1) (backslash :: escape) =
      (readString opened fuel after).map fun found => (n :: found.1, found.2) := by
  have hquote : backslash ≠ quote := by decide
  rw [readString, if_neg hquote, if_pos rfl, h]
  simp only [bind, Except.bind]
  cases readString opened fuel after <;> rfl

/-- A code point is read from the way in which it is written. -/
theorem Form.readString (h : Form n cs)
    (hnext : Text.isFirstHalf n = true → secondNext (m :: rest) = false) (opened : List Nat)
    (fuel : Nat) :
    readString opened (fuel + 1) (cs.map Char.toNat ++ m :: rest) =
      (readString opened fuel (m :: rest)).map fun found => (n :: found.1, found.2) := by
  cases h with
  | plain hc hlow hhigh hquote hslash =>
      subst hc
      rw [List.map_singleton, List.singleton_append, Json.readString, if_neg hquote,
        if_neg hslash, if_neg (Nat.not_lt.mpr hlow)]
      cases Json.readString opened fuel (m :: rest) <;> rfl
  | letter hletter hunit =>
      apply readString_of_readEscape
      unfold readEscape
      split
      next heq => cases heq
      next heq => exact absurd (List.cons.inj heq).1 hunit
      next letter more _ heq =>
        cases heq
        rw [hletter]
        rfl
  | unit hunit =>
      apply readString_of_readEscape
      refine (readEscape_unitEscape opened hunit).trans ?_
      cases hfirst : Text.isFirstHalf n with
      | true => rw [unitPoint_of_not_secondNext (hnext hfirst)]
      | false => rw [unitPoint_of_not_isFirstHalf hfirst]
  | pair hfirst hsecond hjoined =>
      rw [List.map_append, List.append_assoc]
      apply readString_of_readEscape
      refine (readEscape_unitEscape opened (lt_of_isFirstHalf hfirst)).trans ?_
      exact congrArg Except.ok ((unitPoint_unitEscape hfirst hsecond).trans (by rw [hjoined]))

/-- Halves of pairs are written as escapes, and every other point as a character is. -/
theorem isPrintable_of_mem_writePoint {c : Char} (h : c ∈ writePoint n) : isPrintable c = true := by
  unfold writePoint at h
  split at h
  next => exact isPrintable_of_mem_unitEscape h
  next => exact (form_writeChar _).isPrintable c h

theorem isPrintable_of_mem_writePoints {ps : List Nat} {c : Char} (h : c ∈ writePoints ps) :
    isPrintable c = true := by
  rcases List.mem_append.mp h with h | h
  · rcases List.mem_cons.mp h with rfl | h
    · decide
    · obtain ⟨n, -, h⟩ := List.mem_flatMap.mp h
      exact isPrintable_of_mem_writePoint h
  · obtain rfl := List.mem_singleton.mp h
    decide

theorem Form.length_pos (h : Form n cs) : 0 < cs.length := by
  cases h <;> exact Nat.succ_pos _

/-- Every code point takes at least a character. -/
theorem length_le_writePoints {ps : List Nat} (h : ∀ n ∈ ps, n < 0x110000) :
    ps.length ≤ (ps.flatMap writePoint).length := by
  induction ps with
  | nil => exact Nat.le_refl 0
  | cons n ps ih =>
      obtain ⟨hn, hps⟩ := List.forall_mem_cons.mp h
      have hpos := (form_writePoint hn).length_pos
      have hrest := ih hps
      rw [List.flatMap_cons, List.length_append, List.length_cons]
      omega

/-- What is written for the code points up to a quote does not begin with the escape of a second
half if the first of them is none. -/
theorem secondNext_writePoints {ps : List Nat} (h : Unjoined ps)
    (hfirst : ∀ n ∈ ps.head?, Text.isSecondHalf n = false) :
    secondNext ((ps.flatMap writePoint).map Char.toNat ++ quote :: rest) = false := by
  cases ps with
  | nil => rfl
  | cons n ps =>
      have hform := form_writePoint (h.1 n List.mem_cons_self)
      rw [List.flatMap_cons, List.map_append, List.append_assoc]
      obtain ⟨m, after, hafter⟩ : ∃ m after,
          (ps.flatMap writePoint).map Char.toNat ++ quote :: rest = m :: after :=
        List.exists_cons_of_ne_nil (by simp)
      rw [hafter]
      exact hform.secondNext_eq_false (hfirst n rfl)

/-- A string is read up to its quote. -/
theorem readString_writePoints {ps : List Nat} (h : Unjoined ps) (opened rest : List Nat)
    {fuel : Nat} (hfuel : ps.length < fuel) :
    readString opened fuel ((ps.flatMap writePoint).map Char.toNat ++ quote :: rest) =
      .ok (ps, rest) := by
  induction ps generalizing fuel with
  | nil =>
      obtain ⟨fuel, rfl⟩ := Nat.exists_eq_add_of_lt hfuel
      rw [List.flatMap_nil, List.map_nil, List.nil_append, readString, if_pos rfl]
  | cons n ps ih =>
      obtain ⟨hpoints, hchain⟩ := h
      obtain ⟨hn, hps⟩ := List.forall_mem_cons.mp hpoints
      obtain ⟨hnext, hrest⟩ := List.isChain_cons.mp hchain
      cases fuel with
      | zero => cases hfuel
      | succ fuel =>
          have hread := ih ⟨hps, hrest⟩ (Nat.lt_of_succ_lt_succ hfuel)
          have hsecond (hfirst : Text.isFirstHalf n = true) :
              secondNext ((ps.flatMap writePoint).map Char.toNat ++ quote :: rest) = false :=
            secondNext_writePoints ⟨hps, hrest⟩ fun m hm => hnext m hm hfirst
          obtain ⟨m, after, hafter⟩ : ∃ m after,
              (ps.flatMap writePoint).map Char.toNat ++ quote :: rest = m :: after :=
            List.exists_cons_of_ne_nil (by simp)
          rw [hafter] at hread hsecond
          rw [List.flatMap_cons, List.map_append, List.append_assoc, hafter,
            (form_writePoint hn).readString hsecond, hread]
          rfl

end Strings

end ContractBench.Json
