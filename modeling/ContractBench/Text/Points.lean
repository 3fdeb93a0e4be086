/-! # Code points

Texts as lists of code points, the halves of surrogate pairs among them. A half stands for no
character; a text in which one stands alone cannot be encoded.
-/

namespace ContractBench.Text

def isFirstHalf (n : Nat) : Bool := 0xD800 ≤ n && n < 0xDC00

def isSecondHalf (n : Nat) : Bool := 0xDC00 ≤ n && n < 0xE000

def isHalf (n : Nat) : Bool := isFirstHalf n || isSecondHalf n

/-- The code point that two halves stand for together. -/
def joinedHalves (first second : Nat) : Nat :=
  0x10000 + (first - 0xD800) * 0x400 + (second - 0xDC00)

def points (s : String) : List Nat := s.toList.map Char.toNat

/-- The character that is shown in the place of a half. -/
def replacement : Char := Char.ofNat 0xFFFD

/-- The character of a code point. -/
def charOf (n : Nat) : Char := if isHalf n then replacement else Char.ofNat n

/-- The text of code points, in which halves are replaced. -/
def ofPoints (ps : List Nat) : String := String.ofList (ps.map charOf)

theorem isHalf_toNat (c : Char) : isHalf c.toNat = false := by
  have h := c.valid
  simp only [UInt32.isValidChar, Nat.isValidChar] at h
  simp only [isHalf, isFirstHalf, isSecondHalf, Bool.or_eq_false_iff, Bool.and_eq_false_iff,
    decide_eq_false_iff_not, Char.toNat]
  omega

theorem charOf_toNat (c : Char) : charOf c.toNat = c := by
  simp [charOf, isHalf_toNat, Char.ofNat_toNat]

theorem ofPoints_points (s : String) : ofPoints (points s) = s := by
  simp [ofPoints, points, Function.comp_def, charOf_toNat]

/-- A code point that is no half is that of its character. -/
theorem toNat_charOf {n : Nat} (hbound : n < 0x110000) (hwhole : isHalf n = false) :
    (charOf n).toNat = n := by
  have hvalid : n.isValidChar := by
    simp only [isHalf, isFirstHalf, isSecondHalf, Bool.or_eq_false_iff, Bool.and_eq_false_iff,
      decide_eq_false_iff_not] at hwhole
    simp only [Nat.isValidChar]
    omega
  rw [charOf, hwhole, Char.ofNat, dif_pos hvalid]
  rfl

end ContractBench.Text
