/-! # Binary floating point

Doubles as their 64 bits, with exact arithmetic on the numbers they stand for: reading a decimal
numeral, comparing numbers, and writing the shortest decimal that reads back.
-/

namespace ContractBench

/-- What a number cell holds: a multiple of a power of two, an infinity, or no number. -/
inductive Quantity where
  | notANumber
  | infinite (negative : Bool)
  /-- The number `units * 2 ^ scale`. -/
  | dyadic (units : Int) (scale : Int)
deriving DecidableEq, Repr

namespace Quantity

def ofInt (n : Int) : Quantity := .dyadic n 0

/-- Both numbers in the same unit. -/
def aligned (a b : Int × Int) : Int × Int :=
  let unit := min a.2 b.2
  (a.1 * Nat.pow 2 (a.2 - unit).toNat, b.1 * Nat.pow 2 (b.2 - unit).toNat)

/-- Equality of numbers; no number equals nothing, itself included. -/
def same : Quantity → Quantity → Bool
  | .infinite a, .infinite b => a == b
  | .dyadic m p, .dyadic n q => let (x, y) := aligned (m, p) (n, q); x == y
  | _, _ => false

/-- The order of numbers, false where one side is no number. -/
def less : Quantity → Quantity → Bool
  | .infinite a, .infinite b => a && !b
  | .infinite a, .dyadic _ _ => a
  | .dyadic _ _, .infinite b => !b
  | .dyadic m p, .dyadic n q => let (x, y) := aligned (m, p) (n, q); x < y
  | _, _ => false

/-- The whole number that a quantity is, if it is one. -/
def toInt? : Quantity → Option Int
  | .dyadic n q =>
      if 0 ≤ q then some (n * Nat.pow 2 q.toNat)
      else if n % Nat.pow 2 (-q).toNat = 0 then some (n / Nat.pow 2 (-q).toNat)
      else none
  | _ => none

end Quantity

namespace Binary64

/-- The bits of positive infinity; those of negative infinity have the sign bit set too. -/
def infinityBits : Nat := 2047 * Nat.pow 2 52

/-- The bits of the value that is no number. -/
def notANumber : UInt64 := 0x7ff8000000000000

def withSign (negative : Bool) (magnitude : Nat) : UInt64 :=
  UInt64.ofNat (if negative then magnitude + Nat.pow 2 63 else magnitude)

def isNegative (bits : UInt64) : Bool := Nat.pow 2 63 ≤ bits.toNat

/-- The number that the bits stand for. -/
def quantity (bits : UInt64) : Quantity :=
  let negative := isNegative bits
  let magnitude := bits.toNat % Nat.pow 2 63
  let exponent := magnitude / Nat.pow 2 52
  let fraction := magnitude % Nat.pow 2 52
  let sign : Int := if negative then -1 else 1
  if exponent = 2047 then
    if fraction = 0 then .infinite negative else .notANumber
  else if exponent = 0 then
    .dyadic (sign * Int.ofNat fraction) (-1074)
  else
    .dyadic (sign * Int.ofNat (fraction + Nat.pow 2 52)) (Int.ofNat exponent - 1075)

/-- The quotient rounded to the nearest whole number, a half going to the even neighbour. -/
def roundedQuotient (num den : Nat) : Nat :=
  let q := num / den
  let r := num % den
  if 2 * r < den then q else if den < 2 * r then q + 1 else if q % 2 = 0 then q else q + 1

/-- The bits of the double nearest to the positive fraction `num / den`, without sign. -/
def nearestBits (num den : Nat) : Nat :=
  if num = 0 then
    0
  else
    let guess : Int := (num.log2 : Int) - (den.log2 : Int)
    let below : Bool :=
      if 0 ≤ guess then num < den * Nat.pow 2 guess.toNat else num * Nat.pow 2 (-guess).toNat < den
    let top := if below then guess - 1 else guess
    -- Below the least exponent the unit stays, and digits are lost instead.
    let unit := max (top - 52) (-1074)
    let digits :=
      if 0 ≤ unit then roundedQuotient num (den * Nat.pow 2 unit.toNat)
      else roundedQuotient (num * Nat.pow 2 (-unit).toNat) den
    -- Digits that are rounded up to the next power carry into the exponent.
    min infinityBits ((unit + 1074).toNat * Nat.pow 2 52 + digits)

/-- The double nearest to `digits * 10 ^ exponent`. Exponents out of all proportion are decided
without computing the power. -/
def ofDecimal (negative : Bool) (digits : Nat) (exponent : Int) : UInt64 :=
  let size : Int := (Nat.toDigits 10 digits).length + exponent
  if digits = 0 ∨ size < -400 then
    withSign negative 0
  else if 400 < size then
    withSign negative infinityBits
  else if 0 ≤ exponent then
    withSign negative (nearestBits (digits * Nat.pow 10 exponent.toNat) 1)
  else
    withSign negative (nearestBits digits (Nat.pow 10 (-exponent).toNat))

/-- The decimals of the least length that read back as the given bits: `digits * 10 ^ exponent`.
Tries the two neighbours of the number with one digit, then with two, and so on; seventeen
digits always suffice. -/
def shortestFrom (bits : Nat) (num den : Nat) (size : Int) : Nat → Nat → Nat × Int
  | 0, length => (0, size - length)
  | tries + 1, length =>
      let exponent := size - length
      let (n, d) :=
        if 0 ≤ exponent then (num, den * Nat.pow 10 exponent.toNat)
        else (num * Nat.pow 10 (-exponent).toNat, den)
      -- The decimal that is nearest comes first, where both neighbours read back.
      let low := n / d
      let readsBack (digits : Nat) : Bool := (ofDecimal false digits exponent).toNat == bits
      let nearest := roundedQuotient n d
      let other := if nearest = low then low + 1 else low
      if readsBack nearest then (nearest, exponent)
      else if readsBack other then (other, exponent)
      else shortestFrom bits num den size tries (length + 1)

/-- The number of decimal digits in front of the point, at least one too many never. -/
def decimalSize (num den : Nat) : Int :=
  if den ≤ num then
    (Nat.toDigits 10 (num / den)).length
  else
    let zeros := (Nat.toDigits 10 (den / num)).length
    if num * Nat.pow 10 (zeros - 1) < den then 1 - (zeros : Int) else 2 - (zeros : Int)

/-- Digits and a decimal exponent without zeros at the end of the digits. -/
def withoutTrailingZeros : Nat → Nat × Int → Nat × Int
  | 0, d => d
  | n + 1, (digits, exponent) =>
      if digits ≠ 0 ∧ digits % 10 = 0 then
        withoutTrailingZeros n (digits / 10, exponent + 1)
      else
        (digits, exponent)

/-- The text of `digits * 10 ^ exponent`: positional when the first digit stands between the fourth
place after the point and the sixteenth before it, with exponent otherwise. -/
def decimalText (digits : Nat) (exponent : Int) : String :=
  let cs := Nat.toDigits 10 digits
  let point : Int := cs.length + exponent
  if -4 < point ∧ point ≤ 16 then
    if point ≤ 0 then
      "0." ++ String.ofList (List.replicate (-point).toNat '0' ++ cs)
    else if cs.length ≤ point then
      String.ofList (cs ++ List.replicate exponent.toNat '0') ++ ".0"
    else
      String.ofList (cs.take point.toNat) ++ "." ++ String.ofList (cs.drop point.toNat)
  else
    let power := point - 1
    let size := Nat.toDigits 10 power.natAbs
    let size := if size.length < 2 then '0' :: size else size
    let rest := cs.drop 1
    String.ofList (cs.take 1) ++ (if rest = [] then "" else "." ++ String.ofList rest) ++
      "e" ++ (if power < 0 then "-" else "+") ++ String.ofList size

/-- The shortest decimal text that reads back, or the word for a special value. -/
def print (bits : UInt64) : String :=
  let sign := if isNegative bits then "-" else ""
  match quantity bits with
  | .notANumber => "nan"
  | .infinite _ => sign ++ "inf"
  | .dyadic n q =>
      let (num, den) :=
        if 0 ≤ q then (n.natAbs * Nat.pow 2 q.toNat, 1) else (n.natAbs, Nat.pow 2 (-q).toNat)
      if num = 0 then
        sign ++ "0.0"
      else
        let (digits, exponent) := withoutTrailingZeros 20
          (shortestFrom (bits.toNat % Nat.pow 2 63) num den (decimalSize num den) 18 1)
        sign ++ decimalText digits exponent

end Binary64

end ContractBench
