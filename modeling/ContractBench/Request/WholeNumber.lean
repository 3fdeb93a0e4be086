import ContractBench.Numeral
import ContractBench.Text.Pieces

/-! # Whole numbers in fields

The texts that count as a whole number where a field asks for one. They are in ASCII digits, with
blanks around them, zeros in front, single underscores between digits, and a point followed by
zeros at the end. A text is brought into plain form first, and the plain form is then read.
-/

namespace ContractBench.Request

/-- The blanks that may stand around a number: all but the separating control characters. -/
def isMargin (c : Char) : Bool := Text.isBlank c && !(0x1C ≤ c.toNat && c.toNat ≤ 0x1F)

/-- A text without the blanks around it. -/
def withoutMargin (cs : List Char) : List Char :=
  ((cs.dropWhile isMargin).reverse.dropWhile isMargin).reverse

/-- The digits that do not stand for zero. -/
def isPositiveDigit (c : Char) : Bool := c.isDigit && c != '0'

/-- What follows the zeros and underscores after a leading zero. The last of them stays where a
point or nothing follows it. -/
def afterZeros? (last : Char) : List Char → Option (List Char)
  | [] => some [last]
  | c :: cs =>
      if c = '0' ∨ c = '_' then afterZeros? c cs
      else if c = '.' then some (last :: c :: cs)
      else if isPositiveDigit c || c = '-' then some (c :: cs)
      else none

/-- A number without zeros in front. -/
def withoutZeros? : List Char → Option (List Char)
  | [] => none
  | c :: cs =>
      if c = '0' then afterZeros? c cs
      else if isPositiveDigit c || c = '-' then some (c :: cs)
      else none

/-- A number without zeros in front and without a plus sign; a minus sign may not follow the
plus sign. A minus sign in front stays there. -/
def withoutLead? : List Char → Option (List Char)
  | '-' :: cs => (withoutZeros? cs).map ('-' :: ·)
  | '+' :: '-' :: _ => none
  | '+' :: cs => withoutZeros? cs
  | cs => withoutZeros? cs

/-- A number without a point and the zeros after it, of which there is at least one. -/
def withoutFraction (cs : List Char) : List Char :=
  match cs.span (· != '.') with
  | (whole, _ :: d :: places) => if (d :: places).all (· == '0') then whole else cs
  | _ => cs

/-- A number without the underscores in it, if they are single and inside. -/
def withoutUnderscores (cs : List Char) : List Char :=
  if cs.head? = some '_' ∨ cs.getLast? = some '_' ∨ Text.hasPart ['_', '_'] cs then cs
  else cs.filter (· != '_')

/-- The plain form of a text: a number that is left when all that may be added is removed. -/
def plainForm? (cs : List Char) : Option (List Char) :=
  (withoutLead? (withoutMargin cs)).map fun body => withoutUnderscores (withoutFraction body)

/-- A number without its minus sign. -/
def withoutMinus : List Char → List Char
  | '-' :: cs => cs
  | cs => cs

/-- Whether a text as it is given begins with too many digits for a number, whatever follows
them. A zero in front is not taken for such a digit. -/
def isTooLong (cs : List Char) : Bool :=
  let digits := (withoutMinus cs).takeWhile Char.isDigit
  digits.head?.any isPositiveDigit && Numeral.longest < digits.length

/-- The number of digits without zeros in front, of which there are not too many. -/
def plainDigits? (cs : List Char) : Option Nat :=
  if cs.isEmpty || !cs.all Char.isDigit || (cs.head? == some '0' && cs.length != 1) then none
  else if Numeral.longest < cs.length then none
  else some (cs.foldl (fun n d => n * 10 + (d.toNat - '0'.toNat)) 0)

/-- The whole number of a plain form, if it is one. -/
def plainNumber? : List Char → Option Int
  | '-' :: cs => (plainDigits? cs).map fun n => -(n : Int)
  | cs => (plainDigits? cs).map Int.ofNat

end ContractBench.Request
