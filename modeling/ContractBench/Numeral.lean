import ContractBench.Text.Blank
import ContractBench.Text.Digit

/-! # Numerals

Reading and writing whole numbers. A written number may stand between blanks, carry a sign, use
decimal digits of any script and single underscores between digits. Decimal numerals of more
than `longest` digits are refused in both directions.
-/

namespace ContractBench.Numeral

/-- The greatest number of decimal digits that is read or written. -/
def longest : Nat := 4300

/-- Reads digits to the end; an underscore needs a digit on both sides. The arguments are the
value so far and whether the character before was a digit. -/
def digitsFrom (digit : Char → Option Nat) (base : Nat) : Nat → Bool → List Char → Option Nat
  | value, afterDigit, [] => if afterDigit then some value else none
  | value, afterDigit, c :: cs =>
      if c = '_' then
        if afterDigit then digitsFrom digit base value false cs else none
      else
        match digit c with
        | some d => digitsFrom digit base (value * base + d) true cs
        | none => none

/-- A number without sign in the given base. -/
def digits? (digit : Char → Option Nat) (base : Nat) (cs : List Char) : Option Nat :=
  digitsFrom digit base 0 false cs

/-- Splits off a sign; the first part tells whether it is a minus. -/
def signed : List Char → Bool × List Char
  | '-' :: cs => (true, cs)
  | '+' :: cs => (false, cs)
  | cs => (false, cs)

/-- The number with the given sign and size. -/
def withSign (negative : Bool) (n : Nat) : Int := if negative then -(n : Int) else n

/-- Reads a decimal numeral. -/
def decimal? (text : String) : Option Int :=
  let (negative, body) := signed (Text.trim text.toList)
  if longest < (body.filter (· != '_')).length then
    none
  else
    (digits? Text.digitValue? 10 body).map (withSign negative)

/-- The digits of a hexadecimal numeral, without its mark `0x`. One underscore may stand between
the mark and the digits. -/
def hexDigits : List Char → List Char
  | '0' :: x :: cs =>
      if x = 'x' ∨ x = 'X' then
        match cs with
        | '_' :: rest => if rest.head? = some '_' then cs else rest
        | _ => cs
      else
        '0' :: x :: cs
  | cs => cs

/-- Reads a hexadecimal numeral, with or without its mark. -/
def hexadecimal? (text : String) : Option Int :=
  let (negative, body) := signed (Text.trim text.toList)
  (digits? Text.hexValue? 16 (hexDigits body)).map (withSign negative)

def digitsOf (n : Nat) : List Char := Nat.toDigits 10 n

def print : Int → String
  | .ofNat n => String.ofList (digitsOf n)
  | .negSucc n => String.ofList ('-' :: digitsOf (n + 1))

def print? (n : Int) : Option String :=
  if longest < (digitsOf n.natAbs).length then none else some (print n)

end ContractBench.Numeral
