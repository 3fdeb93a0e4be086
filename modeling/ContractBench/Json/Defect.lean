import ContractBench.Numeral
import ContractBench.Text.Points

/-! # Defects of JSON texts

Why a JSON text is not read, and how it is told: what is wrong, and the place, which is counted
in lines, columns and code points.
-/

namespace ContractBench.Json

/-- What is wrong at a place of a text. -/
inductive Defect where
  | noValue
  /-- The name of an entry is missing. -/
  | noName
  | noColon
  | noComma
  /-- Something follows the value. -/
  | moreText
  /-- A control character stands in a string. -/
  | controlCharacter
  /-- The string that begins here has no end. -/
  | openString
  | badEscape
  | badUnit
  /-- The text begins with the mark of its encoding. -/
  | orderMark
deriving DecidableEq, Repr

namespace Defect

/-- The words for a defect. -/
def message : Defect → String
  | noValue => "Expecting value"
  | noName => "Expecting property name enclosed in double quotes"
  | noColon => "Expecting ':' delimiter"
  | noComma => "Expecting ',' delimiter"
  | moreText => "Extra data"
  | controlCharacter => "Invalid control character at"
  | openString => "Unterminated string starting at"
  | badEscape => "Invalid \\escape"
  | badUnit => "Invalid \\uXXXX escape"
  | orderMark => "Unexpected UTF-8 BOM (decode using utf-8-sig)"

end Defect

/-- Why a text is not read. -/
inductive ReadError where
  /-- The text is not JSON. The second part is the text from the place of the defect on. -/
  | malformed (defect : Defect) (rest : List Nat)
  /-- A whole number has too many digits. -/
  | numeralTooLong (digits : Nat)
  /-- The bytes of the text are none in its encoding. -/
  | undecodable
deriving DecidableEq, Repr

def lineEnd : Nat := '\n'.toNat

/-- The place that is reached after a text. -/
def placeAfter (before : List Nat) : String :=
  let line := before.count lineEnd + 1
  let column := (before.reverse.takeWhile (· != lineEnd)).length + 1
  "line " ++ toString line ++ " column " ++ toString column ++
    " (char " ++ toString before.length ++ ")"

namespace ReadError

/-- The report of an error in a text. -/
def message (text : List Nat) : ReadError → String
  | malformed defect rest =>
      defect.message ++ ": " ++ placeAfter (text.take (text.length - rest.length))
  | numeralTooLong digits =>
      "Exceeds the limit (" ++ toString Numeral.longest ++
        " digits) for integer string conversion: value has " ++ toString digits ++
        " digits; use sys.set_int_max_str_digits() to increase the limit"
  | undecodable => ""

end ReadError

end ContractBench.Json
