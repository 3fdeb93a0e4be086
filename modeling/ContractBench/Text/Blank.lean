/-! # Blanks

The characters that count as space around words and in front of directives, and trimming.
-/

namespace ContractBench.Text

/-- A blank is a Unicode space, a line or paragraph separator, or one of the separating control
characters; zero-width characters are not blanks. -/
def isBlank (c : Char) : Bool :=
  let n := c.toNat
  (0x9 ≤ n && n ≤ 0xD) || (0x1C ≤ n && n ≤ 0x20) || n == 0x85 || n == 0xA0 || n == 0x1680 ||
    (0x2000 ≤ n && n ≤ 0x200A) || n == 0x2028 || n == 0x2029 || n == 0x202F || n == 0x205F ||
    n == 0x3000

def trimStart (cs : List Char) : List Char := cs.dropWhile isBlank

def trimEnd (cs : List Char) : List Char := (trimStart cs.reverse).reverse

def trim (cs : List Char) : List Char := trimEnd (trimStart cs)

/-- A text without the blanks at its ends. -/
def stripped (s : String) : String := String.ofList (trim s.toList)

/-- A text without the blanks at its end. -/
def strippedEnd (s : String) : String := String.ofList (trimEnd s.toList)

end ContractBench.Text
