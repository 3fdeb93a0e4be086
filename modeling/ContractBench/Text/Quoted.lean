import ContractBench.Text.Points
import ContractBench.Text.Printable

/-! # Quoted texts

How texts and byte strings are written inside other values: between quotes, with escapes for the
quote, the backslash and everything that is not printable.
-/

namespace ContractBench.Text

/-- Two hexadecimal digits of a byte. -/
def hexByte (n : Nat) : List Char :=
  [Nat.digitChar (n / 16 % 16), Nat.digitChar (n % 16)]

/-- A code point as an escape of two, four or eight hexadecimal digits. -/
def pointEscape (n : Nat) : List Char :=
  if n < 0x100 then '\\' :: 'x' :: hexByte n
  else if n < 0x10000 then '\\' :: 'u' :: hexByte (n / 0x100) ++ hexByte n
  else
    '\\' :: 'U' :: hexByte (n / 0x1000000) ++ hexByte (n / 0x10000) ++ hexByte (n / 0x100) ++
      hexByte n

/-- A code point of a quoted text. -/
def quotedPoint (quote : Char) (n : Nat) : List Char :=
  if n = quote.toNat ∨ n = '\\'.toNat then ['\\', Char.ofNat n]
  else if n = '\n'.toNat then ['\\', 'n']
  else if n = '\r'.toNat then ['\\', 'r']
  else if n = '\t'.toNat then ['\\', 't']
  else if isPrintable n then [Char.ofNat n]
  else pointEscape n

/-- The quote for a text: a double one if the text holds single quotes only. -/
def quoteFor (ps : List Nat) : Char :=
  if '\''.toNat ∈ ps ∧ '"'.toNat ∉ ps then '"' else '\''

/-- A text between quotes. -/
def quoted (ps : List Nat) : String :=
  let quote := quoteFor ps
  String.ofList ([quote] ++ ps.flatMap (quotedPoint quote) ++ [quote])

/-- A byte of a quoted byte string. -/
def quotedByte (quote : Char) (n : Nat) : List Char :=
  if n < 0x80 then quotedPoint quote n else pointEscape n

/-- A byte string between quotes, behind its mark. -/
def quotedBytes (bs : List UInt8) : String :=
  let ns := bs.map (·.toNat)
  let quote := quoteFor ns
  String.ofList (['b', quote] ++ ns.flatMap (quotedByte quote) ++ [quote])

end ContractBench.Text
