/-! # Words

Encoded data consists of words of 32 bytes, the highest byte first.
-/

namespace ContractBench.Encoding

/-- The last bytes of a number, the highest first. -/
def bigEndian : Nat → Nat → List UInt8
  | 0, _ => []
  | size + 1, n => bigEndian size (n / 256) ++ [UInt8.ofNat (n % 256)]

/-- The number that bytes write, the highest first. -/
def bigEndianValue (bs : List UInt8) : Nat := bs.foldl (fun n b => n * 256 + b.toNat) 0

def wordSize : Nat := 32

def word (n : Nat) : List UInt8 := bigEndian wordSize n

/-- A signed number as a word, negative ones in two's complement. -/
def signedWord (n : Int) : List UInt8 := word (n % Nat.pow 2 256).toNat

/-- Bytes with zeros behind them, up to whole words. -/
def paddedEnd (bs : List UInt8) : List UInt8 :=
  bs ++ List.replicate ((wordSize - bs.length % wordSize) % wordSize) 0

/-- Bytes with zeros behind them, up to one word. -/
def filled (bs : List UInt8) : List UInt8 :=
  bs ++ List.replicate (wordSize - bs.length) 0

end ContractBench.Encoding
