import ContractBench.Fault

/-! # Writing JSON

The one-line ASCII form of a value: no raw control characters, no characters outside ASCII, and
a space after each comma and colon.
-/

namespace ContractBench.Json

def hexUnit (n : Nat) : List Char :=
  [Nat.digitChar (n / 4096 % 16), Nat.digitChar (n / 256 % 16), Nat.digitChar (n / 16 % 16),
    Nat.digitChar (n % 16)]

def unitEscape (n : Nat) : List Char := '\\' :: 'u' :: hexUnit n

/-- A character inside a string. Beyond the first plane it takes a pair of code units. -/
def writeChar (c : Char) : List Char :=
  if c = '"' then ['\\', '"']
  else if c = '\\' then ['\\', '\\']
  else if c = '\n' then ['\\', 'n']
  else if c = '\r' then ['\\', 'r']
  else if c = '\t' then ['\\', 't']
  else if c = '\x0c' then ['\\', 'f']
  else if c = '\x08' then ['\\', 'b']
  else if 0x20 ≤ c.toNat ∧ c.toNat < 0x7F then [c]
  else if c.toNat < 0x10000 then unitEscape c.toNat
  else
    let n := c.toNat - 0x10000
    unitEscape (0xD800 + n / 0x400) ++ unitEscape (0xDC00 + n % 0x400)

def writeString (cs : List Char) : List Char := '"' :: cs.flatMap writeChar ++ ['"']

/-- A code point inside a string. A half of a pair is an escape. -/
def writePoint (n : Nat) : List Char :=
  if Text.isHalf n then unitEscape n else writeChar (Char.ofNat n)

def writePoints (ps : List Nat) : List Char := '"' :: ps.flatMap writePoint ++ ['"']

/-- A double: the shortest decimal that reads back, or the word for a special value. -/
def writeDouble (bits : UInt64) : List Char :=
  match Binary64.quantity bits with
  | .notANumber => ['N', 'a', 'N']
  | .infinite negative =>
      (if negative then ['-'] else []) ++ ['I', 'n', 'f', 'i', 'n', 'i', 't', 'y']
  | .dyadic _ _ => (Binary64.print bits).toList

/-- A whole number, if it is not too long. -/
def writeInt (n : Int) : Except Fault (List Char) := (Value.printInt n).map String.toList

/-- The string that a key of a table becomes. -/
def writeKey (key : Value) : Except Fault (List Char) :=
  match key with
  | .text s => .ok (writeString s.toList)
  | .brokenText ps => .ok (writePoints ps)
  | .null => .ok (writeString ['n', 'u', 'l', 'l'])
  | .bool b =>
      .ok (writeString (if b then ['t', 'r', 'u', 'e'] else ['f', 'a', 'l', 's', 'e']))
  | .int n => (writeInt n).map writeString
  | .double bits => .ok (writeString (writeDouble bits))
  | _ => .error (.notWritable key.kind)

mutual

/-- The JSON text of a value. -/
def writeValue : Value → Except Fault (List Char)
  | .null => .ok ['n', 'u', 'l', 'l']
  | .bool b => .ok (if b then ['t', 'r', 'u', 'e'] else ['f', 'a', 'l', 's', 'e'])
  | .int n => writeInt n
  | .double bits => .ok (writeDouble bits)
  | .text s => .ok (writeString s.toList)
  | .brokenText ps => .ok (writePoints ps)
  | .bytes _ => .error (.notWritable .bytes)
  | .list xs => do return '[' :: (← writeItems xs) ++ [']']
  | .tuple xs => do return '[' :: (← writeItems xs) ++ [']']
  | .record fields => do return '[' :: (← writeFields fields) ++ [']']
  | .table entries => do return '\x7b' :: (← writeEntries entries) ++ ['\x7d']

def writeItems : List Value → Except Fault (List Char)
  | [] => .ok []
  | [x] => writeValue x
  | x :: xs => do
      let first ← writeValue x
      return first ++ [',', ' '] ++ (← writeItems xs)

def writeFields : List (String × Value) → Except Fault (List Char)
  | [] => .ok []
  | [(_, x)] => writeValue x
  | (_, x) :: xs => do
      let first ← writeValue x
      return first ++ [',', ' '] ++ (← writeFields xs)

def writeEntries : List (Value × Value) → Except Fault (List Char)
  | [] => .ok []
  | [(key, x)] => do return (← writeKey key) ++ [':', ' '] ++ (← writeValue x)
  | (key, x) :: xs => do
      let name ← writeKey key
      let first ← writeValue x
      return name ++ [':', ' '] ++ first ++ [',', ' '] ++ (← writeEntries xs)

end

def write (v : Value) : Except Fault String := (writeValue v).map String.ofList

end ContractBench.Json
