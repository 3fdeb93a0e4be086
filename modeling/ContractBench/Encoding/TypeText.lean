import ContractBench.Text.Pieces
import ContractBench.Text.Word

/-! # Type texts

The grammar of the texts that name the types of encoded data: a word with sizes, or types in
parentheses, and array lengths behind it.
-/

namespace ContractBench.Encoding

/-- The sizes behind the word of a type. -/
inductive Sizes where
  | none
  | one (n : Nat)
  | two (n m : Nat)
deriving DecidableEq, Repr

/-- A type as it is written. -/
inductive TypeSyntax where
  | basic (word : String) (sizes : Sizes)
  | tuple (components : List TypeSyntax)
  | array (item : TypeSyntax)
  | fixedArray (item : TypeSyntax) (length : Nat)
deriving Repr

namespace TypeSyntax

/-- Letters of the Latin alphabet. -/
def isLetter (c : Char) : Bool := c.isAlpha

/-- A number without zeros at the front, and what follows it. -/
def number? (cs : List Char) : Option (Nat × List Char) :=
  match cs.span Char.isDigit with
  | ([], _) => none
  | ('0' :: _, _) => none
  | (digits, rest) =>
      some (digits.foldl (fun n d => n * 10 + (d.toNat - '0'.toNat)) 0, rest)

/-- The sizes at the front of a text: two numbers with an `x` between them, or one, or none. -/
def sizes (cs : List Char) : Sizes × List Char :=
  match number? cs with
  | none => (.none, cs)
  | some (n, rest) =>
      match rest with
      | 'x' :: more =>
          match number? more with
          | some (m, rest) => (.two n m, rest)
          | none => (.one n, rest)
      | _ => (.one n, rest)

/-- An array length in brackets at the front of a text; empty brackets set no length. -/
def brackets? : List Char → Option (Option Nat × List Char)
  | '[' :: ']' :: rest => some (none, rest)
  | '[' :: cs =>
      match number? cs with
      | some (n, ']' :: rest) => some (some n, rest)
      | _ => none
  | _ => none

def arrayOf (item : TypeSyntax) : Option Nat → TypeSyntax
  | none => .array item
  | some n => .fixedArray item n

/-- Reads the array lengths behind a type, the innermost first. -/
def arrays : Nat → TypeSyntax → List Char → TypeSyntax × List Char
  | 0, type, cs => (type, cs)
  | fuel + 1, type, cs =>
      match brackets? cs with
      | some (length, rest) => arrays fuel (arrayOf type length) rest
      | none => (type, cs)

mutual

/-- Reads a type at the front of a text. -/
def readType : Nat → List Char → Option (TypeSyntax × List Char)
  | 0, _ => none
  | fuel + 1, cs =>
      match cs with
      | '(' :: rest => do
          let (components, rest) ← readComponents fuel rest
          return arrays cs.length (.tuple components) rest
      | _ =>
          match cs.span isLetter with
          | ([], _) => none
          | (letters, rest) =>
              let (sizes, rest) := sizes rest
              some (arrays cs.length (.basic (String.ofList letters) sizes) rest)

/-- Reads types with commas between them, up to the closing parenthesis. -/
def readComponents : Nat → List Char → Option (List TypeSyntax × List Char)
  | 0, _ => none
  | fuel + 1, cs => do
      let (first, rest) ← readType fuel cs
      match rest with
      | ',' :: more =>
          let (others, rest) ← readComponents fuel more
          return (first :: others, rest)
      | ')' :: more => return ([first], more)
      | _ => none

end

def ofChars? (cs : List Char) : Option TypeSyntax :=
  match readType (2 * cs.length + 2) cs with
  | some (type, []) => some type
  | _ => none

/-- The types that have a short name. -/
def shortNames : List (List Char × List Char) :=
  [("int".toList, "int256".toList), ("uint".toList, "uint256".toList),
    ("fixed".toList, "fixed128x18".toList), ("ufixed".toList, "ufixed128x18".toList),
    ("function".toList, "bytes24".toList), ("byte".toList, "bytes1".toList)]

/-- A word with its short name resolved. -/
def fullName (w : List Char) : List Char :=
  match shortNames.find? (·.1 == w) with
  | some (_, full) => full
  | none => w

/-- A text with the short names among its words resolved; the first argument is the word that
has been read so far. -/
def resolvedFrom : List Char → List Char → List Char
  | word, [] => fullName word
  | word, c :: cs =>
      if Text.isWord c then resolvedFrom (word ++ [c]) cs
      else fullName word ++ c :: resolvedFrom [] cs

/-- A type text with full names. -/
def resolved (cs : List Char) : List Char := resolvedFrom [] cs

def ofText? (text : String) : Option TypeSyntax := ofChars? (resolved text.toList)

end TypeSyntax

end ContractBench.Encoding
