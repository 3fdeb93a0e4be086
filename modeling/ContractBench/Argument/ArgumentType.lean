import ContractBench.Fault
import ContractBench.Text.Pieces

/-! # Argument types

How the text of a type tells the way in which a typed value is read.
-/

namespace ContractBench.Argument

/-- The ways of reading a value. -/
inductive ArgumentType where
  /-- One value, which is taken as it is typed. -/
  | scalar (name : String)
  /-- Any number of values, separated by commas. -/
  | array (base : String)
  /-- A given number of values, separated by commas. -/
  | fixedArray (base : String) (length : Nat)
  /-- A tuple, as JSON. -/
  | tuple (name : String)
  /-- Arrays of arrays and arrays of tuples, as JSON. -/
  | nested (name : String)
deriving DecidableEq, Repr

namespace ArgumentType

def tupleWord : List Char := ['t', 'u', 'p', 'l', 'e']

/-- A type that ends in a length between brackets: what stands in front, which is one line, and
the digits of the length. -/
def fixedParts? (cs : List Char) : Option (List Char × List Char) :=
  match cs.reverse with
  | ']' :: inside =>
      match inside.span Text.isDecimal with
      | ([], _) => none
      | (digits, '[' :: base) =>
          if base ≠ [] ∧ '\n' ∉ base then some (base.reverse, digits.reverse) else none
      | _ => none
  | _ => none

/-- Reads a type without blanks at its ends. -/
def ofChars (cs : List Char) : Except Fault ArgumentType :=
  let name := String.ofList cs
  -- Arrays of arrays and of tuples are not cut at commas.
  if 1 < cs.count '[' ∨ (tupleWord ++ ['[']).isPrefixOf cs then
    .ok (.nested name)
  else if tupleWord.isPrefixOf cs then
    .ok (.tuple name)
  else if ['[', ']'].isSuffixOf cs then
    .ok (.array (String.ofList (cs.take (cs.length - 2))))
  else
    match fixedParts? cs with
    | none => .ok (.scalar name)
    | some (base, digits) =>
        match Numeral.decimal? (String.ofList digits) with
        | some n => .ok (.fixedArray (String.ofList base) n.toNat)
        | none => .error .numeralTooLong

def ofText (text : String) : Except Fault ArgumentType := ofChars (Text.trim text.toList)

end ArgumentType

end ContractBench.Argument
