import ContractBench.Ordered
import ContractBench.Text.Digit
import ContractBench.Text.Pieces
import ContractBench.Text.Utf8

/-! # Addresses

The address of a request: a path and the parameters after it, both with percent signs in front
of bytes in hexadecimal digits. A path may stand behind the name of a server, and its steps may
stay where they are or lead up.
-/

namespace ContractBench.Service

/-- The address of a request. -/
structure Address where
  path : String
  /-- The parameters in order; names may repeat. -/
  parameters : List (String × String)
deriving DecidableEq, Repr

namespace Address

/-- The byte that stands after a percent sign, in ASCII. -/
def hexPair? (a b : UInt8) : Option UInt8 := do
  let high ← Text.asciiHexValue? (Char.ofNat a.toNat)
  let low ← Text.asciiHexValue? (Char.ofNat b.toNat)
  return UInt8.ofNat (high * 16 + low)

/-- The bytes that a text with percent signs writes. A percent sign without two digits stands
for itself. The number tells how many bytes have been taken in already. -/
def unescapedFrom : Nat → List UInt8 → List UInt8
  | _, [] => []
  | taken + 1, _ :: bs => unescapedFrom taken bs
  | 0, b :: bs =>
      if b = 0x25 then
        match bs with
        | x :: y :: _ =>
            match hexPair? x y with
            | some byte => byte :: unescapedFrom 2 bs
            | none => b :: unescapedFrom 0 bs
        | _ => b :: unescapedFrom 0 bs
      else
        b :: unescapedFrom 0 bs

/-- The text that a text with percent signs writes. -/
def unescaped (s : String) : String :=
  Text.Utf8.lossyText (unescapedFrom 0 s.toUTF8.toList)

/-- A name or value of a parameter, where a plus sign writes a space. -/
def word (cs : List Char) : String :=
  unescaped (String.ofList (cs.map fun c => if c = '+' then ' ' else c))

/-- The parameter that a part of a query writes; a part without an equals sign has the empty
value. -/
def parameter (cs : List Char) : String × String :=
  (word (cs.takeWhile (· != '=')), word ((cs.dropWhile (· != '=')).drop 1))

def parametersOf (query : List Char) : List (String × String) :=
  ((Text.pieces '&' query).filter (· != [])).map parameter

/-- A path without the name of a server, which stands behind two slashes. -/
def withoutServer : List Char → List Char
  | '/' :: '/' :: cs => cs.dropWhile (· != '/')
  | cs => cs

/-- Takes one more step of a path. A step of one point stays, and one of two points leads up, but
not above the root. -/
def takeStep (steps : List (List Char)) (step : List Char) : List (List Char) :=
  if step = ['.'] then steps
  else if step = ['.', '.'] then if steps = [[]] then steps else steps.dropLast
  else steps ++ [step]

/-- A path from the root without the steps that stay or lead up. -/
def fromRoot (cs : List Char) : List Char :=
  let steps := (Text.pieces '/' ('/' :: cs.dropWhile (· == '/'))).foldl takeStep []
  ['/'].intercalate steps

/-- The address that a text writes, without a mark of a place in the page. -/
def ofText (s : String) : Address :=
  let cs := s.toList.takeWhile (· != '#')
  let path := unescaped (String.ofList (fromRoot (withoutServer (cs.takeWhile (· != '?')))))
  ⟨if path = "" then "/" else path, parametersOf ((cs.dropWhile (· != '?')).drop 1)⟩

/-- The value of a parameter: the last one counts. -/
def value? (address : Address) (name : String) : Option String :=
  Ordered.get? address.parameters.reverse name

end Address

end ContractBench.Service
