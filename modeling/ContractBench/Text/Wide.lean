import ContractBench.Text.Points

/-! # Wide encodings

UTF-16 and UTF-32 in either order of bytes. What is read are code points; halves of pairs that
stand alone are kept.
-/

namespace ContractBench.Text

/-- The encodings of wide units, named for the bytes of a unit and for their order. -/
inductive Wide where
  | two (highFirst : Bool)
  | four (highFirst : Bool)
deriving DecidableEq, Repr

namespace Wide

/-- The number that two bytes write. -/
def pair (highFirst : Bool) (a b : Nat) : Nat :=
  if highFirst then a * 0x100 + b else b * 0x100 + a

/-- The units of two bytes. No byte may be left over. -/
def twos? (highFirst : Bool) : List UInt8 → Option (List Nat)
  | [] => some []
  | a :: b :: bs => (twos? highFirst bs).map (pair highFirst a.toNat b.toNat :: ·)
  | [_] => none

/-- The code points of units of two bytes: those of a pair belong together. -/
def joinedUnits : List Nat → List Nat
  | [] => []
  | [n] => [n]
  | n :: m :: ns =>
      if isFirstHalf n && isSecondHalf m then joinedHalves n m :: joinedUnits ns
      else n :: joinedUnits (m :: ns)

/-- The code points of units of four bytes, given as units of two bytes. No unit may be left
over, and none may be too great. -/
def fours? (highFirst : Bool) : List Nat → Option (List Nat)
  | [] => some []
  | [_] => none
  | n :: m :: ns =>
      let point := if highFirst then n * 0x10000 + m else m * 0x10000 + n
      if point < 0x110000 then (fours? highFirst ns).map (point :: ·) else none

/-- The code points that bytes write. -/
def points? (encoding : Wide) (bs : List UInt8) : Option (List Nat) :=
  match encoding with
  | .two highFirst => (twos? highFirst bs).map joinedUnits
  | .four highFirst => (twos? highFirst bs).bind (fours? highFirst)

/-- The wide encoding that a mark in front of a text tells, and the bytes behind the mark. -/
def ofMark? : List UInt8 → Option (Wide × List UInt8)
  | 0x00 :: 0x00 :: 0xFE :: 0xFF :: bs => some (.four true, bs)
  | 0xFF :: 0xFE :: 0x00 :: 0x00 :: bs => some (.four false, bs)
  | 0xFE :: 0xFF :: bs => some (.two true, bs)
  | 0xFF :: 0xFE :: bs => some (.two false, bs)
  | _ => none

/-- The wide encoding that the zeros among the first bytes of an ASCII text tell. Without a zero
there is none. -/
def ofZeros? : List UInt8 → Option Wide
  | [a, b] =>
      if a = 0 then some (.two true) else if b = 0 then some (.two false) else none
  | a :: b :: c :: d :: _ =>
      if a = 0 then some (if b = 0 then .four true else .two true)
      else if b = 0 then some (if c = 0 ∧ d = 0 then .four false else .two false)
      else none
  | _ => none

end Wide

end ContractBench.Text
