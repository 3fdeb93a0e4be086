import ContractBench.Text.Points

/-! # UTF-8

Reading texts from their bytes. Bytes that belong to no character are read as gaps: one gap for
the longest part of a character that stands there, or for a single byte.
-/

namespace ContractBench.Text.Utf8

/-- A character that has been begun: its number so far, how many bytes are awaited, and the
range in which the next one has to be. -/
structure Begun where
  number : Nat
  awaited : Nat
  low : Nat
  high : Nat
deriving DecidableEq, Repr

/-- Reads a first byte: a whole character, the beginning of one, or none of the two. -/
def first (b : Nat) : Except (Option Char) Begun :=
  -- The ranges leave out long forms, halves of pairs and what lies beyond the last plane.
  if b < 0x80 then .error (some (Char.ofNat b))
  else if 0xC2 ≤ b ∧ b ≤ 0xDF then .ok ⟨b - 0xC0, 1, 0x80, 0xBF⟩
  else if b = 0xE0 then .ok ⟨0, 2, 0xA0, 0xBF⟩
  else if b = 0xED then .ok ⟨0xD, 2, 0x80, 0x9F⟩
  else if 0xE1 ≤ b ∧ b ≤ 0xEF then .ok ⟨b - 0xE0, 2, 0x80, 0xBF⟩
  else if b = 0xF0 then .ok ⟨0, 3, 0x90, 0xBF⟩
  else if 0xF1 ≤ b ∧ b ≤ 0xF3 then .ok ⟨b - 0xF0, 3, 0x80, 0xBF⟩
  else if b = 0xF4 then .ok ⟨4, 3, 0x80, 0x8F⟩
  else .error none

/-- Reads the bytes that follow a begun character, or the start of one. A gap is `none`. -/
def readFrom : Option Begun → List UInt8 → List (Option Char)
  | none, [] => []
  | some _, [] => [none]
  | none, b :: bs =>
      match first b.toNat with
      | .error c => c :: readFrom none bs
      | .ok begun => readFrom (some begun) bs
  | some begun, b :: bs =>
      if begun.low ≤ b.toNat ∧ b.toNat ≤ begun.high then
        let number := begun.number * 64 + (b.toNat - 0x80)
        if begun.awaited = 1 then some (Char.ofNat number) :: readFrom none bs
        else readFrom (some ⟨number, begun.awaited - 1, 0x80, 0xBF⟩) bs
      else
        -- The byte does not go on with the character: a gap, and reading starts anew at the byte.
        match first b.toNat with
        | .error c => none :: c :: readFrom none bs
        | .ok next => none :: readFrom (some next) bs

def read (bs : List UInt8) : List (Option Char) := readFrom none bs

/-- The text of a byte string without gaps. -/
def text? (bs : List UInt8) : Option String := ((read bs).mapM id).map String.ofList

/-- The text of a byte string, with a mark for each gap. -/
def lossyText (bs : List UInt8) : String :=
  String.ofList ((read bs).map (·.getD replacement))

end ContractBench.Text.Utf8
