import ContractBench.Json.Reader
import ContractBench.Text.Utf8
import ContractBench.Text.Wide

/-! # Encoded JSON texts

JSON texts as bytes. A mark at the front or zeros among the first bytes tell the encoding; without
them it is UTF-8.
-/

namespace ContractBench.Json

/-- Code points without a mark in front. -/
def withoutMark : List Nat → List Nat
  | n :: ns => if n = orderMark then ns else n :: ns
  | [] => []

/-- The code points that bytes write. -/
def pointsOf? (bs : List UInt8) : Option (List Nat) :=
  match Text.Wide.ofMark? bs with
  | some (encoding, rest) => encoding.points? rest
  | none =>
      match Text.Wide.ofZeros? bs with
      | some encoding => encoding.points? bs
      | none => (Text.Utf8.text? bs).map fun s => withoutMark (Text.points s)

/-- The value that the bytes of a JSON text write. -/
def readBytes (bs : List UInt8) : Except ReadError Value :=
  match pointsOf? bs with
  | some ps => readAll ps
  | none => .error .undecodable

end ContractBench.Json
