/-! # Scanning for directives

A source text as a sequence of characters and directives. A recogniser looks at what stands at
one place; a scan takes the leftmost directives, one after the other, without overlap.
-/

namespace ContractBench.Source

/-- A part of a source: a directive that was recognised, with its text, or a character between
directives. -/
inductive Piece (α : Type) where
  | character (c : Char)
  | directive (meaning : α) (raw : List Char)
deriving Repr, DecidableEq

namespace Piece

variable {α : Type}

def text : Piece α → List Char
  | character c => [c]
  | directive _ raw => raw

/-- What a directive says. -/
def meaning? : Piece α → Option α
  | character _ => none
  | directive meaning _ => some meaning

/-- The text of a directive. -/
def raw? : Piece α → Option (List Char)
  | character _ => none
  | directive _ raw => some raw

/-- The text that stays when directives are removed. -/
def plain : Piece α → List Char
  | character c => [c]
  | directive _ _ => []

end Piece

/-- A recogniser gets the character before a place and the text from there on. It answers what
the directive says and the text that follows it. -/
abbrev Recogniser (α : Type) := Option Char → List Char → Option (α × List Char)

variable {α : Type}

/-- The pieces of a text. The second argument counts the characters that still belong to the
last directive. -/
def scanFrom (recognise : Recogniser α) : Option Char → Nat → List Char → List (Piece α)
  | _, _, [] => []
  | _, inside + 1, c :: cs => scanFrom recognise (some c) inside cs
  | before, 0, c :: cs =>
      match recognise before (c :: cs) with
      | none => .character c :: scanFrom recognise (some c) 0 cs
      | some (meaning, rest) =>
          let length := (c :: cs).length - rest.length
          .directive meaning ((c :: cs).take length) ::
            scanFrom recognise (some c) (length - 1) cs

def scan (recognise : Recogniser α) (cs : List Char) : List (Piece α) :=
  scanFrom recognise none 0 cs

/-- What the directives of a text say, in order. -/
def meanings (recognise : Recogniser α) (cs : List Char) : List α :=
  (scan recognise cs).filterMap Piece.meaning?

/-- The text of the first directive. -/
def firstRaw? (recognise : Recogniser α) (cs : List Char) : Option (List Char) :=
  (scan recognise cs).findSome? Piece.raw?

/-- A text without its directives. -/
def without (recognise : Recogniser α) (cs : List Char) : List Char :=
  (scan recognise cs).flatMap Piece.plain

end ContractBench.Source
