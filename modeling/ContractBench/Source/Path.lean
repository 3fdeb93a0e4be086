import ContractBench.Text.Raw

/-! # Paths

Paths of source files, and relative paths read from the file that holds them. A client can name
its file by any text, so a path may be broken.
-/

namespace ContractBench.Source

def slash : CodePoint := '/'

def segments (path : RawText) : List (List CodePoint) := Text.pieces slash path.points

def ofSegments (parts : List (List CodePoint)) : RawText := ⟨[slash].intercalate parts⟩

/-- The segment that stays. -/
def here : List CodePoint := ['.']

/-- The segment that goes up. -/
def up : List CodePoint := ['.', '.']

/-- Whether a path is to be read from the place of the file that names it. -/
def isRelative (path : RawText) : Bool :=
  RawText.beginsWith "./" path || RawText.beginsWith "../" path

/-- One step along a relative path: two dots go up, where there is an up, one dot and the empty
segment stay, and a name goes down. -/
def moveAlong (place : List (List CodePoint)) (segment : List CodePoint) :
    List (List CodePoint) :=
  if segment = up then place.dropLast
  else if segment = here ∨ segment = [] then place
  else place ++ [segment]

def folder (path : RawText) : List (List CodePoint) := (segments path).dropLast

/-- The path that a specifier names in the given file. A specifier that is not relative is a
path itself. -/
def resolve (current specifier : RawText) : RawText :=
  if isRelative specifier then
    ofSegments ((segments specifier).foldl moveAlong (folder current))
  else
    specifier

end ContractBench.Source
