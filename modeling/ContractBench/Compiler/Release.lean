import ContractBench.Response
import ContractBench.Text.Word

/-! # Releases

The releases of the compiler: their short versions, the names of their builds, and their long
versions, which name the commit. A manifest lists the releases; where it does not give the long
version of a build, the name of the build tells it.
-/

namespace ContractBench.Compiler

/-- A release of the compiler. -/
structure Release where
  /-- The short version. -/
  version : RawText
  /-- The name of the build, as the manifest lists it. -/
  build : Value
  longVersion : RawText
deriving Repr

section LongVersion

/-- The longest run of characters that pass a test at the front, if it is not empty, and what
follows it. -/
def run? (test : Char → Bool) (cs : List Char) : Option (List Char × List Char) :=
  match cs.span test with
  | ([], _) => none
  | found => some found

/-- Lower-case hexadecimal digits. -/
def isCommitDigit (c : Char) : Bool := ('0' ≤ c && c ≤ '9') || ('a' ≤ c && c ≤ 'f')

/-- The characters of the name of a preliminary version. -/
def isPreliminary (c : Char) : Bool := Text.isWord c || c == '.'

/-- Three numbers with points between them at the front, and what follows them. -/
def triple? (cs : List Char) : Option (List Char × List Char) := do
  let (major, rest) ← run? Text.isDecimal cs
  let (minor, rest) ← run? Text.isDecimal (← Text.afterPrefix? ['.'] rest)
  let (patch, rest) ← run? Text.isDecimal (← Text.afterPrefix? ['.'] rest)
  return (major ++ '.' :: minor ++ '.' :: patch, rest)

def commit? (cs : List Char) : Option (List Char) := do
  let mark := "+commit.".toList
  let (digits, _) ← run? isCommitDigit (← Text.afterPrefix? mark cs)
  return mark ++ digits

/-- The name of a preliminary version at the front, or nothing, and what follows it. -/
def preliminary (cs : List Char) : List Char × List Char :=
  match cs with
  | '-' :: rest =>
      match run? isPreliminary rest with
      | some (name, after) => ('-' :: name, after)
      | none => ([], cs)
  | _ => ([], cs)

/-- A long version without its `v` at the front. -/
def longVersion? (cs : List Char) : Option (List Char) := do
  let (numbers, rest) ← triple? cs
  let (name, rest) := preliminary rest
  return numbers ++ name ++ (← commit? rest)

/-- The first long version in a text, with its `v`. -/
def findLongVersion? : List Char → Option (List Char)
  | [] => none
  | c :: cs =>
      if c = 'v' then
        match longVersion? cs with
        | some found => some ('v' :: found)
        | none => findLongVersion? cs
      else
        findLongVersion? cs

/-- The long version that the name of a build tells: the one in it, or else the name without the
marks of a script build. -/
def longVersionOfBuild (build : RawText) : RawText :=
  -- No part of a long version is a half, nor what it is replaced by.
  match findLongVersion? build.replaced.toList with
  | some found => String.ofList found
  | none => RawText.erasing ".js" (RawText.erasing "soljson-" build)

end LongVersion

section Manifest

/-- A member of a build of a manifest, null where it is missing. -/
def member (build : Value) (name : String) : Except Fault Value := build.getD name .null

/-- The long versions by the names of the builds. -/
def longVersions : List (Value × Value) → List Value → Except Fault (List (Value × Value))
  | table, [] => .ok table
  | table, build :: builds => do
      let path ← member build "path"
      let long ← member build "longVersion"
      if path.isKey then longVersions (Ordered.put path long table) builds
      else throw (.notHashable path.kind)

/-- The long version that a manifest lists, with a `v` in front. -/
def listedVersion (long : Value) : Except Fault RawText := long.shown.map ("v" ++ ·)

/-- The long version that the name of a build tells, which has to be a text. -/
def namedVersion (build : Value) : Except Fault RawText :=
  match build.raw? with
  | some name => .ok (longVersionOfBuild name)
  | none => .error (.notText build.kind)

def release (table : List (Value × Value)) (version : RawText) (build : Value) :
    Except Fault Release := do
  if !build.isKey then
    throw (.notHashable build.kind)
  let long := (Ordered.get? table build).getD .null
  if long.isTruthy then
    return ⟨version, build, ← listedVersion long⟩
  else
    return ⟨version, build, ← namedVersion build⟩

/-- The releases of builds, by version. -/
def releasesOf (table : List (Value × Value)) :
    List (Value × Value) → Except Fault (List (RawText × Release))
  | [] => .ok []
  | (key, build) :: rest => do
      -- The keys of a table that JSON writes are texts.
      let version := key.raw?.getD ""
      let first ← release table version build
      return (version, first) :: (← releasesOf table rest)

/-- The releases that a manifest lists, in its order. -/
def manifestReleases (manifest : Value) : Except Fault (List (RawText × Release)) := do
  let table ← longVersions [] (← (← manifest.getD "builds" (.list [])).items)
  releasesOf table (← (← manifest.getD "releases" (.table [])).entries)

end Manifest

end ContractBench.Compiler
