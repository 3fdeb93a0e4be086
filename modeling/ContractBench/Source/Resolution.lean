import ContractBench.Source.Directive
import ContractBench.Source.Library
import ContractBench.Source.SourceSet
import ContractBench.Source.Walk

/-! # Resolution

Collects the files of the library that a source needs, directly or through others. The search
keeps a list of imports that wait: it takes the first one, and puts the imports of a file that it
finds in front of those that wait. So files come in the order of a depth-first walk.
-/

namespace ContractBench.Source

/-- An import of a file. -/
structure Import where
  importer : RawText
  specifier : String
deriving DecidableEq, Repr

def importsOf (path : RawText) (content : String) : List Import :=
  (findImports content).map fun specifier => ⟨path, specifier⟩

def importCount (content : String) : Nat := (findImports content).length

theorem length_importsOf (path : RawText) (content : String) :
    (importsOf path content).length = importCount content := by
  simp [importsOf, importCount]

/-- The state of a search for dependencies. -/
structure Search where
  set : SourceSet
  /-- The submitted path and the paths that were asked for, found or not. -/
  visited : List RawText
  /-- The paths that were asked for, in order. -/
  asked : List RawText
  /-- The failure that ended the search. -/
  failure : Option Failure := none
deriving Repr

namespace Search

def start (path : RawText) (content : String) : Search where
  set := ⟨⟨path, content⟩, []⟩
  visited := [path]
  asked := []

/-- Notes that a path is asked for. -/
def ask (s : Search) (path : RawText) : Search :=
  { s with visited := path :: s.visited, asked := s.asked ++ [path] }

/-- Adds a file that was found. -/
def keep (s : Search) (path : RawText) (content : String) : Search :=
  { s with set := s.set.add ⟨path, content⟩ }

def fail (s : Search) (failure : Failure) : Search := { s with failure := some failure }

/-- Takes one import, which brings the imports of the file that is found. A file that cannot be had
is left out; any other failure ends the search. -/
def take (library : Library) (supply : Supply) (s : Search) (next : Import) :
    Search × Option (List Import) :=
  match library.canonical? next.importer next.specifier with
  | none => (s, some [])
  | some path =>
      if path ∈ s.visited then
        (s, some [])
      else
        match supply path with
        | .ok content => ((s.ask path).keep path content, some (importsOf path content))
        | .error (.fetching ..) => (s.ask path, some [])
        | .error failure => ((s.ask path).fail failure, none)

/-- All that taking an import can do: nothing, where the import leads outside the library or to a
path that was visited, or else asking for its path, with one of three answers. -/
theorem take_cases (library : Library) (supply : Supply) (s : Search) (next : Import) :
    (take library supply s next = (s, some []) ∧
      ∀ path, library.canonical? next.importer next.specifier = some path → path ∈ s.visited) ∨
    ∃ path, library.canonical? next.importer next.specifier = some path ∧ path ∉ s.visited ∧
      ((∃ content, supply path = .ok content ∧ take library supply s next =
          ((s.ask path).keep path content, some (importsOf path content))) ∨
        (∃ asked reason, supply path = .error (.fetching asked reason) ∧
          take library supply s next = (s.ask path, some [])) ∨
        ∃ failure, supply path = .error failure ∧
          (∀ asked reason, failure ≠ .fetching asked reason) ∧
          take library supply s next = ((s.ask path).fail failure, none)) := by
  unfold take
  cases hpath : library.canonical? next.importer next.specifier with
  | none => exact Or.inl ⟨rfl, by simp⟩
  | some path =>
      by_cases hmem : path ∈ s.visited
      · exact Or.inl ⟨if_pos hmem, by simpa using hmem⟩
      · refine Or.inr ⟨path, rfl, hmem, ?_⟩
        simp only [if_neg hmem]
        split
        next content hcontent => exact Or.inl ⟨content, hcontent, rfl⟩
        next asked reason hmissing => exact Or.inr (Or.inl ⟨asked, reason, hmissing, rfl⟩)
        next failure hother hfailure =>
          exact Or.inr (Or.inr ⟨failure, hfailure, fun asked reason heq =>
            hother asked reason (heq ▸ rfl), rfl⟩)

end Search

/-- The number of imports that come with the answer for a path. -/
def answerImports (supply : Supply) (path : RawText) : Nat :=
  match supply path with
  | .ok content => importCount content
  | .error _ => 0

/-- The number of imports that a search can meet where only the given paths are answered with a
text: every one of them is entered at most once. -/
def searchBound (supply : Supply) (answered : List RawText) (content : String) : Nat :=
  importCount content + unseenWork id (answerImports supply) [] answered

/-- The answers that are still to come pay for the imports that they bring. -/
theorem Search.take_pays {library : Library} {supply : Supply} {answered : List RawText}
    (hanswered : ∀ path content, supply path = .ok content → path ∈ answered)
    (s : Search) (next : Import) (t : Search) (more : List Import)
    (h : take library supply s next = (t, some more)) :
    more.length + unseenWork id (answerImports supply) t.visited answered ≤
      unseenWork id (answerImports supply) s.visited answered := by
  obtain ⟨htake, -⟩ | ⟨path, -, hnew, hanswer⟩ := take_cases library supply s next
  · cases htake.symm.trans h
    simp
  · have hmore : ∀ p ∈ s.visited, p ∈ path :: s.visited := fun _ => List.mem_cons_of_mem _
    obtain ⟨content, hcontent, htake⟩ | ⟨asked, reason, -, htake⟩ | ⟨failure, -, -, htake⟩ :=
      hanswer
    · cases htake.symm.trans h
      -- The path is seen from now on, which frees the work that its imports bring.
      have hpaid := unseenWork_add_le id (answerImports supply)
        (hanswered path content hcontent) hnew hmore List.mem_cons_self
      have hcount : answerImports supply path = importCount content := by
        rw [answerImports, hcontent]
      rw [length_importsOf]
      simp only [keep, ask]
      omega
    · cases htake.symm.trans h
      rw [List.length_nil, Nat.zero_add]
      exact unseenWork_mono id (answerImports supply) hmore
    · cases htake.symm.trans h

/-- The outcome of a search: the files, or the failure that ended it, and the paths that were
asked for. -/
structure Resolution where
  outcome : Except Failure SourceSet
  asked : List RawText

/-- The outcome of a search that has come to an end. -/
def Search.toResolution (s : Search) : Resolution where
  outcome :=
    match s.failure with
    | none => .ok s.set
    | some failure => .error failure
  asked := s.asked

/-- Collects the dependencies of a source that is submitted under a path, from any supply; none if
the search does not end within the given number of steps. -/
def resolveWithin (library : Library) (supply : Supply) (steps : Nat) (content : String)
    (path : RawText) : Option Resolution :=
  (walk (Search.take library supply) steps (importsOf path content)
    (Search.start path content)).map Search.toResolution

theorem resolveWithin_of_le {library : Library} {supply : Supply} {steps more : Nat}
    (hle : steps ≤ more) {content : String} {path : RawText} {resolution : Resolution}
    (h : resolveWithin library supply steps content path = some resolution) :
    resolveWithin library supply more content path = some resolution := by
  obtain ⟨s, hwalk, rfl⟩ := Option.map_eq_some_iff.mp h
  rw [resolveWithin, walk_of_le hle hwalk]
  rfl

/-- Where only listed paths are answered with a text, every search ends. -/
theorem resolveWithin_isSome {library : Library} {supply : Supply} {answered : List RawText}
    (hanswered : ∀ path content, supply path = .ok content → path ∈ answered)
    (content : String) (path : RawText) :
    (resolveWithin library supply (searchBound supply answered content) content path).isSome =
      true := by
  rw [resolveWithin, Option.isSome_map]
  apply walk_isSome (Search.take_pays hanswered)
  have hwork : unseenWork id (answerImports supply) (Search.start path content).visited answered ≤
      unseenWork id (answerImports supply) [] answered :=
    unseenWork_mono id (answerImports supply) (List.forall_mem_nil _)
  rw [length_importsOf, searchBound]
  omega

/-- The number of steps in which a search of the library on the web ends. -/
def webBound (library : Library) (web : Web) (content : String) : Nat :=
  searchBound (library.fetch web) (library.answered web) content

/-- Collects the dependencies of a source that is submitted under a path. The web has only so many
pages, so the search ends. -/
def resolveAll (library : Library) (web : Web) (content : String) (path : RawText) :
    Resolution :=
  (resolveWithin library (library.fetch web) (webBound library web content) content path).get
    (resolveWithin_isSome (fun _ _ h => Library.mem_answered_of_fetch_ok h) content path)

theorem resolveWithin_webBound (library : Library) (web : Web) (content : String)
    (path : RawText) :
    resolveWithin library (library.fetch web) (webBound library web content) content path =
      some (resolveAll library web content path) :=
  (Option.some_get _).symm

end ContractBench.Source
