import ContractBench.Source.Directive
import ContractBench.Source.Library
import ContractBench.Source.Resolution
import ContractBench.Source.Walk

/-! # Flattening

Writes a source and the files that it needs as one file: a header with the licence and the pragma
of the source, then the bodies, each once and each after the files that it imports.
-/

namespace ContractBench.Source

/-- The path under which a table of sources has what a file imports: a relative path is looked
up as it is, and in the library where the table does not have it. -/
def lookupPath (scope : String) (sources : List (RawText × String))
    (current specifier : RawText) : RawText :=
  if isRelative specifier then
    let path := resolve current specifier
    if Ordered.has sources path || RawText.beginsWith scope path then path else scope ++ path
  else
    specifier

/-- What a flattening has still to do: follow an import, or write a file whose imports have been
followed. -/
inductive Task where
  | follow (next : Import)
  | write (file : SourceFile)
deriving Repr

def tasksOf (file : SourceFile) : List Task :=
  (importsOf file.path file.content).map .follow ++ [.write file]

/-- The state of a flattening: the paths entered and the files written, both in order. -/
structure Inlining where
  entered : List RawText
  written : List SourceFile
deriving Repr

namespace Inlining

/-- The state when the submitted file has been entered. -/
def start (entry : SourceFile) : Inlining := ⟨[entry.path], []⟩

/-- Works off one task, which brings the tasks of the file that is entered. An import that the
table does not have, or that leads to a file entered before, is left alone. -/
def perform (scope : String) (sources : List (RawText × String)) (s : Inlining) :
    Task → Inlining × Option (List Task)
  | .write file => ({ s with written := s.written ++ [file] }, some [])
  | .follow next =>
      let path := lookupPath scope sources next.importer next.specifier
      match Ordered.get? sources path with
      | none => (s, some [])
      | some content =>
          -- A path is entered before its imports are followed, so a cycle ends here.
          if path ∈ s.entered then
            (s, some [])
          else
            ({ s with entered := s.entered ++ [path] }, some (tasksOf ⟨path, content⟩))

/-- All that following an import can do: nothing, or entering the file that the table has. -/
theorem perform_follow_cases (scope : String) (sources : List (RawText × String)) (s : Inlining)
    (next : Import) :
    (perform scope sources s (.follow next) = (s, some []) ∧
      ∀ content, Ordered.get? sources (lookupPath scope sources next.importer next.specifier) =
        some content → lookupPath scope sources next.importer next.specifier ∈ s.entered) ∨
    ∃ path content, lookupPath scope sources next.importer next.specifier = path ∧
      Ordered.get? sources path = some content ∧ path ∉ s.entered ∧
      perform scope sources s (.follow next) =
        ({ s with entered := s.entered ++ [path] }, some (tasksOf ⟨path, content⟩)) := by
  simp only [perform]
  cases hget : Ordered.get? sources (lookupPath scope sources next.importer next.specifier) with
  | none => exact Or.inl ⟨rfl, by simp⟩
  | some content =>
      by_cases hmem : lookupPath scope sources next.importer next.specifier ∈ s.entered
      · exact Or.inl ⟨if_pos hmem, fun _ _ => hmem⟩
      · exact Or.inr ⟨_, content, rfl, hget, hmem, if_neg hmem⟩

/-- No task ends a flattening. -/
theorem perform_ne_none (scope : String) (sources : List (RawText × String)) (s t : Inlining)
    (task : Task) : perform scope sources s task ≠ (t, none) := by
  cases task with
  | write file => simp [perform]
  | follow next =>
      obtain ⟨hskip, -⟩ | ⟨path, content, -, -, -, henter⟩ :=
        perform_follow_cases scope sources s next
      · simp [hskip]
      · simp [henter]

end Inlining

def taskCount (content : String) : Nat := importCount content + 1

theorem length_tasksOf (file : SourceFile) : (tasksOf file).length = taskCount file.content := by
  simp [tasksOf, length_importsOf, taskCount]

/-- The number of tasks that a flattening can meet: every file is entered at most once. -/
def taskBound (sources : List (RawText × String)) (content : String) : Nat :=
  taskCount content + unseenWork Prod.fst (fun source => taskCount source.2) [] sources

namespace Inlining

/-- The files that are still to be entered pay for their tasks. -/
theorem perform_pays {scope : String} {sources : List (RawText × String)} (s : Inlining)
    (task : Task) (t : Inlining) (more : List Task)
    (h : perform scope sources s task = (t, some more)) :
    more.length + unseenWork Prod.fst (fun source => taskCount source.2) t.entered sources ≤
      unseenWork Prod.fst (fun source => taskCount source.2) s.entered sources := by
  cases task with
  | write file =>
      cases h
      simp
  | follow next =>
      obtain ⟨hskip, -⟩ | ⟨path, content, -, hget, hnew, henter⟩ :=
        perform_follow_cases scope sources s next
      · cases hskip.symm.trans h
        simp
      · cases henter.symm.trans h
        have hmore : ∀ p ∈ s.entered, p ∈ s.entered ++ [path] := fun _ => List.mem_append_left _
        have hpaid := unseenWork_add_le Prod.fst (fun source => taskCount source.2)
          (Ordered.mem_of_get?_eq_some hget) hnew hmore (by simp)
        rw [length_tasksOf]
        dsimp only at hpaid ⊢
        omega

/-- Every flattening ends. -/
theorem walk_isSome (scope : String) (sources : List (RawText × String)) (entry : SourceFile) :
    (walk (perform scope sources) (taskBound sources entry.content) (tasksOf entry)
      (start entry)).isSome = true := by
  apply Source.walk_isSome perform_pays
  have hwork : unseenWork Prod.fst (fun source => taskCount source.2) (start entry).entered
      sources ≤ unseenWork Prod.fst (fun source => taskCount source.2) [] sources :=
    unseenWork_mono Prod.fst (fun source => taskCount source.2) (List.forall_mem_nil _)
  rw [length_tasksOf, taskBound]
  omega

end Inlining

/-- Walks through a source and the files that it needs. -/
def inlining (scope : String) (sources : List (RawText × String)) (entry : SourceFile) : Inlining :=
  (walk (Inlining.perform scope sources) (taskBound sources entry.content) (tasksOf entry)
    (Inlining.start entry)).get (Inlining.walk_isSome scope sources entry)

theorem walk_taskBound (scope : String) (sources : List (RawText × String)) (entry : SourceFile) :
    walk (Inlining.perform scope sources) (taskBound sources entry.content) (tasksOf entry)
      (Inlining.start entry) = some (inlining scope sources entry) :=
  (Option.some_get _).symm

/-- The remark under the header of a flattened file. -/
def flattenedNotice : List String :=
  ["// This file was flattened using a custom flattening tool",
    "// All imports have been resolved and inlined"]

/-- The lines of the header of a source: its licence and its pragma. -/
def header (source : String) : List String :=
  ["// SPDX-License-Identifier: " ++ licenceOf source, pragmaOf source, ""]

/-- The bodies of files without directives; a file that has nothing else is left out. -/
def bodies (files : List SourceFile) : List String :=
  (files.map fun file => cleaned file.content).filter (· != "")

/-- A source and the files that it needs as one file. -/
def flatten (scope : String) (sources : List (RawText × String)) (entry : SourceFile) : String :=
  Text.joined "\n"
    (header entry.content ++ flattenedNotice ++ [""] ++
      bodies (inlining scope sources entry).written)

/-- A source alone, with its header in standard form and without imports. -/
def flattenAlone (source : String) : String :=
  Text.joined "\n" (header source ++ [cleaned source])

/-- A source flattened with what is found for it in the library. -/
def flattenResolved (library : Library) (web : Web) (content : String) (path : RawText) :
    Except Failure String × List RawText :=
  let resolution := resolveAll library web content path
  (resolution.outcome.map fun set => flatten library.scope set.dependencies ⟨path, content⟩,
    resolution.asked)

end ContractBench.Source
