import ContractBench.Ordered
import ContractBench.Text.Raw

/-! # Source sets

The sources of one compilation: the submitted file and the dependencies, by path, in the order in
which they were added.
-/

namespace ContractBench.Source

/-- A source file. -/
structure SourceFile where
  path : RawText
  content : String
deriving DecidableEq, Repr

/-- The submitted file and its dependencies. -/
structure SourceSet where
  entry : SourceFile
  /-- Contents of the dependencies by path. -/
  dependencies : List (RawText × String) := []
deriving DecidableEq, Repr

namespace SourceSet

/-- Adds a dependency; a later one with the same path takes the place of the earlier. -/
def add (set : SourceSet) (file : SourceFile) : SourceSet :=
  { set with dependencies := Ordered.put file.path file.content set.dependencies }

def contains (set : SourceSet) (path : RawText) : Bool :=
  path == set.entry.path || Ordered.has set.dependencies path

/-- The file with a path; the submitted file comes first. -/
def get? (set : SourceSet) (path : RawText) : Option SourceFile :=
  if path = set.entry.path then
    some set.entry
  else
    (Ordered.get? set.dependencies path).map fun content => ⟨path, content⟩

def size (set : SourceSet) : Nat := set.dependencies.length + 1

/-- The files in order, the submitted one first. -/
def toList (set : SourceSet) : List SourceFile :=
  set.entry :: set.dependencies.map fun (path, content) => ⟨path, content⟩

theorem map_path_toList (set : SourceSet) :
    set.toList.map SourceFile.path = set.entry.path :: Ordered.keys set.dependencies := by
  simp [toList, Ordered.keys]

theorem toList_add_of_not_has {set : SourceSet} {file : SourceFile}
    (h : Ordered.has set.dependencies file.path = false) :
    (set.add file).toList = set.toList ++ [file] := by
  simp [add, toList, Ordered.put_of_not_has h]

/-- The contents by path as the compiler gets them: a dependency with the path of the submitted
file replaces its content. -/
def compilerSources (set : SourceSet) : List (RawText × String) :=
  Ordered.ofEntries (set.toList.map fun file => (file.path, file.content))

/-- The compiler gets every file under its path. -/
theorem has_compilerSources {set : SourceSet} {path : RawText} :
    Ordered.has set.compilerSources path = true ↔
      path = set.entry.path ∨ path ∈ Ordered.keys set.dependencies := by
  rw [Ordered.has_iff_mem_keys, compilerSources, Ordered.mem_keys_ofEntries, ← List.mem_cons,
    ← map_path_toList, Ordered.keys, List.map_map]
  rfl

end SourceSet

end ContractBench.Source
