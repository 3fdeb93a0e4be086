import ContractBench.Source.Flattening
import Mathlib.Data.List.Basic
import Mathlib.Data.List.Nodup
import Mathlib.Data.List.Perm.Basic
import Mathlib.Logic.Relation

/-! # Postorder of a flattening

A flattening writes each file that the submitted one reaches once, and writes a file after the
files that it imports, unless these lead back to it. The tasks that wait form a stack of opened
files, each of which reaches those above it; an import of a file that has not been written when the
file is written is on that stack, so it leads back.
-/

namespace ContractBench.Source

/-- Where an import leads in a set. -/
abbrev Import.target (scope : String) (set : SourceSet) (next : Import) : RawText :=
  lookupPath scope set.dependencies next.importer next.specifier

/-- A file of a set imports what lies under a path. -/
def Imports (scope : String) (set : SourceSet) (importer path : RawText) : Prop :=
  ∃ file, set.get? importer = some file ∧
    ∃ specifier ∈ findImports file.content,
      lookupPath scope set.dependencies importer specifier = path

/-- A file of a set imports a dependency. -/
def Follows (scope : String) (set : SourceSet) (importer path : RawText) : Prop :=
  Imports scope set importer path ∧ path ∈ Ordered.keys set.dependencies

/-- A file of a set leads to a file over imports of dependencies. -/
abbrev Reaches (scope : String) (set : SourceSet) : RawText → RawText → Prop :=
  Relation.ReflTransGen (Follows scope set)

theorem SourceSet.get?_entry (set : SourceSet) : set.get? set.entry.path = some set.entry :=
  if_pos rfl

theorem SourceSet.get?_of_dependencies {set : SourceSet} {path : RawText} {content : String}
    (hne : path ≠ set.entry.path) (h : Ordered.get? set.dependencies path = some content) :
    set.get? path = some ⟨path, content⟩ := by
  rw [SourceSet.get?, if_neg hne, h]
  rfl

/-- Files of a set are those that the set has under their paths. -/
theorem SourceSet.filterMap_get?_paths {set : SourceSet} {files : List SourceFile}
    (h : ∀ file ∈ files, set.get? file.path = some file) :
    (files.map SourceFile.path).filterMap set.get? = files := by
  have hfiles : files.filterMap (set.get? ∘ SourceFile.path) = files.filterMap some :=
    List.filterMap_congr h
  rw [List.filterMap_map, hfiles, List.filterMap_some]

namespace Inlining

variable {scope : String} {set : SourceSet}

/-- The tasks that wait, with the files that are opened, the latest first. Every opened file is
reached from those below it, and when its turn to be written comes, all that it follows has been
seen: before, or through the imports that wait above it. -/
inductive Agenda (scope : String) (set : SourceSet) :
    List RawText → List RawText → List Task → Prop
  | done (seen : List RawText) : Agenda scope set seen [] []
  | follow {seen below : List RawText} {tasks : List Task} (next : Import)
      (himports : Imports scope set next.importer (next.target scope set))
      (rest : Agenda scope set (next.target scope set :: seen) (next.importer :: below) tasks) :
      Agenda scope set seen (next.importer :: below) (.follow next :: tasks)
  | write {seen below : List RawText} {file : SourceFile} {tasks : List Task}
      (hfile : set.get? file.path = some file)
      (hseen : ∀ path, Follows scope set file.path path → path ∈ seen)
      (hbelow : ∀ path ∈ below, Reaches scope set path file.path)
      (rest : Agenda scope set seen below tasks) :
      Agenda scope set seen (file.path :: below) (.write file :: tasks)

theorem Agenda.mono {seen more opened : List RawText} {tasks : List Task}
    (h : Agenda scope set seen opened tasks)
    (hmore : ∀ path ∈ seen, path ∈ Ordered.keys set.dependencies → path ∈ more) :
    Agenda scope set more opened tasks := by
  induction h generalizing more with
  | done => exact .done more
  | follow next himports rest ih =>
      refine .follow next himports (ih fun path hmem hkey => ?_)
      rcases List.mem_cons.mp hmem with rfl | hmem
      · exact List.mem_cons_self
      · exact List.mem_cons_of_mem _ (hmore path hmem hkey)
  | write hfile hseen hbelow rest ih =>
      exact .write hfile (fun path hpath => hmore path (hseen path hpath) hpath.2) hbelow
        (ih hmore)

/-- All opened files reach the one opened last. -/
theorem Agenda.reaches_last {seen below : List RawText} {last : RawText} {tasks : List Task}
    (h : Agenda scope set seen (last :: below) tasks) :
    ∀ path ∈ last :: below, Reaches scope set path last := by
  generalize hopened : last :: below = opened at h
  induction h with
  | done => cases hopened
  | follow next himports rest ih => exact ih hopened
  | write hfile hseen hbelow rest ih =>
      cases hopened
      intro path hpath
      rcases List.mem_cons.mp hpath with rfl | hpath
      · exact .refl
      · exact hbelow path hpath

/-- The imports of the file opened last may wait in front of what waits. -/
theorem Agenda.follows {file : SourceFile} (hfile : set.get? file.path = some file)
    {below : List RawText} {tasks : List Task} {imports : List Import}
    (himports : ∀ next ∈ imports, next ∈ importsOf file.path file.content)
    {seen : List RawText}
    (rest : Agenda scope set ((imports.map (Import.target scope set)).reverse ++ seen)
      (file.path :: below) tasks) :
    Agenda scope set seen (file.path :: below) (imports.map Task.follow ++ tasks) := by
  induction imports generalizing seen with
  | nil => simpa using rest
  | cons next imports ih =>
      obtain ⟨specifier, hspecifier, rfl⟩ :=
        List.mem_map.mp (himports next List.mem_cons_self)
      refine .follow ⟨file.path, specifier⟩ ⟨file, hfile, specifier, hspecifier, rfl⟩ (ih ?_ ?_)
      · exact fun next hnext => himports next (List.mem_cons_of_mem _ hnext)
      · simpa using rest

/-- A file may be opened where it is reached from all files that are opened. -/
theorem Agenda.opens {seen below : List RawText} {tasks : List Task}
    (h : Agenda scope set seen below tasks) (file : SourceFile)
    (hfile : set.get? file.path = some file)
    (hbelow : ∀ path ∈ below, Reaches scope set path file.path) :
    Agenda scope set seen (file.path :: below) (tasksOf file ++ tasks) := by
  rw [tasksOf, List.append_assoc]
  refine Agenda.follows hfile (fun _ h => h) (.write hfile ?_ hbelow ?_)
  · rintro path ⟨⟨importer, himporter, specifier, hspecifier, rfl⟩, -⟩
    obtain rfl := Option.some.inj (himporter.symm.trans hfile)
    refine List.mem_append_left _ (List.mem_reverse.mpr (List.mem_map.mpr ?_))
    exact ⟨⟨importer.path, specifier⟩, List.mem_map_of_mem hspecifier, rfl⟩
  · exact h.mono fun path hmem _ => List.mem_append_right _ hmem

/-- The paths of the files written, in order. -/
def writtenPaths (s : Inlining) : List RawText := s.written.map SourceFile.path

/-- What holds while tasks wait. -/
structure Invariant (scope : String) (set : SourceSet) (tasks : List Task) (s : Inlining) :
    Prop where
  agenda : ∃ opened, Agenda scope set s.entered opened tasks ∧
    (s.writtenPaths ++ opened).Perm s.entered
  nodup : s.entered.Nodup
  entry_mem : set.entry.path ∈ s.entered
  reached : ∀ path ∈ s.entered, Reaches scope set set.entry.path path
  files : ∀ file ∈ s.written, set.get? file.path = some file
  closed : ∀ importer ∈ s.writtenPaths, ∀ path, Follows scope set importer path → path ∈ s.entered
  ordered : ∀ importer ∈ s.writtenPaths, ∀ path, Follows scope set importer path →
    Reaches scope set path importer ∨ [path, importer].Sublist s.writtenPaths
  last : tasks.getLast? = some (.write set.entry) ∨
    tasks = [] ∧ s.written.getLast? = some set.entry

theorem invariant_start (scope : String) (set : SourceSet) :
    Invariant scope set (tasksOf set.entry) (start set.entry) where
  agenda := by
    refine ⟨[set.entry.path], ?_, List.Perm.refl _⟩
    have hdone : Agenda scope set [set.entry.path] [] [] := .done _
    simpa [start] using hdone.opens set.entry set.get?_entry (by simp)
  nodup := List.nodup_singleton _
  entry_mem := List.mem_singleton_self _
  reached := by
    intro path hpath
    obtain rfl := List.mem_singleton.mp hpath
    exact .refl
  files := by simp [start]
  closed := by simp [start, writtenPaths]
  ordered := by simp [start, writtenPaths]
  last := Or.inl (by simp [tasksOf])

variable {s : Inlining} {tasks : List Task}

/-- What a file follows that is about to be written leads back to it or was written before. -/
theorem Invariant.reaches_or_written {file : SourceFile}
    (h : Invariant scope set (.write file :: tasks) s) {path : RawText}
    (hpath : Follows scope set file.path path) :
    Reaches scope set path file.path ∨ path ∈ s.writtenPaths := by
  obtain ⟨opened, hagenda, hperm⟩ := h.agenda
  cases hagenda with
  | write hfile hseen hbelow rest =>
      -- All that the file follows has been entered, so it is written or still opened.
      have hentered := hperm.mem_iff.mpr (hseen path hpath)
      rcases List.mem_append.mp hentered with hwritten | hopened
      · exact Or.inr hwritten
      · rcases List.mem_cons.mp hopened with rfl | hopened
        · exact Or.inl .refl
        · exact Or.inl (hbelow path hopened)

/-- Writing the file opened last keeps the invariant. -/
theorem Invariant.write {file : SourceFile}
    (h : Invariant scope set (.write file :: tasks) s) :
    Invariant scope set tasks { s with written := s.written ++ [file] } := by
  have hpaths : writtenPaths { s with written := s.written ++ [file] } =
      s.writtenPaths ++ [file.path] := List.map_append
  obtain ⟨opened, hagenda, hperm⟩ := h.agenda
  cases hagenda with
  | @write _ below _ _ hfile hseen hbelow rest =>
      refine
        { h with
          agenda := ⟨below, rest, ?_⟩
          files := ?_
          closed := ?_
          ordered := ?_
          last := ?_ }
      · rw [hpaths, List.append_assoc]
        exact hperm
      · intro written hwritten
        rcases List.mem_append.mp hwritten with hwritten | hwritten
        · exact h.files written hwritten
        · obtain rfl := List.mem_singleton.mp hwritten
          exact hfile
      · intro importer himporter path hpath
        rw [hpaths] at himporter
        rcases List.mem_append.mp himporter with himporter | himporter
        · exact h.closed importer himporter path hpath
        · obtain rfl := List.mem_singleton.mp himporter
          exact hseen path hpath
      · intro importer himporter path hpath
        rw [hpaths] at himporter ⊢
        rcases List.mem_append.mp himporter with himporter | himporter
        · exact (h.ordered importer himporter path hpath).imp_right fun hsub =>
            hsub.trans (List.sublist_append_left _ _)
        · -- What the file imports is written by now, unless it leads back to the file.
          obtain rfl := List.mem_singleton.mp himporter
          exact (h.reaches_or_written hpath).imp_right fun hwritten =>
            (List.singleton_sublist.mpr hwritten).append (List.Sublist.refl _)
      · obtain hlast | ⟨hnil, -⟩ := h.last
        · cases tasks with
          | nil =>
              obtain rfl : file = set.entry := by simpa using hlast
              exact Or.inr ⟨rfl, List.getLast?_concat⟩
          | cons task tasks => exact Or.inl (by simpa using hlast)
        · cases hnil

/-- The last task writes the submitted file, so an import is not the last task. -/
theorem Invariant.getLast?_of_follow {next : Import}
    (h : Invariant scope set (.follow next :: tasks) s) :
    tasks.getLast? = some (.write set.entry) := by
  obtain hlast | ⟨hnil, -⟩ := h.last
  · cases tasks with
    | nil => simp at hlast
    | cons task tasks => simpa using hlast
  · cases hnil

/-- An import that leads to no dependency, or to one that was entered, may be forgotten. -/
theorem Invariant.skip {next : Import} (h : Invariant scope set (.follow next :: tasks) s)
    (hentered : ∀ content, Ordered.get? set.dependencies (next.target scope set) = some content →
      next.target scope set ∈ s.entered) :
    Invariant scope set tasks s := by
  obtain ⟨opened, hagenda, hperm⟩ := h.agenda
  cases hagenda with
  | follow _ himports rest =>
      refine { h with agenda := ⟨_, rest.mono ?_, hperm⟩, last := Or.inl h.getLast?_of_follow }
      intro path hpath hkey
      rcases List.mem_cons.mp hpath with rfl | hpath
      · obtain ⟨content, hcontent⟩ := Ordered.exists_get?_of_mem_keys hkey
        exact hentered content hcontent
      · exact hpath

/-- Entering a new dependency keeps the invariant. -/
theorem Invariant.enter {next : Import} (h : Invariant scope set (.follow next :: tasks) s)
    {path : RawText} {content : String} (htarget : next.target scope set = path)
    (hcontent : Ordered.get? set.dependencies path = some content) (hnew : path ∉ s.entered) :
    Invariant scope set (tasksOf ⟨path, content⟩ ++ tasks)
      { s with entered := s.entered ++ [path] } := by
  obtain ⟨opened, hagenda, hperm⟩ := h.agenda
  cases hagenda with
  | @follow _ below _ _ himports rest =>
      have hkey : path ∈ Ordered.keys set.dependencies := Ordered.mem_keys_of_get?_eq_some hcontent
      have hfollows : Follows scope set next.importer path := ⟨htarget ▸ himports, hkey⟩
      have hfile : set.get? path = some ⟨path, content⟩ :=
        SourceSet.get?_of_dependencies (fun heq => hnew (heq ▸ h.entry_mem)) hcontent
      -- The importer is the file opened last, so all opened files lead to the new one over it.
      have hopened : ∀ p ∈ next.importer :: below, Reaches scope set p path := fun p hp =>
        (rest.reaches_last p hp).tail hfollows
      have himporter : next.importer ∈ s.entered :=
        hperm.mem_iff.mp (List.mem_append_right _ List.mem_cons_self)
      have hagenda : Agenda scope set (s.entered ++ [path]) (next.importer :: below) tasks := by
        refine rest.mono fun p hp _ => ?_
        rcases List.mem_cons.mp hp with rfl | hp
        · exact List.mem_append_right _ (List.mem_singleton.mpr htarget)
        · exact List.mem_append_left _ hp
      have hopens : Agenda scope set (s.entered ++ [path]) (path :: next.importer :: below)
          (tasksOf ⟨path, content⟩ ++ tasks) := hagenda.opens ⟨path, content⟩ hfile hopened
      refine
        { h with
          agenda := ⟨_, hopens, ?_⟩
          nodup := ?_
          entry_mem := List.mem_append_left _ h.entry_mem
          reached := ?_
          closed := ?_
          last := ?_ }
      · exact List.perm_middle.trans
          ((hperm.cons path).trans (List.perm_append_singleton path s.entered).symm)
      · exact List.nodup_append_comm.mp (List.nodup_cons.mpr ⟨hnew, h.nodup⟩)
      · intro p hp
        rcases List.mem_append.mp hp with hp | hp
        · exact h.reached p hp
        · obtain rfl := List.mem_singleton.mp hp
          exact (h.reached _ himporter).tail hfollows
      · exact fun importer himporter p hp =>
          List.mem_append_left _ (h.closed importer himporter p hp)
      · left
        rw [List.getLast?_append, h.getLast?_of_follow]
        rfl

/-- Working off a task keeps the invariant. -/
theorem Invariant.perform {task : Task} {t : Inlining} {more : List Task}
    (hperform : Inlining.perform scope set.dependencies s task = (t, some more))
    (h : Invariant scope set (task :: tasks) s) : Invariant scope set (more ++ tasks) t := by
  cases task with
  | write file =>
      cases hperform
      exact h.write
  | follow next =>
      obtain ⟨hskip, hentered⟩ | ⟨path, content, htarget, hcontent, hnew, henter⟩ :=
        perform_follow_cases scope set.dependencies s next
      · cases hskip.symm.trans hperform
        exact h.skip hentered
      · cases henter.symm.trans hperform
        exact h.enter htarget hcontent hnew

/-- The invariant holds where nothing is left to do. -/
theorem invariant_inlining (scope : String) (set : SourceSet) :
    Invariant scope set [] (inlining scope set.dependencies set.entry) := by
  obtain hend | ⟨s, task, tasks, -, hlast⟩ := walk_induction (P := Invariant scope set)
    (fun _ _ _ _ _ hperform h => h.perform hperform)
    (walk_taskBound scope set.dependencies set.entry) (invariant_start scope set)
  · exact hend
  · exact absurd hlast (perform_ne_none scope set.dependencies s _ task)

/-- In the end all files that were entered are written. -/
theorem Invariant.writtenPaths_perm (h : Invariant scope set [] s) :
    s.writtenPaths.Perm s.entered := by
  obtain ⟨opened, hagenda, hperm⟩ := h.agenda
  cases hagenda
  rwa [List.append_nil] at hperm

/-- In the end the files written are those that the submitted file reaches. -/
theorem Invariant.mem_writtenPaths_iff (h : Invariant scope set [] s) {path : RawText} :
    path ∈ s.writtenPaths ↔ Reaches scope set set.entry.path path := by
  have hperm := h.writtenPaths_perm
  refine ⟨fun hpath => h.reached path (hperm.mem_iff.mp hpath), fun hreaches => ?_⟩
  induction hreaches with
  | refl => exact hperm.mem_iff.mpr h.entry_mem
  | tail _ hfollows ih => exact hperm.mem_iff.mpr (h.closed _ ih _ hfollows)

/-- The files written are those of the set under the paths written. -/
theorem Invariant.written_eq (h : Invariant scope set tasks s) :
    s.written = s.writtenPaths.filterMap set.get? :=
  (SourceSet.filterMap_get?_paths h.files).symm

end Inlining

theorem mem_keys_of_reaches {scope : String} {set : SourceSet} {path : RawText}
    (h : Reaches scope set set.entry.path path) :
    path = set.entry.path ∨ path ∈ Ordered.keys set.dependencies := by
  obtain rfl | ⟨importer, -, hfollows⟩ := Relation.ReflTransGen.cases_tail h
  · exact Or.inl rfl
  · exact Or.inr hfollows.2

/-- A flattening ends. It writes, once each, the submitted file and the files of the table that it
reaches, the submitted one last, and each file after those it imports that do not lead back to it.
The result is the header and what the files hold besides directives, in that order. -/
theorem inlining_postorder (scope : String) (sources : List (RawText × String))
    (entry : SourceFile) :
    (∀ steps ≥ taskBound sources entry.content,
      walk (Inlining.perform scope sources) steps (tasksOf entry) (Inlining.start entry) =
        some (inlining scope sources entry)) ∧
    ∃ paths,
      (inlining scope sources entry).written.map SourceFile.path = paths ∧
      (inlining scope sources entry).written = paths.filterMap (SourceSet.get? ⟨entry, sources⟩) ∧
      (∀ path, path ∈ paths ↔ path = entry.path ∨
        path ∈ Ordered.keys sources ∧ Reaches scope ⟨entry, sources⟩ entry.path path) ∧
      paths.Nodup ∧
      paths.getLast? = some entry.path ∧
      (∀ importer ∈ paths, ∀ path ∈ paths, Imports scope ⟨entry, sources⟩ importer path →
        ¬Reaches scope ⟨entry, sources⟩ path importer → [path, importer].Sublist paths) ∧
      flatten scope sources entry = Text.joined "\n"
        (["// SPDX-License-Identifier: " ++ licenceOf entry.content, pragmaOf entry.content, "",
            "// This file was flattened using a custom flattening tool",
            "// All imports have been resolved and inlined", ""] ++
          ((paths.filterMap (SourceSet.get? ⟨entry, sources⟩)).map
            fun file => cleaned file.content).filter (· != "")) := by
  have h := Inlining.invariant_inlining scope ⟨entry, sources⟩
  refine ⟨fun steps hle => walk_of_le hle (walk_taskBound scope sources entry),
    (inlining scope sources entry).writtenPaths, rfl, h.written_eq, ?_, ?_, ?_, ?_, ?_⟩
  · intro path
    rw [h.mem_writtenPaths_iff]
    constructor
    · intro hreaches
      exact (mem_keys_of_reaches hreaches).imp_right fun hkey => ⟨hkey, hreaches⟩
    · rintro (rfl | ⟨-, hreaches⟩)
      · exact .refl
      · exact hreaches
  · exact h.writtenPaths_perm.nodup_iff.mpr h.nodup
  · obtain hlast | ⟨-, hlast⟩ := h.last
    · cases hlast
    · rw [Inlining.writtenPaths, List.getLast?_map, hlast]
      rfl
  · intro importer himporter path hpath himports hback
    have hreaches := h.mem_writtenPaths_iff.mp hpath
    obtain rfl | hkey := mem_keys_of_reaches hreaches
    · exact absurd (h.mem_writtenPaths_iff.mp himporter) hback
    · exact (h.ordered importer himporter path ⟨himports, hkey⟩).resolve_left hback
  · rw [← h.written_eq]
    rfl

end ContractBench.Source
