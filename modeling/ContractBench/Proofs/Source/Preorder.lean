import ContractBench.Source.Resolution
import Mathlib.Data.List.Nodup
import Mathlib.Data.Set.Finite.Basic

/-! # Preorder of a search

A search asks for paths in the order of a depth-first walk. The rule of that order speaks only of
the files found so far, not of the imports that wait: of the files that import a new path, the one
found last is taken, and the first new path that it imports comes next. The search is shown to
follow this rule to its end, which fixes the paths it asks for, their order and the files it
collects.
-/

namespace ContractBench.Source

/-- The paths of the library to which imports lead, in order. -/
def Library.targets (library : Library) (imports : List Import) : List RawText :=
  imports.filterMap fun next => library.canonical? next.importer next.specifier

/-- The paths of the library that a file imports, by position of the import. -/
def Library.needs (library : Library) (file : SourceFile) : List RawText :=
  library.targets (importsOf file.path file.content)

theorem Library.mem_needs {library : Library} {file : SourceFile} {path : RawText} :
    path ∈ library.needs file ↔
      ∃ specifier ∈ findImports file.content,
        library.canonical? file.path specifier = some path := by
  simp [needs, targets, importsOf]

namespace Supply

/-- The file under a path, if the path is answered with a text. -/
def file? (supply : Supply) (path : RawText) : Option SourceFile :=
  match supply path with
  | .ok content => some ⟨path, content⟩
  | .error _ => none

theorem file?_eq_some {supply : Supply} {path : RawText} {file : SourceFile} :
    supply.file? path = some file ↔ file.path = path ∧ supply path = .ok file.content := by
  unfold file?
  split
  next content hcontent =>
    rw [hcontent]
    constructor
    · intro h
      cases h
      exact ⟨rfl, rfl⟩
    · rintro ⟨rfl, h⟩
      cases h
      rfl
  next failure hfailure => simp [hfailure]

/-- A path is answered with a text, or cannot be had. -/
def AnswersOrMisses (supply : Supply) (path : RawText) : Prop :=
  (∃ content, supply path = .ok content) ∨
    ∃ asked reason, supply path = .error (.fetching asked reason)

/-- A path that is answered or missing fails only by being missing. -/
theorem AnswersOrMisses.fetching_of_error {supply : Supply} {path : RawText} {failure : Failure}
    (h : supply.AnswersOrMisses path) (herror : supply path = .error failure) :
    ∃ asked reason, failure = .fetching asked reason := by
  rcases h with ⟨text, htext⟩ | ⟨asked, reason, hmissing⟩
  · cases herror.symm.trans htext
  · cases herror.symm.trans hmissing
    exact ⟨asked, reason, rfl⟩

/-- The supply that has just the files of a table. -/
def ofTable (table : List (RawText × String)) : Supply := fun path =>
  match Ordered.get? table path with
  | some content => .ok content
  | none => .error (.fetching path "HTTP 404")

theorem answersOrMisses_ofTable (table : List (RawText × String)) (path : RawText) :
    (ofTable table).AnswersOrMisses path := by
  unfold AnswersOrMisses ofTable
  split
  next content _ => exact Or.inl ⟨content, rfl⟩
  next => exact Or.inr ⟨path, _, rfl⟩

theorem finite_ofTable (table : List (RawText × String)) :
    {path | ∃ content, ofTable table path = .ok content}.Finite := by
  refine (Ordered.keys table).finite_toSet.subset ?_
  rintro path ⟨content, h⟩
  unfold ofTable at h
  split at h
  next hget => exact Ordered.mem_keys_of_get?_eq_some hget
  next => cases h

end Supply

/-- Those of some paths that have not been visited. -/
def unvisited (visited paths : List RawText) : List RawText :=
  paths.filter fun path => path ∉ visited

theorem unvisited_append (visited first second : List RawText) :
    unvisited visited (first ++ second) = unvisited visited first ++ unvisited visited second :=
  List.filter_append ..

theorem unvisited_cons_of_mem {visited paths : List RawText} {path : RawText}
    (h : path ∈ visited) : unvisited visited (path :: paths) = unvisited visited paths :=
  List.filter_cons_of_neg (by simpa using h)

theorem unvisited_cons_of_notMem {visited paths : List RawText} {path : RawText}
    (h : path ∉ visited) :
    unvisited visited (path :: paths) = path :: unvisited visited paths :=
  List.filter_cons_of_pos (by simpa using h)

/-- Visiting one more path removes it from those that are left. -/
theorem unvisited_snoc (visited paths : List RawText) (path : RawText) :
    unvisited (visited ++ [path]) paths = (unvisited visited paths).filter (· ≠ path) := by
  simp only [unvisited, List.filter_filter]
  congr 1
  funext p
  rw [Bool.eq_iff_iff]
  simp [and_comm]

/-- The path to which a depth-first walk goes next: the first import of a new path in the file that
was found last among those that have one. -/
def nextDepthFirst (library : Library) (found : List SourceFile) (visited : List RawText) :
    Option RawText :=
  (unvisited visited (found.reverse.flatMap library.needs)).head?

/-- The paths asked for are those of a depth-first walk from the submitted file, as far as it has
come, and the files are those found on it. -/
structure AskedDepthFirst (library : Library) (supply : Supply) (set : SourceSet)
    (asked : List RawText) : Prop where
  found : set.toList = set.entry :: asked.filterMap supply.file?
  nodup : (set.entry.path :: asked).Nodup
  order : ∀ k < asked.length,
    nextDepthFirst library (set.entry :: (asked.take k).filterMap supply.file?)
      (set.entry.path :: asked.take k) = asked[k]?

namespace AskedDepthFirst

variable {library : Library} {supply : Supply} {set : SourceSet} {asked : List RawText}

theorem dependencies_eq (h : AskedDepthFirst library supply set asked) :
    set.dependencies.map (fun entry => (⟨entry.1, entry.2⟩ : SourceFile)) =
      asked.filterMap supply.file? := (List.cons.inj h.found).2

theorem keys_dependencies (h : AskedDepthFirst library supply set asked) :
    Ordered.keys set.dependencies = (asked.filterMap supply.file?).map SourceFile.path := by
  rw [← h.dependencies_eq, List.map_map]
  rfl

/-- No two dependencies lie under one path, and none under that of the submitted file. -/
theorem nodup_paths (h : AskedDepthFirst library supply set asked) :
    (set.entry.path :: Ordered.keys set.dependencies).Nodup := by
  obtain ⟨hentry, hasked⟩ := List.nodup_cons.mp h.nodup
  have hpath : ∀ path file, file ∈ supply.file? path → file.path = path := fun _ _ hfile =>
    (Supply.file?_eq_some.mp hfile).1
  have hmem : ∀ file ∈ asked.filterMap supply.file?,
      file.path ∈ asked ∧ supply.file? file.path = some file := by
    intro file hfile
    obtain ⟨path, hmem, hfound⟩ := List.mem_filterMap.mp hfile
    obtain rfl := hpath path file hfound
    exact ⟨hmem, hfound⟩
  rw [h.keys_dependencies]
  refine List.nodup_cons.mpr ⟨fun hthere => ?_, List.Nodup.map_on ?_ (hasked.filterMap ?_)⟩
  · obtain ⟨file, hfile, heq⟩ := List.mem_map.mp hthere
    exact hentry (heq ▸ (hmem file hfile).1)
  · intro first hfirst second hsecond heq
    have hfound := (hmem first hfirst).2
    rw [heq, (hmem second hsecond).2] at hfound
    exact (Option.some.inj hfound).symm
  · exact fun first second file hfirst hsecond =>
      (hpath first file hfirst).symm.trans (hpath second file hsecond)

/-- The dependencies lie under the paths that were answered with a text. -/
theorem mem_keys_iff (h : AskedDepthFirst library supply set asked) {path : RawText} :
    path ∈ Ordered.keys set.dependencies ↔
      path ∈ asked ∧ ∃ content, supply path = .ok content := by
  rw [h.keys_dependencies, List.mem_map]
  constructor
  · rintro ⟨file, hfile, rfl⟩
    obtain ⟨path, hasked, heq⟩ := List.mem_filterMap.mp hfile
    obtain ⟨rfl, hcontent⟩ := Supply.file?_eq_some.mp heq
    exact ⟨hasked, _, hcontent⟩
  · rintro ⟨hasked, content, hcontent⟩
    exact ⟨⟨path, content⟩,
      List.mem_filterMap.mpr ⟨path, hasked, Supply.file?_eq_some.mpr ⟨rfl, hcontent⟩⟩, rfl⟩

/-- The dependencies are as the supply has them. -/
theorem supply_of_mem (h : AskedDepthFirst library supply set asked) {path : RawText}
    {content : String}
    (hmem : (path, content) ∈ set.dependencies) : supply path = .ok content := by
  have hfile : (⟨path, content⟩ : SourceFile) ∈ asked.filterMap supply.file? :=
    h.dependencies_eq ▸
      List.mem_map_of_mem (f := fun entry => (⟨entry.1, entry.2⟩ : SourceFile)) hmem
  obtain ⟨other, -, heq⟩ := List.mem_filterMap.mp hfile
  obtain ⟨rfl, hcontent⟩ := Supply.file?_eq_some.mp heq
  exact hcontent

theorem get?_dependencies (h : AskedDepthFirst library supply set asked) {path : RawText}
    {content : String}
    (hkey : path ∈ Ordered.keys set.dependencies) (hcontent : supply path = .ok content) :
    Ordered.get? set.dependencies path = some content := by
  obtain ⟨other, hother⟩ := Ordered.exists_get?_of_mem_keys hkey
  cases hcontent.symm.trans (h.supply_of_mem (Ordered.mem_of_get?_eq_some hother))
  exact hother

/-- The set has every one of its files under the path of the file. -/
theorem get?_eq_some (h : AskedDepthFirst library supply set asked) {file : SourceFile}
    (hfile : file ∈ set.toList) : set.get? file.path = some file := by
  rcases List.mem_cons.mp hfile with rfl | hdependency
  · exact if_pos rfl
  · obtain ⟨⟨path, content⟩, hmem, rfl⟩ := List.mem_map.mp hdependency
    have hkey : path ∈ Ordered.keys set.dependencies := List.mem_map_of_mem hmem
    have hne : path ≠ set.entry.path := fun heq =>
      (List.nodup_cons.mp h.nodup).1 (heq ▸ (h.mem_keys_iff.mp hkey).1)
    rw [SourceSet.get?, if_neg hne, h.get?_dependencies hkey (h.supply_of_mem hmem)]
    rfl

/-- What is asked for is imported by a file that was found before. -/
theorem exists_needs_before (h : AskedDepthFirst library supply set asked) {k : Nat}
    (hk : k < asked.length) :
    ∃ file ∈ set.entry :: (asked.take k).filterMap supply.file?,
      asked[k] ∈ library.needs file := by
  have hnext := h.order k hk
  rw [List.getElem?_eq_getElem hk] at hnext
  have hmem := List.mem_of_mem_filter (List.mem_of_head? hnext)
  obtain ⟨file, hfile, hneeds⟩ := List.mem_flatMap.mp hmem
  exact ⟨file, List.mem_reverse.mp hfile, hneeds⟩

theorem exists_needs (h : AskedDepthFirst library supply set asked) {path : RawText}
    (hpath : path ∈ asked) : ∃ file ∈ set.toList, path ∈ library.needs file := by
  obtain ⟨k, hk, rfl⟩ := List.mem_iff_getElem.mp hpath
  obtain ⟨file, hfile, hneeds⟩ := h.exists_needs_before hk
  refine ⟨file, ?_, hneeds⟩
  rw [h.found]
  exact List.Sublist.mem hfile (((List.take_sublist k asked).filterMap _).cons_cons _)

/-- What is asked for lies in the library. -/
theorem beginsWith_scope (h : AskedDepthFirst library supply set asked) {path : RawText}
    (hpath : path ∈ asked) : RawText.beginsWith library.scope path = true := by
  obtain ⟨file, -, hneeds⟩ := h.exists_needs hpath
  obtain ⟨specifier, -, hcanonical⟩ := Library.mem_needs.mp hneeds
  exact Library.beginsWith_scope_of_canonical? hcanonical

/-- The walk goes one path further. -/
theorem ask (h : AskedDepthFirst library supply set asked) {path : RawText}
    (hnew : path ∉ set.entry.path :: asked)
    (hnext : nextDepthFirst library set.toList (set.entry.path :: asked) = some path)
    {more : SourceSet} (hentry : more.entry = set.entry)
    (hfound : more.toList = set.toList ++ (supply.file? path).toList) :
    AskedDepthFirst library supply more (asked ++ [path]) where
  found := by
    have hlast : [path].filterMap supply.file? = (supply.file? path).toList := by
      cases hfile : supply.file? path <;> simp [hfile]
    rw [hfound, h.found, hentry, List.filterMap_append, hlast, List.cons_append]
  nodup := by
    rw [hentry, ← List.cons_append]
    exact List.nodup_append_comm.mp (List.nodup_cons.mpr ⟨hnew, h.nodup⟩)
  order := by
    intro k hk
    rw [hentry]
    rw [List.length_append, List.length_singleton] at hk
    rcases Nat.lt_succ_iff_lt_or_eq.mp hk with hlt | rfl
    · rw [List.take_append_of_le_length hlt.le, List.getElem?_append_left hlt]
      exact h.order k hlt
    · rw [h.found] at hnext
      simpa using hnext

end AskedDepthFirst

namespace Search

variable {library : Library} {supply : Supply}

/-- What holds while imports wait. The imports that wait name the same new paths, in the same
order, as all imports of the files found so far, with the latest file first. -/
structure Invariant (library : Library) (supply : Supply) (entry : SourceFile)
    (waiting : List Import) (s : Search) : Prop where
  entry_eq : s.set.entry = entry
  depthFirst : AskedDepthFirst library supply s.set s.asked
  visited : ∀ path, path ∈ s.visited ↔ path ∈ entry.path :: s.asked
  pending : unvisited (entry.path :: s.asked) (s.set.toList.reverse.flatMap library.needs) =
    unvisited (entry.path :: s.asked) (library.targets waiting)
  failure : s.failure = none

theorem invariant_start (path : RawText) (content : String) :
    Invariant library supply ⟨path, content⟩ (importsOf path content) (start path content) where
  entry_eq := rfl
  depthFirst := ⟨rfl, List.nodup_singleton _, fun k hk => absurd hk (Nat.not_lt_zero k)⟩
  visited := fun _ => Iff.rfl
  pending := by simp [start, SourceSet.toList, Library.needs]
  failure := rfl

variable {entry : SourceFile} {waiting : List Import} {s : Search} {next : Import}

/-- An import that leads nowhere new may be forgotten. -/
theorem Invariant.skip (h : Invariant library supply entry (next :: waiting) s)
    (hvisited : ∀ path, library.canonical? next.importer next.specifier = some path →
      path ∈ s.visited) : Invariant library supply entry waiting s := by
  refine { h with pending := h.pending.trans ?_ }
  cases hpath : library.canonical? next.importer next.specifier with
  | none => simp [Library.targets, hpath]
  | some path =>
      have hmem := (h.visited path).mp (hvisited path hpath)
      simp only [Library.targets, List.filterMap_cons, hpath]
      exact unvisited_cons_of_mem hmem

/-- The path of the first import that waits is where a depth-first walk goes next, if it is new. -/
theorem Invariant.nextDepthFirst_eq (h : Invariant library supply entry (next :: waiting) s)
    {path : RawText} (hpath : library.canonical? next.importer next.specifier = some path)
    (hnew : path ∉ s.visited) :
    nextDepthFirst library s.set.toList (entry.path :: s.asked) = some path := by
  have hnew : path ∉ entry.path :: s.asked := fun hmem => hnew ((h.visited path).mpr hmem)
  rw [nextDepthFirst, h.pending]
  simp only [Library.targets, List.filterMap_cons, hpath]
  rw [unvisited_cons_of_notMem hnew, List.head?_cons]

/-- Asking for a new path keeps the invariant, with or without a file as the answer. -/
theorem Invariant.ask (h : Invariant library supply entry (next :: waiting) s) {path : RawText}
    (hpath : library.canonical? next.importer next.specifier = some path)
    (hnew : path ∉ s.visited) {set : SourceSet} {more : List Import}
    (hentry : set.entry = s.set.entry)
    (hfound : set.toList = s.set.toList ++ (supply.file? path).toList)
    (hmore : library.targets more = (supply.file? path).toList.flatMap library.needs) :
    Invariant library supply entry (more ++ waiting) { s.ask path with set := set } := by
  obtain rfl := h.entry_eq
  have hfresh : path ∉ s.set.entry.path :: s.asked := fun hmem => hnew ((h.visited path).mpr hmem)
  have hnext := h.nextDepthFirst_eq hpath hnew
  refine ⟨hentry, h.depthFirst.ask hfresh hnext hentry hfound, ?_, ?_, h.failure⟩
  · intro p
    simp only [Search.ask, List.mem_cons, h.visited, List.mem_append]
    tauto
  · -- The new path drops out on both sides, and the imports of its file come in front.
    have hpending := congrArg (List.filter (· ≠ path)) h.pending
    rw [← unvisited_snoc, ← unvisited_snoc] at hpending
    have hdrop : unvisited (s.set.entry.path :: s.asked ++ [path])
        (library.targets (next :: waiting)) =
          unvisited (s.set.entry.path :: s.asked ++ [path]) (library.targets waiting) := by
      simp only [Library.targets, List.filterMap_cons, hpath]
      exact unvisited_cons_of_mem (by simp)
    have hnamed : library.targets (more ++ waiting) =
        library.targets more ++ library.targets waiting := List.filterMap_append ..
    have hneeds : set.toList.reverse.flatMap library.needs =
        (supply.file? path).toList.flatMap library.needs ++
          s.set.toList.reverse.flatMap library.needs := by
      rw [hfound, List.reverse_append, List.flatMap_append]
      cases supply.file? path <;> rfl
    simp only [Search.ask, ← List.cons_append]
    rw [hneeds, hnamed, hmore, unvisited_append, unvisited_append, hpending, hdrop]

/-- Taking an import keeps the invariant. -/
theorem Invariant.take {t : Search} {more : List Import}
    (htake : Search.take library supply s next = (t, some more))
    (h : Invariant library supply entry (next :: waiting) s) :
    Invariant library supply entry (more ++ waiting) t := by
  obtain ⟨hskip, hvisited⟩ | ⟨path, hpath, hnew, hanswer⟩ := take_cases library supply s next
  · cases hskip.symm.trans htake
    exact h.skip hvisited
  · obtain ⟨content, hcontent, hfound⟩ | ⟨asked, reason, hmissing, hask⟩ | ⟨failure, -, -, hfail⟩ :=
      hanswer
    · cases hfound.symm.trans htake
      have hfile : supply.file? path = some ⟨path, content⟩ :=
        Supply.file?_eq_some.mpr ⟨rfl, hcontent⟩
      have hkeys : Ordered.has s.set.dependencies path = false :=
        Ordered.has_eq_false_iff.mpr fun hmem => hnew ((h.visited path).mpr
          (List.mem_cons_of_mem _ (h.depthFirst.mem_keys_iff.mp hmem).1))
      refine h.ask hpath hnew rfl ?_ ?_
      · rw [hfile]
        exact SourceSet.toList_add_of_not_has hkeys
      · rw [hfile]
        exact (List.append_nil _).symm
    · cases hask.symm.trans htake
      have hfile : supply.file? path = none := by rw [Supply.file?, hmissing]
      exact h.ask hpath hnew rfl (by rw [hfile]; exact (List.append_nil _).symm)
        (by rw [hfile]; rfl)
    · cases hfail.symm.trans htake

/-- The import that ends a search leads to the one path that fails in another way than being
missing. -/
theorem end_of_take {t : Search} (htake : Search.take library supply s next = (t, none)) :
    ∃ path failure, t.asked = s.asked ++ [path] ∧ t.failure = some failure ∧
      supply path = .error failure ∧ ∀ asked reason, failure ≠ .fetching asked reason := by
  obtain ⟨hskip, -⟩ | ⟨path, -, -, hanswer⟩ := take_cases library supply s next
  · cases hskip.symm.trans htake
  · obtain ⟨content, -, hfound⟩ | ⟨asked, reason, -, hask⟩ | ⟨failure, herror, hother, hfail⟩ :=
      hanswer
    · cases hfound.symm.trans htake
    · cases hask.symm.trans htake
    · cases hfail.symm.trans htake
      exact ⟨path, failure, rfl, rfl, herror, hother⟩

theorem failed_of_take {t : Search} (htake : Search.take library supply s next = (t, none)) :
    t.failure ≠ none ∧ ∃ path ∈ t.asked, ¬supply.AnswersOrMisses path := by
  obtain ⟨path, failure, hasked, hfailure, herror, hother⟩ := end_of_take htake
  refine ⟨by simp [hfailure], path, by simp [hasked], fun hsupply => ?_⟩
  obtain ⟨asked, reason, rfl⟩ := hsupply.fetching_of_error herror
  exact hother asked reason rfl

/-- Where paths are answered or missing, a search ends only when no import waits. -/
theorem invariant_of_walk {steps : Nat} {path : RawText} {content : String} {t : Search}
    (hwalk : walk (Search.take library supply) steps (importsOf path content)
      (start path content) = some t)
    (hsupply : ∀ p ∈ t.asked, supply.AnswersOrMisses p) :
    Invariant library supply ⟨path, content⟩ [] t := by
  obtain hend | ⟨s, next, waiting, -, hlast⟩ :=
    walk_induction (P := Invariant library supply ⟨path, content⟩)
      (fun _ _ _ _ _ htake h => h.take htake) hwalk (invariant_start path content)
  · exact hend
  · obtain ⟨-, p, hasked, hfailed⟩ := failed_of_take hlast
    exact absurd (hsupply p hasked) hfailed

/-- However a search ends, the paths it has asked for are those of a depth-first walk. -/
theorem askedDepthFirst_of_walk {steps : Nat} {path : RawText} {content : String} {t : Search}
    (hwalk : walk (Search.take library supply) steps (importsOf path content)
      (start path content) = some t) :
    t.set.entry = ⟨path, content⟩ ∧ AskedDepthFirst library supply t.set t.asked := by
  obtain hend | ⟨s, next, waiting, h, hlast⟩ :=
    walk_induction (P := Invariant library supply ⟨path, content⟩)
      (fun _ _ _ _ _ htake h => h.take htake) hwalk (invariant_start path content)
  · exact ⟨hend.entry_eq, hend.depthFirst⟩
  · obtain ⟨hskip, -⟩ | ⟨p, hp, hnew, ⟨text, -, hfound⟩ | ⟨asked, reason, -, hask⟩ |
      ⟨failure, herror, -, hfail⟩⟩ := take_cases library supply s next
    · cases hskip.symm.trans hlast
    · cases hfound.symm.trans hlast
    · cases hask.symm.trans hlast
    · cases hfail.symm.trans hlast
      have hfresh : p ∉ s.set.entry.path :: s.asked := fun hmem =>
        hnew ((h.visited p).mpr (h.entry_eq ▸ hmem))
      have hnext := h.nextDepthFirst_eq hp hnew
      rw [← h.entry_eq] at hnext
      have hmissing : supply.file? p = none := by rw [Supply.file?, herror]
      exact ⟨h.entry_eq, h.depthFirst.ask hfresh hnext rfl
        (by rw [hmissing]; exact (List.append_nil _).symm)⟩

end Search

/-- A depth-first walk that has nowhere left to go. -/
structure WalkedDepthFirst (library : Library) (supply : Supply) (set : SourceSet)
    (asked : List RawText) : Prop extends AskedDepthFirst library supply set asked where
  finished : nextDepthFirst library set.toList (set.entry.path :: asked) = none

theorem Search.Invariant.walked {library : Library} {supply : Supply} {entry : SourceFile}
    {s : Search} (h : Search.Invariant library supply entry [] s) :
    WalkedDepthFirst library supply s.set s.asked where
  toAskedDepthFirst := h.depthFirst
  finished := by
    rw [nextDepthFirst, h.entry_eq]
    exact congrArg List.head? h.pending

section Resolution

variable {library : Library} {supply : Supply}

/-- On a whole walk just the needs of the files found were asked for. -/
theorem WalkedDepthFirst.mem_asked_iff {set : SourceSet} {asked : List RawText}
    (h : WalkedDepthFirst library supply set asked) {path : RawText} :
    path ∈ asked ↔ path ≠ set.entry.path ∧ ∃ file ∈ set.toList, path ∈ library.needs file := by
  constructor
  · intro hpath
    have hne : path ≠ set.entry.path := fun heq =>
      (List.nodup_cons.mp h.nodup).1 (heq ▸ hpath)
    exact ⟨hne, h.exists_needs hpath⟩
  · rintro ⟨hne, file, hfile, hneeds⟩
    have hmem : path ∈ set.toList.reverse.flatMap library.needs :=
      List.mem_flatMap.mpr ⟨file, List.mem_reverse.mpr hfile, hneeds⟩
    have hnone := List.filter_eq_nil_iff.mp (List.head?_eq_none_iff.mp h.finished) path hmem
    simpa [hne] using hnone

/-- Where paths are answered or missing, every search that ends is a whole depth-first walk. -/
theorem walked_of_resolveWithin {steps : Nat} {content : String} {path : RawText}
    {resolution : Resolution}
    (hresolved : resolveWithin library supply steps content path = some resolution)
    (hsupply : ∀ p ∈ resolution.asked, supply.AnswersOrMisses p) :
    ∃ set, resolution.outcome = .ok set ∧ set.entry = ⟨path, content⟩ ∧
      WalkedDepthFirst library supply set resolution.asked := by
  obtain ⟨s, hwalk, rfl⟩ := Option.map_eq_some_iff.mp hresolved
  have hend := Search.invariant_of_walk hwalk hsupply
  refine ⟨s.set, ?_, hend.entry_eq, hend.walked⟩
  rw [Search.toResolution, hend.failure]

/-- However a search ends that finds a set, the set is that of a depth-first walk. -/
theorem askedDepthFirst_of_outcome {steps : Nat} {content : String} {path : RawText}
    {resolution : Resolution} {set : SourceSet}
    (hresolved : resolveWithin library supply steps content path = some resolution)
    (houtcome : resolution.outcome = .ok set) :
    set.entry = ⟨path, content⟩ ∧ AskedDepthFirst library supply set resolution.asked := by
  obtain ⟨s, hwalk, rfl⟩ := Option.map_eq_some_iff.mp hresolved
  obtain rfl : s.set = set := by
    rw [Search.toResolution] at houtcome
    split at houtcome
    · exact Except.ok.inj houtcome
    · cases houtcome
  exact Search.askedDepthFirst_of_walk hwalk

/-- Two searches of one supply that end come to the same. -/
theorem resolveWithin_unique {steps more : Nat} {content : String} {path : RawText}
    {first second : Resolution}
    (hfirst : resolveWithin library supply steps content path = some first)
    (hsecond : resolveWithin library supply more content path = some second) :
    first = second := by
  have hleft := resolveWithin_of_le (Nat.le_max_left steps more) hfirst
  have hright := resolveWithin_of_le (Nat.le_max_right steps more) hsecond
  exact Option.some.inj (hleft.symm.trans hright)

/-- Where only so many paths are answered with a text and all others are missing, a search ends.
Once each and depth first, it asks for just the paths to which imports of the submitted file and of
the files found lead, other than the submitted path. The files are those that were found, in the
order in which they were asked for. On the web this is what the library collects. -/
theorem resolveWithin_preorder (library : Library) (supply : Supply) (content : String)
    (path : RawText) (hfinite : {p | ∃ text, supply p = .ok text}.Finite)
    (hsupply : ∀ p, supply.AnswersOrMisses p) :
    ∃ bound set asked,
      (∀ steps ≥ bound, resolveWithin library supply steps content path = some ⟨.ok set, asked⟩) ∧
      (∀ web, library.fetch web = supply → resolveAll library web content path =
        ⟨.ok set, asked⟩) ∧
      asked.Nodup ∧ path ∉ asked ∧
      (∀ p, p ∈ asked ↔ p ≠ path ∧ ∃ file ∈ set.toList,
        ∃ specifier ∈ findImports file.content,
          library.canonical? file.path specifier = some p) ∧
      set.toList = ⟨path, content⟩ :: asked.filterMap supply.file? ∧
      ∀ k ≤ asked.length,
        nextDepthFirst library (⟨path, content⟩ :: (asked.take k).filterMap supply.file?)
          (path :: asked.take k) = asked[k]? := by
  have hanswered : ∀ p text, supply p = .ok text → p ∈ hfinite.toFinset.toList := fun p text h =>
    by simpa using ⟨text, h⟩
  have hends : (resolveWithin library supply _ content path).isSome = true :=
    resolveWithin_isSome hanswered content path
  obtain ⟨⟨outcome, asked⟩, hresolved⟩ := Option.isSome_iff_exists.mp hends
  obtain ⟨set, rfl, hentry, hwalked⟩ := walked_of_resolveWithin hresolved fun p _ => hsupply p
  have hnodup := List.nodup_cons.mp hwalked.nodup
  have hfound := hwalked.found
  have hfinished := hwalked.finished
  rw [hentry] at hnodup hfound hfinished
  refine ⟨_, set, asked, fun steps hle => resolveWithin_of_le hle hresolved, ?_, hnodup.2,
    hnodup.1, ?_, hfound, ?_⟩
  · rintro web rfl
    exact resolveWithin_unique (resolveWithin_webBound library web content path) hresolved
  · intro p
    rw [hwalked.mem_asked_iff, hentry]
    simp only [Library.mem_needs]
  · intro k hk
    rcases Nat.lt_or_eq_of_le hk with hlt | rfl
    · have hnext := hwalked.order k hlt
      rwa [hentry] at hnext
    · rw [List.take_length, ← hfound, hfinished, List.getElem?_eq_none (Nat.le_refl _)]

/-- Two files that import each other are asked for once, and so is one that is missing. -/
theorem resolveWithin_preorder_of_cycle :
    let table : List (RawText × String) :=
      [("@openzeppelin/contracts/X.sol", "import \"./Y.sol\"; import './Gone.sol';"),
        ("@openzeppelin/contracts/Y.sol", "import \"./X.sol\";")]
    {path | ∃ text, Supply.ofTable table path = .ok text}.Finite ∧
    (∀ path, (Supply.ofTable table).AnswersOrMisses path) ∧
    ∃ bound set, ∀ steps ≥ bound,
      resolveWithin Library.standard (Supply.ofTable table) steps "import \"./X.sol\";" "Main.sol" =
        some ⟨.ok set, ["@openzeppelin/contracts/X.sol", "@openzeppelin/contracts/Y.sol",
          "@openzeppelin/contracts/Gone.sol"]⟩ := by
  intro table
  refine ⟨Supply.finite_ofTable table, Supply.answersOrMisses_ofTable table, ?_⟩
  obtain ⟨bound, set, asked, hends, -⟩ := resolveWithin_preorder Library.standard
    (Supply.ofTable table) "import \"./X.sol\";" "Main.sol" (Supply.finite_ofTable table)
    (Supply.answersOrMisses_ofTable table)
  have hasked : (resolveWithin Library.standard (Supply.ofTable table) 5 "import \"./X.sol\";"
      "Main.sol").map Resolution.asked = some (["@openzeppelin/contracts/X.sol",
        "@openzeppelin/contracts/Y.sol", "@openzeppelin/contracts/Gone.sol"] : List RawText) := by
    decide +kernel
  obtain ⟨resolution, hresolved, hpaths⟩ := Option.map_eq_some_iff.mp hasked
  cases resolveWithin_unique hresolved (hends bound (Nat.le_refl _))
  exact ⟨bound, set, hpaths ▸ hends⟩

end Resolution

end ContractBench.Source
