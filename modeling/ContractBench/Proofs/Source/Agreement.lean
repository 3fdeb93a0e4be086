import ContractBench.Proofs.Source.Postorder
import ContractBench.Proofs.Source.Preorder

/-! # Agreement of search and flattening

A flattening of what a search has found enters the same files in the same order, although the two
find the path of an import in different ways. Both are depth-first walks, and the flattening keeps
step with the search: whenever an import waits for both, the files entered so far are those found
so far.
-/

namespace ContractBench.Source

section Lookup

variable {library : Library} {sources : List (RawText × String)}
  {current specifier path : RawText}

/-- In a table whose paths all lie in the library, an import leads to a file exactly if its path in
the library is that of the file. -/
theorem lookupPath_eq_iff (habsolute : library.Absolute)
    (hkeys : ∀ key ∈ Ordered.keys sources, RawText.beginsWith library.scope key = true)
    (hpath : path ∈ Ordered.keys sources) :
    lookupPath library.scope sources current specifier = path ↔
      library.canonical? current specifier = some path := by
  by_cases hrelative : isRelative specifier = true
  · have hspecifier : RawText.beginsWith library.scope specifier = false := by
      rw [← Bool.not_eq_true]
      intro hscope
      rw [habsolute specifier hscope] at hrelative
      cases hrelative
    simp only [lookupPath, Library.canonical?, hrelative, hspecifier, if_true, Bool.false_eq_true,
      if_false, Option.some.injEq]
    by_cases hscope : RawText.beginsWith library.scope (resolve current specifier) = true
    · simp [hscope]
    · have hmissing : Ordered.has sources (resolve current specifier) = false :=
        Ordered.has_eq_false_iff.mpr fun hmem => hscope (hkeys _ hmem)
      simp [hscope, hmissing]
  · simp only [lookupPath, Library.canonical?, hrelative, if_false, Bool.false_eq_true]
    constructor
    · rintro rfl
      rw [if_pos (hkeys _ hpath)]
    · intro h
      split at h
      · exact Option.some.inj h
      · cases h

end Lookup

/-- The imports among the tasks that wait. -/
def waitingImports (tasks : List Task) : List Import :=
  tasks.filterMap fun
    | .follow next => some next
    | .write _ => none

theorem waitingImports_tasksOf_append (file : SourceFile) (tasks : List Task) :
    waitingImports (tasksOf file ++ tasks) =
      importsOf file.path file.content ++ waitingImports tasks := by
  simp [waitingImports, tasksOf, List.filterMap_map]

/-- An import is left alone if every file to which it leads was entered. -/
theorem Inlining.perform_of_entered {scope : String} {sources : List (RawText × String)}
    {f : Inlining} {next : Import}
    (hentered : ∀ path ∈ Ordered.keys sources,
      lookupPath scope sources next.importer next.specifier = path → path ∈ f.entered) :
    Inlining.perform scope sources f (.follow next) = (f, some []) := by
  obtain ⟨hskip, -⟩ | ⟨path, content, htarget, hcontent, hnew, -⟩ :=
    perform_follow_cases scope sources f next
  · exact hskip
  · exact absurd (hentered path (Ordered.mem_keys_of_get?_eq_some hcontent) htarget) hnew

/-- A dependency that was not entered is entered. -/
theorem Inlining.perform_of_new {scope : String} {sources : List (RawText × String)}
    {f : Inlining} {next : Import} {path : RawText} {content : String}
    (htarget : lookupPath scope sources next.importer next.specifier = path)
    (hcontent : Ordered.get? sources path = some content) (hnew : path ∉ f.entered) :
    Inlining.perform scope sources f (.follow next) =
      ({ f with entered := f.entered ++ [path] }, some (tasksOf ⟨path, content⟩)) := by
  obtain ⟨-, hentered⟩ | ⟨other, text, hother, htext, -, henter⟩ :=
    perform_follow_cases scope sources f next
  · rw [htarget] at hentered
    exact absurd (hentered content hcontent) hnew
  · cases htarget.symm.trans hother
    cases hcontent.symm.trans htext
    exact henter

/-- A search keeps what it has asked for. -/
theorem Search.asked_prefix {library : Library} {supply : Supply} {steps : Nat}
    {waiting : List Import} {s t : Search}
    (hwalk : walk (Search.take library supply) steps waiting s = some t) : s.asked <+: t.asked := by
  have htake : ∀ (u v : Search) (next : Import) (more : Option (List Import)),
      Search.take library supply u next = (v, more) → u.asked <+: v.asked := by
    intro u v next more htake
    obtain ⟨hskip, -⟩ | ⟨path, -, -, hanswer⟩ := take_cases library supply u next
    · cases hskip.symm.trans htake
      exact List.prefix_refl _
    · obtain ⟨_, -, heq⟩ | ⟨_, _, -, heq⟩ | ⟨_, -, -, heq⟩ := hanswer <;>
      · cases heq.symm.trans htake
        exact List.prefix_append _ _
  obtain hend | ⟨last, next, rest, hlast, hended⟩ :=
    walk_induction (P := fun _ u => s.asked <+: u.asked)
      (fun _ _ _ _ _ hstep h => h.trans (htake _ _ _ _ hstep)) hwalk (List.prefix_refl _)
  · exact hend
  · exact hlast.trans (htake _ _ _ _ hended)

/-- A flattening keeps step with a search: the search comes to its end over the imports that wait,
and the files entered are those that it has found so far. -/
structure InStep (library : Library) (supply : Supply) (last : Search) (tasks : List Task)
    (f : Inlining) (s : Search) : Prop where
  ends : ∃ steps, walk (Search.take library supply) steps (waitingImports tasks) s = some last
  invariant : Search.Invariant library supply last.set.entry (waitingImports tasks) s
  entered : f.entered = last.set.entry.path :: Ordered.keys s.set.dependencies

namespace InStep

variable {library : Library} {supply : Supply} {last s : Search} {tasks : List Task}
  {f : Inlining} {next : Import}

/-- A dependency that the search finds at some time has been visited just if it was entered. -/
theorem mem_visited_iff (h : InStep library supply last tasks f s)
    {path : RawText} (hsupply : ∃ content, supply path = .ok content) :
    path ∈ s.visited ↔ path ∈ f.entered := by
  rw [h.invariant.visited, h.entered, List.mem_cons, List.mem_cons,
    h.invariant.depthFirst.mem_keys_iff]
  simp [hsupply]

/-- The first import that waits is taken by the search. -/
theorem exists_take (h : InStep library supply last (.follow next :: tasks) f s)
    (hended : last.failure = none) :
    ∃ t more, Search.take library supply s next = (t, some more) ∧
      (∃ steps, walk (Search.take library supply) steps (more ++ waitingImports tasks) t =
        some last) ∧
      Search.Invariant library supply last.set.entry (more ++ waitingImports tasks) t := by
  obtain ⟨steps, hwalk⟩ := h.ends
  obtain ⟨left, -, ⟨t, more, htake, hrest⟩ | hlast⟩ := walk_cons hwalk
  · exact ⟨t, more, htake, ⟨left, hrest⟩, h.invariant.take htake⟩
  · exact absurd hended (Search.failed_of_take hlast).1

/-- A file that the search finds is kept to its end. -/
theorem mem_keys_of_found (hlast : AskedDepthFirst library supply last.set last.asked)
    {path : RawText} {content : String} (hcontent : supply path = .ok content)
    {waiting : List Import}
    (hends : ∃ steps, walk (Search.take library supply) steps waiting
      ((s.ask path).keep path content) = some last) :
    path ∈ Ordered.keys last.set.dependencies := by
  obtain ⟨steps, hwalk⟩ := hends
  have hasked : path ∈ last.asked := (Search.asked_prefix hwalk).subset
    (List.mem_append_right _ (List.mem_singleton_self path))
  exact hlast.mem_keys_iff.mpr ⟨hasked, content, hcontent⟩

/-- A file that the search finds is entered where its import is followed. -/
theorem follow_found (hlast : AskedDepthFirst library supply last.set last.asked)
    (h : InStep library supply last (.follow next :: tasks) f s) {path : RawText} {content : String}
    (hcontent : supply path = .ok content) (hnew : path ∉ s.visited)
    (hkey : path ∈ Ordered.keys last.set.dependencies)
    (htarget : lookupPath library.scope last.set.dependencies next.importer next.specifier = path)
    (hends : ∃ steps, walk (Search.take library supply) steps
      (importsOf path content ++ waitingImports tasks) ((s.ask path).keep path content) = some last)
    (hinvariant : Search.Invariant library supply last.set.entry
      (importsOf path content ++ waitingImports tasks) ((s.ask path).keep path content))
    {g : Inlining} {more : List Task}
    (hperform : Inlining.perform library.scope last.set.dependencies f (.follow next) =
      (g, some more)) :
    ∃ t, InStep library supply last (more ++ tasks) g t := by
  have hunentered : path ∉ f.entered := fun hmem =>
    hnew ((h.mem_visited_iff ⟨content, hcontent⟩).mpr hmem)
  have hfollowed :=
    Inlining.perform_of_new htarget (hlast.get?_dependencies hkey hcontent) hunentered
  cases hfollowed.symm.trans hperform
  rw [← waitingImports_tasksOf_append ⟨path, content⟩] at hends hinvariant
  refine ⟨_, hends, hinvariant, ?_⟩
  have hunkept : Ordered.has s.set.dependencies path = false :=
    Ordered.has_eq_false_iff.mpr fun hmem => hunentered (h.entered ▸ List.mem_cons_of_mem _ hmem)
  dsimp only [Search.keep, Search.ask, SourceSet.add]
  rw [h.entered, Ordered.keys_put_of_not_has hunkept, List.cons_append]

/-- Following an import keeps step with taking it. -/
theorem follow (habsolute : library.Absolute)
    (hlast : AskedDepthFirst library supply last.set last.asked) (hended : last.failure = none)
    (h : InStep library supply last (.follow next :: tasks) f s) {g : Inlining} {more : List Task}
    (hperform : Inlining.perform library.scope last.set.dependencies f (.follow next) =
      (g, some more)) :
    ∃ t, InStep library supply last (more ++ tasks) g t := by
  have hlookup {path : RawText} (hpath : path ∈ Ordered.keys last.set.dependencies) :
      lookupPath library.scope last.set.dependencies next.importer next.specifier = path ↔
        library.canonical? next.importer next.specifier = some path :=
    lookupPath_eq_iff habsolute
      (fun key hkey => hlast.beginsWith_scope (hlast.mem_keys_iff.mp hkey).1) hpath
  obtain ⟨t, brought, htake, hends, hinvariant⟩ := h.exists_take hended
  obtain ⟨hskip, hvisited⟩ | ⟨path, hpath, hnew, hanswer⟩ :=
    Search.take_cases library supply s next
  · have hleft : Inlining.perform library.scope last.set.dependencies f (.follow next) =
        (f, some []) :=
      Inlining.perform_of_entered fun path hkey htarget =>
        (h.mem_visited_iff (hlast.mem_keys_iff.mp hkey).2).mp
          (hvisited path ((hlookup hkey).mp htarget))
    cases hleft.symm.trans hperform
    cases hskip.symm.trans htake
    exact ⟨s, hends, hinvariant, h.entered⟩
  · obtain ⟨content, hcontent, hfound⟩ | ⟨asked, reason, hmissing, hask⟩ | ⟨failure, -, -, hfail⟩ :=
      hanswer
    · cases hfound.symm.trans htake
      -- The file is in the table by now in which the flattening looks up the import.
      have hkey := mem_keys_of_found hlast hcontent hends
      exact h.follow_found hlast hcontent hnew hkey ((hlookup hkey).mpr hpath) hends hinvariant
        hperform
    · have hleft : Inlining.perform library.scope last.set.dependencies f (.follow next) =
          (f, some []) := by
        -- A path that is missing is never that of a dependency.
        refine Inlining.perform_of_entered fun other hkey htarget => ?_
        obtain rfl := Option.some.inj (hpath.symm.trans ((hlookup hkey).mp htarget))
        obtain ⟨content, hcontent⟩ := (hlast.mem_keys_iff.mp hkey).2
        cases hmissing.symm.trans hcontent
      cases hleft.symm.trans hperform
      cases hask.symm.trans htake
      exact ⟨s.ask path, hends, hinvariant, h.entered⟩
    · cases hfail.symm.trans htake

/-- Working off a task keeps step with the search. -/
theorem perform (habsolute : library.Absolute)
    (hlast : AskedDepthFirst library supply last.set last.asked) (hended : last.failure = none)
    {task : Task} (h : InStep library supply last (task :: tasks) f s) {g : Inlining}
    {more : List Task}
    (hperform : Inlining.perform library.scope last.set.dependencies f task = (g, some more)) :
    ∃ t, InStep library supply last (more ++ tasks) g t := by
  cases task with
  | write file =>
      cases hperform
      exact ⟨s, h.ends, h.invariant, h.entered⟩
  | follow next => exact h.follow habsolute hlast hended hperform

end InStep

section Agreement

variable {library : Library} {supply : Supply}

/-- A flattening of what a search has found enters the files in the order in which they were
found. -/
theorem entered_of_walk (habsolute : library.Absolute) {steps : Nat} {path : RawText}
    {content : String} {last : Search}
    (hwalk : walk (Search.take library supply) steps (importsOf path content)
      (Search.start path content) = some last)
    (hlast : Search.Invariant library supply ⟨path, content⟩ [] last) :
    (inlining library.scope last.set.dependencies ⟨path, content⟩).entered =
      path :: Ordered.keys last.set.dependencies := by
  have hstart : InStep library supply last (tasksOf ⟨path, content⟩)
      (Inlining.start ⟨path, content⟩) (Search.start path content) := by
    have himports := waitingImports_tasksOf_append ⟨path, content⟩ []
    simp only [List.append_nil, waitingImports, List.filterMap_nil] at himports
    refine ⟨⟨steps, ?_⟩, ?_, ?_⟩
    · rwa [waitingImports, himports]
    · rw [hlast.entry_eq, waitingImports, himports]
      exact Search.invariant_start path content
    · rw [hlast.entry_eq]
      rfl
  obtain ⟨s, ⟨more, hends⟩, -, hentered⟩ | ⟨f, task, tasks, -, hended⟩ :=
    walk_induction (P := fun tasks f => ∃ s, InStep library supply last tasks f s)
      (fun _ _ _ _ _ hperform ⟨_, h⟩ => h.perform habsolute hlast.depthFirst hlast.failure hperform)
      (walk_taskBound library.scope last.set.dependencies ⟨path, content⟩) ⟨_, hstart⟩
  · obtain rfl : s = last := Option.some.inj ((walk_nil more s).symm.trans hends)
    rw [hentered, hlast.entry_eq]
  · exact absurd hended (Inlining.perform_ne_none _ _ _ _ _)

/-- A search and a flattening of what it has found agree: the flattening enters the submitted file
and then, once each and in the order in which they were found, the files that were found. So it
writes what each of them holds besides directives. -/
theorem inlining_of_resolution (scope site : String) (supply : Supply) (content : String)
    (path : RawText)
    (hdot : Text.beginsWith "." scope = false) {steps : Nat} {resolution : Resolution}
    (hresolved : resolveWithin (Library.named scope site) supply steps content path =
      some resolution)
    (hsupply : ∀ p ∈ resolution.asked, supply.AnswersOrMisses p) :
    ∃ (set : SourceSet) (files : List SourceFile),
      resolution.outcome = .ok set ∧
      set.toList = ⟨path, content⟩ :: resolution.asked.filterMap supply.file? ∧
      (inlining (Library.named scope site).scope set.dependencies ⟨path, content⟩).entered =
        path :: Ordered.keys set.dependencies ∧
      (path :: Ordered.keys set.dependencies).Nodup ∧
      files.Perm set.toList ∧
      flatten (Library.named scope site).scope set.dependencies ⟨path, content⟩ =
        Text.joined "\n" (header content ++ flattenedNotice ++ [""] ++
          (files.map fun file => cleaned file.content).filter (· != "")) ∧
      ∀ web, (Library.named scope site).fetch web = supply →
        flattenResolved (Library.named scope site) web content path =
          (.ok (flatten (Library.named scope site).scope set.dependencies ⟨path, content⟩),
            resolution.asked) := by
  obtain ⟨last, hwalk, rfl⟩ := Option.map_eq_some_iff.mp hresolved
  have hlast := Search.invariant_of_walk hwalk hsupply
  have houtcome : last.toResolution.outcome = .ok last.set := by
    rw [Search.toResolution, hlast.failure]
  have hfound := hlast.depthFirst.found
  have hentered := entered_of_walk (Library.absolute_named site hdot) hwalk hlast
  have hinlined := Inlining.invariant_inlining (Library.named scope site).scope last.set
  rw [hlast.entry_eq] at hfound hinlined
  have hpaths : last.set.toList.map SourceFile.path =
      path :: Ordered.keys last.set.dependencies := by
    rw [SourceSet.map_path_toList, hlast.entry_eq]
  refine ⟨last.set, _, houtcome, hfound, hentered, hentered ▸ hinlined.nodup, ?_, rfl, ?_⟩
  · have hwritten := hinlined.writtenPaths_perm
    rw [hentered, ← hpaths] at hwritten
    have hfiles := hwritten.filterMap last.set.get?
    rwa [← hinlined.written_eq,
      SourceSet.filterMap_get?_paths fun _ => hlast.depthFirst.get?_eq_some] at hfiles
  · rintro web rfl
    have hall := resolveWithin_unique (resolveWithin_webBound _ web content path) hresolved
    rw [flattenResolved, hall, houtcome]
    rfl

/-- A file that two others import, one of them by its name in the library, is entered once, and a
missing file is passed over by both. -/
theorem inlining_of_resolution_of_shared :
    let table : List (RawText × String) :=
      [("lib/A.sol", "import './B.sol'; import './Gone.sol';"), ("lib/B.sol", "import './A.sol';")]
    let content := "import './A.sol'; import 'lib/B.sol'; import 'other/C.sol';"
    Text.beginsWith "." "lib/" = false ∧
    ∃ resolution set,
      resolveWithin (Library.named "lib/" "") (Supply.ofTable table) 7 content "Main.sol" =
        some resolution ∧
      (∀ p ∈ resolution.asked, (Supply.ofTable table).AnswersOrMisses p) ∧
      resolution.outcome = .ok set ∧
      (inlining "lib/" set.dependencies ⟨"Main.sol", content⟩).entered =
        ↑"Main.sol" :: Ordered.keys set.dependencies := by
  intro table content
  have hdot : Text.beginsWith "." "lib/" = false := by decide
  have hends : (resolveWithin (Library.named "lib/" "") (Supply.ofTable table) 7 content
      "Main.sol").isSome = true := by
    decide +kernel
  obtain ⟨resolution, hresolved⟩ := Option.isSome_iff_exists.mp hends
  have hsupply : ∀ p ∈ resolution.asked, (Supply.ofTable table).AnswersOrMisses p :=
    fun p _ => Supply.answersOrMisses_ofTable table p
  obtain ⟨set, files, houtcome, -, hentered, -⟩ :=
    inlining_of_resolution "lib/" "" (Supply.ofTable table) content "Main.sol" hdot hresolved
      hsupply
  exact ⟨hdot, resolution, set, hresolved, hsupply, houtcome, hentered⟩

end Agreement

end ContractBench.Source
