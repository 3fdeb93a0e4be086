import ContractBench.Proofs.Compiler.Stages
import ContractBench.Proofs.Ordered
import ContractBench.Proofs.Source.Preorder

/-! # Views of a source set

A source set can be asked whether it has a path, for the file with a path, for its dependencies, for
its size, and for the sources that the compiler gets. The submitted file comes first where a file is
looked up, and a dependency with its path replaces it where the compiler's sources are made. So the
views agree unless a file was added under the submitted path, which a search for dependencies never
does.
-/

namespace ContractBench

namespace Source

namespace SourceSet

/-- The set of a submitted file to which files were added one after the other. -/
def ofAdded (entry : SourceFile) (added : List SourceFile) : SourceSet :=
  added.foldl add ⟨entry, []⟩

/-- The content that was added last under a path. -/
def lastAdded? (added : List SourceFile) (path : RawText) : Option String :=
  (added.reverse.find? fun file => file.path == path).map SourceFile.content

section Lookups

variable {set : SourceSet} {path : RawText}

theorem contains_iff : set.contains path = true ↔
    path = set.entry.path ∨ path ∈ Ordered.keys set.dependencies := by
  rw [contains, Bool.or_eq_true, beq_iff_eq, Ordered.has_iff_mem_keys]

theorem get?_ne_none_iff : set.get? path ≠ none ↔
    path = set.entry.path ∨ path ∈ Ordered.keys set.dependencies := by
  rw [get?, ← Option.isSome_iff_ne_none]
  split
  next heq => simp [heq]
  next hne => simp [hne, Ordered.isSome_get?, Ordered.has_iff_mem_keys]

theorem mem_keys_compilerSources_iff : path ∈ Ordered.keys set.compilerSources ↔
    path = set.entry.path ∨ path ∈ Ordered.keys set.dependencies := by
  rw [← Ordered.has_iff_mem_keys, has_compilerSources]

end Lookups

section Contents

variable {set : SourceSet} (h : (Ordered.keys set.dependencies).Nodup)
include h

theorem keys_compilerSources : Ordered.keys set.compilerSources =
    set.entry.path :: (Ordered.keys set.dependencies).filter (· ≠ set.entry.path) := by
  have hpaths : Ordered.keys (set.toList.map fun file => (file.path, file.content)) =
      set.entry.path :: Ordered.keys set.dependencies := by
    rw [← map_path_toList, Ordered.keys, List.map_map]
    rfl
  rw [compilerSources, Ordered.keys_ofEntries, hpaths, List.eraseDups_cons,
    eraseDups_of_nodup (h.filter _)]
  congr 1
  exact List.filter_congr fun path _ => Bool.eq_iff_iff.mpr (by simp)

/-- Under a path the compiler gets the dependency, or else the submitted file. -/
theorem get?_compilerSources (path : RawText) : Ordered.get? set.compilerSources path =
    (Ordered.get? set.dependencies path).or
      (if path = set.entry.path then some set.entry.content else none) := by
  have hentries : set.toList.map (fun file => (file.path, file.content)) =
      (set.entry.path, set.entry.content) :: set.dependencies := by
    simp [toList, Function.comp_def]
  have hentry : Ordered.get? [(set.entry.path, set.entry.content)] path =
      if path = set.entry.path then some set.entry.content else none := by
    by_cases heq : path = set.entry.path
    · simp [Ordered.get?, heq]
    · simp [Ordered.get?, heq, Ne.symm heq]
  rw [compilerSources, hentries, Ordered.get?_ofEntries, List.reverse_cons, Ordered.get?_append,
    Ordered.get?_reverse h, hentry]

/-- Under every path the compiler gets what a lookup finds just where no dependency has the path of
the submitted file and another content. -/
theorem contents_agree_iff :
    (∀ path, (set.get? path).map SourceFile.content = Ordered.get? set.compilerSources path) ↔
      ∀ content ∈ Ordered.get? set.dependencies set.entry.path, content = set.entry.content := by
  constructor
  · intro hagree content hcontent
    have hentry := hagree set.entry.path
    rw [get?_compilerSources h, Option.mem_def.mp hcontent, get?, if_pos rfl] at hentry
    exact (Option.some.inj hentry).symm
  · intro hentry path
    rw [get?_compilerSources h, get?]
    by_cases heq : path = set.entry.path
    · subst heq
      rw [if_pos rfl, if_pos rfl]
      cases hdependency : Ordered.get? set.dependencies set.entry.path with
      | none => rfl
      | some content => rw [hentry content hdependency]; rfl
    · rw [if_neg heq, if_neg heq, Option.or_none, Option.map_map]
      exact Option.map_id'

theorem size_eq_iff : set.size = (Ordered.keys set.compilerSources).length ↔
    set.entry.path ∉ Ordered.keys set.dependencies := by
  rw [keys_compilerSources h, List.length_cons, size, Nat.add_right_cancel_iff, eq_comm]
  have hlength : (Ordered.keys set.dependencies).length = set.dependencies.length :=
    List.length_map _
  rw [← hlength, List.length_filter_eq_length_iff]
  constructor
  · exact fun hall hmem => by simpa using hall _ hmem
  · exact fun hnew path hpath => by simpa using ne_of_mem_of_not_mem hpath hnew

end Contents

section Added

variable {entry : SourceFile} {added : List SourceFile} {path : RawText}

theorem ofAdded_eq (entry : SourceFile) (added : List SourceFile) :
    ofAdded entry added =
      ⟨entry, Ordered.ofEntries (added.map fun file => (file.path, file.content))⟩ := by
  induction added using List.reverseRecOn with
  | nil => rfl
  | append_singleton added file ih =>
      rw [ofAdded] at ih
      rw [ofAdded, List.foldl_concat, ih, List.map_append, List.map_singleton,
        Ordered.ofEntries_concat]
      rfl

theorem keys_dependencies_ofAdded (entry : SourceFile) (added : List SourceFile) :
    Ordered.keys (ofAdded entry added).dependencies = (added.map SourceFile.path).eraseDups := by
  rw [ofAdded_eq, Ordered.keys_ofEntries, Ordered.keys, List.map_map]
  rfl

theorem get?_dependencies_ofAdded (entry : SourceFile) (added : List SourceFile) (path : RawText) :
    Ordered.get? (ofAdded entry added).dependencies path = lastAdded? added path := by
  rw [ofAdded_eq, Ordered.get?_ofEntries, ← List.map_reverse, Ordered.get?, List.find?_map,
    Option.map_map]
  rfl

theorem mem_keys_dependencies_ofAdded : path ∈ Ordered.keys (ofAdded entry added).dependencies ↔
    path ∈ added.map SourceFile.path := by
  rw [keys_dependencies_ofAdded, List.mem_eraseDups]

/-- What was added is found under its path, with the content that was added last. -/
theorem exists_lastAdded (h : path ∈ added.map SourceFile.path) :
    ∃ content, lastAdded? added path = some content := by
  have hkey : path ∈ Ordered.keys (ofAdded ⟨"", ""⟩ added).dependencies :=
    mem_keys_dependencies_ofAdded.mpr h
  obtain ⟨content, hcontent⟩ := Ordered.exists_get?_of_mem_keys hkey
  exact ⟨content, (get?_dependencies_ofAdded _ added path).symm.trans hcontent⟩

end Added

end SourceSet

section Search

variable {library : Library} {supply : Supply} {set : SourceSet} {asked : List RawText}

/-- The set of a search is made by adding the files that were found. -/
theorem AskedDepthFirst.eq_ofAdded (h : AskedDepthFirst library supply set asked) :
    set = SourceSet.ofAdded set.entry (asked.filterMap supply.file?) := by
  have hentries : (asked.filterMap supply.file?).map (fun file => (file.path, file.content)) =
      set.dependencies := by
    rw [← h.dependencies_eq, List.map_map]
    exact List.map_id' _
  rw [SourceSet.ofAdded_eq, hentries,
    Ordered.ofEntries_of_nodup (List.nodup_cons.mp h.nodup_paths).2]

/-- The compiler gets the files of a search as they stand in its set. -/
theorem AskedDepthFirst.compilerSources_eq (h : AskedDepthFirst library supply set asked) :
    set.compilerSources = set.toList.map fun file => (file.path, file.content) := by
  have hpaths := h.nodup_paths
  rw [← SourceSet.map_path_toList] at hpaths
  refine Ordered.ofEntries_of_nodup ?_
  rwa [Ordered.keys, List.map_map]

/-- The compiler gets the submitted text under the submitted path. -/
theorem AskedDepthFirst.get?_compilerSources_entry (h : AskedDepthFirst library supply set asked) :
    Ordered.get? set.compilerSources set.entry.path = some set.entry.content := by
  obtain ⟨hnew, hnodup⟩ := List.nodup_cons.mp h.nodup_paths
  rw [SourceSet.get?_compilerSources hnodup, Ordered.get?_eq_none_iff.mpr hnew, if_pos rfl,
    Option.none_or]

end Search

end Source

namespace Compiler

open Source

/-- The compiler is run with the submitted text under the submitted path. -/
theorem get?_sources_of_runs {library : Library} {surroundings : Surroundings}
    {workbench : Workbench} {job : Job} {run : RawText × Input}
    (hrun : run ∈ (compile library surroundings workbench job).runs) :
    Ordered.get? run.2.sources job.fileName = some job.source := by
  obtain ⟨-, -, -, -, -, hruns⟩ | ⟨-, -, -, -, -, -, hruns⟩ | ⟨-, -, -, -, -, -, -, hruns⟩ |
    ⟨binary, set, hready, -, hruns⟩ := compile_cases library surroundings workbench job
  iterate 3
    rw [hruns] at hrun
    cases hrun
  rw [hruns, List.mem_singleton] at hrun
  obtain ⟨hentry, hwalked⟩ :=
    askedDepthFirst_of_outcome (resolveWithin_webBound _ _ _ _) hready.resolved
  have hsource := hwalked.get?_compilerSources_entry
  rw [hentry] at hsource
  rw [hrun]
  exact hsource

/-- A set tells the same of which paths it has in all its views, the compiler gets the submitted
path first and the others in the order in which they were first added, and whatever was added under
another path than the submitted one is told with the content that was added last. The contents that
are looked up are those that the compiler gets just where nothing was added under the submitted
path, or the submitted content last, and the size is right just where nothing was added under it. No
search adds anything there, so the compiler is run with the submitted text under the submitted
path. -/
theorem source_views_agree :
    (∀ (entry : SourceFile) (added : List SourceFile),
      let set := SourceSet.ofAdded entry added
      (∀ path, (set.contains path = true ↔ set.get? path ≠ none) ∧
        (set.get? path ≠ none ↔ path ∈ Ordered.keys set.compilerSources)) ∧
      Ordered.keys set.compilerSources =
        entry.path :: (added.map SourceFile.path).eraseDups.filter (· ≠ entry.path) ∧
      (∀ path ∈ added.map SourceFile.path, path ≠ entry.path → ∃ content,
        SourceSet.lastAdded? added path = some content ∧
        set.get? path = some ⟨path, content⟩ ∧
        Ordered.get? set.dependencies path = some content ∧
        Ordered.get? set.compilerSources path = some content) ∧
      ((∀ path, (set.get? path).map SourceFile.content = Ordered.get? set.compilerSources path) ↔
        entry.path ∉ added.map SourceFile.path ∨
          SourceSet.lastAdded? added entry.path = some entry.content) ∧
      (set.size = (Ordered.keys set.compilerSources).length ↔
        entry.path ∉ added.map SourceFile.path)) ∧
    (∀ (library : Library) (supply : Supply) (content : String) (path : RawText) (steps : Nat)
      (resolution : Resolution),
      resolveWithin library supply steps content path = some resolution →
      (∀ web, library.fetch web = supply → resolveAll library web content path = resolution) ∧
      ∀ set, resolution.outcome = .ok set →
        set = SourceSet.ofAdded ⟨path, content⟩ (resolution.asked.filterMap supply.file?) ∧
        path ∉ Ordered.keys set.dependencies ∧
        (∀ p, (set.get? p).map SourceFile.content = Ordered.get? set.compilerSources p) ∧
        set.compilerSources = set.toList.map (fun file => (file.path, file.content)) ∧
        set.size = (Ordered.keys set.compilerSources).length ∧
        Ordered.get? set.compilerSources path = some content) ∧
    ∀ (library : Library) (surroundings : Surroundings) (workbench : Workbench) (job : Job),
      ∀ run ∈ (compile library surroundings workbench job).runs,
        Ordered.get? run.2.sources job.fileName = some job.source := by
  refine ⟨fun entry added => ?_,
    fun library supply content path steps resolution hresolved =>
      ⟨?_, fun set houtcome => ?_⟩,
    fun library surroundings workbench job run => get?_sources_of_runs⟩
  · intro set
    have hentry : set.entry = entry := congrArg SourceSet.entry (SourceSet.ofAdded_eq entry added)
    have hnodup : (Ordered.keys set.dependencies).Nodup :=
      SourceSet.keys_dependencies_ofAdded entry added ▸ nodup_eraseDups _
    have hkeys : ∀ path, path ∈ Ordered.keys set.dependencies ↔ path ∈ added.map SourceFile.path :=
      fun _ => SourceSet.mem_keys_dependencies_ofAdded
    have hlast := SourceSet.get?_dependencies_ofAdded entry added
    refine ⟨fun path => ⟨?_, ?_⟩, ?_, fun path hpath hne => ?_, ?_, ?_⟩
    · rw [SourceSet.contains_iff, SourceSet.get?_ne_none_iff]
    · rw [SourceSet.get?_ne_none_iff, SourceSet.mem_keys_compilerSources_iff]
    · rw [SourceSet.keys_compilerSources hnodup, SourceSet.keys_dependencies_ofAdded, hentry]
    · obtain ⟨content, hcontent⟩ := SourceSet.exists_lastAdded hpath
      have hdependency : Ordered.get? set.dependencies path = some content :=
        (hlast path).trans hcontent
      rw [← hentry] at hne
      refine ⟨content, hcontent, ?_, hdependency, ?_⟩
      · rw [SourceSet.get?, if_neg hne, hdependency, Option.map_some]
      · rw [SourceSet.get?_compilerSources hnodup, hdependency, Option.some_or]
    · rw [SourceSet.contents_agree_iff hnodup, hentry, hlast, ← hkeys, ← Ordered.get?_eq_none_iff,
        hlast]
      cases SourceSet.lastAdded? added entry.path <;> simp
    · rw [SourceSet.size_eq_iff hnodup, hentry, hkeys]
  · rintro web rfl
    exact resolveWithin_unique (resolveWithin_webBound library web content path) hresolved
  · obtain ⟨hentry, hwalked⟩ := askedDepthFirst_of_outcome hresolved houtcome
    obtain ⟨hnew, hnodup⟩ := List.nodup_cons.mp hwalked.nodup_paths
    have hnone := Ordered.get?_eq_none_iff.mpr hnew
    refine ⟨hentry ▸ hwalked.eq_ofAdded, by rwa [hentry] at hnew, ?_, hwalked.compilerSources_eq,
      (SourceSet.size_eq_iff hnodup).mpr hnew, ?_⟩
    · refine (SourceSet.contents_agree_iff hnodup).mpr fun content hcontent => ?_
      rw [hnone] at hcontent
      cases hcontent
    · have hsource := hwalked.get?_compilerSources_entry
      rwa [hentry] at hsource

/-- A file that was added twice and one that was added under the submitted path, and the sources of
a compilation with one dependency. -/
theorem source_views_agree_of_override :
    let entry : SourceFile := ⟨"Main.sol", "import './L.sol';"⟩
    let added : List SourceFile := [⟨"L.sol", "1"⟩, ⟨"Main.sol", "2"⟩, ⟨"L.sol", "3"⟩]
    let set := SourceSet.ofAdded entry added
    let library := Library.named "lib/" "https://example.org"
    let web : Web := ⟨[("https://example.org/L.sol", .ok ⟨200, "", "library L \x7b\x7d"⟩)]⟩
    let found : SourceSet := ⟨entry, [("lib/L.sol", "library L \x7b\x7d")]⟩
    let job : Job := ⟨entry.content, entry.path, "0.8.20", true, 200, .paris⟩
    let binary : Binary := ⟨"0.8.20", "v0.8.20+commit.a1b79de6", "/opt/solc", 0⟩
    let release : Release := ⟨"0.8.20", .null, binary.longVersion⟩
    let workbench : Workbench :=
      ⟨{ known := some [("0.8.20", release)] }, ⟨[("0.8.20", binary)], [], 0, 1⟩, {}⟩
    let report := compile library ⟨Web.missing, web, .output .null⟩ workbench job
    (↑"L.sol" ∈ added.map SourceFile.path ∧ "L.sol" ≠ entry.path ∧
      set.get? "L.sol" = some ⟨"L.sol", "3"⟩ ∧
      Ordered.keys set.compilerSources = ["Main.sol", "L.sol"] ∧
      (¬∀ path, (set.get? path).map SourceFile.content =
        Ordered.get? set.compilerSources path) ∧
      set.size ≠ (Ordered.keys set.compilerSources).length) ∧
    ((resolveAll library web entry.content entry.path).outcome = .ok found ∧
      found.size = (Ordered.keys found.compilerSources).length) ∧
    (↑"/opt/solc", Input.ofJob job found) ∈ report.runs ∧
      Ordered.get? (Input.ofJob job found).sources "Main.sol" = some "import './L.sol';" := by
  intro entry added set library web found job binary release workbench report
  obtain ⟨hviews, hsearch, hruns⟩ := source_views_agree
  obtain ⟨-, hkeys, hadded, hcontents, hsize⟩ := hviews entry added
  have hmem : ↑"L.sol" ∈ added.map SourceFile.path := by decide
  have hne : "L.sol" ≠ entry.path := by decide
  have hentry : entry.path ∈ added.map SourceFile.path := by decide
  have hlast : SourceSet.lastAdded? added entry.path ≠ some entry.content := by decide
  obtain ⟨content, hcontent, hget, -⟩ := hadded "L.sol" hmem hne
  cases hcontent
  have houtcome : (resolveAll library web entry.content entry.path).outcome = .ok found := by
    have hsome :
        (resolveAll library web entry.content entry.path).outcome.toOption = some found := by
      decide +kernel
    cases hall : (resolveAll library web entry.content entry.path).outcome with
    | ok other =>
        rw [hall] at hsome
        exact congrArg Except.ok (Option.some.inj hsome)
    | error failure =>
        rw [hall] at hsome
        cases hsome
  have hfound := (hsearch library _ _ _ _ _ (resolveWithin_webBound library web entry.content
    entry.path)).2 found houtcome
  have hrun : (↑"/opt/solc", Input.ofJob job found) ∈ report.runs := by decide +kernel
  refine ⟨⟨hmem, hne, hget, hkeys.trans (by decide), fun hall => ?_, fun heq => ?_⟩,
    ⟨houtcome, hfound.2.2.2.2.1⟩, hrun, hruns _ _ _ _ _ hrun⟩
  · exact (hcontents.mp hall).elim (fun hnew => hnew hentry) hlast
  · exact hsize.mp heq hentry

end Compiler

end ContractBench
