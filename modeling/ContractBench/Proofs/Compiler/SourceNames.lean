import ContractBench.Compiler.Compilation
import ContractBench.Proofs.Source.Preorder

/-! # Names of the compiler's sources

The compiler looks up what a file imports under the path that the file names from its own place.
The search files a dependency under its path in the library, which is another one where a relative
path leads out of the library. This decides which imports the compiler can find.
-/

namespace ContractBench

namespace Source

/-- An import that names a path of the library has that path in the library. -/
theorem Library.eq_resolve_of_canonical? {library : Library} (habsolute : library.Absolute)
    {current specifier path : RawText} (hpath : library.canonical? current specifier = some path)
    (hscope : RawText.beginsWith library.scope (resolve current specifier) = true) :
    path = resolve current specifier := by
  unfold canonical? at hpath
  split at hpath
  next hspecifier =>
    have hrelative : ¬isRelative specifier = true := by simp [habsolute specifier hspecifier]
    rw [resolve, if_neg hrelative]
    exact (Option.some.inj hpath).symm
  next =>
    split at hpath
    next =>
      simp only [hscope, if_true] at hpath
      exact (Option.some.inj hpath).symm
    next => cases hpath

/-- Where every path was answered, the compiler gets the submitted file and what was asked for. -/
theorem WalkedDepthFirst.has_compilerSources {library : Library} {supply : Supply}
    {set : SourceSet} {asked : List RawText} (h : WalkedDepthFirst library supply set asked)
    (hfound : ∀ path ∈ asked, ∃ text, supply path = .ok text) {path : RawText} :
    Ordered.has set.compilerSources path = true ↔ path = set.entry.path ∨
      ∃ file ∈ set.toList, ∃ specifier ∈ findImports file.content,
        library.canonical? file.path specifier = some path := by
  rw [SourceSet.has_compilerSources, h.mem_keys_iff]
  constructor
  · rintro (rfl | ⟨hasked, -⟩)
    · exact Or.inl rfl
    · obtain ⟨file, hfile, hneeds⟩ := h.exists_needs hasked
      exact Or.inr ⟨file, hfile, Library.mem_needs.mp hneeds⟩
  · rintro (rfl | ⟨file, hfile, hneeds⟩)
    · exact Or.inl rfl
    · by_cases heq : path = set.entry.path
      · exact Or.inl heq
      · have hasked := h.mem_asked_iff.mpr ⟨heq, file, hfile, Library.mem_needs.mpr hneeds⟩
        exact Or.inr ⟨hasked, hfound path hasked⟩

end Source

namespace Compiler

open Source

/-- Where every path was answered, the compiler finds an import that leads into the library exactly
if the path that it names is that of the submitted file or one to which an import leads in the
library. Unless the scope begins with a dot, the latter are the paths that begin with the scope. -/
theorem Input.has_sources_iff (scope site : String) (supply : Supply) (job : Job) {steps : Nat}
    {resolution : Resolution}
    (hresolved : resolveWithin (Library.named scope site) supply steps job.source job.fileName =
      some resolution)
    (hfound : ∀ path ∈ resolution.asked, ∃ text, supply path = .ok text) :
    ∃ set,
      resolution.outcome = .ok set ∧
      (∀ surroundings workbench binary,
        (Library.named scope site).fetch surroundings.web = supply →
          (compileWith (Library.named scope site) surroundings job workbench binary).runs =
            [(binary.executable, Input.ofJob job set)]) ∧
      ∀ file ∈ set.toList, ∀ specifier ∈ Source.findImports file.content, ∀ path,
        (Library.named scope site).canonical? file.path specifier = some path →
        (Ordered.has (Input.ofJob job set).sources (resolve file.path specifier) = true ↔
          resolve file.path specifier = job.fileName ∨
          ∃ importer ∈ set.toList, ∃ other ∈ Source.findImports importer.content,
            (Library.named scope site).canonical? importer.path other =
              some (resolve file.path specifier)) ∧
        (Text.beginsWith "." scope = false →
          (Ordered.has (Input.ofJob job set).sources (resolve file.path specifier) = true ↔
            resolve file.path specifier = job.fileName ∨
            RawText.beginsWith (Library.named scope site).scope (resolve file.path specifier) =
              true)) := by
  obtain ⟨set, houtcome, hentry, hwalked⟩ := walked_of_resolveWithin hresolved fun path hpath =>
    Or.inl (hfound path hpath)
  refine ⟨set, houtcome, ?_, ?_⟩
  · rintro surroundings workbench binary rfl
    have hall := resolveWithin_unique
      (resolveWithin_webBound _ surroundings.web job.source job.fileName) hresolved
    rw [compileWith, hall, houtcome]
  · intro file hfile specifier hspecifier path hpath
    have hsources : Ordered.has (Input.ofJob job set).sources (resolve file.path specifier) = true ↔
        _ := hwalked.has_compilerSources hfound
    rw [hentry] at hsources
    refine ⟨hsources, fun hdot => hsources.trans (or_congr_right ⟨?_, fun hscope => ?_⟩)⟩
    · rintro ⟨importer, -, other, -, hcanonical⟩
      exact Library.beginsWith_scope_of_canonical? hcanonical
    · have heq := Library.eq_resolve_of_canonical? (Library.absolute_named site hdot) hpath hscope
      exact ⟨file, hfile, specifier, hspecifier, heq ▸ hpath⟩

/-- What the submitted file names from its own place is not filed under that name. -/
theorem Input.has_sources_iff_of_relative :
    let supply : Supply := fun _ => .ok "contract Base \x7b\x7d"
    let job : Job := ⟨"import \"./Base.sol\";", "Contract.sol", "0.8.20", true, 200, .paris⟩
    let set : SourceSet := ⟨⟨"Contract.sol", "import \"./Base.sol\";"⟩,
      [("@openzeppelin/contracts/Base.sol", "contract Base \x7b\x7d")]⟩
    let resolution : Resolution := ⟨.ok set, ["@openzeppelin/contracts/Base.sol"]⟩
    resolveWithin (Library.named "" "") supply 1 job.source job.fileName = some resolution ∧
    (∀ path ∈ resolution.asked, ∃ text, supply path = .ok text) ∧
    (Ordered.has (Input.ofJob job set).sources (resolve "Contract.sol" "./Base.sol") = true ↔
      resolve "Contract.sol" "./Base.sol" = "Contract.sol" ∨
      RawText.beginsWith (Library.named "" "").scope (resolve "Contract.sol" "./Base.sol") =
        true) := by
  intro supply job set resolution
  have hresolved : resolveWithin (Library.named "" "") supply 1 job.source job.fileName =
      some resolution := by
    dsimp only [supply, job, resolution, set]
    rfl
  have hfound : ∀ path ∈ resolution.asked, ∃ text, supply path = .ok text :=
    fun _ _ => ⟨_, rfl⟩
  obtain ⟨filed, houtcome, -, hnames⟩ := has_sources_iff "" "" supply job hresolved hfound
  cases houtcome
  have hname := hnames ⟨"Contract.sol", "import \"./Base.sol\";"⟩ (by decide) "./Base.sol"
    (by decide) "@openzeppelin/contracts/Base.sol" (by decide)
  exact ⟨hresolved, hfound, hname.2 (by decide)⟩

/-- The compiler does not find every import that leads into the library. -/
theorem Input.not_has_sources :
    ¬∀ (supply : Supply) (job : Job) (steps : Nat) (set : SourceSet) (asked : List RawText),
      (∀ path, ∃ text, supply path = .ok text) →
      resolveWithin Library.standard supply steps job.source job.fileName =
        some ⟨.ok set, asked⟩ →
      ∀ file ∈ set.toList, ∀ specifier ∈ Source.findImports file.content,
        Library.standard.canonical? file.path specifier ≠ none →
        Ordered.has (Input.ofJob job set).sources (resolve file.path specifier) = true := by
  intro h
  have hbase := h (fun _ => .ok "contract Base \x7b\x7d")
    ⟨"import \"./Base.sol\";", "Contract.sol", "0.8.20", true, 200, .paris⟩ 1
    ⟨⟨"Contract.sol", "import \"./Base.sol\";"⟩,
      [("@openzeppelin/contracts/Base.sol", "contract Base \x7b\x7d")]⟩
    ["@openzeppelin/contracts/Base.sol"] (fun _ => ⟨_, rfl⟩) rfl
    ⟨"Contract.sol", "import \"./Base.sol\";"⟩ (by decide) "./Base.sol" (by decide) (by decide)
  revert hbase
  decide

end Compiler

end ContractBench
