import ContractBench.Proofs.Source.Addresses
import ContractBench.Proofs.Source.Postorder
import ContractBench.Proofs.Source.Preorder

/-! # Canonical paths

A path of the library is canonical if only names follow the scope. What a relative import leads to
is canonical, unless it leads up to nothing; what an import names in the library itself is taken as
it is written. So a search asks for canonical paths just where the imports that it follows are
written so, and then each address is asked for once and lies below the root of the library.
-/

namespace ContractBench.Source

namespace Library

/-- What follows the scope in a canonical path consists of names. -/
def Canonical (library : Library) (path : RawText) : Prop :=
  ∃ rest, path = library.scope ++ rest ∧ Plain rest

/-- The scope of a library consists of names, with a slash behind the last. -/
def HasPlainScope (library : Library) : Prop :=
  ∃ root : RawText, Plain root ∧ library.scope = root ++ "/"

variable {library : Library} {current specifier path other : RawText}

instance : Decidable (library.Canonical path) :=
  decidable_of_iff (∃ rest ∈ RawText.after? library.scope path, Plain rest)
    (exists_congr fun _ => and_congr_left fun _ =>
      ⟨RawText.eq_append_of_after?, fun h => h ▸ RawText.after?_append library.scope _⟩)

theorem canonical_of_plain (hscope : library.HasPlainScope)
    (hbegins : RawText.beginsWith library.scope path = true) (hplain : Plain path) :
    library.Canonical path := by
  obtain ⟨root, -, hroot⟩ := hscope
  obtain ⟨rest, rfl⟩ := RawText.beginsWith_iff.mp hbegins
  rw [hroot, plain_append_slash_iff] at hplain
  exact ⟨rest, rfl, hplain.2⟩

theorem Canonical.plain (hscope : library.HasPlainScope) (h : library.Canonical path) :
    Plain path := by
  obtain ⟨root, hplain, hroot⟩ := hscope
  obtain ⟨rest, rfl, hrest⟩ := h
  rw [hroot, plain_append_slash_iff]
  exact ⟨hplain, hrest⟩

theorem not_canonical_scope : ¬library.Canonical library.scope := by
  rintro ⟨rest, heq, hplain⟩
  refine hplain.ne_empty (RawText.append_right_inj.mp ((heq.symm).trans ?_))
  exact (RawText.append_empty _).symm

/-- From a folder of names an import leads to a canonical path, to one that it names in the library
itself, or to the scope alone. -/
theorem canonical?_cases (hscope : library.HasPlainScope)
    (hfolder : ∀ segment ∈ folder current, IsName segment)
    (h : library.canonical? current specifier = some path) :
    path = specifier ∨ path = library.scope ∨ library.Canonical path := by
  unfold canonical? at h
  split at h
  next => exact Or.inl (Option.some.inj h).symm
  next =>
    split at h
    next hrelative =>
      obtain rfl := Option.some.inj h
      right
      rcases plain_resolve hrelative hfolder with hempty | hplain
      · left
        rw [hempty]
        split
        next hbegins =>
          obtain ⟨rest, hrest⟩ := RawText.beginsWith_iff.mp hbegins
          exact (RawText.append_eq_empty_iff.mp hrest).1.symm
        next => exact RawText.append_empty _
      · split
        next hbegins => exact Or.inr (canonical_of_plain hscope hbegins hplain)
        next => exact Or.inr ⟨_, rfl, hplain⟩
    next => cases h

theorem url_scope_append (library : Library) (rest : RawText) :
    library.url (library.scope ++ rest) = library.site ++ "/" ++ rest := by
  rw [url, RawText.after?_append]
  rfl

/-- The address of a canonical path lies below the root of the library. -/
theorem Canonical.plainAddress_url (h : library.Canonical path) (hbare : Bare path) :
    ∃ rest, path = library.scope ++ rest ∧ rest ≠ "" ∧
      plainAddress (library.url path) = plainAddress (library.site ++ "/") ++ rest := by
  obtain ⟨rest, rfl, hplain⟩ := h
  rw [Bare, RawText.points_append, List.forall_mem_append] at hbare
  refine ⟨rest, rfl, hplain.ne_empty, ?_⟩
  rw [url_scope_append, plainAddress_append library.site hplain hbare.2]

/-- Canonical paths are told apart by their addresses. -/
theorem Canonical.eq_of_plainAddress_url (hpath : library.Canonical path) (hbare : Bare path)
    (hother : library.Canonical other) (hbare' : Bare other)
    (heq : plainAddress (library.url path) = plainAddress (library.url other)) : path = other := by
  obtain ⟨first, rfl, -, hfirst⟩ := hpath.plainAddress_url hbare
  obtain ⟨second, rfl, -, hsecond⟩ := hother.plainAddress_url hbare'
  rw [hfirst, hsecond] at heq
  rw [RawText.append_right_inj.mp heq]

theorem nodup_plainAddress_url {paths : List RawText} (hnodup : paths.Nodup)
    (hpaths : ∀ path ∈ paths, library.Canonical path ∧ Bare path) :
    (paths.map fun path => plainAddress (library.url path)).Nodup :=
  hnodup.map_on fun path hpath other hother heq =>
    (hpaths path hpath).1.eq_of_plainAddress_url (hpaths path hpath).2 (hpaths other hother).1
      (hpaths other hother).2 heq

end Library

section Searches

variable {library : Library} {supply : Supply} {set : SourceSet} {asked : List RawText}

/-- Only paths that a file names in the library itself can be asked for without being canonical,
apart from the scope alone. -/
theorem AskedDepthFirst.canonical_of_mem (h : AskedDepthFirst library supply set asked)
    (hscope : library.HasPlainScope) (hbase : ∀ segment ∈ folder set.entry.path, IsName segment)
    (hroot : ↑library.scope ∉ asked)
    (hwritten : ∀ file ∈ set.toList, ∀ specifier ∈ findImports file.content,
      (specifier : RawText) ∈ asked → library.Canonical specifier) :
    ∀ path ∈ asked, library.Canonical path := by
  suffices hall : ∀ k (hk : k < asked.length), library.Canonical asked[k] by
    intro path hpath
    obtain ⟨k, hk, rfl⟩ := List.mem_iff_getElem.mp hpath
    exact hall k hk
  intro k
  induction k using Nat.strong_induction_on with
  | _ k ih =>
      intro hk
      obtain ⟨file, hfile, hneeds⟩ := h.exists_needs_before hk
      obtain ⟨specifier, hspecifier, hcanonical⟩ := Library.mem_needs.mp hneeds
      -- The file that imports the path lies in a folder of names, as it was asked for before.
      have hfolder : ∀ segment ∈ folder file.path, IsName segment := by
        rcases List.mem_cons.mp hfile with rfl | hfound
        · exact hbase
        · obtain ⟨path, hpath, hsupply⟩ := List.mem_filterMap.mp hfound
          obtain ⟨rfl, -⟩ := Supply.file?_eq_some.mp hsupply
          obtain ⟨j, hj, hget⟩ := List.mem_take_iff_getElem.mp hpath
          rw [lt_min_iff] at hj
          have hbefore := ih j hj.1 hj.2
          rw [hget] at hbefore
          exact fun segment => isName_of_mem_folder (hbefore.plain hscope)
      have hmem : asked[k] ∈ asked := List.getElem_mem hk
      rcases Library.canonical?_cases hscope hfolder hcanonical with heq | heq | hplain
      · refine heq ▸ hwritten file ?_ specifier hspecifier (heq ▸ hmem)
        rw [h.found]
        exact List.Sublist.mem hfile (((List.take_sublist k asked).filterMap _).cons_cons _)
      · exact absurd (heq ▸ hmem) hroot
      · exact hplain

/-- Whatever a search asks for begins with the scope. What it asks for is canonical just where it
does not ask for the scope alone and all that imports name in the library itself is canonical. The
address of a canonical path lies below the root of the library, and only one canonical path has
it: so where all paths are canonical, no address is asked for twice, and no file but the submitted
one is written twice by a flattening. -/
theorem asks_canonical_iff (library : Library) (hscope : library.HasPlainScope) (supply : Supply)
    {content : String} {path : RawText} (hbase : ∀ segment ∈ folder path, IsName segment)
    {steps : Nat} {resolution : Resolution}
    (hresolved : resolveWithin library supply steps content path = some resolution) :
    (∀ p ∈ resolution.asked, RawText.beginsWith library.scope p = true) ∧
    ((∀ p ∈ resolution.asked, library.Canonical p) ↔
      ↑library.scope ∉ resolution.asked ∧
      ∀ file ∈ (⟨path, content⟩ : SourceFile) :: resolution.asked.filterMap supply.file?,
        ∀ specifier ∈ findImports file.content, (specifier : RawText) ∈ resolution.asked →
          library.Canonical specifier) ∧
    (∀ p ∈ resolution.asked, library.Canonical p → Bare p →
      ∃ rest, p = library.scope ++ rest ∧ rest ≠ "" ∧
        plainAddress (library.url p) = plainAddress (library.site ++ "/") ++ rest) ∧
    ((∀ p ∈ resolution.asked, library.Canonical p ∧ Bare p) →
      (resolution.asked.map fun p => plainAddress (library.url p)).Nodup ∧
      ∀ set, resolution.outcome = .ok set →
        (((inlining library.scope set.dependencies ⟨path, content⟩).writtenPaths.filter
          (· ≠ path)).map fun p => plainAddress (library.url p)).Nodup) ∧
    ∀ web, library.fetch web = supply → resolveAll library web content path = resolution := by
  obtain ⟨last, hwalk, rfl⟩ := Option.map_eq_some_iff.mp hresolved
  obtain ⟨hentry, hwalked⟩ := Search.askedDepthFirst_of_walk hwalk
  have hnodup := (List.nodup_cons.mp hwalked.nodup).2
  refine ⟨fun p => hwalked.beginsWith_scope, ⟨fun hall => ⟨?_, fun _ _ _ _ => hall _⟩, ?_⟩,
    fun p _ hcanonical => hcanonical.plainAddress_url, fun hall => ⟨?_, ?_⟩, ?_⟩
  · exact fun hroot => Library.not_canonical_scope (hall library.scope hroot)
  · rintro ⟨hroot, hwritten⟩
    have hfound := hwalked.found
    rw [hentry] at hfound
    exact hwalked.canonical_of_mem hscope (by rwa [hentry]) hroot (hfound ▸ hwritten)
  · exact Library.nodup_plainAddress_url hnodup hall
  · intro set houtcome
    obtain rfl : last.set = set := by
      rw [Search.toResolution] at houtcome
      split at houtcome
      · exact Except.ok.inj houtcome
      · cases houtcome
    have hinlined := Inlining.invariant_inlining library.scope last.set
    have hwritten := hinlined.writtenPaths_perm
    rw [hentry] at hwritten
    refine Library.nodup_plainAddress_url
      ((hwritten.nodup_iff.mpr (hentry ▸ hinlined.nodup)).filter _) fun p hp => ?_
    obtain ⟨hmem, hne⟩ := List.mem_filter.mp hp
    have hreached := hinlined.reached p (hentry ▸ hwritten.mem_iff.mp hmem)
    rcases mem_keys_of_reaches hreached with rfl | hkey
    · simp [hentry] at hne
    · exact hall p (hwalked.mem_keys_iff.mp hkey).1
  · rintro web rfl
    exact resolveWithin_unique (resolveWithin_webBound library web content path) hresolved

/-- A file that is imported by its place and by its name in the library is asked for once. -/
theorem asks_canonical_iff_of_shared :
    let library := Library.named "lib/" "https://example.org/v5"
    let supply := Supply.ofTable
      [("lib/a/A.sol", "import '../u/./B.sol';"), ("lib/u/B.sol", "contract B \x7b\x7d")]
    let content := "import './a/A.sol'; import 'lib/u/B.sol';"
    library.HasPlainScope ∧ (∀ segment ∈ folder "Main.sol", IsName segment) ∧
    ∃ resolution, resolveWithin library supply 3 content "Main.sol" = some resolution ∧
      resolution.asked = ["lib/a/A.sol", "lib/u/B.sol"] ∧
      (resolution.asked.map fun p => plainAddress (library.url p)).Nodup := by
  intro library supply content
  have hscope : library.HasPlainScope := ⟨"lib", by decide +kernel, by decide +kernel⟩
  have hbase : ∀ segment ∈ folder "Main.sol", IsName segment := by decide +kernel
  have hasked : (resolveWithin library supply 3 content "Main.sol").map Resolution.asked =
      some (["lib/a/A.sol", "lib/u/B.sol"] : List RawText) := by
    decide +kernel
  obtain ⟨resolution, hresolved, hpaths⟩ := Option.map_eq_some_iff.mp hasked
  obtain ⟨-, -, -, haddresses, -⟩ := asks_canonical_iff library hscope supply hbase hresolved
  refine ⟨hscope, hbase, resolution, hresolved, hpaths, (haddresses ?_).1⟩
  rw [hpaths]
  decide +kernel

/-- What imports name in the library itself is asked for as it is written: one file under two
paths, and a file outside the library. -/
theorem not_asks_canonical :
    let library := Library.named "lib/" "https://example.org/v5"
    let supply := Supply.ofTable
      [("lib/A.sol", "contract A \x7b\x7d"), ("lib/u/../A.sol", "contract A \x7b\x7d")]
    let content := "import 'lib/A.sol'; import 'lib/u/../A.sol'; import 'lib/../B.sol';"
    ∃ resolution, resolveWithin library supply 3 content "Main.sol" = some resolution ∧
      ¬(∀ p ∈ resolution.asked, library.Canonical p) ∧
      ¬(∀ p ∈ resolution.asked,
        RawText.beginsWith (library.site ++ "/") (plainAddress (library.url p)) = true) ∧
      ¬(resolution.asked.map fun p => plainAddress (library.url p)).Nodup := by
  intro library supply content
  have hasked : (resolveWithin library supply 3 content "Main.sol").map Resolution.asked =
      some (["lib/A.sol", "lib/u/../A.sol", "lib/../B.sol"] : List RawText) := by
    decide +kernel
  obtain ⟨resolution, hresolved, hpaths⟩ := Option.map_eq_some_iff.mp hasked
  refine ⟨resolution, hresolved, ?_⟩
  rw [hpaths]
  decide +kernel

end Searches

end ContractBench.Source
