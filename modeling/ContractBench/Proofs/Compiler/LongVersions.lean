import ContractBench.Compiler.Catalog
import ContractBench.Proofs.Json.RoundTrip
import ContractBench.Proofs.Text.Trimming
import ContractBench.Proofs.Value.Keys

/-! # Long versions

The long version of a release is told twice: by the name of its build, and by the builds that a
manifest may list. Where the builds say nothing else than the names do, the releases are the same
whatever builds are listed.
-/

namespace ContractBench.Compiler

/-- A run of characters that pass a test. There is at least one. -/
structure CharRun (test : Char → Bool) where
  chars : List Char
  ne_nil : chars ≠ []
  passes : ∀ c ∈ chars, test c = true

/-- A long version: three numbers, the name of a preliminary version if it is one, and the commit.
Numbers are written in digits of any script. -/
structure LongVersion where
  major : CharRun Text.isDecimal
  minor : CharRun Text.isDecimal
  patch : CharRun Text.isDecimal
  name : Option (CharRun isPreliminary)
  commit : CharRun isCommitDigit

namespace LongVersion

def numbers (long : LongVersion) : List Char :=
  long.major.chars ++ '.' :: long.minor.chars ++ '.' :: long.patch.chars

/-- The name of a preliminary version as it is written behind the numbers. -/
def title (long : LongVersion) : List Char :=
  match long.name with
  | some name => '-' :: name.chars
  | none => []

/-- The commit as it is written at the end. -/
def mark (long : LongVersion) : List Char := "+commit.".toList ++ long.commit.chars

def chars (long : LongVersion) : List Char := long.numbers ++ long.title ++ long.mark

def text (long : LongVersion) : String := String.ofList long.chars

end LongVersion

/-- No long version can begin in a text: no digit follows a `v` in it. -/
def Unversioned (cs : List Char) : Prop := ∀ d, Text.isDecimal d = true → ¬['v', d] <:+: cs

theorem unversioned_of_notMem {cs : List Char} (h : 'v' ∉ cs) : Unversioned cs :=
  fun _ _ hpart => h (hpart.subset List.mem_cons_self)

section Reading

variable {test : Char → Bool} {cs rest : List Char} {long : LongVersion}

/-- A run is taken up to the first character that does not pass. -/
theorem CharRun.run?_append (run : CharRun test) (hrest : ∀ c ∈ rest.head?, test c = false) :
    run? test (run.chars ++ rest) = some (run.chars, rest) := by
  obtain ⟨c, cs, hchars⟩ := List.exists_cons_of_ne_nil run.ne_nil
  rw [run?, Text.span_append run.passes hrest, hchars]

/-- No run is taken where the first character does not pass. -/
theorem run?_eq_none (h : ∀ c ∈ cs.head?, test c = false) : run? test cs = none := by
  rw [run?, ← List.nil_append cs, Text.span_append (List.forall_mem_nil _) h]

theorem triple?_append (hrest : ∀ c ∈ rest.head?, Text.isDecimal c = false) :
    triple? (long.numbers ++ rest) = some (long.numbers, rest) := by
  have hpoint : ∀ cs : List Char, ∀ c ∈ ('.' :: cs).head?, Text.isDecimal c = false := by
    intro cs c hc
    cases hc
    decide
  have hnumbers : long.numbers ++ rest = long.major.chars ++ '.' ::
      (long.minor.chars ++ '.' :: (long.patch.chars ++ rest)) := by
    simp [LongVersion.numbers]
  rw [hnumbers]
  simp only [triple?, long.major.run?_append (hpoint _), long.minor.run?_append (hpoint _),
    long.patch.run?_append hrest, Text.afterPrefix?, if_true, Option.bind_eq_bind,
    Option.bind_some]
  simp [LongVersion.numbers]

theorem triple?_eq_none (h : ∀ c ∈ cs.head?, Text.isDecimal c = false) : triple? cs = none := by
  rw [triple?, run?_eq_none h]
  rfl

theorem preliminary_append (rest : List Char) :
    preliminary (long.title ++ '+' :: rest) = (long.title, '+' :: rest) := by
  unfold LongVersion.title
  cases long.name with
  | none => rfl
  | some name =>
      have hname :
          run? isPreliminary (name.chars ++ '+' :: rest) = some (name.chars, '+' :: rest) :=
        name.run?_append fun c hc => by
          cases hc
          decide
      simp only [List.cons_append, preliminary, hname]

theorem commit?_append (hrest : ∀ c ∈ rest.head?, isCommitDigit c = false) :
    commit? (long.mark ++ rest) = some long.mark := by
  unfold commit? LongVersion.mark
  -- What the mark is makes no difference, and its characters are many.
  generalize "+commit.".toList = mark
  simp only [List.append_assoc, Text.afterPrefix?_append, long.commit.run?_append hrest,
    Option.bind_eq_bind, Option.bind_some, Option.pure_def]

/-- A long version is read in front of what is no digit of a commit. -/
theorem longVersion?_append (hrest : ∀ c ∈ rest.head?, isCommitDigit c = false) :
    longVersion? (long.chars ++ rest) = some long.chars := by
  obtain ⟨commit, hmark⟩ : ∃ commit, long.mark ++ rest = '+' :: commit := ⟨_, rfl⟩
  have hnumbers : triple? (long.chars ++ rest) =
      some (long.numbers, long.title ++ (long.mark ++ rest)) := by
    rw [LongVersion.chars, List.append_assoc, List.append_assoc]
    refine triple?_append fun c hc => ?_
    unfold LongVersion.title at hc
    cases hname : long.name <;> rw [hname] at hc <;> cases hc <;> decide
  have htitle : preliminary (long.title ++ (long.mark ++ rest)) =
      (long.title, long.mark ++ rest) := by
    rw [hmark]
    exact preliminary_append commit
  simp only [longVersion?, hnumbers, htitle, commit?_append hrest, Option.bind_eq_bind,
    Option.bind_some]
  rfl

theorem longVersion?_eq_none (h : ∀ c ∈ cs.head?, Text.isDecimal c = false) :
    longVersion? cs = none := by
  rw [longVersion?, triple?_eq_none h]
  rfl

/-- A long version is found behind a text in which none can begin. -/
theorem findLongVersion?_append {front : List Char} (hfront : Unversioned front)
    (hrest : ∀ c ∈ rest.head?, isCommitDigit c = false) :
    findLongVersion? (front ++ 'v' :: (long.chars ++ rest)) = some ('v' :: long.chars) := by
  induction front with
  | nil => rw [List.nil_append, findLongVersion?, if_pos rfl, longVersion?_append hrest]
  | cons c front ih =>
      have hlater := ih fun d hd h => hfront d hd (h.trans (List.suffix_cons c front).isInfix)
      rw [List.cons_append, findLongVersion?]
      split
      next hc =>
        -- What follows this `v` is no digit, be it the next character or the `v` looked for.
        have hnone : longVersion? (front ++ 'v' :: (long.chars ++ rest)) = none := by
          refine longVersion?_eq_none fun d hd => ?_
          cases front with
          | nil =>
              cases hd
              decide
          | cons e front =>
              cases hd
              by_contra hdigit
              rw [Bool.not_eq_false] at hdigit
              exact hfront _ hdigit (hc ▸ (List.prefix_append ['v', _] front).isInfix)
        rw [hnone]
        exact hlater
      next => exact hlater

end Reading

/-- The name of a build tells a long version: no other can begin in front of it, and it ends
where the digits of its commit do. -/
def NamesVersion (build : Value) (long : LongVersion) : Prop :=
  ∃ front back : String,
    build.raw?.map RawText.replaced = some (front ++ "v" ++ long.text ++ back) ∧
    Unversioned front.toList ∧ ∀ c ∈ back.toList.head?, isCommitDigit c = false

section Names

variable {build : Value} {long : LongVersion} {front back : String}

theorem findLongVersion?_of_parts (hfront : Unversioned front.toList)
    (hback : ∀ c ∈ back.toList.head?, isCommitDigit c = false) :
    findLongVersion? (front ++ "v" ++ long.text ++ back).toList =
      some ("v" ++ long.text).toList := by
  have hparts : (front ++ "v" ++ long.text ++ back).toList =
      front.toList ++ 'v' :: (long.chars ++ back.toList) := by
    simp [LongVersion.text]
  rw [hparts, findLongVersion?_append hfront hback]
  simp [LongVersion.text]

theorem longVersionOfBuild_of_parts {name : RawText}
    (hname : name.replaced = front ++ "v" ++ long.text ++ back) (hfront : Unversioned front.toList)
    (hback : ∀ c ∈ back.toList.head?, isCommitDigit c = false) :
    longVersionOfBuild name = "v" ++ long.text := by
  rw [longVersionOfBuild, hname, findLongVersion?_of_parts hfront hback]
  simp only [String.ofList_toList, RawText.ofString_append]

theorem NamesVersion.kind_eq (h : NamesVersion build long) : build.kind = .text := by
  obtain ⟨front, back, hname, -, -⟩ := h
  obtain ⟨name, hraw, -⟩ := Option.map_eq_some_iff.mp hname
  exact Value.exists_raw?_iff.mp ⟨name, hraw⟩

theorem NamesVersion.namedVersion_eq (h : NamesVersion build long) :
    namedVersion build = .ok ("v" ++ long.text) := by
  obtain ⟨front, back, hname, hfront, hback⟩ := h
  obtain ⟨name, hraw, hname⟩ := Option.map_eq_some_iff.mp hname
  simp only [namedVersion, hraw, longVersionOfBuild_of_parts hname hfront hback]

end Names

/-- A release as a manifest lists it: its version, the name of its build, and the long version that
the name tells. -/
structure Listing where
  version : Value
  build : Value
  long : LongVersion
  names : NamesVersion build long

namespace Listing

def entry (listing : Listing) : Value × Value := (listing.version, listing.build)

/-- The release that is listed, by its version. -/
def release (listing : Listing) : RawText × Release :=
  let version := listing.version.raw?.getD ""
  (version, ⟨version, listing.build, "v" ++ listing.long.text⟩)

end Listing

/-- A build of a manifest says nothing else than the names of the builds do: where it is the build
of a listed release, it has the long version that the name tells, or none. What is missing in it is
null. -/
structure Accords (listings : List Listing) (build : Value) : Prop where
  table : build.kind = .table
  key : ((build.field? "path").getD .null).isKey = true
  long : ∀ listing ∈ listings, (build.field? "path").getD .null = listing.build →
    (build.field? "longVersion").getD .null = .text listing.long.text ∨
      ((build.field? "longVersion").getD .null).isTruthy = false

/-- A manifest lists releases, and builds that accord with them, or no builds. -/
structure Lists (manifest : Value) (listings : List Listing) : Prop where
  table : manifest.kind = .table
  releases : (manifest.field? "releases").getD (.table []) = .table (listings.map Listing.entry)
  builds : ∃ builds, (manifest.field? "builds").getD (.list []) = .list builds ∧
    ∀ build ∈ builds, Accords listings build

/-- The long versions of a table are those that the names of the builds tell, or none. -/
def Matches (listings : List Listing) (table : List (Value × Value)) : Prop :=
  ∀ listing ∈ listings, ∀ long, Ordered.get? table listing.build = some long →
    long = .text listing.long.text ∨ long.isTruthy = false

section Manifest

variable {listings rest : List Listing} {listing : Listing} {table : List (Value × Value)}
  {build : Value} {builds : List Value}

/-- A build that accords with the releases keeps the table one that matches them. -/
theorem Accords.matches_put (h : Accords listings build) (htable : Matches listings table) :
    Matches listings (Ordered.put ((build.field? "path").getD .null)
      ((build.field? "longVersion").getD .null) table) := by
  intro listing hlisting long hlong
  have htext := listing.names.kind_eq
  rw [Ordered.get?_put_of_kind htext] at hlong
  split at hlong
  next hpath =>
    cases hlong
    exact h.long listing hlisting ((Value.beq_iff_of_kind_right htext).mp hpath)
  next => exact htable listing hlisting long hlong

theorem longVersions_cons (h : Accords listings build) :
    longVersions table (build :: builds) =
      longVersions (Ordered.put ((build.field? "path").getD .null)
        ((build.field? "longVersion").getD .null) table) builds := by
  simp only [longVersions, member, Value.getD_of_table h.table, bind, Except.bind, h.key, if_true]

/-- The builds make a table that matches the releases. -/
theorem exists_longVersions (h : ∀ build ∈ builds, Accords listings build)
    (htable : Matches listings table) :
    ∃ result, longVersions table builds = .ok result ∧ Matches listings result := by
  induction builds generalizing table with
  | nil => exact ⟨table, rfl, htable⟩
  | cons build builds ih =>
      obtain ⟨hbuild, hbuilds⟩ := List.forall_mem_cons.mp h
      rw [longVersions_cons hbuild]
      exact ih hbuilds (hbuild.matches_put htable)

/-- From a table that matches the releases each one gets the long version that the name of its build
tells. -/
theorem release_of_matches (h : Matches listings table) (hlisting : listing ∈ listings)
    (version : RawText) : release table version listing.build =
      .ok ⟨version, listing.build, "v" ++ listing.long.text⟩ := by
  have hkey : listing.build.isKey = true := Value.isKey_of_kind listing.names.kind_eq
  have hfound : ∀ long, Ordered.get? table listing.build = some long → long.isTruthy = true →
      long = .text listing.long.text := fun long hlong htruthy =>
    (h listing hlisting long hlong).resolve_right (by simp [htruthy])
  simp only [release, hkey, Bool.not_true, Bool.false_eq_true, if_false]
  cases hlong : Ordered.get? table listing.build with
  | none =>
      rw [listing.names.namedVersion_eq]
      rfl
  | some long =>
      rw [Option.getD_some]
      split
      next htruthy =>
        rw [hfound long hlong htruthy]
        rfl
      next =>
        rw [listing.names.namedVersion_eq]
        rfl

theorem releasesOf_of_matches (h : Matches listings table) (hrest : rest ⊆ listings) :
    releasesOf table (rest.map Listing.entry) = .ok (rest.map Listing.release) := by
  induction rest with
  | nil => rfl
  | cons listing rest ih =>
      obtain ⟨hlisting, hrest⟩ := List.cons_subset.mp hrest
      simp only [List.map_cons, Listing.entry, releasesOf, release_of_matches h hlisting, bind,
        Except.bind]
      rw [ih hrest]
      rfl

theorem manifestReleases_of_lists {manifest : Value} (h : Lists manifest listings) :
    manifestReleases manifest = .ok (listings.map Listing.release) := by
  obtain ⟨builds, hbuilds, haccords⟩ := h.builds
  have hstart : Matches listings [] := nofun
  obtain ⟨table, htable, hmatches⟩ := exists_longVersions haccords hstart
  simp only [manifestReleases, Value.getD_of_table h.table, hbuilds, h.releases, Value.items,
    Value.entries, htable, bind, Except.bind]
  exact releasesOf_of_matches hmatches (List.Subset.refl listings)

end Manifest

/-- A long version is told by the name of a build, and the releases of a manifest have the long
versions that the names of their builds tell, whether the manifest lists the same long versions
with the builds, or null, empty ones or none with some of them, or only some builds, or none. -/
theorem long_versions_agree :
    (∀ (name : RawText) (front back : String) (long : LongVersion),
      name.replaced = front ++ "v" ++ long.text ++ back → Unversioned front.toList →
      (∀ c ∈ back.toList.head?, isCommitDigit c = false) →
      longVersionOfBuild name = "v" ++ long.text) ∧
    ∀ (manifest : Value) (listings : List Listing), Lists manifest listings →
      manifestReleases manifest = .ok (listings.map Listing.release) ∧
      ∀ (address : String) (response : Response), response.isError = false →
        response.json = .ok manifest →
        Catalog.releasesIn address (.ok response) = .ok (listings.map Listing.release) := by
  refine ⟨fun _ _ _ _ => longVersionOfBuild_of_parts, fun manifest listings h => ?_⟩
  have hreleases := manifestReleases_of_lists h
  refine ⟨hreleases, fun address response hstatus hjson => ?_⟩
  rw [Catalog.releasesIn, hstatus, hjson]
  exact orFail_eq_ok.mpr hreleases

section Sample

def sampleLong : LongVersion where
  major := ⟨['0'], by decide, by decide⟩
  minor := ⟨['8'], by decide, by decide⟩
  patch := ⟨['2', '0'], by decide, by decide⟩
  name := none
  commit := ⟨['a', '1', 'b'], by decide, by decide⟩

def samplePreliminary : LongVersion where
  major := ⟨['0'], by decide, by decide⟩
  minor := ⟨['4'], by decide, by decide⟩
  patch := ⟨['0'], by decide, by decide⟩
  name := some ⟨['r', 'c', '.', '1'], by decide, by decide⟩
  commit := ⟨['d', '4'], by decide, by decide⟩

theorem unversioned_sample : Unversioned "soljson-".toList := unversioned_of_notMem (by decide)

theorem ends_sample : ∀ c ∈ ".js".toList.head?, isCommitDigit c = false := by decide

def sampleListings : List Listing :=
  [⟨.text "0.8.20", .text "soljson-v0.8.20+commit.a1b.js", sampleLong,
    "soljson-", ".js", by decide +kernel, unversioned_sample, ends_sample⟩,
   ⟨.text "0.4.0", .text "soljson-v0.4.0-rc.1+commit.d4.js", samplePreliminary,
    "soljson-", ".js", by decide +kernel, unversioned_sample, ends_sample⟩]

/-- Builds of which one tells its long version, one does not, and one belongs to no release. -/
def sampleBuilds : List Value :=
  [.ofFields [("path", .text "soljson-v0.8.20+commit.a1b.js"),
     ("longVersion", .text "0.8.20+commit.a1b")],
   .ofFields [("path", .text "soljson-v0.4.0-rc.1+commit.d4.js"), ("longVersion", .null)],
   .ofFields [("longVersion", .text "0.1.1")]]

def sampleReleases : List (String × Value) :=
  [("0.8.20", .text "soljson-v0.8.20+commit.a1b.js"),
   ("0.4.0", .text "soljson-v0.4.0-rc.1+commit.d4.js")]

def sampleManifest : Value :=
  .ofFields [("builds", .list sampleBuilds), ("releases", .ofFields sampleReleases)]

def sampleResponse : Response where
  status := 200
  reason := "OK"
  body :=
    "\x7b\"builds\": [\x7b\"path\": \"soljson-v0.8.20+commit.a1b.js\", " ++
      "\"longVersion\": \"0.8.20+commit.a1b\"\x7d, " ++
      "\x7b\"path\": \"soljson-v0.4.0-rc.1+commit.d4.js\", \"longVersion\": null\x7d, " ++
      "\x7b\"longVersion\": \"0.1.1\"\x7d], " ++
      "\"releases\": \x7b\"0.8.20\": \"soljson-v0.8.20+commit.a1b.js\", " ++
      "\"0.4.0\": \"soljson-v0.4.0-rc.1+commit.d4.js\"\x7d\x7d"

theorem text_sampleLong : sampleLong.text = "0.8.20+commit.a1b" := by decide +kernel

theorem accords_sample : ∀ build ∈ sampleBuilds, Accords sampleListings build := by
  simp only [sampleBuilds, List.forall_mem_cons]
  refine ⟨⟨rfl, ?_, ?_⟩, ⟨rfl, ?_, ?_⟩, ⟨rfl, ?_, ?_⟩, List.forall_mem_nil _⟩
  all_goals simp [sampleListings, Value.field?_ofFields, Ordered.get?, Value.isKey, Value.isTruthy,
    text_sampleLong]

theorem lists_sample : Lists sampleManifest sampleListings where
  table := rfl
  releases := by
    rw [sampleManifest, Value.field?_ofFields]
    rfl
  builds := ⟨sampleBuilds, by rw [sampleManifest, Value.field?_ofFields]; rfl, accords_sample⟩

theorem kept_sample : Json.Kept sampleManifest := by
  have htext (s : String) : Json.Kept (.text s) := .text (Json.keptText s)
  have hbuilds : ∀ build ∈ sampleBuilds, Json.Kept build := by
    simp only [sampleBuilds, List.forall_mem_cons]
    exact ⟨Json.kept_ofFields (by decide) (by simp [htext]),
      Json.kept_ofFields (by decide) (by simp [htext, Json.Kept.null]),
      Json.kept_ofFields (by decide) (by simp [htext]), List.forall_mem_nil _⟩
  have hreleases : Json.Kept (.ofFields sampleReleases) :=
    Json.kept_ofFields (by decide) (by simp [sampleReleases, htext])
  exact Json.kept_ofFields (by decide) (by simp [Json.Kept.list hbuilds, hreleases])

theorem json_sampleResponse : sampleResponse.json = .ok sampleManifest := by
  rw [Response.json, Json.read_of_write kept_sample (by decide +kernel)]
  rfl

/-- A manifest with two releases, one of them preliminary. The long version of the first is listed
with its build, and null is listed for the second. -/
theorem long_versions_agree_of_sample :
    Unversioned "soljson-".toList ∧ (∀ c ∈ ".js".toList.head?, isCommitDigit c = false) ∧
      Lists sampleManifest sampleListings ∧ sampleResponse.isError = false ∧
      sampleResponse.json = .ok sampleManifest ∧
    longVersionOfBuild ↑("soljson-" ++ "v" ++ samplePreliminary.text ++ ".js") =
      "v" ++ samplePreliminary.text ∧
    manifestReleases sampleManifest = .ok (sampleListings.map Listing.release) ∧
    Catalog.releasesIn defaultManifest (.ok sampleResponse) =
      .ok (sampleListings.map Listing.release) := by
  obtain ⟨hreleases, hread⟩ := long_versions_agree.2 sampleManifest sampleListings lists_sample
  exact ⟨unversioned_sample, ends_sample, lists_sample, rfl, json_sampleResponse,
    long_versions_agree.1 _ _ _ _ (RawText.replaced_ofString _) unversioned_sample ends_sample,
    hreleases,
    hread defaultManifest sampleResponse rfl json_sampleResponse⟩

end Sample

end ContractBench.Compiler
