import ContractBench.Proofs.Source.Forms
import ContractBench.Proofs.Source.Postorder

/-! # The header of a flattened source

A flattened source should have one licence, one pragma and no import. The module says exactly when
it has, and that for sources in parts the only thing that can spoil it is a licence that stands in
their code, in a form that is not recognised.
-/

namespace ContractBench.Source

open Text (isBlank)

section Layout

/-- The first line of a flattened source. -/
def licenceLine (source : String) : List Char :=
  "// SPDX-License-Identifier: ".toList ++ (licenceOf source).toList

/-- The remark under the header, with the empty lines around it. -/
def notice : List Char :=
  ("" :: flattenedNotice ++ [""]).flatMap fun line => '\n' :: line.toList

/-- What is written of files, each on lines of its own. -/
def bodyText (files : List SourceFile) : List Char :=
  (bodies files).flatMap fun body => '\n' :: body.toList

theorem toList_joined_lines (line : String) (lines : List String) :
    (Text.joined "\n" (line :: lines)).toList =
      line.toList ++ lines.flatMap fun other => '\n' :: other.toList := by
  induction lines generalizing line with
  | nil => simp [Text.joined]
  | cons other lines ih =>
      have hrest := ih other
      simp only [Text.joined] at hrest ⊢
      rw [String.intercalate_cons_cons, String.toList_append, String.toList_append, hrest]
      simp

theorem toList_joined_header (licence pragma : String) (remark lines : List String) :
    (Text.joined "\n" ([licence, pragma, ""] ++ remark ++ [""] ++ lines)).toList =
      licence.toList ++ '\n' :: (pragma.toList ++
        (("" :: remark ++ [""]).flatMap (fun line => '\n' :: line.toList) ++
          lines.flatMap fun line => '\n' :: line.toList)) := by
  simp only [List.cons_append, List.nil_append, toList_joined_lines, List.flatMap_cons,
    List.flatMap_append, List.flatMap_nil, List.append_assoc]

/-- A flattened source is its header and its bodies. -/
theorem toList_flatten (scope : String) (sources : List (RawText × String)) (entry : SourceFile) :
    (flatten scope sources entry).toList =
      licenceLine entry.content ++ '\n' :: ((pragmaOf entry.content).toList ++
        (notice ++ bodyText (inlining scope sources entry).written)) := by
  have hlicence : licenceLine entry.content =
      ("// SPDX-License-Identifier: " ++ licenceOf entry.content).toList :=
    String.toList_append.symm
  have hflatten := toList_joined_header ("// SPDX-License-Identifier: " ++ licenceOf entry.content)
    (pragmaOf entry.content) flattenedNotice (bodies (inlining scope sources entry).written)
  rw [← hlicence] at hflatten
  exact hflatten

/-- The submitted file is among those that are written. -/
theorem entry_mem_written (scope : String) (sources : List (RawText × String))
    (entry : SourceFile) : entry ∈ (inlining scope sources entry).written := by
  obtain hpending | ⟨-, hlast⟩ := (Inlining.invariant_inlining scope ⟨entry, sources⟩).last
  · cases hpending
  · exact List.mem_of_getLast? hlast

end Layout

section Counting

theorem marks_append_lines (xs : List Char) (lines : List String) :
    marks (xs ++ lines.flatMap fun line => '\n' :: line.toList) =
      marks xs + (lines.map fun line => marks line.toList).sum := by
  have hbreak : '\n' ∉ licenceMark := notMem_licenceMark_of_isBlank (by decide)
  induction lines generalizing xs with
  | nil => simp
  | cons line lines ih =>
      rw [List.flatMap_cons, List.cons_append, marks_append_cons hbreak, ih line.toList,
        List.map_cons, List.sum_cons]

theorem toList_cleaned (source : String) : (cleaned source).toList = cleanedChars source.toList :=
  String.toList_ofList

theorem sum_marks_bodies (files : List SourceFile) :
    ((bodies files).map fun body => marks body.toList).sum =
      (files.map fun file => marks (cleanedChars file.content.toList)).sum := by
  unfold bodies
  induction files with
  | nil => rfl
  | cons file files ih =>
      rw [List.map_cons, List.map_cons, List.sum_cons, List.filter_cons]
      split
      next => rw [List.map_cons, List.sum_cons, ih, toList_cleaned]
      next hempty =>
        have hnil : cleanedChars file.content.toList = [] := by
          rw [← toList_cleaned]
          simpa using hempty
        rw [ih, hnil, marks, Nat.zero_add]

theorem marks_licenceLine (source : String) :
    marks (licenceLine source) = 1 + marks (licenceOf source).toList := by
  have hlead : "// SPDX-License-Identifier: ".toList =
      "// SPDX-License-Identifier:".toList ++ [' '] := by decide +kernel
  have hone : marks "// SPDX-License-Identifier:".toList = 1 := by decide +kernel
  have hline : licenceLine source =
      "// SPDX-License-Identifier:".toList ++ ' ' :: (licenceOf source).toList :=
    (congrArg (· ++ (licenceOf source).toList) hlead).trans (List.append_assoc _ _ _)
  have hblank : isBlank ' ' = true := by decide
  have hsplit := marks_append_cons (notMem_licenceMark_of_isBlank hblank)
    "// SPDX-License-Identifier:".toList (licenceOf source).toList
  exact (congrArg marks hline).trans (hsplit.trans (congrArg (· + _) hone))

/-- Every mark of a flattened source is that of its header, or stands in the name of the licence,
in the pragma or in a body. -/
theorem marks_flatten (scope : String) (sources : List (RawText × String)) (entry : SourceFile) :
    marks (flatten scope sources entry).toList =
      1 + marks (licenceOf entry.content).toList + marks (pragmaOf entry.content).toList +
        ((inlining scope sources entry).written.map fun file =>
          marks (cleanedChars file.content.toList)).sum := by
  have hnotice : (("" :: flattenedNotice ++ [""]).map fun line => marks line.toList).sum = 0 := by
    decide +kernel
  rw [toList_flatten, marks_append_cons (notMem_licenceMark_of_isBlank (by decide)),
    marks_licenceLine, notice, bodyText, ← List.flatMap_append, marks_append_lines,
    List.map_append, List.sum_append, hnotice, sum_marks_bodies]
  omega

end Counting

section OneHeader

/-- A text has one licence, on its first line, one pragma, which is that of a source, on the second,
and no import. -/
structure OneHeader (source : String) (text : List Char) : Prop where
  mark : marks text = 1
  firstLine : marks (text.takeWhile (· != '\n')) = 1
  pragma : ∃ rest : List Char, scan pragmaAt text =
    (licenceLine source ++ ['\n']).map .character ++
      .directive () (pragmaOf source).toList :: rest.map .character
  imports : meanings importAt text = []

/-- Nothing spoils the header of a source: the name of its licence, its pragma and what is written
of the files hold no mark of a licence; no pragma and no import begins in the first lines, except
the pragma itself, and none in what is written of the files. -/
structure Unspoiled (source : String) (files : List SourceFile) : Prop where
  name : marks (licenceOf source).toList = 0
  pragma : marks (pragmaOf source).toList = 0
  bodies : ∀ file ∈ files, marks (cleanedChars file.content.toList) = 0
  noPragmaAbove : Silent pragmaAt none (licenceLine source ++ ['\n'])
    ((pragmaOf source).toList ++ (notice ++ bodyText files))
  noPragmaBelow : Silent pragmaAt (some '\n') (bodyText files) []
  noImportAbove : Silent importAt none (licenceLine source ++ '\n' :: (pragmaOf source).toList)
    (notice ++ bodyText files)
  noImportBelow : Silent importAt (some '\n') (bodyText files) []

theorem lastOf_notice (before : Option Char) : lastOf before notice = some '\n' := by
  have hnotice : notice =
      (("" :: flattenedNotice).flatMap fun line => '\n' :: line.toList) ++ ['\n'] := by
    rw [notice, List.flatMap_append]
    rfl
  rw [hnotice, lastOf_append]
  rfl

theorem silent_pragmaAt_notice (before : Option Char) (tail : List Char) :
    Silent pragmaAt before notice tail :=
  silent_pragmaAt_of_clear (by decide +kernel) before tail

theorem silent_importAt_notice (before : Option Char) (tail : List Char) :
    Silent importAt before notice tail :=
  silent_importAt_of_clear (by decide +kernel) before tail

/-- The first line of a flattened source holds the name of the licence and no more. -/
theorem takeWhile_licenceLine (source : String) (rest : List Char) :
    (licenceLine source ++ '\n' :: rest).takeWhile (· != '\n') = licenceLine source := by
  have hline : ∀ c ∈ licenceLine source, (c != '\n') = true := by
    have hlead : ∀ c ∈ "// SPDX-License-Identifier: ".toList, (c != '\n') = true := by
      decide +kernel
    intro c hc
    rcases List.mem_append.mp hc with hc | hc
    · exact hlead c hc
    · have hend := not_isLineEnd_of_licenceOf source c hc
      have hne : c ≠ '\n' := by
        rintro rfl
        cases hend
      simpa using hne
  rw [List.takeWhile_append_of_pos hline]
  simp

/-- The pragma of a flattened source is its only one where none begins above it or below. -/
theorem scan_pragmaAt_iff (source : String) (below : List Char) :
    (∃ rest : List Char, scan pragmaAt
        (licenceLine source ++ '\n' :: ((pragmaOf source).toList ++ (notice ++ below))) =
      (licenceLine source ++ ['\n']).map .character ++
        .directive () (pragmaOf source).toList :: rest.map .character) ↔
      Silent pragmaAt none (licenceLine source ++ ['\n'])
        ((pragmaOf source).toList ++ (notice ++ below)) ∧
      Silent pragmaAt (some '\n') below [] := by
  have hpragma := (isPragma_pragmaOf source).pragmaAt_append
    (lastOf none (licenceLine source ++ ['\n'])) (notice ++ below)
  rw [scan, List.append_cons]
  simp only [scanFrom_eq_characters_append_iff,
    scanFrom_of_recognised (isPragma_pragmaOf source).ne_nil hpragma, List.cons.injEq,
    true_and, exists_and_left, exists_scanFrom_eq_characters_iff, silent_append_iff,
    silent_pragmaAt_notice, lastOf_notice]

/-- A flattened source has no import where none begins in its first lines or below. -/
theorem meanings_importAt_iff (source : String) (below : List Char) :
    meanings importAt
        (licenceLine source ++ '\n' :: ((pragmaOf source).toList ++ (notice ++ below))) = [] ↔
      Silent importAt none (licenceLine source ++ '\n' :: (pragmaOf source).toList)
        (notice ++ below) ∧
      Silent importAt (some '\n') below [] := by
  rw [meanings_eq_nil_iff, ← List.cons_append, ← List.append_assoc, silent_append_iff,
    List.append_nil, @silent_append_iff _ _ _ notice, lastOf_notice]
  simp only [silent_importAt_notice, true_and]

/-- A flattened source has one header just where nothing spoils it. -/
theorem oneHeader_iff (scope : String) (sources : List (RawText × String)) (entry : SourceFile) :
    OneHeader entry.content (flatten scope sources entry).toList ↔
      Unspoiled entry.content (inlining scope sources entry).written := by
  have hmarks := marks_flatten scope sources entry
  have hsum : ((inlining scope sources entry).written.map fun file =>
      marks (cleanedChars file.content.toList)).sum = 0 ↔
      ∀ file ∈ (inlining scope sources entry).written,
        marks (cleanedChars file.content.toList) = 0 := by
    simp [List.sum_eq_zero_iff_forall_eq_nat]
  have htext := toList_flatten scope sources entry
  constructor
  · rintro ⟨hone, -, hpragmas, hnone⟩
    rw [htext, scan_pragmaAt_iff] at hpragmas
    rw [htext, meanings_importAt_iff] at hnone
    rw [hmarks] at hone
    exact ⟨by omega, by omega, hsum.mp (by omega), hpragmas.1, hpragmas.2, hnone.1, hnone.2⟩
  · intro h
    have hbodies := hsum.mpr h.bodies
    have hname := h.name
    have hpragmaMarks := h.pragma
    refine ⟨by omega, ?_, ?_, ?_⟩
    · rw [htext, takeWhile_licenceLine, marks_licenceLine]
      omega
    · rw [htext, scan_pragmaAt_iff]
      exact ⟨h.noPragmaAbove, h.noPragmaBelow⟩
    · rw [htext, meanings_importAt_iff]
      exact ⟨h.noImportAbove, h.noImportBelow⟩

end OneHeader

section Parted

variable {α : Type} {recognise : Recogniser α} {parts : List Part}

theorem mem_trimmed {part : Part} (hmem : part ∈ parts) (hgap : part.isGap = false) :
    part ∈ trimmed parts := by
  have hdrop : ∀ {ps : List Part}, part ∈ ps → part ∈ ps.dropWhile Part.isGap := by
    intro ps hps
    rw [← List.takeWhile_append_dropWhile (p := Part.isGap) (l := ps)] at hps
    rcases List.mem_append.mp hps with htake | hdrop
    · have hblank := List.mem_takeWhile_imp htake
      rw [hgap] at hblank
      cases hblank
    · exact hdrop
  rw [trimmed, List.rdropWhile, List.mem_reverse]
  exact hdrop (List.mem_reverse.mpr (hdrop hmem))

/-- Of a source in parts the marks in its code stay. -/
theorem marks_cleaned_eq_zero_iff (h : Parted parts) :
    marks (cleanedChars (textOf parts)) = 0 ↔ ∀ raw, .code raw ∈ parts → marks raw = 0 := by
  have hfilter := h.filter Part.stays fun _ => rfl
  rw [cleanedChars_textOf h, marks_textOf (hfilter.of_within (trimmed_isInfix _)),
    List.sum_eq_zero_iff_forall_eq_nat]
  simp only [List.mem_map, forall_exists_index, and_imp, forall_apply_eq_imp_iff₂]
  constructor
  · intro hzero raw hraw
    exact hzero (.code raw) (mem_trimmed (List.mem_filter.mpr ⟨hraw, rfl⟩) rfl)
  · intro hcode part hpart
    obtain ⟨hmem, hstays⟩ := List.mem_filter.mp ((trimmed_isInfix _).subset hpart)
    cases part with
    | blank c =>
        cases h.wellFormed _ hmem with
        | blank hblank =>
            have halone := marks_append_cons (notMem_licenceMark_of_isBlank hblank) [] []
            simpa [Part.text, marks] using halone
    | code raw => exact hcode raw hmem
    | _ => cases hstays

/-- In what stays of a source in parts no directive begins. -/
theorem Parting.mute_cleaned {taken : Part → Option α} (hparting : Parting recognise taken)
    (htaken : ∀ part, part.stays = true → taken part = none) (h : Parted parts) :
    Mute recognise (cleanedChars (textOf parts)) := by
  have hfilter := h.filter Part.stays fun _ => rfl
  rw [cleanedChars_textOf h]
  refine hparting.mute_textOf (hfilter.of_within (trimmed_isInfix _)) fun part hpart => ?_
  exact htaken part (List.mem_filter.mp ((trimmed_isInfix _).subset hpart)).2

theorem silent_lines (hunblank : Unblank recognise) {lines : List String}
    (hmute : ∀ line ∈ lines, Mute recognise line.toList) (before : Option Char) :
    Silent recognise before (lines.flatMap fun line => '\n' :: line.toList) [] := by
  have hbreak : isBlank '\n' = true := by decide
  induction lines generalizing before with
  | nil => exact .nil _ _
  | cons line lines ih =>
      rw [List.flatMap_cons, List.cons_append]
      refine .cons (hunblank _ _ _ hbreak) (silent_append_iff.mpr ⟨?_, ?_⟩)
      · apply hmute line List.mem_cons_self
        cases lines with
        | nil => simp [BlankNext]
        | cons other rest => simpa [BlankNext] using hbreak
      · exact ih (fun other hother => hmute other (List.mem_cons_of_mem _ hother)) _

theorem silent_line (hunblank : Unblank recognise) {lead name more below : List Char}
    (hlead : ∀ before tail, Silent recognise before lead tail) (hname : Mute recognise name)
    (hmore : Silent recognise (some '\n') more below) :
    Silent recognise none ((lead ++ name) ++ '\n' :: more) below := by
  have hbreak : isBlank '\n' = true := by decide
  rw [silent_append_iff, silent_append_iff, silent_cons_iff]
  exact ⟨⟨hlead _ _, hname _ _ (by simp [BlankNext, hbreak])⟩, hunblank _ _ _ hbreak, hmore⟩

/-- The licence of a source in parts is named by one of them, or is the default. -/
theorem licenceOf_of_parted {source : String} (h : Parted parts)
    (htext : textOf parts = source.toList) :
    marks (licenceOf source).toList = 0 ∧ Mute pragmaAt (licenceOf source).toList ∧
      Mute importAt (licenceOf source).toList := by
  rw [licenceOf, ← htext, parting_licenceAt.meanings_textOf h]
  split
  next name hname =>
    obtain ⟨part, hpart, hname⟩ := List.mem_filterMap.mp (List.mem_of_head? hname)
    cases part with
    | licence found raw =>
        cases hname
        cases h.wellFormed _ hpart with
        | licence _ _ _ _ hmark hpragma himport =>
            rw [String.toList_ofList]
            exact ⟨hmark, hpragma, himport⟩
    | _ => cases hname
  next =>
    exact ⟨by decide +kernel,
      mute_pragmaAt_of_clear (by decide +kernel), mute_importAt_of_clear (by decide +kernel)⟩

theorem pragmaOf_of_parted {source : String} (h : Parted parts)
    (htext : textOf parts = source.toList) :
    marks (pragmaOf source).toList = 0 ∧ Mute importAt (pragmaOf source).toList := by
  obtain ⟨raw, hmem, hraw⟩ | hdefault := h.pragmaOf_cases htext
  · rw [hraw, String.toList_ofList]
    cases h.wellFormed _ hmem with
    | pragma _ _ himport hmark => exact ⟨hmark, himport⟩
  · rw [hdefault]
    exact ⟨by decide +kernel, mute_importAt_of_clear (by decide +kernel)⟩

/-- Only a licence in the code can spoil the header of sources in parts. -/
theorem unspoiled_iff_of_parted {source : String} {files : List SourceFile}
    {partsOf : SourceFile → List Part} {entry : SourceFile} (hentry : entry ∈ files)
    (hsource : entry.content = source)
    (hparts : ∀ file ∈ files, Parted (partsOf file) ∧ textOf (partsOf file) = file.content.toList) :
    Unspoiled source files ↔
      ∀ file ∈ files, ∀ raw, .code raw ∈ partsOf file → marks raw = 0 := by
  have hmarks : (∀ file ∈ files, marks (cleanedChars file.content.toList) = 0) ↔
      ∀ file ∈ files, ∀ raw, .code raw ∈ partsOf file → marks raw = 0 := by
    refine forall₂_congr fun file hfile => ?_
    rw [← (hparts file hfile).2, marks_cleaned_eq_zero_iff (hparts file hfile).1]
  refine ⟨fun h => hmarks.mp h.bodies, fun hcode => ?_⟩
  obtain ⟨hentryParts, hentryText⟩ := hparts entry hentry
  rw [hsource] at hentryText
  obtain ⟨hname, hnamePragma, hnameImport⟩ := licenceOf_of_parted hentryParts hentryText
  obtain ⟨hpragma, hpragmaImport⟩ := pragmaOf_of_parted hentryParts hentryText
  have hbreak : isBlank '\n' = true := by decide
  have hbodies : ∀ body ∈ bodies files,
      Mute pragmaAt body.toList ∧ Mute importAt body.toList := by
    intro body hbody
    obtain ⟨file, hfile, rfl⟩ := List.mem_map.mp (List.mem_filter.mp hbody).1
    rw [toList_cleaned, ← (hparts file hfile).2]
    exact ⟨parting_pragmaAt.mute_cleaned (fun part h => by cases part <;> first | rfl | cases h)
        (hparts file hfile).1,
      parting_importAt.mute_cleaned (fun part h => by cases part <;> first | rfl | cases h)
        (hparts file hfile).1⟩
  have hlead : clear "pragma".toList "// SPDX-License-Identifier: ".toList = true ∧
      clear "import".toList "// SPDX-License-Identifier: ".toList = true := by decide +kernel
  -- The pragma reaches no further than the line break of the notice behind it.
  have hbelow : BlankNext (notice ++ bodyText files) := by simp [BlankNext, notice, hbreak]
  exact ⟨hname, hpragma, hmarks.mpr hcode,
    silent_line unblank_pragmaAt (silent_pragmaAt_of_clear hlead.1) hnamePragma (.nil _ _),
    silent_lines unblank_pragmaAt (fun body hbody => (hbodies body hbody).1) _,
    silent_line unblank_importAt (silent_importAt_of_clear hlead.2) hnameImport
      (hpragmaImport _ _ hbelow),
    silent_lines unblank_importAt (fun body hbody => (hbodies body hbody).2) _⟩

end Parted

/-- A flattened source has one header just where nothing spoils it. For sources in parts, that is
where their code holds no mark of a licence: a licence in a form that is not recognised is code, and
it is written as it stands. -/
theorem flatten_oneHeader (scope : String) (sources : List (RawText × String))
    (entry : SourceFile) :
    (OneHeader entry.content (flatten scope sources entry).toList ↔
      Unspoiled entry.content (inlining scope sources entry).written) ∧
    ∀ partsOf : SourceFile → List Part,
      (∀ file ∈ (inlining scope sources entry).written,
        Parted (partsOf file) ∧ textOf (partsOf file) = file.content.toList) →
      (OneHeader entry.content (flatten scope sources entry).toList ↔
        ∀ file ∈ (inlining scope sources entry).written, ∀ raw, .code raw ∈ partsOf file →
          marks raw = 0) := by
  have hexact := oneHeader_iff scope sources entry
  exact ⟨hexact, fun partsOf hparts => hexact.trans
    (unspoiled_iff_of_parted (entry_mem_written scope sources entry) rfl hparts)⟩

/-- Two sources with directives of each kind, cut into their parts. -/
theorem flatten_oneHeader_of_parts :
    let main : List Part := [.licenceLine [' '] " MIT".toList, .blank '\n',
      .pragma "pragma solidity ^0.8.20;".toList, .blank '\n', .plainImport "./L.sol".toList,
      .blank '\n', .code "contract Main \x7b\x7d".toList]
    let needed : List Part := [.licenceBlock [' '] " GPL-3.0 ".toList, .blank '\n',
      .code "contract L \x7b\x7d".toList]
    let entry : SourceFile := ⟨"Main.sol", String.ofList (textOf main)⟩
    let sources : List (RawText × String) := [("L.sol", String.ofList (textOf needed))]
    (∀ file ∈ (inlining "@openzeppelin/contracts/" sources entry).written,
      Parted (if file.path = "L.sol" then needed else main) ∧
        textOf (if file.path = "L.sol" then needed else main) = file.content.toList) ∧
    OneHeader entry.content (flatten "@openzeppelin/contracts/" sources entry).toList := by
  intro main needed entry sources
  have hcode : ∀ raw : List Char, raw = "contract Main \x7b\x7d".toList ∨
      raw = "contract L \x7b\x7d".toList → Part.WellFormed (.code raw) := by
    rintro raw (rfl | rfl) <;>
      exact wellFormed_code (by decide +kernel) (by decide +kernel) (by decide +kernel)
        (by decide +kernel) (by decide +kernel)
  have hmain : Parted main := by
    have hlicence : Part.WellFormed (.licenceLine [' '] " MIT".toList) :=
      wellFormed_licenceLine (by decide) (by decide +kernel) (by decide +kernel)
        (by decide +kernel) (by decide +kernel) (by decide +kernel) (by decide +kernel)
        (by decide +kernel)
    have hpragma : Part.WellFormed (.pragma "pragma solidity ^0.8.20;".toList) :=
      wellFormed_pragma ⟨[' '], ' ', "^0.8.20".toList, by decide +kernel⟩ (by decide +kernel)
        (by decide +kernel) (by decide +kernel)
    have himport : Part.WellFormed (.plainImport "./L.sol".toList) :=
      wellFormed_plainImport (by decide +kernel) (by decide +kernel) (by decide +kernel)
        (by decide +kernel)
    refine @Parted.of_lines [_, _, _, _] ?_
    simp only [List.forall_mem_cons, hlicence, hpragma, himport, hcode _ (Or.inl rfl), true_and]
    exact List.forall_mem_nil _
  have hneeded : Parted needed := by
    have hlicence : Part.WellFormed (.licenceBlock [' '] " GPL-3.0 ".toList) :=
      wellFormed_licenceBlock (by decide) (by decide +kernel) (by decide +kernel)
        (by decide +kernel) (by decide +kernel) (by decide +kernel) (by decide +kernel)
        (by decide +kernel)
    refine @Parted.of_lines [_, _] ?_
    simp only [List.forall_mem_cons, hlicence, hcode _ (Or.inr rfl), true_and]
    exact List.forall_mem_nil _
  have hwritten : (inlining "@openzeppelin/contracts/" sources entry).written =
      [⟨"L.sol", String.ofList (textOf needed)⟩, entry] := by
    decide +kernel
  have hparts : ∀ file ∈ (inlining "@openzeppelin/contracts/" sources entry).written,
      Parted (if file.path = "L.sol" then needed else main) ∧
        textOf (if file.path = "L.sol" then needed else main) = file.content.toList := by
    rw [hwritten]
    simp [hmain, hneeded, entry]
  refine ⟨hparts, ((flatten_oneHeader _ sources entry).2 _ hparts).mpr ?_⟩
  rw [hwritten]
  -- The code of the two sources, which holds no mark.
  have hmain : ∀ raw, .code raw ∈ main → raw = "contract Main \x7b\x7d".toList := by
    simp [main, Part.licenceLine, Part.plainImport]
  have hneeded : ∀ raw, .code raw ∈ needed → raw = "contract L \x7b\x7d".toList := by
    simp [needed, Part.licenceBlock]
  intro file hfile raw hraw
  rcases List.mem_cons.mp hfile with rfl | hfile
  · rw [hneeded raw hraw]
    decide +kernel
  · cases List.mem_singleton.mp hfile
    rw [hmain raw hraw]
    decide +kernel

/-- A flattened source need not have one header: a licence in a block comment of several lines
stays. -/
theorem not_forall_oneHeader :
    ¬∀ (scope : String) (sources : List (RawText × String)) (entry : SourceFile),
      OneHeader entry.content (flatten scope sources entry).toList := by
  intro h
  have hmark := (h "@openzeppelin/contracts/"
    [("L.sol", "/*\n * SPDX-License-Identifier: GPL-3.0\n */\ncontract L \x7b\x7d")]
    ⟨"Main.sol", "import \"./L.sol\";\ncontract Main \x7b\x7d"⟩).mark
  rw [marks_flatten] at hmark
  revert hmark
  decide +kernel

end ContractBench.Source
