import ContractBench.Proofs.Source.Declarations
import ContractBench.Proofs.Source.Header

/-! # Names in a flattened source

Flattening removes imports, and with them the names that they bind. The names that a flattened
source declares are those that the files themselves declare, so an imported name stays declared if
a file declares it under that name, and an alias does not.
-/

namespace ContractBench.Source

open Text (isBlank)
open Reading (top)

section Framing

/-- Directives stand at the top level of a source, where nothing is open, and with the blank behind
them they leave a reader of declarations as they found it. -/
def Framed : Reading → List Part → Prop
  | _, [] => True
  | r, part :: parts =>
      (part.stays = false → r = top ∧ ∀ c, isBlank c = true → part.Apart (.blank c) →
        top.read (part.text ++ [c]) = ([], top)) ∧
      Framed (r.read part.text).2 parts

variable {part : Part} {parts : List Part}

/-- What follows a part that is no blank begins with one, also where directives are left out. -/
theorem Parted.exists_blank (h : Parted (part :: parts)) (hgap : part.isGap = false) :
    ∃ c, isBlank c = true ∧ part.Apart (.blank c) ∧
      ∃ rest, textOf (parts.filter Part.stays) ++ ['\n'] = c :: rest := by
  cases parts with
  | nil => exact ⟨'\n', by decide, part.apart_lineBreak, [], rfl⟩
  | cons next rest =>
      have hapart := (List.isChain_cons_cons.mp h.apart).1
      obtain ⟨c, rfl⟩ := hapart.eq_blank hgap
      cases h.wellFormed (.blank c) (by simp) with
      | blank hblank => exact ⟨c, hblank, hapart, _, rfl⟩

/-- Leaving out directives at the top level makes no difference to what a source declares. -/
theorem read_filter_stays (h : Parted parts) {r : Reading} (hframed : Framed r parts) :
    r.read (textOf (parts.filter Part.stays) ++ ['\n']) = r.read (textOf parts ++ ['\n']) := by
  induction parts generalizing r with
  | nil => rfl
  | cons part parts ih =>
      obtain ⟨hdirective, hrest⟩ := hframed
      have hparts := ih h.tail hrest
      rw [textOf_cons, List.append_assoc, Reading.read_append r part.text, List.filter_cons]
      cases hstays : part.stays with
      | true =>
          rw [if_pos rfl, textOf_cons, List.append_assoc, Reading.read_append r part.text, hparts]
      | false =>
          obtain ⟨rfl, hread⟩ := hdirective hstays
          have hgap : part.isGap = false := by cases part <;> first | rfl | cases hstays
          obtain ⟨c, hblank, hapart, rest, hfiltered⟩ := h.exists_blank hgap
          have hclosed := hread c hblank hapart
          rw [Reading.read_append] at hclosed
          obtain ⟨hnames, htop⟩ := Prod.mk.inj hclosed
          obtain ⟨hnone, hblankNone⟩ := List.append_eq_nil_iff.mp hnames
          -- Behind the directive the blank leads back to the top level, where it changes nothing.
          have hback : ((top.read part.text).2.read [c]) = top.read [c] := by
            rw [Reading.top_read_blank hblank]
            exact Prod.ext hblankNone htop
          rw [if_neg Bool.false_ne_true, hnone, List.nil_append, ← hparts, hfiltered,
            ← List.singleton_append, Reading.read_append, Reading.read_append _ [c], hback]

/-- Cleaning a source makes no difference to what it declares. -/
theorem read_cleanedChars (h : Parted parts) (hframed : Framed top parts) :
    top.read (cleanedChars (textOf parts) ++ ['\n']) = top.read (textOf parts ++ ['\n']) := by
  rw [cleanedChars, Reading.read_trim, without_directives h, read_filter_stays h hframed]

/-- A pragma of a source declares nothing. -/
theorem read_pragma_of_framed {r : Reading} (hframed : Framed r parts) {raw : List Char}
    (hmem : .pragma raw ∈ parts) : top.read (raw ++ ['\n']) = ([], top) := by
  induction parts generalizing r with
  | nil => cases hmem
  | cons part parts ih =>
      rcases List.mem_cons.mp hmem with rfl | hmem
      · exact (hframed.1 rfl).2 '\n' (by decide) trivial
      · exact ih hframed.2 hmem

end Framing

section Lines

/-- Complete lines declare what they declare one by one. -/
theorem read_lines {lines : List String} (h : ∀ line ∈ lines, Complete line.toList) :
    top.read (lines.flatMap fun line => line.toList ++ ['\n']) =
      (lines.flatMap fun line => declared line.toList, top) := by
  induction lines with
  | nil => rfl
  | cons line lines ih =>
      have hline : (top.read (line.toList ++ ['\n'])).2 = top := h line List.mem_cons_self
      rw [List.flatMap_cons, Reading.read_append, hline,
        ih fun other hother => h other (List.mem_cons_of_mem _ hother)]
      rfl

theorem toList_joined_append (line : String) (lines : List String) :
    (Text.joined "\n" (line :: lines)).toList ++ ['\n'] =
      (line :: lines).flatMap fun other => other.toList ++ ['\n'] := by
  rw [toList_joined_lines]
  induction lines generalizing line with
  | nil => simp
  | cons other lines ih =>
      rw [List.flatMap_cons, List.flatMap_cons, ← ih other]
      simp only [List.cons_append, List.append_assoc, List.nil_append]

theorem runs_readChar_line {cs : List Char} (h : ∀ c ∈ cs, isLineEnd c = false) :
    runs readChar .line cs = ([], .line) := by
  induction cs with
  | nil => rfl
  | cons c cs ih =>
      have hc := h c List.mem_cons_self
      have hrest := ih fun d hd => h d (List.mem_cons_of_mem _ hd)
      simp [runs_cons, readChar, hc, hrest]

/-- A line comment declares nothing. -/
theorem read_comment {cs : List Char} (h : ∀ c ∈ cs, isLineEnd c = false) :
    top.read ('/' :: '/' :: cs ++ ['\n']) = ([], top) := by
  have hopen : runs readChar (.outside []) ['/', '/'] = ([], .line) := by decide
  have hclose : runs readChar .line ['\n'] = ([], .outside []) := by decide
  -- The two slashes open a comment, and only the end of the line closes it.
  have hall : runs readChar (.outside []) (['/', '/'] ++ (cs ++ ['\n'])) = ([], .outside []) := by
    rw [runs_append, hopen, runs_append, runs_readChar_line h, hclose]
    rfl
  rw [Reading.read_eq]
  change (_, _) = _
  simp only [List.cons_append, List.nil_append] at hall
  simp [top, hall]

end Lines

section Flattening

variable {files : List SourceFile} {partsOf : SourceFile → List Part}

/-- The source of a file is in parts, its directives stand at its top level, and it is complete. -/
structure Tidy (file : SourceFile) (parts : List Part) : Prop where
  parted : Parted parts
  text : textOf parts = file.content.toList
  framed : Framed top parts
  complete : Complete file.content.toList

theorem Tidy.read_cleaned {file : SourceFile} {parts : List Part} (h : Tidy file parts) :
    top.read (cleanedChars file.content.toList ++ ['\n']) =
      top.read (file.content.toList ++ ['\n']) := by
  rw [← h.text]
  exact read_cleanedChars h.parted h.framed

/-- What is written of tidy files declares what the files declare. -/
theorem read_bodies (h : ∀ file ∈ files, Tidy file (partsOf file)) :
    top.read ((bodies files).flatMap fun body => body.toList ++ ['\n']) =
      (files.flatMap fun file => declared file.content.toList, top) := by
  have hcomplete : ∀ body ∈ bodies files, Complete body.toList := by
    intro body hbody
    obtain ⟨file, hfile, rfl⟩ := List.mem_map.mp (List.mem_filter.mp hbody).1
    rw [toList_cleaned, Complete, (h file hfile).read_cleaned]
    exact (h file hfile).complete
  rw [read_lines hcomplete]
  congr 1
  clear hcomplete
  -- A file that nothing is written of declares nothing, so leaving it out is no loss.
  induction files with
  | nil => rfl
  | cons file files ih =>
      have hdeclared : declared (cleaned file.content).toList = declared file.content.toList := by
        rw [toList_cleaned, declared, (h file List.mem_cons_self).read_cleaned]
        rfl
      have hrest := ih fun other hother => h other (List.mem_cons_of_mem _ hother)
      rw [bodies] at hrest ⊢
      rw [List.map_cons, List.filter_cons, List.flatMap_cons, ← hrest]
      split
      next => rw [List.flatMap_cons, hdeclared]
      next hempty =>
        have hnone : cleaned file.content = "" := by simpa using hempty
        rw [hnone] at hdeclared
        have hnothing : declared "".toList = [] := by decide
        rw [← hdeclared, hnothing, List.nil_append]

/-- The pragma of a source declares nothing. -/
theorem read_pragmaOf {source : String} {parts : List Part} (hparts : Parted parts)
    (htext : textOf parts = source.toList) (hframed : Framed top parts) :
    top.read ((pragmaOf source).toList ++ ['\n']) = ([], top) := by
  obtain ⟨raw, hmem, hraw⟩ | hdefault := hparts.pragmaOf_cases htext
  · rw [hraw, String.toList_ofList]
    exact read_pragma_of_framed hframed hmem
  · rw [hdefault]
    decide +kernel

theorem read_licenceLine (source : String) :
    top.read (licenceLine source ++ ['\n']) = ([], top) := by
  have hlead : "// SPDX-License-Identifier: ".toList =
      '/' :: '/' :: " SPDX-License-Identifier: ".toList := by decide +kernel
  have hend : ∀ c ∈ " SPDX-License-Identifier: ".toList ++ (licenceOf source).toList,
      isLineEnd c = false := by
    intro c hc
    rcases List.mem_append.mp hc with hc | hc
    · exact (by decide +kernel : ∀ c ∈ " SPDX-License-Identifier: ".toList,
        isLineEnd c = false) c hc
    · exact not_isLineEnd_of_licenceOf source c hc
  have hcomment := read_comment hend
  rw [← List.cons_append, ← List.cons_append, ← hlead] at hcomment
  exact hcomment

/-- The lines of a flattened source above what is written of the files. -/
def headerLines (source : String) : List String :=
  header source ++ flattenedNotice ++ [""]

/-- The header of a source declares nothing. -/
theorem read_header {source : String} {parts : List Part} (hparts : Parted parts)
    (htext : textOf parts = source.toList) (hframed : Framed top parts) :
    top.read ((headerLines source).flatMap fun line => line.toList ++ ['\n']) = ([], top) := by
  have hpragma := read_pragmaOf hparts htext hframed
  have hlicence := read_licenceLine source
  have hrest : top.read ((("" :: flattenedNotice ++ [""]).flatMap
      fun line => line.toList ++ ['\n'])) = ([], top) := by decide +kernel
  have hlines : (headerLines source).flatMap (fun line => line.toList ++ ['\n']) =
      (licenceLine source ++ ['\n']) ++ (((pragmaOf source).toList ++ ['\n']) ++
        ("" :: flattenedNotice ++ [""]).flatMap fun line => line.toList ++ ['\n']) := by
    have hfirst : ("// SPDX-License-Identifier: " ++ licenceOf source).toList =
        licenceLine source := String.toList_append
    rw [← hfirst]
    rfl
  rw [hlines, Reading.read_append, hlicence, Reading.read_append, hpragma, hrest]
  rfl

/-- A flattened source of tidy files declares what the files declare. -/
theorem declared_flatten (scope : String) (sources : List (RawText × String)) (entry : SourceFile)
    (h : ∀ file ∈ (inlining scope sources entry).written, Tidy file (partsOf file)) :
    declared (flatten scope sources entry).toList =
      (inlining scope sources entry).written.flatMap fun file => declared file.content.toList := by
  have hentry := h entry (entry_mem_written scope sources entry)
  have hheader := read_header hentry.parted hentry.text hentry.framed
  have hbodies := read_bodies h
  have htext : (flatten scope sources entry).toList ++ ['\n'] =
      (headerLines entry.content).flatMap (fun line => line.toList ++ ['\n']) ++
        (bodies (inlining scope sources entry).written).flatMap
          fun body => body.toList ++ ['\n'] := by
    rw [← List.flatMap_append]
    exact toList_joined_append _ _
  rw [declared, htext, Reading.read_append, hheader, hbodies]
  rfl

/-- An import of a file leads to another one and binds a name. -/
def Binds (scope : String) (sources : List (RawText × String)) (file target : SourceFile)
    (binding : Binding) : Prop :=
  ∃ (specifier : String) (raw : List Char),
    .directive specifier raw ∈ scan importAt file.content.toList ∧
    lookupPath scope sources file.path specifier = target.path ∧
    binding ∈ bindingsOf (tokens raw)

/-- The symbol that a name is bound for, if it is for one, is declared in a file. -/
def Binding.Meant (binding : Binding) (target : SourceFile) : Prop :=
  ∀ symbol ∈ binding.symbol, symbol ∈ declared target.content.toList

/-- A flattened source of tidy files declares what the files declare. So a name that an import binds
is declared if it is that of the symbol itself; an alias is only where some file happens to declare
the same name. -/
theorem flatten_declares (scope : String) (sources : List (RawText × String)) (entry : SourceFile)
    (partsOf : SourceFile → List Part)
    (h : ∀ file ∈ (inlining scope sources entry).written, Tidy file (partsOf file)) :
    declared (flatten scope sources entry).toList =
      (inlining scope sources entry).written.flatMap (fun file => declared file.content.toList) ∧
    ∀ file ∈ (inlining scope sources entry).written,
      ∀ target ∈ (inlining scope sources entry).written, ∀ binding,
        Binds scope sources file target binding → binding.Meant target →
        (binding.name ∈ declared (flatten scope sources entry).toList ↔
          binding.symbol = some binding.name ∨
            ∃ other ∈ (inlining scope sources entry).written,
              binding.name ∈ declared other.content.toList) := by
  have hall := declared_flatten scope sources entry h
  refine ⟨hall, fun file _ target htarget binding _ hmeant => ?_⟩
  rw [hall, List.mem_flatMap]
  constructor
  · exact Or.inr
  · rintro (hsymbol | hother)
    · exact ⟨target, htarget, hmeant _ hsymbol⟩
    · exact hother

/-- A file that imports symbols and has code behind a line break is tidy. -/
theorem tidy_of_symbolImport {file : SourceFile} {symbols path code : List Char}
    (himport : Part.WellFormed (.symbolImport symbols path)) (hcode : Part.WellFormed (.code code))
    (hclosed : top.read (Part.symbolImport symbols path).text = ([], top))
    (htext : textOf [.symbolImport symbols path, .blank '\n', .code code] = file.content.toList)
    (hcomplete : Complete file.content.toList) :
    Tidy file [.symbolImport symbols path, .blank '\n', .code code] := by
  have hparted : Parted [.symbolImport symbols path, .blank '\n', .code code] :=
    @Parted.of_lines [_, _] (by simp [himport, hcode])
  refine ⟨hparted, htext, ⟨fun _ => ⟨rfl, fun c hblank _ => ?_⟩, ?_⟩, hcomplete⟩
  · rw [Reading.read_append, hclosed, Reading.top_read_blank hblank]
    rfl
  · exact ⟨fun hstays => (by cases hstays), fun hstays => (by cases hstays), trivial⟩

/-- A file of code is tidy. -/
theorem tidy_of_code {file : SourceFile} {code : List Char} (hcode : Part.WellFormed (.code code))
    (htext : code = file.content.toList) (hcomplete : Complete file.content.toList) :
    Tidy file [.code code] := by
  refine ⟨⟨?_, by simp⟩, by simpa [Part.text] using htext,
    ⟨fun hstays => (by cases hstays), trivial⟩, hcomplete⟩
  simpa using hcode

/-- A contract and the one that it imports by its name. -/
theorem flatten_declares_symbol :
    let main : List Part := [.symbolImport "Base".toList "./Base.sol".toList, .blank '\n',
      .code "contract Main is Base \x7b\x7d".toList]
    let needed : List Part := [.code "contract Base \x7b\x7d".toList]
    let entry : SourceFile := ⟨"Main.sol", String.ofList (textOf main)⟩
    let base : SourceFile := ⟨"Base.sol", String.ofList (textOf needed)⟩
    let sources : List (RawText × String) := [(base.path, base.content)]
    let binding : Binding := ⟨"Base".toList, some "Base".toList⟩
    (∀ file ∈ (inlining "@openzeppelin/contracts/" sources entry).written,
      Tidy file (if file.path = "Base.sol" then needed else main)) ∧
    Binds "@openzeppelin/contracts/" sources entry base binding ∧ binding.Meant base ∧
    binding.name ∈ declared (flatten "@openzeppelin/contracts/" sources entry).toList := by
  intro main needed entry base sources binding
  have hmain : Tidy entry main :=
    tidy_of_symbolImport
      (wellFormed_symbolImport (by decide +kernel) (by decide +kernel) (by decide +kernel)
        (by decide +kernel) (by decide +kernel))
      (wellFormed_code (by decide +kernel) (by decide +kernel) (by decide +kernel)
        (by decide +kernel) (by decide +kernel))
      (by decide +kernel) String.toList_ofList.symm (by decide +kernel)
  have hneeded : Tidy base needed :=
    tidy_of_code
      (wellFormed_code (by decide +kernel) (by decide +kernel) (by decide +kernel)
        (by decide +kernel) (by decide +kernel))
      (by simp [base, needed, Part.text]) (by decide +kernel)
  have hwritten : (inlining "@openzeppelin/contracts/" sources entry).written = [base, entry] := by
    decide +kernel
  have htidy : ∀ file ∈ (inlining "@openzeppelin/contracts/" sources entry).written,
      Tidy file (if file.path = "Base.sol" then needed else main) := by
    rw [hwritten]
    simp [hmain, hneeded, entry, base]
  have hbinds : Binds "@openzeppelin/contracts/" sources entry base binding :=
    ⟨"./Base.sol", "import \x7bBase\x7d from \"./Base.sol\";".toList, by decide +kernel,
      by decide +kernel, by decide +kernel⟩
  have hmeant : binding.Meant base := by
    intro symbol hsymbol
    cases hsymbol
    decide +kernel
  have hdeclares := flatten_declares "@openzeppelin/contracts/" sources entry _ htidy
  rw [hwritten] at hdeclares
  exact ⟨htidy, hbinds, hmeant,
    (hdeclares.2 entry (by simp) base (by simp) binding hbinds hmeant).mpr (Or.inl rfl)⟩

/-- Not every name that an import binds stays declared: an alias is lost with its import. -/
theorem not_forall_bound_declared :
    ¬∀ (scope : String) (sources : List (RawText × String)) (entry file target : SourceFile)
      (binding : Binding), file ∈ (inlining scope sources entry).written →
      target ∈ (inlining scope sources entry).written →
      Binds scope sources file target binding → binding.Meant target →
      binding.name ∈ declared (flatten scope sources entry).toList := by
  intro h
  let entry : SourceFile :=
    ⟨"Main.sol", "import \x7bBase as B\x7d from \"./Base.sol\";\ncontract Main is B \x7b\x7d"⟩
  let base : SourceFile := ⟨"Base.sol", "contract Base \x7b\x7d"⟩
  have hlost := h "@openzeppelin/contracts/" [(base.path, base.content)] entry entry base
    ⟨['B'], some "Base".toList⟩ (by decide +kernel) (by decide +kernel)
    ⟨"./Base.sol", "import \x7bBase as B\x7d from \"./Base.sol\";".toList, by decide +kernel,
      by decide +kernel, by decide +kernel⟩
    (by intro symbol hsymbol; cases hsymbol; decide +kernel)
  revert hlost
  decide +kernel

end Flattening

end ContractBench.Source
