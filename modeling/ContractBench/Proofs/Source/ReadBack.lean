import ContractBench.Proofs.Source.ImportForms

/-! # Sources read back

What the scans say of a source that is written in the grammar of directives: its imports in order,
its first licence, its first pragma, and its prose. Two things are left out, as a scan knows nothing
of comments and of names beyond words: the name of a licence may end with the word of a directive,
which is then read on into what follows, and another name for a file may hold a dollar sign.
-/

namespace ContractBench.Source

open Text (isWord)

/-- A directive of the grammar that is read in the way that it is written. -/
def Directive.Settled : Directive → Prop
  | licence l =>
      ¬"import".toList <:+ l.name ∧ (l.block = false → ¬"pragma".toList <:+ l.name)
  | pragma _ _ _ => True
  | importing i => ∀ n ∈ i.newName, ∀ c ∈ n.name, isWord c = true

theorem Directive.Fits.sound {d : Directive} (h : d.Fits) (hsettled : d.Settled) :
    d.part.Sound := by
  cases d with
  | licence l =>
      have hfits : l.Fits := h
      refine ⟨rfl, fun before tail _ htail => ?_, fun before tail _ htail => ?_,
        fun before tail _ htail => ?_⟩
      · exact ⟨Licence.Fits.ne_nil l, hfits.licenceAt_text htail before⟩
      · refine hfits.silent_text opens_pragmaAt unblank_pragmaAt (by decide) (fun last => ?_) before
        cases hblock : l.block with
        | true => exact hfits.silent_pragmaAt_name hblock htail last
        | false =>
            exact hfits.silent_name opens_pragmaAt (by decide) hfits.prose.pragma
              (hsettled.2 hblock) htail last
      · refine hfits.silent_text opens_importAt unblank_importAt (by decide) (fun last => ?_) before
        exact hfits.silent_name opens_importAt (by decide) hfits.prose.importing hsettled.1 htail
          last
  | pragma gap inner version =>
      refine ⟨rfl, fun before tail _ htail => h.silent_licenceAt_pragma htail before,
        fun before tail _ _ => ?_, fun before tail _ _ => h.silent_importAt_pragma before⟩
      exact ⟨h.isPragma_text.ne_nil, h.isPragma_text.pragmaAt_append before tail⟩
  | importing i =>
      have hfits : i.Fits := h
      refine ⟨rfl, fun before tail _ htail => hfits.silent_licenceAt_text htail before,
        fun before tail _ _ => hfits.silent_pragmaAt_text before,
        fun before tail hbefore _ => ⟨?_, hfits.importAt_text hsettled hbefore⟩⟩
      simp [Directive.part, Part.text, Importing.text]

/-- The rows of directives with the prose behind each. -/
def rowsOf (rows : List (Directive × List Char)) : List Row :=
  rows.map fun row => ⟨row.1.part, row.2⟩

/-- A source of directives, each with the prose behind it, and of the prose in front of them. -/
def sourceOf (lead : List Char) (rows : List (Directive × List Char)) : String :=
  String.ofList (lead ++ rows.flatMap fun row => row.1.text ++ row.2)

/-- A source is written in the grammar of directives. -/
structure Documented (lead : List Char) (rows : List (Directive × List Char)) : Prop where
  lined : Lined lead (rowsOf rows)
  lead : Prose lead
  fits : ∀ row ∈ rows, row.1.Fits
  after : ∀ row ∈ rows, Prose row.2

/-- The scans say of a source what it is made of: its imports in order, its first licence and its
first pragma, and without its directives its prose. -/
structure ReadBack (lead : List Char) (rows : List (Directive × List Char)) : Prop where
  imports : findImports (sourceOf lead rows) = rows.filterMap fun row => row.1.path?
  licence : licenceOf (sourceOf lead rows) =
    (rows.findSome? fun row => row.1.licence?).getD defaultLicence
  pragma : pragmaOf (sourceOf lead rows) =
    (rows.findSome? fun row => row.1.pragma?).getD defaultPragma
  prose : cleaned (sourceOf lead rows) =
    String.ofList (Text.trim (lead ++ rows.flatMap fun row => row.2))

section Scans

variable {lead : List Char} {rows : List (Directive × List Char)}

theorem Directive.text_part (d : Directive) : d.part.text = d.text := by
  cases d <;> rfl

theorem Directive.path?_part (d : Directive) : d.part.path? = d.path? := by
  cases d <;> rfl

theorem Directive.licence?_part (d : Directive) : d.part.name?.map String.ofList = d.licence? := by
  cases d <;> rfl

theorem Directive.pragma?_part (d : Directive) :
    (d.part.pragma?.map fun _ => String.ofList d.part.text) = d.pragma? := by
  cases d <;> rfl

theorem toList_sourceOf : (sourceOf lead rows).toList =
    lead ++ written (fun _ => true) (rowsOf rows) := by
  rw [sourceOf, String.toList_ofList, written, rowsOf, List.flatMap_map]
  simp only [if_true, Directive.text_part]

theorem licenceOf_eq (source : String) : licenceOf source =
    ((meanings licenceAt source.toList).head?.map String.ofList).getD defaultLicence := by
  unfold licenceOf
  split
  next name hname => rw [hname]; rfl
  next hnone => rw [hnone]; rfl

theorem pragmaOf_eq (source : String) : pragmaOf source =
    ((firstRaw? pragmaAt source.toList).map String.ofList).getD defaultPragma := by
  unfold pragmaOf
  split
  next raw hraw => rw [hraw]; rfl
  next hnone => rw [hnone]; rfl

theorem Documented.arranged (h : Documented lead rows)
    (hsettled : ∀ row ∈ rows, row.1.Settled) : Arranged lead (rowsOf rows) where
  lined := h.lined
  lead := h.lead.undirected
  sound row hrow := by
    obtain ⟨directive, hmem, rfl⟩ := List.mem_map.mp hrow
    exact (h.fits directive hmem).sound (hsettled directive hmem)
  after row hrow := by
    obtain ⟨directive, hmem, rfl⟩ := List.mem_map.mp hrow
    exact (h.after directive hmem).undirected

/-- A source of the grammar is read back. -/
theorem readBack_of_documented (h : Documented lead rows)
    (hsettled : ∀ row ∈ rows, row.1.Settled) : ReadBack lead rows := by
  have harranged := h.arranged hsettled
  constructor
  case imports =>
    rw [findImports, toList_sourceOf, harranged.imports.meanings_eq, rowsOf, List.filterMap_map]
    exact List.filterMap_congr fun row _ => row.1.path?_part
  case licence =>
    rw [licenceOf_eq, toList_sourceOf, harranged.licences.meanings_eq, rowsOf, List.filterMap_map,
      List.head?_filterMap, List.map_findSome?]
    congr 2
    exact funext fun row => row.1.licence?_part
  case pragma =>
    rw [pragmaOf_eq, toList_sourceOf, harranged.pragmas.firstRaw?_eq, rowsOf, List.findSome?_map,
      List.map_findSome?]
    congr 2
    refine funext fun row => ?_
    rw [← row.1.pragma?_part]
    exact Option.map_map _ _ _
  case prose =>
    rw [cleaned, toList_sourceOf, harranged.cleanedChars_eq, rowsOf, List.flatMap_map]

end Scans

section Samples

/-- A licence line, a pragma and an import of symbols, above a contract. -/
def sampleRows : List (Directive × List Char) :=
  [(.licence ⟨false, [' '], [' '], "MIT".toList, []⟩, ['\n']),
    (.pragma [' '] [' '] "^0.8.0".toList, ['\n', '\n']),
    (.importing ⟨[' '], .symbols [⟨[], ['A'], none, []⟩,
      ⟨[' '], ['B'], some ⟨[' '], [' '], ['C']⟩, []⟩] [' '] [' '], '"', "./A.sol".toList, '"', none,
      []⟩, "\ncontract D \x7b\x7d\n".toList)]

theorem readBack_sample : Documented [] sampleRows ∧ (∀ row ∈ sampleRows, row.1.Settled) ∧
    ReadBack [] sampleRows := by
  have hspace : IsSpace [' '] := isSpace_space
  have hnone {p : NewName → Prop} : ∀ n ∈ (none : Option NewName), p n := by simp
  have hsymbols : Clause.Fits (.symbols [⟨[], ['A'], none, []⟩,
      ⟨[' '], ['B'], some ⟨[' '], [' '], ['C']⟩, []⟩] [' '] [' ']) := by
    refine ⟨List.forall_mem_cons.mpr ⟨?_, List.forall_mem_singleton.mpr ?_⟩, hspace, hspace⟩
    · exact ⟨by decide, ⟨by decide, by decide⟩, hnone, by decide⟩
    · refine ⟨by decide, ⟨by decide, by decide⟩, ?_, by decide⟩
      intro n hn
      obtain rfl := Option.mem_some_iff.mp hn
      exact ⟨hspace, hspace, by decide, by decide⟩
  have hdocumented : Documented [] sampleRows := by
    constructor
    case lined => simp [sampleRows, rowsOf, Lined, LineNext, show isLineEnd '\n' = true by decide]
    case lead => decide
    case fits =>
      simp only [sampleRows, List.forall_mem_cons]
      refine ⟨?_, ?_, ?_, List.forall_mem_nil _⟩
      · exact ⟨by decide, by decide, ⟨by decide, by decide, by decide⟩, by decide, by decide,
          by decide⟩
      · exact ⟨hspace, hspace, ⟨'^', by decide, by decide⟩, by decide, by decide⟩
      · exact ⟨hspace, hsymbols, by decide, ⟨by decide, by decide, by decide⟩, by decide,
          hnone, by decide⟩
    case after => decide
  have hsettled : ∀ row ∈ sampleRows, row.1.Settled := by
    simp only [sampleRows, List.forall_mem_cons]
    exact ⟨⟨by decide, fun _ => by decide⟩, trivial, hnone, List.forall_mem_nil _⟩
  exact ⟨hdocumented, hsettled, readBack_of_documented hdocumented hsettled⟩

/-- A licence whose name ends with the word of an import, above a text in quotes. -/
def endingName : List (Directive × List Char) :=
  [(.licence ⟨false, [' '], [' '], "import".toList, []⟩, "\n\"x\";\n".toList)]

/-- The text in quotes is read as the path of an import. -/
theorem not_readBack_endingName : Documented [] endingName ∧ ¬ReadBack [] endingName := by
  constructor
  · constructor
    case lined => simp [endingName, rowsOf, Lined, LineNext, show isLineEnd '\n' = true by decide]
    case lead => decide
    case fits =>
      refine List.forall_mem_singleton.mpr ?_
      exact ⟨by decide, by decide, ⟨by decide, by decide, by decide⟩, by decide, by decide,
        by decide⟩
    case after => decide
  · intro h
    have hfound : findImports (sourceOf [] endingName) = ["x"] := by decide +kernel
    exact absurd (hfound.symm.trans h.imports) (by decide)

end Samples

end ContractBench.Source
