import ContractBench.Proofs.Source.Absence

/-! # Directives in rows

A source as a text followed by rows, each of which is a directive with the text behind it. Where
the directives stand on lines of their own, a scan takes them one after the other, and whichever of
them are removed first, it does the same with the others.
-/

namespace ContractBench.Source

/-- A directive and the text behind it, up to the next directive. -/
structure Row where
  part : Part
  after : List Char

/-- The text of rows, with some of the directives left out. -/
def written (keeps : Part → Bool) (rows : List Row) : List Char :=
  rows.flatMap fun row => (if keeps row.part then row.part.text else []) ++ row.after

/-- A text goes on with the end of a line, if it goes on. -/
def LineNext (tail : List Char) : Prop := ∀ c ∈ tail.head?, isLineEnd c = true

/-- The texts in front of directives and behind them end and begin with ends of lines; only those
at the ends of the source may be empty. -/
def Lined : List Char → List Row → Prop
  | _, [] => True
  | lead, row :: rows =>
      (∀ c ∈ lead.getLast?, isLineEnd c = true) ∧ LineNext row.after ∧
        (rows ≠ [] → row.after ≠ []) ∧ Lined row.after rows

section Reading

variable {α : Type} {recognise : Recogniser α} {taken : Part → Option α} {keeps : Part → Bool}
  {lead : List Char} {rows : List Row}

/-- On a line of its own a part is recognised whole, if it is of the kind, and otherwise no
directive of the kind begins within it. -/
def Reads (recognise : Recogniser α) (taken : Part → Option α) (part : Part) : Prop :=
  ∀ before tail, (∀ c ∈ before, isLineEnd c = true) → LineNext tail →
    match taken part with
    | some meaning => part.text ≠ [] ∧ recognise before (part.text ++ tail) = some (meaning, tail)
    | none => Silent recognise before part.text tail

/-- No directive begins within a text that ends with its line or with the source. -/
def Quiet (recognise : Recogniser α) (cs : List Char) : Prop :=
  ∀ before tail, LineLast cs tail → Silent recognise before cs tail

/-- The pieces that a scan makes of a row. -/
def rowPieces (taken : Part → Option α) (keeps : Part → Bool) (row : Row) : List (Piece α) :=
  (if keeps row.part then Parting.pieces taken row.part else []) ++ row.after.map .character

theorem Lined.lineNext {row : Row} (h : Lined lead (row :: rows)) :
    LineNext (row.after ++ written keeps rows) := by
  obtain ⟨-, hafter, hne, -⟩ := h
  cases hcs : row.after with
  | nil =>
      have hrows : rows = [] := by
        by_contra hrows
        exact hne hrows hcs
      simp [hrows, written, LineNext]
  | cons c cs =>
      rw [hcs] at hafter
      exact hafter

/-- In front of a directive the source begins or a line has ended. -/
theorem Lined.ends {row : Row} (h : Lined lead (row :: rows)) {before : Option Char}
    (hbefore : lead = [] → ∀ c ∈ before, isLineEnd c = true) :
    ∀ c ∈ lastOf before lead, isLineEnd c = true := by
  cases hlast : lead.getLast? with
  | none =>
      obtain rfl := List.getLast?_eq_none_iff.mp hlast
      exact hbefore rfl
  | some c =>
      rw [lastOf, hlast]
      intro d hd
      exact h.1 d (hlast.trans hd)

/-- Rows are scanned one after the other, whichever directives have been left out. -/
theorem scanFrom_written (h : Lined lead rows)
    (hrows : ∀ row ∈ rows, Reads recognise taken row.part) (hlead : Quiet recognise lead)
    (hafter : ∀ row ∈ rows, Quiet recognise row.after) {before : Option Char}
    (hbefore : rows ≠ [] → lead = [] → ∀ c ∈ before, isLineEnd c = true) :
    scanFrom recognise before 0 (lead ++ written keeps rows) =
      lead.map .character ++ rows.flatMap (rowPieces taken keeps) := by
  -- That a line ends in front of each directive is carried from row to row.
  induction rows generalizing lead before with
  | nil =>
      rw [written, List.flatMap_nil, scanFrom_of_silent (hlead before [] (Or.inl rfl))]
      rfl
  | cons row rows ih =>
      have hends := h.ends (hbefore (List.cons_ne_nil _ _))
      have hrest : ∀ last, (rows ≠ [] → row.after = [] → ∀ c ∈ last, isLineEnd c = true) →
          scanFrom recognise last 0 (row.after ++ written keeps rows) =
            row.after.map .character ++ rows.flatMap (rowPieces taken keeps) := by
        intro last hlast
        exact ih h.2.2.2 (fun r hr => hrows r (List.mem_cons_of_mem _ hr))
          (hafter row List.mem_cons_self) (fun r hr => hafter r (List.mem_cons_of_mem _ hr)) hlast
      have hnever (last : Option Char) :
          rows ≠ [] → row.after = [] → ∀ c ∈ last, isLineEnd c = true :=
        fun hne hnil => absurd hnil (h.2.2.1 hne)
      have htext : written keeps (row :: rows) =
          (if keeps row.part then row.part.text else []) ++ (row.after ++ written keeps rows) :=
        List.append_assoc _ _ _
      rw [htext, scanFrom_of_silent (hlead before _ (Or.inr h.1)), List.flatMap_cons, rowPieces,
        List.append_assoc]
      congr 1
      cases keeps row.part with
      | false => exact hrest _ (hnever _)
      | true =>
          have hreads := hrows row List.mem_cons_self _ (row.after ++ written keeps rows) hends
            h.lineNext
          rw [if_pos rfl, if_pos rfl, Parting.pieces]
          cases htaken : taken row.part with
          | some meaning =>
              rw [htaken] at hreads
              rw [scanFrom_of_recognised hreads.1 hreads.2, hrest _ (hnever _)]
              rfl
          | none =>
              rw [htaken] at hreads
              rw [scanFrom_of_silent hreads, hrest _ (hnever _)]

/-- What a kind of directive says in rows. -/
structure Scanned (recognise : Recogniser α) (taken : Part → Option α) (lead : List Char)
    (rows : List Row) : Prop where
  lined : Lined lead rows
  reads : ∀ row ∈ rows, Reads recognise taken row.part
  lead : Quiet recognise lead
  after : ∀ row ∈ rows, Quiet recognise row.after

theorem Scanned.scan_eq (h : Scanned recognise taken lead rows) :
    scan recognise (lead ++ written keeps rows) =
      lead.map .character ++ rows.flatMap (rowPieces taken keeps) :=
  scanFrom_written h.lined h.reads h.lead h.after fun _ _ _ hc => nomatch hc

theorem filterMap_meaning_characters (cs : List Char) :
    (cs.map (Piece.character (α := α))).filterMap Piece.meaning? = [] := by
  simp [Piece.meaning?]

theorem findSome?_raw_characters (cs : List Char) :
    (cs.map (Piece.character (α := α))).findSome? Piece.raw? = none := by
  simp [Piece.raw?]

/-- The directives of a kind are those of the rows. -/
theorem Scanned.meanings_eq (h : Scanned recognise taken lead rows) :
    meanings recognise (lead ++ written (fun _ => true) rows) =
      rows.filterMap fun row => taken row.part := by
  rw [meanings, h.scan_eq, List.filterMap_append, filterMap_meaning_characters, List.nil_append,
    List.filterMap_flatMap]
  clear h
  induction rows with
  | nil => rfl
  | cons row rows ih =>
      rw [List.flatMap_cons, ih, List.filterMap_cons, rowPieces, if_pos rfl, List.filterMap_append,
        filterMap_meaning_characters, List.append_nil, Parting.pieces]
      cases taken row.part with
      | some meaning => rfl
      | none => rw [filterMap_meaning_characters, List.nil_append]

/-- The first directive of a kind stands as it is written in the rows. -/
theorem Scanned.firstRaw?_eq (h : Scanned recognise taken lead rows) :
    firstRaw? recognise (lead ++ written (fun _ => true) rows) =
      rows.findSome? fun row => (taken row.part).map fun _ => row.part.text := by
  rw [firstRaw?, h.scan_eq, List.findSome?_append, findSome?_raw_characters, Option.none_or]
  clear h
  induction rows with
  | nil => rfl
  | cons row rows ih =>
      rw [List.flatMap_cons, List.findSome?_append, ih, List.findSome?_cons, rowPieces, if_pos rfl,
        List.findSome?_append, findSome?_raw_characters, Option.or_none, Parting.pieces]
      cases taken row.part with
      | some meaning => rfl
      | none => rw [findSome?_raw_characters, Option.none_or, Option.map_none]

/-- Without the directives of a kind the other rows stay. -/
theorem Scanned.without_eq (h : Scanned recognise taken lead rows) :
    without recognise (lead ++ written keeps rows) =
      lead ++ written (fun part => keeps part && (taken part).isNone) rows := by
  rw [without, h.scan_eq, List.flatMap_append, Parting.flatMap_plain_characters, written,
    List.flatMap_assoc]
  congr 1
  refine List.flatMap_congr fun row _ => ?_
  rw [rowPieces, List.flatMap_append, Parting.flatMap_plain_characters, Parting.pieces]
  cases keeps row.part with
  | false => rfl
  | true =>
      cases taken row.part with
      | some meaning => rfl
      | none => simp [Parting.flatMap_plain_characters]

end Reading

section Sources

/-- A directive that each kind of scan reads right. -/
structure Part.Sound (part : Part) : Prop where
  directive : part.stays = false
  licence : Reads licenceAt Part.name? part
  pragma : Reads pragmaAt Part.pragma? part
  importing : Reads importAt Part.path? part

/-- A text that no kind of scan finds a directive in. -/
structure Undirected (cs : List Char) : Prop where
  licence : Quiet licenceAt cs
  pragma : Quiet pragmaAt cs
  importing : Quiet importAt cs

/-- A source in rows. -/
structure Arranged (lead : List Char) (rows : List Row) : Prop where
  lined : Lined lead rows
  lead : Undirected lead
  sound : ∀ row ∈ rows, row.part.Sound
  after : ∀ row ∈ rows, Undirected row.after

namespace Arranged

variable {lead : List Char} {rows : List Row}

theorem licences (h : Arranged lead rows) : Scanned licenceAt Part.name? lead rows :=
  ⟨h.lined, fun row hrow => (h.sound row hrow).licence, h.lead.licence,
    fun row hrow => (h.after row hrow).licence⟩

theorem pragmas (h : Arranged lead rows) : Scanned pragmaAt Part.pragma? lead rows :=
  ⟨h.lined, fun row hrow => (h.sound row hrow).pragma, h.lead.pragma,
    fun row hrow => (h.after row hrow).pragma⟩

theorem imports (h : Arranged lead rows) : Scanned importAt Part.path? lead rows :=
  ⟨h.lined, fun row hrow => (h.sound row hrow).importing, h.lead.importing,
    fun row hrow => (h.after row hrow).importing⟩

/-- Without its directives a source in rows is the texts between them. -/
theorem cleanedChars_eq (h : Arranged lead rows) :
    cleanedChars (lead ++ written (fun _ => true) rows) =
      Text.trim (lead ++ rows.flatMap Row.after) := by
  rw [cleanedChars, h.licences.without_eq, h.pragmas.without_eq, h.imports.without_eq, written]
  congr 2
  refine List.flatMap_congr fun row hrow => ?_
  have hdirective := (h.sound row hrow).directive
  cases hpart : row.part with
  | blank c => simp [hpart, Part.stays] at hdirective
  | code raw => simp [hpart, Part.stays] at hdirective
  | _ => rfl

end Arranged

end Sources

end ContractBench.Source
