import ContractBench.Proofs.Source.Parts

/-! # Forms of directives

Directives as they are usually written are recognised: a licence in a comment on one line, whether
a line comment or a block comment, a plain import and an import of symbols. Where a comment opens
otherwise, no licence is recognised.
-/

namespace ContractBench.Source

open Text (isBlank afterPrefix?)

theorem isGap_of_mem_licenceMark {c : Char} (h : c ∈ licenceMark) : isGap c = false := by
  have hall : ∀ d ∈ licenceMark, isGap d = false := by decide
  exact hall c h

theorem afterPrefix?_licenceMark {gap : List Char} (hgap : ∀ c ∈ gap, isGap c = true)
    (rest : List Char) :
    afterPrefix? licenceMark ((gap ++ (licenceMark ++ rest)).dropWhile isGap) = some rest := by
  rw [List.dropWhile_append_of_pos hgap, List.dropWhile_eq_self_iff.mpr, Text.afterPrefix?_append]
  intro hlength
  have hmark : (licenceMark ++ rest)[0] ∈ licenceMark := by
    rw [List.getElem_append_left (by decide)]
    exact List.getElem_mem _
  simp [isGap_of_mem_licenceMark hmark]

/-- A licence in a line comment takes the rest of its line. -/
theorem licenceAt_line {gap name tail : List Char} (hgap : ∀ c ∈ gap, isGap c = true)
    (hne : name ≠ []) (hname : ∀ c ∈ name, isLineEnd c = false)
    (htail : ∀ c ∈ tail.head?, isLineEnd c = true) (before : Option Char) :
    licenceAt before ('/' :: '/' :: (gap ++ (licenceMark ++ (name ++ tail)))) =
      some (Text.trim name, tail) := by
  have hspan : (name ++ tail).span (fun c => !isLineEnd c) = (name, tail) :=
    Text.span_append (fun c hc => by simp [hname c hc]) fun c hc => by simp [htail c hc]
  obtain ⟨c, cs, rfl⟩ := List.exists_cons_of_ne_nil hne
  simp only [licenceAt, afterPrefix?_licenceMark hgap, Option.bind_eq_bind, Option.bind_some, hspan]

theorem blockEnd?_append {text : List Char} (htext : ∀ c ∈ text, isLineEnd c = false)
    (hclosed : ¬['*', '/'] <:+: text) (tail : List Char) :
    blockEnd? (text ++ '*' :: '/' :: tail) = some (text, tail) := by
  induction text with
  | nil => simp [blockEnd?]
  | cons c cs ih =>
      have hrest := ih (fun d hd => htext d (List.mem_cons_of_mem _ hd)) fun h =>
        hclosed (h.trans (List.suffix_cons c cs).isInfix)
      have hopen : ∀ rest, c :: (cs ++ '*' :: '/' :: tail) ≠ '*' :: '/' :: rest := by
        intro rest heq
        obtain ⟨rfl, hcs⟩ := List.cons.inj heq
        cases cs with
        | nil => cases hcs
        | cons d ds =>
            cases hcs
            exact hclosed (List.prefix_append ['*', '/'] ds).isInfix
      rw [List.cons_append, blockEnd?.eq_2 _ _ fun rest hc hcs => hopen rest (by rw [hc, hcs])]
      simp [htext c List.mem_cons_self, hrest]

/-- A licence in a block comment is recognised if the comment lies in one line. -/
theorem licenceAt_block {gap name : List Char} (hgap : ∀ c ∈ gap, isGap c = true)
    (hname : ∀ c ∈ name, isLineEnd c = false) (hclosed : ¬['*', '/'] <:+: name)
    (before : Option Char) (tail : List Char) :
    licenceAt before ('/' :: '*' :: (gap ++ (licenceMark ++ (name ++ '*' :: '/' :: tail)))) =
      some (Text.trim name, tail) := by
  simp only [licenceAt, afterPrefix?_licenceMark hgap, Option.bind_eq_bind, Option.bind_some,
    blockEnd?_append hname hclosed]
  rfl

section Imports

variable {gap inner path tail : List Char} {before : Option Char}

/-- Blanks, at least one. -/
def IsSpace (cs : List Char) : Prop := cs ≠ [] ∧ ∀ c ∈ cs, isBlank c = true

theorem IsSpace.blanks?_append (h : IsSpace gap) {c : Char} (hc : isBlank c = false) :
    blanks? (gap ++ c :: tail) = some (c :: tail) := Source.blanks?_append h.1 h.2 hc tail

theorem isSpace_space : IsSpace [' '] := ⟨by decide, by decide⟩

theorem not_blank_of_isQuote {c : Char} (h : isQuote c = true) : isBlank c = false := by
  simp only [isQuote, Bool.or_eq_true, beq_iff_eq] at h
  rcases h with rfl | rfl <;> decide

/-- What stands behind the path of an import and ends it, whatever follows. -/
def Finishes (finish : List Char) : Prop :=
  ∀ tail, ((alias? (finish ++ tail)).bind semicolon? <|> semicolon? (finish ++ tail)) = some tail

theorem semicolon?_append (hgap : ∀ c ∈ gap, isBlank c = true) :
    semicolon? (gap ++ ';' :: tail) = some tail := by
  have hdrop : (gap ++ ';' :: tail).dropWhile isBlank = ';' :: tail := by
    rw [List.dropWhile_append_of_pos hgap]
    exact List.dropWhile_cons_of_neg (by decide)
  simp only [semicolon?, hdrop]

/-- A semicolon ends an import. -/
theorem finishes_semicolon (hgap : ∀ c ∈ gap, isBlank c = true) : Finishes (gap ++ [';']) := by
  intro tail
  have hsemicolon : isBlank ';' = false := by decide
  have halias : alias? (gap ++ ';' :: tail) = none := by
    cases gap with
    | nil => simp [alias?, blanks?_of_not_blank hsemicolon]
    | cons c cs =>
        have hspace : IsSpace (c :: cs) := ⟨List.cons_ne_nil c cs, hgap⟩
        rw [alias?, hspace.blanks?_append hsemicolon]
        rfl
  rw [List.append_assoc, List.singleton_append, halias, semicolon?_append hgap]
  rfl

/-- Another name for the file, with a semicolon behind it, ends an import. -/
theorem finishes_alias {name last : List Char} (hgap : IsSpace gap) (hinner : IsSpace inner)
    (hne : name ≠ []) (hname : ∀ c ∈ name, Text.isWord c = true)
    (hlast : ∀ c ∈ last, isBlank c = true) :
    Finishes (gap ++ 'a' :: 's' :: (inner ++ name) ++ (last ++ [';'])) := by
  intro tail
  have hstop : ∀ c ∈ (last ++ ';' :: tail).head?, Text.isWord c = false := by
    cases last with
    | nil => simp [show Text.isWord ';' = false by decide]
    | cons d ds => simpa using Text.isWord_of_isBlank (hlast d List.mem_cons_self)
  have hspan : (name ++ (last ++ ';' :: tail)).span Text.isWord = (name, last ++ ';' :: tail) :=
    Text.span_append hname hstop
  obtain ⟨c, cs, rfl⟩ := List.exists_cons_of_ne_nil hne
  have hc : isBlank c = false := by
    by_contra hblank
    rw [Bool.not_eq_false] at hblank
    have hword := hname c List.mem_cons_self
    simp [Text.isWord_of_isBlank hblank] at hword
  have htext : gap ++ 'a' :: 's' :: (inner ++ c :: cs) ++ (last ++ [';']) ++ tail =
      gap ++ 'a' :: 's' :: (inner ++ c :: (cs ++ (last ++ ';' :: tail))) := by simp
  have halias : alias? (gap ++ 'a' :: 's' :: (inner ++ c :: (cs ++ (last ++ ';' :: tail)))) =
      some (last ++ ';' :: tail) := by
    rw [List.cons_append] at hspan
    simp only [alias?, hgap.blanks?_append (show isBlank 'a' = false by decide), afterPrefix?,
      Option.bind_eq_bind, Option.bind_some, if_true, hinner.blanks?_append hc, hspan]
  rw [htext, halias, Option.bind_some, semicolon?_append hlast]
  rfl

/-- A path between quotes with an end behind it ends an import. -/
theorem target?_append {opening closing : Char} {finish : List Char}
    (hopening : isQuote opening = true) (hclosing : isQuote closing = true) (hne : path ≠ [])
    (hpath : ∀ c ∈ path, isQuote c = false) (hfinish : Finishes finish) (tail : List Char) :
    target? (opening :: (path ++ closing :: (finish ++ tail))) =
      some (String.ofList path, tail) := by
  have hspan : (path ++ closing :: (finish ++ tail)).span (fun c => !isQuote c) =
      (path, closing :: (finish ++ tail)) :=
    Text.span_append (fun c hc => by simp [hpath c hc]) (by simp [hclosing])
  obtain ⟨c, cs, rfl⟩ := List.exists_cons_of_ne_nil hne
  simp only [target?, hopening, if_true, hspan, hfinish tail, Option.map_some]

/-- Behind a blank the word `import` is recognised, and what follows decides. -/
theorem importAt_word (hbefore : ∀ c ∈ before, isBlank c = true) :
    importAt before ("import".toList ++ tail) = (braced? tail <|> unbraced? tail) := by
  have hword : before.any Text.isWord = false := by
    cases before with
    | none => rfl
    | some c => simpa using Text.isWord_of_isBlank (hbefore c rfl)
  have hfront : "import".toList = ['i', 'm', 'p', 'o', 'r', 't'] := rfl
  rw [importAt, hword, hfront, Text.afterPrefix?_append]
  rfl

/-- Names in braces are passed over up to the path. -/
theorem braced?_append {symbols next : List Char} {opening : Char} (hgap : IsSpace gap)
    (hsymbols : '\x7d' ∉ symbols) (hnext : IsSpace next) (hinner : IsSpace inner)
    (hopening : isQuote opening = true) (tail : List Char) :
    braced? (gap ++ '\x7b' :: (symbols ++ '\x7d' :: (next ++
      ("from".toList ++ (inner ++ opening :: tail))))) = target? (opening :: tail) := by
  have hclose (rest : List Char) :
      (symbols ++ '\x7d' :: rest).dropWhile (· != '\x7d') = '\x7d' :: rest := by
    have hall : ∀ c ∈ symbols, (c != '\x7d') = true := by
      intro c hc
      have hother : c ≠ '\x7d' := by
        rintro rfl
        exact hsymbols hc
      simpa using hother
    rw [List.dropWhile_append_of_pos hall]
    simp
  have hfrom (rest : List Char) :
      blanks? (next ++ ("from".toList ++ rest)) = some ("from".toList ++ rest) :=
    hnext.blanks?_append (show isBlank 'f' = false by decide)
  have hword (rest : List Char) :
      afterPrefix? ['f', 'r', 'o', 'm'] ("from".toList ++ rest) = some rest :=
    Text.afterPrefix?_append ['f', 'r', 'o', 'm'] rest
  simp only [braced?, hgap.blanks?_append (show isBlank '\x7b' = false by decide), hclose, hfrom,
    hword, hinner.blanks?_append (not_blank_of_isQuote hopening), afterPrefix?, Option.bind_eq_bind,
    Option.bind_some, if_true]

/-- Where no brace opens behind the blanks, an import is one without braces. -/
theorem braced?_of_no_brace {c : Char} (hgap : IsSpace gap) (hc : isBlank c = false)
    (hbrace : c ≠ '\x7b') : braced? (gap ++ c :: tail) = none := by
  rw [braced?, hgap.blanks?_append hc]
  simp [afterPrefix?, hbrace.symm]

/-- A clause without braces is passed over up to the path. -/
theorem unbraced?_append {lead : List Char} {opening : Char} (hclause : isClause lead = true)
    (hfirst : ∃ c ∈ lead.head?, isBlank c = true)
    (hlead : ∀ c ∈ lead, isQuote c = false ∧ c ≠ ';') (hopening : isQuote opening = true)
    (tail : List Char) : unbraced? (lead ++ opening :: tail) = target? (opening :: tail) := by
  have hall : ∀ c ∈ lead, (!isQuote c && c != ';') = true := by
    intro c hc
    obtain ⟨hquote, hsemicolon⟩ := hlead c hc
    simp [hquote, hsemicolon]
  have hspan : (lead ++ opening :: tail).span (fun c => !isQuote c && c != ';') =
      (lead, opening :: tail) := Text.span_append hall (by simp [hopening])
  obtain ⟨c, hc, hblank⟩ := hfirst
  cases lead with
  | nil => cases hc
  | cons d ds =>
      cases hc
      simp only [unbraced?, hspan, hblank, hclause, Bool.and_self, if_true]

/-- Blanks alone may stand in front of a path. -/
theorem isClause_of_blanks (hgap : ∀ c ∈ gap, isBlank c = true) : isClause gap = true := by
  have hall : gap.all isBlank = true := List.all_eq_true.mpr hgap
  simp [isClause, hall]

/-- A text that ends with the word `from` may stand in front of a path. -/
theorem isClause_from {front : List Char} (hfront : front ≠ []) (hgap : IsSpace gap)
    (hinner : IsSpace inner) :
    isClause (front ++ (gap ++ ("from".toList ++ inner))) = true := by
  obtain ⟨others, last, rfl⟩ := (List.eq_nil_or_concat' gap).resolve_left hgap.1
  have hreverse : (front ++ ((others ++ [last]) ++ ("from".toList ++ inner))).reverse =
      inner.reverse ++ 'm' :: 'o' :: 'r' :: 'f' :: last :: (others.reverse ++ front.reverse) := by
    simp
  have hlast : isBlank last = true := hgap.2 last (by simp)
  have hspace : IsSpace inner.reverse := ⟨by simpa using hinner.1, by simpa using hinner.2⟩
  rw [isClause, hreverse, hspace.blanks?_append (by decide)]
  simp [afterPrefix?, hlast, hfront]

/-- The plainest import is recognised behind a blank. -/
theorem importAt_plain (hne : path ≠ []) (hpath : ∀ c ∈ path, isQuote c = false)
    (hbefore : ∀ c ∈ before, isBlank c = true) :
    importAt before ("import".toList ++ ' ' :: '"' :: (path ++ '"' :: ';' :: tail)) =
      some (String.ofList path, tail) := by
  have hquote : isQuote '"' = true := by decide
  have hbraced : braced? (' ' :: '"' :: (path ++ '"' :: ';' :: tail)) = none :=
    braced?_of_no_brace isSpace_space (not_blank_of_isQuote hquote) (by decide)
  have hunbraced : unbraced? (' ' :: '"' :: (path ++ '"' :: ';' :: tail)) =
      target? ('"' :: (path ++ '"' :: ';' :: tail)) :=
    unbraced?_append (isClause_of_blanks isSpace_space.2) ⟨' ', rfl, by decide⟩ (by decide) hquote _
  have htarget := target?_append hquote hquote hne hpath
    (finishes_semicolon (List.forall_mem_nil _)) tail
  rw [importAt_word hbefore, hbraced, hunbraced]
  exact htarget

/-- An import of symbols is recognised behind a blank. -/
theorem importAt_symbols {symbols : List Char} (hsymbols : '\x7d' ∉ symbols) (hne : path ≠ [])
    (hpath : ∀ c ∈ path, isQuote c = false) (hbefore : ∀ c ∈ before, isBlank c = true) :
    importAt before ("import".toList ++ ' ' :: '\x7b' :: (symbols ++ '\x7d' :: ' ' ::
      ("from".toList ++ ' ' :: '"' :: (path ++ '"' :: ';' :: tail)))) =
      some (String.ofList path, tail) := by
  have hquote : isQuote '"' = true := by decide
  have hbraced := braced?_append isSpace_space hsymbols isSpace_space isSpace_space hquote
    (path ++ '"' :: ';' :: tail)
  have htarget := target?_append hquote hquote hne hpath
    (finishes_semicolon (List.forall_mem_nil _)) tail
  simp only [List.cons_append, List.nil_append] at hbraced htarget
  rw [importAt_word hbefore, hbraced, htarget]
  rfl

end Imports

section Parts

open Source.Part (WellFormed)

/-- A licence in a line comment. -/
def Part.licenceLine (gap name : List Char) : Part :=
  .licence (Text.trim name) ('/' :: '/' :: (gap ++ (licenceMark ++ name)))

/-- A licence in a block comment. -/
def Part.licenceBlock (gap name : List Char) : Part :=
  .licence (Text.trim name) ('/' :: '*' :: (gap ++ (licenceMark ++ (name ++ ['*', '/']))))

/-- An import of a path and no more. -/
def Part.plainImport (path : List Char) : Part :=
  .importing (String.ofList path) ("import".toList ++ ' ' :: '"' :: (path ++ ['"', ';']))

/-- An import of symbols of a path. -/
def Part.symbolImport (symbols path : List Char) : Part :=
  .importing (String.ofList path) ("import".toList ++ ' ' :: '\x7b' :: (symbols ++ '\x7d' :: ' ' ::
    ("from".toList ++ ' ' :: '"' :: (path ++ ['"', ';']))))

theorem wellFormed_licenceLine {gap name : List Char} (hgap : ∀ c ∈ gap, isGap c = true)
    (hne : name ≠ []) (hname : ∀ c ∈ name, isLineEnd c = false)
    (hmark : marks (Text.trim name) = 0)
    (hpragma : clear "pragma".toList (Part.licenceLine gap name).text = true)
    (himport : clear "import".toList (Part.licenceLine gap name).text = true)
    (hnamePragma : clear "pragma".toList (Text.trim name) = true)
    (hnameImport : clear "import".toList (Text.trim name) = true) :
    WellFormed (.licenceLine gap name) := by
  refine .licence (by simp) (fun before tail htail => ?_) (mute_pragmaAt_of_clear hpragma)
    (mute_importAt_of_clear himport) hmark (mute_pragmaAt_of_clear hnamePragma)
    (mute_importAt_of_clear hnameImport)
  simpa using licenceAt_line hgap hne hname htail before

theorem wellFormed_licenceBlock {gap name : List Char} (hgap : ∀ c ∈ gap, isGap c = true)
    (hname : ∀ c ∈ name, isLineEnd c = false) (hslash : '/' ∉ name)
    (hmark : marks (Text.trim name) = 0)
    (hpragma : clear "pragma".toList (Part.licenceBlock gap name).text = true)
    (himport : clear "import".toList (Part.licenceBlock gap name).text = true)
    (hnamePragma : clear "pragma".toList (Text.trim name) = true)
    (hnameImport : clear "import".toList (Text.trim name) = true) :
    WellFormed (.licenceBlock gap name) := by
  refine .licence (by simp) (fun before tail _ => ?_) (mute_pragmaAt_of_clear hpragma)
    (mute_importAt_of_clear himport) hmark (mute_pragmaAt_of_clear hnamePragma)
    (mute_importAt_of_clear hnameImport)
  have hclosed : ¬['*', '/'] <:+: name := fun h => hslash (h.subset (by simp))
  simpa using licenceAt_block hgap hname hclosed before tail

theorem wellFormed_plainImport {path : List Char} (hne : path ≠ [])
    (hpath : ∀ c ∈ path, isQuote c = false)
    (hlicence : unlicensed (Part.plainImport path).text = true)
    (hpragma : clear "pragma".toList (Part.plainImport path).text = true) :
    WellFormed (.plainImport path) := by
  refine .importing (by simp) (fun before tail hbefore _ => ?_)
    (mute_licenceAt_of_unlicensed hlicence) (mute_pragmaAt_of_clear hpragma)
  have hplain := @importAt_plain path tail before hne hpath hbefore
  simpa using hplain

theorem wellFormed_symbolImport {symbols path : List Char} (hsymbols : '\x7d' ∉ symbols)
    (hne : path ≠ []) (hpath : ∀ c ∈ path, isQuote c = false)
    (hlicence : unlicensed (Part.symbolImport symbols path).text = true)
    (hpragma : clear "pragma".toList (Part.symbolImport symbols path).text = true) :
    WellFormed (.symbolImport symbols path) := by
  refine .importing (by simp) (fun before tail hbefore _ => ?_)
    (mute_licenceAt_of_unlicensed hlicence) (mute_pragmaAt_of_clear hpragma)
  have hwhole := @importAt_symbols path tail before symbols hsymbols hne hpath hbefore
  simpa using hwhole

theorem wellFormed_pragma {raw : List Char} (hwhole : IsPragma raw)
    (hlicence : unlicensed raw = true) (himport : clear "import".toList raw = true)
    (hmark : marks raw = 0) : WellFormed (.pragma raw) :=
  .pragma hwhole (mute_licenceAt_of_unlicensed hlicence) (mute_importAt_of_clear himport) hmark

theorem wellFormed_code {raw : List Char} (hfirst : ∃ c ∈ raw.head?, isBlank c = false)
    (hlast : ∃ c ∈ raw.getLast?, isBlank c = false) (hlicence : unlicensed raw = true)
    (hpragma : clear "pragma".toList raw = true) (himport : clear "import".toList raw = true) :
    WellFormed (.code raw) :=
  .code hfirst hlast (mute_licenceAt_of_unlicensed hlicence) (mute_pragmaAt_of_clear hpragma)
    (mute_importAt_of_clear himport)

end Parts

end ContractBench.Source
