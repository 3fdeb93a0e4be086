import ContractBench.Proofs.Source.Grammar

/-! # Forms of imports

An import is recognised in each of its forms, and neither a pragma nor a licence begins within it.
Its names may be any identifiers, also the word of a pragma: what stands behind a name makes no
pragma of it.
-/

namespace ContractBench.Source

open Text (isBlank isWord)

section Names

variable {name tail : List Char}

/-- Behind a name comes what makes no pragma of it. -/
def Closes (rest : List Char) : Prop :=
  (∀ c ∈ rest.head?, isName c = false) ∧ ∀ c ∈ (rest.dropWhile isBlank).head?, c ≠ 's'

theorem closes_cons {c : Char} (hname : isName c = false) (hblank : isBlank c = false) :
    Closes (c :: tail) := by
  refine ⟨by simpa using hname, ?_⟩
  rw [List.dropWhile_cons_of_neg (by simp [hblank])]
  rintro d ⟨⟩ rfl
  exact absurd hname (by decide)

theorem Closes.blanks {gap : List Char} (h : Closes tail) (hgap : ∀ c ∈ gap, isBlank c = true) :
    Closes (gap ++ tail) := by
  refine ⟨?_, ?_⟩
  · cases gap with
    | nil => exact h.1
    | cons c cs =>
        rintro d ⟨⟩
        exact isName_of_isBlank (hgap c List.mem_cons_self)
  · rw [List.dropWhile_append_of_pos hgap]
    exact h.2

theorem IsSpace.closes {gap : List Char} {c : Char} (h : IsSpace gap) (hc : isBlank c = false)
    (hs : c ≠ 's') : Closes (gap ++ c :: tail) := by
  refine ⟨?_, ?_⟩
  · obtain ⟨d, ds, rfl⟩ := List.exists_cons_of_ne_nil h.1
    rintro e ⟨⟩
    exact isName_of_isBlank (h.2 d List.mem_cons_self)
  · rw [List.dropWhile_append_of_pos h.2, List.dropWhile_cons_of_neg (by simp [hc])]
    rintro d ⟨⟩
    exact hs

/-- No pragma begins within a name, even if that ends with the word of one. -/
theorem silent_pragmaAt_name (hname : ∀ c ∈ name, isName c = true) (htail : Closes tail)
    (before : Option Char) : Silent pragmaAt before name tail := by
  have hall : ∀ c ∈ "pragma".toList, isName c = true := by decide
  have hwordless : Wordless "pragma".toList name := by
    intro c hblank hinfix
    have hmem : c ∈ name := hinfix.subset (by simp)
    have hnone := isName_of_isBlank hblank
    simp [hname c hmem] at hnone
  refine silent_pragmaAt_of_closed hwordless (fun c hc hmem => ?_) htail.2 before
  have hnone := htail.1 c hc
  simp [hall c hmem] at hnone

theorem NewName.Fits.closes {n : NewName} (h : n.Fits) : Closes (n.text ++ tail) := by
  have hclosed : Closes (n.gap ++ 'a' :: ('s' :: (n.inner ++ (n.name ++ tail)))) :=
    h.gap.closes (by decide) (by decide)
  simpa [NewName.text] using hclosed

theorem NewName.Fits.silent_pragmaAt_text {n : NewName} (h : n.Fits) (htail : Closes tail)
    (before : Option Char) : Silent pragmaAt before n.text tail := by
  have htext : n.text = n.gap ++ (['a', 's'] ++ (n.inner ++ n.name)) := rfl
  simp only [htext, silent_append_iff]
  exact ⟨silent_of_blanks unblank_pragmaAt h.gap.2 _, silent_pragmaAt_of_clear (by decide) _ _,
    silent_of_blanks unblank_pragmaAt h.inner.2 _, silent_pragmaAt_name h.name.2 htail _⟩

theorem silent_pragmaAt_textOf {n : Option NewName} (h : ∀ newName ∈ n, newName.Fits)
    (htail : Closes tail) (before : Option Char) :
    Silent pragmaAt before (NewName.textOf n) tail := by
  cases n with
  | none => exact .nil _ _
  | some newName => exact (h newName rfl).silent_pragmaAt_text htail before

theorem closes_textOf {n : Option NewName} (h : ∀ newName ∈ n, newName.Fits)
    (htail : Closes tail) : Closes (NewName.textOf n ++ tail) := by
  cases n with
  | none => exact htail
  | some newName => exact (h newName rfl).closes

theorem Symbol.Fits.silent_pragmaAt_text {symbol : Symbol} (h : symbol.Fits)
    (htail : Closes tail) (before : Option Char) :
    Silent pragmaAt before symbol.text tail := by
  have hback : Closes (symbol.back ++ tail) := htail.blanks h.back
  simp only [Symbol.text, silent_append_iff]
  refine ⟨silent_of_blanks unblank_pragmaAt h.front _, silent_pragmaAt_name h.name.2 ?_ _,
    silent_pragmaAt_textOf h.newName hback _, silent_of_blanks unblank_pragmaAt h.back _⟩
  rw [List.append_assoc]
  exact closes_textOf h.newName hback

theorem silent_pragmaAt_symbols {list : List Symbol} (h : ∀ symbol ∈ list, symbol.Fits)
    (htail : Closes tail) (before : Option Char) :
    Silent pragmaAt before (Symbol.textOf list) tail := by
  fun_induction Symbol.textOf list generalizing before with
  | case1 => exact .nil _ _
  | case2 symbol => exact (h symbol List.mem_cons_self).silent_pragmaAt_text htail before
  | case3 symbol rest _ ih =>
      rw [List.append_cons, silent_append_iff, silent_append_iff]
      refine ⟨⟨(h symbol List.mem_cons_self).silent_pragmaAt_text ?_ _,
        silent_pragmaAt_of_clear (by decide) _ _⟩,
        ih (fun other hother => h other (List.mem_cons_of_mem _ hother)) _⟩
      exact closes_cons (by decide) (by decide)

theorem Clause.Fits.silent_pragmaAt_text {clause : Clause} (h : clause.Fits)
    (before : Option Char) : Silent pragmaAt before clause.text tail := by
  cases clause with
  | nothing => exact .nil _ _
  | symbols list gap inner =>
      obtain ⟨hlist, hgap, hinner⟩ := h
      have htext : (Clause.symbols list gap inner).text = ['\x7b'] ++ (Symbol.textOf list ++
          (['\x7d'] ++ (gap ++ ("from".toList ++ inner)))) := rfl
      simp only [htext, silent_append_iff]
      exact ⟨silent_pragmaAt_of_clear (by decide) _ _,
        silent_pragmaAt_symbols hlist (closes_cons (by decide) (by decide)) _,
        silent_pragmaAt_of_clear (by decide) _ _, silent_of_blanks unblank_pragmaAt hgap.2 _,
        silent_pragmaAt_of_clear (by decide) _ _, silent_of_blanks unblank_pragmaAt hinner.2 _⟩
  | whole newName gap inner =>
      obtain ⟨hname, hgap, hinner⟩ := h
      have htext : (Clause.whole newName gap inner).text = ['*'] ++ (newName.text ++
          (gap ++ ("from".toList ++ inner))) := rfl
      simp only [htext, silent_append_iff]
      refine ⟨silent_pragmaAt_of_clear (by decide) _ _, hname.silent_pragmaAt_text ?_ _,
        silent_of_blanks unblank_pragmaAt hgap.2 _, silent_pragmaAt_of_clear (by decide) _ _,
        silent_of_blanks unblank_pragmaAt hinner.2 _⟩
      rw [List.append_assoc]
      exact hgap.closes (by decide) (by decide)

end Names

section Imports

variable {i : Importing} {n : NewName} {tail : List Char}

/-- The characters of names and between them. -/
def isLoose (c : Char) : Bool := isName c || isBlank c

theorem NewName.Fits.isLoose_of_mem (h : n.Fits) {c : Char} (hc : c ∈ n.text) :
    isLoose c = true := by
  simp only [NewName.text, List.mem_append, List.mem_cons] at hc
  rcases hc with hc | rfl | rfl | hc | hc
  · simp [isLoose, h.gap.2 c hc]
  · decide
  · decide
  · simp [isLoose, h.inner.2 c hc]
  · simp [isLoose, h.name.2 c hc]

theorem isLoose_of_mem_textOf {n : Option NewName} (h : ∀ newName ∈ n, newName.Fits) {c : Char}
    (hc : c ∈ NewName.textOf n) : isLoose c = true := by
  cases n with
  | none => cases hc
  | some newName => exact (h newName rfl).isLoose_of_mem hc

theorem isLoose_of_mem_symbols {list : List Symbol} (h : ∀ symbol ∈ list, symbol.Fits) {c : Char}
    (hc : c ∈ Symbol.textOf list) : isLoose c = true ∨ c = ',' := by
  have hsymbol : ∀ symbol ∈ list, c ∈ symbol.text → isLoose c = true := by
    intro symbol hmem hc
    obtain ⟨hfront, hname, hnew, hback⟩ := h symbol hmem
    simp only [Symbol.text, List.mem_append] at hc
    rcases hc with hc | hc | hc | hc
    · simp [isLoose, hfront c hc]
    · simp [isLoose, hname.2 c hc]
    · exact isLoose_of_mem_textOf hnew hc
    · simp [isLoose, hback c hc]
  clear h
  fun_induction Symbol.textOf list with
  | case1 => cases hc
  | case2 symbol => exact Or.inl (hsymbol symbol List.mem_cons_self hc)
  | case3 symbol rest _ ih =>
      rcases List.mem_append.mp hc with hc | hc
      · exact Or.inl (hsymbol symbol List.mem_cons_self hc)
      · rcases List.mem_cons.mp hc with rfl | hc
        · exact Or.inr rfl
        · exact ih hc fun other hother => hsymbol other (List.mem_cons_of_mem _ hother)

theorem Clause.Fits.isLoose_of_mem {clause : Clause} (h : clause.Fits) {c : Char}
    (hc : c ∈ clause.text) : isLoose c = true ∨ c ∈ [',', '*', '\x7b', '\x7d'] := by
  have hfrom : ∀ {gap inner : List Char}, IsSpace gap → IsSpace inner →
      c ∈ gap ++ ("from".toList ++ inner) → isLoose c = true := by
    intro gap inner hgap hinner hc
    simp only [List.mem_append] at hc
    rcases hc with hc | hc | hc
    · simp [isLoose, hgap.2 c hc]
    · have hall : ∀ d ∈ "from".toList, isLoose d = true := by decide
      exact hall c hc
    · simp [isLoose, hinner.2 c hc]
  cases clause with
  | nothing => cases hc
  | symbols list gap inner =>
      obtain ⟨hlist, hgap, hinner⟩ := h
      rcases List.mem_cons.mp hc with rfl | hc
      · exact Or.inr (by simp)
      · rcases List.mem_append.mp hc with hc | hc
        · rcases isLoose_of_mem_symbols hlist hc with hloose | rfl
          · exact Or.inl hloose
          · exact Or.inr (by simp)
        · rcases List.mem_cons.mp hc with rfl | hc
          · exact Or.inr (by simp)
          · exact Or.inl (hfrom hgap hinner hc)
  | whole newName gap inner =>
      obtain ⟨hname, hgap, hinner⟩ := h
      rcases List.mem_cons.mp hc with rfl | hc
      · exact Or.inr (by simp)
      · rcases List.mem_append.mp hc with hc | hc
        · exact Or.inl (hname.isLoose_of_mem hc)
        · exact Or.inl (hfrom hgap hinner hc)

theorem isQuote_of_isLoose {c : Char} (h : isLoose c = true) : isQuote c = false ∧ c ≠ ';' := by
  refine ⟨?_, ?_⟩
  · rw [← Bool.not_eq_true]
    intro hquote
    simp only [isQuote, Bool.or_eq_true, beq_iff_eq] at hquote
    rcases hquote with rfl | rfl <;> exact absurd h (by decide)
  · rintro rfl
    exact absurd h (by decide)

/-- What an import says in front of the path is passed over. -/
theorem Clause.Fits.passed {clause : Clause} (h : clause.Fits) {gap rest : List Char}
    {opening : Char} {found : String × List Char} (hgap : IsSpace gap)
    (hopening : isQuote opening = true) (htarget : target? (opening :: rest) = some found) :
    (braced? (gap ++ (clause.text ++ opening :: rest)) <|>
      unbraced? (gap ++ (clause.text ++ opening :: rest))) = some found := by
  have hblank : ∃ d ds, gap = d :: ds ∧ isBlank d = true := by
    obtain ⟨d, ds, rfl⟩ := List.exists_cons_of_ne_nil hgap.1
    exact ⟨d, ds, rfl, hgap.2 d List.mem_cons_self⟩
  have hgapPlain : ∀ c ∈ gap, isQuote c = false ∧ c ≠ ';' := fun c hc =>
    isQuote_of_isLoose (by simp [isLoose, hgap.2 c hc])
  obtain ⟨d, ds, hcons, hd⟩ := hblank
  cases clause with
  | nothing =>
      have hbrace : opening ≠ '\x7b' := fun heq => nomatch heq ▸ hopening
      have hbraced : braced? (gap ++ opening :: rest) = none :=
        braced?_of_no_brace hgap (not_blank_of_isQuote hopening) hbrace
      have hunbraced := unbraced?_append (isClause_of_blanks hgap.2) ⟨d, by simp [hcons], hd⟩
        hgapPlain hopening rest
      rw [Clause.text, List.nil_append, hbraced, hunbraced, htarget]
      rfl
  | symbols list next inner =>
      obtain ⟨hlist, hnext, hinner⟩ := h
      have hsymbols : '\x7d' ∉ Symbol.textOf list := by
        intro hmem
        rcases isLoose_of_mem_symbols hlist hmem with hc | hc <;> exact absurd hc (by decide)
      have hbraced := braced?_append hgap hsymbols hnext hinner hopening rest
      have hsplit : (Clause.symbols list next inner).text ++ opening :: rest =
          '\x7b' :: (Symbol.textOf list ++ '\x7d' :: (next ++ ("from".toList ++ (inner ++
            opening :: rest)))) := by
        simp [Clause.text]
      rw [hsplit, hbraced, htarget]
      rfl
  | whole newName next inner =>
      have hwhole := h
      obtain ⟨-, hnext, hinner⟩ := h
      have hlead : ∀ c ∈ gap ++ '*' :: newName.text ++ (next ++ ("from".toList ++ inner)),
          isQuote c = false ∧ c ≠ ';' := by
        intro c hc
        rw [List.append_assoc] at hc
        rcases List.mem_append.mp hc with hc | hc
        · exact hgapPlain c hc
        · rcases hwhole.isLoose_of_mem hc with hc | hc
          · exact isQuote_of_isLoose hc
          · have hall : ∀ e ∈ [',', '*', '\x7b', '\x7d'], isQuote e = false ∧ e ≠ ';' := by decide
            exact hall c hc
      have hbraced : braced? (gap ++ ((Clause.whole newName next inner).text ++ opening :: rest)) =
          none := braced?_of_no_brace hgap (by decide) (by decide)
      have hfront : gap ++ '*' :: newName.text ≠ [] := by simp
      have hunbraced := unbraced?_append (isClause_from hfront hnext hinner)
        ⟨d, by simp [hcons], hd⟩ hlead hopening rest
      have hsplit : gap ++ ((Clause.whole newName next inner).text ++ opening :: rest) =
          gap ++ '*' :: newName.text ++ (next ++ ("from".toList ++ inner)) ++ opening :: rest := by
        simp [Clause.text]
      rw [hbraced, hsplit, hunbraced, htarget]
      rfl

namespace Importing.Fits

/-- No pragma begins within an import. -/
theorem silent_pragmaAt_text (h : i.Fits) (before : Option Char) :
    Silent pragmaAt before i.text tail := by
  have hquote {c : Char} (hc : isQuote c = true) (last : Option Char) (rest : List Char) :
      Silent pragmaAt last [c] rest := by
    simp only [isQuote, Bool.or_eq_true, beq_iff_eq] at hc
    rcases hc with rfl | rfl <;> exact silent_pragmaAt_of_clear (by decide) _ _
  have htext : i.text = "import".toList ++ (i.gap ++ (i.clause.text ++ ([i.opening] ++
      (i.path ++ ([i.closing] ++ (NewName.textOf i.newName ++ (i.last ++ [';']))))))) := rfl
  simp only [htext, silent_append_iff]
  refine ⟨silent_pragmaAt_of_clear (by decide) _ _, silent_of_blanks unblank_pragmaAt h.gap.2 _,
    h.clause.silent_pragmaAt_text _, hquote h.opening _ _, ?_, hquote h.closing _ _,
    silent_pragmaAt_textOf h.newName ?_ _, silent_of_blanks unblank_pragmaAt h.last _,
    silent_pragmaAt_of_clear (by decide) _ _⟩
  · apply silent_of_wordless_next opens_pragmaAt h.path.2.2.pragma
    rintro c ⟨⟩
    refine ⟨?_, Or.inl (not_blank_of_isQuote h.closing)⟩
    have hall : ∀ d ∈ "pragma".toList, isQuote d = false := by decide
    exact fun hmem => Bool.false_ne_true ((hall _ hmem).symm.trans h.closing)
  · rw [List.append_assoc]
    exact (closes_cons (by decide) (by decide)).blanks h.last

/-- No licence begins within an import. -/
theorem silent_licenceAt_text (h : i.Fits) (htail : LineNext tail) (before : Option Char) :
    Silent licenceAt before i.text tail := by
  have hquote {c : Char} (hc : isQuote c = true) : c ∉ licenceMark := by
    have hall : ∀ d ∈ licenceMark, isQuote d = false := by decide
    exact fun hmem => Bool.false_ne_true ((hall c hmem).symm.trans hc)
  have hloose : ∀ {cs : List Char}, (∀ c ∈ cs, isLoose c = true) → ':' ∉ cs :=
    fun hcs hmem => absurd (hcs ':' hmem) (by decide)
  have hgap : ':' ∉ i.gap := notMem_of_blanks (by decide) h.gap.2
  have hclause : ':' ∉ i.clause.text := by
    intro hmem
    rcases h.clause.isLoose_of_mem hmem with hc | hc <;> exact absurd hc (by decide)
  have hfinish : ':' ∉ i.finish := by
    have hname : ':' ∉ NewName.textOf i.newName := hloose fun c => isLoose_of_mem_textOf h.newName
    have hlast : ':' ∉ i.last := notMem_of_blanks (by decide) h.last
    simp [finish, hname, hlast]
  have htext : i.text = ("import".toList ++ (i.gap ++ i.clause.text)) ++ i.opening ::
      (i.path ++ i.closing :: i.finish) := by
    simp [text]
  apply silent_licenceAt_of_unmarked ?_ htail
  rw [htext, infix_append_cons_iff (hquote h.opening), infix_append_cons_iff (hquote h.closing)]
  rintro (hmark | hmark | hmark)
  · exact unmarked_of_notMem (by simp [hgap, hclause]) hmark
  · exact h.path.2.2.mark hmark
  · exact unmarked_of_notMem hfinish hmark

/-- An import is recognised on a line of its own, if its other name is a word. -/
theorem importAt_text (h : i.Fits) (hname : ∀ n ∈ i.newName, ∀ c ∈ n.name, isWord c = true)
    {before : Option Char} (hbefore : ∀ c ∈ before, isLineEnd c = true) :
    importAt before (i.text ++ tail) = some (String.ofList i.path, tail) := by
  have hfinish : Finishes i.finish := by
    rw [finish]
    cases hnew : i.newName with
    | none => exact finishes_semicolon h.last
    | some n =>
        obtain ⟨hgap, hinner, hidentifier⟩ := h.newName n hnew
        exact finishes_alias hgap hinner hidentifier.1 (hname n hnew) h.last
  have htarget := target?_append h.opening h.closing h.path.1 h.path.2.1 hfinish tail
  have htext : i.text ++ tail = "import".toList ++ (i.gap ++ (i.clause.text ++ i.opening ::
      (i.path ++ i.closing :: (i.finish ++ tail)))) := by
    simp [text]
  rw [htext, importAt_word fun c hc => isBlank_of_isLineEnd (hbefore c hc)]
  exact h.clause.passed h.gap h.opening htarget

end Importing.Fits

end Imports

end ContractBench.Source
