import ContractBench.Proofs.Source.Parts

/-! # Texts without directives

An import and a pragma begin with a word that a blank follows, a licence with a comment that holds
its mark. Where a text has none of them no directive begins in it, provided that nothing of the kind
comes into being where the text ends.
-/

namespace ContractBench.Source

open Text (isBlank afterPrefix?)

section Infixes

variable {α : Type} {part xs ys : List α} {c : α}

/-- A part without some character stands on one side of it. -/
theorem infix_append_cons_iff (hc : c ∉ part) :
    part <:+: xs ++ c :: ys ↔ part <:+: xs ∨ part <:+: ys := by
  induction xs with
  | nil =>
      have hfront : part <+: c :: ys ↔ part = [] := by
        simpa using @prefix_append_cons_iff _ part [] ys c hc
      rw [List.nil_append, List.infix_cons_iff, hfront, List.infix_nil]
  | cons x xs ih =>
      have hfront := @prefix_append_cons_iff _ part (x :: xs) ys c hc
      rw [List.cons_append, List.infix_cons_iff, ih, List.infix_cons_iff, ← List.cons_append,
        hfront, or_assoc]

end Infixes

section Silence

variable {α : Type} {recognise : Recogniser α} {cs tail : List Char}

/-- No directive begins within a text if none begins with one of its ends. -/
theorem silent_of_forall_suffix
    (h : ∀ before rest, rest <:+ cs → rest ≠ [] → recognise before (rest ++ tail) = none)
    (before : Option Char) : Silent recognise before cs tail := by
  induction cs generalizing before with
  | nil => exact .nil _ _
  | cons c cs ih =>
      refine .cons (h before (c :: cs) (List.suffix_refl _) (List.cons_ne_nil c cs)) (ih ?_ _)
      intro last rest hrest hne
      exact h last rest (hrest.trans (List.suffix_cons c cs)) hne

/-- Blanks hold no directive. -/
theorem silent_of_blanks (hunblank : Unblank recognise) (h : ∀ c ∈ cs, isBlank c = true)
    (before : Option Char) : Silent recognise before cs tail := by
  apply silent_of_forall_suffix
  intro last rest hrest hne
  obtain ⟨c, more, rfl⟩ := List.exists_cons_of_ne_nil hne
  exact hunblank last c _ (h c (hrest.subset List.mem_cons_self))

end Silence

section Words

variable {α : Type} {recognise : Recogniser α} {word cs tail : List Char}

/-- Nowhere in a text does a word stand with a blank behind it. -/
def Wordless (word cs : List Char) : Prop := ∀ c, isBlank c = true → ¬word ++ [c] <:+: cs

/-- One more character brings no word with a blank behind it, unless the word stood at the end. -/
theorem Wordless.concat {c : Char} (h : Wordless word cs)
    (hend : isBlank c = false ∨ ¬word <:+ cs) : Wordless word (cs ++ [c]) := by
  intro d hd hinfix
  rcases List.infix_concat_iff.mp hinfix with ⟨front, hsuffix⟩ | hinfix
  · rw [← List.append_assoc] at hsuffix
    obtain ⟨hfront, hlast⟩ := List.append_inj' hsuffix rfl
    obtain rfl := List.singleton_inj.mp hlast
    rcases hend with hblank | hword
    · simp [hblank] at hd
    · exact hword ⟨front, hfront⟩
  · exact h d hd hinfix

/-- Where the word stands nowhere no directive begins, unless the word is completed behind the
text. -/
theorem silent_of_wordless (hopens : Opens recognise word)
    (h : Wordless word (cs ++ tail.head?.toList)) (hnext : ∀ c ∈ tail.head?, c ∉ word)
    (before : Option Char) : Silent recognise before cs tail := by
  apply silent_of_forall_suffix
  intro last rest hrest _
  rw [Option.eq_none_iff_forall_ne_some]
  intro found hfound
  obtain ⟨c, more, hblank, hsplit⟩ := hopens last _ found hfound
  obtain ⟨front, rfl⟩ := hrest
  apply h c hblank
  cases tail with
  | nil =>
      rw [List.append_nil] at hsplit
      exact ⟨front, more, by simp [hsplit]⟩
  | cons d tail =>
      -- What follows the text is not in the word, so at most the blank is behind the text.
      have hword : word <+: rest :=
        (prefix_append_cons_iff (hnext d rfl)).mp ⟨c :: more, hsplit.symm⟩
      obtain ⟨after, rfl⟩ := hword
      rw [List.append_assoc, List.append_cancel_left_eq] at hsplit
      have hblanks : [c] <+: after ++ [d] := by
        cases after with
        | nil =>
            cases hsplit
            exact List.prefix_refl _
        | cons e after =>
            cases hsplit
            exact ⟨after ++ [d], rfl⟩
      obtain ⟨behind, hbehind⟩ := hblanks
      refine ⟨front, behind, ?_⟩
      simp [← hbehind]

/-- No directive begins in a text without the word, if the word does not go on behind it. -/
theorem silent_of_wordless_next (hopens : Opens recognise word) (h : Wordless word cs)
    (hnext : ∀ c ∈ tail.head?, c ∉ word ∧ (isBlank c = false ∨ ¬word <:+ cs))
    (before : Option Char) : Silent recognise before cs tail := by
  refine silent_of_wordless hopens ?_ (fun c hc => (hnext c hc).1) before
  cases tail with
  | nil => simpa using h
  | cons c tail => exact h.concat (hnext c rfl).2

/-- No pragma begins in a text without its word if the word does not go on behind it, and if it is
not the next word that follows the blanks behind it. -/
theorem silent_pragmaAt_of_closed (h : Wordless "pragma".toList cs)
    (hnext : ∀ c ∈ tail.head?, c ∉ "pragma".toList)
    (hclosed : ∀ c ∈ (tail.dropWhile isBlank).head?, c ≠ 's') (before : Option Char) :
    Silent pragmaAt before cs tail := by
  apply silent_of_forall_suffix
  intro last rest hrest _
  rw [Option.eq_none_iff_forall_ne_some]
  intro found hfound
  obtain ⟨raw, ⟨gap, w, expr, hgapNe, hgap, -, -, -, rfl⟩, hsplit⟩ := exists_of_pragmaAt hfound
  obtain ⟨g, gs, rfl⟩ := List.exists_cons_of_ne_nil hgapNe
  have hs : isBlank 's' = false := by decide
  have hother : ∀ more, tail ≠ (g :: gs) ++ 's' :: more := by
    rintro more rfl
    refine hclosed 's' ?_ rfl
    rw [List.dropWhile_append_of_pos hgap, List.dropWhile_cons_of_neg (by simp [hs])]
    rfl
  have hword : rest ++ tail = "pragma".toList ++ ((g :: gs) ++ 's' :: ("olidity".toList ++
      (w :: expr ++ ';' :: found.2))) := by
    rw [hsplit]
    simp
  -- The word ends within the text, at its end, or behind it.
  rcases List.append_eq_append_iff.mp hword with ⟨more, hpragma, htail⟩ | ⟨more, hrestEq, hmore⟩
  · cases more with
    | nil => exact hother _ htail
    | cons c more => exact hnext c (by simp [htail]) (by simp [hpragma])
  · cases more with
    | nil => exact hother _ hmore.symm
    | cons c more =>
        obtain ⟨rfl, -⟩ := List.cons.inj hmore
        refine h g (hgap g List.mem_cons_self) (List.IsInfix.trans ?_ hrest.isInfix)
        exact ⟨[], more, by simp [hrestEq]⟩

/-- A text that ends with its line, or that nothing follows. -/
def LineLast (cs tail : List Char) : Prop := tail = [] ∨ ∀ c ∈ cs.getLast?, isLineEnd c = true

theorem isBlank_of_isLineEnd {c : Char} (h : isLineEnd c = true) : isBlank c = true := by
  simp only [isLineEnd, Bool.or_eq_true, beq_iff_eq] at h
  rcases h with rfl | rfl <;> decide

/-- A text without the word and with all of its last line has no directive. -/
theorem silent_of_lineLast (hopens : Opens recognise word) (hunblank : Unblank recognise)
    (hword : ∀ c ∈ word, isBlank c = false) (h : Wordless word cs) (hlast : LineLast cs tail)
    (before : Option Char) : Silent recognise before cs tail := by
  rcases hlast with rfl | hlast
  · exact silent_of_wordless hopens (by simpa using h) (by simp) before
  · cases hcs : cs.getLast? with
    | none =>
        rw [List.getLast?_eq_none_iff.mp hcs]
        exact .nil _ _
    | some c =>
        have hblank := isBlank_of_isLineEnd (hlast c hcs)
        obtain ⟨front, rfl⟩ := List.getLast?_eq_some_iff.mp hcs
        rw [silent_append_iff]
        refine ⟨silent_of_wordless hopens h ?_ _, .cons (hunblank _ c _ hblank) (.nil _ _)⟩
        rintro d ⟨⟩ hmem
        simp [hword c hmem] at hblank

end Words

section Marks

variable {cs tail : List Char}

theorem not_isLineEnd_of_mem_licenceMark {c : Char} (h : c ∈ licenceMark) :
    isLineEnd c = false := by
  have hall : ∀ d ∈ licenceMark, isLineEnd d = false := by decide
  exact hall c h

theorem isBlank_of_isGap {c : Char} (h : isGap c = true) : isBlank c = true := by
  simp only [isGap, Bool.or_eq_true, beq_iff_eq] at h
  rcases h with rfl | rfl <;> decide

theorem not_isLineEnd_of_isGap {c : Char} (h : isGap c = true) : isLineEnd c = false := by
  simp only [isGap, Bool.or_eq_true, beq_iff_eq] at h
  rcases h with rfl | rfl <;> decide

/-- A licence begins with a comment and, behind a gap, its mark. -/
theorem exists_of_licenceAt {before : Option Char} {found : List Char × List Char}
    (h : licenceAt before cs = some found) :
    ∃ front rest, (∀ c ∈ front, isLineEnd c = false) ∧ cs = front ++ licenceMark ++ rest := by
  obtain ⟨opening, after, line, rfl, hline, hopening⟩ := exists_line_of_licenceAt h
  have hopens : isLineEnd opening = false := by
    rcases hopening with ⟨rfl, -⟩ | ⟨rfl, -⟩ <;> decide
  refine ⟨'/' :: opening :: after.takeWhile isGap, line, ?_, ?_⟩
  · refine List.forall_mem_cons.mpr ⟨by decide, List.forall_mem_cons.mpr ⟨hopens, ?_⟩⟩
    intro d hd
    exact not_isLineEnd_of_isGap (List.mem_takeWhile_imp hd)
  · have hrest := List.takeWhile_append_dropWhile (p := isGap) (l := after)
    rw [Text.eq_append_of_afterPrefix? hline, ← List.append_assoc] at hrest
    rw [List.cons_append, List.cons_append, List.cons_append, List.cons_append, hrest]

/-- Where the mark stands nowhere no licence begins, unless the line goes on behind the text. -/
theorem silent_licenceAt_of_unmarked (h : ¬licenceMark <:+: cs)
    (hnext : ∀ c ∈ tail.head?, isLineEnd c = true) (before : Option Char) :
    Silent licenceAt before cs tail := by
  apply silent_of_forall_suffix
  intro last rest hrest _
  rw [Option.eq_none_iff_forall_ne_some]
  intro found hfound
  obtain ⟨front, more, hfront, hsplit⟩ := exists_of_licenceAt hfound
  have hwhole : front ++ licenceMark <+: rest := by
    cases tail with
    | nil => exact ⟨more, by simpa using hsplit.symm⟩
    | cons d tail =>
        refine (prefix_append_cons_iff ?_).mp ⟨more, hsplit.symm⟩
        intro hd
        have hline := hnext d rfl
        rcases List.mem_append.mp hd with hd | hd
        · simp [hfront d hd] at hline
        · simp [not_isLineEnd_of_mem_licenceMark hd] at hline
  have hmark : licenceMark <:+: front ++ licenceMark := (List.suffix_append _ _).isInfix
  exact h (hmark.trans (hwhole.isInfix.trans hrest.isInfix))

theorem silent_licenceAt_of_lineLast (h : ¬licenceMark <:+: cs) (hlast : LineLast cs tail)
    (before : Option Char) : Silent licenceAt before cs tail := by
  rcases hlast with rfl | hlast
  · exact silent_licenceAt_of_unmarked h (by simp) before
  · cases hcs : cs.getLast? with
    | none =>
        rw [List.getLast?_eq_none_iff.mp hcs]
        exact .nil _ _
    | some c =>
        have hline := hlast c hcs
        obtain ⟨front, rfl⟩ := List.getLast?_eq_some_iff.mp hcs
        rw [silent_append_iff]
        have hfront : ¬licenceMark <:+: front := fun hmark =>
          h (hmark.trans (List.prefix_append front [c]).isInfix)
        refine ⟨silent_licenceAt_of_unmarked hfront ?_ _,
          .cons (unblank_licenceAt _ c _ (isBlank_of_isLineEnd hline)) (.nil _ _)⟩
        rintro d ⟨⟩
        exact hline

end Marks

end ContractBench.Source
