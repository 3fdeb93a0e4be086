import ContractBench.Proofs.Source.Forms

/-! # Exactness of recognisers

What is recognised as a directive is recognised whatever follows it, with one exception: an import
without braces gives way to one in braces, which may be closed only by what follows.
-/

namespace ContractBench.Source

open Text (isBlank isWord afterPrefix?)

/-- What is read is read whatever follows it. -/
def Exact {β : Type} (read : List Char → Option (β × List Char)) : Prop :=
  ∀ cs found rest, read cs = some (found, rest) →
    ∃ raw, cs = raw ++ rest ∧ ∀ tail, read (raw ++ tail) = some (found, tail)

section Ends

variable {cs rest : List Char}

theorem exists_of_semicolon? (h : semicolon? cs = some rest) :
    ∃ gap, (∀ c ∈ gap, isBlank c = true) ∧ cs = gap ++ ';' :: rest := by
  unfold semicolon? at h
  split at h
  next more hdrop =>
    cases h
    refine ⟨cs.takeWhile isBlank, fun c hc => List.mem_takeWhile_imp hc, ?_⟩
    rw [← hdrop, List.takeWhile_append_dropWhile]
  next => cases h

theorem exists_of_blanks?_isSpace (h : blanks? cs = some rest) :
    ∃ gap, IsSpace gap ∧ cs = gap ++ rest := by
  obtain ⟨gap, hne, hgap, hcs⟩ := exists_of_blanks? h
  exact ⟨gap, ⟨hne, hgap⟩, hcs⟩

theorem exists_of_alias? (h : alias? cs = some rest) :
    ∃ gap inner name, IsSpace gap ∧ IsSpace inner ∧ name ≠ [] ∧ (∀ c ∈ name, isWord c = true) ∧
      cs = gap ++ 'a' :: 's' :: (inner ++ name) ++ rest := by
  obtain ⟨afterBlanks, hblanks, hbehindGap⟩ := Option.bind_eq_some_iff.mp h
  obtain ⟨afterAs, has, hbehindAs⟩ := Option.bind_eq_some_iff.mp hbehindGap
  obtain ⟨name, hname, hend⟩ := Option.bind_eq_some_iff.mp hbehindAs
  obtain ⟨gap, hgap, rfl⟩ := exists_of_blanks?_isSpace hblanks
  obtain ⟨inner, hinner, rfl⟩ := exists_of_blanks?_isSpace hname
  rw [Text.eq_append_of_afterPrefix? has]
  rw [List.span_eq_takeWhile_dropWhile] at hend
  have hsplit := List.takeWhile_append_dropWhile (p := isWord) (l := name)
  split at hend
  next => cases hend
  next front more hne heq =>
    cases hend
    obtain ⟨htake, hdrop⟩ := Prod.mk.inj heq
    rw [hdrop] at hsplit
    refine ⟨gap, inner, name.takeWhile isWord, hgap, hinner, ?_, ?_, ?_⟩
    · rw [htake]
      exact hne
    · exact fun c hc => List.mem_takeWhile_imp hc
    · conv_lhs => rw [← hsplit]
      simp

/-- What ends an import ends it whatever follows. -/
theorem exists_finish (h : ((alias? cs).bind semicolon? <|> semicolon? cs) = some rest) :
    ∃ finish, Finishes finish ∧ cs = finish ++ rest := by
  cases halias : (alias? cs).bind semicolon? with
  | some after =>
      rw [halias] at h
      cases h
      obtain ⟨behind, hbehind, hsemicolon⟩ := Option.bind_eq_some_iff.mp halias
      obtain ⟨gap, inner, name, hgap, hinner, hne, hname, rfl⟩ := exists_of_alias? hbehind
      obtain ⟨last, hlast, rfl⟩ := exists_of_semicolon? hsemicolon
      exact ⟨_, finishes_alias hgap hinner hne hname hlast, by simp⟩
  | none =>
      rw [halias] at h
      obtain ⟨gap, hgap, rfl⟩ := exists_of_semicolon? h
      exact ⟨_, finishes_semicolon hgap, by simp⟩

theorem exists_of_target? {path : String} (h : target? cs = some (path, rest)) :
    ∃ opening more, isQuote opening = true ∧ cs = opening :: (more ++ rest) ∧
      ∀ tail, target? (opening :: (more ++ tail)) = some (path, tail) := by
  cases cs with
  | nil => cases h
  | cons opening cs =>
      rw [target?, List.span_eq_takeWhile_dropWhile] at h
      split at h
      next hopening =>
        have hsplit := List.takeWhile_append_dropWhile (p := fun c => !isQuote c) (l := cs)
        split at h
        next => cases h
        next => cases h
        next text closing after hne heq =>
          obtain ⟨htake, hdrop⟩ := Prod.mk.inj heq
          obtain ⟨behind, hbehind, hpath⟩ := Option.map_eq_some_iff.mp h
          cases hpath
          obtain ⟨finish, hfinish, rfl⟩ := exists_finish hbehind
          have hclosing : isQuote closing = true := by
            have hhead := List.head?_dropWhile_not (fun c => !isQuote c) cs
            rw [hdrop] at hhead
            simpa using hhead
          have htext : ∀ c ∈ text, isQuote c = false := by
            intro c hc
            rw [← htake] at hc
            simpa using List.mem_takeWhile_imp hc
          rw [htake, hdrop] at hsplit
          refine ⟨opening, text ++ closing :: finish, hopening, by simp [← hsplit], fun tail => ?_⟩
          have hwhole := target?_append hopening hclosing hne htext hfinish tail
          simpa using hwhole
      next => cases h

end Ends

section Imports

theorem exact_braced? : Exact braced? := by
  intro cs path rest h
  obtain ⟨afterGap, hgap, hbehindGap⟩ := Option.bind_eq_some_iff.mp h
  obtain ⟨opened, hopened, hinside⟩ := Option.bind_eq_some_iff.mp hbehindGap
  obtain ⟨closed, hclosed, hbehind⟩ := Option.bind_eq_some_iff.mp hinside
  obtain ⟨afterNext, hnext, hbehindNext⟩ := Option.bind_eq_some_iff.mp hbehind
  obtain ⟨afterFrom, hfrom, hbehindFrom⟩ := Option.bind_eq_some_iff.mp hbehindNext
  obtain ⟨afterInner, hinner, htarget⟩ := Option.bind_eq_some_iff.mp hbehindFrom
  obtain ⟨gap, hgapSpace, rfl⟩ := exists_of_blanks?_isSpace hgap
  obtain ⟨next, hnextSpace, rfl⟩ := exists_of_blanks?_isSpace hnext
  obtain ⟨inner, hinnerSpace, rfl⟩ := exists_of_blanks?_isSpace hinner
  obtain ⟨opening, more, hopening, rfl, hwhole⟩ := exists_of_target? htarget
  have hsplit := List.takeWhile_append_dropWhile (p := (· != '\x7d')) (l := opened)
  have hsymbols : '\x7d' ∉ opened.takeWhile (· != '\x7d') := by
    intro hmem
    simpa using List.mem_takeWhile_imp hmem
  rw [Text.eq_append_of_afterPrefix? hclosed, Text.eq_append_of_afterPrefix? hfrom] at hsplit
  rw [Text.eq_append_of_afterPrefix? hopened]
  refine ⟨gap ++ '\x7b' :: (opened.takeWhile (· != '\x7d') ++ '\x7d' :: (next ++
    ("from".toList ++ (inner ++ opening :: more)))), ?_, fun tail => ?_⟩
  · conv_lhs => rw [← hsplit]
    simp
  · have hbraced := braced?_append hgapSpace hsymbols hnextSpace hinnerSpace hopening
      (more ++ tail)
    rw [hwhole tail] at hbraced
    simpa using hbraced

theorem exact_unbraced? : Exact unbraced? := by
  intro cs path rest h
  rw [unbraced?, List.span_eq_takeWhile_dropWhile] at h
  have hsplit := List.takeWhile_append_dropWhile (p := fun c => !isQuote c && c != ';') (l := cs)
  have hlead : ∀ c ∈ cs.takeWhile (fun c => !isQuote c && c != ';'),
      isQuote c = false ∧ c ≠ ';' := by
    intro c hc
    simpa using List.mem_takeWhile_imp hc
  cases htake : cs.takeWhile (fun c => !isQuote c && c != ';') with
  | nil =>
      rw [htake] at h
      cases h
  | cons c lead =>
      rw [htake] at h hlead hsplit
      by_cases hclause : (isBlank c && isClause (c :: lead)) = true
      · simp only [hclause, if_true] at h
        obtain ⟨opening, more, hopening, hrest, hwhole⟩ := exists_of_target? h
        rw [Bool.and_eq_true] at hclause
        refine ⟨c :: lead ++ opening :: more, ?_, fun tail => ?_⟩
        · rw [← hsplit, hrest]
          simp
        · have hunbraced := unbraced?_append hclause.2 ⟨c, rfl, hclause.1⟩ hlead hopening
            (more ++ tail)
          rw [hwhole tail] at hunbraced
          simpa using hunbraced
      · simp only [hclause] at h
        cases h

/-- What is imported behind the word: names in braces first, and otherwise what stands without
braces. -/
theorem importAt_eq_some_iff {before : Option Char} {cs : List Char} {found : String × List Char} :
    importAt before cs = some found ↔ before.any isWord = false ∧ ∃ behind,
      cs = "import".toList ++ behind ∧
        (braced? behind = some found ∨ braced? behind = none ∧ unbraced? behind = some found) := by
  have hfront : "import".toList = ['i', 'm', 'p', 'o', 'r', 't'] := rfl
  unfold importAt
  by_cases hword : before.any isWord = true
  · simp [hword]
  · rw [if_neg hword]
    rw [Bool.not_eq_true] at hword
    refine Option.bind_eq_some_iff.trans ⟨?_, ?_⟩
    · rintro ⟨behind, hbehind, h⟩
      refine ⟨hword, behind, Text.eq_append_of_afterPrefix? hbehind, ?_⟩
      cases hbraced : braced? behind with
      | some other =>
          rw [hbraced] at h
          exact Or.inl h
      | none =>
          rw [hbraced] at h
          exact Or.inr ⟨rfl, h⟩
    · rintro ⟨-, behind, rfl, h⟩
      refine ⟨behind, by rw [hfront, Text.afterPrefix?_append], ?_⟩
      rcases h with hbraced | ⟨hbraced, hunbraced⟩
      · rw [hbraced]
        rfl
      · rw [hbraced, hunbraced]
        rfl

/-- An import is a text in front of what follows it. -/
theorem exists_of_importAt {before : Option Char} {cs rest : List Char} {path : String}
    (h : importAt before cs = some (path, rest)) : ∃ raw, raw ≠ [] ∧ cs = raw ++ rest := by
  obtain ⟨-, behind, rfl, hbraced | ⟨-, hunbraced⟩⟩ := importAt_eq_some_iff.mp h
  · obtain ⟨raw, rfl, -⟩ := exact_braced? _ _ _ hbraced
    exact ⟨"import".toList ++ raw, by simp, by simp⟩
  · obtain ⟨raw, rfl, -⟩ := exact_unbraced? _ _ _ hunbraced
    exact ⟨"import".toList ++ raw, by simp, by simp⟩

/-- An import that ends within a text is recognised whatever follows the text, unless one in braces
is closed by what follows. -/
theorem importAt_append_cases {before : Option Char} {cs rest tail : List Char} {path : String}
    (h : importAt before (cs ++ tail) = some (path, rest ++ tail)) (other : List Char) :
    importAt before (cs ++ other) = some (path, rest ++ other) ∨
      ∃ found, importAt before (cs ++ other) = some found ∧ found.2.length < other.length := by
  obtain ⟨hword, behind, hcs, hform⟩ := importAt_eq_some_iff.mp h
  have hbehind : ∃ raw, behind = raw ++ (rest ++ tail) ∧
      ((∀ more, braced? (raw ++ more) = some (path, more)) ∨
        braced? behind = none ∧ ∀ more, unbraced? (raw ++ more) = some (path, more)) := by
    rcases hform with hbraced | ⟨hnone, hunbraced⟩
    · obtain ⟨raw, hraw, hall⟩ := exact_braced? _ _ _ hbraced
      exact ⟨raw, hraw, Or.inl hall⟩
    · obtain ⟨raw, hraw, hall⟩ := exact_unbraced? _ _ _ hunbraced
      exact ⟨raw, hraw, Or.inr ⟨hnone, hall⟩⟩
  obtain ⟨raw, rfl, hraw⟩ := hbehind
  have hsplit : cs = "import".toList ++ (raw ++ rest) := by
    have hwhole : cs ++ tail = "import".toList ++ (raw ++ rest) ++ tail := by simpa using hcs
    exact List.append_cancel_right hwhole
  have hother : cs ++ other = "import".toList ++ (raw ++ (rest ++ other)) := by simp [hsplit]
  rw [hother]
  rcases hraw with hbraced | ⟨hnone, hunbraced⟩
  · exact Or.inl (importAt_eq_some_iff.mpr ⟨hword, _, rfl, Or.inl (hbraced _)⟩)
  · cases hfound : braced? (raw ++ (rest ++ other)) with
    | none =>
        exact Or.inl (importAt_eq_some_iff.mpr ⟨hword, _, rfl, Or.inr ⟨hfound, hunbraced _⟩⟩)
    | some found =>
        refine Or.inr ⟨found, importAt_eq_some_iff.mpr ⟨hword, _, rfl, Or.inl hfound⟩, ?_⟩
        -- Braces that close within the text would have been seen before.
        by_contra hlength
        obtain ⟨inside, hinside, hall⟩ := exact_braced? _ found.1 found.2 hfound
        have hend : other <:+ raw ++ (rest ++ other) := ⟨raw ++ rest, by simp⟩
        have hsuffix : other <:+ found.2 :=
          List.suffix_of_suffix_length_le hend ⟨inside, hinside.symm⟩ (by omega)
        obtain ⟨more, hmore⟩ := hsuffix
        rw [← hmore, ← List.append_assoc, ← List.append_assoc] at hinside
        have hsame := hall (more ++ tail)
        rw [← List.append_assoc, ← List.append_cancel_right hinside, List.append_assoc,
          hnone] at hsame
        cases hsame

end Imports

end ContractBench.Source
