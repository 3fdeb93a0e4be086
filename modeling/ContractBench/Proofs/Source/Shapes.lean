import ContractBench.Proofs.Source.Scanning
import ContractBench.Proofs.Text.Trimming
import ContractBench.Source.Directive
import Mathlib.Data.List.TakeDrop
import Mathlib.Data.List.TakeWhile

/-! # Shapes of directives

What a directive looks like where it is recognised, where none can begin, and how often a text
holds the mark of a licence.
-/

namespace ContractBench.Source

open Text (isBlank afterPrefix?)

section Words

/-- At a place of a text a word does not stand with a blank behind it, whatever follows the text. -/
def clearAt : List Char → List Char → Bool
  | [], c :: _ => !isBlank c
  | w :: ws, c :: cs => w != c || clearAt ws cs
  | _, [] => false

/-- Nowhere in a text does a word stand with a blank behind it, whatever follows the text. -/
def clear (word : List Char) : List Char → Bool
  | [] => true
  | c :: cs => clearAt word (c :: cs) && clear word cs

theorem afterPrefix?_of_clearAt {word cs tail rest : List Char} (h : clearAt word cs = true)
    (hrest : afterPrefix? word (cs ++ tail) = some rest) :
    ∃ c more, rest = c :: more ∧ isBlank c = false := by
  induction word generalizing cs with
  | nil =>
      cases cs with
      | nil => cases h
      | cons c cs =>
          cases hrest
          exact ⟨c, cs ++ tail, rfl, by simpa [clearAt] using h⟩
  | cons w ws ih =>
      cases cs with
      | nil => cases h
      | cons c cs =>
          simp only [List.cons_append, afterPrefix?] at hrest
          split at hrest
          next heq => exact ih (by simpa [clearAt, heq] using h) hrest
          next => cases hrest

theorem blanks?_of_not_blank {c : Char} {cs : List Char} (h : isBlank c = false) :
    blanks? (c :: cs) = none := by
  simp [blanks?, h]

/-- Nothing is imported without a blank behind the word. -/
theorem nothing_of_not_blank {d : Char} (hd : isBlank d = false) (more : List Char) :
    (braced? (d :: more) <|> unbraced? (d :: more)) = none := by
  have hbraced : braced? (d :: more) = none := by simp [braced?, blanks?_of_not_blank hd]
  have hunbraced : unbraced? (d :: more) = none := by
    unfold unbraced?
    by_cases hquote : isQuote d ∨ d = ';'
    · rcases hquote with hquote | rfl <;>
        simp [List.span_eq_takeWhile_dropWhile, *]
    · simp only [not_or, Bool.not_eq_true] at hquote
      simp [List.span_eq_takeWhile_dropWhile, hquote.1, hquote.2, hd]
  rw [hbraced, hunbraced]
  rfl

variable {α : Type} {recognise : Recogniser α} {word : List Char}

/-- Directives of a kind begin with a word that a blank follows. -/
def Opens (recognise : Recogniser α) (word : List Char) : Prop :=
  ∀ before cs found, recognise before cs = some found →
    ∃ c rest, isBlank c = true ∧ cs = word ++ c :: rest

theorem opens_pragmaAt : Opens pragmaAt "pragma".toList := by
  intro before cs found h
  obtain ⟨rest, hrest, h⟩ := Option.bind_eq_some_iff.mp h
  obtain ⟨afterGap, hgap, -⟩ := Option.bind_eq_some_iff.mp h
  have hword : cs = "pragma".toList ++ rest := Text.eq_append_of_afterPrefix? hrest
  cases rest with
  | nil => cases hgap
  | cons c rest =>
      refine ⟨c, rest, ?_, hword⟩
      cases hc : isBlank c with
      | true => rfl
      | false => exact nomatch (blanks?_of_not_blank hc).symm.trans hgap

theorem opens_importAt : Opens importAt "import".toList := by
  intro before cs found h
  unfold importAt at h
  split at h
  next => cases h
  next =>
    obtain ⟨rest, hrest, h⟩ := Option.bind_eq_some_iff.mp h
    have hword : cs = "import".toList ++ rest := Text.eq_append_of_afterPrefix? hrest
    -- In braces or not, what is imported stands behind a blank.
    cases rest with
    | nil => cases h
    | cons c rest =>
        refine ⟨c, rest, ?_, hword⟩
        cases hc : isBlank c with
        | true => rfl
        | false => exact nomatch (nothing_of_not_blank hc rest).symm.trans h

/-- Where the word stands nowhere, no directive begins. -/
theorem silent_of_clear (hopens : Opens recognise word) {cs : List Char}
    (h : clear word cs = true) (before : Option Char) (tail : List Char) :
    Silent recognise before cs tail := by
  induction cs generalizing before with
  | nil => exact .nil _ _
  | cons c cs ih =>
      rw [clear, Bool.and_eq_true] at h
      refine .cons ?_ (ih h.2 _)
      rw [Option.eq_none_iff_forall_ne_some]
      intro found hfound
      obtain ⟨d, rest, hd, hsplit⟩ := hopens before _ found hfound
      have hafter : afterPrefix? word ((c :: cs) ++ tail) = some (d :: rest) := by
        rw [List.cons_append, hsplit, Text.afterPrefix?_append]
      obtain ⟨e, more, heq, he⟩ := afterPrefix?_of_clearAt h.1 hafter
      cases heq
      simp [hd] at he

theorem silent_pragmaAt_of_clear {cs : List Char} (h : clear "pragma".toList cs = true)
    (before : Option Char) (tail : List Char) : Silent pragmaAt before cs tail :=
  silent_of_clear opens_pragmaAt h before tail

theorem silent_importAt_of_clear {cs : List Char} (h : clear "import".toList cs = true)
    (before : Option Char) (tail : List Char) : Silent importAt before cs tail :=
  silent_of_clear opens_importAt h before tail

end Words

section Pragmas

/-- A compiler pragma as it is recognised: the two words, and an expression that ends with the
semicolon. -/
def IsPragma (raw : List Char) : Prop :=
  ∃ gap w expr, gap ≠ [] ∧ (∀ c ∈ gap, isBlank c = true) ∧ isBlank w = true ∧ expr ≠ [] ∧
    ';' ∉ expr ∧
    raw = "pragma".toList ++ gap ++ "solidity".toList ++ w :: expr ++ [';']

theorem blanks?_append {gap : List Char} (hne : gap ≠ []) (hgap : ∀ c ∈ gap, isBlank c = true)
    {c : Char} (hc : isBlank c = false) (rest : List Char) :
    blanks? (gap ++ c :: rest) = some (c :: rest) := by
  obtain ⟨g, gs, rfl⟩ := List.exists_cons_of_ne_nil hne
  have hdrop : (gs ++ c :: rest).dropWhile isBlank = c :: rest := by
    rw [List.dropWhile_append_of_pos fun d hd => hgap d (List.mem_cons_of_mem _ hd)]
    simp [hc]
  simp [blanks?, hgap g List.mem_cons_self, hdrop]

theorem exists_of_blanks? {cs rest : List Char} (h : blanks? cs = some rest) :
    ∃ gap, gap ≠ [] ∧ (∀ c ∈ gap, isBlank c = true) ∧ cs = gap ++ rest := by
  cases cs with
  | nil => cases h
  | cons c cs =>
      simp only [blanks?] at h
      split at h
      next hc =>
        cases h
        refine ⟨c :: cs.takeWhile isBlank, nofun, ?_, by simp⟩
        exact List.forall_mem_cons.mpr ⟨hc, fun d hd => List.mem_takeWhile_imp hd⟩
      next => cases h

/-- What is recognised as a pragma is one. -/
theorem exists_of_pragmaAt {before : Option Char} {cs rest : List Char}
    (h : pragmaAt before cs = some ((), rest)) : ∃ raw, IsPragma raw ∧ cs = raw ++ rest := by
  obtain ⟨afterPragma, hpragma, h⟩ := Option.bind_eq_some_iff.mp h
  obtain ⟨afterGap, hgap, h⟩ := Option.bind_eq_some_iff.mp h
  obtain ⟨afterName, hname, h⟩ := Option.bind_eq_some_iff.mp h
  rw [List.span_eq_takeWhile_dropWhile] at h
  split at h
  next w d ds e after hspan =>
    split at h
    next hblank =>
      cases h
      obtain ⟨gap, hne, hgapBlank, rfl⟩ := exists_of_blanks? hgap
      obtain ⟨htake, hdrop⟩ := Prod.mk.inj hspan
      have hbody : afterName = (w :: d :: ds) ++ e :: rest := by
        rw [← htake, ← hdrop, List.takeWhile_append_dropWhile]
      have hsemicolon : e = ';' := by
        have := List.head?_dropWhile_not (· != ';') afterName
        rw [hdrop] at this
        simpa using this
      have hnone : ';' ∉ d :: ds := by
        intro hmem
        have := List.mem_takeWhile_imp (htake ▸ List.mem_cons_of_mem w hmem)
        simp at this
      refine ⟨_, ⟨gap, w, d :: ds, hne, hgapBlank, hblank, nofun, hnone, rfl⟩, ?_⟩
      rw [Text.eq_append_of_afterPrefix? hpragma, Text.eq_append_of_afterPrefix? hname, hbody,
        hsemicolon]
      simp
    next => cases h
  next => cases h

/-- A pragma is recognised whatever follows it. -/
theorem IsPragma.pragmaAt_append {raw : List Char} (h : IsPragma raw) (before : Option Char)
    (rest : List Char) : pragmaAt before (raw ++ rest) = some ((), rest) := by
  obtain ⟨gap, w, expr, hne, hgap, hw, hexpr, hnone, rfl⟩ := h
  obtain ⟨d, ds, rfl⟩ := List.exists_cons_of_ne_nil hexpr
  have hstop : w ≠ ';' := by
    rintro rfl
    cases hw
  have hspan : ((w :: d :: ds) ++ ';' :: rest).span (· != ';') = (w :: d :: ds, ';' :: rest) := by
    have hall : ∀ c ∈ w :: d :: ds, (c != ';') = true := by
      intro c hc
      rcases List.mem_cons.mp hc with rfl | hc
      · simpa using hstop
      · have : c ≠ ';' := fun heq => hnone (heq ▸ hc)
        simpa using this
    exact Text.span_append hall (by simp)
  have hbody : ("pragma".toList ++ gap ++ "solidity".toList ++ w :: d :: ds ++ [';']) ++ rest =
      "pragma".toList ++ (gap ++ 's' :: ("olidity".toList ++ ((w :: d :: ds) ++ ';' :: rest))) := by
    simp
  rw [hbody]
  have hs : isBlank 's' = false := by decide
  simp only [pragmaAt, show "pragma".toList = ['p', 'r', 'a', 'g', 'm', 'a'] from rfl,
    Text.afterPrefix?_append, Option.bind_eq_bind, Option.bind_some, blanks?_append hne hgap hs]
  have hname : 's' :: ("olidity".toList ++ ((w :: d :: ds) ++ ';' :: rest)) =
      ['s', 'o', 'l', 'i', 'd', 'i', 't', 'y'] ++ ((w :: d :: ds) ++ ';' :: rest) := by simp
  rw [hname, Text.afterPrefix?_append, Option.bind_some, hspan]
  simp [hw]

theorem IsPragma.ne_nil {raw : List Char} (h : IsPragma raw) : raw ≠ [] := by
  obtain ⟨gap, w, expr, -, -, -, -, -, rfl⟩ := h
  simp

/-- The pragma of a source is a directive in it, or the default. -/
theorem pragmaOf_cases (source : String) :
    (∃ raw, .directive () raw ∈ scan pragmaAt source.toList ∧
      pragmaOf source = String.ofList raw) ∨ pragmaOf source = defaultPragma := by
  unfold pragmaOf
  split
  next raw hraw =>
    obtain ⟨piece, hmem, hpiece⟩ := List.exists_of_findSome?_eq_some hraw
    cases piece with
    | character c => cases hpiece
    | directive said found =>
        cases hpiece
        exact Or.inl ⟨raw, hmem, rfl⟩
  next => exact Or.inr rfl

/-- The pragma of a source is one. -/
theorem isPragma_pragmaOf (source : String) : IsPragma (pragmaOf source).toList := by
  obtain ⟨raw, hmem, hraw⟩ | hdefault := pragmaOf_cases source
  · obtain ⟨before, text, rest, hfound, hlength⟩ := exists_of_mem_scan hmem
    obtain ⟨whole, hwhole, rfl⟩ := exists_of_pragmaAt hfound
    rw [hraw, String.toList_ofList, hlength]
    simpa using hwhole
  · rw [hdefault]
    exact ⟨[' '], ' ', "^0.8.0".toList, by decide, by decide, by decide, by decide, by decide,
      by decide⟩

end Pragmas

section Licences

theorem not_isLineEnd_of_blockEnd? {cs name rest : List Char}
    (h : blockEnd? cs = some (name, rest)) : ∀ c ∈ name, isLineEnd c = false := by
  fun_induction blockEnd? cs generalizing name with
  | case1 => cases h; simp
  | case2 => cases h
  | case3 c cs _ hend ih =>
      obtain ⟨⟨text, after⟩, hfound, heq⟩ := Option.map_eq_some_iff.mp h
      cases heq
      exact List.forall_mem_cons.mpr ⟨by simpa using hend, ih hfound⟩
  | case4 => cases h

/-- A licence stands in a comment, behind its mark. Its name takes the rest of the line, or what
the comment has left. -/
theorem exists_line_of_licenceAt {before : Option Char} {cs name rest : List Char}
    (h : licenceAt before cs = some (name, rest)) :
    ∃ opening after line, cs = '/' :: opening :: after ∧
      afterPrefix? licenceMark (after.dropWhile isGap) = some line ∧
      (opening = '/' ∧ name = Text.trim (line.takeWhile fun c => !isLineEnd c) ∨
        opening = '*' ∧ ∃ text, blockEnd? line = some (text, rest) ∧ name = Text.trim text) := by
  unfold licenceAt at h
  split at h
  next after =>
    obtain ⟨line, hline, h⟩ := Option.bind_eq_some_iff.mp h
    rw [List.span_eq_takeWhile_dropWhile] at h
    split at h
    next => cases h
    next text more _ hspan =>
      cases h
      obtain ⟨rfl, -⟩ := Prod.mk.inj hspan
      exact ⟨'/', after, line, rfl, hline, Or.inl ⟨rfl, rfl⟩⟩
  next after =>
    obtain ⟨line, hline, h⟩ := Option.bind_eq_some_iff.mp h
    obtain ⟨⟨text, more⟩, hend, h⟩ := Option.bind_eq_some_iff.mp h
    cases h
    exact ⟨'*', after, line, rfl, hline, Or.inr ⟨rfl, text, hend, rfl⟩⟩
  next => cases h

/-- The name of a licence lies in one line. -/
theorem not_isLineEnd_of_licenceAt {before : Option Char} {cs name rest : List Char}
    (h : licenceAt before cs = some (name, rest)) : ∀ c ∈ name, isLineEnd c = false := by
  obtain ⟨opening, after, line, -, -, ⟨-, rfl⟩ | ⟨-, text, hend, rfl⟩⟩ := exists_line_of_licenceAt h
  · intro c hc
    simpa using List.mem_takeWhile_imp (Text.mem_of_mem_trim hc)
  · exact fun c hc => not_isLineEnd_of_blockEnd? hend c (Text.mem_of_mem_trim hc)

theorem not_isLineEnd_of_licenceOf (source : String) :
    ∀ c ∈ (licenceOf source).toList, isLineEnd c = false := by
  unfold licenceOf
  split
  next name hname =>
    have hmem : name ∈ meanings licenceAt source.toList := List.mem_of_head? hname
    obtain ⟨piece, hpiece, hmeaning⟩ := List.mem_filterMap.mp hmem
    cases piece with
    | character c => cases hmeaning
    | directive said raw =>
        cases hmeaning
        obtain ⟨before, text, rest, hfound, -⟩ := exists_of_mem_scan hpiece
        simpa using not_isLineEnd_of_licenceAt hfound
  next => decide

end Licences

section Comments

/-- Nowhere in a text does a comment open with what could be the mark of a licence, whatever
follows the text. -/
def unlicensed : List Char → Bool
  | [] => true
  | ['/'] => false
  | '/' :: d :: rest =>
      (d != '/' && d != '*' || (rest.dropWhile isGap).head?.any (· != 'S')) &&
        unlicensed (d :: rest)
  | _ :: rest => unlicensed rest

theorem silent_licenceAt_of_unlicensed {cs : List Char} (h : unlicensed cs = true)
    (before : Option Char) (tail : List Char) : Silent licenceAt before cs tail := by
  -- What stands first in a comment decides, and the text itself tells it, whatever follows.
  have hcomment : ∀ {rest : List Char}, (rest.dropWhile isGap).head?.any (· != 'S') = true →
      afterPrefix? licenceMark ((rest ++ tail).dropWhile isGap) = none := by
    intro rest hrest
    cases hdrop : rest.dropWhile isGap with
    | nil => simp [hdrop] at hrest
    | cons e es =>
        have hfront : (rest ++ tail).dropWhile isGap = e :: (es ++ tail) := by
          rw [List.dropWhile_append, hdrop]
          rfl
        have hne : 'S' ≠ e := by
          rintro rfl
          simp [hdrop] at hrest
        rw [hfront, show licenceMark = 'S' :: licenceMark.tail from rfl, afterPrefix?, if_neg hne]
  fun_induction unlicensed cs generalizing before with
  | case1 => exact .nil _ _
  | case2 => cases h
  | case3 d rest ih =>
      rw [Bool.and_eq_true] at h
      refine .cons (Option.eq_none_iff_forall_ne_some.mpr fun found hfound => ?_) (ih h.2 _)
      obtain ⟨opening, after, line, heq, hline, hopening⟩ := exists_line_of_licenceAt hfound
      cases heq
      have hopens : d = '/' ∨ d = '*' := hopening.imp And.left And.left
      have hgap : (rest.dropWhile isGap).head?.any (· != 'S') = true := by
        rcases hopens with rfl | rfl <;> simpa using h.1
      cases (hcomment hgap).symm.trans hline
  | case4 c rest hone htwo ih =>
      refine .cons (Option.eq_none_iff_forall_ne_some.mpr fun found hfound => ?_) (ih h _)
      obtain ⟨opening, after, line, heq, -⟩ := exists_line_of_licenceAt hfound
      obtain rfl : c = '/' := (List.cons.inj heq).1
      cases rest with
      | nil => exact hone rfl rfl
      | cons d more => exact htwo d more rfl rfl

end Comments

section Marks

/-- How often the mark of a licence occurs in a text. -/
def marks : List Char → Nat
  | [] => 0
  | c :: cs => (if licenceMark.isPrefixOf (c :: cs) then 1 else 0) + marks cs

theorem prefix_append_cons_iff {α : Type} {part xs ys : List α} {c : α} (hc : c ∉ part) :
    part <+: xs ++ c :: ys ↔ part <+: xs := by
  refine ⟨fun h => ?_, fun h => h.trans (List.prefix_append _ _)⟩
  obtain hpart | ⟨more, hmore⟩ :=
    List.prefix_or_prefix_of_prefix h (List.prefix_append xs (c :: ys))
  · exact hpart
  · subst hmore
    rw [List.prefix_append_right_inj] at h
    cases more with
    | nil => simp
    | cons d ds =>
        rw [List.cons_prefix_cons] at h
        exact absurd (by simp [h.1]) hc

/-- A character that is not in the mark keeps it apart. -/
theorem marks_append_cons {c : Char} (hc : c ∉ licenceMark) (xs ys : List Char) :
    marks (xs ++ c :: ys) = marks xs + marks ys := by
  induction xs with
  | nil =>
      have hnot : licenceMark.isPrefixOf (c :: ys) = false := by
        rw [Bool.eq_false_iff, ne_eq, List.isPrefixOf_iff_prefix]
        rintro ⟨rest, hrest⟩
        cases hrest
        exact hc (by decide)
      simp [marks, hnot]
  | cons x xs ih =>
      have hsame : licenceMark.isPrefixOf (x :: (xs ++ c :: ys)) =
          licenceMark.isPrefixOf (x :: xs) := by
        rw [Bool.eq_iff_iff, List.isPrefixOf_iff_prefix, List.isPrefixOf_iff_prefix]
        exact @prefix_append_cons_iff _ _ (x :: xs) _ _ hc
      rw [List.cons_append, marks, marks, hsame, ih]
      omega

theorem notMem_licenceMark_of_isBlank {c : Char} (h : isBlank c = true) : c ∉ licenceMark := by
  have hall : ∀ d ∈ licenceMark, isBlank d = false := by decide
  intro hmem
  simp [hall c hmem] at h

end Marks

end ContractBench.Source
