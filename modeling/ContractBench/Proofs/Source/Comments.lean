import ContractBench.Proofs.Source.Declarations
import ContractBench.Proofs.Source.Exactness
import ContractBench.Proofs.Source.ImportForms
import ContractBench.Proofs.Source.Rows

/-! # Comments in sources

A scan knows nothing of comments: a directive may begin in one, run into one, or run across one. It
does not depend on a comment at the end of a line that no directive of the source touches, nor on
one within the braces or within the clause of an import.
-/

namespace ContractBench.Source

open Text (isBlank isWord)

section Places

variable {α : Type} {recognise : Recogniser α}

/-- A directive at its place: what stands in front of it, what it says, and its text. -/
structure Located (α : Type) where
  front : List Char
  said : α
  raw : List Char

namespace Located

/-- A directive at its place, where more stands in front of it. -/
def behind (cs : List Char) (l : Located α) : Located α := { l with front := cs ++ l.front }

/-- A directive lies in front of a part of a text, or behind it. -/
def Beside (front part : List Char) (l : Located α) : Prop :=
  l.front ++ l.raw <+: front ∨ front ++ part <+: l.front

instance (front part : List Char) (l : Located α) : Decidable (l.Beside front part) :=
  inferInstanceAs (Decidable (_ ∨ _))

theorem beside_behind_iff {cs front part : List Char} {l : Located α} :
    (l.behind cs).Beside (cs ++ front) part ↔ l.Beside front part := by
  simp only [Beside, behind, List.append_assoc, List.prefix_append_right_inj]

end Located

/-- The directives among pieces, each at its place. -/
def located : List (Piece α) → List (Located α)
  | [] => []
  | .character c :: rest => (located rest).map (Located.behind [c])
  | .directive said raw :: rest => ⟨[], said, raw⟩ :: (located rest).map (Located.behind raw)

/-- What is recognised is a text in front of what follows it. -/
def Proper (recognise : Recogniser α) : Prop :=
  ∀ before cs said rest, recognise before cs = some (said, rest) →
    ∃ raw, raw ≠ [] ∧ cs = raw ++ rest

theorem proper_importAt : Proper importAt := fun _ _ _ _ h => exists_of_importAt h

theorem proper_pragmaAt : Proper pragmaAt := by
  intro before cs said rest h
  obtain ⟨raw, hraw, hcs⟩ := exists_of_pragmaAt h
  exact ⟨raw, hraw.ne_nil, hcs⟩

theorem scanFrom_cons_of_none {before : Option Char} {c : Char} {cs : List Char}
    (h : recognise before (c :: cs) = none) :
    scanFrom recognise before 0 (c :: cs) = .character c :: scanFrom recognise (some c) 0 cs := by
  rw [scanFrom, h]

theorem lastOf_of_ne_nil {cs : List Char} (h : cs ≠ []) (before other : Option Char) :
    lastOf before cs = lastOf other cs := by
  obtain ⟨c, cs, rfl⟩ := List.exists_cons_of_ne_nil h
  rw [lastOf_cons, lastOf_cons]

/-- Where the first directive does not begin within a text, none does. -/
theorem silent_of_beside (hproper : Proper recognise) {before : Option Char} {cs tail : List Char}
    (h : ∀ l ∈ (located (scanFrom recognise before 0 (cs ++ tail))).head?, l.Beside [] cs) :
    Silent recognise before cs tail := by
  induction cs generalizing before with
  | nil => exact .nil _ _
  | cons c cs ih =>
      cases hfound : recognise before (c :: (cs ++ tail)) with
      | some found =>
          obtain ⟨raw, hne, hsplit⟩ := hproper _ _ _ _ hfound
          rw [List.cons_append, hsplit] at h
          rw [hsplit] at hfound
          rw [scanFrom_of_recognised hne hfound] at h
          rcases h _ rfl with hfront | hbehind
          · exact absurd (List.prefix_nil.mp hfront) hne
          · cases List.prefix_nil.mp hbehind
      | none =>
          refine .cons hfound (ih fun l hl => ?_)
          rw [List.cons_append, scanFrom_cons_of_none hfound, located, List.head?_map] at h
          rcases h (l.behind [c]) (by simp [Option.mem_def.mp hl]) with hfront | hbehind
          · cases List.prefix_nil.mp hfront
          · exact Or.inr (List.cons_prefix_cons.mp hbehind).2

/-- A scan that begins where a line ends does not depend on what stands in front. -/
theorem scanFrom_of_lineNext (hunblank : Unblank recognise) {cs : List Char} (h : LineNext cs)
    (before other : Option Char) :
    scanFrom recognise before 0 cs = scanFrom recognise other 0 cs := by
  cases cs with
  | nil => rfl
  | cons c cs =>
      have hblank := isBlank_of_isLineEnd (h c rfl)
      rw [scanFrom_cons_of_none (hunblank before c cs hblank),
        scanFrom_cons_of_none (hunblank other c cs hblank)]

end Places

section Imports

variable {before : Option Char} {a b c gap symbols : List Char}

/-- An import that is open where a part of a text stands, and that is closed behind the part: one of
names in braces, which the part does not close, or one without braces, in whose clause the part
stands in front of the word `from`. -/
inductive Located.Around (a part b : List Char) (l : Located String) : Prop
  | braces {gap symbols : List Char}
      (hfront : a = l.front ++ ("import".toList ++ (gap ++ '\x7b' :: symbols)))
      (hgap : IsSpace gap) (hsymbols : '\x7d' ∉ symbols) (hpart : '\x7d' ∉ part)
      (hclosed : (braced? (gap ++ '\x7b' :: (symbols ++ b))).isSome = true)
  | clause {clause more gap inner rest : List Char}
      (hfront : a = l.front ++ ("import".toList ++ clause))
      (hbehind : b = more ++ (gap ++ ("from".toList ++ (inner ++ rest))))
      (hopens : ∃ d ∈ clause.head?, isBlank d = true) (hgap : IsSpace gap) (hinner : IsSpace inner)
      (hplain : ∀ d ∈ clause ++ (part ++ more), isQuote d = false ∧ d ≠ ';')
      (hunbraced : ∀ mid ∈ [part, []], ∀ d ∈ ((clause ++ (mid ++ b)).dropWhile isBlank).head?,
        d ≠ '\x7b')
      (hpath : (target? rest).isSome = true)

/-- With a part in the middle of a text and without it, every import lies on one side of the part or
is open around it. -/
def ImportsAside (before : Option Char) (a c b : List Char) : Prop :=
  ∀ mid ∈ [c, []], ∀ l ∈ located (scanFrom importAt before 0 (a ++ (mid ++ b))),
    l.Beside a mid ∨ l.Around a c b

theorem dropWhile_unclosed (hsymbols : '\x7d' ∉ symbols) (rest : List Char) :
    (symbols ++ rest).dropWhile (· != '\x7d') = rest.dropWhile (· != '\x7d') := by
  refine List.dropWhile_append_of_pos fun c hc => ?_
  have hne : c ≠ '\x7d' := by
    rintro rfl
    exact hsymbols hc
  simpa using hne

/-- A text that does not close the braces makes no difference in them. -/
theorem braced?_pass (hgap : IsSpace gap) (hsymbols : '\x7d' ∉ symbols) (hc : '\x7d' ∉ c) :
    braced? (gap ++ '\x7b' :: (symbols ++ (c ++ b))) =
      braced? (gap ++ '\x7b' :: (symbols ++ b)) := by
  have hopening : isBlank '\x7b' = false := by decide
  simp only [braced?, hgap.blanks?_append hopening, Text.afterPrefix?, Option.bind_eq_bind,
    Option.bind_some, if_true, dropWhile_unclosed hsymbols, dropWhile_unclosed hc]

/-- Open braces are closed by what follows. -/
theorem length_lt_of_braced? {found : String × List Char} (hgap : IsSpace gap)
    (hsymbols : '\x7d' ∉ symbols)
    (h : braced? (gap ++ '\x7b' :: (symbols ++ b)) = some found) : found.2.length < b.length := by
  by_contra hlength
  obtain ⟨raw, hraw, hall⟩ := exact_braced? _ found.1 found.2 h
  have hend : b <:+ gap ++ '\x7b' :: (symbols ++ b) := ⟨gap ++ '\x7b' :: symbols, by simp⟩
  obtain ⟨more, hmore⟩ :=
    List.suffix_of_suffix_length_le hend ⟨raw, hraw.symm⟩ (Nat.le_of_not_lt hlength)
  have hopen : gap ++ '\x7b' :: symbols = raw ++ more := by
    have hwhole : gap ++ '\x7b' :: symbols ++ b = raw ++ more ++ b := by
      rw [List.append_assoc, List.append_assoc, hmore, List.cons_append, hraw]
    exact List.append_cancel_right hwhole
  have hnone : braced? (gap ++ '\x7b' :: symbols) = none := by
    have hopening : isBlank '\x7b' = false := by decide
    have hdrop := dropWhile_unclosed hsymbols []
    rw [List.append_nil] at hdrop
    simp [braced?, hgap.blanks?_append hopening, Text.afterPrefix?, hdrop]
  rw [hopen, hall] at hnone
  cases hnone

/-- The same import is found at one place with a part of the text behind it and without it, and it
ends behind the part. -/
structure Across (before : Option Char) (a c b rest : List Char) (path : String) : Prop where
  ends : ∃ closing, closing ≠ [] ∧ b = closing ++ rest
  whole : importAt before (a ++ (c ++ b)) = some (path, rest)
  left : importAt before (a ++ b) = some (path, rest)

/-- What a scan for imports can do at one place of the front: nothing, with the part and without it,
the same within the front, or the same across the part. -/
inductive FoundAlike (before : Option Char) (a c b : List Char) : Prop
  | nothing (whole : importAt before (a ++ (c ++ b)) = none)
      (left : importAt before (a ++ b) = none)
  | within {raw rest : List Char} {path : String} (ne : raw ≠ []) (split : a = raw ++ rest)
      (whole : importAt before (a ++ (c ++ b)) = some (path, rest ++ (c ++ b)))
      (left : importAt before (a ++ b) = some (path, rest ++ b))
  | across {rest : List Char} {path : String} (found : Across before a c b rest path)

/-- Where braces stay open, the same import is found with the part and without it. -/
theorem across_of_open {found : String × List Char} (hword : before.any isWord = false)
    (hgap : IsSpace gap) (hsymbols : '\x7d' ∉ symbols) (hc : '\x7d' ∉ c)
    (h : braced? (gap ++ '\x7b' :: (symbols ++ b)) = some found) :
    Across before ("import".toList ++ (gap ++ '\x7b' :: symbols)) c b found.2 found.1 := by
  have hlength := length_lt_of_braced? hgap hsymbols h
  obtain ⟨raw, hraw, -⟩ := exact_braced? _ found.1 found.2 h
  have hend : b <:+ gap ++ '\x7b' :: (symbols ++ b) := ⟨gap ++ '\x7b' :: symbols, by simp⟩
  obtain ⟨closing, hclosing⟩ :=
    List.suffix_of_suffix_length_le ⟨raw, hraw.symm⟩ hend (Nat.le_of_lt hlength)
  have hpass := (braced?_pass hgap hsymbols hc).trans h
  refine ⟨⟨closing, ?_, hclosing.symm⟩, ?_, ?_⟩
  · rintro rfl
    rw [List.nil_append] at hclosing
    simp [hclosing] at hlength
  · exact importAt_eq_some_iff.mpr ⟨hword, _, by simp, Or.inl hpass⟩
  · exact importAt_eq_some_iff.mpr ⟨hword, _, by simp, Or.inl h⟩

/-- An import is one without braces if none opens behind the blanks. -/
theorem braced?_of_unopened {cs : List Char}
    (h : ∀ d ∈ (cs.dropWhile isBlank).head?, d ≠ '\x7b') : braced? cs = none := by
  unfold braced? blanks?
  split
  next c cs =>
    split
    next hblank =>
      rw [List.dropWhile_cons_of_pos hblank] at h
      cases hrest : cs.dropWhile isBlank with
      | nil => rfl
      | cons d ds =>
          have hd : '\x7b' ≠ d := (h d (by simp [hrest])).symm
          simp [Text.afterPrefix?, hd]
    next => rfl
  next => rfl

/-- Where a clause stays open, the same import is found with the part and without it. -/
theorem across_of_clause {clause more gap inner rest : List Char} {found : String × List Char}
    (hword : before.any isWord = false)
    (hb : b = more ++ (gap ++ ("from".toList ++ (inner ++ rest))))
    (hopens : ∃ d ∈ clause.head?, isBlank d = true) (hgap : IsSpace gap) (hinner : IsSpace inner)
    (hplain : ∀ d ∈ clause ++ (c ++ more), isQuote d = false ∧ d ≠ ';')
    (hunbraced : ∀ mid ∈ [c, []], ∀ d ∈ ((clause ++ (mid ++ b)).dropWhile isBlank).head?,
      d ≠ '\x7b')
    (htarget : target? rest = some found) :
    Across before ("import".toList ++ clause) c b found.2 found.1 := by
  obtain ⟨opening, path, hopening, rfl, -⟩ := exists_of_target? htarget
  obtain ⟨d, hd, hblank⟩ := hopens
  have hfound : ∀ mid ∈ [c, []],
      importAt before ("import".toList ++ clause ++ (mid ++ b)) = some found := by
    intro mid hmid
    have hmore : ∀ e ∈ clause ++ (mid ++ more), isQuote e = false ∧ e ≠ ';' := by
      intro e he
      refine hplain e ?_
      rcases List.mem_cons.mp hmid with rfl | hnil
      · exact he
      · rw [List.mem_singleton.mp hnil] at he
        simp only [List.mem_append, List.nil_append] at he ⊢
        tauto
    have hlead : ∀ e ∈ clause ++ (mid ++ more) ++ (gap ++ ("from".toList ++ inner)),
        isQuote e = false ∧ e ≠ ';' := by
      have hfrom : ∀ e ∈ "from".toList, isQuote e = false ∧ e ≠ ';' := by decide
      have hspace {cs : List Char} (hcs : IsSpace cs) : ∀ e ∈ cs, isQuote e = false ∧ e ≠ ';' :=
        fun e he => isQuote_of_isLoose (by simp [isLoose, hcs.2 e he])
      simp only [List.forall_mem_append] at hmore ⊢
      exact ⟨hmore, hspace hgap, hfrom, hspace hinner⟩
    have hne : clause ++ (mid ++ more) ≠ [] := by
      rintro hnil
      rw [(List.append_eq_nil_iff.mp hnil).1] at hd
      cases hd
    have hfirst : ∃ e ∈ (clause ++ (mid ++ more) ++
        (gap ++ ("from".toList ++ inner))).head?, isBlank e = true := by
      obtain ⟨e, es, rfl⟩ := List.exists_cons_of_ne_nil (List.ne_nil_of_mem
        (List.mem_of_mem_head? hd))
      exact ⟨d, hd, hblank⟩
    have hpassed := unbraced?_append (isClause_from hne hgap hinner) hfirst hlead hopening
      (path ++ found.2)
    refine importAt_eq_some_iff.mpr ⟨hword, clause ++ (mid ++ b), by simp, Or.inr ⟨?_, ?_⟩⟩
    · exact braced?_of_unopened (hunbraced mid hmid)
    · rw [← htarget, ← hpassed, hb]
      simp
  refine ⟨⟨more ++ (gap ++ ("from".toList ++ (inner ++ opening :: path))), by simp, ?_⟩,
    hfound c List.mem_cons_self, by simpa using hfound [] (by simp)⟩
  rw [hb]
  simp

namespace ImportsAside

variable {rest : List Char} {path : String}

/-- An import that begins in the front lies within it, or it is found across the part. -/
theorem within_or_across (h : ImportsAside before a c b) (ha : a ≠ []) (mid : List Char)
    (hmid : mid ∈ [c, []])
    (hfound : importAt before (a ++ (mid ++ b)) = some (path, rest)) :
    (∃ raw behind, raw ≠ [] ∧ a = raw ++ behind ∧ rest = behind ++ (mid ++ b)) ∨
      ∃ rest path, Across before a c b rest path := by
  obtain ⟨raw, hne, hsplit⟩ := exists_of_importAt hfound
  have hscan := hfound
  rw [hsplit] at hscan
  have hall := h mid hmid
  rw [hsplit, scanFrom_of_recognised hne hscan, located] at hall
  rcases hall _ List.mem_cons_self with (⟨behind, hfront⟩ | hfront) | haround
  · refine Or.inl ⟨raw, behind, hne, hfront.symm, ?_⟩
    rw [← hfront, List.nil_append, List.append_assoc] at hsplit
    exact (List.append_cancel_left hsplit).symm
  · have hnil := List.prefix_nil.mp hfront
    exact absurd (List.append_eq_nil_iff.mp hnil).1 ha
  · have hword := (importAt_eq_some_iff.mp hfound).1
    cases haround with
    | @braces gap symbols hfront hgap hsymbols hc hclosed =>
        obtain rfl : a = "import".toList ++ (gap ++ '\x7b' :: symbols) := hfront
        obtain ⟨found, hbraced⟩ := Option.isSome_iff_exists.mp hclosed
        exact Or.inr ⟨_, _, across_of_open hword hgap hsymbols hc hbraced⟩
    | @clause clause more gap inner rest hfront hb hopens hgap hinner hplain hunbraced hpath =>
        obtain rfl : a = "import".toList ++ clause := hfront
        obtain ⟨found, htarget⟩ := Option.isSome_iff_exists.mp hpath
        exact Or.inr ⟨_, _, across_of_clause hword hb hopens hgap hinner hplain hunbraced htarget⟩

/-- An import that is found with the part is found without it. -/
theorem foundAlike_of_whole (h : ImportsAside before a c b) (ha : a ≠ [])
    (hwhole : importAt before (a ++ (c ++ b)) = some (path, rest)) :
    FoundAlike before a c b := by
  rcases h.within_or_across ha c List.mem_cons_self hwhole with
    ⟨raw, behind, hne, hsplit, rfl⟩ | ⟨_, _, hacross⟩
  · rcases importAt_append_cases hwhole b with hsame | ⟨other, hother, hlength⟩
    · exact .within hne hsplit hwhole hsame
    · -- Without the part the import would go on into the text behind it.
      rcases h.within_or_across ha [] (by simp) hother with
        ⟨_, front, -, -, hfront⟩ | ⟨_, _, hacross⟩
      · rw [hfront, List.nil_append, List.length_append] at hlength
        omega
      · exact .across hacross
  · exact .across hacross

/-- Where no import is found with the part, none is found without it. -/
theorem importAt_eq_none (h : ImportsAside before a c b) (ha : a ≠ [])
    (hwhole : importAt before (a ++ (c ++ b)) = none) : importAt before (a ++ b) = none := by
  cases hleft : importAt before (a ++ b) with
  | none => rfl
  | some found =>
      exfalso
      rcases h.within_or_across ha [] (by simp) hleft with
        ⟨_, behind, -, -, hbehind⟩ | ⟨_, _, hacross⟩
      · have hwithin : importAt before (a ++ b) = some (found.1, behind ++ b) := by
          rw [hleft, ← List.nil_append b, ← hbehind]
        rcases importAt_append_cases hwithin (c ++ b) with hsame | ⟨other, hother, -⟩
        · cases hwhole.symm.trans hsame
        · cases hwhole.symm.trans hother
      · cases hwhole.symm.trans hacross.whole

theorem foundAlike (h : ImportsAside before a c b) (ha : a ≠ []) : FoundAlike before a c b := by
  cases hwhole : importAt before (a ++ (c ++ b)) with
  | none => exact .nothing hwhole (h.importAt_eq_none ha hwhole)
  | some found => exact h.foundAlike_of_whole ha hwhole

end ImportsAside

/-- What is aside stays aside behind a text that the scan passes. -/
theorem ImportsAside.rest {raw : List Char} (h : ImportsAside before (raw ++ a) c b)
    {next : Option Char} (hmore : ∀ mid ∈ [c, []],
      ∀ l ∈ located (scanFrom importAt next 0 (a ++ (mid ++ b))),
        l.behind raw ∈ located (scanFrom importAt before 0 (raw ++ (a ++ (mid ++ b))))) :
    ImportsAside next a c b := by
  intro mid hmid l hl
  have hscan := hmore mid hmid l hl
  rw [← List.append_assoc] at hscan
  have hcut {text : List Char} (hfront : raw ++ a = (l.behind raw).front ++ text) :
      a = l.front ++ text := by
    rw [Located.behind, List.append_assoc] at hfront
    exact List.append_cancel_left hfront
  rcases h mid hmid _ hscan with hbeside | haround
  · exact Or.inl (Located.beside_behind_iff.mp hbeside)
  · cases haround with
    | braces hfront hgap hsymbols hc hclosed =>
        exact Or.inr (.braces (hcut hfront) hgap hsymbols hc hclosed)
    | clause hfront hb hopens hgap hinner hplain hunbraced hpath =>
        exact Or.inr (.clause (hcut hfront) hb hopens hgap hinner hplain hunbraced hpath)

theorem ImportsAside.behind_character {d : Char} (h : ImportsAside before (d :: a) c b)
    (hnone : ∀ mid ∈ [c, []], importAt before (d :: (a ++ (mid ++ b))) = none) :
    ImportsAside (some d) a c b := by
  rw [← List.singleton_append] at h
  apply h.rest
  intro mid hmid l hl
  rw [List.singleton_append, scanFrom_cons_of_none (hnone mid hmid), located]
  exact List.mem_map_of_mem hl

theorem ImportsAside.behind_import {raw : List Char} {path : String} (hne : raw ≠ [])
    (h : ImportsAside before (raw ++ a) c b)
    (hfound : ∀ mid ∈ [c, []],
      importAt before (raw ++ (a ++ (mid ++ b))) = some (path, a ++ (mid ++ b))) :
    ImportsAside (lastOf before raw) a c b := by
  apply h.rest
  intro mid hmid l hl
  rw [scanFrom_of_recognised hne (hfound mid hmid), located]
  exact List.mem_cons_of_mem _ (List.mem_map_of_mem hl)

/-- What a scan finds from an import across the part on does not depend on the part. -/
theorem Across.meanings_eq {rest : List Char} {path : String} (h : Across before a c b rest path) :
    (scanFrom importAt before 0 (a ++ (c ++ b))).filterMap Piece.meaning? =
      (scanFrom importAt before 0 (a ++ b)).filterMap Piece.meaning? := by
  obtain ⟨closing, hne, rfl⟩ := h.ends
  have hwhole := h.whole
  have hleft := h.left
  have hlong : a ++ (c ++ (closing ++ rest)) = a ++ (c ++ closing) ++ rest := by simp
  have hshort : a ++ (closing ++ rest) = a ++ closing ++ rest := by simp
  rw [hlong] at hwhole ⊢
  rw [hshort] at hleft ⊢
  rw [scanFrom_of_recognised (by simp [hne]) hwhole, scanFrom_of_recognised (by simp [hne]) hleft]
  simp only [lastOf_append, lastOf_of_ne_nil hne _ none, List.filterMap_cons, Piece.meaning?]

/-- The imports of a text are the same with the part and without it. -/
theorem meanings_alike (hb : LineNext b) (h : ImportsAside before a c b) :
    (scanFrom importAt before 0 (a ++ (c ++ b))).filterMap Piece.meaning? =
      (scanFrom importAt before 0 (a ++ b)).filterMap Piece.meaning? := by
  -- A scan goes on behind an import, so the induction is on the length of what is left.
  induction hn : a.length using Nat.strong_induction_on generalizing a before with
  | _ n ih =>
      by_cases ha : a = []
      · subst ha
        have hsilent : Silent importAt before c b := by
          apply silent_of_beside proper_importAt
          intro l hl
          rcases h c (by simp) l (List.mem_of_head? hl) with hbeside | haround
          · exact hbeside
          · cases haround with
            | braces hfront => simp at hfront
            | clause hfront => simp at hfront
        rw [List.nil_append, List.nil_append, scanFrom_of_silent hsilent, List.filterMap_append,
          filterMap_meaning_characters, List.nil_append,
          scanFrom_of_lineNext unblank_importAt hb _ before]
      · cases h.foundAlike ha with
        | nothing hwhole hleft =>
            obtain ⟨d, ds, rfl⟩ := List.exists_cons_of_ne_nil ha
            rw [List.cons_append] at hwhole hleft
            have hrest := h.behind_character (by simpa using ⟨hwhole, hleft⟩)
            rw [List.cons_append, List.cons_append, scanFrom_cons_of_none hwhole,
              scanFrom_cons_of_none hleft]
            exact ih ds.length (by simp [← hn]) hrest rfl
        | @within raw rest path hne hsplit hwhole hleft =>
            subst hsplit
            rw [List.append_assoc] at hwhole hleft
            have hfound : ∀ mid ∈ [c, []], importAt before (raw ++ (rest ++ (mid ++ b))) =
                some (path, rest ++ (mid ++ b)) := by
              simpa using ⟨hwhole, hleft⟩
            have hrest := h.behind_import hne hfound
            have hshorter : rest.length < n := by
              rw [← hn, List.length_append]
              have hpos := List.length_pos_iff.mpr hne
              omega
            rw [List.append_assoc, List.append_assoc, scanFrom_of_recognised hne hwhole,
              scanFrom_of_recognised hne hleft, List.filterMap_cons, List.filterMap_cons,
              ih rest.length hshorter hrest rfl]
        | across found => exact found.meanings_eq

end Imports

section Pragmas

variable {before : Option Char} {a b c : List Char}

/-- With a part in the middle of a text and without it, the first pragma lies on one side of the
part. -/
def PragmaAside (before : Option Char) (a c b : List Char) : Prop :=
  ∀ mid ∈ [c, []], ∀ l ∈ (located (scanFrom pragmaAt before 0 (a ++ (mid ++ b)))).head?,
    l.Beside a mid

/-- A pragma that begins in the front lies within it, so it is found with the part and without. -/
theorem pragmaAt_alike (ha : a ≠ []) (h : PragmaAside before a c b) {mid rest : List Char}
    (hmid : mid ∈ [c, []]) (hfound : pragmaAt before (a ++ (mid ++ b)) = some ((), rest)) :
    ∃ raw behind, raw ≠ [] ∧ a = raw ++ behind ∧
      ∀ tail, pragmaAt before (raw ++ tail) = some ((), tail) := by
  obtain ⟨raw, hraw, hsplit⟩ := exists_of_pragmaAt hfound
  have hfirst := h mid hmid
  rw [hsplit, scanFrom_of_recognised hraw.ne_nil (hraw.pragmaAt_append before rest),
    located] at hfirst
  rcases hfirst _ rfl with ⟨behind, hfront⟩ | hfront
  · exact ⟨raw, behind, hraw.ne_nil, hfront.symm, hraw.pragmaAt_append before⟩
  · exact absurd (List.append_eq_nil_iff.mp (List.prefix_nil.mp hfront)).1 ha

/-- The first pragma of a text is the same with the part and without it. -/
theorem firstRaw_alike (hb : LineNext b) (h : PragmaAside before a c b) :
    (scanFrom pragmaAt before 0 (a ++ (c ++ b))).findSome? Piece.raw? =
      (scanFrom pragmaAt before 0 (a ++ b)).findSome? Piece.raw? := by
  induction a generalizing before with
  | nil =>
      have hsilent : Silent pragmaAt before c b :=
        silent_of_beside proper_pragmaAt (h c (by simp))
      rw [List.nil_append, List.nil_append, scanFrom_of_silent hsilent, List.findSome?_append,
        findSome?_raw_characters, Option.none_or, scanFrom_of_lineNext unblank_pragmaAt hb _ before]
  | cons d ds ih =>
      by_cases hnone : ∀ mid ∈ [c, []], pragmaAt before (d :: (ds ++ (mid ++ b))) = none
      · have hrest : PragmaAside (some d) ds c b := by
          intro mid hmid l hl
          have hfirst := h mid hmid
          rw [List.cons_append, scanFrom_cons_of_none (hnone mid hmid), located,
            List.head?_map] at hfirst
          have hbehind : (l.behind [d]).Beside ([d] ++ ds) mid :=
            hfirst (l.behind [d]) (by simp [Option.mem_def.mp hl])
          exact Located.beside_behind_iff.mp hbehind
        have hwith := hnone c (by simp)
        have hwithout : pragmaAt before (d :: (ds ++ b)) = none := hnone [] (by simp)
        rw [List.cons_append, List.cons_append, scanFrom_cons_of_none hwith,
          scanFrom_cons_of_none hwithout]
        exact ih hrest
      · have hsome : ∃ mid ∈ [c, []], ∃ rest,
            pragmaAt before (d :: ds ++ (mid ++ b)) = some ((), rest) := by
          simp only [not_forall] at hnone
          obtain ⟨mid, hmid, hfound⟩ := hnone
          obtain ⟨⟨⟨⟩, rest⟩, hrest⟩ := Option.ne_none_iff_exists'.mp hfound
          exact ⟨mid, hmid, rest, hrest⟩
        obtain ⟨mid, hmid, rest, hfound⟩ := hsome
        obtain ⟨raw, behind, hne, hsplit, hall⟩ :=
          pragmaAt_alike (List.cons_ne_nil d ds) h hmid hfound
        rw [hsplit, List.append_assoc, List.append_assoc, scanFrom_of_recognised hne (hall _),
          scanFrom_of_recognised hne (hall _)]
        rfl

end Pragmas

section LineComments

/-- A line comment in a source: it begins outside of quotes and of other comments, takes the rest of
its line, and does not hold the mark of a licence. -/
structure LineComment (a c b : List Char) : Prop where
  opens : ∃ text, c = '/' :: '/' :: text
  line : ∀ d ∈ c, isLineEnd d = false
  ends : LineNext b
  outside : ∃ word, (runs readChar (.outside []) a).2 = .outside word
  mark : ¬licenceMark <:+: c

/-- What stands at the end of a line, as a line comment does, makes no difference to the imports of
a source if no import touches it, except for one that is open around it, and none to the pragma if
the first pragma does not touch it. -/
theorem scans_of_comment {a c b : List Char} (h : LineNext b) :
    (ImportsAside none a c b →
      findImports (String.ofList (a ++ (c ++ b))) = findImports (String.ofList (a ++ b))) ∧
    (PragmaAside none a c b →
      pragmaOf (String.ofList (a ++ (c ++ b))) = pragmaOf (String.ofList (a ++ b))) := by
  constructor
  · intro haside
    simp only [findImports, meanings, scan, String.toList_ofList]
    exact meanings_alike h haside
  · intro haside
    simp only [pragmaOf, firstRaw?, scan, String.toList_ofList, firstRaw_alike h haside]

/-- A pragma, and an import as far as it stands in front of a comment. -/
def aboveSample : List Char := "pragma solidity ^0.8.0;\nimport \x7bA, ".toList

/-- A comment between the names that an import lists. -/
def sampleComment : List Char := "// the base".toList

/-- The rest of the import. -/
def belowSample : List Char := "\n B\x7d from \"./A.sol\";".toList

/-- An import of a whole file, as far as it stands in front of a comment. -/
def aboveFrom : List Char := "import * as X ".toList

/-- The rest of the import, behind the comment. -/
def belowFrom : List Char := "\nfrom \"./A.sol\";".toList

theorem importsAside_belowFrom : ImportsAside none aboveFrom sampleComment belowFrom := by
  have hplace : ∀ mid ∈ [sampleComment, []],
      ∀ l ∈ located (scan importAt (aboveFrom ++ (mid ++ belowFrom))), l.front = [] := by
    decide +kernel
  have hplain : ∀ d ∈ " * as X ".toList ++ (sampleComment ++ []), isQuote d = false ∧ d ≠ ';' := by
    decide
  have hunbraced : ∀ mid ∈ [sampleComment, []],
      ∀ d ∈ ((" * as X ".toList ++ (mid ++ belowFrom)).dropWhile isBlank).head?, d ≠ '\x7b' := by
    decide +kernel
  have hbehind : belowFrom =
      [] ++ (['\n'] ++ ("from".toList ++ ([' '] ++ "\"./A.sol\";".toList))) := by decide
  intro mid hmid l hl
  refine Or.inr (.clause ?_ hbehind ⟨' ', rfl, by decide⟩ ⟨by decide, by decide⟩ isSpace_space
    hplain hunbraced (by decide +kernel))
  rw [hplace mid hmid l hl]
  decide

theorem scans_of_comment_sample :
    LineComment aboveSample sampleComment belowSample ∧
      findImports (String.ofList (aboveSample ++ (sampleComment ++ belowSample))) =
        findImports (String.ofList (aboveSample ++ belowSample)) ∧
      pragmaOf (String.ofList (aboveSample ++ (sampleComment ++ belowSample))) =
        pragmaOf (String.ofList (aboveSample ++ belowSample)) ∧
      findImports (String.ofList (aboveFrom ++ (sampleComment ++ belowFrom))) =
        findImports (String.ofList (aboveFrom ++ belowFrom)) := by
  have hends : ∀ c ∈ belowSample.head?, isLineEnd c = true := by decide
  have hcomment : LineComment aboveSample sampleComment belowSample :=
    ⟨⟨_, rfl⟩, by decide, hends, ⟨[], by decide +kernel⟩, by decide +kernel⟩
  have himports : ImportsAside none aboveSample sampleComment belowSample := by
    have hplace : ∀ mid ∈ [sampleComment, []],
        ∀ l ∈ located (scan importAt (aboveSample ++ (mid ++ belowSample))),
          l.front = "pragma solidity ^0.8.0;\n".toList := by decide +kernel
    have hclosed : (braced? ([' '] ++ '\x7b' :: ("A, ".toList ++ belowSample))).isSome = true := by
      decide +kernel
    intro mid hmid l hl
    refine Or.inr (.braces ?_ isSpace_space (by decide) (by decide) hclosed)
    rw [hplace mid hmid l hl]
    decide
  have hpragma : PragmaAside none aboveSample sampleComment belowSample := by
    have hplace : ∀ mid ∈ [sampleComment, []],
        ∀ l ∈ located (scan pragmaAt (aboveSample ++ (mid ++ belowSample))),
          l.Beside aboveSample mid := by decide +kernel
    exact fun mid hmid l hl => hplace mid hmid l (List.mem_of_head? hl)
  have hline : LineNext belowFrom := by
    rintro c ⟨⟩
    decide
  exact ⟨hcomment, (scans_of_comment hends).1 himports, (scans_of_comment hends).2 hpragma,
    (scans_of_comment hline).1 importsAside_belowFrom⟩

/-- A comment that is an import. -/
def commentedImport : List Char := "// import \"./A.sol\";".toList

/-- An import is found in a comment. -/
theorem import_found_in_comment : LineComment [] commentedImport [] ∧
    findImports (String.ofList ([] ++ (commentedImport ++ []))) ≠
      findImports (String.ofList ([] ++ [])) := by
  refine ⟨⟨⟨_, rfl⟩, by decide, nofun, ⟨[], rfl⟩, by decide +kernel⟩, by decide +kernel⟩

end LineComments

end ContractBench.Source
