import ContractBench.Proofs.Source.Shapes
import Mathlib.Algebra.GroupWithZero.Nat
import Mathlib.Data.List.Chain
import Mathlib.Data.List.DropRight

/-! # Sources in parts

A source as a sequence of blanks, directives and code, where blanks keep the directives and the
code apart. Cleaning such a source removes just its directives, as no directive comes into being
where others have been removed.
-/

namespace ContractBench.Source

open Text (isBlank)

/-- A part of a source. -/
inductive Part where
  | blank (c : Char)
  | licence (name raw : List Char)
  | pragma (raw : List Char)
  | importing (path : String) (raw : List Char)
  | code (raw : List Char)

namespace Part

/-- The text of a part. -/
def text : Part → List Char
  | blank c => [c]
  | licence _ raw | pragma raw | importing _ raw | code raw => raw

/-- Whether a part is a blank. -/
def isGap : Part → Bool
  | blank _ => true
  | _ => false

/-- Whether a part stays when directives are removed. -/
def stays : Part → Bool
  | blank _ | code _ => true
  | _ => false

end Part

/-- The text of a sequence of parts. -/
def textOf (parts : List Part) : List Char := parts.flatMap Part.text

@[simp] theorem textOf_nil : textOf [] = [] := rfl

@[simp] theorem textOf_cons (part : Part) (parts : List Part) :
    textOf (part :: parts) = part.text ++ textOf parts := rfl

@[simp] theorem textOf_append (parts more : List Part) :
    textOf (parts ++ more) = textOf parts ++ textOf more := List.flatMap_append

section Muteness

variable {α : Type} {recognise : Recogniser α}

/-- A text goes on with a blank, if it goes on. -/
def BlankNext (tail : List Char) : Prop := ∀ c ∈ tail.head?, isBlank c = true

/-- No directive begins within a text, whatever stands in front of it and behind a blank that
follows it. -/
def Mute (recognise : Recogniser α) (cs : List Char) : Prop :=
  ∀ before tail, BlankNext tail → Silent recognise before cs tail

/-- No directive begins with a blank. -/
def Unblank (recognise : Recogniser α) : Prop :=
  ∀ before c tail, isBlank c = true → recognise before (c :: tail) = none

theorem unblank_licenceAt : Unblank licenceAt := by
  intro before c tail hc
  refine Option.eq_none_iff_forall_ne_some.mpr fun found hfound => ?_
  obtain ⟨opening, after, line, heq, -⟩ := exists_line_of_licenceAt hfound
  cases heq
  cases hc

theorem unblank_pragmaAt : Unblank pragmaAt := by
  intro before c tail hc
  have hne : 'p' ≠ c := by rintro rfl; cases hc
  simp [pragmaAt, Text.afterPrefix?, hne]

theorem unblank_importAt : Unblank importAt := by
  intro before c tail hc
  have hne : 'i' ≠ c := by rintro rfl; cases hc
  simp [importAt, Text.afterPrefix?, hne]

theorem mute_licenceAt_of_unlicensed {cs : List Char} (h : unlicensed cs = true) :
    Mute licenceAt cs :=
  fun before tail _ => silent_licenceAt_of_unlicensed h before tail

theorem mute_pragmaAt_of_clear {cs : List Char} (h : clear "pragma".toList cs = true) :
    Mute pragmaAt cs :=
  fun before tail _ => silent_pragmaAt_of_clear h before tail

theorem mute_importAt_of_clear {cs : List Char} (h : clear "import".toList cs = true) :
    Mute importAt cs :=
  fun before tail _ => silent_importAt_of_clear h before tail

end Muteness

namespace Part

/-- What makes a part one of its kind: a directive is recognised whole, and none of another kind
begins within it; code holds no directive, and it neither begins nor ends with a blank. The name of
a licence has to be fit for the header. -/
inductive WellFormed : Part → Prop
  | blank {c : Char} (hblank : isBlank c = true) : WellFormed (.blank c)
  | licence {name raw : List Char} (hne : raw ≠ [])
      (hwhole : ∀ before tail, (∀ c ∈ tail.head?, isLineEnd c = true) →
        licenceAt before (raw ++ tail) = some (name, tail))
      (hpragma : Mute pragmaAt raw) (himport : Mute importAt raw)
      (hmark : marks name = 0) (hnamePragma : Mute pragmaAt name)
      (hnameImport : Mute importAt name) : WellFormed (.licence name raw)
  | pragma {raw : List Char} (hwhole : IsPragma raw) (hlicence : Mute licenceAt raw)
      (himport : Mute importAt raw) (hmark : marks raw = 0) : WellFormed (.pragma raw)
  | importing {path : String} {raw : List Char} (hne : raw ≠ [])
      (hwhole : ∀ before tail, (∀ c ∈ before, isBlank c = true) → BlankNext tail →
        importAt before (raw ++ tail) = some (path, tail))
      (hlicence : Mute licenceAt raw) (hpragma : Mute pragmaAt raw) :
      WellFormed (.importing path raw)
  | code {raw : List Char} (hfirst : ∃ c ∈ raw.head?, isBlank c = false)
      (hlast : ∃ c ∈ raw.getLast?, isBlank c = false) (hlicence : Mute licenceAt raw)
      (hpragma : Mute pragmaAt raw) (himport : Mute importAt raw) : WellFormed (.code raw)

/-- Two parts may stand next to each other if one is a blank. A licence takes the rest of its
line. -/
def Apart : Part → Part → Prop
  | blank _, _ => True
  | licence _ _, blank c => isLineEnd c = true
  | _, blank _ => True
  | _, _ => False

theorem apart_lineBreak (part : Part) : part.Apart (.blank '\n') := by
  cases part with
  | licence name raw => exact show isLineEnd '\n' = true by decide
  | _ => trivial

theorem Apart.eq_blank {part next : Part} (h : part.Apart next) (hgap : part.isGap = false) :
    ∃ c, next = .blank c := by
  cases part with
  | blank c => cases hgap
  | _ =>
      cases next with
      | blank c => exact ⟨c, rfl⟩
      | _ => exact False.elim h

end Part

/-- A sequence of parts as they make up a source. -/
structure Parted (parts : List Part) : Prop where
  wellFormed : ∀ part ∈ parts, part.WellFormed
  apart : parts.IsChain Part.Apart

namespace Parted

variable {part : Part} {parts : List Part}

theorem tail (h : Parted (part :: parts)) : Parted parts :=
  ⟨fun p hp => h.wellFormed p (List.mem_cons_of_mem _ hp), h.apart.tail⟩

theorem of_within {more : List Part} (h : Parted parts) (hwithin : more <:+: parts) :
    Parted more :=
  ⟨fun p hp => h.wellFormed p (hwithin.subset hp), List.IsChain.infix h.apart hwithin⟩

/-- Parts on lines of their own make up a source. -/
theorem of_lines (h : ∀ part ∈ parts, part.WellFormed) :
    Parted (parts.intersperse (.blank '\n')) := by
  induction parts with
  | nil => exact ⟨by simp, by simp⟩
  | cons part parts ih =>
      obtain ⟨hpart, hparts⟩ := List.forall_mem_cons.mp h
      cases parts with
      | nil => exact ⟨by simpa using hpart, by simp⟩
      | cons next rest =>
          have hblank : Part.WellFormed (.blank '\n') := .blank (by decide)
          obtain ⟨hwell, hchain⟩ := ih hparts
          rw [List.intersperse_cons_cons]
          refine ⟨List.forall_mem_cons.mpr ⟨hpart, List.forall_mem_cons.mpr ⟨hblank, hwell⟩⟩, ?_⟩
          refine List.isChain_cons_cons.mpr ⟨part.apart_lineBreak, ?_⟩
          -- Behind the line break anything may stand.
          exact List.isChain_cons.mpr ⟨fun _ _ => trivial, hchain⟩

/-- Behind a part that is no blank comes a blank or the end. -/
theorem blankNext (h : Parted (part :: parts)) (hgap : part.isGap = false) :
    BlankNext (textOf parts) := by
  cases parts with
  | nil => simp [BlankNext]
  | cons next rest =>
      obtain ⟨c, rfl⟩ := (List.isChain_cons_cons.mp h.apart).1.eq_blank hgap
      cases h.wellFormed (.blank c) (by simp) with
      | blank hblank => simpa [BlankNext, Part.text] using hblank

/-- Behind a licence comes the end of a line. -/
theorem lineEndNext {name raw : List Char} (h : Parted (.licence name raw :: parts)) :
    ∀ c ∈ (textOf parts).head?, isLineEnd c = true := by
  cases parts with
  | nil => simp
  | cons next rest =>
      have happart := (List.isChain_cons_cons.mp h.apart).1
      obtain ⟨c, rfl⟩ := happart.eq_blank rfl
      intro d hd
      cases hd
      exact happart

/-- Parts stay apart when some that are no blanks are left out. -/
theorem filter (h : Parted parts) (keeps : Part → Bool) (hkeeps : ∀ c, keeps (.blank c) = true) :
    Parted (parts.filter keeps) := by
  refine ⟨fun p hp => h.wellFormed p (List.mem_of_mem_filter hp), ?_⟩
  induction parts with
  | nil => simp
  | cons part parts ih =>
      rw [List.filter_cons]
      split
      next =>
        refine List.isChain_cons.mpr ⟨fun next hnext => ?_, ih h.tail⟩
        cases hgap : part.isGap with
        | true =>
            cases part with
            | blank c => trivial
            | _ => cases hgap
        | false =>
            -- What comes next is a blank, which is not left out.
            cases parts with
            | nil => simp at hnext
            | cons other rest =>
                have happart := (List.isChain_cons_cons.mp h.apart).1
                obtain ⟨c, rfl⟩ := happart.eq_blank hgap
                rw [List.filter_cons, if_pos (hkeeps c), List.head?_cons,
                  Option.mem_some_iff] at hnext
                exact hnext ▸ happart
      next => exact ih h.tail

end Parted

/-- A recogniser takes some parts whole, as a directive with a meaning, and sees nothing in the
others. -/
structure Parting {α : Type} (recognise : Recogniser α) (taken : Part → Option α) : Prop where
  unblank : Unblank recognise
  blank : ∀ c, taken (.blank c) = none
  whole : ∀ part meaning, part.WellFormed → taken part = some meaning →
    part.text ≠ [] ∧ ∀ before tail, (∀ c ∈ before, isBlank c = true) → BlankNext tail →
      (∀ name raw, part = .licence name raw → ∀ c ∈ tail.head?, isLineEnd c = true) →
      recognise before (part.text ++ tail) = some (meaning, tail)
  mute : ∀ part, part.WellFormed → part.isGap = false → taken part = none →
    Mute recognise part.text

namespace Parting

variable {α : Type} {recognise : Recogniser α} {taken : Part → Option α} {parts : List Part}

/-- The pieces that a scan makes of a part. -/
def pieces (taken : Part → Option α) (part : Part) : List (Piece α) :=
  match taken part with
  | some meaning => [.directive meaning part.text]
  | none => part.text.map .character

/-- A source in parts is scanned part by part. -/
theorem scanFrom_textOf (h : Parting recognise taken) (hparts : Parted parts)
    {before : Option Char}
    (hbefore : (∀ c ∈ before, isBlank c = true) ∨ ∀ part ∈ parts.head?, part.isGap = true) :
    scanFrom recognise before 0 (textOf parts) = parts.flatMap (pieces taken) := by
  -- In front of each part stands a blank, or the part is one: that carries the induction.
  induction parts generalizing before with
  | nil => rfl
  | cons part parts ih =>
      have hwell := hparts.wellFormed part List.mem_cons_self
      rw [textOf_cons, List.flatMap_cons, pieces]
      cases hgap : part.isGap with
      | true =>
          cases hwell with
          | blank hblank =>
              rename_i c
              have hsilent : Silent recognise before [c] (textOf parts) :=
                .cons (h.unblank before c _ hblank) (.nil _ _)
              rw [h.blank, Part.text, scanFrom_of_silent hsilent,
                ih hparts.tail (Or.inl (by simpa [lastOf] using hblank))]
          | _ => cases hgap
      | false =>
          have hnext := hparts.blankNext hgap
          have hfront : ∀ c ∈ before, isBlank c = true :=
            hbefore.resolve_right fun hall => by simp [hgap] at hall
          -- Whatever the part leaves in front of it, what comes next is a blank.
          have hrest : ∀ last, scanFrom recognise last 0 (textOf parts) =
              parts.flatMap (pieces taken) := by
            intro last
            refine ih hparts.tail (Or.inr fun next hhead => ?_)
            cases parts with
            | nil => cases hhead
            | cons other rest =>
                obtain ⟨c, rfl⟩ := (List.isChain_cons_cons.mp hparts.apart).1.eq_blank hgap
                cases hhead
                rfl
          cases htaken : taken part with
          | none =>
              rw [scanFrom_of_silent (h.mute part hwell hgap htaken before _ hnext), hrest]
          | some meaning =>
              obtain ⟨hne, hwhole⟩ := h.whole part meaning hwell htaken
              have hfound := hwhole before (textOf parts) hfront hnext (by
                rintro name raw rfl
                exact hparts.lineEndNext)
              rw [scanFrom_of_recognised hne hfound, hrest, List.singleton_append]

theorem scan_textOf (h : Parting recognise taken) (hparts : Parted parts) :
    scan recognise (textOf parts) = parts.flatMap (pieces taken) :=
  h.scanFrom_textOf hparts (Or.inl fun _ hc => nomatch hc)

theorem meanings_textOf (h : Parting recognise taken) (hparts : Parted parts) :
    meanings recognise (textOf parts) = parts.filterMap taken := by
  rw [meanings, h.scan_textOf hparts, List.filterMap_flatMap]
  induction parts with
  | nil => rfl
  | cons part parts ih =>
      rw [List.flatMap_cons, ih hparts.tail, List.filterMap_cons, pieces]
      cases taken part <;> simp [Piece.meaning?]

/-- A directive of a source in parts is one of the parts. -/
theorem exists_of_mem_scan (h : Parting recognise taken) (hparts : Parted parts) {meaning : α}
    {raw : List Char} (hmem : .directive meaning raw ∈ scan recognise (textOf parts)) :
    ∃ part ∈ parts, taken part = some meaning ∧ part.text = raw := by
  rw [h.scan_textOf hparts] at hmem
  obtain ⟨part, hpart, hpiece⟩ := List.mem_flatMap.mp hmem
  refine ⟨part, hpart, ?_⟩
  unfold pieces at hpiece
  split at hpiece
  next found htaken =>
    cases List.mem_singleton.mp hpiece
    exact ⟨htaken, rfl⟩
  next => simp at hpiece

theorem flatMap_plain_characters (cs : List Char) :
    (cs.map (Piece.character (α := α))).flatMap Piece.plain = cs := by
  induction cs with
  | nil => rfl
  | cons c cs ih => simpa [Piece.plain] using ih

/-- Removing the directives of one kind removes just the parts of that kind. -/
theorem without_textOf (h : Parting recognise taken) (hparts : Parted parts) :
    without recognise (textOf parts) =
      textOf (parts.filter fun part => (taken part).isNone) := by
  rw [without, h.scan_textOf hparts, List.flatMap_assoc]
  induction parts with
  | nil => rfl
  | cons part parts ih =>
      rw [List.flatMap_cons, ih hparts.tail, List.filter_cons, pieces]
      cases taken part with
      | none => simp [flatMap_plain_characters]
      | some meaning => simp [Piece.plain]

end Parting

section Kinds

/-- The name of a licence. -/
def Part.name? : Part → Option (List Char)
  | .licence name _ => some name
  | _ => none

/-- That a part is a pragma, of which there is no more to say. -/
def Part.pragma? : Part → Option Unit
  | .pragma _ => some ()
  | _ => none

/-- The path of an import. -/
def Part.path? : Part → Option String
  | .importing path _ => some path
  | _ => none

theorem parting_licenceAt : Parting licenceAt Part.name? where
  unblank := unblank_licenceAt
  blank _ := rfl
  whole part meaning hwell htaken := by
    cases hwell with
    | licence hne hwhole =>
        cases htaken
        exact ⟨hne, fun before tail _ _ hline => hwhole before tail (hline _ _ rfl)⟩
    | _ => cases htaken
  mute part hwell hgap htaken := by
    cases hwell <;> simp_all [Part.isGap, Part.name?, Part.text]

theorem parting_pragmaAt : Parting pragmaAt Part.pragma? where
  unblank := unblank_pragmaAt
  blank _ := rfl
  whole part meaning hwell htaken := by
    cases hwell with
    | pragma hwhole =>
        exact ⟨hwhole.ne_nil, fun before tail _ _ _ => hwhole.pragmaAt_append before tail⟩
    | _ => cases htaken
  mute part hwell hgap htaken := by
    cases hwell <;> simp_all [Part.isGap, Part.pragma?, Part.text]

/-- The pragma of a source in parts is one of them, or the default. -/
theorem Parted.pragmaOf_cases {parts : List Part} {source : String} (h : Parted parts)
    (htext : textOf parts = source.toList) :
    (∃ raw, .pragma raw ∈ parts ∧ pragmaOf source = String.ofList raw) ∨
      pragmaOf source = defaultPragma := by
  refine (Source.pragmaOf_cases source).imp_left ?_
  rintro ⟨raw, hmem, hraw⟩
  rw [← htext] at hmem
  obtain ⟨part, hpart, htaken, rfl⟩ := parting_pragmaAt.exists_of_mem_scan h hmem
  cases part with
  | pragma raw => exact ⟨raw, hpart, hraw⟩
  | _ => cases htaken

theorem parting_importAt : Parting importAt Part.path? where
  unblank := unblank_importAt
  blank _ := rfl
  whole part meaning hwell htaken := by
    cases hwell with
    | importing hne hwhole =>
        cases htaken
        exact ⟨hne, fun before tail hbefore hnext _ => hwhole before tail hbefore hnext⟩
    | _ => cases htaken
  mute part hwell hgap htaken := by
    cases hwell <;> simp_all [Part.isGap, Part.path?, Part.text]

end Kinds

section Cleaning

variable {parts : List Part}

/-- Without its directives a source in parts is its blanks and its code. -/
theorem without_directives (h : Parted parts) :
    without importAt (without pragmaAt (without licenceAt (textOf parts))) =
      textOf (parts.filter Part.stays) := by
  have hlicence := h.filter (fun part => part.name?.isNone) fun _ => rfl
  have hpragma := hlicence.filter (fun part => part.pragma?.isNone) fun _ => rfl
  rw [parting_licenceAt.without_textOf h, parting_pragmaAt.without_textOf hlicence,
    parting_importAt.without_textOf hpragma, List.filter_filter, List.filter_filter]
  congr 1
  refine List.filter_congr fun part _ => ?_
  cases part <;> rfl

/-- Parts without the blanks at both ends. -/
def trimmed (parts : List Part) : List Part :=
  (parts.dropWhile Part.isGap).rdropWhile Part.isGap

theorem trimmed_isInfix (parts : List Part) : trimmed parts <:+: parts :=
  (List.rdropWhile_prefix _ _).isInfix.trans (List.dropWhile_suffix _).isInfix

theorem trimStart_textOf (h : Parted parts) (hstays : ∀ part ∈ parts, part.stays = true) :
    Text.trimStart (textOf parts) = textOf (parts.dropWhile Part.isGap) := by
  induction parts with
  | nil => rfl
  | cons part parts ih =>
      have hwell := h.wellFormed part List.mem_cons_self
      have hpart := hstays part List.mem_cons_self
      cases part with
      | blank c =>
          cases hwell with
          | blank hblank =>
              have hrest := ih h.tail fun p hp => hstays p (List.mem_cons_of_mem _ hp)
              rw [List.dropWhile_cons_of_pos rfl, ← hrest]
              exact List.dropWhile_cons_of_pos hblank
      | code raw =>
          cases hwell with
          | code hfirst =>
              obtain ⟨c, hc, hblank⟩ := hfirst
              cases raw with
              | nil => cases hc
              | cons d ds =>
                  cases hc
                  rw [List.dropWhile_cons_of_neg Bool.false_ne_true]
                  exact List.dropWhile_cons_of_neg (by simp [hblank])
      | _ => cases hpart

theorem trimEnd_textOf (h : Parted parts) (hstays : ∀ part ∈ parts, part.stays = true) :
    Text.trimEnd (textOf parts) = textOf (parts.rdropWhile Part.isGap) := by
  induction parts using List.reverseRecOn with
  | nil => rfl
  | append_singleton parts part ih =>
      have hwell := h.wellFormed part (by simp)
      have hpart := hstays part (by simp)
      cases part with
      | blank c =>
          cases hwell with
          | blank hblank =>
              have hrest := ih (h.of_within (List.prefix_append _ _).isInfix) fun p hp =>
                hstays p (List.mem_append_left _ hp)
              rw [List.rdropWhile_concat_pos _ _ _ rfl, ← hrest]
              simp [Text.trimEnd, Text.trimStart, Part.text, hblank]
      | code raw =>
          cases hwell with
          | code _ hlast =>
              obtain ⟨c, hc, hblank⟩ := hlast
              rw [List.rdropWhile_concat_neg _ _ _ Bool.false_ne_true,
                show raw = raw.dropLast ++ [c] from (List.dropLast_append_getLast? c hc).symm]
              simp [Text.trimEnd, Text.trimStart, Part.text, hblank]
      | _ => cases hpart

/-- A source in parts is cleaned to its blanks and its code, from the first code to the last. -/
theorem cleanedChars_textOf (h : Parted parts) :
    cleanedChars (textOf parts) = textOf (trimmed (parts.filter Part.stays)) := by
  have hfilter := h.filter Part.stays fun _ => rfl
  have hstays : ∀ part ∈ parts.filter Part.stays, part.stays = true := fun part hpart =>
    (List.mem_filter.mp hpart).2
  have hdrop : (parts.filter Part.stays).dropWhile Part.isGap <:+: parts.filter Part.stays :=
    (List.dropWhile_suffix _).isInfix
  rw [cleanedChars, without_directives h, Text.trim, trimStart_textOf hfilter hstays,
    trimEnd_textOf (hfilter.of_within hdrop) fun part hpart => hstays part (hdrop.subset hpart)]
  rfl

theorem BlankNext.append {xs ys : List Char} (hxs : BlankNext xs) (hys : BlankNext ys) :
    BlankNext (xs ++ ys) := by
  cases xs with
  | nil => exact hys
  | cons x xs => exact hxs

/-- Where a recogniser takes none of the parts, it sees nothing in the source. -/
theorem Parting.mute_textOf {α : Type} {recognise : Recogniser α} {taken : Part → Option α}
    (hparting : Parting recognise taken) (h : Parted parts)
    (hnone : ∀ part ∈ parts, taken part = none) : Mute recognise (textOf parts) := by
  induction parts with
  | nil => exact fun _ _ _ => .nil _ _
  | cons part parts ih =>
      intro before tail htail
      have hwell := h.wellFormed part List.mem_cons_self
      rw [textOf_cons, silent_append_iff]
      refine ⟨?_, ih h.tail (fun p hp => hnone p (List.mem_cons_of_mem _ hp)) _ _ htail⟩
      cases hgap : part.isGap with
      | true =>
          cases hwell with
          | blank hblank => exact .cons (hparting.unblank _ _ _ hblank) (.nil _ _)
          | _ => cases hgap
      | false =>
          exact hparting.mute part hwell hgap (hnone part List.mem_cons_self) before _
            ((h.blankNext hgap).append htail)

/-- The marks in a source are those in its parts. -/
theorem marks_textOf (h : Parted parts) :
    marks (textOf parts) = (parts.map fun part => marks part.text).sum := by
  induction parts with
  | nil => rfl
  | cons part parts ih =>
      rw [List.map_cons, List.sum_cons, ← ih h.tail, textOf_cons]
      have hwell := h.wellFormed part List.mem_cons_self
      cases hgap : part.isGap with
      | true =>
          cases hwell with
          | blank hblank =>
              rename_i c
              have hc := notMem_licenceMark_of_isBlank hblank
              have hfront := marks_append_cons hc [] (textOf parts)
              have halone := marks_append_cons hc [] []
              simp only [List.nil_append] at hfront halone
              simp [Part.text, hfront, halone, marks]
          | _ => cases hgap
      | false =>
          have hnext := h.blankNext hgap
          cases hrest : textOf parts with
          | nil => simp [marks]
          | cons c cs =>
              rw [hrest] at hnext
              have hc := notMem_licenceMark_of_isBlank (hnext c rfl)
              have hback := marks_append_cons hc [] cs
              rw [List.nil_append] at hback
              rw [marks_append_cons hc, hback, marks, Nat.zero_add]

end Cleaning

end ContractBench.Source
