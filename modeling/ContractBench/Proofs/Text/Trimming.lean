import ContractBench.Text.Blank
import ContractBench.Text.Digit
import ContractBench.Text.Pieces
import ContractBench.Text.Word
import Mathlib.Data.List.Basic
import Mathlib.Data.List.DropRight
import Mathlib.Data.List.Induction
import Mathlib.Data.List.TakeDrop
import Mathlib.Data.List.TakeWhile

/-! # Trimming

What trimming a text leaves of it, how the pieces of a text begin, and where runs of characters end.
-/

namespace ContractBench.Text

section Decisions

-- What is said of the characters of a text is decided by going through the text, and not through
-- all characters that there are.

variable (p : Char → Prop) [DecidablePred p]

instance (priority := 2000) decidableForallMem (cs : List Char) : Decidable (∀ c ∈ cs, p c) :=
  List.decidableBAll p cs

instance (priority := 2000) decidableForallEnd (c? : Option Char) : Decidable (∀ c ∈ c?, p c) :=
  Option.decidableForallMem c?

instance (priority := 2000) decidableExistsEnd (c? : Option Char) : Decidable (∃ c ∈ c?, p c) :=
  Option.decidableExistsMem c?

end Decisions

/-- What is said of the characters of ASCII is decided by going through their code points. -/
@[elab_as_elim]
theorem of_ascii {p : Char → Prop} {c : Char} (hc : c.toNat < 0x80)
    (h : ∀ n < 0x80, p (Char.ofNat n)) : p c := by
  have hp := h c.toNat hc
  rwa [Char.ofNat_toNat] at hp

/-- A run of what passes a test ends where something follows that does not pass. -/
theorem span_append {α : Type} {test : α → Bool} {front rest : List α}
    (hfront : ∀ a ∈ front, test a = true) (hrest : ∀ a ∈ rest.head?, test a = false) :
    (front ++ rest).span test = (front, rest) := by
  rw [List.span_eq_takeWhile_dropWhile, List.takeWhile_append_of_pos hfront,
    List.dropWhile_append_of_pos hfront]
  cases rest with
  | nil => simp
  | cons a rest =>
      have ha : ¬test a = true := by simp [hrest a rfl]
      rw [List.takeWhile_cons_of_neg ha, List.dropWhile_cons_of_neg ha, List.append_nil]

/-- The code points of the blanks. -/
def blankPoints : List Nat :=
  List.range' 0x9 5 ++ List.range' 0x1C 5 ++ List.range' 0x2000 11 ++
    [0x85, 0xA0, 0x1680, 0x2028, 0x2029, 0x202F, 0x205F, 0x3000]

/-- No blank is of a kind that the code points of the blanks are not of. -/
theorem of_isBlank {p : Char → Bool} (hp : ∀ n ∈ blankPoints, p (Char.ofNat n) = false) {c : Char}
    (h : isBlank c = true) : p c = false := by
  rw [← Char.ofNat_toNat c]
  apply hp
  simp only [isBlank, Bool.or_eq_true, Bool.and_eq_true, decide_eq_true_eq, beq_iff_eq] at h
  simp only [blankPoints, List.mem_append, List.mem_range'_1, List.mem_cons, List.not_mem_nil,
    or_false]
  rcases h with (((((((((h | h) | h) | h) | h) | h) | h) | h) | h) | h) | h
  all_goals grind

/-- Blanks are no word characters. -/
theorem isWord_of_isBlank {c : Char} (h : isBlank c = true) : isWord c = false :=
  of_isBlank (by decide +kernel) h

section Ends

variable {c : Char} {cs : List Char}

theorem trimStart_of_not_blank (h : isBlank c = false) : trimStart (c :: cs) = c :: cs :=
  List.dropWhile_cons_of_neg (by simp [h])

theorem trimStart_eq_self (h : ∀ c ∈ cs.head?, isBlank c = false) : trimStart cs = cs := by
  cases cs with
  | nil => rfl
  | cons c cs => exact trimStart_of_not_blank (h c rfl)

theorem trim_eq_self (hfirst : ∀ c ∈ cs.head?, isBlank c = false)
    (hlast : ∀ c ∈ cs.getLast?, isBlank c = false) : trim cs = cs := by
  rw [trim, trimStart_eq_self hfirst, trimEnd,
    trimStart_eq_self (by simpa [List.head?_reverse] using hlast), List.reverse_reverse]

theorem trim_of_unblank (h : ∀ c ∈ cs, isBlank c = false) : trim cs = cs :=
  trim_eq_self (fun c hc => h c (List.mem_of_mem_head? hc))
    (fun c hc => h c (List.mem_of_mem_getLast? hc))

theorem not_blank_of_head?_trimStart (h : c ∈ (trimStart cs).head?) : isBlank c = false := by
  have hfirst := List.head?_dropWhile_not isBlank cs
  rw [← trimStart, Option.mem_def.mp h] at hfirst
  exact hfirst

theorem trimEnd_of_not_blank (h : isBlank c = false) (cs : List Char) :
    ∃ ds, trimEnd (c :: cs) = c :: ds := by
  have hfirst : ∀ xs : List Char, ∃ ys, trimStart (xs ++ [c]) = ys ++ [c] := by
    intro xs
    induction xs with
    | nil => exact ⟨[], trimStart_of_not_blank h⟩
    | cons x xs ih =>
        cases hx : isBlank x with
        | true =>
            obtain ⟨ys, hys⟩ := ih
            refine ⟨ys, ?_⟩
            rw [← hys]
            exact List.dropWhile_cons_of_pos hx
        | false => exact ⟨x :: xs, trimStart_of_not_blank hx⟩
  obtain ⟨ys, hys⟩ := hfirst cs.reverse
  refine ⟨ys.reverse, ?_⟩
  rw [trimEnd, List.reverse_cons, hys, List.reverse_append]
  rfl

/-- Trimming keeps a first character that is not a blank. -/
theorem trim_of_not_blank (h : isBlank c = false) (cs : List Char) :
    ∃ ds, trim (c :: cs) = c :: ds := by
  rw [trim, trimStart_of_not_blank h]
  exact trimEnd_of_not_blank h cs

theorem not_blank_of_head?_trim (h : c ∈ (trim cs).head?) : isBlank c = false := by
  cases hcut : trimStart cs with
  | nil =>
      rw [trim, hcut] at h
      cases h
  | cons d ds =>
      have hd : isBlank d = false := @not_blank_of_head?_trimStart _ cs (by simp [hcut])
      obtain ⟨es, hes⟩ := trimEnd_of_not_blank hd ds
      rw [trim, hcut, hes] at h
      cases h
      exact hd

theorem not_blank_of_getLast?_trim (h : c ∈ (trim cs).getLast?) : isBlank c = false := by
  rw [trim, trimEnd, List.getLast?_reverse] at h
  exact not_blank_of_head?_trimStart h

theorem trim_trim (cs : List Char) : trim (trim cs) = trim cs :=
  trim_eq_self (fun _ hc => not_blank_of_head?_trim hc) (fun _ hc => not_blank_of_getLast?_trim hc)

/-- Blanks around a trimmed text are trimmed. -/
theorem trim_of_blanks_around {lead trail : List Char} (hlead : ∀ c ∈ lead, isBlank c = true)
    (htrail : ∀ c ∈ trail, isBlank c = true) (hne : cs ≠ []) (hcs : trim cs = cs) :
    trim (lead ++ (cs ++ trail)) = cs := by
  obtain ⟨c, ds, rfl⟩ := List.exists_cons_of_ne_nil hne
  have hc : isBlank c = false := by
    have hhead : c ∈ (trim (c :: ds)).head? := by rw [hcs]; rfl
    exact not_blank_of_head?_trim hhead
  have hstart : trimStart (lead ++ (c :: ds ++ trail)) = c :: ds ++ trail := by
    rw [trimStart, List.dropWhile_append_of_pos hlead]
    exact trimStart_of_not_blank hc
  have hend : trimEnd (c :: ds ++ trail) = trimEnd (c :: ds) := by
    have hreverse : ∀ d ∈ trail.reverse, isBlank d = true := by simpa using htrail
    rw [trimEnd, trimEnd, trimStart, trimStart, List.reverse_append,
      List.dropWhile_append_of_pos hreverse]
  rw [trim, hstart, hend]
  rwa [trim, trimStart_of_not_blank hc] at hcs

theorem trimEnd_prefix (cs : List Char) : trimEnd cs <+: cs := List.rdropWhile_prefix isBlank cs

/-- A text that does not begin with a blank is trimmed at its end only. -/
theorem trim_prefix {cs : List Char} (h : ∀ c ∈ cs.head?, isBlank c = false) : trim cs <+: cs := by
  rw [trim, trimStart_eq_self h]
  exact trimEnd_prefix cs

theorem mem_of_mem_trim (h : c ∈ trim cs) : c ∈ cs := by
  simp only [trim, trimEnd, trimStart, List.mem_reverse] at h
  have hend := (List.dropWhile_suffix _).subset h
  exact (List.dropWhile_suffix _).subset (List.mem_reverse.mp hend)

/-- What is no blank is not trimmed. -/
theorem mem_trim_of_not_blank (hc : isBlank c = false) (h : c ∈ cs) : c ∈ trim cs := by
  have hstart (cs : List Char) (h : c ∈ cs) : c ∈ trimStart cs := by
    rw [← List.takeWhile_append_dropWhile (p := isBlank) (l := cs)] at h
    rcases List.mem_append.mp h with h | h
    · rw [List.mem_takeWhile_imp h] at hc
      cases hc
    · exact h
  rw [trim, trimEnd, List.mem_reverse]
  exact hstart _ (List.mem_reverse.mpr (hstart cs h))

/-- Where a blank makes no difference at either end of a text, trimming makes none. -/
theorem apply_trim {β : Type} (f : List Char → β)
    (hstart : ∀ c cs, isBlank c = true → f (c :: cs) = f cs)
    (hend : ∀ c cs, isBlank c = true → f (cs ++ [c]) = f cs) (cs : List Char) :
    f (trim cs) = f cs := by
  have hfront : ∀ cs : List Char, f (trimStart cs) = f cs := by
    intro cs
    induction cs with
    | nil => rfl
    | cons c cs ih =>
        cases hblank : isBlank c with
        | true =>
            rw [trimStart, List.dropWhile_cons_of_pos hblank, hstart c cs hblank]
            exact ih
        | false => rw [trimStart_of_not_blank hblank]
  -- The end of a text is trimmed from its back, so the induction is from there.
  have hback : ∀ cs : List Char, f (trimEnd cs) = f cs := by
    intro cs
    induction cs using List.reverseRecOn with
    | nil => rfl
    | append_singleton cs c ih =>
        rw [trimEnd, List.reverse_append, List.reverse_singleton, List.singleton_append]
        cases hblank : isBlank c with
        | true =>
            rw [trimStart, List.dropWhile_cons_of_pos hblank, hend c cs hblank]
            exact ih
        | false => rw [trimStart_of_not_blank hblank, List.reverse_cons, List.reverse_reverse]
  rw [trim, hback, hfront]

theorem toList_stripped (s : String) : (stripped s).toList = trim s.toList := String.toList_ofList

theorem stripped_eq_empty_iff {s : String} : stripped s = "" ↔ trim s.toList = [] := by
  rw [← String.toList_inj, toList_stripped, String.toList_empty]

theorem stripped_eq_self {s : String} (hfirst : ∀ c ∈ s.toList.head?, isBlank c = false)
    (hlast : ∀ c ∈ s.toList.getLast?, isBlank c = false) : stripped s = s := by
  rw [stripped, trim_eq_self hfirst hlast, String.ofList_toList]

theorem not_blank_of_stripped {s : String} (h : stripped s = s) :
    (∀ c ∈ s.toList.head?, isBlank c = false) ∧ ∀ c ∈ s.toList.getLast?, isBlank c = false := by
  rw [← h, toList_stripped]
  exact ⟨fun c hc => not_blank_of_head?_trim hc, fun c hc => not_blank_of_getLast?_trim hc⟩

theorem stripped_ofList_trim (cs : List Char) :
    stripped (String.ofList (trim cs)) = String.ofList (trim cs) := by
  rw [stripped, String.toList_ofList, trim_trim]

end Ends

section Pieces

variable {α : Type} [DecidableEq α] {sep a : α}

theorem exists_pieces_eq_cons (sep : α) (as : List α) :
    ∃ piece rest, pieces sep as = piece :: rest := by
  cases as with
  | nil => exact ⟨[], [], rfl⟩
  | cons a as =>
      rw [pieces]
      split
      next => exact ⟨_, _, rfl⟩
      next =>
        split
        next => exact ⟨_, _, rfl⟩
        next => exact ⟨_, _, rfl⟩

/-- The first piece of a text begins as the text does. -/
theorem pieces_cons_of_ne (h : a ≠ sep) (as : List α) :
    ∃ piece rest, pieces sep (a :: as) = (a :: piece) :: rest := by
  obtain ⟨piece, rest, hpieces⟩ := exists_pieces_eq_cons sep as
  exact ⟨piece, rest, by rw [pieces, if_neg h, hpieces]⟩

theorem pieces_eq_splitOn (sep : α) (as : List α) : pieces sep as = as.splitOn sep := by
  induction as with
  | nil => rfl
  | cons a as ih =>
      rw [List.splitOn_cons_eq_if_modifyHead, ← ih]
      by_cases h : a = sep
      · simp [pieces, h]
      · obtain ⟨piece, rest, hpieces⟩ := exists_pieces_eq_cons sep as
        simp [pieces, h, hpieces]

/-- The first piece of a text reaches up to the first separator. -/
theorem pieces_append {as : List α} (h : sep ∉ as) (bs : List α) :
    pieces sep (as ++ sep :: bs) = as :: pieces sep bs := by
  simp only [pieces_eq_splitOn, List.splitOn_append_cons_self_of_not_mem h]

theorem notMem_of_mem_pieces {as piece : List α} (h : piece ∈ pieces sep as) : sep ∉ piece := by
  induction as generalizing piece with
  | nil =>
      rw [List.mem_singleton.mp h]
      exact List.not_mem_nil
  | cons a as ih =>
      by_cases ha : a = sep
      · rw [pieces, if_pos ha] at h
        rcases List.mem_cons.mp h with rfl | hrest
        · exact List.not_mem_nil
        · exact ih hrest
      · obtain ⟨first, rest, hpieces⟩ := exists_pieces_eq_cons sep as
        rw [hpieces] at ih
        rw [pieces, if_neg ha, hpieces] at h
        rcases List.mem_cons.mp h with rfl | hrest
        · exact List.not_mem_cons_of_ne_of_not_mem (Ne.symm ha) (ih List.mem_cons_self)
        · exact ih (List.mem_cons_of_mem _ hrest)

/-- Parts that are written with a separator between them are the pieces of what is written. -/
theorem pieces_joined {sep : Char} {parts : List String} (hsome : parts ≠ [])
    (hparts : ∀ part ∈ parts, sep ∉ part.toList) :
    pieces sep (joined (String.singleton sep) parts).toList = parts.map String.toList := by
  rw [joined, String.toList_intercalate, String.toList_singleton, pieces_eq_splitOn,
    List.splitOn_intercalate sep (by simpa using hparts) (by simpa using hsome)]

theorem mem_of_mem_joined {sep : String} {parts : List String} {c : Char}
    (h : c ∈ (joined sep parts).toList) : c ∈ sep.toList ∨ ∃ part ∈ parts, c ∈ part.toList := by
  induction parts with
  | nil => simp [joined] at h
  | cons part parts ih =>
      cases parts with
      | nil =>
          rw [joined, String.intercalate_singleton] at h
          exact Or.inr ⟨part, List.mem_cons_self, h⟩
      | cons next parts =>
          rw [joined, String.intercalate_cons_cons, String.toList_append, String.toList_append] at h
          rcases List.mem_append.mp h with h | h
          · rcases List.mem_append.mp h with h | h
            · exact Or.inr ⟨part, List.mem_cons_self, h⟩
            · exact Or.inl h
          · refine (ih h).imp_right ?_
            rintro ⟨other, hother, hc⟩
            exact ⟨other, List.mem_cons_of_mem part hother, hc⟩

/-- Texts without blanks at their ends make such a text with a separator between them. -/
theorem stripped_joined {sep : String} {parts : List String} (hsome : parts ≠ [])
    (h : ∀ part ∈ parts, stripped part = part ∧ part ≠ "") :
    stripped (joined sep parts) = joined sep parts ∧ joined sep parts ≠ "" := by
  induction parts with
  | nil => exact absurd rfl hsome
  | cons part parts ih =>
      obtain ⟨⟨hpart, hne⟩, hparts⟩ := List.forall_mem_cons.mp h
      cases parts with
      | nil =>
          rw [joined, String.intercalate_singleton]
          exact ⟨hpart, hne⟩
      | cons next parts =>
          obtain ⟨hmore, hmoreNe⟩ := ih (List.cons_ne_nil _ _) hparts
          obtain ⟨hfirst, -⟩ := not_blank_of_stripped hpart
          obtain ⟨-, hlast⟩ := not_blank_of_stripped hmore
          have htext : part.toList ≠ [] := fun h => hne (String.toList_eq_nil_iff.mp h)
          have hmoreText : (joined sep (next :: parts)).toList ≠ [] := fun h =>
            hmoreNe (String.toList_eq_nil_iff.mp h)
          have hjoined : (joined sep (part :: next :: parts)).toList =
              part.toList ++ (sep.toList ++ (joined sep (next :: parts)).toList) := by
            rw [joined, String.intercalate_cons_cons, String.toList_append, String.toList_append,
              List.append_assoc]
            rfl
          refine ⟨stripped_eq_self ?_ ?_, ?_⟩
          · rwa [hjoined, List.head?_append_of_ne_nil _ htext]
          · rwa [hjoined, ← List.append_assoc, List.getLast?_append_of_ne_nil _ hmoreText]
          · rw [← String.toList_inj.ne, hjoined]
            exact List.append_ne_nil_of_left_ne_nil htext _

end Pieces

/-- What is not a small letter is not made by lowering. -/
theorem eq_of_toLower_eq {c d : Char} (hd : ¬('a' ≤ d ∧ d ≤ 'z')) (h : c.toLower = d) : c = d := by
  unfold Char.toLower at h
  split at h
  next hupper =>
    obtain ⟨hlow, hhigh⟩ := hupper
    refine absurd ?_ hd
    subst h
    simp only [Char.le_def, ge_iff_le, UInt32.le_iff_toNat_le, UInt32.toNat_add] at hlow hhigh ⊢
    simp at hlow hhigh ⊢
    omega
  next => exact h

theorem lowered_eq_one_iff (s : String) : lowered s = "1" ↔ s = "1" := by
  rw [← String.toList_inj, ← String.toList_inj, lowered, String.toList_map]
  have hone : "1".toList = ['1'] := rfl
  rw [hone, List.map_eq_singleton_iff]
  constructor
  · rintro ⟨c, hs, hc⟩
    rw [hs, eq_of_toLower_eq (by decide) hc]
  · intro hs
    exact ⟨'1', hs, by decide⟩

end ContractBench.Text
