import ContractBench.Argument.ArgumentType
import ContractBench.Encoding.Coercion
import ContractBench.Proofs.Text.Trimming
import Mathlib.Data.List.Basic
import Mathlib.Data.List.TakeDrop
import Mathlib.Data.List.TakeWhile

/-! # Ways of reading types

The way in which a typed value is read against the array lengths of its type: what is taken as it
is typed has none, and what is cut at commas has one.
-/

namespace ContractBench.Encoding

section ArrayItem

variable {cs item : List Char}

/-- An array length behind a type on one line is recognised. -/
theorem arrayItem?_append {digits : List Char} (hitem : '\n' ∉ item)
    (hdigits : ∀ c ∈ digits, Text.isDecimal c = true) :
    arrayItem? (item ++ '[' :: (digits ++ [']'])) = some item := by
  have hreverse : (item ++ '[' :: (digits ++ [']'])).reverse =
      ']' :: (digits.reverse ++ '[' :: item.reverse) := by simp
  have hdrop : (digits.reverse ++ '[' :: item.reverse).dropWhile Text.isDecimal =
      '[' :: item.reverse := by
    rw [List.dropWhile_append_of_pos (by simpa using hdigits)]
    exact List.dropWhile_cons_of_neg (by decide)
  unfold arrayItem?
  rw [hreverse]
  simp [hdrop, hitem]

/-- What is recognised as an array type on one line ends in an array length. -/
theorem exists_of_arrayItem? (hline : '\n' ∉ cs) (h : arrayItem? cs = some item) :
    ∃ digits, cs = item ++ '[' :: (digits ++ [']']) ∧ ∀ c ∈ digits, Text.isDecimal c = true := by
  unfold arrayItem? at h
  split at h
  next rest hrest => exact absurd (List.mem_reverse.mp (hrest ▸ List.mem_cons_self)) hline
  next =>
    dsimp only at h
    split at h
    next inside hinside =>
      split at h
      next base hbase =>
        split at h
        next => cases h
        next =>
          cases h
          refine ⟨(inside.takeWhile Text.isDecimal).reverse, ?_, fun c hc =>
            List.mem_takeWhile_imp (List.mem_reverse.mp hc)⟩
          have hsplit : inside = inside.takeWhile Text.isDecimal ++ '[' :: base := by
            rw [← hbase, List.takeWhile_append_dropWhile]
          have hcs : cs = (']' :: inside).reverse := by rw [← hinside, List.reverse_reverse]
          rw [hcs, List.reverse_cons]
          conv_lhs => rw [hsplit]
          simp
      next => cases h
    next => cases h

theorem arrayItem?_eq_none_of_notMem (hline : '\n' ∉ cs) (h : '[' ∉ cs) : arrayItem? cs = none := by
  cases hitem : arrayItem? cs with
  | none => rfl
  | some item =>
      obtain ⟨digits, rfl, -⟩ := exists_of_arrayItem? hline hitem
      simp at h

theorem withoutArrays_of_none (h : arrayItem? cs = none) (fuel : Nat) :
    withoutArrays fuel cs = (cs, 0) := by
  cases fuel with
  | zero => rfl
  | succ fuel => rw [withoutArrays, h]

theorem base_eq_of_depth {fuel : Nat} {base : List Char} (h : withoutArrays fuel cs = (base, 0)) :
    base = cs := by
  cases fuel with
  | zero => cases h; rfl
  | succ fuel =>
      rw [withoutArrays] at h
      split at h
      next => cases h
      next => cases h; rfl

/-- A type that is an array of a type with no array length in it. -/
theorem withoutArrays_of_some (h : arrayItem? cs = some item) (hitem : arrayItem? item = none) :
    withoutArrays cs.length cs = (item, 1) := by
  cases cs with
  | nil => cases h
  | cons c cs =>
      rw [List.length_cons, withoutArrays, h]
      simp only [withoutArrays_of_none hitem]

end ArrayItem

end ContractBench.Encoding

namespace ContractBench.Argument

open Encoding

namespace ArgumentType

variable {cs : List Char}

/-- Whether values are read as JSON. -/
def isJson : ArgumentType → Bool
  | tuple _ | nested _ => true
  | _ => false

/-- A type on one line with a length between brackets behind it is taken apart. -/
theorem fixedParts?_append {item digits : List Char} (hne : item ≠ []) (hitem : '\n' ∉ item)
    (hsome : digits ≠ []) (hdigits : ∀ c ∈ digits, Text.isDecimal c = true) :
    fixedParts? (item ++ '[' :: (digits ++ [']'])) = some (item, digits) := by
  have hreverse : (item ++ '[' :: (digits ++ [']'])).reverse =
      ']' :: (digits.reverse ++ '[' :: item.reverse) := by simp
  have hspan : (digits.reverse ++ '[' :: item.reverse).span Text.isDecimal =
      (digits.reverse, '[' :: item.reverse) :=
    Text.span_append (by simpa using hdigits) (by simp [show Text.isDecimal '[' = false by decide])
  obtain ⟨d, ds, hds⟩ := List.exists_cons_of_ne_nil (List.reverse_ne_nil_iff.mpr hsome)
  have hback : (d :: ds).reverse = digits := by rw [← hds, List.reverse_reverse]
  simp only [fixedParts?, hreverse, hspan]
  rw [hds]
  simp only [hback, List.reverse_reverse, ne_eq, List.reverse_eq_nil_iff, hne, List.mem_reverse,
    hitem, not_false_eq_true, and_self, if_true]

theorem exists_of_fixedParts? {item digits : List Char} (h : fixedParts? cs = some (item, digits)) :
    cs = item ++ '[' :: (digits ++ [']']) ∧ item ≠ [] ∧ '\n' ∉ item ∧ digits ≠ [] ∧
      ∀ c ∈ digits, Text.isDecimal c = true := by
  unfold fixedParts? at h
  split at h
  next inside hinside =>
    rw [List.span_eq_takeWhile_dropWhile] at h
    split at h
    next => cases h
    next ds base hsome hspan =>
      split at h
      next hbase =>
        cases h
        obtain ⟨rfl, hrest⟩ := Prod.mk.inj hspan
        have hsplit : inside = inside.takeWhile Text.isDecimal ++ '[' :: base := by
          rw [← hrest, List.takeWhile_append_dropWhile]
        have hcs : cs = (']' :: inside).reverse := by rw [← hinside, List.reverse_reverse]
        refine ⟨?_, List.reverse_ne_nil_iff.mpr hbase.1, by simpa using hbase.2,
          List.reverse_ne_nil_iff.mpr hsome, fun c hc =>
            List.mem_takeWhile_imp (List.mem_reverse.mp hc)⟩
        rw [hcs, List.reverse_cons]
        conv_lhs => rw [hsplit]
        simp
      next => cases h
    next => cases h
  next => cases h

/-- Behind digits no empty brackets stand. -/
theorem not_suffix_of_digits {base digits : List Char} (hsome : digits ≠ [])
    (hdigits : ∀ c ∈ digits, Text.isDecimal c = true) :
    ¬['[', ']'] <:+ base ++ '[' :: (digits ++ [']']) := by
  rintro ⟨front, hfront⟩
  obtain ⟨d, ds, hds⟩ := List.exists_cons_of_ne_nil (List.reverse_ne_nil_iff.mpr hsome)
  have hback := congrArg List.reverse hfront
  simp only [List.reverse_append, List.reverse_cons, List.reverse_nil, List.nil_append,
    List.cons_append, hds, List.cons.injEq] at hback
  have hmem : d ∈ digits := List.mem_reverse.mp (hds ▸ List.mem_cons_self)
  rw [← hback.2.1] at hmem
  exact absurd (hdigits _ hmem) (by decide)

/-- A type with a length in brackets behind it, which are the only ones. -/
structure Sized (cs item digits : List Char) : Prop where
  split : cs = item ++ '[' :: (digits ++ [']'])
  item_ne : item ≠ []
  line : '\n' ∉ item
  flat : '[' ∉ item
  digits_ne : digits ≠ []
  decimal : ∀ c ∈ digits, Text.isDecimal c = true

/-- All that a type without blanks at its ends can tell about how its values are read. -/
inductive Tells (cs : List Char) : Except Fault ArgumentType → Prop
  | nested (h : 1 < cs.count '[' ∨ tupleWord ++ ['['] <+: cs) :
      Tells cs (.ok (.nested (String.ofList cs)))
  | tuple (h : tupleWord <+: cs) : Tells cs (.ok (.tuple (String.ofList cs)))
  | array {item : List Char} (htuple : ¬tupleWord <+: cs) (hflat : '[' ∉ item)
      (hsplit : cs = item ++ ['[', ']']) : Tells cs (.ok (.array (String.ofList item)))
  | scalar (htuple : ¬tupleWord <+: cs) (hsuffix : ¬['[', ']'] <:+ cs)
      (hparts : fixedParts? cs = none) : Tells cs (.ok (.scalar (String.ofList cs)))
  | fixedArray {item digits : List Char} {n : Int} (htuple : ¬tupleWord <+: cs)
      (hsized : Sized cs item digits) (hn : Numeral.decimal? (String.ofList digits) = some n) :
      Tells cs (.ok (.fixedArray (String.ofList item) n.toNat))
  | long {item digits : List Char} (htuple : ¬tupleWord <+: cs) (hsized : Sized cs item digits)
      (hnone : Numeral.decimal? (String.ofList digits) = none) :
      Tells cs (.error .numeralTooLong)

theorem tells_ofChars (cs : List Char) : Tells cs (ofChars cs) := by
  unfold ofChars
  dsimp only
  split
  next hnested => exact .nested (hnested.imp_right List.isPrefixOf_iff_prefix.mp)
  next hother =>
    -- In front of the only bracket stands none.
    have hflat {item rest : List Char} (hcs : cs = item ++ '[' :: rest) : '[' ∉ item := by
      obtain ⟨hcount, -⟩ := not_or.mp hother
      rw [hcs, List.count_append, List.count_cons_self] at hcount
      exact List.count_eq_zero.mp (by omega)
    split
    next htuple => exact .tuple (List.isPrefixOf_iff_prefix.mp htuple)
    next htuple =>
      have htuple : ¬tupleWord <+: cs := fun h => htuple (List.isPrefixOf_iff_prefix.mpr h)
      split
      next hsuffix =>
        obtain ⟨item, hitem⟩ := List.isSuffixOf_iff_suffix.mp hsuffix
        have htake : cs.take (cs.length - 2) = item := by simp [← hitem]
        rw [htake]
        exact .array htuple (hflat hitem.symm) hitem.symm
      next hsuffix =>
        have hsuffix : ¬['[', ']'] <:+ cs := fun h => hsuffix (List.isSuffixOf_iff_suffix.mpr h)
        split
        next hparts => exact .scalar htuple hsuffix hparts
        next item digits hparts =>
          obtain ⟨hcs, hne, hline, hsome, hdigits⟩ := exists_of_fixedParts? hparts
          have hsized : Sized cs item digits := ⟨hcs, hne, hline, hflat hcs, hsome, hdigits⟩
          split
          next n hn => exact .fixedArray htuple hsized hn
          next hnone => exact .long htuple hsized hnone

section Ways

variable {item digits : List Char}

/-- A type with more than one bracket that opens is read as JSON. -/
theorem ofChars_of_brackets (h : 1 < cs.count '[') :
    ofChars cs = .ok (.nested (String.ofList cs)) := by
  rw [ofChars, if_pos (Or.inl h)]

/-- A type with at most one bracket that is no tuple is told by what it ends in. -/
theorem ofChars_of_flat (hcount : cs.count '[' ≤ 1) (htuple : ¬tupleWord <+: cs) :
    ofChars cs =
      if ['[', ']'].isSuffixOf cs then .ok (.array (String.ofList (cs.take (cs.length - 2))))
      else
        match fixedParts? cs with
        | none => .ok (.scalar (String.ofList cs))
        | some (base, digits) =>
            match Numeral.decimal? (String.ofList digits) with
            | some n => .ok (.fixedArray (String.ofList base) n.toNat)
            | none => .error .numeralTooLong := by
  have hnested : ¬(1 < cs.count '[' ∨ (tupleWord ++ ['[']).isPrefixOf cs = true) := by
    rintro (hmany | harray)
    · omega
    · exact htuple ((List.prefix_append _ _).trans (List.isPrefixOf_iff_prefix.mp harray))
  exact (if_neg hnested).trans (if_neg (mt List.isPrefixOf_iff_prefix.mp htuple))

/-- A text without brackets that does not begin as that of a tuple is one of values without
parts. -/
theorem ofChars_of_notMem (hflat : '[' ∉ cs) (htuple : ¬tupleWord <+: cs) :
    ofChars cs = .ok (.scalar (String.ofList cs)) := by
  have hsuffix : ¬['[', ']'].isSuffixOf cs = true := fun h =>
    hflat ((List.isSuffixOf_iff_suffix.mp h).subset List.mem_cons_self)
  have hparts : fixedParts? cs = none := by
    cases hparts : fixedParts? cs with
    | none => rfl
    | some parts =>
        obtain ⟨hcs, -⟩ := exists_of_fixedParts? hparts
        exact absurd (hcs ▸ List.mem_append_right _ List.mem_cons_self) hflat
  rw [ofChars_of_flat (by simp [List.count_eq_zero.mpr hflat]) htuple, if_neg hsuffix, hparts]

theorem ofChars_append_any (hitem : '[' ∉ item) (htuple : ¬tupleWord <+: item ++ ['[', ']']) :
    ofChars (item ++ ['[', ']']) = .ok (.array (String.ofList item)) := by
  have hcount : (item ++ ['[', ']']).count '[' ≤ 1 := by
    simp [List.count_append, List.count_eq_zero.mpr hitem]
  have hsuffix : ['[', ']'].isSuffixOf (item ++ ['[', ']']) = true :=
    List.isSuffixOf_iff_suffix.mpr (List.suffix_append _ _)
  rw [ofChars_of_flat hcount htuple, if_pos hsuffix]
  simp

theorem ofChars_append_exactly (hne : item ≠ []) (hline : '\n' ∉ item) (hitem : '[' ∉ item)
    (hsome : digits ≠ []) (hdigits : ∀ c ∈ digits, Text.isDecimal c = true)
    (htuple : ¬tupleWord <+: item ++ '[' :: (digits ++ [']'])) :
    ofChars (item ++ '[' :: (digits ++ [']'])) =
      match Numeral.decimal? (String.ofList digits) with
      | some n => .ok (.fixedArray (String.ofList item) n.toNat)
      | none => .error .numeralTooLong := by
  have hopen : '[' ∉ digits := fun h => absurd (hdigits _ h) (by decide)
  have hcount : (item ++ '[' :: (digits ++ [']'])).count '[' ≤ 1 := by
    simp [List.count_append, List.count_eq_zero.mpr hitem, List.count_eq_zero.mpr hopen]
  have hsuffix : ¬['[', ']'].isSuffixOf (item ++ '[' :: (digits ++ [']'])) = true := fun h =>
    not_suffix_of_digits hsome hdigits (List.isSuffixOf_iff_suffix.mp h)
  rw [ofChars_of_flat hcount htuple, if_neg hsuffix, fixedParts?_append hne hline hsome hdigits]

end Ways

/-- A type that is not taken apart, and that no empty brackets end, is no array. -/
theorem arrayItem?_eq_none_of_fixedParts? (hline : '\n' ∉ cs) (hfirst : cs.head? ≠ some '[')
    (hsuffix : ¬['[', ']'] <:+ cs) (hparts : fixedParts? cs = none) : arrayItem? cs = none := by
  cases hitem : arrayItem? cs with
  | none => rfl
  | some item =>
      obtain ⟨digits, rfl, hdigits⟩ := exists_of_arrayItem? hline hitem
      have hsome : digits ≠ [] := by
        rintro rfl
        exact hsuffix (List.suffix_append _ _)
      have hne : item ≠ [] := by
        rintro rfl
        exact hfirst rfl
      have hitemLine : '\n' ∉ item := fun h => hline (List.mem_append_left _ h)
      cases hparts.symm.trans (fixedParts?_append hne hitemLine hsome hdigits)

/-- All that a type on one line without blanks at its ends can tell about reading. -/
theorem ofChars_cases {way : ArgumentType} (hline : '\n' ∉ cs) (hfirst : cs.head? ≠ some '[')
    (h : ofChars cs = .ok way) :
    (way.isJson = true ∧ (1 < cs.count '[' ∨ tupleWord <+: cs)) ∨
    (¬tupleWord <+: cs ∧ way = .scalar (String.ofList cs) ∧ arrayItem? cs = none) ∨
    ¬tupleWord <+: cs ∧ ∃ item, arrayItem? cs = some item ∧ arrayItem? item = none ∧ item <+: cs ∧
      (way = .array (String.ofList item) ∨ ∃ n, way = .fixedArray (String.ofList item) n) := by
  have htells := tells_ofChars cs
  rw [h] at htells
  have hinner {item rest : List Char} (hflat : '[' ∉ item) (hcs : cs = item ++ rest) :
      arrayItem? item = none :=
    arrayItem?_eq_none_of_notMem (fun h => hline (hcs ▸ List.mem_append_left _ h)) hflat
  cases htells with
  | nested hnested => exact Or.inl ⟨rfl, hnested.imp_right (List.prefix_append _ _).trans⟩
  | tuple htuple => exact Or.inl ⟨rfl, Or.inr htuple⟩
  | scalar htuple hsuffix hparts =>
      exact Or.inr (Or.inl ⟨htuple, rfl,
        arrayItem?_eq_none_of_fixedParts? hline hfirst hsuffix hparts⟩)
  | @array item htuple hflat hsplit =>
      have hitem : arrayItem? (item ++ ['[', ']']) = some item :=
        @arrayItem?_append item [] (fun h => hline (hsplit ▸ List.mem_append_left _ h))
          (List.forall_mem_nil _)
      exact Or.inr (Or.inr ⟨htuple, item, hsplit ▸ hitem, hinner hflat hsplit,
        hsplit ▸ List.prefix_append _ _, Or.inl rfl⟩)
  | @fixedArray item digits n htuple hsized =>
      have hitem := arrayItem?_append hsized.line hsized.decimal
      exact Or.inr (Or.inr ⟨htuple, item, hsized.split ▸ hitem, hinner hsized.flat hsized.split,
        hsized.split ▸ List.prefix_append _ _, Or.inr ⟨_, rfl⟩⟩)

end ArgumentType

end ContractBench.Argument
