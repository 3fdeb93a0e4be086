import ContractBench.Argument.Call
import ContractBench.Proofs.Argument.TypeReading
import ContractBench.Proofs.Encoding.Descent
import ContractBench.Proofs.Encoding.TextArguments
import ContractBench.Proofs.Encoding.TypeGrammar

/-! # Agreement on one parameter

The text typed for a parameter is read as an argument by the way of its type, and where arguments
are encoded it is read once more. The module says for which texts both make the same value.
-/

namespace ContractBench.Argument

open Encoding

section Scalars

variable {base : String} {cs : List Char} {x : Value}

/-- A scalar is brought into the form that its text is brought into. -/
theorem coerceLeaf_of_scalar? (hbase : Text.stripped base = base) (h : scalar? base cs = some x) :
    coerceLeaf base x = coerceLeaf base (.text (String.ofList (Text.trim cs))) := by
  simp only [scalar?, hbase] at h
  split at h
  next => cases h
  next =>
    split at h
    next hbool =>
      cases h
      have hplain : plainText? (.text (String.ofList (Text.trim cs))) =
          some (String.ofList (Text.trim cs)) := by
        rw [plainText?_text, Text.stripped_ofList_trim]
      have hone : (Text.lowered (String.ofList (Text.trim cs)) == "1") =
          (String.ofList (Text.trim cs) == "1") := by
        rw [Bool.eq_iff_iff, beq_iff_eq, beq_iff_eq, Text.lowered_eq_one_iff]
      have hleaf (v : Value) : coerceLeaf base v = coerceTruth v := by
        subst hbool
        rfl
      rw [hleaf, hleaf]
      simp only [coerceTruth, hplain]
      simp [hone]
    next =>
      cases h
      rfl

/-- What is not blank is a scalar. -/
theorem exists_scalar? (base : String) (h : Text.trim cs ≠ []) : ∃ x, scalar? base cs = some x := by
  simp only [scalar?, if_neg h]
  split
  next => exact ⟨_, rfl⟩
  next => exact ⟨_, rfl⟩

theorem scalars?_of_elements {type : String} {xs : List Value}
    (h : elements type base cs = .ok xs) : scalars? base (Text.pieces ',' cs) = some xs := by
  unfold elements at h
  split at h
  next hscalars =>
    cases h
    exact hscalars
  next => cases h

theorem coerceItems_of_scalars? (hbase : Text.stripped base = base) {pieces : List (List Char)}
    {xs : List Value} (h : scalars? base pieces = some xs) :
    coerceItems (coerceLeaf base) xs =
      coerceItems (coerceLeaf base)
        (pieces.map fun piece => .text (String.ofList (Text.trim piece))) := by
  induction pieces generalizing xs with
  | nil =>
      cases h
      rfl
  | cons piece pieces ih =>
      obtain ⟨x, hx, hrest⟩ := Option.bind_eq_some_iff.mp h
      obtain ⟨rest, hscalars, heq⟩ := Option.bind_eq_some_iff.mp hrest
      cases heq
      rw [List.map_cons, coerceItems, coerceItems, coerceLeaf_of_scalar? hbase hx, ih hscalars]

/-- No array of what is judged by digits is cut from a text in brackets. -/
theorem coerceItems_of_bracket (hjudged : isJudgedByDigits base = true) {cs : List Char} :
    coerceItems (coerceLeaf base) ((Text.pieces ',' ('[' :: cs)).map fun piece =>
      .text (String.ofList (Text.trim piece))) = none := by
  obtain ⟨piece, rest, hpieces⟩ := Text.pieces_cons_of_ne (by decide : '[' ≠ ',') cs
  obtain ⟨ds, hds⟩ := Text.trim_of_not_blank (by decide : Text.isBlank '[' = false) piece
  have hnone := coerceLeaf_of_opening (s := String.ofList ('[' :: ds)) hjudged
    (by decide : '[' ∈ openings) String.toList_ofList
  rw [hpieces, List.map_cons, hds, coerceItems, hnone]
  rfl

end Scalars

/-- Whether the texts of a type are read as JSON. -/
def ReadAsJson (type : String) : Prop :=
  ∃ way, ArgumentType.ofText type = .ok way ∧ way.isJson = true

/-- A text is read alike as an argument and where it is encoded as it is: its type is no array, or
one of values that are judged by their digits, or the text begins with a bracket just where the type
is read as JSON. -/
def ReadAlike (type text : String) : Prop :=
  (withoutArrays type.length type.toList).2 = 0 ∨
    isJudgedByDigits (String.ofList (withoutArrays type.length type.toList).1) = true ∨
    (ReadAsJson type ↔ text.toList.head? = some '[')

section Parameter

variable {type text : String} {name : Option Value} {components : List Parameter} {v x y : Value}

theorem coerce?_eq {base : List Char} {depth : Nat}
    (hbase : String.ofList base ≠ Parameter.tupleWord)
    (harrays : withoutArrays type.length type.toList = (base, depth)) (v : Value) :
    coerce? (.mk type name components) v =
      coerceArrays (coerceLeaf (String.ofList base)) depth v := by
  rw [coerce?, harrays]
  simp only [if_neg hbase]

/-- A text that is no array of what is judged by digits is read alike in brackets. -/
theorem coerce?_of_bracket {cs : List Char} {base : List Char} {depth : Nat}
    (harrays : withoutArrays type.length type.toList = (base, depth + 1))
    (htext : text.toList = '[' :: cs) (hread : Json.read text = .ok v) :
    coerce? (.mk type name components) (.text text) = coerce? (.mk type name components) v := by
  have hitems := arrayItems?_of_bracket htext hread
  rw [coerce?, coerce?, harrays]
  simp only [coerceArrays, hitems]

theorem eq_ok_of_tupleIn {outcome : Except Json.ReadError Value} (h : tupleIn outcome = .ok v) :
    outcome = .ok v ∧ ((∃ xs, v = .list xs) ∨ ∃ entries, v = .table entries) := by
  unfold tupleIn at h
  split at h
  next xs =>
    cases h
    exact ⟨rfl, Or.inl ⟨xs, rfl⟩⟩
  next entries =>
    cases h
    exact ⟨rfl, Or.inr ⟨entries, rfl⟩⟩
  next => cases h

/-- What a type that is read as JSON makes of a text is what it writes. -/
theorem read_of_isJson {way : ArgumentType} {cs : List Char} (hjson : way.isJson = true)
    (h : readAs type way cs = .ok v) : Json.read (String.ofList cs) = .ok v := by
  cases way with
  | tuple => exact (eq_ok_of_tupleIn h).1
  | nested =>
      simp only [readAs] at h
      unfold nestedIn at h
      split at h <;> cases h
      assumption
  | _ => cases hjson

/-- A text that is cut at its commas becomes a list of its elements. -/
theorem exists_elements_of_readAs {way : ArgumentType} {base : String} {cs : List Char}
    (hway : way = .array base ∨ ∃ n, way = .fixedArray base n) (h : readAs type way cs = .ok v) :
    ∃ xs, scalars? base (Text.pieces ',' cs) = some xs ∧ v = .list xs := by
  rcases hway with rfl | ⟨n, rfl⟩
  · obtain ⟨xs, hxs, rfl⟩ := map_eq_ok_iff.mp h
    exact ⟨xs, scalars?_of_elements hxs, rfl⟩
  · obtain ⟨xs, hxs, hlength⟩ := bind_eq_ok_iff.mp h
    split at hlength <;> cases hlength
    exact ⟨xs, scalars?_of_elements hxs, rfl⟩

/-- What is typed is read as one argument, in the way of the type. -/
theorem exists_way_of_read {argument : Option Value} (htrim : Text.trim text.toList = text.toList)
    (hne : text ≠ "") (h : read text type = .ok argument) :
    ∃ way v, ArgumentType.ofText type = .ok way ∧ readAs type way text.toList = .ok v ∧
      argument = some v := by
  have hsome : text.toList ≠ [] := fun h => hne (String.toList_eq_nil_iff.mp h)
  simp only [read, htrim, if_neg hsome] at h
  obtain ⟨way, hway, hrest⟩ := bind_eq_ok_iff.mp h
  obtain ⟨v, hv, heq⟩ := bind_eq_ok_iff.mp hrest
  cases heq
  exact ⟨way, v, orFail_eq_ok.mp hway, hv, rfl⟩

/-- A tuple is read alike, as it is JSON in any case. -/
theorem coerce?_tuple (hread : tupleIn (Json.read text) = .ok v) :
    coerce? (.mk Parameter.tupleWord name components) (.text text) =
      coerce? (.mk Parameter.tupleWord name components) v := by
  obtain ⟨hjson, hshape⟩ := eq_ok_of_tupleIn hread
  have hvalues : tupleValues? components (.text text) = tupleValues? components v := by
    rcases hshape with ⟨xs, rfl⟩ | ⟨entries, rfl⟩ <;>
      simp [tupleValues?, Json.read?, hjson, Except.toOption]
  rw [coerce?_tupleWord, coerce?_tupleWord, hvalues]

end Parameter

section Agreement

variable {type text : String} {name : Option Value} {components : List Parameter}
  {abiType : AbiType} {v x y : Value}

/-- The text of a type that is encoded is read without its blanks, as it has none. -/
theorem ofText_of_canonical
    (htype : typeOf (Parameter.canonical (.mk type name components)) = .ok abiType) :
    ArgumentType.ofText type = ArgumentType.ofChars type.toList := by
  rw [ArgumentType.ofText, Text.trim_of_unblank (not_blank_of_canonical htype)]

theorem stripped_of_canonical {base : List Char}
    (htype : typeOf (Parameter.canonical (.mk type name components)) = .ok abiType)
    (hlead : base <+: type.toList) : Text.stripped (String.ofList base) = String.ofList base := by
  rw [Text.stripped, String.toList_ofList, Text.trim_of_unblank fun c hc =>
    not_blank_of_canonical htype c (hlead.subset hc)]

theorem ofList_ne_tupleWord {base cs : List Char} (hlead : base <+: cs)
    (hother : ¬ArgumentType.tupleWord <+: cs) : String.ofList base ≠ Parameter.tupleWord := by
  intro heq
  have hword : base = ArgumentType.tupleWord := by
    rw [← String.toList_inj, String.toList_ofList] at heq
    exact heq
  exact hother (hword ▸ hlead)

section Coerced

variable (hx : coerce? (.mk type name components) v = some x)
  (hy : coerce? (.mk type name components) (.text text) = some y)

include hx hy

/-- Without array lengths only a tuple is read as JSON and encoded. -/
theorem eq_of_isJson_of_flat {way : ArgumentType} {base : List Char}
    (htype : typeOf (Parameter.canonical (.mk type name components)) = .ok abiType)
    (hencode : (encode? abiType y).isSome = true)
    (hway : ArgumentType.ofText type = .ok way) (hread : readAs type way text.toList = .ok v)
    (hparts : 1 < type.toList.count '[' ∨ ArgumentType.tupleWord <+: type.toList)
    (harrays : withoutArrays type.length type.toList = (base, 0)) : x = y := by
  have hbase := base_eq_of_depth harrays
  subst hbase
  by_cases htuple : type = Parameter.tupleWord
  · subst htuple
    have htupleWay :
        ArgumentType.ofText Parameter.tupleWord = .ok (.tuple Parameter.tupleWord) := by
      decide
    cases hway.symm.trans htupleWay
    rw [readAs, String.ofList_toList] at hread
    rw [coerce?_tuple hread, hx] at hy
    exact Option.some.inj hy
  · -- The text is taken as it is, and no text is encoded as a type with parts.
    rw [coerce?_eq (by rwa [String.ofList_toList]) harrays, String.ofList_toList] at hy
    obtain ⟨elementary, rfl⟩ := exists_elementary_of_encode? (sequence?_of_coerceLeaf hy) hencode
    exact absurd htype (not_elementary_of_canonical hparts)

/-- An array that is read as JSON is a text in brackets, or one of what is judged by digits; then
another text has no items, or nothing in it is judged to be something. -/
theorem eq_of_isJson_of_array {c : Char} {cs base : List Char} {depth : Nat}
    (hread : Json.read text = .ok v) (htext : text.toList = c :: cs)
    (hblank : Text.isBlank c = false)
    (harrays : withoutArrays type.length type.toList = (base, depth + 1))
    (halike : isJudgedByDigits (String.ofList base) = true ∨ c = '[') : x = y := by
  by_cases hbracket : c = '['
  · subst hbracket
    rw [coerce?_of_bracket harrays htext hread, hx] at hy
    exact Option.some.inj hy
  · have hjudged := halike.resolve_right hbracket
    have hbase : String.ofList base ≠ Parameter.tupleWord := by
      intro heq
      rw [heq] at hjudged
      revert hjudged
      decide
    rw [coerce?_eq hbase harrays] at hx hy
    by_cases hopening : c ∈ openings
    · rw [coerceArrays_of_opening hjudged hopening hbracket htext] at hy
      cases hy
    · have hitems : v.items = .error (.notIterable v.kind) := by
        rw [← String.ofList_toList (s := text), htext] at hread
        refine Json.items_of_read hblank ?_ hbracket ?_ hread
        · rintro rfl
          exact hopening (by decide)
        · rintro rfl
          exact hopening (by decide)
      rw [coerceArrays_of_items hitems] at hx
      cases hx

/-- A text that is taken as it is typed. -/
theorem eq_of_scalar {base : List Char} (hbase : String.ofList base ≠ Parameter.tupleWord)
    (hstripped : Text.stripped (String.ofList base) = String.ofList base)
    (harrays : withoutArrays type.length type.toList = (base, 0))
    (htrim : Text.trim text.toList = text.toList)
    (hread : scalar? (String.ofList base) text.toList = some v) : x = y := by
  have hleaf := coerceLeaf_of_scalar? hstripped hread
  rw [htrim, String.ofList_toList] at hleaf
  rw [coerce?_eq hbase harrays] at hx hy
  exact Option.some.inj (hx.symm.trans (hleaf.trans hy))

/-- A text that is cut at its commas; in brackets it is none of what is judged by digits. -/
theorem eq_of_elements {base : List Char} {xs : List Value} {c : Char} {cs : List Char}
    (hbase : String.ofList base ≠ Parameter.tupleWord)
    (hstripped : Text.stripped (String.ofList base) = String.ofList base)
    (harrays : withoutArrays type.length type.toList = (base, 1))
    (htext : text.toList = c :: cs) (hblank : Text.isBlank c = false)
    (halike : isJudgedByDigits (String.ofList base) = true ∨ c ≠ '[')
    (hv : v = .list xs)
    (hread : scalars? (String.ofList base) (Text.pieces ',' text.toList) = some xs) : x = y := by
  subst hv
  have hitems := coerceItems_of_scalars? hstripped hread
  rw [coerce?_eq hbase harrays] at hx hy
  by_cases hbracket : c = '['
  · subst hbracket
    have hjudged := halike.resolve_right (not_not_intro rfl)
    rw [htext, coerceItems_of_bracket hjudged] at hitems
    rw [coerceArrays_one rfl, hitems] at hx
    cases hx
  · have hcut := arrayItems?_of_not_bracket (s := text)
      (by rw [head?_trimStart_of_cons hblank htext]; simpa using hbracket)
    rw [coerceArrays_one rfl, hitems] at hx
    rw [coerceArrays_one hcut] at hy
    exact Option.some.inj (hx.symm.trans hy)

end Coerced

/-- Of a text for an array that is read alike, a bracket in front tells how it is read, unless what
it holds is judged by digits. -/
theorem ReadAlike.judged_or_iff (h : ReadAlike type text) {c : Char} {cs base : List Char}
    {depth : Nat} (harrays : withoutArrays type.length type.toList = (base, depth + 1))
    (htext : text.toList = c :: cs) :
    isJudgedByDigits (String.ofList base) = true ∨ (ReadAsJson type ↔ c = '[') := by
  rw [ReadAlike, harrays, htext] at h
  rcases h with hdepth | hjudged | hiff
  · cases hdepth
  · exact Or.inl hjudged
  · exact Or.inr (by simpa using hiff)

/-- Both ways make the same value of a text that is read alike, if each makes one that is
encoded. -/
theorem eq_of_read (htype : typeOf (Parameter.canonical (.mk type name components)) = .ok abiType)
    (htrim : Text.trim text.toList = text.toList) (hne : text ≠ "") (halike : ReadAlike type text)
    (hread : read text type = .ok (some v))
    (hx : coerce? (.mk type name components) v = some x)
    (hy : coerce? (.mk type name components) (.text text) = some y)
    (hencode : (encode? abiType y).isSome = true) : x = y := by
  obtain ⟨c, cs, htext⟩ := List.exists_cons_of_ne_nil (fun h => hne (String.toList_eq_nil_iff.mp h))
  have hblank : Text.isBlank c = false :=
    Text.not_blank_of_head?_trim (by rw [htrim, htext]; rfl)
  obtain ⟨way, found, hway, hreadAs, hfound⟩ := exists_way_of_read htrim hne hread
  cases hfound
  have hline : '\n' ∉ type.toList := by
    intro h
    have hbreak := not_blank_of_canonical htype '\n' h
    revert hbreak
    decide
  have hcases := ArgumentType.ofChars_cases hline (head?_ne_of_canonical htype)
    ((ofText_of_canonical htype).symm.trans hway)
  -- The type is read as JSON, as it is typed, or as pieces between commas.
  rcases hcases with ⟨hjson, hparts⟩ | ⟨hother, rfl, hnone⟩ |
    ⟨hother, item, hitem, hinner, hlead, hcut⟩
  · cases harrays : withoutArrays type.length type.toList with
    | mk base depth =>
    cases depth with
    | zero => exact eq_of_isJson_of_flat hx hy htype hencode hway hreadAs hparts harrays
    | succ depth =>
        have hvalue := read_of_isJson hjson hreadAs
        rw [String.ofList_toList] at hvalue
        have hbracket := (halike.judged_or_iff harrays htext).imp_right
          fun hiff => hiff.mp ⟨way, hway, hjson⟩
        exact eq_of_isJson_of_array hx hy hvalue htext hblank harrays hbracket
  · have hsome : Text.trim text.toList ≠ [] := by
      rw [htrim, htext]
      exact List.cons_ne_nil _ _
    obtain ⟨scalar, hscalar⟩ := exists_scalar? (String.ofList type.toList) hsome
    rw [readAs, hscalar] at hreadAs
    cases hreadAs
    have hlead := List.prefix_refl type.toList
    exact eq_of_scalar hx hy (ofList_ne_tupleWord hlead hother) (stripped_of_canonical htype hlead)
      (withoutArrays_of_none hnone type.length) htrim hscalar
  · have harrays := withoutArrays_of_some hitem hinner
    rw [String.length_toList] at harrays
    obtain ⟨xs, hxs, rfl⟩ := exists_elements_of_readAs hcut hreadAs
    -- A text in brackets would be of a type that is read as JSON.
    have hnotJson : ¬ReadAsJson type := by
      rintro ⟨other, hotherWay, hjson⟩
      cases hway.symm.trans hotherWay
      rcases hcut with rfl | ⟨n, rfl⟩ <;> cases hjson
    have hbracket := (halike.judged_or_iff harrays htext).imp_right
      fun hiff heq => hnotJson (hiff.mpr heq)
    exact eq_of_elements hx hy (ofList_ne_tupleWord hlead hother)
      (stripped_of_canonical htype hlead) harrays htext hblank hbracket rfl hxs

end Agreement

end ContractBench.Argument
