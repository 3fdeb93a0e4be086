import ContractBench.Proofs.Argument.TypeReading

/-! # Along the type of a parameter

An argument is brought into form along the type of its parameter: item by item where the type ends
in an array length, component by component where it is that of a tuple, and as a whole elsewhere.
-/

namespace ContractBench.Encoding

section Depth

variable {cs item : List Char}

theorem length_lt_of_arrayItem? (h : arrayItem? cs = some item) : item.length < cs.length := by
  unfold arrayItem? at h
  extract_lets body at h
  -- A line end behind the length is not looked at.
  have hbody : body.length ≤ cs.length := by
    unfold body
    split
    next rest hrest =>
      have hlength := congrArg List.length hrest
      rw [List.length_reverse, List.length_cons] at hlength
      omega
    next => rw [List.length_reverse]
  refine Nat.lt_of_lt_of_le ?_ hbody
  clear_value body
  split at h
  next inside =>
    have hdrop := (List.dropWhile_suffix Text.isDecimal (l := inside)).length_le
    split at h
    next base hbase =>
      rw [hbase, List.length_cons] at hdrop
      split at h <;> cases h
      rw [List.length_cons, List.length_reverse]
      omega
    next => cases h
  next => cases h

/-- More steps than characters change nothing. -/
theorem withoutArrays_of_le {fuel : Nat} (hfuel : cs.length ≤ fuel) :
    withoutArrays fuel cs = withoutArrays cs.length cs := by
  induction hlength : cs.length using Nat.strongRecOn generalizing cs fuel with
  | ind n ih =>
      cases hitem : arrayItem? cs with
      | none => rw [withoutArrays_of_none hitem, withoutArrays_of_none hitem]
      | some item =>
          have hshort := length_lt_of_arrayItem? hitem
          obtain ⟨n, rfl⟩ : ∃ m, n = m + 1 := Nat.exists_eq_succ_of_ne_zero (by omega)
          obtain ⟨fuel, rfl⟩ : ∃ m, fuel = m + 1 := Nat.exists_eq_succ_of_ne_zero (by omega)
          have hmore {m : Nat} (hm : item.length ≤ m) :
              withoutArrays m item = withoutArrays item.length item :=
            ih item.length (by omega) hm rfl
          rw [withoutArrays, withoutArrays, hitem]
          simp only [@hmore fuel (by omega), @hmore n (by omega)]

/-- An array has one dimension more than its items. -/
theorem withoutArrays_of_item (h : arrayItem? cs = some item) :
    withoutArrays cs.length cs =
      ((withoutArrays item.length item).1, (withoutArrays item.length item).2 + 1) := by
  have hshort := length_lt_of_arrayItem? h
  obtain ⟨n, hn⟩ : ∃ n, cs.length = n + 1 := Nat.exists_eq_succ_of_ne_zero (by omega)
  rw [hn, withoutArrays, h]
  simp only [withoutArrays_of_le (show item.length ≤ n by omega)]

end Depth

section Steps

variable {type : String} {name : Option Value} {components : List Parameter} {item : List Char}

/-- An argument for an array is brought into form item by item. -/
theorem coerce?_of_item (h : arrayItem? type.toList = some item) (v : Value) :
    coerce? (.mk type name components) v =
      (arrayItems? v).bind fun xs =>
        (coerceItems (coerce? (.mk (String.ofList item) name components)) xs).map .list := by
  have harrays := withoutArrays_of_item h
  have hitem (x : Value) : coerce? (.mk (String.ofList item) name components) x =
      coerceArrays (fun v =>
        if String.ofList (withoutArrays item.length item).1 = Parameter.tupleWord then do
          let xs ← tupleValues? components v
          return .tuple (← coerceComponents? components xs)
        else
          coerceLeaf (String.ofList (withoutArrays item.length item).1) v)
        (withoutArrays item.length item).2 x := by
    rw [coerce?, String.toList_ofList, String.length_ofList]
  rw [coerce?, ← String.length_toList, harrays]
  simp only [coerceArrays, ← funext hitem]
  cases arrayItems? v with
  | none => rfl
  | some xs => rw [Option.bind_some, Option.map_eq_bind]; rfl

/-- An argument for a tuple is brought into form component by component. -/
theorem coerce?_tupleWord (v : Value) :
    coerce? (.mk Parameter.tupleWord name components) v =
      (tupleValues? components v).bind fun xs =>
        (coerceComponents? components xs).map .tuple := by
  have harrays : withoutArrays Parameter.tupleWord.length Parameter.tupleWord.toList =
      (Parameter.tupleWord.toList, 0) := by decide
  rw [coerce?, harrays]
  simp only [coerceArrays, String.ofList_toList, if_pos]
  cases tupleValues? components v with
  | none => rfl
  | some xs => rw [Option.bind_some, Option.map_eq_bind]; rfl

/-- An argument for a type without parts is brought into form as a whole. -/
theorem coerce?_of_leaf (hitem : arrayItem? type.toList = none)
    (htuple : type ≠ Parameter.tupleWord) (v : Value) :
    coerce? (.mk type name components) v = coerceLeaf type v := by
  rw [coerce?, withoutArrays_of_none hitem]
  simp only [coerceArrays, String.ofList_toList, if_neg htuple]

theorem coerceItems_eq_mapM (coerce : Value → Option Value) (xs : List Value) :
    coerceItems coerce xs = xs.mapM coerce := by
  induction xs with
  | nil => rfl
  | cons x xs ih => rw [coerceItems, ih, List.mapM_cons]

theorem coerceComponents?_map_eq_mapM {α : Type} (p : α → Parameter) (v : α → Value)
    (rows : List α) : coerceComponents? (rows.map p) (rows.map v) =
      rows.mapM fun row => coerce? (p row) (v row) := by
  induction rows with
  | nil => rfl
  | cons row rows ih => rw [List.map_cons, List.map_cons, coerceComponents?, ih, List.mapM_cons]

end Steps

end ContractBench.Encoding
