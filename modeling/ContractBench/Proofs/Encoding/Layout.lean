import ContractBench.Encoding.Layout
import ContractBench.Proofs.Traversal

/-! # Parts without an encoding

Arrays and tuples are encoded part by part. Where a part has no encoding, or a tuple has another
number of values than of components, the whole has none.
-/

namespace ContractBench.Encoding

variable {type : AbiType} {types before after : List AbiType} {y : Value}
  {ys front back : List Value}

theorem encode?_tuple (types : List AbiType) (ys : List Value) :
    encode? (.tuple types) (.tuple ys) = (componentParts? types ys).map Part.layout := by
  have hitems : sequence? (.tuple ys) = some ys := rfl
  rw [encode?, hitems, Option.map_eq_bind]
  rfl

theorem itemParts?_eq_none {encode : Value → Option (List UInt8)} {deferred : Bool} (hy : y ∈ ys)
    (hnone : encode y = none) : itemParts? encode deferred ys = none := by
  induction ys with
  | nil => cases hy
  | cons first ys ih =>
      rw [itemParts?]
      rcases List.mem_cons.mp hy with rfl | hy
      · rw [hnone]
        rfl
      · rw [ih hy]
        cases encode first <;> rfl

/-- An array has no encoding where an item has none. -/
theorem encode?_list_eq_none {itemType : AbiType}
    (htype : type = .array itemType ∨ ∃ length, type = .fixedArray itemType length) (hy : y ∈ ys)
    (hnone : encode? itemType y = none) : encode? type (.list ys) = none := by
  have hparts := @itemParts?_eq_none _ _ _ itemType.isDynamic hy hnone
  rcases htype with rfl | ⟨length, rfl⟩
  · rw [encode?]
    simp only [sequence?, Option.bind_eq_bind, Option.bind_some, hparts, Option.bind_none]
  · rw [encode?]
    simp only [sequence?, Option.bind_eq_bind, Option.bind_some, hparts, Option.bind_none,
      ite_self]

theorem length_of_componentParts? {parts : List Part} (h : componentParts? types ys = some parts) :
    types.length = ys.length := by
  induction types generalizing ys parts with
  | nil =>
      cases ys with
      | nil => rfl
      | cons y ys => cases h
  | cons type types ih =>
      cases ys with
      | nil => cases h
      | cons y ys =>
          rw [componentParts?] at h
          obtain ⟨bytes, -, hrest⟩ := Option.bind_eq_some_iff.mp h
          obtain ⟨more, hmore, -⟩ := Option.bind_eq_some_iff.mp hrest
          rw [List.length_cons, List.length_cons, ih hmore]

theorem componentParts?_append_eq_none (hlength : before.length = front.length)
    (hnone : encode? type y = none) :
    componentParts? (before ++ type :: after) (front ++ y :: back) = none := by
  induction before generalizing front with
  | nil =>
      obtain rfl := List.length_eq_zero_iff.mp hlength.symm
      rw [List.nil_append, List.nil_append, componentParts?, hnone]
      rfl
  | cons first before ih =>
      obtain ⟨z, front, rfl⟩ := List.exists_cons_of_length_eq_add_one hlength.symm
      rw [List.cons_append, List.cons_append, componentParts?, ih (Nat.succ.inj hlength)]
      cases encode? first z <;> rfl

/-- A tuple has no encoding where a component has none. -/
theorem encode?_tuple_eq_none (hlength : before.length = front.length)
    (hnone : encode? type y = none) :
    encode? (.tuple (before ++ type :: after)) (.tuple (front ++ y :: back)) = none := by
  rw [encode?_tuple, componentParts?_append_eq_none hlength hnone, Option.map_none]

theorem componentParts?_eq_none {α : Type} {rows : List α} {type : α → AbiType}
    {coerce : α → Option Value} {row : α} (hys : rows.mapM coerce = some ys) (hrow : row ∈ rows)
    (hnone : ∀ y, coerce row = some y → encode? (type row) y = none) :
    componentParts? (rows.map type) ys = none := by
  obtain ⟨before, after, rfl⟩ := List.append_of_mem hrow
  obtain ⟨ahead, y, behind, rfl, hlength, hy⟩ :=
    exists_of_forall₂_append (mapM_eq_some_iff.mp hys)
  rw [List.map_append, List.map_cons]
  exact componentParts?_append_eq_none ((List.length_map type).trans hlength.symm) (hnone y hy)

end ContractBench.Encoding
