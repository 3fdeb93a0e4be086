import ContractBench.Proofs.Encoding.Layout
import ContractBench.Proofs.Encoding.Nesting
import ContractBench.Proofs.Encoding.Respelling

/-! # Lengths of tuple arguments

A list for a tuple is gone through as far as there are components. So a list with more elements, in
whatever place of the arguments, is encoded as its front, and what is left over is lost without a
failure. A list with fewer elements is never encoded.
-/

namespace ContractBench.Encoding

section Definitions

/-- Arguments for a parameter that differ in what another parameter receives in them: `u` in the
first and `u'` in the second. An array hands its items to the parameter of its items, and a tuple
its values to its components. -/
inductive Replaced (q : Parameter) (u u' : Value) : Parameter → Value → Value → Prop
  | here : Replaced q u u' q u u'
  | item {type : String} {name : Option Value} {components : List Parameter} {item : List Char}
      {v v' x x' : Value} {front back : List Value} (hitem : arrayItem? type.toList = some item)
      (hv : arrayItems? v = some (front ++ x :: back))
      (hv' : arrayItems? v' = some (front ++ x' :: back))
      (h : Replaced q u u' (.mk (String.ofList item) name components) x x') :
      Replaced q u u' (.mk type name components) v v'
  | component {name : Option Value} {before after : List Parameter} {c : Parameter}
      {v v' x x' : Value} {front back : List Value} (hlength : before.length = front.length)
      (hv : tupleValues? (before ++ c :: after) v = some (front ++ x :: back))
      (hv' : tupleValues? (before ++ c :: after) v' = some (front ++ x' :: back))
      (h : Replaced q u u' c x x') :
      Replaced q u u' (.mk Parameter.tupleWord name (before ++ c :: after)) v v'

/-- In an argument for a parameter another parameter receives a value, at any depth. -/
def Receives (p : Parameter) (v : Value) (q : Parameter) (u : Value) : Prop := Replaced q u u p v v

/-- A list, or a text of JSON that writes one. -/
inductive Lists : Value → List Value → Prop
  | list (xs : List Value) : Lists (.list xs) xs
  | text {s : String} {xs : List Value} (hread : Json.read? s = some (.list xs)) :
      Lists (.text s) xs
  | brokenText {points : List Nat} {xs : List Value}
      (hread : (Json.readPoints points).toOption = some (.list xs)) :
      Lists (.brokenText points) xs

end Definitions

section Surplus

variable {p q : Parameter} {u u' v v' : Value} {name : Option Value} {xs ys : List Value}
  {components before after : List Parameter} {front back : List Value}

theorem Lists.tupleValues? (h : Lists v xs) (components : List Parameter) :
    tupleValues? components v = some xs := by
  cases h with
  | list => rfl
  | text hread =>
      simp only [Encoding.tupleValues?, hread]
      rfl
  | brokenText hread =>
      simp only [Encoding.tupleValues?, hread]
      rfl

/-- Values behind those for the components are not looked at. -/
theorem coerceComponents?_take (components : List Parameter) (xs : List Value) :
    coerceComponents? components (xs.take components.length) = coerceComponents? components xs := by
  induction components generalizing xs with
  | nil => cases xs <;> rfl
  | cons component components ih =>
      cases xs with
      | nil => rfl
      | cons x xs =>
          rw [List.length_cons, List.take_succ_cons, coerceComponents?, coerceComponents?, ih]

theorem coerceComponents?_append (hlength : before.length = front.length)
    (components : List Parameter) (xs : List Value) :
    coerceComponents? (before ++ components) (front ++ xs) =
      (coerceComponents? before front).bind fun ys =>
        (coerceComponents? components xs).map (ys ++ ·) := by
  induction before generalizing front with
  | nil =>
      obtain rfl := List.length_eq_zero_iff.mp hlength.symm
      have hnil : coerceComponents? [] [] = some [] := rfl
      rw [List.nil_append, List.nil_append, hnil, Option.bind_some]
      simp
  | cons component before ih =>
      obtain ⟨x, front, rfl⟩ := List.exists_cons_of_length_eq_add_one hlength.symm
      rw [List.cons_append, List.cons_append, coerceComponents?, coerceComponents?,
        ih (Nat.succ.inj hlength)]
      cases coerce? component x with
      | none => rfl
      | some first =>
          cases coerceComponents? before front with
          | none => rfl
          | some ys => cases coerceComponents? components xs <;> rfl

/-- What a parameter receives can be replaced by any value. -/
theorem Replaced.exists_replaced (h : Replaced q u u' p v v') (w : Value) :
    ∃ v', Replaced q u w p v v' := by
  induction h with
  | here => exact ⟨w, .here⟩
  | item hitem hv hv' h ih =>
      obtain ⟨x, hx⟩ := ih
      exact ⟨.list _, .item hitem hv rfl hx⟩
  | component hlength hv hv' h ih =>
      obtain ⟨x, hx⟩ := ih
      exact ⟨.list _, .component hlength hv rfl hx⟩

/-- What two values become in a place that they make no difference in. -/
theorem Replaced.coerce?_eq (h : Replaced q u u' p v v') (heq : coerce? q u' = coerce? q u) :
    coerce? p v' = coerce? p v := by
  induction h with
  | here => exact heq
  | item hitem hv hv' h ih =>
      rw [coerce?_of_item hitem, coerce?_of_item hitem, hv, hv', Option.bind_some,
        Option.bind_some, coerceItems_eq_mapM, coerceItems_eq_mapM, List.mapM_append,
        List.mapM_append, List.mapM_cons, List.mapM_cons, ih]
  | component hlength hv hv' h ih =>
      rw [coerce?_tupleWord, coerce?_tupleWord, hv, hv', Option.bind_some, Option.bind_some,
        coerceComponents?_append hlength, coerceComponents?_append hlength, coerceComponents?,
        coerceComponents?, ih]

theorem Lists.coerce?_take (h : Lists u xs) :
    coerce? (.mk Parameter.tupleWord name components) (.list (xs.take components.length)) =
      coerce? (.mk Parameter.tupleWord name components) u := by
  have hfront : Encoding.tupleValues? components (.list (xs.take components.length)) =
      some (xs.take components.length) := rfl
  rw [coerce?_tupleWord, coerce?_tupleWord, hfront, h.tupleValues?, Option.bind_some,
    Option.bind_some, coerceComponents?_take]

end Surplus

section Shortage

variable {p q : Parameter} {u u' v v' x y : Value} {name : Option Value} {xs ys : List Value}
  {components : List Parameter} {type abiType : AbiType} {types before after : List AbiType}
  {front back : List Value}

theorem length_of_coerceComponents? (h : coerceComponents? components xs = some ys) :
    ys.length = min components.length xs.length := by
  induction components generalizing xs ys with
  | nil =>
      cases xs <;>
        · cases h
          simp
  | cons component components ih =>
      cases xs with
      | nil =>
          cases h
          simp
      | cons x xs =>
          rw [coerceComponents?] at h
          obtain ⟨first, -, hrest⟩ := Option.bind_eq_some_iff.mp h
          obtain ⟨more, hmore, heq⟩ := Option.bind_eq_some_iff.mp hrest
          cases heq
          rw [List.length_cons, ih hmore, List.length_cons, List.length_cons,
            Nat.add_min_add_right]

/-- Too few values for a tuple have no encoding. -/
theorem encode?_of_short (h : Lists u xs) (hshort : xs.length < components.length)
    (hbalanced : ∀ p ∈ components, Balanced p)
    (htype : EncodedAs (.mk Parameter.tupleWord name components) abiType)
    (hx : coerce? (.mk Parameter.tupleWord name components) u = some x) :
    encode? abiType x = none := by
  have hsome : components ≠ [] := List.ne_nil_of_length_pos (Nat.zero_lt_of_lt hshort)
  obtain ⟨types, rfl, htypes⟩ := htype.exists_components hsome hbalanced
  rw [coerce?_tupleWord, h.tupleValues?, Option.bind_some] at hx
  obtain ⟨ys, hys, rfl⟩ := Option.map_eq_some_iff.mp hx
  rw [encode?_tuple]
  cases hparts : componentParts? types ys with
  | none => rfl
  | some parts =>
      have hlength := length_of_componentParts? hparts
      rw [← htypes.length_eq, length_of_coerceComponents? hys] at hlength
      omega

/-- Values have no encoding where that for one of the components has none. -/
theorem encode?_of_component {before after : List Parameter} {c : Parameter}
    (hlength : before.length = front.length)
    (htypes : List.Forall₂ EncodedAs (before ++ c :: after) types)
    (hys : coerceComponents? (before ++ c :: after) (front ++ v :: back) = some ys)
    (hnone : ∀ {abiType x}, EncodedAs c abiType → coerce? c v = some x →
      encode? abiType x = none) :
    encode? (.tuple types) (.tuple ys) = none := by
  obtain ⟨ahead, type, behind, rfl, hahead, htype⟩ := exists_of_forall₂_append htypes
  rw [coerceComponents?_append hlength] at hys
  obtain ⟨xs, hxs, hys⟩ := Option.bind_eq_some_iff.mp hys
  obtain ⟨rest, hrest, rfl⟩ := Option.map_eq_some_iff.mp hys
  rw [coerceComponents?] at hrest
  obtain ⟨x, hx, hrest⟩ := Option.bind_eq_some_iff.mp hrest
  obtain ⟨more, -, heq⟩ := Option.bind_eq_some_iff.mp hrest
  cases heq
  have hxslength := length_of_coerceComponents? hxs
  rw [← hlength, Nat.min_self] at hxslength
  exact encode?_tuple_eq_none (hahead.trans hxslength.symm) (hnone htype hx)

/-- An argument has no encoding where another parameter receives in it what has none. -/
theorem Replaced.encode?_eq_none (h : Replaced q u u' p v v') (hbalanced : Balanced p)
    (hnone : Balanced q → ∀ {abiType x}, EncodedAs q abiType → coerce? q u = some x →
      encode? abiType x = none)
    (htype : EncodedAs p abiType) (hx : coerce? p v = some x) : encode? abiType x = none := by
  induction h generalizing abiType x with
  | here => exact hnone hbalanced htype hx
  | @item type name components item v v' w w' front back hitem hv hv' h ih =>
      obtain ⟨itemType, habi, hitemType⟩ := htype.exists_item hitem
      rw [coerce?_of_item hitem, hv, Option.bind_some, coerceItems_eq_mapM] at hx
      obtain ⟨ys, hys, rfl⟩ := Option.map_eq_some_iff.mp hx
      obtain ⟨y, hy, hcoerce⟩ := exists_of_mapM hys (List.mem_append_right front List.mem_cons_self)
      exact encode?_list_eq_none habi hy (ih (hbalanced.item hitem htype) hitemType hcoerce)
  | @component name before after c v v' w w' front back hlength hv hv' h ih =>
      cases hbalanced with
      | mk hpart hcomponents =>
          obtain ⟨types, rfl, htypes⟩ := htype.exists_components (by simp) hcomponents
          rw [coerce?_tupleWord, hv, Option.bind_some] at hx
          obtain ⟨ys, hys, rfl⟩ := Option.map_eq_some_iff.mp hx
          exact encode?_of_component hlength htypes hys (ih (hcomponents c (by simp)))

end Shortage

section Arguments

variable {abi args front back : List Value} {declared u v v' : Value} {name : Option Value}
  {xs : List Value} {parameters before after components : List Parameter} {p q : Parameter}
  {result : Option String} {failure : Failure}

/-- What declares a parameter is not empty. -/
theorem isTruthy_of_ofSequence (h : Parameter.ofSequence declared = .ok parameters)
    (hsome : parameters ≠ []) : declared.isTruthy = true := by
  have hnone : Parameter.ofSequence declared ≠ .ok [] := by
    rw [h]
    exact fun heq => hsome (Except.ok.inj heq)
  cases declared with
  | list xs | tuple xs | record xs | table xs =>
      cases xs with
      | nil => exact absurd rfl hnone
      | cons => rfl
  | text s | bytes s =>
      rw [Parameter.ofSequence] at h hnone
      split at h
      next hs => exact absurd (if_pos hs) hnone
      next => cases h
  | _ => cases h

theorem forall₂_of_typesOf {types : List AbiType}
    (h : typesOf (parameters.map Parameter.canonical) = .ok types) :
    List.Forall₂ EncodedAs parameters types := by
  rw [typesOf_eq_mapM, mapM_eq_ok_iff, List.forall₂_map_left_iff] at h
  exact h.imp fun p type htype => exists_syntax_of_typeOf htype

/-- Arguments with a result are brought into form, and their form is encoded. -/
theorem exists_of_argumentsFor (hdeclared : Parameter.ofSequence declared = .ok parameters)
    (h : argumentsFor declared args = .ok result) :
    ∃ values types bytes, coerceComponents? parameters args = some values ∧
      List.Forall₂ EncodedAs parameters types ∧
      encode? (.tuple types) (.tuple values) = some bytes := by
  obtain ⟨expected, -, h⟩ := bind_eq_ok_iff.mp h
  split at h
  next =>
    obtain ⟨bytes, hbytes, -⟩ := bind_eq_ok_iff.mp h
    rw [encodeArguments_list, hdeclared] at hbytes
    obtain ⟨found, hfound, hbytes⟩ := bind_eq_ok_iff.mp hbytes
    cases hfound
    obtain ⟨values, hvalues, hbytes⟩ := bind_eq_ok_iff.mp hbytes
    obtain ⟨types, htypes, hbytes⟩ := bind_eq_ok_iff.mp hbytes
    rw [coerceAll_eq] at hvalues
    cases hsome : coerceComponents? parameters args with
    | none =>
        rw [hsome] at hvalues
        cases hvalues
    | some found =>
        rw [hsome] at hvalues
        cases hvalues
        split at hbytes
        next encoded hencoded =>
          exact ⟨values, types, encoded, rfl, forall₂_of_typesOf htypes, hencoded⟩
        next => cases hbytes
  next => cases h

/-- Arguments for parameters that are read fail with the verification, unless a type text is outside
of the grammar. -/
theorem argumentsFor_error_cases (hdeclared : Parameter.ofSequence declared = .ok parameters)
    (h : argumentsFor declared args = .error failure) :
    (∃ message, failure = .verification message) ∨
      failure = .unreadableType ∧ ∃ p ∈ parameters, IsOutside p.canonical := by
  by_cases hverification : ∃ message, failure = .verification message
  · exact Or.inl hverification
  refine Or.inr ?_
  cases (argumentsFor_eq_error_iff (not_exists.mp hverification)).mp h with
  | unsized hsize =>
      obtain ⟨n, hn⟩ := exists_size_of_ofSequence hdeclared
      rw [hsize] at hn
      cases hn
  | untyped hsize huntyped =>
      rw [ofSequence_eq_noOperation_iff.mpr ⟨rfl, huntyped⟩] at hdeclared
      cases hdeclared
  | @outside found values before after text hsize hparameters hvalues htexts hbefore htext =>
      cases hdeclared.symm.trans hparameters
      have hmem : text ∈ parameters.map Parameter.canonical := by simp [htexts]
      obtain ⟨p, hp, rfl⟩ := List.mem_map.mp hmem
      exact ⟨rfl, p, hp, htext⟩

/-- Arguments that differ in a place that makes no difference have one outcome. -/
theorem constructorArguments_of_replaced
    (hdeclares : Declares abi declared)
    (hdeclared : Parameter.ofSequence declared = .ok (before ++ p :: after))
    (hlength : before.length = front.length) (hsame : coerce? p v' = coerce? p v) :
    constructorArguments (.list abi) (.list (front ++ v' :: back)) =
      constructorArguments (.list abi) (.list (front ++ v :: back)) := by
  have hcoerce : coerceComponents? (before ++ p :: after) (front ++ v' :: back) =
      coerceComponents? (before ++ p :: after) (front ++ v :: back) := by
    rw [coerceComponents?_append hlength, coerceComponents?_append hlength, coerceComponents?,
      coerceComponents?, hsame]
  have harguments : argumentsFor declared (front ++ v' :: back) =
      argumentsFor declared (front ++ v :: back) := by
    rw [argumentsFor, argumentsFor, encodeArguments_list, encodeArguments_list, hdeclared]
    simp only [Except.mapError, bind, Except.bind, coerceAll_eq, hcoerce, List.length_append,
      List.length_cons]
  rw [constructorArguments_of_declares hdeclares, constructorArguments_of_declares hdeclares,
    harguments]
  simp

/-- Arguments have no result where a tuple receives too few values in them. -/
theorem argumentsFor_ne_ok
    (hdeclared : Parameter.ofSequence declared = .ok (before ++ p :: after))
    (hlength : before.length = front.length) (hbalanced : Balanced p)
    (hreceives : Receives p v (.mk Parameter.tupleWord name components) u) (hu : Lists u xs)
    (hshort : xs.length < components.length) :
    argumentsFor declared (front ++ v :: back) ≠ .ok result := by
  intro h
  obtain ⟨values, types, bytes, hvalues, htypes, hbytes⟩ := exists_of_argumentsFor hdeclared h
  have hnone : encode? (.tuple types) (.tuple values) = none := by
    refine encode?_of_component hlength htypes hvalues fun htype hx => ?_
    refine hreceives.encode?_eq_none hbalanced (fun hq _ _ hencoded hy => ?_) htype hx
    cases hq with
    | mk hpart hcomponents => exact encode?_of_short hu hshort hcomponents hencoded hy
  rw [hnone] at hbytes
  cases hbytes

/-- A list for a tuple, wherever in the arguments a parameter receives it, is cut to the number of
the components: with more elements the outcome is that of its front. With fewer there is no result,
and it is the verification that fails, unless a type text is outside of the grammar. -/
theorem constructorArguments_of_tuple (hdeclares : Declares abi declared)
    (hdeclared : Parameter.ofSequence declared = .ok (before ++ p :: after))
    (hlength : before.length = front.length)
    (hreceives : Receives p v (.mk Parameter.tupleWord name components) u) (hu : Lists u xs) :
    (∃ v', Replaced (.mk Parameter.tupleWord name components) u
      (.list (xs.take components.length)) p v v') ∧
    (∀ v', Replaced (.mk Parameter.tupleWord name components) u
        (.list (xs.take components.length)) p v v' →
      constructorArguments (.list abi) (.list (front ++ v' :: back)) =
        constructorArguments (.list abi) (.list (front ++ v :: back))) ∧
    (xs.length < components.length → Balanced p →
      ∃ failure, constructorArguments (.list abi) (.list (front ++ v :: back)) = .error failure ∧
        ((∃ message, failure = .verification message) ∨
          failure = .unreadableType ∧
            ∃ other ∈ before ++ p :: after, IsOutside other.canonical)) := by
  refine ⟨hreceives.exists_replaced _, fun v' hreplaced => ?_, fun hshort hbalanced => ?_⟩
  · exact constructorArguments_of_replaced hdeclares hdeclared hlength
      (hreplaced.coerce?_eq hu.coerce?_take)
  · have htruthy := isTruthy_of_ofSequence hdeclared (by simp)
    rw [constructorArguments_of_declares hdeclares, if_pos ⟨htruthy, by simp⟩]
    cases houtcome : argumentsFor declared (front ++ v :: back) with
    | ok result =>
        exact absurd houtcome (argumentsFor_ne_ok hdeclared hlength hbalanced hreceives hu hshort)
    | error failure => exact ⟨failure, rfl, argumentsFor_error_cases hdeclared houtcome⟩

section Sample

/-- The inputs of a constructor that takes a pair of numbers. -/
def pairInputs : List (String × Schema) :=
  [("range", .tuple [("low", .leaf (.number false none)), ("high", .leaf (.number false none))])]

def pairParameter : Parameter :=
  .mk Parameter.tupleWord (some (.text "range"))
    [.mk "uint" (some (.text "low")) [], .mk "uint" (some (.text "high")) []]

def pairAbi : List Value :=
  [.ofFields [("type", .text "constructor"),
    ("inputs", .list (Schema.declarationsOf pairInputs))]]

theorem declares_pairAbi : Declares pairAbi (.list (Schema.declarationsOf pairInputs)) :=
  declares_constructor _

theorem ofSequence_pairInputs :
    Parameter.ofSequence (.list (Schema.declarationsOf pairInputs)) = .ok [pairParameter] :=
  ofSequence_declarationsOf pairInputs

theorem balanced_pairParameter : Balanced pairParameter := by
  have hnumber (name : Option Value) : Balanced (.mk "uint" name []) :=
    .mk (by decide) (List.forall_mem_nil _)
  exact .mk (by decide)
    (List.forall_mem_cons.mpr ⟨hnumber _, List.forall_mem_singleton.mpr (hnumber _)⟩)

/-- Three numbers for a pair are encoded as the first two are. A single one is refused. -/
theorem constructorArguments_of_pair :
    (Declares pairAbi (.list (Schema.declarationsOf pairInputs)) ∧
      Parameter.ofSequence (.list (Schema.declarationsOf pairInputs)) = .ok [pairParameter] ∧
      Balanced pairParameter) ∧
    constructorArguments (.list pairAbi) (.list [.list [.int 1, .int 2]]) =
      constructorArguments (.list pairAbi) (.list [.list [.int 1, .int 2, .int 3]]) ∧
    ∃ failure, constructorArguments (.list pairAbi) (.list [.list [.int 1]]) = .error failure ∧
      ((∃ message, failure = .verification message) ∨
        failure = .unreadableType ∧ ∃ p ∈ [pairParameter], IsOutside p.canonical) := by
  have hdeclared : Parameter.ofSequence (.list (Schema.declarationsOf pairInputs)) =
      .ok ([] ++ pairParameter :: []) := ofSequence_pairInputs
  have hlength : ([] : List Parameter).length = ([] : List Value).length := rfl
  refine ⟨⟨declares_pairAbi, ofSequence_pairInputs, balanced_pairParameter⟩, ?_, ?_⟩
  · exact (constructorArguments_of_tuple declares_pairAbi hdeclared hlength .here
      (.list [.int 1, .int 2, .int 3])).2.1 _ .here
  · exact (constructorArguments_of_tuple declares_pairAbi hdeclared hlength .here
      (.list [.int 1])).2.2 (by decide) balanced_pairParameter

/-- Not every list of another length for a tuple is refused: three numbers for a pair have an
encoding. -/
theorem not_forall_refused :
    ¬ ∀ (abi front back : List Value) (declared u v : Value) (name : Option Value)
      (xs : List Value) (before after components : List Parameter) (p : Parameter),
      Declares abi declared → Parameter.ofSequence declared = .ok (before ++ p :: after) →
      before.length = front.length →
      Receives p v (.mk Parameter.tupleWord name components) u → Lists u xs →
      xs.length ≠ components.length →
      ∃ message, constructorArguments (.list abi) (.list (front ++ v :: back)) =
        .error (.verification message) := by
  intro h
  obtain ⟨message, hrefused⟩ := h pairAbi [] [] _ _ _ _ _ [] [] _ _ declares_pairAbi
    ofSequence_pairInputs rfl .here (.list [.int 1, .int 2, .int 3]) (by decide)
  have hencoded : (constructorArguments (.list pairAbi)
      (.list [.list [.int 1, .int 2, .int 3]])).toOption.isSome = true := by
    decide +kernel
  rw [List.nil_append] at hrefused
  rw [hrefused] at hencoded
  cases hencoded

end Sample

end Arguments

end ContractBench.Encoding
