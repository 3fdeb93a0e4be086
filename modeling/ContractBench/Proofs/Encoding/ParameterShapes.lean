import ContractBench.Proofs.Encoding.Descent
import ContractBench.Proofs.Encoding.TypeGrammar
import ContractBench.Proofs.Traversal

/-! # Shapes of parameters

The shape of a parameter is the type that it declares: a type without parts, the shapes of its
components, or arrays of a shape. The text under which a parameter is encoded is that of its shape,
and an argument that has the shape is brought into form part by part.
-/

namespace ContractBench.Encoding

open TypeSyntax (lengthChars)

section Definitions

/-- The shape of a parameter. The last array length of a type is that of the outermost arrays. -/
inductive HasShape : Parameter → TypeSyntax → Prop
  | basic {word : String} {sizes : Sizes} {name : Option Value} {components : List Parameter}
      (hbasic : (TypeSyntax.basic word sizes).WellFormed)
      (htuple : Parameter.isTuple (String.ofList (TypeSyntax.basic word sizes).print) = false) :
      HasShape (.mk (String.ofList (TypeSyntax.basic word sizes).print) name components)
        (.basic word sizes)
  | tuple {name : Option Value} (rows : List (Parameter × TypeSyntax)) (hsome : rows ≠ [])
      (hrows : ∀ row ∈ rows, HasShape row.1 row.2) :
      HasShape (.mk Parameter.tupleWord name (rows.map (·.1))) (.tuple (rows.map (·.2)))
  | arrayOf {type : String} {name : Option Value} {components : List Parameter}
      {item : TypeSyntax} {length? : Option Nat} (hitem : HasShape (.mk type name components) item)
      (hlength : length? ≠ some 0) :
      HasShape (.mk (type ++ String.ofList (lengthChars length?)) name components)
        (.arrayOf item length?)

/-- What a value without parts becomes by itself. -/
def coerceBasic (word : String) (sizes : Sizes) (v : Value) : Option Value :=
  coerce? (.mk (String.ofList (TypeSyntax.basic word sizes).print) none []) v

/-- A value of a shape: lists for arrays, lists of as many values as components for tuples, and
elsewhere what is brought into form by itself. -/
inductive Fits : TypeSyntax → Value → Prop
  | basic {word : String} {sizes : Sizes} {v : Value} (h : ∃ x, coerceBasic word sizes v = some x) :
      Fits (.basic word sizes) v
  | tuple (rows : List (TypeSyntax × Value)) (hrows : ∀ row ∈ rows, Fits row.1 row.2) :
      Fits (.tuple (rows.map (·.1))) (.list (rows.map (·.2)))
  | array {item : TypeSyntax} {xs : List Value} (hitems : ∀ x ∈ xs, Fits item x) :
      Fits (.array item) (.list xs)
  | fixedArray {item : TypeSyntax} {length : Nat} {xs : List Value}
      (hitems : ∀ x ∈ xs, Fits item x) : Fits (.fixedArray item length) (.list xs)

/-- The tree of a value with tuples for tuples and what each of its leaves becomes by itself. -/
inductive Becomes : TypeSyntax → Value → Value → Prop
  | basic {word : String} {sizes : Sizes} {v x : Value} (h : coerceBasic word sizes v = some x) :
      Becomes (.basic word sizes) v x
  | tuple (rows : List (TypeSyntax × Value × Value))
      (hrows : ∀ row ∈ rows, Becomes row.1 row.2.1 row.2.2) :
      Becomes (.tuple (rows.map (·.1))) (.list (rows.map (·.2.1))) (.tuple (rows.map (·.2.2)))
  | array {item : TypeSyntax} (rows : List (Value × Value))
      (hrows : ∀ row ∈ rows, Becomes item row.1 row.2) :
      Becomes (.array item) (.list (rows.map (·.1))) (.list (rows.map (·.2)))
  | fixedArray {item : TypeSyntax} {length : Nat} (rows : List (Value × Value))
      (hrows : ∀ row ∈ rows, Becomes item row.1 row.2) :
      Becomes (.fixedArray item length) (.list (rows.map (·.1))) (.list (rows.map (·.2)))

end Definitions

section Texts

variable {type : String} {name : Option Value} {components : List Parameter} {p q : Parameter}
  {t u : TypeSyntax}

theorem canonical_append {more : String}
    (h : Parameter.isTuple (type ++ more) = Parameter.isTuple type) :
    Parameter.canonical (.mk (type ++ more) name components) =
      Parameter.canonical (.mk type name components) ++ more := by
  rw [Parameter.canonical, Parameter.canonical, h]
  split
  next htuple =>
    obtain ⟨rest, rfl⟩ := Text.exists_append_of_beginsWith htuple
    have hrest := Text.after?_append Parameter.tupleWord (rest ++ more)
    rw [← String.append_assoc] at hrest
    rw [hrest, Text.after?_append]
    simp only [Option.getD_some, String.append_assoc]
  next => rfl

theorem canonicals_eq_map (components : List Parameter) :
    Parameter.canonicals components = components.map Parameter.canonical := by
  induction components with
  | nil => rfl
  | cons component components ih => rw [Parameter.canonicals, ih, List.map_cons]

/-- A tuple is written with the texts of its components in parentheses. -/
theorem toList_canonical_tuple (rest : String) (name : Option Value)
    (components : List Parameter) :
    (Parameter.canonical (.mk (Parameter.tupleWord ++ rest) name components)).toList =
      '(' :: ([','].intercalate (components.map fun c => c.canonical.toList) ++
        ')' :: rest.toList) := by
  have htuple : Parameter.isTuple (Parameter.tupleWord ++ rest) = true := by
    rw [Parameter.isTuple, Text.beginsWith_iff, String.toList_append]
    exact List.prefix_append _ _
  have hcomma : ",".toList = [','] := rfl
  rw [Parameter.canonical, if_pos htuple, Text.after?_append, canonicals_eq_map]
  simp only [String.toList_append, Text.joined, String.toList_intercalate, List.map_map, hcomma]
  simp [Function.comp_def]

theorem HasShape.wellFormed (h : HasShape p t) : t.WellFormed := by
  induction h with
  | basic hbasic htuple => exact hbasic
  | tuple rows hsome hrows ih => exact .tuple (by simpa using hsome) (List.forall_mem_map.mpr ih)
  | arrayOf hitem hlength ih => exact TypeSyntax.wellFormed_arrayOf_iff.mpr ⟨ih, hlength⟩

/-- A parameter is encoded under the text of its shape. -/
theorem HasShape.toList_canonical (h : HasShape p t) : p.canonical.toList = t.print := by
  induction h with
  | basic hbasic htuple =>
      rw [Parameter.canonical, htuple]
      exact String.toList_ofList
  | @tuple name rows hsome hrows ih =>
      have hcanonical := toList_canonical_tuple "" name (rows.map (·.1))
      rw [String.append_empty] at hcanonical
      rw [hcanonical, TypeSyntax.print, TypeSyntax.printEach_eq_map, List.map_map, List.map_map]
      exact congrArg (fun texts => '(' :: ([','].intercalate texts ++ [')']))
        (List.map_congr_left ih)
  | @arrayOf type name components item length? hitem hlength ih =>
      have hcanonical : Parameter.canonical
          (.mk (type ++ String.ofList (lengthChars length?)) name components) = _ :=
        canonical_append (isTuple_append_bracket type _)
      rw [hcanonical, String.toList_append, ih, String.toList_ofList, TypeSyntax.print_arrayOf]

/-- Parameters that are encoded under one text have one shape. -/
theorem HasShape.unique (h : HasShape p t) (hq : HasShape q u) (heq : q.canonical = p.canonical) :
    u = t :=
  hq.wellFormed.print_inj h.wellFormed (by rw [← h.toList_canonical, ← hq.toList_canonical, heq])

/-- The text under which a parameter is encoded is read as its shape, with full names where the
grammar has short ones. -/
theorem HasShape.ofChars? (h : HasShape p t) :
    TypeSyntax.ofChars? p.canonical.toList = some t :=
  TypeSyntax.ofChars?_eq_some_iff.mpr ⟨h.wellFormed, h.toList_canonical⟩

theorem HasShape.ofText? (h : HasShape p t) : TypeSyntax.ofText? p.canonical = some t.full := by
  rw [← h.wellFormed.ofText?_print, ← h.toList_canonical, String.ofList_toList]

end Texts

section Coercion

variable {p : Parameter} {t item : TypeSyntax} {v x : Value} {length? : Option Nat}

/-- Rows can be completed by what each of them becomes. -/
theorem exists_rows {α : Type} {rows : List α} {becomes : α → Value → Prop}
    (h : ∀ row ∈ rows, ∃ x, becomes row x) :
    ∃ pairs : List (α × Value), rows = pairs.map (·.1) ∧ ∀ pair ∈ pairs, becomes pair.1 pair.2 := by
  induction rows with
  | nil => exact ⟨[], rfl, nofun⟩
  | cons row rows ih =>
      obtain ⟨⟨x, hx⟩, hmore⟩ := List.forall_mem_cons.mp h
      obtain ⟨pairs, rfl, hpairs⟩ := ih hmore
      exact ⟨(row, x) :: pairs, rfl, List.forall_mem_cons.mpr ⟨hx, hpairs⟩⟩

theorem Fits.exists_becomes (h : Fits t v) : ∃ x, Becomes t v x := by
  induction h with
  | basic h =>
      obtain ⟨x, hx⟩ := h
      exact ⟨x, .basic hx⟩
  | tuple rows hrows ih =>
      obtain ⟨pairs, rfl, hpairs⟩ := exists_rows ih
      refine ⟨.tuple (pairs.map (·.2)), ?_⟩
      have htree := Becomes.tuple (pairs.map fun pair => (pair.1.1, pair.1.2, pair.2))
        (List.forall_mem_map.mpr hpairs)
      simpa only [List.map_map, Function.comp_def] using htree
  | array hitems ih =>
      obtain ⟨pairs, rfl, hpairs⟩ := exists_rows ih
      exact ⟨_, .array pairs hpairs⟩
  | fixedArray hitems ih =>
      obtain ⟨pairs, rfl, hpairs⟩ := exists_rows ih
      exact ⟨_, .fixedArray pairs hpairs⟩

theorem becomes_arrayOf (h : Becomes (.arrayOf item length?) v x) :
    ∃ rows : List (Value × Value), (∀ row ∈ rows, Becomes item row.1 row.2) ∧
      v = .list (rows.map (·.1)) ∧ x = .list (rows.map (·.2)) := by
  cases length? with
  | none =>
      cases h with
      | array rows hrows => exact ⟨rows, hrows, rfl, rfl⟩
  | some length =>
      cases h with
      | fixedArray rows hrows => exact ⟨rows, hrows, rfl, rfl⟩

theorem mapM_eq_some_map {α β : Type} {f : α → Option β} {g : α → β} {rows : List α}
    (h : ∀ row ∈ rows, f row = some (g row)) : rows.mapM f = some (rows.map g) := by
  rw [mapM_eq_some_iff, List.forall₂_map_right_iff, List.forall₂_same]
  exact h

theorem HasShape.line_notMem (h : HasShape p t) : '\n' ∉ p.type.toList := by
  induction h with
  | @basic word sizes name components hbasic htuple =>
      intro hline
      rw [Parameter.type, String.toList_ofList] at hline
      exact absurd (hbasic.isSign_of_mem _ hline) (by decide)
  | tuple rows hsome hrows ih => exact (by decide : '\n' ∉ Parameter.tupleWord.toList)
  | @arrayOf type name components item length? hitem hlength ih =>
      intro hline
      rw [Parameter.type, String.toList_append, String.toList_ofList] at hline
      rcases List.mem_append.mp hline with hline | hline
      · exact ih hline
      · exact absurd (TypeSyntax.isSign_of_mem_lengthChars hline) (by decide)

/-- Between the brackets of an array stand digits. -/
theorem isDecimal_of_mem_length {c : Char} {length? : Option Nat}
    (h : c ∈ (length?.map Numeral.digitsOf).getD []) : Text.isDecimal c = true := by
  cases length? with
  | none => cases h
  | some length => simp [Text.isDecimal, Text.digitValue?, Numeral.isDigit_of_mem_digitsOf h]

theorem arrayItem?_append_lengthChars {cs : List Char} (hline : '\n' ∉ cs) (length? : Option Nat) :
    arrayItem? (cs ++ lengthChars length?) = some cs :=
  arrayItem?_append hline fun _ hc => isDecimal_of_mem_length hc

theorem coerce?_basic {word : String} {sizes : Sizes} {name : Option Value}
    {components : List Parameter} (hbasic : (TypeSyntax.basic word sizes).WellFormed)
    (htuple : Parameter.isTuple (String.ofList (TypeSyntax.basic word sizes).print) = false) :
    coerce? (.mk (String.ofList (TypeSyntax.basic word sizes).print) name components) v =
      coerceBasic word sizes v := by
  have hitem : arrayItem? (TypeSyntax.basic word sizes).print = none := by
    refine arrayItem?_eq_none_of_notMem (fun h => ?_) fun h => ?_ <;>
      exact absurd (TypeSyntax.isAlphanum_of_mem_basic hbasic h) (by decide)
  have hword : String.ofList (TypeSyntax.basic word sizes).print ≠ Parameter.tupleWord := by
    intro h
    rw [h] at htuple
    cases htuple
  rw [coerceBasic, coerce?_of_leaf (by rwa [String.toList_ofList]) hword,
    coerce?_of_leaf (by rwa [String.toList_ofList]) hword]

/-- Components and the rows of a tree that have their shapes are gone through together. -/
theorem coerceComponents?_of_rows {rows : List (Parameter × TypeSyntax)}
    {trees : List (TypeSyntax × Value × Value)} (hshapes : rows.map (·.2) = trees.map (·.1))
    (hrows : ∀ row ∈ rows, ∀ {v x}, Becomes row.2 v x → coerce? row.1 v = some x)
    (htrees : ∀ tree ∈ trees, Becomes tree.1 tree.2.1 tree.2.2) :
    coerceComponents? (rows.map (·.1)) (trees.map (·.2.1)) = some (trees.map (·.2.2)) := by
  induction rows generalizing trees with
  | nil =>
      obtain rfl := List.map_eq_nil_iff.mp hshapes.symm
      rfl
  | cons row rows ih =>
      cases trees with
      | nil => cases hshapes
      | cons tree trees =>
          obtain ⟨hshape, hmore⟩ : row.2 = tree.1 ∧ _ := List.cons.inj hshapes
          obtain ⟨hrow, hrows⟩ := List.forall_mem_cons.mp hrows
          obtain ⟨htree, htrees⟩ := List.forall_mem_cons.mp htrees
          rw [← hshape] at htree
          rw [List.map_cons, List.map_cons, coerceComponents?, hrow htree,
            ih hmore hrows htrees]
          rfl

/-- Along its shape a parameter brings a value into form part by part. -/
theorem HasShape.coerce?_eq (h : HasShape p t) (hx : Becomes t v x) : coerce? p v = some x := by
  induction h generalizing v x with
  | basic hbasic htuple =>
      cases hx with
      | basic hx => rw [coerce?_basic hbasic htuple, hx]
  | @tuple name rows hsome hrows ih =>
      generalize hshapes : rows.map (·.2) = shapes at hx
      cases hx with
      | tuple trees htrees =>
          have hvalues : tupleValues? (rows.map (·.1)) (.list (trees.map (·.2.1))) =
              some (trees.map (·.2.1)) := rfl
          rw [coerce?_tupleWord, hvalues, Option.bind_some,
            coerceComponents?_of_rows hshapes ih htrees, Option.map_some]
  | @arrayOf type name components item length? hitem hlength ih =>
      obtain ⟨rows, hrows, rfl, rfl⟩ := becomes_arrayOf hx
      have hlast : arrayItem? (type ++ String.ofList (lengthChars length?)).toList =
          some type.toList := by
        rw [String.toList_append, String.toList_ofList]
        exact arrayItem?_append_lengthChars hitem.line_notMem length?
      have hitems : arrayItems? (.list (rows.map (·.1))) = some (rows.map (·.1)) := rfl
      have hall := mapM_eq_some_map (f := fun row : Value × Value =>
        coerce? (.mk type name components) row.1) fun row hrow => ih (hrows row hrow)
      rw [coerce?_of_item hlast, hitems, Option.bind_some, coerceItems_eq_mapM, List.mapM_map,
        String.ofList_toList]
      exact congrArg (Option.map Value.list) hall

/-- The text under which a parameter is encoded is read as the shape of the parameter, so that no
two shapes share a text, and each value of the shape is brought into form: it keeps its lists for
arrays, gets tuples for tuples, and each leaf is what it becomes by itself. -/
theorem encoding_of_shape (h : HasShape p t) :
    TypeSyntax.ofChars? p.canonical.toList = some t ∧
    TypeSyntax.ofText? p.canonical = some t.full ∧
    (∀ q u, HasShape q u → q.canonical = p.canonical → u = t) ∧
    ∀ v, Fits t v → ∃ x, Becomes t v x ∧ coerce? p v = some x := by
  refine ⟨h.ofChars?, h.ofText?, fun q u hq heq => h.unique hq heq, fun v hv => ?_⟩
  obtain ⟨x, hx⟩ := hv.exists_becomes
  exact ⟨x, hx, h.coerce?_eq hx⟩

section Sample

/-- Any number of pairs of two records, with numbers and a truth value in each. -/
def sampleParameter : Parameter :=
  .mk "tuple[2][]" none [.mk "uint8[2]" none [], .mk "bool" none []]

def sampleShape : TypeSyntax :=
  .array (.fixedArray (.tuple [.fixedArray (.basic "uint" (.one 8)) 2, .basic "bool" .none]) 2)

def sampleRecord : Value := .list [.list [.int 1, .text "0x2"], .text "true"]

theorem hasShape_sample : HasShape sampleParameter sampleShape := by
  have hnumber : (TypeSyntax.basic "uint" (.one 8)).WellFormed :=
    .basic (by decide) (by decide) (by decide)
  have htruth : (TypeSyntax.basic "bool" .none).WellFormed :=
    .basic (by decide) (by decide) (by decide)
  have hnumbers : HasShape (.mk "uint8[2]" none []) (.fixedArray (.basic "uint" (.one 8)) 2) :=
    @HasShape.arrayOf "uint8" _ _ _ (some 2) (.basic hnumber (by decide)) (by decide)
  have hflag : HasShape (.mk "bool" none []) (.basic "bool" .none) := .basic htruth (by decide)
  have hrecord : HasShape
      (.mk Parameter.tupleWord none [.mk "uint8[2]" none [], .mk "bool" none []])
      (.tuple [.fixedArray (.basic "uint" (.one 8)) 2, .basic "bool" .none]) :=
    .tuple [(.mk "uint8[2]" none [], .fixedArray (.basic "uint" (.one 8)) 2),
      (.mk "bool" none [], .basic "bool" .none)] (List.cons_ne_nil _ _)
      (List.forall_mem_cons.mpr ⟨hnumbers, List.forall_mem_singleton.mpr hflag⟩)
  exact @HasShape.arrayOf "tuple[2]" _ _ _ none
    (@HasShape.arrayOf "tuple" _ _ _ (some 2) hrecord (by decide)) (by decide)

theorem fits_sample : Fits sampleShape (.list [.list [sampleRecord, sampleRecord]]) := by
  have hnumber : ∀ v ∈ [Value.int 1, .text "0x2"], Fits (.basic "uint" (.one 8)) v :=
    List.forall_mem_cons.mpr ⟨.basic (Option.isSome_iff_exists.mp (by decide +kernel)),
      List.forall_mem_singleton.mpr (.basic (Option.isSome_iff_exists.mp (by decide +kernel)))⟩
  have hflag : Fits (.basic "bool" .none) (.text "true") :=
    .basic (Option.isSome_iff_exists.mp (by decide +kernel))
  have hrecord : Fits (.tuple [.fixedArray (.basic "uint" (.one 8)) 2, .basic "bool" .none])
      sampleRecord :=
    .tuple [(.fixedArray (.basic "uint" (.one 8)) 2, .list [.int 1, .text "0x2"]),
      (.basic "bool" .none, .text "true")]
      (List.forall_mem_cons.mpr ⟨.fixedArray hnumber, List.forall_mem_singleton.mpr hflag⟩)
  have hpair : ∀ v ∈ [sampleRecord, sampleRecord],
      Fits (.tuple [.fixedArray (.basic "uint" (.one 8)) 2, .basic "bool" .none]) v :=
    List.forall_mem_cons.mpr ⟨hrecord, List.forall_mem_singleton.mpr hrecord⟩
  exact .array (List.forall_mem_singleton.mpr (.fixedArray hpair))

/-- Records in arrays of arrays, with arrays in them. -/
theorem encoding_of_sample :
    HasShape sampleParameter sampleShape ∧
    sampleParameter.canonical = "(uint8[2],bool)[2][]" ∧
    TypeSyntax.ofText? "(uint8[2],bool)[2][]" = some sampleShape.full ∧
    ∃ x, Becomes sampleShape (.list [.list [sampleRecord, sampleRecord]]) x ∧
      coerce? sampleParameter (.list [.list [sampleRecord, sampleRecord]]) = some x := by
  have hcanonical : sampleParameter.canonical = "(uint8[2],bool)[2][]" := by decide +kernel
  obtain ⟨-, htext, -, hvalues⟩ := encoding_of_shape hasShape_sample
  rw [hcanonical] at htext
  exact ⟨hasShape_sample, hcanonical, htext, hvalues _ fits_sample⟩

end Sample

end Coercion

end ContractBench.Encoding
