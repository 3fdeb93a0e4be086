import ContractBench.Proofs.Encoding.ParameterShapes
import ContractBench.Proofs.Encoding.Schema

/-! # Written types

The parameter of a schema has a shape, which is the type of the schema as it is declared. The text
under which the parameter is encoded is read as the type of the schema.
-/

namespace ContractBench.Encoding

open Argument (Suffix)

namespace Schema

section Definitions

/-- The length that a suffix sets. -/
def setLength : Suffix → Option Nat
  | .any => none
  | .exactly length => some length

mutual

/-- The type as it is written. -/
def written : Schema → TypeSyntax
  | leaf type =>
      .basic (String.ofList type.word) ((type.fullSize?.map Sizes.one).getD .none)
  | array item suffix => .arrayOf item.written (setLength suffix)
  | tuple components => .tuple (writtenEach components)

def writtenEach : List (String × Schema) → List TypeSyntax
  | [] => []
  | (_, schema) :: components => schema.written :: writtenEach components

end

mutual

/-- The type of encoded data. -/
def abiType : Schema → AbiType
  | leaf type => .elementary type.elementary
  | array item .any => .array item.abiType
  | array item (.exactly length) => .fixedArray item.abiType length
  | tuple components => .tuple (abiTypes components)

def abiTypes : List (String × Schema) → List AbiType
  | [] => []
  | (_, schema) :: components => schema.abiType :: abiTypes components

end

mutual

/-- The type as it is declared. -/
def shape : Schema → TypeSyntax
  | leaf type => .basic (String.ofList type.word) ((type.size?.map Sizes.one).getD .none)
  | array item suffix => .arrayOf item.shape (setLength suffix)
  | tuple components => .tuple (shapes components)

def shapes : List (String × Schema) → List TypeSyntax
  | [] => []
  | (_, schema) :: components => schema.shape :: shapes components

end

end Definitions

section Shapes

theorem shapes_eq_map (components : List (String × Schema)) :
    shapes components = components.map fun c => c.2.shape := by
  induction components with
  | nil => rfl
  | cons component components ih => rw [shapes, ih, List.map_cons]

theorem print_leaf (type : Leaf) : (shape (.leaf type)).print = type.chars := by
  rw [shape, TypeSyntax.print, String.toList_ofList, Leaf.chars]
  cases type.size? <;> rfl

theorem lengthChars_setLength (suffix : Suffix) :
    TypeSyntax.lengthChars (setLength suffix) = suffix.chars := by
  cases suffix <;> rfl

theorem setLength_ne_zero {suffix : Suffix} (h : suffix ≠ .exactly 0) :
    setLength suffix ≠ some 0 := by
  cases suffix with
  | any => nofun
  | exactly length => exact fun hzero => h (congrArg _ (Option.some.inj hzero))

theorem size?_ne_zero (type : Leaf) : type.size? ≠ some 0 := by
  cases type with
  | number signed size => cases size <;> simp [Leaf.size?]
  | bytes size => cases size <;> simp [Leaf.size?]
  | _ => nofun

theorem hasShape_leaf (type : Leaf) (name : Option Value) :
    HasShape ((leaf type).parameter name) (leaf type).shape := by
  have hpositive : ((type.size?.map Sizes.one).getD .none).Positive := by
    cases hsize : type.size? with
    | none => exact trivial
    | some n => exact Nat.pos_of_ne_zero fun h => size?_ne_zero type (hsize.trans (congrArg some h))
  have hbasic : (leaf type).shape.WellFormed := by
    obtain ⟨c, cs, hcs, -⟩ := type.exists_word
    refine .basic ?_ ?_ hpositive <;> rw [String.toList_ofList]
    · rw [hcs]
      exact List.cons_ne_nil _ _
    · exact type.isLetter_of_mem_word
  have htuple : Parameter.isTuple (String.ofList (leaf type).shape.print) = false := by
    rw [print_leaf, ← Bool.not_eq_true, Parameter.isTuple, Text.beginsWith_iff,
      String.toList_ofList]
    intro h
    exact type.not_tupleWord_prefix [] (by rwa [List.append_nil])
  rw [parameter, typeChars, ← print_leaf]
  exact .basic hbasic htuple

/-- The parameter of a schema has the shape with which it is declared. -/
theorem WellFormed.hasShape {schema : Schema} (h : WellFormed schema) (name : Option Value) :
    HasShape (schema.parameter name) schema.shape := by
  induction h generalizing name with
  | leaf type => exact hasShape_leaf type name
  | @array item suffix hitem hsuffix ih =>
      rw [parameter, typeChars, String.ofList_append, ← lengthChars_setLength]
      exact .arrayOf (ih name) (setLength_ne_zero hsuffix)
  | @tuple components hsome hnames hcomponents ih =>
      have hrows := @HasShape.tuple name
        (components.map fun c => (c.2.parameter (some (.text c.1)), c.2.shape))
        (by simpa using hsome) (List.forall_mem_map.mpr fun c hc => ih c hc _)
      rw [parameter, typeChars, String.ofList_toList, parameters, parametersOf_eq, shape,
        shapes_eq_map]
      simpa only [List.map_map, Function.comp_def] using hrows

mutual

/-- Under full names the declared type is the written one. -/
theorem full_shape : ∀ schema : Schema, schema.shape.full = schema.written
  | .leaf type => by
      have hfull : TypeSyntax.fullBasic (String.ofList type.word)
          ((type.size?.map Sizes.one).getD .none) =
            (String.ofList type.word, (type.fullSize?.map Sizes.one).getD .none) := by
        cases type with
        | number signed size => cases size <;> decide +revert
        | truth => decide
        | address => decide
        | bytes size => cases size <;> decide +revert
      rw [shape, TypeSyntax.full, hfull, written]
  | .array item .any => by
      rw [shape, setLength, TypeSyntax.arrayOf, TypeSyntax.full, full_shape item, written]
      rfl
  | .array item (.exactly length) => by
      rw [shape, setLength, TypeSyntax.arrayOf, TypeSyntax.full, full_shape item, written]
      rfl
  | .tuple components => by rw [shape, TypeSyntax.full, fullEach_shapes components, written]

theorem fullEach_shapes : ∀ components : List (String × Schema),
    TypeSyntax.fullEach (shapes components) = writtenEach components
  | [] => rfl
  | (_, schema) :: components => by
      rw [shapes, TypeSyntax.fullEach, full_shape schema, fullEach_shapes components, writtenEach]

end

end Shapes

section Types

theorem ofWord?_word (type : Leaf) :
    Elementary.ofWord? (String.ofList type.word) ((type.fullSize?.map Sizes.one).getD .none) =
      some type.elementary := by
  cases type with
  | number signed size => cases size <;> decide +revert
  | truth => decide
  | address => decide
  | bytes size => cases size <;> decide +revert

mutual

theorem ofSyntax?_written : ∀ schema : Schema,
    AbiType.ofSyntax? schema.written = some schema.abiType
  | .leaf type => by
      rw [written, AbiType.ofSyntax?, ofWord?_word, abiType]
      rfl
  | .array item .any => by
      rw [written, setLength, TypeSyntax.arrayOf, AbiType.ofSyntax?, ofSyntax?_written item,
        abiType]
      rfl
  | .array item (.exactly length) => by
      rw [written, setLength, TypeSyntax.arrayOf, AbiType.ofSyntax?, ofSyntax?_written item,
        abiType]
      rfl
  | .tuple components => by
      rw [written, AbiType.ofSyntax?, ofComponents?_writtenEach components, abiType]
      rfl

theorem ofComponents?_writtenEach : ∀ components : List (String × Schema),
    AbiType.ofComponents? (writtenEach components) = some (abiTypes components)
  | [] => rfl
  | (_, schema) :: components => by
      rw [writtenEach, AbiType.ofComponents?, ofSyntax?_written schema,
        ofComponents?_writtenEach components, abiTypes]
      rfl

end

theorem print_shape_ne_partialName (schema : Schema) :
    schema.shape.print ≠ partialName.toList := by
  intro h
  cases schema with
  | leaf type =>
      rw [print_leaf] at h
      have hprefix : type.word <+: partialName.toList := ⟨_, h⟩
      have hnot : ∀ w ∈ Leaf.words, ¬w <+: partialName.toList := by decide
      exact hnot type.word type.word_mem_words hprefix
  | array item suffix =>
      have hbracket : '[' ∈ partialName.toList := by
        rw [← h, shape, TypeSyntax.print_arrayOf]
        exact List.mem_append_right _ List.mem_cons_self
      exact absurd hbracket (by decide)
  | tuple components =>
      have hparenthesis : '(' ∈ partialName.toList := by
        rw [← h, shape, TypeSyntax.print]
        exact List.mem_cons_self
      exact absurd hparenthesis (by decide)

/-- The parameter of a schema is encoded as the type of the schema. -/
theorem WellFormed.typeOf_canonical {schema : Schema} (h : WellFormed schema)
    (name : Option Value) : typeOf (schema.parameter name).canonical = .ok schema.abiType := by
  have hshape := h.hasShape name
  have hpartial : (schema.parameter name).canonical ≠ partialName := by
    intro heq
    apply schema.print_shape_ne_partialName
    rw [← hshape.toList_canonical, heq]
  rw [typeOf, if_neg hpartial, hshape.ofText?, full_shape]
  simp only [ofSyntax?_written]

end Types

end Schema

end ContractBench.Encoding
