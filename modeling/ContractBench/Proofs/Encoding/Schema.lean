import ContractBench.Encoding.Constructor
import ContractBench.Proofs.Argument.Suffixes
import ContractBench.Proofs.Encoding.Descent
import ContractBench.Proofs.Encoding.Stopping
import ContractBench.Proofs.Encoding.TextArguments
import ContractBench.Proofs.Encoding.TypeGrammar

/-! # Schemas

The types that the parameters of a constructor can have, as data: numbers, truth values, addresses
and byte strings, arrays of a type, and tuples of named components. A schema is declared by a type
text and, for tuples, by the parameters of its components, and arguments are brought into form along
its structure.
-/

namespace ContractBench.Encoding

open Argument (Suffix)

/-- Types without parts. Sizes are numbers of bytes, counted from one on. -/
inductive Leaf where
  | number (signed : Bool) (size : Option (Fin 32))
  | truth
  | address
  | bytes (size : Option (Fin 32))
deriving DecidableEq, Repr

namespace Leaf

def word : Leaf → List Char
  | number signed _ => if signed then "int".toList else "uint".toList
  | truth => "bool".toList
  | address => "address".toList
  | bytes _ => "bytes".toList

/-- The size that is written behind the word. That of numbers is written in bits. -/
def size? : Leaf → Option Nat
  | number _ size => size.map fun n => 8 * (n + 1)
  | truth | address => none
  | bytes size => size.map fun n => n + 1

/-- The size under the full name: a number without a size has all bits of a word. -/
def fullSize? : Leaf → Option Nat
  | number _ none => some 256
  | type => type.size?

def digits (size? : Option Nat) : List Char := (size?.map Numeral.digitsOf).getD []

/-- The text that a type is declared with. -/
def chars (type : Leaf) : List Char := type.word ++ digits type.size?

/-- The type of encoded data. -/
def elementary : Leaf → Elementary
  | number signed size =>
      let bits := (size.map fun n => 8 * (n.val + 1)).getD 256
      if signed then .int bits else .uint bits
  | truth => .bool
  | address => .address
  | bytes none => .bytes
  | bytes (some n) => .fixedBytes (n + 1)

variable {type : Leaf}

theorem isDigit_of_mem_digits {size? : Option Nat} {c : Char} (h : c ∈ digits size?) :
    c.isDigit = true := by
  cases size? with
  | none => cases h
  | some n => exact Numeral.isDigit_of_mem_digitsOf h

/-- The words of the types. -/
def words : List (List Char) :=
  ["int".toList, "uint".toList, "bool".toList, "address".toList, "bytes".toList]

theorem word_mem_words : ∀ type : Leaf, type.word ∈ words
  | number true _ => .head _
  | number false _ => .tail _ (.head _)
  | truth => .tail _ (.tail _ (.head _))
  | address => .tail _ (.tail _ (.tail _ (.head _)))
  | bytes _ => .tail _ (.tail _ (.tail _ (.tail _ (.head _))))

theorem isLetter_of_mem_word (type : Leaf) : ∀ c ∈ type.word, TypeSyntax.isLetter c = true :=
  (by decide : ∀ w ∈ words, ∀ c ∈ w, TypeSyntax.isLetter c = true) type.word type.word_mem_words

theorem isAlphanum_of_mem_chars {c : Char} (h : c ∈ type.chars) : c.isAlphanum = true := by
  rcases List.mem_append.mp h with h | h
  · have hletter : c.isAlpha = true := isLetter_of_mem_word type c h
    simp [Char.isAlphanum, hletter]
  · simp [Char.isAlphanum, isDigit_of_mem_digits h]

theorem exists_word (type : Leaf) : ∃ c cs, type.word = c :: cs ∧ c ≠ 't' ∧ c ≠ '(' := by
  have hfirst : ∀ w ∈ words, ∃ c ∈ w.head?, c ≠ 't' ∧ c ≠ '(' := by decide
  obtain ⟨c, hc, hne⟩ := hfirst type.word type.word_mem_words
  obtain ⟨cs, hcs⟩ := List.head?_eq_some_iff.mp hc
  exact ⟨c, cs, hcs, hne⟩

/-- No type without parts is taken for a tuple. -/
theorem not_tupleWord_prefix (type : Leaf) (more : List Char) :
    ¬Parameter.tupleWord.toList <+: type.chars ++ more := by
  obtain ⟨c, cs, hcs, hne, -⟩ := type.exists_word
  have htuple : Parameter.tupleWord.toList = 't' :: "uple".toList := rfl
  rw [chars, hcs, htuple, List.cons_append, List.cons_append, List.cons_prefix_cons]
  exact fun h => hne h.1.symm

end Leaf

/-- The types of parameters. The components of tuples have names. -/
inductive Schema where
  | leaf (type : Leaf)
  | array (item : Schema) (suffix : Suffix)
  | tuple (components : List (String × Schema))

namespace Schema

/-- Arrays of a set length have items, and tuples have components of which no two have one name. -/
inductive WellFormed : Schema → Prop
  | leaf (type : Leaf) : WellFormed (.leaf type)
  | array {item : Schema} {suffix : Suffix} (hitem : WellFormed item)
      (hsuffix : suffix ≠ .exactly 0) : WellFormed (.array item suffix)
  | tuple {components : List (String × Schema)} (hsome : components ≠ [])
      (hnames : (components.map Prod.fst).Nodup)
      (hcomponents : ∀ c ∈ components, WellFormed c.2) : WellFormed (.tuple components)

/-- The text that a type is declared with. -/
def typeChars : Schema → List Char
  | leaf type => type.chars
  | array item suffix => item.typeChars ++ suffix.chars
  | tuple _ => Parameter.tupleWord.toList

mutual

/-- The components that stand beside the type text. -/
def parameters : Schema → List Parameter
  | leaf _ => []
  | array item _ => item.parameters
  | tuple components => parametersOf components

def parametersOf : List (String × Schema) → List Parameter
  | [] => []
  | (name, schema) :: components =>
      .mk (String.ofList schema.typeChars) (some (.text name)) schema.parameters ::
        parametersOf components

end

/-- The parameter that is declared with a schema and a name. -/
def parameter (schema : Schema) (name : Option Value) : Parameter :=
  .mk (String.ofList schema.typeChars) name schema.parameters

theorem parametersOf_eq (components : List (String × Schema)) :
    parametersOf components = components.map fun c => c.2.parameter (some (.text c.1)) := by
  induction components with
  | nil => rfl
  | cons component components ih => rw [parametersOf, ih, List.map_cons, parameter]

section Texts

theorem isSign_of_mem_suffix {suffix : Suffix} {c : Char} (h : c ∈ suffix.chars) :
    TypeSyntax.isSign c = true := by
  rcases List.mem_cons.mp h with rfl | h
  · decide
  rcases List.mem_append.mp h with h | h
  · exact TypeSyntax.isSign_of_isAlphanum
      (TypeSyntax.isAlphanum_of_isDigit (Suffix.isDigit_of_mem_digits h))
  · obtain rfl := List.mem_singleton.mp h
    decide

theorem isSign_of_mem_typeChars : ∀ (schema : Schema), ∀ c ∈ schema.typeChars,
    TypeSyntax.isSign c = true
  | .leaf _, _, h => TypeSyntax.isSign_of_isAlphanum (Leaf.isAlphanum_of_mem_chars h)
  | .array item _, c, h =>
      (List.mem_append.mp h).elim (isSign_of_mem_typeChars item c) isSign_of_mem_suffix
  | .tuple _, c, h =>
      (by decide : ∀ c ∈ Parameter.tupleWord.toList, TypeSyntax.isSign c = true) c h

theorem line_notMem_typeChars (schema : Schema) : '\n' ∉ schema.typeChars := by
  intro h
  exact absurd (isSign_of_mem_typeChars schema _ h) (by decide)

end Texts

section Declarations

mutual

/-- The declarations of the components that stand beside the type text. -/
def componentDeclarations : Schema → List Value
  | leaf _ => []
  | array item _ => item.componentDeclarations
  | tuple components => declarationsOf components

def declarationsOf : List (String × Schema) → List Value
  | [] => []
  | (name, schema) :: components =>
      Value.ofFields [("name", .text name), ("type", .text (String.ofList schema.typeChars)),
        ("components", .list schema.componentDeclarations)] :: declarationsOf components

end

/-- A declaration of a schema in an interface. -/
def declaration (schema : Schema) (name : String) : Value :=
  Value.ofFields [("name", .text name), ("type", .text (String.ofList schema.typeChars)),
    ("components", .list schema.componentDeclarations)]

theorem parameters_of_not_tuple : ∀ schema : Schema,
    Parameter.isTuple (String.ofList schema.typeChars) = false → schema.parameters = []
  | .leaf _, _ => rfl
  | .array item suffix, h => by
      rw [typeChars, String.ofList_append, Suffix.chars, isTuple_append_bracket] at h
      exact parameters_of_not_tuple item h
  | .tuple _, h => by
      rw [typeChars, String.ofList_toList] at h
      cases h

/-- A declaration is read as the parameter if the declarations of its components are. -/
theorem ofValue_declaration_of {schema : Schema}
    (h : Parameter.ofItems schema.componentDeclarations = .ok schema.parameters) (name : String) :
    Parameter.ofValue (schema.declaration name) =
      .ok (schema.parameter (some (.text name))) := by
  obtain ⟨entries, hentries⟩ : ∃ entries, schema.declaration name = .table entries := ⟨_, rfl⟩
  have htype : (Value.table entries).need "type" =
      .ok (.text (String.ofList schema.typeChars)) := by
    rw [← hentries]
    simp [declaration, Value.need, Value.ofFields, Ordered.get?]
  have hname : Ordered.get? entries (.text "name") = some (.text name) := by
    cases hentries
    simp [Ordered.get?]
  have hcomponents : Parameter.componentsIn entries = .ok schema.parameters := by
    cases hentries
    rw [Parameter.componentsIn_eq]
    simpa [Ordered.get?, Parameter.ofSequence] using h
  rw [hentries, Parameter.ofValue, htype, hname, hcomponents]
  cases htuple : Parameter.isTuple (String.ofList schema.typeChars) with
  | true => simp [Parameter.typeText, htuple, bind, Except.bind, pure, Except.pure, parameter]
  | false =>
      simp [Parameter.typeText, htuple, bind, Except.bind, pure, Except.pure, parameter,
        parameters_of_not_tuple schema htuple]

mutual

theorem ofItems_componentDeclarations : ∀ schema : Schema,
    Parameter.ofItems schema.componentDeclarations = .ok schema.parameters
  | .leaf _ => rfl
  | .array item _ => ofItems_componentDeclarations item
  | .tuple components => ofItems_declarationsOf components

theorem ofItems_declarationsOf : ∀ components : List (String × Schema),
    Parameter.ofItems (declarationsOf components) = .ok (parametersOf components)
  | [] => rfl
  | (name, schema) :: components => by
      have hfirst := ofValue_declaration_of (ofItems_componentDeclarations schema) name
      rw [declaration] at hfirst
      rw [declarationsOf, Parameter.ofItems, hfirst, ofItems_declarationsOf components]
      rfl

end

end Declarations

section Form

variable {v : Value}

/-- An argument for an array is brought into form item by item. -/
theorem coerce?_array (item : Schema) (suffix : Suffix) (name : Option Value) (v : Value) :
    coerce? ((item.array suffix).parameter name) v =
      (arrayItems? v).bind fun xs =>
        (coerceItems (coerce? (item.parameter name)) xs).map .list := by
  have hitem : arrayItem? (String.ofList (item.array suffix).typeChars).toList =
      some item.typeChars := by
    rw [String.toList_ofList]
    exact arrayItem?_append (line_notMem_typeChars item) Suffix.isDecimal_of_mem_digits
  rw [parameter, coerce?_of_item hitem, parameters, parameter]

/-- An argument for a tuple is brought into form component by component. -/
theorem coerce?_tuple (components : List (String × Schema)) (name : Option Value) (v : Value) :
    coerce? ((tuple components).parameter name) v =
      (tupleValues? (parametersOf components) v).bind fun xs =>
        (coerceComponents? (parametersOf components) xs).map .tuple := by
  rw [parameter, typeChars, String.ofList_toList, coerce?_tupleWord, parameters]

theorem coerce?_leaf (type : Leaf) (name : Option Value) (v : Value) :
    coerce? ((leaf type).parameter name) v = coerceLeaf (String.ofList type.chars) v := by
  have hbracket : '[' ∉ type.chars := fun h =>
    absurd (Leaf.isAlphanum_of_mem_chars h) (by decide)
  have hitem : arrayItem? type.chars = none :=
    arrayItem?_eq_none_of_notMem (line_notMem_typeChars (.leaf type)) hbracket
  have hword : String.ofList type.chars ≠ Parameter.tupleWord := by
    intro h
    have htext : type.chars = Parameter.tupleWord.toList := by rw [← h, String.toList_ofList]
    apply type.not_tupleWord_prefix []
    rw [htext]
    exact List.prefix_append _ _
  rw [parameter, typeChars, coerce?_of_leaf (by rwa [String.toList_ofList]) hword]

end Form

end Schema

end ContractBench.Encoding
