import ContractBench.Proofs.Encoding.Layout
import ContractBench.Proofs.Encoding.Spellings
import ContractBench.Proofs.Encoding.Stopping
import ContractBench.Proofs.Encoding.TypeWriting

/-! # Arguments in other spellings

Constructor arguments that spell the same values are encoded as the same text, or the verification
fails for each of them. Where a number is too long to be read in one spelling, it is out of the
range of its type in the others.
-/

namespace ContractBench.Encoding

section LongNumbers

variable {schema : Schema} {x v : Value}

/-- Numbers that are too long to be written are in the range of no type. -/
theorem lt_natAbs_of_long {n : Int} (hn : Numeral.print? n = none) : Nat.pow 2 256 < n.natAbs := by
  rw [← Nat.not_le]
  intro hle
  rw [Numeral.print?_of_natAbs_le hle] at hn
  cases hn

theorem encodeElementary?_of_long {signed : Bool} {size : Option (Fin 32)} {n : Int}
    (hn : Numeral.print? n = none) :
    encodeElementary? (Leaf.number signed size).elementary (.int n) = none := by
  have hlong := lt_natAbs_of_long hn
  obtain ⟨bits, hbits, hsigned, hunsigned⟩ : ∃ bits ≤ 256,
      (Leaf.number true size).elementary = .int bits ∧
        (Leaf.number false size).elementary = .uint bits := by
    refine ⟨(size.map fun n => 8 * (n.val + 1)).getD 256, ?_, rfl, rfl⟩
    cases size with
    | none => exact Nat.le_refl 256
    | some n =>
        simp only [Option.map_some, Option.getD_some]
        omega
  have hrange : Nat.pow 2 bits ≤ Nat.pow 2 256 := Nat.pow_le_pow_right (by decide) hbits
  have hhalf : Nat.pow 2 (bits - 1) ≤ Nat.pow 2 256 :=
    Nat.pow_le_pow_right (by decide) (by omega)
  cases signed with
  | true =>
      have hout : ¬(-(Nat.pow 2 (bits - 1) : Int) ≤ n ∧ n < Nat.pow 2 (bits - 1)) := by omega
      rw [hsigned, encodeElementary?]
      simp only [wholeNumber?, Option.bind_eq_bind, Option.bind_some, signedWord?, if_neg hout]
  | false =>
      have hout : ¬(0 ≤ n ∧ n < Nat.pow 2 bits) := by omega
      rw [hunsigned, encodeElementary?]
      simp only [wholeNumber?, Option.bind_eq_bind, Option.bind_some, unsignedWord?, if_neg hout]

theorem Leaf.Spells.encode?_of_long {type : Leaf} {y : Value} (h : type.Spells x v)
    (hlong : HasLongNumber x) (hy : coerceLeaf (String.ofList type.chars) x = some y) :
    encode? (.elementary type.elementary) y = none := by
  cases hlong with
  | number hn =>
      cases h with
      | number | decimal | hexadecimal =>
        rw [coerceLeaf_number] at hy
        cases hy
        rw [encode?]
        exact encodeElementary?_of_long hn
  | item => cases h

theorem abiType_array_cases (item : Schema) (suffix : Argument.Suffix) :
    (item.array suffix).abiType = .array item.abiType ∨
      ∃ length, (item.array suffix).abiType = .fixedArray item.abiType length := by
  cases suffix with
  | any => exact Or.inl (by rw [Schema.abiType])
  | exactly length => exact Or.inr ⟨length, by rw [Schema.abiType]⟩

theorem abiTypes_eq (components : List (String × Schema)) :
    Schema.abiTypes components = components.map fun c => c.2.abiType := by
  induction components with
  | nil => rfl
  | cons component components ih => rw [Schema.abiTypes, ih, List.map_cons]

theorem encode?_array_of_item {item : Schema} {suffix : Argument.Suffix} {name : Option Value}
    {xs : List Value} {y : Value} (hx : x ∈ xs)
    (hnone : ∀ z, coerce? (item.parameter name) x = some z → encode? item.abiType z = none)
    (hy : coerce? ((item.array suffix).parameter name) (.list xs) = some y) :
    encode? (item.array suffix).abiType y = none := by
  rw [coerce?_array_list] at hy
  obtain ⟨ys, hys, rfl⟩ := Option.map_eq_some_iff.mp hy
  obtain ⟨z, hz, hcoerce⟩ := exists_of_mapM hys hx
  exact encode?_list_eq_none (abiType_array_cases item suffix) hz (hnone z hcoerce)

/-- A value with a number that is too long to be read has no encoding. -/
theorem Spells.encode?_of_long (h : Spells schema x v) (hlong : HasLongNumber x)
    {name : Option Value} {y : Value} (hy : coerce? (schema.parameter name) x = some y) :
    encode? schema.abiType y = none := by
  induction h generalizing name y with
  | leaf h =>
      rw [Schema.coerce?_leaf] at hy
      exact h.encode?_of_long hlong hy
  | list rows h ih =>
      cases hlong with
      | item hx hlong =>
          obtain ⟨row, hrow, rfl⟩ := List.mem_map.mp hx
          exact encode?_array_of_item hx (fun z hz => ih row hrow hlong hz) hy
  | @commas type suffix rows hsome h =>
      cases hlong with
      | item hx hlong =>
          obtain ⟨row, hrow, rfl⟩ := List.mem_map.mp hx
          refine encode?_array_of_item hx (fun z hz => ?_) hy
          rw [Schema.coerce?_leaf] at hz
          exact (h row hrow).encode?_of_long hlong hz
  | tuple rows h ih =>
      cases hlong with
      | item hx hlong =>
          obtain ⟨row, hrow, rfl⟩ := List.mem_map.mp hx
          rw [coerce?_tuple_list] at hy
          obtain ⟨ys, hys, rfl⟩ := Option.map_eq_some_iff.mp hy
          have hparts : componentParts? (rows.map fun row => row.1.2.abiType) ys = none :=
            componentParts?_eq_none hys hrow fun z hz => ih row hrow hlong hz
          have htypes : Schema.abiTypes (rows.map (·.1)) = rows.map fun row => row.1.2.abiType := by
            rw [abiTypes_eq, List.map_map]
            rfl
          rw [Schema.abiType, htypes, encode?_tuple, hparts, Option.map_none]
  | table h hfields ih => exact ih hlong hy
  | json h hv hs ih => exact ih hlong hy
  | unread h hv hlong hs hopen ih => exact ih hlong hy

end LongNumbers

section Arguments

variable {inputs : List (Option Value × Schema)} {declared : Value} {xs vs ws : List Value}

/-- Values and their spellings, one for each input. -/
inductive SpellsEach : List (Option Value × Schema) → List Value → List Value → Prop
  | nil : SpellsEach [] [] []
  | cons {input : Option Value × Schema} {inputs : List (Option Value × Schema)} {x v : Value}
      {xs vs : List Value} (hfirst : Spells input.2 x v) (hrest : SpellsEach inputs xs vs) :
      SpellsEach (input :: inputs) (x :: xs) (v :: vs)

theorem SpellsEach.length_eq (h : SpellsEach inputs xs vs) : vs.length = xs.length := by
  induction h with
  | nil => rfl
  | cons hfirst hrest ih => rw [List.length_cons, List.length_cons, ih]

theorem SpellsEach.exists_rows (h : SpellsEach inputs xs vs) :
    ∃ rows : List ((Option Value × Schema) × Value × Value), inputs = rows.map (·.1) ∧
      xs = rows.map (·.2.1) ∧ vs = rows.map (·.2.2) ∧
        ∀ row ∈ rows, Spells row.1.2 row.2.1 row.2.2 := by
  induction h with
  | nil => exact ⟨[], rfl, rfl, rfl, nofun⟩
  | @cons input inputs x v xs vs hfirst hrest ih =>
      obtain ⟨rows, rfl, rfl, rfl, hrows⟩ := ih
      exact ⟨(input, x, v) :: rows, rfl, rfl, rfl, List.forall_mem_cons.mpr ⟨hfirst, hrows⟩⟩

/-- The parameters of inputs. -/
def parametersFor (inputs : List (Option Value × Schema)) : List Parameter :=
  inputs.map fun input => input.2.parameter input.1

/-- The encoding of arguments, where it exists. -/
def encoded? (inputs : List (Option Value × Schema)) (args : List Value) : Option (List UInt8) :=
  (coerceComponents? (parametersFor inputs) args).bind fun values =>
    encode? (.tuple (inputs.map fun input => input.2.abiType)) (.tuple values)

/-- Arguments are encoded as the values that they spell. -/
theorem SpellsEach.encoded?_eq (hspells : SpellsEach inputs xs vs)
    (hschemas : ∀ input ∈ inputs, input.2.WellFormed) :
    encoded? inputs vs = encoded? inputs xs := by
  obtain ⟨rows, rfl, rfl, rfl, hrows⟩ := hspells.exists_rows
  have hparameters : parametersFor (rows.map (·.1)) =
      rows.map fun row => row.1.2.parameter row.1.1 := by
    rw [parametersFor, List.map_map]
    rfl
  have halike : ∀ row ∈ rows, Alike (coerce? (row.1.2.parameter row.1.1)) row.2.1 row.2.2 :=
    fun row hrow => (hrows row hrow).alike (hschemas row.1 (List.mem_map_of_mem hrow)) row.1.1
  rw [encoded?, encoded?, hparameters, coerceComponents?_map_eq_mapM,
    coerceComponents?_map_eq_mapM, List.map_map]
  rcases unless_of_rows halike with hsame | ⟨hlong, hnone⟩
  · rw [hsame]
  · -- In the form of the values the long number is out of range.
    rw [hnone, Option.bind_none]
    cases hlong with
    | item hx hlong =>
        obtain ⟨row, hrow, rfl⟩ := List.mem_map.mp hx
        symm
        rw [Option.bind_eq_none_iff]
        intro ys hys
        have hparts : componentParts? (rows.map fun row => row.1.2.abiType) ys = none :=
          componentParts?_eq_none hys hrow fun z hz => (hrows row hrow).encode?_of_long hlong hz
        rw [encode?_tuple]
        exact congrArg (Option.map Part.layout) hparts

theorem coerceAll_eq (parameters : List Parameter) (args : List Value) :
    coerceAll parameters args =
      (coerceComponents? parameters args).elim (.error notEncodable) .ok := by
  induction parameters generalizing args with
  | nil => rfl
  | cons parameter parameters ih =>
      cases args with
      | nil => rfl
      | cons x args =>
          rw [coerceAll, coerceComponents?, ih]
          cases coerce? parameter x with
          | none => rfl
          | some first => cases coerceComponents? parameters args <;> rfl

theorem typesOf_inputs (hschemas : ∀ input ∈ inputs, input.2.WellFormed) :
    typesOf ((parametersFor inputs).map Parameter.canonical) =
      .ok (inputs.map fun input => input.2.abiType) := by
  induction inputs with
  | nil => rfl
  | cons input inputs ih =>
      obtain ⟨hfirst, hrest⟩ := List.forall_mem_cons.mp hschemas
      have hmore := ih hrest
      rw [parametersFor] at hmore
      rw [parametersFor, List.map_cons, List.map_cons, typesOf, hfirst.typeOf_canonical input.1,
        hmore]
      rfl

/-- Arguments for inputs of known types are encoded, or the verification fails. -/
theorem encodeArguments_eq (hdeclared : Parameter.ofSequence declared = .ok (parametersFor inputs))
    (hschemas : ∀ input ∈ inputs, input.2.WellFormed) (args : List Value) :
    encodeArguments declared (.list args) =
      (encoded? inputs args).elim (.error notEncodable) .ok := by
  rw [encodeArguments_list, hdeclared, encoded?]
  simp only [Except.mapError, bind, Except.bind, coerceAll_eq, typesOf_inputs hschemas]
  cases coerceComponents? (parametersFor inputs) args with
  | none => rfl
  | some values =>
      simp only [Option.elim_some, Option.bind]
      cases encode? (.tuple (inputs.map fun input => input.2.abiType)) (.tuple values) <;> rfl

theorem exists_size_of_ofSequence {parameters : List Parameter}
    (h : Parameter.ofSequence declared = .ok parameters) : ∃ n, declared.size = .ok n := by
  cases declared with
  | null => cases h
  | bool => cases h
  | int => cases h
  | double => cases h
  | _ => exact ⟨_, rfl⟩

theorem argumentsFor_error {args : List Value} {failure : Failure}
    (hdeclared : Parameter.ofSequence declared = .ok (parametersFor inputs))
    (hschemas : ∀ input ∈ inputs, input.2.WellFormed)
    (h : argumentsFor declared args = .error failure) :
    ∃ message, failure = .verification message := by
  obtain ⟨expected, hsize⟩ := exists_size_of_ofSequence hdeclared
  rw [argumentsFor, orFail_eq_ok.mpr hsize] at h
  simp only [bind, Except.bind] at h
  split at h
  next =>
    rw [encodeArguments_eq hdeclared hschemas] at h
    cases hencoded : encoded? inputs args with
    | none =>
        rw [hencoded] at h
        exact ⟨_, (Except.error.inj h).symm⟩
    | some bytes =>
        rw [hencoded] at h
        cases h
  next => exact ⟨_, (Except.error.inj h).symm⟩

/-- Two outcomes have one result, or the verification fails in both. -/
def SameOrRefused {α : Type} (first second : Except Failure α) : Prop :=
  (∃ result, first = .ok result ∧ second = .ok result) ∨
    (∃ message, first = .error (.verification message)) ∧
      ∃ message, second = .error (.verification message)

theorem sameOrRefused_refl {α : Type} {outcome : Except Failure α}
    (h : ∀ failure, outcome = .error failure → ∃ message, failure = .verification message) :
    SameOrRefused outcome outcome := by
  cases outcome with
  | ok result => exact Or.inl ⟨result, rfl, rfl⟩
  | error failure =>
      obtain ⟨message, rfl⟩ := h failure rfl
      exact Or.inr ⟨⟨message, rfl⟩, message, rfl⟩

/-- Equivalent spellings of constructor arguments encode alike: two lists of arguments that spell
the same values for the types of a constructor have the same result, or the verification fails for
both. -/
theorem constructorArguments_of_spellings {abi : List Value}
    (hdeclares : Declares abi declared)
    (hdeclared : Parameter.ofSequence declared = .ok (parametersFor inputs))
    (hschemas : ∀ input ∈ inputs, input.2.WellFormed) (hvs : SpellsEach inputs xs vs)
    (hws : SpellsEach inputs xs ws) :
    SameOrRefused (constructorArguments (.list abi) (.list vs))
      (constructorArguments (.list abi) (.list ws)) := by
  have hlength : vs.length = ws.length := hvs.length_eq.trans hws.length_eq.symm
  have hencoded : encoded? inputs vs = encoded? inputs ws :=
    (hvs.encoded?_eq hschemas).trans (hws.encoded?_eq hschemas).symm
  have hempty : vs ≠ [] ↔ ws ≠ [] := by
    rw [← List.length_pos_iff, ← List.length_pos_iff, hlength]
  have harguments : argumentsFor declared vs = argumentsFor declared ws := by
    rw [argumentsFor, argumentsFor, encodeArguments_eq hdeclared hschemas,
      encodeArguments_eq hdeclared hschemas, hencoded, hlength]
  rw [constructorArguments_of_declares hdeclares, constructorArguments_of_declares hdeclares,
    harguments]
  simp only [hempty]
  apply sameOrRefused_refl
  intro failure hfailure
  split at hfailure
  next => exact argumentsFor_error hdeclared hschemas hfailure
  next => cases hfailure

section Sample

def sampleSettings : List (String × Schema) :=
  [("owner", .leaf .address), ("limits", .array (.leaf (.number true (some 0))) .any)]

/-- The inputs of a constructor that takes numbers and a pair. -/
def sampleInputs : List (String × Schema) :=
  [("amounts", .array (.leaf (.number false none)) .any), ("settings", .tuple sampleSettings)]

def sampleOwner : String := "0x00000000219ab540356cBB839Cbe05303d7705Fa"

def sampleValues : List Value :=
  [.list [.int 1, .int 255], .list [.text sampleOwner, .list [.int (-1)]]]

/-- The pair by the names of its components, with a list as JSON. -/
def sampleFields : List (String × Value) := [("limits", .text "[-1]"), ("owner", .text sampleOwner)]

def sampleText : String :=
  "\x7b\"limits\": \"[-1]\", \"owner\": \"0x00000000219ab540356cBB839Cbe05303d7705Fa\"\x7d"

theorem ofSequence_declarationsOf (components : List (String × Schema)) :
    Parameter.ofSequence (.list (Schema.declarationsOf components)) =
      .ok (parametersFor (components.map fun c => (some (.text c.1), c.2))) := by
  rw [Parameter.ofSequence, Schema.ofItems_declarationsOf, Schema.parametersOf_eq, parametersFor,
    List.map_map]
  rfl

theorem wellFormed_sample : ∀ input ∈ sampleInputs, input.2.WellFormed := by
  have hsettings : ∀ c ∈ sampleSettings, c.2.WellFormed :=
    List.forall_mem_cons.mpr ⟨.leaf _, List.forall_mem_singleton.mpr (.array (.leaf _) (by decide))⟩
  have hpair : (Schema.tuple sampleSettings).WellFormed :=
    .tuple (List.cons_ne_nil _ _) (by decide) hsettings
  exact List.forall_mem_cons.mpr ⟨.array (.leaf _) (by decide), List.forall_mem_singleton.mpr hpair⟩

theorem read_sampleText : Json.read sampleText = .ok (Value.ofFields sampleFields) := by
  have hfields : ∀ field ∈ sampleFields, Json.Kept field.2 :=
    List.forall_mem_cons.mpr ⟨.text (Json.keptText _),
      List.forall_mem_singleton.mpr (.text (Json.keptText _))⟩
  exact Json.read_of_write (Json.kept_ofFields (by decide) hfields) (by decide +kernel)

theorem read_sampleLimits : Json.read "[-1]" = .ok (.list [.int (-1)]) :=
  Json.read_of_write (.list (List.forall_mem_singleton.mpr (.int (by decide)))) (by decide +kernel)

theorem spells_amounts : Spells (.array (.leaf (.number false none)) .any)
    (.list [.int 1, .int 255]) (.text "1, 0xFF") := by
  have hjoined : Text.joined "," ["1", " 0xFF"] = "1, 0xFF" := by decide
  have hdecimal : Text.stripped "1" = Numeral.print 1 := by decide
  have hmarked : Text.lowered (Text.stripped " 0xFF") = marked (Nat.toDigits 16 255) := by
    decide +kernel
  rw [← hjoined]
  refine .commas [(.int 1, "1"), (.int 255, " 0xFF")] (List.cons_ne_nil _ _) ?_
  refine List.forall_mem_cons.mpr ⟨?_, List.forall_mem_singleton.mpr (.hexadecimal hmarked)⟩
  rw [hdecimal]
  exact .decimal 1

theorem spells_limits : Spells (.array (.leaf (.number true (some 0))) .any)
    (.list [.int (-1)]) (.list [.int (-1)]) :=
  .list [(.int (-1), .int (-1))] (List.forall_mem_singleton.mpr (.leaf (.number (-1))))

/-- The pair is spelled by a list, whatever spells its limits. -/
theorem spells_settings {v : Value} (h : Spells (.array (.leaf (.number true (some 0))) .any)
    (.list [.int (-1)]) v) : Spells (.tuple sampleSettings)
      (.list [.text sampleOwner, .list [.int (-1)]]) (.list [.text sampleOwner, v]) := by
  have howner : Spells (.leaf .address) (.text sampleOwner) (.text sampleOwner) :=
    .leaf (.address (by decide +kernel))
  exact .tuple
    [(("owner", .leaf .address), .text sampleOwner, .text sampleOwner),
      (("limits", .array (.leaf (.number true (some 0))) .any), .list [.int (-1)], v)]
    (List.forall_mem_cons.mpr ⟨howner, List.forall_mem_singleton.mpr h⟩)

theorem spells_sampleText : Spells (.tuple sampleSettings)
    (.list [.text sampleOwner, .list [.int (-1)]]) (.text sampleText) := by
  have hlimits := Spells.json spells_limits (.list _) read_sampleLimits
  have hfields : sampleFields.Perm ((sampleSettings.map (·.1)).zip
      [.text sampleOwner, .text "[-1]"]) := .swap _ _ []
  exact .json (.table (spells_settings hlimits) hfields) (.table _) read_sampleText

/-- Numbers with a comma between them and a pair by name in JSON, against lists. -/
theorem constructorArguments_of_sample :
    let inputs := sampleInputs.map fun c => (some (Value.text c.1), c.2)
    let declared := Value.list (Schema.declarationsOf sampleInputs)
    let abi := [Value.ofFields [("type", .text "constructor"), ("inputs", declared)]]
    let texts := [Value.text "1, 0xFF", .text sampleText]
    (Declares abi declared ∧ Parameter.ofSequence declared = .ok (parametersFor inputs) ∧
      (∀ input ∈ inputs, input.2.WellFormed) ∧ SpellsEach inputs sampleValues texts ∧
      SpellsEach inputs sampleValues sampleValues) ∧
      SameOrRefused (constructorArguments (.list abi) (.list texts))
        (constructorArguments (.list abi) (.list sampleValues)) := by
  intro inputs declared abi texts
  have hdeclares : Declares abi declared := declares_constructor declared
  have hdeclared := ofSequence_declarationsOf sampleInputs
  have hschemas : ∀ input ∈ inputs, input.2.WellFormed := by
    intro input hinput
    obtain ⟨c, hc, rfl⟩ := List.mem_map.mp hinput
    exact wellFormed_sample c hc
  have htexts : SpellsEach inputs sampleValues texts :=
    .cons spells_amounts (.cons spells_sampleText .nil)
  have hamounts : Spells (.array (.leaf (.number false none)) .any) (.list [.int 1, .int 255])
      (.list [.int 1, .int 255]) :=
    .list [(.int 1, .int 1), (.int 255, .int 255)] (List.forall_mem_cons.mpr
      ⟨.leaf (.number 1), List.forall_mem_singleton.mpr (.leaf (.number 255))⟩)
  have hvalues : SpellsEach inputs sampleValues sampleValues :=
    .cons hamounts (.cons (spells_settings spells_limits) .nil)
  exact ⟨⟨hdeclares, hdeclared, hschemas, htexts, hvalues⟩,
    constructorArguments_of_spellings hdeclares hdeclared hschemas htexts hvalues⟩

end Sample

end Arguments

end ContractBench.Encoding
