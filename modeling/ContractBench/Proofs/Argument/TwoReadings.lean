import ContractBench.Proofs.Argument.Agreement
import ContractBench.Proofs.Argument.RawReading

/-! # Two readings of typed arguments

The texts typed for a constructor can be read as arguments first or be encoded as they are. Where
both ways lead to an encoding it is the same, except for texts of arrays in the form that the
reading of arguments does not expect: there a text in brackets is cut at its commas, and other
JSON is taken apart.
-/

namespace ContractBench.Argument

open Encoding

section Lists

/-- Texts are typed for inputs from a position on: each under the field of its input, not empty and
without blanks at its ends. -/
inductive Typed (values : Value) : Nat → List Value → List String → Prop
  | nil (position : Nat) : Typed values position [] []
  | cons {position : Nat} {input field : Value} {text : String} {inputs : List Value}
      {texts : List String} (hfield : fieldOf position input = .ok field)
      (htyped : typedInto values field = .ok (.text text)) (htrim : Text.stripped text = text)
      (hne : text ≠ "") (hrest : Typed values (position + 1) inputs texts) :
      Typed values position (input :: inputs) (text :: texts)

/-- The constructor of an interface has these inputs. -/
def HasInputs (abi : Value) (inputs : List Value) : Prop :=
  ∃ constructor, (do constructorOf (← abi.items)) = .ok (some constructor) ∧
    constructor.getD "inputs" .null = .ok (.list inputs)

/-- The text of an input is read alike. -/
def InputReadAlike (input : Value) (text : String) : Prop :=
  ∀ parameter, Parameter.ofValue input = .ok parameter → ReadAlike parameter.type text

variable {values input : Value} {inputs : List Value} {position : Nat} {text : String}
  {texts : List String} {parameter : Parameter} {argument : Option Value} {args : List Value}

/-- A declaration is a table with a text as its type. -/
theorem exists_of_ofValue (h : Parameter.ofValue input = .ok parameter) :
    ∃ type name components, input.need "type" = .ok type ∧
      Parameter.typeText type = .ok parameter.type ∧
      parameter = .mk parameter.type name components := by
  cases input with
  | table entries =>
      simp only [Parameter.ofValue] at h
      obtain ⟨type, hneed, h⟩ := bind_eq_ok_iff.mp h
      obtain ⟨text, htext, h⟩ := bind_eq_ok_iff.mp h
      split at h <;>
        · obtain ⟨components, -, heq⟩ := bind_eq_ok_iff.mp h
          cases heq
          exact ⟨type, _, components, hneed, htext, rfl⟩
  | _ => simp [Parameter.ofValue] at h

/-- The type of an argument is that of the parameter. -/
theorem read_of_argumentOf {field : Value} (hfield : fieldOf position input = .ok field)
    (htyped : typedInto values field = .ok (.text text))
    (hparameter : Parameter.ofValue input = .ok parameter)
    (hargument : argumentOf values position input = .ok argument) :
    read text parameter.type = .ok argument := by
  obtain ⟨type, -, -, hneed, htext, -⟩ := exists_of_ofValue hparameter
  obtain ⟨found, hfound, hargument⟩ := bind_eq_ok_iff.mp hargument
  cases hfield.symm.trans (orFail_eq_ok.mp hfound)
  obtain ⟨typed, hfound, hargument⟩ := bind_eq_ok_iff.mp hargument
  cases htyped.symm.trans (orFail_eq_ok.mp hfound)
  obtain ⟨found, hfound, hargument⟩ := bind_eq_ok_iff.mp hargument
  cases hneed.symm.trans (orFail_eq_ok.mp hfound)
  have hvalue := mapError_eq_ok_iff.mp hargument
  cases type with
  | text name =>
      rw [← Except.ok.inj htext, ← readValue_text]
      exact hvalue
  | brokenText ps =>
      have hread : readRaw text (.ofNumbers ps) = .ok argument :=
        (readText_eq_readRaw rfl text).symm.trans hvalue
      rw [← Except.ok.inj htext, ← readRaw_ofString]
      exact readRaw_replaced_of_ok hread
  | _ => cases htext

theorem coerceAll_cons {parameters : List Parameter} {v : Value} {vs xs : List Value}
    (h : coerceAll (parameter :: parameters) (v :: vs) = .ok xs) :
    ∃ x rest, coerce? parameter v = some x ∧ coerceAll parameters vs = .ok rest ∧
      xs = x :: rest := by
  rw [coerceAll] at h
  split at h
  next x hx =>
    obtain ⟨rest, hrest, heq⟩ := bind_eq_ok_iff.mp h
    cases heq
    exact ⟨x, rest, hx, hrest, rfl⟩
  next => cases h

theorem isSome_of_componentParts?_cons {type : AbiType} {types : List AbiType} {x : Value}
    {xs : List Value} (h : (componentParts? (type :: types) (x :: xs)).isSome = true) :
    (encode? type x).isSome = true ∧ (componentParts? types xs).isSome = true := by
  obtain ⟨parts, hparts⟩ := Option.isSome_iff_exists.mp h
  rw [componentParts?] at hparts
  obtain ⟨bytes, hbytes, hrest⟩ := Option.bind_eq_some_iff.mp hparts
  obtain ⟨rest, hrest, -⟩ := Option.bind_eq_some_iff.mp hrest
  exact ⟨Option.isSome_of_mem hbytes, Option.isSome_of_mem hrest⟩

/-- Where texts are read alike, the arguments that they are read as and the texts themselves are
brought into one form, if that has an encoding. -/
theorem eq_of_coerceAll {parameters : List Parameter} {xs ys : List Value} {types : List AbiType}
    (htyped : Typed values position inputs texts)
    (halike : ∀ pair ∈ inputs.zip texts, InputReadAlike pair.1 pair.2)
    (hparameters : Parameter.ofItems inputs = .ok parameters)
    (hargs : argumentsFrom values position inputs = .ok args)
    (hx : coerceAll parameters args = .ok xs)
    (hy : coerceAll parameters (texts.map .text) = .ok ys)
    (htypes : typesOf (parameters.map Parameter.canonical) = .ok types)
    (hparts : (componentParts? types ys).isSome = true) : xs = ys := by
  -- Inputs, parameters, arguments and types are taken one by one, in step.
  induction htyped generalizing parameters args xs ys types with
  | nil position =>
      cases hargs
      cases hparameters
      rw [coerceAll] at hx hy
      · exact Except.ok.inj (hx.symm.trans hy)
      · nofun
      · nofun
  | @cons position input field text inputs texts hfield htyped htrim hne hrest ih =>
      obtain ⟨parameter, hparameter, hmore⟩ := bind_eq_ok_iff.mp hparameters
      obtain ⟨otherParameters, hothers, heq⟩ := bind_eq_ok_iff.mp hmore
      cases heq
      obtain ⟨argument, hargument, hmore⟩ := bind_eq_ok_iff.mp hargs
      obtain ⟨otherArgs, hotherArgs, heq⟩ := bind_eq_ok_iff.mp hmore
      cases heq
      obtain ⟨abiType, htype, hmore⟩ := bind_eq_ok_iff.mp htypes
      obtain ⟨otherTypes, hotherTypes, heq⟩ := bind_eq_ok_iff.mp hmore
      cases heq
      have hread := read_of_argumentOf hfield htyped hparameter hargument
      have hcut : Text.trim text.toList = text.toList := by
        rw [← Text.toList_stripped, htrim]
      obtain ⟨way, v, -, -, rfl⟩ := exists_way_of_read hcut hne hread
      obtain ⟨x, xs, hvalue, hxs, rfl⟩ := coerceAll_cons hx
      obtain ⟨y, ys, hvalue', hys, rfl⟩ := coerceAll_cons hy
      rw [List.zip_cons_cons, List.forall_mem_cons] at halike
      obtain ⟨hencode, hparts⟩ := isSome_of_componentParts?_cons hparts
      obtain ⟨type, name, components, -, -, hmk⟩ := exists_of_ofValue hparameter
      have hfirst := halike.1 parameter hparameter
      rw [hmk] at htype hvalue hvalue'
      rw [eq_of_read htype hcut hne hfirst hread hvalue hvalue' hencode,
        ih halike.2 hothers hotherArgs hxs hys hotherTypes hparts]

/-- What it takes to encode arguments. -/
theorem exists_of_encodeArguments {bytes : List UInt8}
    (h : encodeArguments (.list inputs) (.list args) = .ok bytes) :
    ∃ parameters xs types, Parameter.ofItems inputs = .ok parameters ∧
      coerceAll parameters args = .ok xs ∧
      typesOf (parameters.map Parameter.canonical) = .ok types ∧
      encode? (.tuple types) (.tuple xs) = some bytes := by
  obtain ⟨parameters, hparameters, h⟩ := bind_eq_ok_iff.mp h
  obtain ⟨items, hitems, h⟩ := bind_eq_ok_iff.mp h
  cases hitems
  obtain ⟨xs, hxs, h⟩ := bind_eq_ok_iff.mp h
  obtain ⟨types, htypes, h⟩ := bind_eq_ok_iff.mp h
  split at h
  next found hfound =>
    cases h
    exact ⟨parameters, xs, types, mapError_eq_ok_iff.mp hparameters, hxs, htypes, hfound⟩
  next => cases h

theorem exists_of_constructorArguments {abi : Value} {hex : String} (hinputs : HasInputs abi inputs)
    (h : constructorArguments abi (.list args) = .ok (some hex)) :
    ∃ bytes, encodeArguments (.list inputs) (.list args) = .ok bytes ∧ hexText bytes = hex := by
  obtain ⟨constructor, hconstructor, hdeclared⟩ := hinputs
  obtain ⟨found, hfound, h⟩ := bind_eq_ok_iff.mp h
  cases hconstructor.symm.trans (orFail_eq_ok.mp hfound)
  obtain ⟨found, hfound, h⟩ := bind_eq_ok_iff.mp h
  cases hdeclared.symm.trans (orFail_eq_ok.mp hfound)
  split at h
  next => cases h
  next =>
    obtain ⟨count, -, h⟩ := bind_eq_ok_iff.mp h
    obtain ⟨expected, -, h⟩ := bind_eq_ok_iff.mp h
    split at h
    next =>
      obtain ⟨bytes, hbytes, heq⟩ := bind_eq_ok_iff.mp h
      cases heq
      exact ⟨bytes, hbytes, rfl⟩
    next => cases h

/-- The encoded arguments of a constructor for typed texts that are read as arguments first. -/
def encodedAsRead (abi inputs values : Value) : Except Failure (Option String) := do
  constructorArguments abi (.list (← arguments inputs values))

/-- Two ways lead from typed texts to the encoded arguments of a constructor: they are read as
arguments first, or they are encoded as they are. Where all of them are read alike and both ways
lead to an encoding, it is the same. -/
theorem encodedAsRead_agrees {abi : Value} {hex hex' : String}
    (hinputs : HasInputs abi inputs) (htyped : Typed values 0 inputs texts)
    (halike : ∀ pair ∈ inputs.zip texts, InputReadAlike pair.1 pair.2)
    (hread : encodedAsRead abi (.list inputs) values = .ok (some hex))
    (hraw : constructorArguments abi (Value.ofTexts texts) = .ok (some hex')) : hex = hex' := by
  obtain ⟨args, hargs, hread⟩ := bind_eq_ok_iff.mp hread
  obtain ⟨bytes, hbytes, rfl⟩ := exists_of_constructorArguments hinputs hread
  obtain ⟨bytes', hbytes', rfl⟩ := exists_of_constructorArguments hinputs hraw
  obtain ⟨parameters, xs, types, hparameters, hxs, htypes, hencode⟩ :=
    exists_of_encodeArguments hbytes
  obtain ⟨parameters', ys, types', hparameters', hys, htypes', hencode'⟩ :=
    exists_of_encodeArguments hbytes'
  cases hparameters.symm.trans hparameters'
  cases htypes.symm.trans htypes'
  have hparts : (componentParts? types ys).isSome = true := by
    rw [encode?] at hencode'
    obtain ⟨items, hitems, hlayout⟩ := Option.bind_eq_some_iff.mp hencode'
    obtain ⟨parts, hparts, -⟩ := Option.bind_eq_some_iff.mp hlayout
    cases hitems
    exact Option.isSome_of_mem hparts
  obtain ⟨items, hitems, hargs⟩ := bind_eq_ok_iff.mp hargs
  cases hitems
  cases eq_of_coerceAll htyped halike hparameters hargs hxs hys htypes hparts
  cases hencode.symm.trans hencode'
  rfl

end Lists

section Declared

/-- An interface with a constructor of given inputs. -/
def declaredWith (inputs : List Value) : Value :=
  .list [Value.ofFields [("type", .text "constructor"), ("inputs", .list inputs)]]

/-- An input with a name. -/
def namedInput (name type : String) : Value :=
  Value.ofFields [("name", .text name), ("type", .text type)]

theorem hasInputs_declaredWith (inputs : List Value) : HasInputs (declaredWith inputs) inputs := by
  refine ⟨Value.ofFields [("type", .text "constructor"), ("inputs", .list inputs)], ?_, ?_⟩
  · have htype : (Value.ofFields [("type", .text "constructor"), ("inputs", .list inputs)]).get
        "type" = .ok (some (.text "constructor")) := by
      simp [Value.get, Value.ofFields, Ordered.get?]
    simp [declaredWith, Value.items, constructorOf, htype, bind, Except.bind, pure, Except.pure]
  · simp [Value.getD_ofFields, Ordered.get?]

theorem ofValue_namedInput (name : String) {type : String} (h : Parameter.isTuple type = false) :
    Parameter.ofValue (namedInput name type) = .ok (.mk type (some (.text name)) []) := by
  simp [Parameter.ofValue, namedInput, Value.ofFields, Value.need, Ordered.get?,
    Parameter.typeText, h, bind, Except.bind, pure, Except.pure]

theorem typed_namedInput {name text : String} (type : String) (hname : name ≠ "")
    (htrim : Text.stripped text = text) (hne : text ≠ "") :
    Typed (Value.ofFields [(name, .text text)]) 0 [namedInput name type] [text] := by
  have htruthy {s : String} (h : s ≠ "") : (Value.text s).isTruthy = true := by
    simpa [Value.isTruthy] using h
  have hget : (namedInput name type).get "name" = .ok (some (.text name)) := by
    simp [namedInput, Value.get, Value.ofFields, Ordered.get?]
  have hunder : valueUnder (Value.ofFields [(name, .text text)]) (.text name) =
      .ok (some (.text text)) := by
    simp [valueUnder, Value.ofFields, Value.isKey, Ordered.get?]
  have hfield : fieldOf 0 (namedInput name type) = .ok (.text name) := by
    rw [fieldOf, hget]
    exact congrArg Except.ok (if_pos (htruthy hname))
  have htyped :
      typedInto (Value.ofFields [(name, .text text)]) (.text name) = .ok (.text text) := by
    rw [typedInto, hunder]
    exact congrArg Except.ok (if_pos (htruthy hne))
  exact .cons hfield htyped htrim hne (.nil 1)

theorem exists_of_isSome {ε α : Type} {outcome : Except ε (Option α)}
    (h : (outcome.toOption.bind id).isSome = true) : ∃ a, outcome = .ok (some a) := by
  cases outcome with
  | error e => cases h
  | ok found =>
      obtain ⟨a, rfl⟩ := Option.isSome_iff_exists.mp h
      exact ⟨a, rfl⟩

/-- Truth values with commas between them are read alike. -/
theorem encodedAsRead_agrees_of_commas :
    let inputs := [namedInput "flags" "bool[]"]
    let values := Value.ofFields [("flags", .text "true,false")]
    HasInputs (declaredWith inputs) inputs ∧ Typed values 0 inputs ["true,false"] ∧
      (∀ pair ∈ inputs.zip ["true,false"], InputReadAlike pair.1 pair.2) ∧
      ∃ hex, encodedAsRead (declaredWith inputs) (.list inputs) values = .ok (some hex) ∧
        constructorArguments (declaredWith inputs) (Value.ofTexts ["true,false"]) =
          .ok (some hex) := by
  intro inputs values
  have hinputs := hasInputs_declaredWith inputs
  have htyped : Typed values 0 inputs ["true,false"] :=
    typed_namedInput _ (by decide) (by decide +kernel) (by decide)
  have halike : ∀ pair ∈ inputs.zip ["true,false"], InputReadAlike pair.1 pair.2 := by
    intro pair hpair parameter hparameter
    cases List.mem_singleton.mp hpair
    cases (ofValue_namedInput "flags" (by decide)).symm.trans hparameter
    have hway : ArgumentType.ofText "bool[]" = .ok (.array "bool") := by decide
    refine Or.inr (Or.inr ⟨?_, fun h => absurd h (by decide +kernel)⟩)
    rintro ⟨way, hother, hjson⟩
    cases hway.symm.trans hother
    cases hjson
  obtain ⟨hex, hread⟩ := exists_of_isSome
    (by decide +kernel : ((encodedAsRead (declaredWith inputs) (.list inputs)
      values).toOption.bind id).isSome = true)
  obtain ⟨hex', hraw⟩ := exists_of_isSome
    (by decide +kernel : ((constructorArguments (declaredWith inputs)
      (Value.ofTexts ["true,false"])).toOption.bind id).isSome = true)
  have hsame := encodedAsRead_agrees hinputs htyped halike hread hraw
  exact ⟨hinputs, htyped, halike, hex, hread, hsame ▸ hraw⟩

/-- Not all texts are read alike: a JSON list of truth values is cut at its commas, and its pieces
count as false. -/
theorem not_forall_encodedAsRead_agrees :
    ¬∀ (abi values : Value) (inputs : List Value) (texts : List String) (hex hex' : String),
      HasInputs abi inputs → Typed values 0 inputs texts →
      encodedAsRead abi (.list inputs) values = .ok (some hex) →
      constructorArguments abi (Value.ofTexts texts) = .ok (some hex') → hex = hex' := by
  intro h
  let inputs := [namedInput "flags" "bool[]"]
  let values := Value.ofFields [("flags", .text "[true,false]")]
  obtain ⟨hex, hread⟩ := exists_of_isSome
    (by decide +kernel : ((encodedAsRead (declaredWith inputs) (.list inputs)
      values).toOption.bind id).isSome = true)
  obtain ⟨hex', hraw⟩ := exists_of_isSome
    (by decide +kernel : ((constructorArguments (declaredWith inputs)
      (Value.ofTexts ["[true,false]"])).toOption.bind id).isSome = true)
  have hsame := h (declaredWith inputs) values inputs ["[true,false]"] hex hex'
    (hasInputs_declaredWith inputs)
    (typed_namedInput _ (by decide) (by decide +kernel) (by decide)) hread hraw
  have hdiffer : (encodedAsRead (declaredWith inputs) (.list inputs) values).toOption ≠
      (constructorArguments (declaredWith inputs) (Value.ofTexts ["[true,false]"])).toOption := by
    decide +kernel
  rw [hread, hraw, hsame] at hdiffer
  exact hdiffer rfl

end Declared

end ContractBench.Argument
