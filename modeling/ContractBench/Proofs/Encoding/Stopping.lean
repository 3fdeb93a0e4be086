import ContractBench.Encoding.Constructor
import ContractBench.Proofs.Traversal

/-! # What stops the encoding of arguments

Arguments that cannot be encoded are a failure of the verification, and submissions go on without
them. Three kinds of declarations are not taken for that: inputs that have no number, a type that is
no text, and the text of a type outside of the grammar of types, if everything before it is in
order.
-/

namespace ContractBench.Encoding

section Declarations

/-- The first thing wrong with a declaration is a type that is no text: its own, or that of a
component. -/
inductive Untyped : Value → Kind → Prop
  | ofType {entries : List (Value × Value)} {type : Value}
      (htype : (Value.table entries).need "type" = .ok type) (htext : type.kind ≠ .text)
      (hbytes : type.kind ≠ .bytes) : Untyped (.table entries) type.kind
  | ofComponent {entries : List (Value × Value)} {type components component : Value}
      {name : String} {before after : List Value} {kind : Kind}
      (htype : (Value.table entries).need "type" = .ok type)
      (hname : Parameter.typeText type = .ok name) (htuple : Parameter.isTuple name = true)
      (hcomponents : Ordered.get? entries (.text "components") = some components)
      (hitems : components.items = .ok (before ++ component :: after))
      (hbefore : ∀ x ∈ before, ∃ p, Parameter.ofValue x = .ok p)
      (hcomponent : Untyped component kind) : Untyped (.table entries) kind

/-- The first thing wrong with a list of declarations is a type that is no text. -/
def UntypedAmong (inputs : Value) (kind : Kind) : Prop :=
  ∃ before input after, inputs.items = .ok (before ++ input :: after) ∧
    (∀ x ∈ before, ∃ p, Parameter.ofValue x = .ok p) ∧ Untyped input kind

namespace Parameter

theorem ofItems_eq_mapM (xs : List Value) : ofItems xs = xs.mapM ofValue := by
  induction xs with
  | nil => rfl
  | cons x xs ih => rw [ofItems, List.mapM_cons, ih]

theorem ofFields_eq_mapM (fields : List (String × Value)) :
    ofFields fields = (fields.map Prod.snd).mapM ofValue := by
  induction fields with
  | nil => rfl
  | cons entry fields ih => rw [ofFields, List.map_cons, List.mapM_cons, ih]

theorem ofKeys_eq_mapM (entries : List (Value × Value)) :
    ofKeys entries = (entries.map Prod.fst).mapM ofValue := by
  induction entries with
  | nil => rfl
  | cons entry entries ih => rw [ofKeys, List.map_cons, List.mapM_cons, ih]

theorem componentsIn_eq (entries : List (Value × Value)) :
    componentsIn entries =
      (Ordered.get? entries (.text "components")).elim (.ok []) ofSequence := by
  induction entries with
  | nil => rfl
  | cons entry entries ih =>
      have hsame : (entry.1 == .text "components") = entry.1.same (.text "components") := rfl
      rw [componentsIn]
      cases h : entry.1.same (.text "components") with
      | true => simp [Ordered.get?, hsame, h]
      | false =>
          simp only [Ordered.get?] at ih
          simp [Ordered.get?, hsame, h, ih]

variable {entries : List (Value × Value)} {v x : Value} {kind : Kind} {operation : String}

/-- A declared list is gone through item by item. Other values are refused for their own kind. -/
theorem exists_items_of_ofSequence (h : ofSequence v = .error (.noOperation kind operation)) :
    ∃ xs, v.items = .ok xs ∧ xs.mapM ofValue = .error (.noOperation kind operation) ∧
      ∀ x ∈ xs, sizeOf x < sizeOf v := by
  cases v with
  | list xs =>
      refine ⟨xs, rfl, by rw [← ofItems_eq_mapM]; exact h, fun x hx => ?_⟩
      have := List.sizeOf_lt_of_mem hx
      simp
      omega
  | tuple xs =>
      refine ⟨xs, rfl, by rw [← ofItems_eq_mapM]; exact h, fun x hx => ?_⟩
      have := List.sizeOf_lt_of_mem hx
      simp
      omega
  | record fields =>
      refine ⟨fields.map Prod.snd, rfl, by rw [← ofFields_eq_mapM]; exact h, fun x hx => ?_⟩
      obtain ⟨⟨name, y⟩, hfield, rfl⟩ := List.mem_map.mp hx
      have := List.sizeOf_lt_of_mem hfield
      simp at this ⊢
      omega
  | table entries =>
      refine ⟨entries.map Prod.fst, rfl, by rw [← ofKeys_eq_mapM]; exact h, fun x hx => ?_⟩
      obtain ⟨⟨key, y⟩, hentry, rfl⟩ := List.mem_map.mp hx
      have := List.sizeOf_lt_of_mem hentry
      simp at this ⊢
      omega
  | text s =>
      rw [ofSequence] at h
      split at h <;> cases h
  | bytes bs =>
      rw [ofSequence] at h
      split at h <;> cases h
  | _ => cases h

theorem ofSequence_of_items {xs : List Value} (h : v.items = .ok xs) (hx : .table entries ∈ xs) :
    ofSequence v = xs.mapM ofValue := by
  cases v with
  | list ys =>
      cases h
      rw [ofSequence, ofItems_eq_mapM]
  | tuple ys =>
      cases h
      rw [ofSequence, ofItems_eq_mapM]
  | record fields =>
      cases h
      rw [ofSequence, ofFields_eq_mapM]
  | table others =>
      cases h
      rw [ofSequence, ofKeys_eq_mapM]
  | text s =>
      cases h
      simp at hx
  | brokenText ps =>
      cases h
      obtain ⟨n, -, hn⟩ := List.mem_map.mp hx
      cases (Value.kind_ofPoints [n]).symm.trans (congrArg Value.kind hn)
  | bytes bs =>
      cases h
      simp at hx
  | _ => cases h

theorem typeText_eq_noOperation_iff :
    typeText v = .error (.noOperation kind operation) ↔
      (v.kind = kind ∧ kind ≠ .text ∧ kind ≠ .bytes) ∧ operation = "startswith" := by
  cases v with
  | text s =>
      refine ⟨nofun, ?_⟩
      rintro ⟨⟨rfl, htext, -⟩, -⟩
      exact absurd rfl htext
  | brokenText ps =>
      refine ⟨nofun, ?_⟩
      rintro ⟨⟨rfl, htext, -⟩, -⟩
      exact absurd rfl htext
  | bytes bs =>
      refine ⟨nofun, ?_⟩
      rintro ⟨⟨rfl, -, hbytes⟩, -⟩
      exact absurd rfl hbytes
  | _ =>
      constructor
      · intro h
        cases h
        exact ⟨⟨rfl, nofun, nofun⟩, rfl⟩
      · rintro ⟨⟨rfl, -, -⟩, rfl⟩
        rfl

/-- A declaration is wrong where its type is missing or no text, or where its components are. -/
theorem ofValue_table_eq_error_iff {fault : Fault} :
    ofValue (.table entries) = .error fault ↔
      (Value.table entries).need "type" = .error fault ∨
        ∃ type, (Value.table entries).need "type" = .ok type ∧
          (typeText type = .error fault ∨
            ∃ name, typeText type = .ok name ∧ isTuple name = true ∧
              componentsIn entries = .error fault) := by
  have hcomponents (name : String) :
      (do
        let components ← if isTuple name then componentsIn entries else pure []
        return mk name (Ordered.get? entries (.text "name")) components) =
          (.error fault : Except Fault Parameter) ↔
        isTuple name = true ∧ componentsIn entries = .error fault := by
    cases isTuple name <;> simp [bind_eq_error_iff, pure, Except.pure]
  have hrest (type : Value) :
      (do
        let name ← typeText type
        let components ← if isTuple name then componentsIn entries else pure []
        return mk name (Ordered.get? entries (.text "name")) components) =
          (.error fault : Except Fault Parameter) ↔
        typeText type = .error fault ∨ ∃ name, typeText type = .ok name ∧ isTuple name = true ∧
          componentsIn entries = .error fault := by
    rw [bind_eq_error_iff]
    simp only [hcomponents]
  rw [ofValue, bind_eq_error_iff]
  simp only [hrest]

end Parameter

theorem need_ne_noOperation {v : Value} {name operation : String} {kind : Kind} :
    v.need name ≠ .error (.noOperation kind operation) := by
  cases v with
  | table entries =>
      rw [Value.need]
      cases Ordered.get? entries (.text name) <;> nofun
  | _ => nofun

/-- A declaration that is no table misses its type in one way or another. -/
theorem ofValue_ne_noOperation {v : Value} {operation : String} {kind : Kind}
    (hv : ∀ entries, v ≠ .table entries) :
    Parameter.ofValue v ≠ .error (.noOperation kind operation) := by
  rw [Parameter.ofValue]
  · have hneed : v.need "type" ≠ .error (.noOperation kind operation) := need_ne_noOperation
    split
    next fault hfault =>
      rintro h
      cases h
      exact hneed hfault
    next => nofun
  · exact hv

theorem sizeOf_lt_of_get? {entries : List (Value × Value)} {key v : Value}
    (h : Ordered.get? entries key = some v) : sizeOf v < sizeOf (Value.table entries) := by
  obtain ⟨⟨k, x⟩, hfind, rfl⟩ := Option.map_eq_some_iff.mp h
  have := List.sizeOf_lt_of_mem (List.mem_of_find?_eq_some hfind)
  simp at this ⊢
  omega

/-- A declaration without the operations of a text is one whose type is no text, or that has such a
component. -/
theorem untyped_of_ofValue {v : Value} {kind : Kind} {operation : String}
    (h : Parameter.ofValue v = .error (.noOperation kind operation)) :
    operation = "startswith" ∧ Untyped v kind := by
  cases v with
  | table entries =>
      rcases Parameter.ofValue_table_eq_error_iff.mp h with h | ⟨type, htype, h⟩
      · exact absurd h need_ne_noOperation
      rcases h with h | ⟨name, hname, htuple, h⟩
      · obtain ⟨⟨rfl, htext, hbytes⟩, rfl⟩ := Parameter.typeText_eq_noOperation_iff.mp h
        exact ⟨rfl, .ofType htype htext hbytes⟩
      · rw [Parameter.componentsIn_eq] at h
        cases hcomponents : Ordered.get? entries (.text "components") with
        | none =>
            rw [hcomponents] at h
            cases h
        | some components =>
            rw [hcomponents] at h
            obtain ⟨xs, hitems, hxs, hsize⟩ := Parameter.exists_items_of_ofSequence h
            obtain ⟨before, x, after, rfl, hbefore, hx⟩ := mapM_eq_error_iff.mp hxs
            have hlt := sizeOf_lt_of_get? hcomponents
            have := hsize x (by simp)
            obtain ⟨rfl, hcomponent⟩ := untyped_of_ofValue hx
            exact ⟨rfl, .ofComponent htype hname htuple hcomponents hitems hbefore hcomponent⟩
  | _ => exact absurd h (ofValue_ne_noOperation nofun)
termination_by sizeOf v

theorem Untyped.exists_table {v : Value} {kind : Kind} (h : Untyped v kind) :
    ∃ entries, v = .table entries := by
  cases h with
  | ofType => exact ⟨_, rfl⟩
  | ofComponent => exact ⟨_, rfl⟩

theorem ofSequence_of_before {v input : Value} {before after : List Value} {fault : Fault}
    (htable : ∃ entries, input = .table entries)
    (hitems : v.items = .ok (before ++ input :: after))
    (hbefore : ∀ x ∈ before, ∃ p, Parameter.ofValue x = .ok p)
    (hinput : Parameter.ofValue input = .error fault) :
    Parameter.ofSequence v = .error fault := by
  obtain ⟨entries, rfl⟩ := htable
  have hmem : .table entries ∈ before ++ .table entries :: after :=
    List.mem_append_right before List.mem_cons_self
  rw [Parameter.ofSequence_of_items hitems hmem]
  exact mapM_eq_error_iff.mpr ⟨before, _, after, rfl, hbefore, hinput⟩

theorem ofValue_of_untyped {v : Value} {kind : Kind} (h : Untyped v kind) :
    Parameter.ofValue v = .error (.noOperation kind "startswith") := by
  induction h with
  | ofType htype htext hbytes =>
      refine Parameter.ofValue_table_eq_error_iff.mpr (Or.inr ⟨_, htype, Or.inl ?_⟩)
      exact Parameter.typeText_eq_noOperation_iff.mpr ⟨⟨rfl, htext, hbytes⟩, rfl⟩
  | ofComponent htype hname htuple hcomponents hitems hbefore hcomponent ih =>
      refine Parameter.ofValue_table_eq_error_iff.mpr
        (Or.inr ⟨_, htype, Or.inr ⟨_, hname, htuple, ?_⟩⟩)
      rw [Parameter.componentsIn_eq, hcomponents]
      exact ofSequence_of_before hcomponent.exists_table hitems hbefore ih

/-- Declarations lack the operations of a text only where the first of them that is wrong has a type
that is no text. -/
theorem ofSequence_eq_noOperation_iff {v : Value} {kind : Kind} {operation : String} :
    Parameter.ofSequence v = .error (.noOperation kind operation) ↔
      operation = "startswith" ∧ UntypedAmong v kind := by
  constructor
  · intro h
    obtain ⟨xs, hitems, hxs, -⟩ := Parameter.exists_items_of_ofSequence h
    obtain ⟨before, x, after, rfl, hbefore, hx⟩ := mapM_eq_error_iff.mp hxs
    obtain ⟨rfl, huntyped⟩ := untyped_of_ofValue hx
    exact ⟨rfl, before, x, after, hitems, hbefore, huntyped⟩
  · rintro ⟨rfl, before, x, after, hitems, hbefore, huntyped⟩
    exact ofSequence_of_before huntyped.exists_table hitems hbefore (ofValue_of_untyped huntyped)

end Declarations

section TypeTexts

/-- The text of a type outside of the grammar of types. Texts with empty parentheses in them and the
short name of a single byte are refused in the way of the encoding instead. -/
def IsOutside (text : String) : Prop :=
  text ≠ partialName ∧ TypeSyntax.ofText? text = none ∧
    Text.hasPart ['(', ')'] text.toList = false

theorem typeOf_eq_unreadableType_iff {text : String} :
    typeOf text = .error .unreadableType ↔ IsOutside text := by
  unfold typeOf IsOutside
  by_cases hpartial : text = partialName
  · simp [hpartial, notEncodable]
  rw [if_neg hpartial]
  cases TypeSyntax.ofText? text with
  | none => cases Text.hasPart ['(', ')'] text.toList <;> simp [notEncodable, hpartial]
  | some written =>
      refine ⟨fun h => ?_, fun h => nomatch h.2.1⟩
      cases hwritten : AbiType.ofSyntax? written <;> simp [hwritten, notEncodable] at h

theorem typeOf_error {text : String} {failure : Failure} (h : typeOf text = .error failure) :
    failure = notEncodable ∨ failure = .unreadableType := by
  unfold typeOf at h
  split at h
  · exact Or.inl (Except.error.inj h).symm
  · split at h
    · split at h
      · exact Or.inl (Except.error.inj h).symm
      · exact Or.inr (Except.error.inj h).symm
    · split at h
      · cases h
      · exact Or.inl (Except.error.inj h).symm

theorem typesOf_eq_mapM (texts : List String) : typesOf texts = texts.mapM typeOf := by
  induction texts with
  | nil => rfl
  | cons text texts ih => rw [typesOf, List.mapM_cons, ih]

end TypeTexts

section Arguments

/-- What stops the encoding of arguments for inputs that are there. -/
inductive Stops (inputs : Value) (args : List Value) : Failure → Prop
  | unsized (hsize : inputs.size = .error (.notSized inputs.kind)) :
      Stops inputs args (.fault (.notSized inputs.kind))
  | untyped {kind : Kind} (hsize : inputs.size = .ok args.length)
      (huntyped : UntypedAmong inputs kind) :
      Stops inputs args (.fault (.noOperation kind "startswith"))
  | outside {parameters : List Parameter} {values : List Value} {before after : List String}
      {text : String} (hsize : inputs.size = .ok args.length)
      (hparameters : Parameter.ofSequence inputs = .ok parameters)
      (hvalues : coerceAll parameters args = .ok values)
      (htexts : parameters.map Parameter.canonical = before ++ text :: after)
      (hbefore : ∀ s ∈ before, ∃ type, typeOf s = .ok type) (htext : IsOutside text) :
      Stops inputs args .unreadableType

theorem Stops.ne_verification {inputs : Value} {args : List Value} {failure : Failure}
    (h : Stops inputs args failure) (message : RawText) : failure ≠ .verification message := by
  cases h <;> nofun

theorem coerceAll_error {parameters : List Parameter} {args : List Value} {failure : Failure}
    (h : coerceAll parameters args = .error failure) : failure = notEncodable := by
  induction parameters generalizing args with
  | nil => cases h
  | cons parameter parameters ih =>
      cases args with
      | nil => cases h
      | cons x xs =>
          rw [coerceAll] at h
          split at h
          · rcases bind_eq_error_iff.mp h with h | ⟨values, -, h⟩
            · exact ih h
            · cases h
          · exact (Except.error.inj h).symm

theorem declarationFailure_eq_iff {fault : Fault} {failure : Failure}
    (hfailure : ∀ message, failure ≠ .verification message) :
    declarationFailure fault = failure ↔
      ∃ kind operation, fault = .noOperation kind operation ∧
        failure = .fault (.noOperation kind operation) := by
  constructor
  · rintro rfl
    cases fault with
    | noOperation kind operation => exact ⟨kind, operation, rfl, rfl⟩
    | _ => exact absurd rfl (hfailure _)
  · rintro ⟨kind, operation, rfl, rfl⟩
    rfl

theorem typesOf_error {texts : List String} {failure : Failure}
    (h : typesOf texts = .error failure) : failure = notEncodable ∨ failure = .unreadableType := by
  rw [typesOf_eq_mapM] at h
  obtain ⟨before, text, after, -, -, htext⟩ := mapM_eq_error_iff.mp h
  exact typeOf_error htext

theorem encodeArguments_list (inputs : Value) (args : List Value) :
    encodeArguments inputs (.list args) = (do
      let parameters ← (Parameter.ofSequence inputs).mapError declarationFailure
      let values ← coerceAll parameters args
      let types ← typesOf (parameters.map Parameter.canonical)
      match encode? (.tuple types) (.tuple values) with
      | some bytes => return bytes
      | none => throw notEncodable) := rfl

theorem encodeArguments_eq_error_iff {inputs : Value} {args : List Value} {failure : Failure}
    (hfailure : ∀ message, failure ≠ .verification message) :
    encodeArguments inputs (.list args) = .error failure ↔
      (∃ kind, UntypedAmong inputs kind ∧ failure = .fault (.noOperation kind "startswith")) ∨
        ∃ parameters values, Parameter.ofSequence inputs = .ok parameters ∧
          coerceAll parameters args = .ok values ∧
          typesOf (parameters.map Parameter.canonical) = .error .unreadableType ∧
          failure = .unreadableType := by
  have hother : failure ≠ notEncodable := hfailure _
  rw [encodeArguments_list]
  constructor
  · intro h
    rcases bind_eq_error_iff.mp h with h | ⟨parameters, hparameters, h⟩
    · obtain ⟨fault, hfault, hname⟩ := mapError_eq_error_iff.mp h
      obtain ⟨kind, operation, rfl, rfl⟩ := (declarationFailure_eq_iff hfailure).mp hname
      obtain ⟨rfl, huntyped⟩ := ofSequence_eq_noOperation_iff.mp hfault
      exact Or.inl ⟨kind, huntyped, rfl⟩
    · have hparameters := mapError_eq_ok_iff.mp hparameters
      rcases bind_eq_error_iff.mp h with h | ⟨values, hvalues, h⟩
      · exact absurd (coerceAll_error h) hother
      rcases bind_eq_error_iff.mp h with h | ⟨types, -, h⟩
      · obtain rfl := (typesOf_error h).resolve_left hother
        exact Or.inr ⟨parameters, values, hparameters, hvalues, h, rfl⟩
      · split at h
        · cases h
        · exact absurd (Except.error.inj h).symm hother
  · rintro (⟨kind, huntyped, rfl⟩ | ⟨parameters, values, hparameters, hvalues, htypes, rfl⟩)
    · have hdeclared := ofSequence_eq_noOperation_iff.mpr ⟨rfl, huntyped⟩
      rw [hdeclared]
      rfl
    · refine bind_eq_error_iff.mpr (Or.inr ⟨parameters, mapError_eq_ok_iff.mpr hparameters, ?_⟩)
      refine bind_eq_error_iff.mpr (Or.inr ⟨values, hvalues, ?_⟩)
      exact bind_eq_error_iff.mpr (Or.inl htypes)

/-- All entries of an interface are objects. -/
def AllTables (abi : List Value) : Prop := ∀ entry ∈ abi, ∃ entries, entry = .table entries

theorem constructorOf_of_tables {abi : List Value} (habi : AllTables abi) :
    ∃ constructor, constructorOf abi = .ok constructor ∧
      ∀ c ∈ constructor, ∃ entries, c = .table entries := by
  induction abi with
  | nil => exact ⟨none, rfl, nofun⟩
  | cons entry abi ih =>
      obtain ⟨⟨entries, rfl⟩, hrest⟩ := List.forall_mem_cons.mp habi
      obtain ⟨constructor, hconstructor, htable⟩ := ih hrest
      rw [constructorOf]
      simp only [Value.get, bind, Except.bind]
      split
      · exact ⟨_, rfl, by simp⟩
      · exact ⟨constructor, hconstructor, htable⟩

/-- The inputs of the constructor that an interface declares. -/
def Declares (abi : List Value) (inputs : Value) : Prop :=
  ∃ constructor, constructorOf abi = .ok (some constructor) ∧
    constructor.getD "inputs" .null = .ok inputs

theorem declares_constructor (declared : Value) :
    Declares [Value.ofFields [("type", .text "constructor"), ("inputs", declared)]] declared := by
  refine ⟨Value.ofFields [("type", .text "constructor"), ("inputs", declared)], ?_, ?_⟩
  · simp [constructorOf, Value.ofFields, Value.get, Ordered.get?, bind, Except.bind, pure,
      Except.pure]
  · exact Value.getD_ofFields [("type", .text "constructor"), ("inputs", declared)] "inputs" .null

/-- The encoding of arguments for inputs that are there. -/
def argumentsFor (inputs : Value) (args : List Value) : Except Failure (Option String) := do
  let expected ← orFail inputs.size
  if args.length = expected then
    return some (hexText (← encodeArguments inputs (.list args)))
  else
    throw (wrongArity expected args.length)

theorem constructorArguments_of_declares {abi args : List Value} {inputs : Value}
    (h : Declares abi inputs) :
    constructorArguments (.list abi) (.list args) =
      if inputs.isTruthy = true ∧ args ≠ [] then argumentsFor inputs args else .ok none := by
  obtain ⟨constructor, hconstructor, hinputs⟩ := h
  have hargs : (Value.list args).isTruthy = !args.isEmpty := rfl
  unfold constructorArguments
  simp only [Value.items, bind, Except.bind, hconstructor, orFail, hinputs, hargs]
  cases inputs.isTruthy <;> cases args <;>
    simp [argumentsFor, Value.size, pure, Except.pure, orFail, bind, Except.bind]

theorem size_error {v : Value} {fault : Fault} (h : v.size = .error fault) :
    fault = .notSized v.kind := by
  cases v <;> simp [Value.size] at h <;> exact h.symm

theorem argumentsFor_eq_error_iff {inputs : Value} {args : List Value} {failure : Failure}
    (hfailure : ∀ message, failure ≠ .verification message) :
    argumentsFor inputs args = .error failure ↔ Stops inputs args failure := by
  constructor
  · intro h
    rcases bind_eq_error_iff.mp h with h | ⟨expected, hexpected, h⟩
    · obtain ⟨fault, hfault, rfl⟩ := orFail_eq_error_iff.mp h
      obtain rfl := size_error hfault
      exact .unsized hfault
    · have hsize := orFail_eq_ok.mp hexpected
      split at h
      next hlength =>
        subst hlength
        rcases bind_eq_error_iff.mp h with h | ⟨bytes, -, h⟩
        · rcases (encodeArguments_eq_error_iff hfailure).mp h with
            ⟨kind, huntyped, rfl⟩ | ⟨parameters, values, hparameters, hvalues, htypes, rfl⟩
          · exact .untyped hsize huntyped
          · rw [typesOf_eq_mapM] at htypes
            obtain ⟨before, text, after, htexts, hbefore, htext⟩ := mapM_eq_error_iff.mp htypes
            exact .outside hsize hparameters hvalues htexts hbefore
              (typeOf_eq_unreadableType_iff.mp htext)
        · cases h
      next => exact absurd (Except.error.inj h).symm (hfailure _)
  · intro h
    cases h with
    | unsized hsize =>
        rw [argumentsFor, hsize]
        rfl
    | untyped hsize huntyped =>
        have hencode : encodeArguments inputs (.list args) = .error _ :=
          (encodeArguments_eq_error_iff hfailure).mpr (Or.inl ⟨_, huntyped, rfl⟩)
        rw [argumentsFor, orFail_eq_ok.mpr hsize]
        simp only [bind, Except.bind, if_pos, hencode]
    | outside hsize hparameters hvalues htexts hbefore htext =>
        have htypes := mapM_eq_error_iff.mpr
          ⟨_, _, _, htexts, hbefore, typeOf_eq_unreadableType_iff.mpr htext⟩
        rw [← typesOf_eq_mapM] at htypes
        have hencode := (encodeArguments_eq_error_iff hfailure).mpr
          (Or.inr ⟨_, _, hparameters, hvalues, htypes, rfl⟩)
        rw [argumentsFor, orFail_eq_ok.mpr hsize]
        simp only [bind, Except.bind, if_pos, hencode]

/-- The arguments for an interface of objects are encoded, or left out, or impossible to encode;
other failures are those of what the constructor declares. -/
theorem constructorArguments_eq_error_iff {abi args : List Value} {failure : Failure}
    (habi : AllTables abi) (hfailure : ∀ message, failure ≠ .verification message) :
    constructorArguments (.list abi) (.list args) = .error failure ↔
      ∃ inputs, Declares abi inputs ∧ inputs.isTruthy = true ∧ args ≠ [] ∧
        Stops inputs args failure := by
  constructor
  · intro h
    obtain ⟨constructor, hconstructor, htable⟩ := constructorOf_of_tables habi
    cases constructor with
    | none =>
        unfold constructorArguments at h
        simp [Value.items, bind, Except.bind, hconstructor, orFail, pure, Except.pure] at h
    | some constructor =>
        obtain ⟨entries, rfl⟩ := htable constructor rfl
        have hdeclares : Declares abi _ := ⟨_, hconstructor, rfl⟩
        rw [constructorArguments_of_declares hdeclares] at h
        split at h
        next hthere =>
          obtain ⟨hinputs, hargs⟩ := hthere
          exact ⟨_, hdeclares, hinputs, hargs, (argumentsFor_eq_error_iff hfailure).mp h⟩
        next => cases h
  · rintro ⟨inputs, hdeclares, hinputs, hargs, hstops⟩
    rw [constructorArguments_of_declares hdeclares, if_pos ⟨hinputs, hargs⟩]
    exact (argumentsFor_eq_error_iff hfailure).mpr hstops

end Arguments

end ContractBench.Encoding
