import ContractBench.Proofs.Argument.RawReading
import ContractBench.Proofs.Encoding.Stopping
import ContractBench.Proofs.Numeral
import Mathlib.Data.List.ReduceOption

/-! # Forms

The fields of a form that is filled in for the inputs of a function. They are read in the order of
the inputs, and the first that cannot be read decides the outcome. Blank fields give no argument, so
that the arguments of a form with some blank fields are too few for a constructor.
-/

namespace ContractBench.Argument

open Encoding

section Definitions

/-- What is typed into a form: texts, or nothing. -/
def IsForm (values : Value) : Prop :=
  ∃ entries, values = .table entries ∧
    ∀ entry ∈ entries, entry.2 = .null ∨ ∃ s, entry.2 = .text s

/-- The text under a key. Nothing counts as the empty text. -/
def textUnder (values : Value) (key : String) : String :=
  ((values.field? key).bind Value.text?).getD ""

/-- The key of an input: its name, or its position where it has none. -/
def keyAt (position : Nat) (name? : Option String) : String :=
  (name?.filter (· != "")).getD ("param" ++ toString position)

/-- A field of a form: the key under which it is filled in, and the type as which it is read. -/
structure Field where
  key : String
  type : String

namespace Field

def isBlank (values : Value) (field : Field) : Bool :=
  Text.stripped (textUnder values field.key) == ""

def read (values : Value) (field : Field) : Except Failure (Option Value) :=
  Argument.read (textUnder values field.key) field.type

end Field

/-- The length that a type sets for an array has no more digits than are read. -/
def HasReadableLength (type : String) : Prop :=
  ∀ base digits, ArgumentType.fixedParts? (Text.trim type.toList) = some (base, digits) →
    digits.length ≤ Numeral.longest

/-- The fields of inputs from a position on. The types of the inputs are texts, and so are their
names, as far as they have any. -/
inductive HasFields : Nat → List Value → List Field → Prop
  | nil (position : Nat) : HasFields position [] []
  | cons {position : Nat} {input : Value} {name? : Option String} {type : String}
      {inputs : List Value} {fields : List Field}
      (hname : input.get "name" = .ok (name?.map .text))
      (htype : input.need "type" = .ok (.text type))
      (hrest : HasFields (position + 1) inputs fields) :
      HasFields position (input :: inputs) (⟨keyAt position name?, type⟩ :: fields)

end Definitions

section Fields

variable {values values' input : Value} {inputs : List Value} {fields : List Field} {field : Field}
  {position : Nat} {name? : Option String} {type : String}

theorem fieldOf_eq (hname : input.get "name" = .ok (name?.map .text)) :
    fieldOf position input = .ok (.text (keyAt position name?)) := by
  rw [fieldOf, hname]
  cases name? with
  | none => rfl
  | some name =>
      by_cases hempty : name = ""
      · subst hempty
        rfl
      · have htruthy : (Value.text name).isTruthy = true := by simpa [Value.isTruthy] using hempty
        have hkey : keyAt position (some name) = name := by simp [keyAt, Option.filter, hempty]
        rw [hkey]
        exact congrArg Except.ok (if_pos htruthy)

theorem typedInto_eq (h : IsForm values) (key : String) :
    typedInto values (.text key) = .ok (.text (textUnder values key)) := by
  obtain ⟨entries, rfl, hentries⟩ := h
  have hunder : valueUnder (.table entries) (.text key) =
      .ok (Ordered.get? entries (.text key)) := rfl
  have hfield : (Value.table entries).field? key = Ordered.get? entries (.text key) := rfl
  rw [typedInto, hunder, textUnder, hfield]
  cases hfound : Ordered.get? entries (.text key) with
  | none => rfl
  | some v =>
      obtain ⟨entry, hfind, rfl⟩ := Option.map_eq_some_iff.mp hfound
      rcases hentries entry (List.mem_of_find?_eq_some hfind) with hnull | ⟨s, hs⟩
      · rw [hnull]
        rfl
      · rw [hs]
        by_cases hempty : s = ""
        · subst hempty
          rfl
        · have htruthy : (Value.text s).isTruthy = true := by simpa [Value.isTruthy] using hempty
          exact congrArg Except.ok (if_pos htruthy)

/-- The argument of a field. A failure is that of its text, and it names the field. -/
def Field.argument (values : Value) (field : Field) : Except Failure (Option Value) :=
  (field.read values).mapError (inField (.text field.key))

theorem argumentOf_eq (hvalues : IsForm values) (hname : input.get "name" = .ok (name?.map .text))
    (htype : input.need "type" = .ok (.text type)) :
    argumentOf values position input = Field.argument values ⟨keyAt position name?, type⟩ := by
  rw [argumentOf, orFail_eq_ok.mpr (fieldOf_eq hname)]
  simp only [bind, Except.bind, orFail_eq_ok.mpr (typedInto_eq hvalues _), orFail_eq_ok.mpr htype,
    readValue_text]
  rfl

/-- The arguments of a form are those of its fields, without the blank ones. -/
theorem argumentsFrom_eq (hvalues : IsForm values) (h : HasFields position inputs fields) :
    argumentsFrom values position inputs =
      (fields.mapM (Field.argument values)).map List.reduceOption := by
  induction h with
  | nil => rfl
  | cons hname htype hrest ih =>
      rw [argumentsFrom, argumentOf_eq hvalues hname htype, ih, List.mapM_cons]
      cases Field.argument values _ with
      | error failure => rfl
      | ok argument =>
          cases List.mapM (Field.argument values) _ with
          | error failure => rfl
          | ok arguments => cases argument <;> rfl

theorem HasFields.length_eq (h : HasFields position inputs fields) :
    inputs.length = fields.length := by
  induction h with
  | nil => rfl
  | cons hname htype hrest ih => rw [List.length_cons, List.length_cons, ih]

theorem exists_ofText (h : HasReadableLength type) :
    ∃ way, ArgumentType.ofText type = .ok way := by
  have htells := ArgumentType.tells_ofChars (Text.trim type.toList)
  cases hway : ArgumentType.ofText type with
  | ok way => exact ⟨way, rfl⟩
  | error fault =>
      rw [← ArgumentType.ofText, hway] at htells
      cases htells with
      | @long base digits _ hsized hnone =>
          have hparts := ArgumentType.fixedParts?_append hsized.item_ne hsized.line
            hsized.digits_ne hsized.decimal
          rw [← hsized.split] at hparts
          obtain ⟨i, hi⟩ := Numeral.exists_decimal? hsized.digits_ne hsized.decimal
            (h base digits hparts)
          cases hnone.symm.trans hi

/-- A field is blank if it gives no argument. -/
theorem Field.read_eq_none_iff (htype : HasReadableLength field.type) :
    field.read values = .ok none ↔ field.isBlank values = true := by
  obtain ⟨way, hway⟩ := exists_ofText htype
  rw [Field.isBlank, beq_iff_eq, Text.stripped_eq_empty_iff, Field.read, Argument.read]
  by_cases hblank : Text.trim (textUnder values field.key).toList = []
  · simp only [hblank, if_true]
    exact iff_of_true rfl trivial
  · simp only [if_neg hblank, orFail_eq_ok.mpr hway, bind, Except.bind]
    cases readAs field.type way (Text.trim (textUnder values field.key).toList) <;>
      simp [pure, Except.pure, hblank]

/-- A failure of a text itself: of its form or of its number of elements. -/
inductive IsOfText : Failure → Prop
  | format (message : String) : IsOfText (.argument .format message none)
  | count (message : String) : IsOfText (.argument .count message none)

theorem isOfText_emptyElement (type value : String) : IsOfText (emptyElement type value) := by
  have hmessage := IsOfText.format ("Elemento vazio em " ++ type ++ ": " ++ value)
  simpa only [emptyElement, RawText.ofString_append] using hmessage

theorem isOfText_wrongCount (expected : Nat) (type : String) (found : Nat) :
    IsOfText (wrongCount expected type found) := by
  have hmessage := IsOfText.count ("Esperados " ++ Numeral.print expected ++ " valores para " ++
    type ++ ", recebidos " ++ Numeral.print found)
  simpa only [wrongCount, RawText.ofString_append] using hmessage

theorem isOfText_notNested (type : String) : IsOfText (notNested type) := by
  have hmessage := IsOfText.format ("JSON inválido para " ++ type ++
    ". Formato esperado: [[1,2],[3,4]] ou estrutura aninhada similar")
  simpa only [notNested, RawText.ofString_append] using hmessage

theorem isOfText_of_elements {base : String} {cs : List Char} {failure : Failure}
    (h : elements type base cs = .error failure) : IsOfText failure := by
  unfold elements at h
  split at h
  next => cases h
  next =>
    cases h
    exact isOfText_emptyElement type _

/-- Whatever cannot be read of a type that is understood is the fault of the text. -/
theorem isOfText_of_readAs {way : ArgumentType} {cs : List Char} {failure : Failure}
    (h : readAs type way cs = .error failure) : IsOfText failure := by
  cases way with
  | scalar => cases h
  | array base =>
      rw [readAs] at h
      cases helements : elements type base cs with
      | error other =>
          rw [helements] at h
          cases h
          exact isOfText_of_elements helements
      | ok xs =>
          rw [helements] at h
          cases h
  | fixedArray base length =>
      rcases bind_eq_error_iff.mp h with helements | ⟨xs, -, hcount⟩
      · exact isOfText_of_elements helements
      · split at hcount <;> cases hcount
        exact isOfText_wrongCount length type _
  | tuple =>
      rw [readAs] at h
      unfold tupleIn at h
      split at h <;> cases h
      exact .format _
  | nested =>
      rw [readAs] at h
      unfold nestedIn at h
      split at h <;> cases h
      exact isOfText_notNested _

theorem Field.isOfText_of_read {failure : Failure} (htype : HasReadableLength field.type)
    (h : field.read values = .error failure) : IsOfText failure := by
  obtain ⟨way, hway⟩ := exists_ofText htype
  rw [Field.read, Argument.read] at h
  split at h
  next => cases h
  next =>
    rw [orFail_eq_ok.mpr hway] at h
    rcases bind_eq_error_iff.mp h with hway | ⟨found, -, hread⟩
    · cases hway
    · rcases bind_eq_error_iff.mp hread with hread | ⟨x, -, hdone⟩
      · exact isOfText_of_readAs hread
      · cases hdone

end Fields

section Arguments

variable {values values' : Value} {inputs : List Value} {fields before after : List Field}
  {field : Field} {args : List Value} {failure : Failure}

theorem arguments_list (hvalues : IsForm values) (hfields : HasFields 0 inputs fields) :
    arguments (.list inputs) values =
      (fields.mapM (Field.argument values)).map List.reduceOption :=
  argumentsFrom_eq hvalues hfields

theorem Field.argument_eq_ok_iff {argument : Option Value} :
    field.argument values = .ok argument ↔ field.read values = .ok argument :=
  mapError_eq_ok_iff

/-- The failure of a field that cannot be read is that of its text, under its key. -/
theorem Field.argument_eq_error_iff (htype : HasReadableLength field.type) :
    field.argument values = .error failure ↔
      ∃ form, ∃ message : String, field.read values = .error (.argument form message none) ∧
        failure = .argument form message (some (.text field.key)) := by
  rw [Field.argument, mapError_eq_error_iff]
  constructor
  · rintro ⟨other, hread, rfl⟩
    cases isOfText_of_read htype hread with
    | format message => exact ⟨.format, message, hread, rfl⟩
    | count message => exact ⟨.count, message, hread, rfl⟩
  · rintro ⟨form, message, hread, rfl⟩
    exact ⟨_, hread, rfl⟩

theorem arguments_eq_ok_iff (hvalues : IsForm values) (hfields : HasFields 0 inputs fields) :
    arguments (.list inputs) values = .ok args ↔
      ∃ read, fields.mapM (Field.argument values) = .ok read ∧ read.reduceOption = args := by
  rw [arguments_list hvalues hfields]
  cases fields.mapM (Field.argument values) <;> simp [Except.map]

/-- The arguments are those of the fields that are not blank. -/
theorem forall₂_reduceOption {read : List (Option Value)}
    (htypes : ∀ f ∈ fields, HasReadableLength f.type)
    (h : fields.mapM (Field.argument values) = .ok read) :
    List.Forall₂ (fun f x => Field.read values f = .ok (some x))
      (fields.filter fun f => !f.isBlank values) read.reduceOption := by
  rw [mapM_eq_ok_iff] at h
  simp only [Field.argument_eq_ok_iff] at h
  induction h with
  | nil => exact .nil
  | @cons f x fields read hx hrest ih =>
      obtain ⟨htype, htypes⟩ := List.forall_mem_cons.mp htypes
      have hblank : x = none ↔ f.isBlank values = true := by
        rw [← Field.read_eq_none_iff htype, hx, Except.ok.injEq]
      cases x with
      | none =>
          rw [List.filter_cons_of_neg (by simp [hblank.mp rfl]), List.reduceOption_cons_of_none]
          exact ih htypes
      | some x =>
          have hfilled : f.isBlank values = false := by simpa using mt hblank.mpr nofun
          rw [List.filter_cons_of_pos (by simp [hfilled]), List.reduceOption_cons_of_some]
          exact .cons hx (ih htypes)

theorem forall₂_of_arguments (hvalues : IsForm values) (hfields : HasFields 0 inputs fields)
    (htypes : ∀ f ∈ fields, HasReadableLength f.type)
    (h : arguments (.list inputs) values = .ok args) :
    List.Forall₂ (fun f x => Field.read values f = .ok (some x))
      (fields.filter fun f => !f.isBlank values) args := by
  obtain ⟨read, hread, rfl⟩ := (arguments_eq_ok_iff hvalues hfields).mp h
  exact forall₂_reduceOption htypes hread

theorem exists_arguments_iff (hvalues : IsForm values) (hfields : HasFields 0 inputs fields) :
    (∃ args, arguments (.list inputs) values = .ok args) ↔
      ∀ f ∈ fields, ∃ x, f.read values = .ok x := by
  simp only [arguments_eq_ok_iff hvalues hfields, ← Field.argument_eq_ok_iff,
    ← exists_mapM_eq_ok_iff]
  constructor
  · rintro ⟨args, read, hread, -⟩
    exact ⟨read, hread⟩
  · rintro ⟨read, hread⟩
    exact ⟨_, read, hread, rfl⟩

/-- The failure of a form is that of the first of its fields that gives no argument. -/
theorem exists_argument_eq_error_iff (hvalues : IsForm values)
    (hfields : HasFields 0 inputs fields) :
    arguments (.list inputs) values = .error failure ↔
      ∃ before f after, fields = before ++ f :: after ∧
        (∀ g ∈ before, ∃ x, g.read values = .ok x) ∧ f.argument values = .error failure := by
  have herror : arguments (.list inputs) values = .error failure ↔
      fields.mapM (Field.argument values) = .error failure := by
    rw [arguments_list hvalues hfields]
    cases fields.mapM (Field.argument values) <;> simp [Except.map]
  rw [herror, mapM_eq_error_iff]
  simp only [Field.argument_eq_ok_iff]

/-- The first field that cannot be read decides. -/
theorem arguments_eq_error_iff (hvalues : IsForm values) (hfields : HasFields 0 inputs fields)
    (htypes : ∀ f ∈ fields, HasReadableLength f.type) :
    arguments (.list inputs) values = .error failure ↔
      ∃ before f after form, ∃ message : String, fields = before ++ f :: after ∧
        (∀ g ∈ before, ∃ x, g.read values = .ok x) ∧
        f.read values = .error (.argument form message none) ∧
        failure = .argument form message (some (.text f.key)) := by
  rw [exists_argument_eq_error_iff hvalues hfields]
  constructor
  · rintro ⟨before, f, after, rfl, hbefore, hf⟩
    obtain ⟨form, message, hread, rfl⟩ := (Field.argument_eq_error_iff (htypes f (by simp))).mp hf
    exact ⟨before, f, after, form, message, rfl, hbefore, hread, rfl⟩
  · rintro ⟨before, f, after, form, message, rfl, hbefore, hread, rfl⟩
    exact ⟨before, f, after, rfl, hbefore,
      (Field.argument_eq_error_iff (htypes f (by simp))).mpr ⟨form, message, hread, rfl⟩⟩

/-- Fields are read from the texts under their keys alone. -/
theorem Field.argument_congr (h : textUnder values' field.key = textUnder values field.key) :
    field.argument values' = field.argument values := by
  rw [Field.argument, Field.argument, Field.read, Field.read, h]

/-- What stands in the fields behind one that cannot be read does not matter. -/
theorem arguments_congr (hvalues : IsForm values) (hvalues' : IsForm values')
    (hfields : HasFields 0 inputs (before ++ field :: after))
    (hfield : ∀ x, field.read values ≠ .ok x)
    (hsame : ∀ f ∈ before ++ [field], textUnder values' f.key = textUnder values f.key) :
    arguments (.list inputs) values' = arguments (.list inputs) values := by
  obtain ⟨failure, hfailure⟩ :
      ∃ failure, (before ++ [field]).mapM (Field.argument values) = .error failure := by
    cases hread : (before ++ [field]).mapM (Field.argument values) with
    | error failure => exact ⟨failure, rfl⟩
    | ok read =>
        obtain ⟨x, hx⟩ := exists_mapM_eq_ok_iff.mp ⟨read, hread⟩ field (by simp)
        exact absurd (Field.argument_eq_ok_iff.mp hx) (hfield x)
  -- The first field that cannot be read is this one or stands before it.
  obtain ⟨front, f, back, hsplit, hfront, hf⟩ := mapM_eq_error_iff.mp hfailure
  have hall : before ++ field :: after = front ++ f :: (back ++ after) := by
    rw [List.append_cons, hsplit, List.append_assoc, List.cons_append]
  rw [hsplit] at hsame
  have hthere : (before ++ field :: after).mapM (Field.argument values') = .error failure := by
    refine mapM_eq_error_iff.mpr ⟨front, f, back ++ after, hall, fun g hg => ?_, ?_⟩
    · rw [Field.argument_congr (hsame g (List.mem_append_left _ hg))]
      exact hfront g hg
    · rw [Field.argument_congr (hsame f (by simp)), hf]
  have hhere := mapM_eq_error_iff.mpr ⟨front, f, back ++ after, hall, hfront, hf⟩
  rw [arguments_list hvalues hfields, arguments_list hvalues' hfields, hthere, hhere]

/-- With a blank field the arguments are too few for a constructor with these inputs. Without any
argument nothing is encoded. -/
theorem constructorArguments_of_blank {abi : List Value} (hvalues : IsForm values)
    (hfields : HasFields 0 inputs fields) (htypes : ∀ f ∈ fields, HasReadableLength f.type)
    (h : arguments (.list inputs) values = .ok args) (hdeclares : Declares abi (.list inputs))
    (hblank : ∃ f ∈ fields, f.isBlank values = true) :
    constructorArguments (.list abi) (.list args) =
      if args = [] then .ok none else .error (wrongArity fields.length args.length) := by
  have hlength := (forall₂_of_arguments hvalues hfields htypes h).length_eq
  have hfewer : args.length < fields.length := by
    rw [← hlength, List.length_filter_lt_length_iff_exists]
    simpa using hblank
  have htruthy : (Value.list inputs).isTruthy = true := by
    have hinputs : inputs ≠ [] := by
      rintro rfl
      rw [← hfields.length_eq] at hfewer
      cases hfewer
    simpa [Value.isTruthy] using hinputs
  rw [constructorArguments_of_declares hdeclares]
  by_cases hargs : args = []
  · rw [if_pos hargs, if_neg fun hboth => hboth.2 hargs]
  · have hsize : (Value.list inputs).size = .ok fields.length := by
      rw [← hfields.length_eq]
      rfl
    rw [if_neg hargs, if_pos ⟨htruthy, hargs⟩, argumentsFor, orFail_eq_ok.mpr hsize]
    simp only [bind, Except.bind, if_neg hfewer.ne]
    rfl

/-- A form gives arguments if each of its fields can be read, and they are in the order of the
inputs those of the fields that are not blank. Else the failure is that of the first field that
cannot be read, under its key, whatever stands in the fields behind it. No argument is encoded for
an input other than its own: with some blank fields the arguments are refused, and with none each is
that of the input in its place. -/
theorem arguments_of_form {abi : List Value} (hvalues : IsForm values)
    (hfields : HasFields 0 inputs fields) (htypes : ∀ f ∈ fields, HasReadableLength f.type) :
    ((∃ args, arguments (.list inputs) values = .ok args) ↔
      ∀ f ∈ fields, ∃ x, f.read values = .ok x) ∧
    (∀ args, arguments (.list inputs) values = .ok args →
      List.Forall₂ (fun f x => Field.read values f = .ok (some x))
        (fields.filter fun f => !f.isBlank values) args) ∧
    (∀ failure, arguments (.list inputs) values = .error failure ↔
      ∃ before f after form, ∃ message : String, fields = before ++ f :: after ∧
        (∀ g ∈ before, ∃ x, g.read values = .ok x) ∧
        f.read values = .error (.argument form message none) ∧
        failure = .argument form message (some (.text f.key))) ∧
    (∀ before f after values', fields = before ++ f :: after → (∀ x, f.read values ≠ .ok x) →
      IsForm values' →
      (∀ g ∈ before ++ [f], textUnder values' g.key = textUnder values g.key) →
      arguments (.list inputs) values' = arguments (.list inputs) values) ∧
    (∀ args, arguments (.list inputs) values = .ok args → Declares abi (.list inputs) →
      ((∃ f ∈ fields, f.isBlank values = true) → (∃ f ∈ fields, f.isBlank values = false) →
        constructorArguments (.list abi) (.list args) =
          .error (wrongArity fields.length args.length)) ∧
      ((∀ f ∈ fields, f.isBlank values = true) →
        constructorArguments (.list abi) (.list args) = .ok none) ∧
      ((∀ f ∈ fields, f.isBlank values = false) →
        List.Forall₂ (fun f x => Field.read values f = .ok (some x)) fields args)) := by
  refine ⟨exists_arguments_iff hvalues hfields,
    fun _ => forall₂_of_arguments hvalues hfields htypes,
    fun _ => arguments_eq_error_iff hvalues hfields htypes, ?_, fun args h hdeclares => ?_⟩
  · rintro before f after values' rfl hf hvalues' hsame
    exact arguments_congr hvalues hvalues' hfields hf hsame
  · have hfilled := forall₂_of_arguments hvalues hfields htypes h
    refine ⟨fun hblank hsome => ?_, fun hall => ?_, fun hnone => ?_⟩
    · have hargs : args ≠ [] := by
        rintro rfl
        obtain ⟨f, hf, hfield⟩ := hsome
        have hempty := List.forall₂_nil_right_iff.mp hfilled
        exact absurd (List.filter_eq_nil_iff.mp hempty f hf) (by simp [hfield])
      rw [constructorArguments_of_blank hvalues hfields htypes h hdeclares hblank, if_neg hargs]
    · have hargs : args = [] := by
        have hempty : fields.filter (fun f => !f.isBlank values) = [] :=
          List.filter_eq_nil_iff.mpr fun f hf => by simp [hall f hf]
        rw [hempty] at hfilled
        exact List.forall₂_nil_left_iff.mp hfilled
      rw [constructorArguments_of_declares hdeclares, if_neg fun hboth => hboth.2 hargs]
    · have hall : fields.filter (fun f => !f.isBlank values) = fields :=
        List.filter_eq_self.mpr fun f hf => by simp [hnone f hf]
      rwa [hall] at hfilled

section Sample

/-- An input with a type and with a name, if it has one. -/
def inputOf (name? : Option String) (type : String) : Value :=
  .ofFields (name?.toList.map (fun name => ("name", .text name)) ++ [("type", .text type)])

/-- An address, two numbers without a name, and a text. -/
def formInputs : List Value :=
  [inputOf (some "to") "address", inputOf none "uint256[2]", inputOf (some "memo") "string"]

def formFields : List Field :=
  [⟨"to", "address"⟩, ⟨"param1", "uint256[2]"⟩, ⟨"memo", "string"⟩]

/-- Nothing is typed for the address. -/
def typedForm : Value :=
  .ofFields [("to", .null), ("param1", .text " 1, 2"), ("memo", .text "fee")]

theorem get_inputOf (name? : Option String) (type : String) :
    (inputOf name? type).get "name" = .ok (name?.map .text) := by
  cases name? <;> simp [inputOf, Value.get, Value.ofFields, Ordered.get?]

theorem need_inputOf (name? : Option String) (type : String) :
    (inputOf name? type).need "type" = .ok (.text type) := by
  cases name? <;> simp [inputOf, Value.need, Value.ofFields, Ordered.get?]

theorem hasFields_form : HasFields 0 formInputs formFields :=
  .cons (get_inputOf (some "to") "address") (need_inputOf (some "to") "address")
    (.cons (get_inputOf none "uint256[2]") (need_inputOf none "uint256[2]")
      (.cons (get_inputOf (some "memo") "string") (need_inputOf (some "memo") "string") (.nil 3)))

theorem isForm_typed : IsForm typedForm := by
  refine ⟨_, rfl, ?_⟩
  simp

theorem hasReadableLength_sample : ∀ f ∈ formFields, HasReadableLength f.type := by
  have hparts : ∀ f ∈ formFields, ∀ parts ∈ ArgumentType.fixedParts? (Text.trim f.type.toList),
      parts.2.length ≤ Numeral.longest := by
    decide +kernel
  exact fun f hf base digits h => hparts f hf _ h

theorem exists_read_sample : ∀ f ∈ formFields, ∃ x, f.read typedForm = .ok x := by
  have hok : ∀ f ∈ formFields, (f.read typedForm).isOk = true := by decide +kernel
  intro f hf
  have hread := hok f hf
  cases h : f.read typedForm with
  | ok x => exact ⟨x, rfl⟩
  | error failure =>
      rw [h] at hread
      cases hread

/-- Without the address the two other arguments are not encoded. -/
theorem arguments_of_sample :
    let abi := [Value.ofFields [("type", .text "constructor"), ("inputs", .list formInputs)]]
    (IsForm typedForm ∧ HasFields 0 formInputs formFields ∧
      ∀ f ∈ formFields, HasReadableLength f.type) ∧
    ∃ args, arguments (.list formInputs) typedForm = .ok args ∧
      constructorArguments (.list abi) (.list args) = .error (wrongArity 3 2) := by
  intro abi
  obtain ⟨hread, hfilled, -, -, hencode⟩ :=
    @arguments_of_form _ _ _ abi isForm_typed hasFields_form hasReadableLength_sample
  obtain ⟨args, hargs⟩ := hread.mpr exists_read_sample
  have hlength : args.length = 2 := (hfilled args hargs).length_eq.symm.trans (by decide +kernel)
  have hrefused := (hencode args hargs (declares_constructor _)).1 (by decide +kernel)
    (by decide +kernel)
  rw [hlength] at hrefused
  exact ⟨⟨isForm_typed, hasFields_form, hasReadableLength_sample⟩, args, hargs, hrefused⟩

end Sample

end Arguments

end ContractBench.Argument
