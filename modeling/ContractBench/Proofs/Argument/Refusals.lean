import ContractBench.Proofs.Argument.Forms
import ContractBench.Proofs.Source.Shapes

/-! # Refused fields

Which field of a form is refused, and how. The first field that cannot be read decides: its failure
is one of its text, told with its key, unless its type sets a length that itself is too long to be
read.
-/

namespace ContractBench.Argument

section Definitions

/-- A type without parts, on one line, behind which a length stands with more digits than are
read. -/
def HasLongLength (type : String) : Prop :=
  ∃ base digits, Text.trim type.toList = base ++ '[' :: (digits ++ [']']) ∧
    base ≠ [] ∧ '\n' ∉ base ∧ '[' ∉ base ∧ ¬ArgumentType.tupleWord <+: base ∧
    (∀ c ∈ digits, Text.isDecimal c = true) ∧ Numeral.longest < digits.length

/-- The first field of a form that cannot be read. -/
def FirstRefused (values : Value) (fields : List Field) (field : Field) : Prop :=
  ∃ before after, fields = before ++ field :: after ∧
    (∀ f ∈ before, ∃ x, f.read values = .ok x) ∧ ∀ x, field.read values ≠ .ok x

end Definitions

section Types

variable {type : String} {fault : Fault}

theorem decimal?_of_long {digits : List Char} (hdigits : ∀ c ∈ digits, Text.isDecimal c = true)
    (hlong : Numeral.longest < digits.length) :
    Numeral.decimal? (String.ofList digits) = none := by
  have hlike : ∀ c ∈ digits, Text.isDigitLike c = true :=
    fun c hc => Numeral.isDigitLike_of_isDecimal (hdigits c hc)
  rw [Numeral.decimal?_of_digitLike hlike, if_pos hlong]

/-- Only the length of an array can keep a type from being understood. -/
theorem ofText_eq_error_iff :
    ArgumentType.ofText type = .error fault ↔ fault = .numeralTooLong ∧ HasLongLength type := by
  constructor
  · intro h
    have htells := ArgumentType.tells_ofChars (Text.trim type.toList)
    rw [← ArgumentType.ofText, h] at htells
    cases htells with
    | @long base digits htuple hsized hnone =>
        refine ⟨rfl, base, digits, hsized.split, hsized.item_ne, hsized.line, hsized.flat,
          fun hlead => htuple (hsized.split ▸ hlead.trans (List.prefix_append _ _)),
          hsized.decimal, ?_⟩
        by_contra hshort
        obtain ⟨i, hi⟩ := Numeral.exists_decimal? hsized.digits_ne hsized.decimal
          (Nat.le_of_not_lt hshort)
        cases hnone.symm.trans hi
  · rintro ⟨rfl, base, digits, htype, hne, hline, hbracket, htuple, hdigits, hlong⟩
    have hsome : digits ≠ [] := by
      rintro rfl
      exact Nat.not_lt_zero _ hlong
    have hother : ¬ArgumentType.tupleWord <+: base ++ '[' :: (digits ++ [']']) :=
      mt (Source.prefix_append_cons_iff (by decide)).mp htuple
    rw [ArgumentType.ofText, htype,
      ArgumentType.ofChars_append_exactly hne hline hbracket hsome hdigits hother,
      decimal?_of_long hdigits hlong]

end Types

section Fields

variable {values : Value} {inputs : List Value} {fields : List Field} {field : Field}
  {failure : Failure}

/-- A field cannot be read for the length of its type, or for its text. -/
theorem Field.read_eq_error_cases (h : field.read values = .error failure) :
    field.isBlank values = false ∧
      ((failure = .fault .numeralTooLong ∧ HasLongLength field.type) ∨
        (IsOfText failure ∧ ¬HasLongLength field.type)) := by
  rw [Field.read, Argument.read] at h
  split at h
  next => cases h
  next hsome =>
    have hblank : field.isBlank values = false := by
      rw [Field.isBlank, beq_eq_false_iff_ne, ne_eq, Text.stripped_eq_empty_iff]
      exact hsome
    refine ⟨hblank, ?_⟩
    cases hway : ArgumentType.ofText field.type with
    | error fault =>
        obtain ⟨rfl, hlong⟩ := ofText_eq_error_iff.mp hway
        rw [hway] at h
        cases h
        exact Or.inl ⟨rfl, hlong⟩
    | ok way =>
        have hshort : ¬HasLongLength field.type := by
          intro hlong
          rw [ofText_eq_error_iff.mpr ⟨rfl, hlong⟩] at hway
          cases hway
        rw [orFail_eq_ok.mpr hway] at h
        rcases bind_eq_error_iff.mp h with hnone | ⟨found, hfound, hread⟩
        · cases hnone
        · rcases bind_eq_error_iff.mp hread with hread | ⟨x, -, hdone⟩
          · exact Or.inr ⟨isOfText_of_readAs hread, hshort⟩
          · cases hdone

/-- The failure of a form is that of the first of its fields that cannot be read. -/
theorem arguments_error_iff (hvalues : IsForm values) (hfields : HasFields 0 inputs fields) :
    arguments (.list inputs) values = .error failure ↔
      ∃ field, FirstRefused values fields field ∧ field.argument values = .error failure := by
  rw [exists_argument_eq_error_iff hvalues hfields]
  constructor
  · rintro ⟨before, field, after, rfl, hbefore, hfield⟩
    refine ⟨field, ⟨before, after, rfl, hbefore, fun x hx => ?_⟩, hfield⟩
    rw [Field.argument_eq_ok_iff.mpr hx] at hfield
    cases hfield
  · rintro ⟨field, ⟨before, after, rfl, hbefore, -⟩, hfield⟩
    exact ⟨before, field, after, rfl, hbefore, hfield⟩

/-- A form gives arguments unless one of its fields is the first that cannot be read. -/
theorem arguments_cases (hvalues : IsForm values) (hfields : HasFields 0 inputs fields) :
    (∃ args, arguments (.list inputs) values = .ok args) ∨
      ∃ field, FirstRefused values fields field := by
  cases h : arguments (.list inputs) values with
  | ok args => exact Or.inl ⟨args, rfl⟩
  | error failure =>
      obtain ⟨field, hfirst, -⟩ := (arguments_error_iff hvalues hfields).mp h
      exact Or.inr ⟨field, hfirst⟩

theorem FirstRefused.exists_failure (h : FirstRefused values fields field) :
    ∃ failure, field.argument values = .error failure := by
  obtain ⟨before, after, -, -, hfield⟩ := h
  cases hargument : field.argument values with
  | ok x => exact absurd (Field.argument_eq_ok_iff.mp hargument) (hfield x)
  | error failure => exact ⟨failure, rfl⟩

/-- How a form is refused whose first field that cannot be read is given. -/
theorem arguments_of_firstRefused (hvalues : IsForm values) (hfields : HasFields 0 inputs fields)
    (h : FirstRefused values fields field) :
    (¬HasLongLength field.type → ∃ form, ∃ message : String, form ≠ .general ∧
      arguments (.list inputs) values =
        .error (.argument form message (some (.text field.key)))) ∧
    (HasLongLength field.type →
      arguments (.list inputs) values = .error (.fault .numeralTooLong)) := by
  obtain ⟨failure, hfailure⟩ := h.exists_failure
  rw [(arguments_error_iff hvalues hfields).mpr ⟨field, h, hfailure⟩]
  obtain ⟨other, hread, rfl⟩ := mapError_eq_error_iff.mp hfailure
  obtain ⟨-, ⟨rfl, hlong⟩ | ⟨htext, hshort⟩⟩ := Field.read_eq_error_cases hread
  · exact ⟨fun hshort => absurd hlong hshort, fun _ => rfl⟩
  · refine ⟨fun _ => ?_, fun hlong => absurd hlong hshort⟩
    cases htext with
    | format message => exact ⟨.format, message, nofun, rfl⟩
    | count message => exact ⟨.count, message, nofun, rfl⟩

end Fields

end ContractBench.Argument
