import ContractBench.Value

/-! # Issues of a request

The rules that the fields of a request have to keep, the place of a field that breaks one, and
the value that was found there.
-/

namespace ContractBench.Request

/-- The rules for fields. -/
inductive Rule where
  /-- The field has to be there. -/
  | missing
  | stringType
  /-- A text must not be broken, and a byte string that stands for one has to encode it. -/
  | stringEncoding
  | stringTooShort
  | stringTooLong
  | intType
  | intParsing
  /-- A number that is to be whole has a fraction. -/
  | intFromFloat
  /-- A whole number is out of the range that its form allows. -/
  | intParsingSize
  | finiteNumber
  | greaterThanEqual
  | lessThanEqual
  | boolType
  | boolParsing
  /-- A value has to be one of a few texts. -/
  | literal
  | listType
  | tableType
  | modelType
  | objectType
  | jsonInvalid
deriving DecidableEq, Repr

namespace Rule

/-- The word for a broken rule in reports. -/
def code : Rule → String
  | missing => "missing"
  | stringType => "string_type"
  | stringEncoding => "string_unicode"
  | stringTooShort => "string_too_short"
  | stringTooLong => "string_too_long"
  | intType => "int_type"
  | intParsing => "int_parsing"
  | intFromFloat => "int_from_float"
  | intParsingSize => "int_parsing_size"
  | finiteNumber => "finite_number"
  | greaterThanEqual => "greater_than_equal"
  | lessThanEqual => "less_than_equal"
  | boolType => "bool_type"
  | boolParsing => "bool_parsing"
  | literal => "literal_error"
  | listType => "list_type"
  | tableType => "dict_type"
  | modelType => "model_type"
  | objectType => "model_attributes_type"
  | jsonInvalid => "json_invalid"

end Rule

/-- A step on the way to a field: the name of a field, or a position in a list. -/
inductive Step where
  | name (s : String)
  | position (n : Int)
deriving DecidableEq, Repr

/-- A field that breaks a rule. -/
structure Issue where
  place : List Step
  rule : Rule
  /-- The value that breaks the rule. Where a field is missing it is the value around it. -/
  found : Value
deriving Repr

namespace Issue

/-- An issue of a part, seen from the whole. -/
def within (step : Step) (issue : Issue) : Issue := { issue with place := step :: issue.place }

end Issue

end ContractBench.Request
