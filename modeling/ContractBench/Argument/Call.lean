import ContractBench.Argument.RawReading

/-! # Call arguments

The arguments of a call, from the inputs of the function and the texts typed for them. Fields
that are left blank give no argument, and a failure names its field.
-/

namespace ContractBench.Argument

/-- The field of an input: its name, or its position where it has none. -/
def fieldOf (position : Nat) (input : Value) : Except Fault Value := do
  match ← input.get "name" with
  | some name => return if name.isTruthy then name else byPosition
  | none => return byPosition
where
  /-- The field of an unnamed input. -/
  byPosition : Value := .text ("param" ++ toString position)

/-- The value under a key of any kind. -/
def valueUnder (values key : Value) : Except Fault (Option Value) :=
  match values with
  | .table entries =>
      if key.isKey then .ok (Ordered.get? entries key) else .error (.notHashable key.kind)
  | _ => .error (.noOperation values.kind "get")

/-- What was typed into a field; nothing was typed where the value counts as absent. -/
def typedInto (values key : Value) : Except Fault Value := do
  match ← valueUnder values key with
  | some v => return if v.isTruthy then v else .text ""
  | none => return .text ""

/-- Names the field in the failure of reading it. -/
def inField (field : Value) : Failure → Failure
  | .argument form message none => .argument form message (some field)
  | failure => failure

/-- The fault of a type that is no text. -/
def notType : Value → Fault
  | .bytes _ => .notText .bytes
  | v => .noOperation v.kind "strip"

/-- The text that a type has to be. -/
def typeText (type : Value) : Except Fault RawText :=
  match type.raw? with
  | some text => .ok text
  | none => .error (notType type)

/-- Reads bytes as an argument of a type. -/
def readBytes (bs : List UInt8) (type : Value) : Except Failure (Option Value) := do
  let bs := trimmedBytes bs
  if bs = [] then
    return none
  else
    let text ← orFail (typeText type)
    let way ← orFail (ArgumentType.ofText text.replaced)
    return some (← readBytesAs text way bs)

/-- Reads a typed text as an argument of a type. The type of a blank text is not looked at. -/
def readText (value : RawText) (type : Value) : Except Failure (Option Value) := do
  if value.trimmed.isEmpty then
    return none
  else
    readRaw value (← orFail (typeText type))

/-- Reads a typed value as an argument of a type. -/
def readValue (typed type : Value) : Except Failure (Option Value) :=
  match typed.raw? with
  | some value => readText value type
  | none =>
      match typed with
      | .bytes bs => readBytes bs type
      | _ => .error (.fault (.noOperation typed.kind "strip"))

def argumentOf (values : Value) (position : Nat) (input : Value) :
    Except Failure (Option Value) := do
  let field ← orFail (fieldOf position input)
  let typed ← orFail (typedInto values field)
  let type ← orFail (input.need "type")
  (readValue typed type).mapError (inField field)

/-- The arguments of the inputs from a position on. -/
def argumentsFrom (values : Value) : Nat → List Value → Except Failure (List Value)
  | _, [] => .ok []
  | position, input :: inputs => do
      let argument ← argumentOf values position input
      let rest ← argumentsFrom values (position + 1) inputs
      return argument.toList ++ rest

def arguments (inputs values : Value) : Except Failure (List Value) := do
  argumentsFrom values 0 (← orFail inputs.items)

end ContractBench.Argument
