import ContractBench.Compiler.Compilation

/-! # Envelopes

The form that all answers of the service have: whether the request succeeded, a message, data,
and details of errors.
-/

namespace ContractBench.Service

/-- An answer of the service. -/
structure Envelope where
  success : Bool
  message : Option RawText := none
  data : Value := .null
  /-- A table of details. -/
  errors : Option Value := none
deriving Repr

namespace Envelope

/-- The message of a success that has no message of its own. -/
def defaultMessage : String := "Operação realizada com sucesso"

/-- An envelope from values, of which the message has to be a text or null, and the errors a
table or null. -/
def ofParts (success : Bool) (message data errors : Value) : Request.Checked Envelope :=
  (((Request.Checked.within (.name "message") (Request.optional Request.text message)).map
    fun message errors => (⟨success, message, data, errors⟩ : Envelope)).take
    (Request.Checked.within (.name "errors")
      (Request.optional Request.fields errors)))

def done (message : RawText) (data : Value) : Envelope :=
  { success := true, message := some message, data }

def failed (message : RawText) (errors : List (String × Value)) : Envelope :=
  { success := false, message := some message, errors := some (.ofFields errors) }

/-- The data of a compilation that succeeded; it needs a contract. -/
def compilationData (c : Compiler.Compilation) : Except Fault Value :=
  match c.contract with
  | some contract =>
      .ok (Value.ofFields
        [("contract", contract.toValue), ("compiler_version", .ofRaw? c.version)])
  | none => .error (.noOperation .null "model_dump")

/-- The envelope of a compilation. -/
def ofCompilation (c : Compiler.Compilation) : Except Fault Envelope :=
  if c.success then
    (compilationData c).map fun data => { success := true, message := c.message, data }
  else
    .ok
      { success := false
        message := c.message
        errors :=
          if c.diagnostics.isEmpty then none
          else some (.ofFields [("diagnostics", .ofRaws c.diagnostics)]) }

def toFields (e : Envelope) : List (String × Value) :=
  [("success", .bool e.success), ("message", .ofRaw? e.message), ("data", e.data),
    ("errors", e.errors.getD .null)]

end Envelope

end ContractBench.Service
