import ContractBench.Json.Writer

/-! # The audit log

Every compilation leaves one line in the audit log: a JSON object without line breaks in it.
-/

namespace ContractBench.Audit

/-- What the log keeps of a compilation. -/
structure Event where
  fileName : Value
  version : Value
  success : Value := .bool true
  contractName : Value := .null
  message : Value := .null
  details : Value := .null

namespace Event

/-- The parts of an event that are given by name. -/
def names : List String :=
  ["file_name", "solc_version", "success", "contract_name", "message", "details"]

/-- An event from its parts. Only the first two have to be given. -/
def ofFields (v : Value) : Except Fault Event := do
  let entries ← v.entries
  match entries.find? fun e => !(e.1.text?.any names.contains) with
  | some (key, _) => throw (.missingArgument (key.text?.getD ""))
  | none => pure ()
  match v.field? "file_name", v.field? "solc_version" with
  | some fileName, some version =>
      return { fileName, version
               success := (v.field? "success").getD (.bool true)
               contractName := (v.field? "contract_name").getD .null
               message := (v.field? "message").getD .null
               details := (v.field? "details").getD .null }
  | none, _ => throw (.missingArgument "file_name")
  | _, none => throw (.missingArgument "solc_version")

/-- The fields of an entry: the time, and the parts of the event. Details that are absent are an
empty table. -/
def toFields (event : Event) (time : String) : List (String × Value) :=
  [("timestamp", .text time), ("file_name", event.fileName), ("solc_version", event.version),
    ("success", event.success), ("contract_name", event.contractName),
    ("message", event.message),
    ("details", if event.details.isTruthy then event.details else .table [])]

def line (event : Event) (time : String) : Except Fault String :=
  (Json.write (Value.ofFields (event.toFields time))).map (· ++ "\n")

end Event

/-- The log behind a call. One whose event cannot be written leaves the log as it was. -/
def noted (log : String) (time : String) (event : Event) : String :=
  match event.line time with
  | .ok line => log ++ line
  | .error _ => log

/-- The log that calls leave, each with the time at which it is made. -/
def log (calls : List (String × Event)) : String :=
  calls.foldl (fun log call => noted log call.1 call.2) ""

end ContractBench.Audit
