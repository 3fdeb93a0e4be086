import ContractBench.Response

/-! # Output of the compiler

What a run of the compiler comes to, the output that is taken from it, and the errors that the
output reports. A compiler that refuses its input may still have written an output.
-/

namespace ContractBench.Compiler

/-- What a run of the compiler comes to. -/
inductive Run where
  | output (v : Value)
  /-- The compiler refused its input, after it had written some text or nothing. -/
  | refused (written : Option String) (message : RawText)
  | failed (failure : Failure)

namespace Run

def output? : Run → Except Failure Value
  | .output v => .ok v
  | .refused written message =>
      match written.bind Json.read? with
      | some v => .ok v
      | none => .error (.compilation [message])
  | .failed failure => .error failure

end Run

/-- The text of a reported error: the formatted one, or else the plain one. -/
def reportOf (report : Value) : Except Fault Value := do
  let formatted ← report.getD "formattedMessage" .null
  if formatted.isTruthy then return formatted else report.getD "message" (.text "")

/-- The texts of the reports that are errors. -/
def errorsAmong : List Value → Except Fault (List Value)
  | [] => .ok []
  | report :: rest => do
      let severity ← report.getD "severity" .null
      if severity.same (.text "error") then
        let first ← reportOf report
        return first :: (← errorsAmong rest)
      else
        errorsAmong rest

/-- The texts of the errors that an output reports. Warnings are not errors. -/
def diagnostics (output : Value) : Except Fault (List Value) := do
  errorsAmong (← (← output.getD "errors" (.list [])).items)

/-- The failure that reported errors are. -/
def failureOf (errors : List Value) : Failure :=
  match Value.textsFrom 0 errors with
  | .ok texts => .compilation texts
  | .error fault => .fault fault

/-- The output, unless it reports errors. -/
def accepted (output : Value) : Except Failure Value := do
  match ← orFail (diagnostics output) with
  | [] => return output
  | errors => throw (failureOf errors)

end ContractBench.Compiler
