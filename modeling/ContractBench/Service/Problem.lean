import ContractBench.Service.Envelope

/-! # Problems

What keeps the service from answering a request as asked, and how it is reported: the status,
the envelope, and the time after which a client may come again.
-/

namespace ContractBench.Service

/-- A problem with a request. -/
inductive Problem where
  /-- A failure stopped the work. -/
  | stopped (failure : Failure)
  /-- The value of a field cannot be used. A field that counts as absent is not named. -/
  | invalidField (message : RawText) (field : Value)
  /-- A client sends too many requests, and may come again after some seconds. -/
  | tooMany (seconds : Int)

/-- The ways to report a problem. -/
inductive Reporting where
  | field | limit | argument | reported | unhandled
deriving DecidableEq, Repr

/-- A reported problem. -/
structure Notice where
  reporting : Reporting
  status : Nat
  body : Envelope
  /-- The seconds after which a client may come again. -/
  retryAfter : Option String := none

namespace Problem

/-- The name of the field, null where it counts as absent. -/
def namedField (field : Value) : Value := if field.isTruthy then field else .null

/-- What clients read where they are limited. -/
def limitMessage (seconds : Int) : String :=
  "Muitas compilações. Tente novamente em " ++ Numeral.print seconds ++ " segundos"

/-- What a problem of a request itself tells: its message, with the field where one is named. -/
def detail : Problem → Value
  | .stopped failure => .ofRaw failure.message
  | .invalidField message field =>
      if field.isTruthy then Value.ofFields [("message", .ofRaw message), ("field", field)]
      else .ofRaw message
  | .tooMany seconds => .text (limitMessage seconds)

/-- The word for a failure that the workbench reports. -/
def failureName : Failure → String
  | .general _ => "SolForgeError"
  | .versionNotFound .. => "VersionNotFound"
  | .loading _ => "CompilerLoadError"
  | .fetching .. => "ImportFetchError"
  | .compilation _ => "CompilationError"
  | .noContract _ => "NoContractProduced"
  | .verification _ => "VerificationError"
  | .argument .general _ _ => "ArgumentError"
  | .argument .format _ _ => "ArgumentFormatError"
  | .argument .count _ _ => "ArgumentCountError"
  | .invalid _ | .unreadableType | .outage .. | .fault _ => ""

/-- What clients read where the service is stopped. -/
def internal (detail : Value) : Envelope := .failed "Erro interno do servidor" [("detail", detail)]

/-- The report of a failure that stops the service. Its text is shown where faults are sought
only. -/
def unhandled (debug : Bool) (failure : Failure) : Notice where
  reporting := .unhandled
  status := 500
  body := internal (if debug then .ofRaw failure.message else .null)

/-- The report of a failure. -/
def noticeOfFailure (debug : Bool) (failure : Failure) : Notice :=
  match failure with
  | .argument _ message field =>
      { reporting := .argument
        status := 422
        body := .failed message
          [("field", field.getD .null), ("type", .text (failureName failure))] }
  | _ =>
      if failure.isReported then
        { reporting := .reported
          status := 400
          body := .failed failure.message [("type", .text (failureName failure))] }
      else
        unhandled debug failure

def notice (debug : Bool) : Problem → Notice
  | .stopped failure => noticeOfFailure debug failure
  | .invalidField message field =>
      { reporting := .field
        status := 422
        body := .failed message [("field", namedField field)] }
  | .tooMany seconds =>
      let after := Numeral.print seconds
      { reporting := .limit
        status := 429
        body := .failed (limitMessage seconds) [("retry_after", .text after)]
        retryAfter := some after }

end Problem

end ContractBench.Service
