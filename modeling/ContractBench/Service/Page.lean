import ContractBench.Json.Writer
import ContractBench.Service.Problem
import ContractBench.Limit.Limiter

/-! # Pages

What the service sends back: a status, headers and a JSON body.
-/

namespace ContractBench.Service

/-- An answer as it is sent. -/
structure Page where
  status : Nat
  body : String
  headers : List (String × String) := []
deriving Repr

namespace Page

/-- The key that stands for null and for numbers that are not finite. -/
def nullKey : String := "None"

mutual

/-- A key of a table as text: texts and bytes as they are, truth values as JSON writes them, and
tuples as their items with commas between them. A table or a list is no key. -/
def keyText : Value → Except Fault String
  | .null => .ok nullKey
  | .bool b => .ok (if b then "true" else "false")
  | .int n => Value.printInt n
  | .double bits =>
      match Binary64.quantity bits with
      | .dyadic _ _ => .ok (Binary64.print bits)
      | _ => .ok nullKey
  | .text s => .ok s
  | .brokenText _ => .error .brokenText
  | .bytes bs =>
      match Text.Utf8.text? bs with
      | some s => .ok s
      | none => .error (.notWritable .bytes)
  | .tuple xs => (keyTexts xs).map (Text.joined ",")
  | .record fields => (fieldKeyTexts fields).map (Text.joined ",")
  | .list _ => .error (.notWritable .list)
  | .table _ => .error (.notWritable .table)

def keyTexts : List Value → Except Fault (List String)
  | [] => .ok []
  | x :: xs => do
      let first ← keyText x
      return first :: (← keyTexts xs)

def fieldKeyTexts : List (String × Value) → Except Fault (List String)
  | [] => .ok []
  | (_, x) :: xs => do
      let first ← keyText x
      return first :: (← fieldKeyTexts xs)

end

mutual

/-- A value that can be sent as JSON: keys are texts, tuples are lists, bytes are texts, and
numbers that are not finite are null. A broken text cannot be sent. -/
def plain : Value → Except Fault Value
  | .brokenText _ => .error .brokenText
  | .double bits =>
      match Binary64.quantity bits with
      | .dyadic _ _ => .ok (.double bits)
      | _ => .ok .null
  | .bytes bs =>
      match Text.Utf8.text? bs with
      | some s => .ok (.text s)
      | none => .error (.notWritable .bytes)
  | .list xs => (plainItems xs).map .list
  | .tuple xs => (plainItems xs).map .list
  | .record fields => (plainFields fields).map .list
  | .table entries => (plainEntries entries).map fun es => .table (Ordered.ofEntries es)
  | v => .ok v

def plainItems : List Value → Except Fault (List Value)
  | [] => .ok []
  | x :: xs => do
      let first ← plain x
      return first :: (← plainItems xs)

def plainFields : List (String × Value) → Except Fault (List Value)
  | [] => .ok []
  | (_, x) :: xs => do
      let first ← plain x
      return first :: (← plainFields xs)

def plainEntries : List (Value × Value) → Except Fault (List (Value × Value))
  | [] => .ok []
  | (key, x) :: xs => do
      let name ← keyText key
      let first ← plain x
      return (.text name, first) :: (← plainEntries xs)

end

/-- A page with a body of fields. -/
def ofFields (status : Nat) (fields : List (String × Value)) : Except Fault Page := do
  return ⟨status, ← Json.write (← plain (Value.ofFields fields)), []⟩

/-- The page for a request that stops the service. -/
def stopped : Page where
  status := 500
  body := (Json.write (Value.ofFields (Problem.internal .null).toFields)).toOption.getD ""

/-- A page whose body tells a detail. -/
def ofDetail (status : Nat) (detail : Value) : Page :=
  (ofFields status [("detail", detail)]).toOption.getD stopped

def ofEnvelope (status : Nat) (e : Envelope) : Page :=
  (ofFields status e.toFields).toOption.getD stopped

def issueValue (issue : Request.Issue) : Value :=
  let place := issue.place.map fun step =>
    match step with
    | .name s => Value.text s
    | .position n => Value.int n
  Value.ofFields [("loc", .list place), ("type", .text issue.rule.code)]

section Repeating

/-- What the keys begin with whose entries are not repeated to clients. -/
def withheldLead : String := "_sa"

/-- Whether the entry of a key is not repeated to clients. -/
def isWithheld (key : Value) : Bool :=
  key.raw?.any (RawText.beginsWith withheldLead)

mutual

/-- Whether a value can be repeated to a client: its numbers are finite and no text in it is
broken. What is withheld does not count. -/
def isRepeatable : Value → Bool
  | .double bits =>
      match Binary64.quantity bits with
      | .dyadic _ _ => true
      | _ => false
  | .brokenText _ => false
  | .list xs => areRepeatable xs
  | .tuple xs => areRepeatable xs
  | .record fields => areFieldsRepeatable fields
  | .table entries => areEntriesRepeatable entries
  | _ => true

def areRepeatable : List Value → Bool
  | [] => true
  | x :: xs => isRepeatable x && areRepeatable xs

def areFieldsRepeatable : List (String × Value) → Bool
  | [] => true
  | (_, x) :: xs => isRepeatable x && areFieldsRepeatable xs

/-- Whether all entries of a table can be repeated, but for those that are withheld. -/
def areEntriesRepeatable : List (Value × Value) → Bool
  | [] => true
  | (key, x) :: xs =>
      (isWithheld key || (isRepeatable key && isRepeatable x)) && areEntriesRepeatable xs

end

end Repeating

/-- The page of a request with issues. It repeats the values that were found, and cannot be
written where one of them cannot be repeated. -/
def ofIssues (issues : List Request.Issue) : Page :=
  if issues.all fun issue => isRepeatable issue.found then
    ofDetail 422 (.list (issues.map issueValue))
  else
    stopped

def ofNotice (notice : Notice) : Page :=
  let page := ofEnvelope notice.status notice.body
  { page with headers := (notice.retryAfter.map fun s => ("retry-after", s)).toList }

def notFound : Page := ofDetail 404 (.text "Not Found")

/-- The page for a route that has another method. -/
def notAllowed (method : String) : Page :=
  { ofDetail 405 (.text "Method Not Allowed") with headers := [("allow", method)] }

/-- The page for a body that cannot be read for another reason than its form. -/
def unreadable : Page := ofDetail 400 (.text "There was an error parsing the body")

/-- The page for a body that has not the form of JSON. -/
def malformed : Page := ofIssues [⟨[.name "body"], .jsonInvalid, .table []⟩]

/-- A page with what the client is told of its limit. A page for what stops the service has no
headers. -/
def withAllowance (page : Page) (allowance : Option Limit.Allowance) : Page :=
  match allowance with
  | some a =>
      if page.status = 500 then page
      else
        { page with headers := page.headers ++
            [("x-ratelimit-remaining", Numeral.print a.remaining),
              ("x-ratelimit-limit", Numeral.print a.limit)] }
  | none => page

/-- A page without its body, as a request for the headers alone gets it. -/
def bare (page : Page) : Page := { page with body := "" }

end Page

end ContractBench.Service
