import ContractBench.Json.Encoded
import ContractBench.Request.Field

/-! # Payloads

The bodies of requests. A body counts as data where its content type is a kind of JSON.
-/

namespace ContractBench.Service

/-- What the body of a request holds. -/
inductive Payload where
  | missing
  /-- The content type is none of JSON. -/
  | other (body : String)
  | data (v : Value)
deriving Repr

/-- Why a body is not read. -/
inductive PayloadError where
  /-- The body is not JSON. -/
  | malformed
  /-- The body cannot be decoded, or holds a number that is too long. -/
  | unreadable
deriving DecidableEq, Repr

namespace Payload

/-- Whether a content type is one of JSON. -/
def isJsonType (contentType : String) : Bool :=
  let name := Text.trim (contentType.toList.takeWhile (· != ';'))
  match Text.pieces '/' ((String.ofList name).map Char.toLower).toList with
  | [main, sub] =>
      main == "application".toList && (sub == "json".toList || "+json".toList.isSuffixOf sub)
  | _ => false

/-- The data that a JSON text writes, or the reason why there is none. -/
def ofRead : Except Json.ReadError Value → Except PayloadError Payload
  | .ok v => .ok (.data v)
  | .error (.malformed ..) => .error .malformed
  | .error _ => .error .unreadable

/-- Reads a body. Its content type tells whether it is JSON. -/
def read (contentType body : String) : Except PayloadError Payload :=
  if body = "" then .ok .missing
  else if isJsonType contentType then ofRead (Json.readBytes body.toUTF8.toList)
  else .ok (.other body)

def step : Request.Step := .name "body"

/-- Reads what a request asks from its body. -/
def fields {α : Type} (reader : Request.Reader α) (payload : Payload) : Request.Checked α :=
  Request.Checked.within step
    (match payload with
      | .missing => .broken .missing .null
      | .other body => .broken .objectType (.text body)
      | .data (.table entries) => reader (.table entries)
      | .data v => .broken .objectType v)

end Payload

end ContractBench.Service
