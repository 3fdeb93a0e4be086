import ContractBench.Failure
import ContractBench.Json.Reader

/-! # Responses

What a remote address answers, and the pages of the part of the web that an operation can see.
-/

namespace ContractBench

/-- An answer of a remote address. -/
structure Response where
  status : Int
  reason : String
  body : String
deriving Repr

namespace Response

/-- Statuses from 400 up to 599 report an error. -/
def isError (r : Response) : Bool := 400 ≤ r.status && r.status < 600

/-- The text of the error that a status reports. -/
def errorText (r : Response) (url : RawText) : RawText :=
  Numeral.print r.status ++ (if r.status < 500 then " Client Error: " else " Server Error: ") ++
    r.reason ++ " for url: " ++ url

/-- The value that the body writes, or the text of the error if it is not JSON. -/
def json (r : Response) : Except String Value :=
  (Json.read r.body).mapError fun e => e.message (Text.points r.body)

end Response

/-- An answer, or the failure of the call. -/
abbrev Reply := Except Failure Response

/-- The answers of the web by address. -/
structure Web where
  pages : List (RawText × Reply)

namespace Web

/-- The answer of an address without page. -/
def missing : Reply := .ok ⟨404, "", ""⟩

def reply (web : Web) (url : RawText) : Reply := (Ordered.get? web.pages url).getD missing

end Web

end ContractBench
