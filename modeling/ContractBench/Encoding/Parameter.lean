import ContractBench.Encoding.AbiType
import ContractBench.Fault

/-! # Parameters

Parameters as an interface declares them. A tuple type has components, which are parameters
themselves; elsewhere components are not looked at.
-/

namespace ContractBench.Encoding

/-- A declared parameter. -/
inductive Parameter where
  | mk (type : String) (name : Option Value) (components : List Parameter)

namespace Parameter

def type : Parameter → String
  | mk type _ _ => type

def name : Parameter → Option Value
  | mk _ name _ => name

def tupleWord : String := "tuple"

/-- Whether a type text is that of a tuple or of arrays of tuples. -/
def isTuple (type : String) : Bool := Text.beginsWith tupleWord type

/-- The text that a type has to be. No type has a half of a pair in it, nor its replacement. -/
def typeText (type : Value) : Except Fault String :=
  match type with
  | .text s => .ok s
  | .brokenText ps => .ok (RawText.ofNumbers ps).replaced
  | .bytes _ => .error (.notText .bytes)
  | v => .error (.noOperation v.kind "startswith")

mutual

/-- Reads a declaration. -/
def ofValue : Value → Except Fault Parameter
  | .table entries => do
      let type ← typeText (← (Value.table entries).need "type")
      let components ← if isTuple type then componentsIn entries else pure []
      return mk type (Ordered.get? entries (.text "name")) components
  | v => .error (match v.need "type" with
      | .error fault => fault
      | .ok _ => .missingKey "type")

/-- Reads the components among the entries of a declaration; there need not be any. -/
def componentsIn : List (Value × Value) → Except Fault (List Parameter)
  | [] => .ok []
  | (key, v) :: entries =>
      if key.same (.text "components") then ofSequence v else componentsIn entries

/-- Reads the declarations of a list. -/
def ofSequence : Value → Except Fault (List Parameter)
  | .list xs => ofItems xs
  | .tuple xs => ofItems xs
  | .record fields => ofFields fields
  | .table entries => ofKeys entries
  | .text s => if s = "" then .ok [] else .error (.notPosition .text .text)
  | .brokenText _ => .error (.notPosition .text .text)
  | .bytes bs => if bs = [] then .ok [] else .error (.notIndexable .int)
  | v => .error (.notIterable v.kind)

def ofItems : List Value → Except Fault (List Parameter)
  | [] => .ok []
  | x :: xs => do
      let first ← ofValue x
      return first :: (← ofItems xs)

def ofFields : List (String × Value) → Except Fault (List Parameter)
  | [] => .ok []
  | (_, x) :: xs => do
      let first ← ofValue x
      return first :: (← ofFields xs)

def ofKeys : List (Value × Value) → Except Fault (List Parameter)
  | [] => .ok []
  | (x, _) :: xs => do
      let first ← ofValue x
      return first :: (← ofKeys xs)

end

mutual

/-- The type text under which a parameter is encoded: a tuple is written with the types of its
components in parentheses, in place of the word. -/
def canonical : Parameter → String
  | mk type _ components =>
      if isTuple type then
        "(" ++ Text.joined "," (canonicals components) ++ ")" ++
          (Text.after? tupleWord type).getD ""
      else
        type

def canonicals : List Parameter → List String
  | [] => []
  | component :: components => canonical component :: canonicals components

end

end Parameter

end ContractBench.Encoding
