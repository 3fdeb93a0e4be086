import ContractBench.Abi.NameOrder

/-! # Categories of an interface

Separates the entries of a contract interface into functions that read, functions that write,
events, errors and the special entries, each list in the order of names.
-/

namespace ContractBench.Abi

/-- What a function may do with the state. Entries of old compilers tell it by the flags
`constant` and `payable`. -/
def mutability (entry : Value) : Except Fault Value := do
  let named ← entry.getD "stateMutability" .null
  if named.isTruthy then
    return named
  else if (← entry.getD "constant" .null).isTruthy then
    return .text "view"
  else if (← entry.getD "payable" .null).isTruthy then
    return .text "payable"
  else
    return .text "nonpayable"

/-- The mutabilities of functions that only read. -/
def readMutabilities : List String := ["view", "pure"]

def isRead (entry : Value) : Except Fault Bool := do
  return (← mutability entry).text?.any readMutabilities.contains

/-- The categories of the entries of an interface. -/
inductive Category where
  | read | write | event | error | constructor | fallback | receive
deriving DecidableEq, Repr

/-- The category of an entry. One without type is a function, and one of an unknown type has no
category. -/
def categoryOf (entry : Value) : Except Fault (Option Category) := do
  match (← entry.getD "type" (.text "function")).text? with
  | some "function" => return some (if ← isRead entry then .read else .write)
  | some "event" => return some .event
  | some "error" => return some .error
  | some "constructor" => return some .constructor
  | some "fallback" => return some .fallback
  | some "receive" => return some .receive
  | _ => return none

/-- An interface in categories. -/
structure Categorised where
  readFunctions : List Value
  writeFunctions : List Value
  events : List Value
  errors : List Value
  constructor : Option Value
  fallback : Option Value
  receive : Option Value

def withCategories : List Value → Except Fault (List (Option Category × Value))
  | [] => .ok []
  | entry :: entries => do
      let category ← categoryOf entry
      return (category, entry) :: (← withCategories entries)

/-- The entries of a category, in order. -/
def entriesOf (category : Category) (entries : List (Option Category × Value)) : List Value :=
  (entries.filter (·.1 == some category)).map Prod.snd

/-- Separates an interface; of a special entry that occurs more than once the last counts. -/
def categorise (abi : Value) : Except Fault Categorised := do
  let entries ← withCategories (← abi.items)
  return {
    readFunctions := ← byName (entriesOf .read entries)
    writeFunctions := ← byName (entriesOf .write entries)
    events := ← byName (entriesOf .event entries)
    errors := ← byName (entriesOf .error entries)
    constructor := (entriesOf .constructor entries).getLast?
    fallback := (entriesOf .fallback entries).getLast?
    receive := (entriesOf .receive entries).getLast? }

namespace Categorised

def toFields (c : Categorised) : List (String × Value) :=
  [("read_functions", .list c.readFunctions), ("write_functions", .list c.writeFunctions),
    ("events", .list c.events), ("errors", .list c.errors),
    ("constructor", c.constructor.getD .null), ("fallback", c.fallback.getD .null),
    ("receive", c.receive.getD .null)]

end Categorised

end ContractBench.Abi
