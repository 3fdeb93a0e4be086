import ContractBench.Abi.Categories

/-! # Signatures

The text that introduces a function: its name, its parameters and what it returns.
-/

namespace ContractBench.Abi

/-- A parameter in a signature: its type and, where it has one, its name. -/
def parameterText (parameter : Value) : Except Fault RawText := do
  let type ← (← parameter.need "type").shown
  let name ← (← parameter.getD "name" (.text "")).shown
  return (type ++ " " ++ name).trimmedEnd

def parameterTexts : List Value → Except Fault (List RawText)
  | [] => .ok []
  | parameter :: parameters => do
      let text ← parameterText parameter
      return text :: (← parameterTexts parameters)

/-- The types of the outputs. -/
def outputTypes : List Value → Except Fault (List Value)
  | [] => .ok []
  | output :: outputs => do
      let type ← output.need "type"
      return type :: (← outputTypes outputs)

/-- The part of a signature that tells what is returned; it is empty without outputs. -/
def returnsText (entry : Value) : Except Fault RawText := do
  let outputs ← entry.getD "outputs" .null
  if outputs.isTruthy then
    let types ← Value.textsFrom 0 (← outputTypes (← outputs.items))
    return " returns (" ++ .joined ", " types ++ ")"
  else
    return ""

def signature (entry : Value) : Except Fault RawText := do
  let parameters ← parameterTexts (← (← entry.getD "inputs" (.list [])).items)
  let returns ← returnsText entry
  let name ← (← entry.getD "name" (.text "")).shown
  return name ++ "(" ++ .joined ", " parameters ++ ")" ++ returns

/-- The signatures by name of the functions that have one, the last one of each name. -/
def signaturesFrom : List (Value × Value) → List Value → Except Fault (List (Value × Value))
  | table, [] => .ok table
  | table, entry :: entries => do
      let name ← entry.getD "name" .null
      if name.isTruthy then
        let text ← signature entry
        if name.isKey then
          signaturesFrom (Ordered.put name (.ofRaw text) table) entries
        else
          .error (.notHashable name.kind)
      else
        signaturesFrom table entries

/-- The signatures of the functions of an interface, by name. -/
def signatures (c : Categorised) : Except Fault (List (Value × Value)) :=
  signaturesFrom [] (c.readFunctions ++ c.writeFunctions)

end ContractBench.Abi
