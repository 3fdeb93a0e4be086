import ContractBench.Source.Scan
import ContractBench.Text.Blank
import ContractBench.Text.Pieces
import ContractBench.Text.Word

/-! # Directives

The three directives that the workbench knows in a contract source: imports, licence lines and
the compiler pragma. Each has a recogniser for one place of a text.
-/

namespace ContractBench.Source

open Text (isBlank isWord afterPrefix?)

/-- What follows at least one blank and all blanks after it. -/
def blanks? : List Char → Option (List Char)
  | c :: cs => if isBlank c then some (cs.dropWhile isBlank) else none
  | [] => none

/-- Both quotes open and close a path, and they need not agree. -/
def isQuote (c : Char) : Bool := c == '"' || c == '\''

/-- What follows an optional space and a semicolon. -/
def semicolon? (cs : List Char) : Option (List Char) :=
  match cs.dropWhile isBlank with
  | ';' :: rest => some rest
  | _ => none

/-- What follows the words `as Name`, in front of which blanks stand. -/
def alias? (cs : List Char) : Option (List Char) := do
  let afterBlanks ← blanks? cs
  let afterAs ← afterPrefix? ['a', 's'] afterBlanks
  let name ← blanks? afterAs
  match name.span isWord with
  | ([], _) => none
  | (_, rest) => some rest

/-- The end of an import: a path between quotes, an optional alias and a semicolon. -/
def target? : List Char → Option (String × List Char)
  | [] => none
  | q :: cs =>
      if isQuote q then
        match cs.span (fun c => !isQuote c) with
        | ([], _) => none
        | (_, []) => none
        | (path, _ :: rest) =>
            let plainEnd := semicolon? rest
            let aliasEnd := (alias? rest).bind semicolon?
            -- The longer end comes first; without a semicolon behind it the alias is none.
            (aliasEnd <|> plainEnd).map fun after => (String.ofList path, after)
      else
        none

/-- An import of names in braces, from the blanks behind the word `import` on. -/
def braced? (cs : List Char) : Option (String × List Char) := do
  let opened ← afterPrefix? ['\x7b'] (← blanks? cs)
  let closed ← afterPrefix? ['\x7d'] (opened.dropWhile (· != '\x7d'))
  let afterFrom ← afterPrefix? ['f', 'r', 'o', 'm'] (← blanks? closed)
  target? (← blanks? afterFrom)

/-- Whether a text between `import` and a path may stand there: blanks alone, or anything
between blanks that the word `from` and blanks follow. -/
def isClause (lead : List Char) : Bool :=
  -- The clause is read from its end: blanks, the word, and one more blank with something before.
  lead.all isBlank ||
    match blanks? lead.reverse with
    | none => false
    | some beforeBlanks =>
        match afterPrefix? ['m', 'o', 'r', 'f'] beforeBlanks with
        | some (last :: more) => isBlank last && !more.isEmpty
        | _ => false

/-- An import without braces, from the blanks behind the word `import` on. The clause in front of
the path holds neither quotes nor semicolons. -/
def unbraced? (cs : List Char) : Option (String × List Char) :=
  let (lead, rest) := cs.span (fun c => !isQuote c && c != ';')
  match lead with
  | [] => none
  | c :: _ => if isBlank c && isClause lead then target? rest else none

/-- Recognises an import; it says the path. The word `import` does not continue a word. -/
def importAt : Recogniser String := fun before cs =>
  if before.any isWord then
    none
  else do
    let rest ← afterPrefix? ['i', 'm', 'p', 'o', 'r', 't'] cs
    braced? rest <|> unbraced? rest

def isGap (c : Char) : Bool := c == ' ' || c == '\t'

def isLineEnd (c : Char) : Bool := c == '\r' || c == '\n'

/-- The mark in front of a licence name. -/
def licenceMark : List Char := "SPDX-License-Identifier:".toList

/-- The text up to the end of a block comment on the same line, and what follows the comment. -/
def blockEnd? : List Char → Option (List Char × List Char)
  | '*' :: '/' :: rest => some ([], rest)
  | c :: cs =>
      if isLineEnd c then none
      else (blockEnd? cs).map fun (text, rest) => (c :: text, rest)
  | [] => none

/-- Recognises a licence line: a line comment, which takes the rest of its line, or a block
comment on one line. It says the name of the licence. -/
def licenceAt : Recogniser (List Char) := fun _ cs =>
  match cs with
  | '/' :: '/' :: rest => do
      let line ← afterPrefix? licenceMark (rest.dropWhile isGap)
      match line.span (fun c => !isLineEnd c) with
      | ([], _) => none
      | (name, after) => some (Text.trim name, after)
  | '/' :: '*' :: rest => do
      let line ← afterPrefix? licenceMark (rest.dropWhile isGap)
      let (name, after) ← blockEnd? line
      return (Text.trim name, after)
  | _ => none

/-- Recognises a compiler pragma; its text is all there is to it. Between its words stand blanks,
and the version expression in front of the semicolon may be a blank itself. -/
def pragmaAt : Recogniser Unit := fun _ cs => do
  let afterPragma ← afterPrefix? ['p', 'r', 'a', 'g', 'm', 'a'] cs
  let rest ← afterPrefix? ['s', 'o', 'l', 'i', 'd', 'i', 't', 'y'] (← blanks? afterPragma)
  match rest.span (· != ';') with
  -- A blank and at least one more character stand in front of the semicolon.
  | (c :: _ :: _, _ :: after) => if isBlank c then some ((), after) else none
  | _ => none

/-- The paths that a source imports, in order. -/
def findImports (source : String) : List String := meanings importAt source.toList

/-- The licence of a source that names none. -/
def defaultLicence : String := "MIT"

/-- The pragma of a source that has none. -/
def defaultPragma : String := "pragma solidity ^0.8.0;"

/-- The licence that a source names first. -/
def licenceOf (source : String) : String :=
  match (meanings licenceAt source.toList).head? with
  | some name => String.ofList name
  | none => defaultLicence

/-- The first compiler pragma of a source. -/
def pragmaOf (source : String) : String :=
  match firstRaw? pragmaAt source.toList with
  | some raw => String.ofList raw
  | none => defaultPragma

/-- The characters of a source without licence lines, then without pragmas, then without
imports, and without blanks at its ends. -/
def cleanedChars (cs : List Char) : List Char :=
  Text.trim (without importAt (without pragmaAt (without licenceAt cs)))

/-- A source without its directives. -/
def cleaned (source : String) : String := String.ofList (cleanedChars source.toList)

end ContractBench.Source
