import ContractBench.Fault
import ContractBench.Json.Defect

/-! # Reading JSON

A reader of JSON texts over their code points. Beside the standard it accepts the words `NaN`,
`Infinity` and `-Infinity`. Whole numbers keep their exact value, other numbers become the
nearest double, and of entries with one key the last value counts, at the place of the first.
Escapes can write halves of surrogate pairs, and a text that is broken holds some as they are; a
string in which one is left alone is broken. Two halves form a pair if both are escapes.
-/

namespace ContractBench.Json

section Signs

/-- The sign `"` around strings. -/
@[match_pattern] def quote : Nat := 0x22

/-- The sign in front of an exponent that is not negative. -/
@[match_pattern] def plus : Nat := 0x2B

@[match_pattern] def comma : Nat := 0x2C

/-- The sign in front of negative numbers. -/
@[match_pattern] def minus : Nat := 0x2D

@[match_pattern] def point : Nat := 0x2E

@[match_pattern] def zero : Nat := 0x30

@[match_pattern] def colon : Nat := 0x3A

@[match_pattern] def listStart : Nat := 0x5B

@[match_pattern] def backslash : Nat := 0x5C

@[match_pattern] def listEnd : Nat := 0x5D

/-- The letter in front of a code unit. -/
@[match_pattern] def unitMark : Nat := 0x75

@[match_pattern] def tableStart : Nat := 0x7B

@[match_pattern] def tableEnd : Nat := 0x7D

end Signs

/-- Space between the parts of a JSON text. -/
def isSpace (n : Nat) : Bool := n == 0x20 || n == 0x9 || n == 0xA || n == 0xD

/-- What follows the space at the front. -/
def skipSpace (ns : List Nat) : List Nat := ns.dropWhile isSpace

section Strings

def hexPoint? (n : Nat) : Option Nat := if n < 0x80 then Text.hexValue? (Char.ofNat n) else none

/-- The code unit that four hexadecimal digits write, and what follows them. Something has to
follow them, since they stand in a string. -/
def codeUnit? : List Nat → Option (Nat × List Nat)
  | a :: b :: c :: d :: n :: rest =>
      match hexPoint? a, hexPoint? b, hexPoint? c, hexPoint? d with
      | some a, some b, some c, some d => some (((a * 16 + b) * 16 + c) * 16 + d, n :: rest)
      | _, _, _, _ => none
  | _ => none

/-- The code point of a code unit, joined with a second one that follows it where the two form a
pair, and what comes after. -/
def unitPoint (unit : Nat) (rest : List Nat) : Nat × List Nat :=
  if Text.isFirstHalf unit then
    match rest with
    | backslash :: unitMark :: more =>
        match codeUnit? more with
        | some (second, after) =>
            if Text.isSecondHalf second then (Text.joinedHalves unit second, after)
            else (unit, rest)
        | none => (unit, rest)
    | _ => (unit, rest)
  else
    (unit, rest)

/-- The code points that letters after a backslash stand for. -/
def escapes : List (Char × Char) :=
  [('"', '"'), ('\\', '\\'), ('/', '/'), ('b', '\x08'), ('f', '\x0c'), ('n', '\n'), ('r', '\r'),
    ('t', '\t')]

/-- The code point that a letter after a backslash stands for. -/
def escaped? (n : Nat) : Option Nat :=
  (escapes.find? fun e => e.1.toNat == n).map fun e => e.2.toNat

/-- Reads an escape, from its backslash on; the first argument is the text from the opening quote
on. -/
def readEscape (opened escape : List Nat) : Except ReadError (Nat × List Nat) :=
  match escape.tail with
  | [] => .error (.malformed .openString opened)
  | unitMark :: more =>
      match codeUnit? more with
      | some (unit, after) => .ok (unitPoint unit after)
      | none => .error (.malformed .badUnit escape.tail)
  | letter :: more =>
      match escaped? letter with
      | some n => .ok (n, more)
      | none => .error (.malformed .badEscape escape)

/-- Reads the code points of a string up to its closing quote. The first argument is the text
from the opening quote on. -/
def readString (opened : List Nat) : Nat → List Nat → Except ReadError (List Nat × List Nat)
  | 0, _ => .error (.malformed .openString opened)
  | _ + 1, [] => .error (.malformed .openString opened)
  | fuel + 1, n :: rest =>
      if n = quote then
        .ok ([], rest)
      else if n = backslash then do
        let (first, after) ← readEscape opened (n :: rest)
        let (ns, after) ← readString opened fuel after
        return (first :: ns, after)
      -- Control characters stand in strings as escapes only.
      else if n < 0x20 then
        .error (.malformed .controlCharacter (n :: rest))
      else do
        let (ns, after) ← readString opened fuel rest
        return (n :: ns, after)

end Strings

section Numbers

def isDigit (n : Nat) : Bool := zero ≤ n && n < zero + 10

def digitsValue (ds : List Nat) : Nat := ds.foldl (fun n d => n * 10 + (d - zero)) 0

/-- The digits of a fraction, if a point and at least one digit stand at the front. -/
def fraction? : List Nat → Option (List Nat × List Nat)
  | point :: rest =>
      match rest.span isDigit with
      | ([], _) => none
      | (ds, after) => some (ds, after)
  | _ => none

/-- Splits off the sign of an exponent; the first part tells whether it is a minus. -/
def exponentSign : List Nat → Bool × List Nat
  | minus :: ns => (true, ns)
  | plus :: ns => (false, ns)
  | ns => (false, ns)

/-- The power of ten at the front, if an exponent stands there. -/
def exponent? : List Nat → Option (Int × List Nat)
  | e :: rest =>
      if e = 'e'.toNat ∨ e = 'E'.toNat then
        let (negative, body) := exponentSign rest
        match body.span isDigit with
        | ([], _) => none
        | (ds, after) => some (Numeral.withSign negative (digitsValue ds), after)
      else
        none
  | [] => none

/-- Reads the digits of a number in front of point and exponent: a zero, or digits without a
zero at the front. -/
def wholeDigits? : List Nat → Option (List Nat × List Nat)
  | zero :: rest => some ([zero], rest)
  | ns =>
      match ns.span isDigit with
      | ([], _) => none
      | (ds, after) => some (ds, after)

/-- Reads a number without its minus sign. The first argument is the text from its minus sign on,
where it has one. -/
def readNumber (start : List Nat) (negative : Bool) (ns : List Nat) :
    Except ReadError (Value × List Nat) :=
  match wholeDigits? ns with
  | none => .error (.malformed .noValue start)
  | some (whole, afterWhole) =>
      let fraction := fraction? afterWhole
      let afterFraction := (fraction.map Prod.snd).getD afterWhole
      let exponent := exponent? afterFraction
      match fraction, exponent with
      -- Without fraction and exponent it is a whole number, and its length is limited.
      | none, none =>
          if Numeral.longest < whole.length then
            .error (.numeralTooLong whole.length)
          else
            .ok (.int (Numeral.withSign negative (digitsValue whole)), afterWhole)
      | _, _ =>
          let places := (fraction.map Prod.fst).getD []
          let power := (exponent.map Prod.fst).getD 0
          let bits :=
            Binary64.ofDecimal negative (digitsValue (whole ++ places)) (power - places.length)
          .ok (.double bits, (exponent.map Prod.snd).getD afterFraction)

/-- A double without sign bit but the given one, that stands for an infinity. -/
def infinity (negative : Bool) : Value :=
  .double (Binary64.withSign negative Binary64.infinityBits)

end Numbers

/-- The words that stand for a value. -/
def words : List (String × Value) :=
  [("null", .null), ("true", .bool true), ("false", .bool false),
    ("NaN", .double Binary64.notANumber), ("Infinity", infinity false),
    ("-Infinity", infinity true)]

/-- The value of the word at the front, if there is one, and what follows it. -/
def word? (ns : List Nat) : Option (Value × List Nat) :=
  words.findSome? fun (word, v) =>
    (Text.afterPrefix? (Text.points word) ns).map fun rest => (v, rest)

/-- Reads a value that is neither a string nor a list nor a table: a word or a number. -/
def readPlain (ns : List Nat) : Except ReadError (Value × List Nat) :=
  match word? ns with
  | some found => .ok found
  | none =>
      match ns with
      | minus :: rest => readNumber ns true rest
      | _ => readNumber ns false ns

mutual

/-- Reads a value at the front of a text. -/
def readValue : Nat → List Nat → Except ReadError (Value × List Nat)
  | 0, ns => .error (.malformed .noValue ns)
  | fuel + 1, ns =>
      match ns with
      | quote :: rest => do
          let (points, after) ← readString ns fuel rest
          return (.ofPoints points, after)
      | listStart :: rest =>
          match skipSpace rest with
          | listEnd :: after => .ok (.list [], after)
          | body => do
              let (xs, after) ← readItems fuel body
              return (.list xs, after)
      | tableStart :: rest =>
          match skipSpace rest with
          | tableEnd :: after => .ok (.table [], after)
          | body => do
              let (entries, after) ← readEntries fuel body
              -- Of entries with one key the last one counts.
              return (.table (Ordered.ofEntries entries), after)
      | _ => readPlain ns

/-- Reads the items of a list that has some, up to its closing bracket. -/
def readItems : Nat → List Nat → Except ReadError (List Value × List Nat)
  | 0, ns => .error (.malformed .noValue ns)
  | fuel + 1, ns => do
      let (x, after) ← readValue fuel ns
      match skipSpace after with
      | comma :: more =>
          let (xs, after) ← readItems fuel (skipSpace more)
          return (x :: xs, after)
      | listEnd :: more => return ([x], more)
      | rest => .error (.malformed .noComma rest)

/-- Reads the entries of a table that has some, up to its closing brace. -/
def readEntries : Nat → List Nat → Except ReadError (List (Value × Value) × List Nat)
  | 0, ns => .error (.malformed .noName ns)
  | fuel + 1, ns =>
      match ns with
      | quote :: body => do
          let (key, after) ← readString ns fuel body
          match skipSpace after with
          | colon :: more =>
              let (x, after) ← readValue fuel (skipSpace more)
              let entry := (Value.ofPoints key, x)
              match skipSpace after with
              | comma :: more =>
                  let (entries, after) ← readEntries fuel (skipSpace more)
                  return (entry :: entries, after)
              | tableEnd :: more => return ([entry], more)
              | rest => .error (.malformed .noComma rest)
          | rest => .error (.malformed .noColon rest)
      | _ => .error (.malformed .noName ns)

end

/-- Reads a whole text by its code points. Every step takes a code point, so the length bounds the
steps. -/
def readAll (ns : List Nat) : Except ReadError Value := do
  let (v, after) ← readValue (2 * ns.length + 2) (skipSpace ns)
  match skipSpace after with
  | [] => return v
  | rest => .error (.malformed .moreText rest)

/-- The code point of the mark that may stand in front of a text to tell its encoding. -/
def orderMark : Nat := 0xFEFF

/-- The value that a JSON text writes. The mark of an encoding may not stand in front of it. -/
def readPoints (ns : List Nat) : Except ReadError Value :=
  if ns.head? = some orderMark then .error (.malformed .orderMark ns) else readAll ns

/-- The value that a JSON text writes. -/
def read (text : String) : Except ReadError Value := readPoints (Text.points text)

def read? (text : String) : Option Value := (read text).toOption

end ContractBench.Json
