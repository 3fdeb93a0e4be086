import ContractBench.Fault

/-! # Order of names

Brings the entries of an interface into the order of their names. Names are texts as a rule, but
any values that can be compared with each other have an order. A name with a part that is no
number stands neither before nor behind others; where there is one, each entry is put at the place
that halving finds.
-/

namespace ContractBench.Abi

mutual

/-- Whether a value stands before another one. Numbers, texts, byte strings, lists and tuples
have an order among themselves, texts by their code points, lists and tuples by the first items
that differ. -/
def precedes : Value → Value → Except Fault Bool
  | .text a, b => match b with
      | .text b => .ok (a < b)
      | .brokenText b => .ok (Text.points a < b)
      | _ => .error (.notComparable .text b.kind)
  | .brokenText a, b => match b.points? with
      | some b => .ok (a < b)
      | none => .error (.notComparable .text b.kind)
  | .bytes a, b => match b with
      | .bytes b => .ok (a.map (·.toNat) < b.map (·.toNat))
      | _ => .error (.notComparable .bytes b.kind)
  | .list xs, b => match b with
      | .list ys => precedesItems xs ys
      | _ => .error (.notComparable .list b.kind)
  | .tuple xs, b => match b.tupleItems? with
      | some ys => precedesItems xs ys
      | none => .error (.notComparable .tuple b.kind)
  | .record fields, b => match b.tupleItems? with
      | some ys => precedesFields fields ys
      | none => .error (.notComparable .tuple b.kind)
  | a, b => match a.quantity?, b.quantity? with
      | some x, some y => .ok (x.less y)
      | _, _ => .error (.notComparable a.kind b.kind)

def precedesItems : List Value → List Value → Except Fault Bool
  | x :: xs, y :: ys => if x.agrees y then precedesItems xs ys else precedes x y
  | xs, ys => .ok (xs.length < ys.length)

def precedesFields : List (String × Value) → List Value → Except Fault Bool
  | (_, x) :: xs, y :: ys => if x.agrees y then precedesFields xs ys else precedes x y
  | xs, ys => .ok (xs.length < ys.length)

end

/-- The name of an entry; one without name has the empty one. -/
def nameOf (entry : Value) : Value := (entry.field? "name").getD (.text "")

/-- Whether an entry may stand in front of another one. -/
def mayPrecede (a b : Value) : Bool :=
  match precedes (nameOf b) (nameOf a) with
  | .ok later => !later
  | .error _ => true

/-- The first reason for which two of the entries cannot be put in order. -/
def disorder? : List Value → Option Fault
  | [] => none
  | entry :: rest =>
      (rest.findSome? fun other =>
        match precedes (nameOf other) (nameOf entry) with
        | .ok _ => none
        | .error fault => some fault) <|> disorder? rest

mutual

/-- Whether a value has a place in the order of its kind: no part of it is a double that is no
number. -/
def isOrdered : Value → Bool
  | .double bits => Binary64.quantity bits != .notANumber
  | .list xs => areOrdered xs
  | .tuple xs => areOrdered xs
  | .record fields => areFieldsOrdered fields
  | _ => true

def areOrdered : List Value → Bool
  | [] => true
  | x :: xs => isOrdered x && areOrdered xs

def areFieldsOrdered : List (String × Value) → Bool
  | [] => true
  | (_, x) :: xs => isOrdered x && areFieldsOrdered xs

end

section Placing

def nameBefore (a b : Value) : Except Fault Bool := precedes (nameOf a) (nameOf b)

/-- The entries behind the last one, as long as none stands before the one in front of it, and
what follows them. -/
def rising (last : Value) : List Value → Except Fault (List Value × List Value)
  | [] => .ok ([], [])
  | entry :: entries => do
      if ← nameBefore entry last then
        return ([], entry :: entries)
      else
        let (run, rest) ← rising entry entries
        return (entry :: run, rest)

/-- The entries behind the last one, as long as each stands before the one in front of it, turned
round onto the given ones, and what follows them. -/
def falling (turned : List Value) (last : Value) :
    List Value → Except Fault (List Value × List Value)
  | [] => .ok (turned, [])
  | entry :: entries => do
      if ← nameBefore entry last then falling (entry :: turned) entry entries
      else return (turned, entry :: entries)

/-- The entries at the front that are in order, or in the opposite order and then turned round,
and what follows them. -/
def firstRun : List Value → Except Fault (List Value × List Value)
  | first :: second :: entries => do
      -- Only a run that falls strictly is turned round, so entries of one name keep their order.
      if ← nameBefore second first then
        falling [second, first] second entries
      else
        let (run, rest) ← rising second entries
        return (first :: second :: run, rest)
  | entries => .ok (entries, [])

/-- The place for an entry between two places among others, found by halving. Every step makes
the distance of the places smaller, so it bounds the steps. -/
def placeFor (entry : Value) (others : List Value) : Nat → Nat → Nat → Except Fault Nat
  | 0, low, _ => .ok low
  | steps + 1, low, high =>
      if low < high then
        let middle := (low + high) / 2
        match others[middle]? with
        | none => .ok low
        | some other => do
            if ← nameBefore entry other then placeFor entry others steps low middle
            else placeFor entry others steps (middle + 1) high
      else
        .ok low

/-- Puts entries among others, one after the other. -/
def placeAll (others : List Value) : List Value → Except Fault (List Value)
  | [] => .ok others
  | entry :: entries => do
      let place ← placeFor entry others others.length 0 others.length
      placeAll (others.take place ++ entry :: others.drop place) entries

/-- The entries at the places that halving finds. -/
def placed (entries : List Value) : Except Fault (List Value) := do
  let (run, rest) ← firstRun entries
  placeAll run rest

end Placing

/-- The entries in the order of their names; entries of one name keep their order. -/
def byName (entries : List Value) : Except Fault (List Value) :=
  if entries.all fun entry => isOrdered (nameOf entry) then
    match disorder? entries with
    | some fault => .error fault
    | none => .ok (entries.mergeSort mayPrecede)
  else
    placed entries

end ContractBench.Abi
