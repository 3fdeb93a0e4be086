/-! # Counters

A store of counters on a clock. A counter may have a deadline, and it is gone from the moment
that the deadline is reached.
-/

namespace ContractBench.Limit

/-- A counter and the time at which it goes. -/
structure Counter where
  count : Int
  deadline : Option Int := none
deriving DecidableEq, Repr

/-- A store of counters. -/
structure Counters where
  /-- The time in seconds. -/
  now : Int := 0
  /-- The counter of a key. -/
  counterAt : String → Option Counter := fun _ => none

namespace Counters

/-- A counter whose deadline has not been reached. -/
def isLive (now : Int) (counter : Counter) : Bool := counter.deadline.all (now < ·)

def live? (s : Counters) (key : String) : Option Counter :=
  (s.counterAt key).filter (isLive s.now)

def set (s : Counters) (key : String) (counter : Counter) : Counters :=
  { s with counterAt := fun other => if other = key then some counter else s.counterAt other }

def wait (s : Counters) (seconds : Int) : Counters := { s with now := s.now + seconds }

/-- Adds one to the counter under a key, which starts at one without a deadline; a deadline
stays as it is. -/
def increment (s : Counters) (key : String) : Int × Counters :=
  match s.live? key with
  | some counter => (counter.count + 1, s.set key { counter with count := counter.count + 1 })
  | none => (1, s.set key ⟨1, none⟩)

/-- Sets the deadline of the counter under a key to a number of seconds from now. -/
def expire (s : Counters) (key : String) (seconds : Int) : Counters :=
  match s.live? key with
  | some counter => s.set key { counter with deadline := some (s.now + seconds) }
  | none => s

/-- The seconds up to the deadline of the counter under a key: -1 where it has no deadline and
-2 where there is no counter. -/
def secondsLeft (s : Counters) (key : String) : Int :=
  match s.live? key with
  | none => -2
  | some counter =>
      match counter.deadline with
      | none => -1
      | some deadline => deadline - s.now

end Counters

end ContractBench.Limit
