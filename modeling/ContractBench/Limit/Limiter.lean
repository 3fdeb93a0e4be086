import ContractBench.Failure
import ContractBench.Limit.Counters

/-! # The limiter

Admits a number of requests of a client to a path within a window of time. It counts in a store
of counters, whose commands may fail; a request is admitted where the count cannot be had.
-/

namespace ContractBench.Limit

/-- A limiter: how many requests it admits, in how many seconds, and what its keys begin with. -/
structure Limiter where
  limit : Int
  window : Int
  scope : String
deriving DecidableEq, Repr

/-- A command to the store of counters. -/
inductive Command where
  | increment (key : String)
  | expire (key : String) (seconds : Int)
  | secondsLeft (key : String)
deriving DecidableEq, Repr

/-- The kinds of commands. -/
inductive CommandKind where
  | increment | expire | secondsLeft
deriving DecidableEq, Repr

/-- What a client is told of its limit. -/
structure Allowance where
  remaining : Int
  limit : Int
deriving DecidableEq, Repr

/-- Whether a request is admitted. -/
inductive Verdict where
  | admitted
  /-- The client may come again after so many seconds. -/
  | refused (seconds : Int)
deriving DecidableEq, Repr

/-- What becomes of a request, and the commands that were given for it, failing ones included. -/
structure Admission where
  verdict : Verdict
  allowance : Option Allowance := none
  commands : List Command := []
  counters : Counters

namespace Limiter

def key (limiter : Limiter) (client path : String) : String :=
  limiter.scope ++ ":" ++ client ++ ":" ++ path

/-- What a client is told after so many requests. -/
def allowance (limiter : Limiter) (count : Int) : Allowance :=
  ⟨max 0 (limiter.limit - count), limiter.limit⟩

/-- Decides on a request that has been counted. -/
def decide (limiter : Limiter) (fails : CommandKind → Bool) (key : String) (count : Int)
    (commands : List Command) (counters : Counters) : Admission :=
  let allowance := some (limiter.allowance count)
  if limiter.limit < count then
    let commands := commands ++ [.secondsLeft key]
    -- A store that fails admits the request, here as everywhere.
    if fails .secondsLeft then { verdict := .admitted, allowance, commands, counters }
    else { verdict := .refused (counters.secondsLeft key), allowance, commands, counters }
  else
    { verdict := .admitted, allowance, commands, counters }

/-- Decides on a request of a client to a path, where commands of some kinds fail. The first
request of a window sets the deadline of its counter. -/
def consider (limiter : Limiter) (fails : CommandKind → Bool) (counters : Counters)
    (client path : String) : Admission :=
  let key := limiter.key client path
  if fails .increment then
    { verdict := .admitted, commands := [.increment key], counters }
  else
    let (count, counters) := counters.increment key
    if count = 1 then
      let commands := [.increment key, .expire key limiter.window]
      if fails .expire then { verdict := .admitted, commands, counters }
      else limiter.decide fails key count commands (counters.expire key limiter.window)
    else
      limiter.decide fails key count [.increment key] counters

/-- Decides on a request whose client may be unknown, which is a fault. -/
def considerClient (limiter : Limiter) (fails : CommandKind → Bool) (counters : Counters)
    (client : Option String) (path : String) : Except Fault Admission :=
  match client with
  | some client => .ok (limiter.consider fails counters client path)
  | none => .error (.noOperation .null "host")

end Limiter

end ContractBench.Limit
