import ContractBench.Limit.Limiter

/-! # Traffic

Requests come to a limiter one after the other. Of each of them one of four things can be said: it
is not counted, it is counted in a window that is open, it opens a window, or it starts a counter
for which no deadline is set, since the store fails to set it. No request touches the counter of
another key.
-/

namespace ContractBench.Limit

/-- A request of a client to a path. -/
structure Visit where
  /-- The time in seconds. -/
  time : Int
  client : String
  path : String
  /-- The commands that fail for the request. -/
  fails : CommandKind → Bool := fun _ => false

namespace Counters

variable (s : Counters) {key other : String} {c d : Counter}

/-- The same counters at another time. -/
def asOf (time : Int) : Counters := s.wait (time - s.now)

@[simp] theorem now_asOf (time : Int) : (s.asOf time).now = time := by
  simp only [Counters.asOf, wait]
  omega

@[simp] theorem counterAt_asOf (time : Int) : (s.asOf time).counterAt = s.counterAt := rfl

@[simp] theorem now_set : (s.set key c).now = s.now := rfl

@[simp] theorem counterAt_set_self : (s.set key c).counterAt key = some c := if_pos rfl

theorem counterAt_set_of_ne (h : other ≠ key) :
    (s.set key c).counterAt other = s.counterAt other := if_neg h

theorem set_set : (s.set key c).set key d = s.set key d := by
  unfold set
  congr 1
  funext other
  by_cases h : other = key <;> simp [h]

variable {s}

theorem live?_eq_some_iff :
    s.live? key = some c ↔ s.counterAt key = some c ∧ isLive s.now c = true := by
  rw [live?, Option.filter_eq_some_iff]

theorem secondsLeft_eq (h : s.live? key = some c) :
    s.secondsLeft key = c.deadline.elim (-1) (· - s.now) := by
  unfold secondsLeft
  rw [h]
  dsimp only
  cases c.deadline <;> rfl

theorem live?_set_self (h : isLive s.now c = true) : (s.set key c).live? key = some c :=
  live?_eq_some_iff.mpr ⟨s.counterAt_set_self, h⟩

/-- Counting starts at one. -/
def Positive (s : Counters) : Prop := ∀ key c, s.counterAt key = some c → 1 ≤ c.count

theorem Positive.set (h : s.Positive) (hc : 1 ≤ c.count) : (s.set key c).Positive := by
  intro other d hd
  by_cases heq : other = key
  · subst heq
    rw [counterAt_set_self] at hd
    exact Option.some.inj hd ▸ hc
  · rw [counterAt_set_of_ne s heq] at hd
    exact h other d hd

end Counters

namespace Limiter

variable (limiter : Limiter)

def keyOf (v : Visit) : String := limiter.key v.client v.path

/-- Decides on a request at its time. -/
def answer (s : Counters) (v : Visit) : Admission :=
  limiter.consider v.fails (s.asOf v.time) v.client v.path

/-- Decides on requests one after the other. -/
def record : Counters → List Visit → List (Visit × Admission)
  | _, [] => []
  | s, v :: visits => (v, limiter.answer s v) :: record (limiter.answer s v).counters visits

/-- The counters after requests. -/
def after : Counters → List Visit → Counters
  | s, [] => s
  | s, v :: visits => after (limiter.answer s v).counters visits

variable (s : Counters) (v : Visit)

/-- What becomes of a request that has been counted. -/
def verdict (fails : CommandKind → Bool) (key : String) (count : Int) : Verdict :=
  if limiter.limit < count ∧ fails .secondsLeft = false then .refused (s.secondsLeft key)
  else .admitted

section Decide

variable (fails : CommandKind → Bool) (key : String) (count : Int) (commands : List Command)

@[simp] theorem counters_decide :
    (limiter.decide fails key count commands s).counters = s := by
  unfold decide
  dsimp only
  split
  · split <;> rfl
  · rfl

@[simp] theorem allowance_decide :
    (limiter.decide fails key count commands s).allowance = some (limiter.allowance count) := by
  unfold decide
  dsimp only
  split
  · split <;> rfl
  · rfl

@[simp] theorem verdict_decide :
    (limiter.decide fails key count commands s).verdict = limiter.verdict s fails key count := by
  unfold decide verdict
  dsimp only
  split
  next hmore => cases fails .secondsLeft <;> simp [hmore]
  next hmore => simp [hmore]

end Decide

/-- What one request can come to, by the counters at its time. -/
inductive Turn : Admission → Prop
  | uncounted {commands : List Command} (hcount : v.fails .increment = true) :
      Turn { verdict := .admitted, commands, counters := s.asOf v.time }
  | counted {c : Counter} {commands : List Command} (hcount : v.fails .increment = false)
      (hlive : (s.asOf v.time).live? (limiter.keyOf v) = some c) :
      Turn (limiter.decide v.fails (limiter.keyOf v) (c.count + 1) commands
        ((s.asOf v.time).set (limiter.keyOf v) { c with count := c.count + 1 }))
  | stranding {commands : List Command} (hcount : v.fails .increment = false)
      (hlive : (s.asOf v.time).live? (limiter.keyOf v) = none) (hexpire : v.fails .expire = true) :
      Turn { verdict := .admitted, commands
             counters := (s.asOf v.time).set (limiter.keyOf v) ⟨1, none⟩ }
  | opening {commands : List Command} (hcount : v.fails .increment = false)
      (hlive : (s.asOf v.time).live? (limiter.keyOf v) = none) (hexpire : v.fails .expire = false) :
      Turn (limiter.decide v.fails (limiter.keyOf v) 1 commands
        ((s.asOf v.time).set (limiter.keyOf v) ⟨1, some (v.time + limiter.window)⟩))

variable {limiter s v}

theorem expire_set_new {key : String} {seconds : Int} :
    (s.set key ⟨1, none⟩).expire key seconds = s.set key ⟨1, some (s.now + seconds)⟩ := by
  rw [Counters.expire, Counters.live?_set_self (c := ⟨1, none⟩) rfl]
  exact s.set_set

theorem turn_answer (hpositive : s.Positive) : Turn limiter s v (limiter.answer s v) := by
  unfold answer consider
  dsimp only
  split
  next hcount => exact .uncounted hcount
  next hcount =>
    have hcount : v.fails .increment = false := by simpa using hcount
    unfold Counters.increment
    cases hlive : (s.asOf v.time).live? (limiter.key v.client v.path) with
    | none =>
        dsimp only
        rw [if_pos rfl]
        split
        next hexpire => exact .stranding hcount hlive hexpire
        next hexpire =>
          rw [expire_set_new, Counters.now_asOf]
          exact .opening hcount hlive (by simpa using hexpire)
    | some c =>
        have hc : 1 ≤ c.count := hpositive _ c (Counters.live?_eq_some_iff.mp hlive).1
        dsimp only
        rw [if_neg (by omega)]
        exact .counted hcount hlive

namespace Turn

variable {a : Admission}

theorem positive (h : Turn limiter s v a) (hpositive : s.Positive) : a.counters.Positive := by
  have hnow : (s.asOf v.time).Positive := hpositive
  cases h with
  | uncounted => exact hnow
  | counted _ hlive =>
      have hc := hnow _ _ (Counters.live?_eq_some_iff.mp hlive).1
      rw [counters_decide]
      exact hnow.set (by dsimp only; omega)
  | stranding => exact hnow.set (Int.le_refl 1)
  | opening =>
      rw [counters_decide]
      exact hnow.set (Int.le_refl 1)

/-- The counters of other keys stay as they are. -/
theorem counterAt_of_ne (h : Turn limiter s v a) {key : String} (hkey : key ≠ limiter.keyOf v) :
    a.counters.counterAt key = s.counterAt key := by
  cases h <;> simp [Counters.counterAt_set_of_ne _ hkey]

end Turn

theorem after_append (earlier later : List Visit) :
    limiter.after s (earlier ++ later) = limiter.after (limiter.after s earlier) later := by
  induction earlier generalizing s with
  | nil => rfl
  | cons v earlier ih => exact ih

end Limiter

end ContractBench.Limit
