import ContractBench.Proofs.Limit.Windows
import Mathlib.Data.List.Induction

/-! # Recovery

The store may fail at any command. A counter recovers from that as long as it has a deadline, for
then it goes within a window. The one failure that leaves a counter without deadline is that of
setting it for a counter that is new, since no later request sets it. From there on the counter
stays, and clients are refused who have not come for any length of time.
-/

namespace ContractBench.Limit

/-- A counter, if there is one, has a deadline that is at most so many seconds off. -/
def Counters.Bounded (seconds : Int) (s : Counters) (key : String) : Prop :=
  ∀ c, s.live? key = some c → ∃ deadline, c.deadline = some deadline ∧ deadline ≤ s.now + seconds

namespace Limiter

variable (limiter : Limiter)

/-- A request starts a counter, and setting the deadline of the counter fails. -/
def Strands (s : Counters) (v : Visit) : Prop :=
  v.fails .increment = false ∧ v.fails .expire = true ∧
    (s.asOf v.time).live? (limiter.keyOf v) = none

/-- Some request has started the counter of a key without a deadline. -/
def Stranded (key : String) : Counters → List Visit → Prop
  | _, [] => False
  | s, v :: visits =>
      limiter.keyOf v = key ∧ limiter.Strands s v ∨
        Stranded key (limiter.answer s v).counters visits

variable {limiter} {key : String} {s : Counters} {v : Visit} {a : Admission} {visits : List Visit}

theorem stranded_snoc :
    limiter.Stranded key s (visits ++ [v]) ↔
      limiter.Stranded key s visits ∨
        limiter.keyOf v = key ∧ limiter.Strands (limiter.after s visits) v := by
  induction visits generalizing s with
  | nil => simp [Stranded, after]
  | cons w visits ih => rw [List.cons_append, Stranded, Stranded, after, ih, or_assoc]

/-- How the counter of a key stands after requests. -/
inductive Standing (limiter : Limiter) (key : String) (visits : List Visit) :
    Option Counter → Prop
  | absent (hnot : ¬limiter.Stranded key {} visits) : Standing limiter key visits none
  | bounded {v : Visit} {count : Int} (hnot : ¬limiter.Stranded key {} visits) (hv : v ∈ visits)
      (hkey : limiter.keyOf v = key) :
      Standing limiter key visits (some ⟨count, some (v.time + limiter.window)⟩)
  | stranded {count : Int} (h : limiter.Stranded key {} visits) :
      Standing limiter key visits (some ⟨count, none⟩)

theorem Standing.snoc {c? : Option Counter} (h : Standing limiter key visits c?)
    (hnot : ¬(limiter.keyOf v = key ∧ limiter.Strands (limiter.after {} visits) v)) :
    Standing limiter key (visits ++ [v]) c? := by
  have hsame : ¬limiter.Stranded key {} visits → ¬limiter.Stranded key {} (visits ++ [v]) := by
    intro hbefore hafter
    rcases stranded_snoc.mp hafter with hold | hnew
    · exact hbefore hold
    · exact hnot hnew
  cases h with
  | absent hbefore => exact .absent (hsame hbefore)
  | bounded hbefore hw hkey => exact .bounded (hsame hbefore) (List.mem_append_left _ hw) hkey
  | stranded hbefore => exact .stranded (stranded_snoc.mpr (Or.inl hbefore))

/-- One request keeps how the counter of a key stands. -/
theorem Standing.step (h : Standing limiter key visits ((limiter.after {} visits).counterAt key))
    (hturn : Turn limiter (limiter.after {} visits) v a) :
    Standing limiter key (visits ++ [v]) (a.counters.counterAt key) := by
  by_cases hkey : limiter.keyOf v = key
  · subst hkey
    cases hturn with
    | uncounted hcount =>
        refine h.snoc fun hstrands => ?_
        simp [hstrands.2.1] at hcount
    | @counted c commands hcount hlive =>
        have hnot : ¬(limiter.keyOf v = limiter.keyOf v ∧
            limiter.Strands (limiter.after {} visits) v) := by
          rintro ⟨-, -, -, hnone⟩
          cases hlive.symm.trans hnone
        have hcounter := (Counters.live?_eq_some_iff.mp hlive).1
        rw [Counters.counterAt_asOf] at hcounter
        rw [hcounter] at h
        rw [counters_decide, Counters.counterAt_set_self]
        have hbefore := h.snoc hnot
        cases hbefore with
        | bounded hafter hw hkey => exact .bounded hafter hw hkey
        | stranded hafter => exact .stranded hafter
    | stranding hcount hlive hexpire =>
        rw [Counters.counterAt_set_self]
        exact .stranded (stranded_snoc.mpr (Or.inr ⟨rfl, hcount, hexpire, hlive⟩))
    | opening hcount hlive hexpire =>
        rw [counters_decide, Counters.counterAt_set_self]
        refine .bounded (fun hafter => ?_) (List.mem_append_right _ (List.mem_singleton_self v)) rfl
        rcases stranded_snoc.mp hafter with hold | ⟨-, -, hfail, -⟩
        · -- A counter without deadline is there at all times, so that no window opens.
          generalize hcounter : (limiter.after {} visits).counterAt (limiter.keyOf v) = c? at h
          cases h with
          | absent hnot => exact hnot hold
          | bounded hnot => exact hnot hold
          | stranded => simp [Counters.live?, hcounter, Counters.isLive] at hlive
        · simp [hexpire] at hfail
  · have hne : key ≠ limiter.keyOf v := fun heq => hkey heq.symm
    rw [hturn.counterAt_of_ne hne]
    exact h.snoc fun hstrands => hkey hstrands.1

theorem after_snoc :
    limiter.after s (visits ++ [v]) = (limiter.answer (limiter.after s visits) v).counters :=
  after_append visits [v]

theorem standing_after (limiter : Limiter) (visits : List Visit) (key : String) :
    (limiter.after {} visits).Positive ∧
      Standing limiter key visits ((limiter.after {} visits).counterAt key) := by
  induction visits using List.reverseRecOn with
  | nil => exact ⟨nofun, .absent not_false⟩
  | append_singleton visits v ih =>
      have hturn : Turn limiter (limiter.after {} visits) v
          (limiter.answer (limiter.after {} visits) v) := turn_answer ih.1
      rw [after_snoc]
      exact ⟨hturn.positive ih.1, ih.2.step hturn⟩

section Moment

variable {time : Int}

/-- At any later moment the counter of a key has a deadline within a window, just where it has not
been left without. -/
theorem bounded_asOf_iff (htime : ∀ e ∈ visits, e.time ≤ time) :
    ((limiter.after {} visits).asOf time).Bounded limiter.window key ↔
      ¬limiter.Stranded key {} visits := by
  have hstanding := (standing_after limiter visits key).2
  generalize hcounter : (limiter.after {} visits).counterAt key = c? at hstanding
  constructor
  · intro hbounded hstranded
    cases hstanding with
    | absent hnot => exact hnot hstranded
    | bounded hnot => exact hnot hstranded
    | @stranded count =>
        have hlive : ((limiter.after {} visits).asOf time).live? key = some ⟨count, none⟩ :=
          Counters.live?_eq_some_iff.mpr ⟨hcounter, rfl⟩
        obtain ⟨deadline, hnone, -⟩ := hbounded _ hlive
        cases hnone
  · intro hnot c hlive
    have hfound := (Counters.live?_eq_some_iff.mp hlive).1
    rw [Counters.counterAt_asOf, hcounter] at hfound
    cases hstanding with
    | absent => cases hfound
    | @bounded e count _ he =>
        cases hfound
        have := htime e he
        exact ⟨_, rfl, by rw [Counters.now_asOf]; omega⟩
    | stranded h => exact absurd h hnot

theorem live?_eq_none_of_idle (hnot : ¬limiter.Stranded key {} visits)
    (hidle : ∀ e ∈ visits, limiter.keyOf e = key → e.time + limiter.window ≤ time) :
    ((limiter.after {} visits).asOf time).live? key = none := by
  have hstanding := (standing_after limiter visits key).2
  generalize hcounter : (limiter.after {} visits).counterAt key = c? at hstanding
  cases hstanding with
  | absent => simp [Counters.live?, hcounter]
  | bounded _ he hkey =>
      have := hidle _ he hkey
      simp [Counters.live?, hcounter, Counters.isLive, Int.not_lt.mpr this]
  | stranded h => exact absurd h hnot

end Moment

namespace Turn

variable {seconds : Int}

/-- A refused request names what is left of its window, or less than nothing where the counter has
no deadline. -/
theorem seconds_of_refused (h : Turn limiter s v a) (hwindow : 1 ≤ limiter.window)
    (hrefused : a.verdict = .refused seconds) :
    (∃ c, (s.asOf v.time).live? (limiter.keyOf v) = some c ∧
        seconds = c.deadline.elim (-1) (· - v.time)) ∨
      limiter.limit < 1 ∧ (s.asOf v.time).live? (limiter.keyOf v) = none ∧
        seconds = limiter.window := by
  cases h with
  | uncounted => cases hrefused
  | stranding => cases hrefused
  | @counted c commands _ hlive =>
      have hafter : ((s.asOf v.time).set (limiter.keyOf v) { c with count := c.count + 1 }).live?
          (limiter.keyOf v) = some { c with count := c.count + 1 } :=
        Counters.live?_set_self (Counters.live?_eq_some_iff.mp hlive).2
      rw [verdict_decide, verdict, Counters.secondsLeft_eq hafter] at hrefused
      split at hrefused
      next => exact Or.inl ⟨c, hlive, by simpa using hrefused.symm⟩
      next => cases hrefused
  | opening _ hnone =>
      have hlive :
          Counters.isLive (s.asOf v.time).now ⟨1, some (v.time + limiter.window)⟩ = true := by
        simp [Counters.isLive]
        omega
      rw [verdict_decide, verdict, Counters.secondsLeft_eq (Counters.live?_set_self hlive)]
        at hrefused
      split at hrefused
      next hmore =>
        refine Or.inr ⟨hmore.1, hnone, ?_⟩
        have hseconds := Verdict.refused.inj hrefused
        simp at hseconds
        omega
      next => cases hrefused

/-- Where no counter is, a request is the first of its window. -/
theorem admitted_of_none (h : Turn limiter s v a) (hlimit : 1 ≤ limiter.limit)
    (hnone : (s.asOf v.time).live? (limiter.keyOf v) = none) : a.verdict = .admitted := by
  cases h with
  | uncounted => rfl
  | counted _ hlive => cases hnone.symm.trans hlive
  | stranding => rfl
  | opening =>
      rw [verdict_decide, verdict, if_neg]
      omega

end Turn

/-- The seconds that a refused request is told are not negative, just where its counter has not
been left without a deadline. -/
theorem nonneg_iff_of_refused (hwindow : 1 ≤ limiter.window) {seconds : Int}
    (hrefused : (limiter.answer (limiter.after {} visits) v).verdict = .refused seconds) :
    0 ≤ seconds ↔ ¬limiter.Stranded (limiter.keyOf v) {} visits := by
  obtain ⟨hpositive, hstanding⟩ := standing_after limiter visits (limiter.keyOf v)
  have hturn : Turn limiter (limiter.after {} visits) v
    (limiter.answer (limiter.after {} visits) v) := turn_answer hpositive
  generalize hcounter : (limiter.after {} visits).counterAt (limiter.keyOf v) = c? at hstanding
  rcases hturn.seconds_of_refused hwindow hrefused with ⟨c, hlive, hseconds⟩ | ⟨-, hnone, hseconds⟩
  · obtain ⟨hfound, hdeadline⟩ := Counters.live?_eq_some_iff.mp hlive
    rw [Counters.counterAt_asOf, hcounter] at hfound
    subst hfound
    cases hstanding with
    | bounded hnot =>
        simp only [Counters.isLive, Counters.now_asOf, Option.all_some, decide_eq_true_eq]
          at hdeadline
        refine iff_of_true ?_ hnot
        rw [hseconds, Option.elim_some]
        omega
    | stranded h =>
        refine iff_of_false ?_ (not_not_intro h)
        rw [hseconds, Option.elim_none]
        decide
  · refine iff_of_true (by omega) fun h => ?_
    cases hstanding with
    | absent hnot => exact hnot h
    | bounded hnot => exact hnot h
    | stranded => simp [Counters.live?, hcounter, Counters.isLive] at hnone

/-- Whatever commands have failed, the counter of a key has a deadline within a window, and a
refused request is told no negative number of seconds, just where the counter has not been left
without a deadline when it was new. There a client is admitted who has not come for a window. -/
theorem recovers_iff_not_stranded (hwindow : 1 ≤ limiter.window)
    (htime : ∀ e ∈ visits, e.time ≤ v.time) :
    (∀ key, ((limiter.after {} visits).asOf v.time).Bounded limiter.window key ↔
        ¬limiter.Stranded key {} visits) ∧
      (∀ seconds, (limiter.answer (limiter.after {} visits) v).verdict = .refused seconds →
        (0 ≤ seconds ↔ ¬limiter.Stranded (limiter.keyOf v) {} visits)) ∧
      (¬limiter.Stranded (limiter.keyOf v) {} visits → 1 ≤ limiter.limit →
        (∀ e ∈ v :: visits, Plain e.client e.path) →
        (∀ e ∈ visits, e.client = v.client → e.path = v.path →
          e.time + limiter.window ≤ v.time) →
        (limiter.answer (limiter.after {} visits) v).verdict = .admitted) := by
  refine ⟨fun key => bounded_asOf_iff htime, fun seconds => nonneg_iff_of_refused hwindow, ?_⟩
  intro hnot hlimit hplain hidle
  obtain ⟨hv, hrest⟩ := List.forall_mem_cons.mp hplain
  have hnone : ((limiter.after {} visits).asOf v.time).live? (limiter.keyOf v) = none := by
    apply live?_eq_none_of_idle hnot
    intro e he hkey
    obtain ⟨hclient, hpath⟩ := key_inj (hrest e he) hv hkey
    exact hidle e he hclient hpath
  exact Turn.admitted_of_none (turn_answer (standing_after limiter visits "").1) hlimit hnone

section Stranding

/-- A limiter of one request a minute. -/
def oneAMinute : Limiter := ⟨1, 60, "rate_limit"⟩

/-- A request for which setting the deadline fails. -/
def undated : Visit where
  time := 0
  client := "10.0.0.1"
  path := "/compile"
  fails := (· == .expire)

/-- The same client, much later. -/
def returning : Visit := { undated with time := 1000, fails := fun _ => false }

/-- The store fails to count one request, counts the next one, and has lost that count when the
client comes back. -/
theorem recovers_iff_not_stranded_of_uncounted :
    let visits : List Visit := [{ undated with fails := (· == .increment) },
      { undated with time := 5, fails := (· == .secondsLeft) }]
    1 ≤ oneAMinute.window ∧ (∀ e ∈ visits, e.time ≤ returning.time) ∧
      ¬oneAMinute.Stranded (oneAMinute.keyOf returning) {} visits ∧
      ((oneAMinute.after {} visits).asOf returning.time).Bounded oneAMinute.window
        (oneAMinute.keyOf returning) ∧
      (oneAMinute.answer (oneAMinute.after {} visits) returning).verdict = .admitted := by
  intro visits
  have hwindow : 1 ≤ oneAMinute.window := by decide
  have htime : ∀ e ∈ visits, e.time ≤ returning.time := by
    simp [visits, undated, returning]
  have hnot : ¬oneAMinute.Stranded (oneAMinute.keyOf returning) {} visits := by
    simp [visits, Stranded, Strands, undated]
  obtain ⟨hbounded, -, hadmitted⟩ := recovers_iff_not_stranded hwindow htime
  refine ⟨hwindow, htime, hnot, (hbounded _).mpr hnot, hadmitted hnot (by decide) ?_ ?_⟩
  · simp [visits, undated, returning, Plain]
  · simp [visits, undated, returning, oneAMinute]

/-- A client is refused who has not come for a window, and is told a negative number of seconds:
its counter has no deadline. -/
theorem refused_of_undated :
    (∀ e ∈ [undated], e.time + oneAMinute.window ≤ returning.time) ∧
      (∀ e ∈ [returning, undated], Plain e.client e.path) ∧ returning.Works ∧
      ¬((oneAMinute.after {} [undated]).asOf returning.time).Bounded oneAMinute.window
        (oneAMinute.keyOf returning) ∧
      (oneAMinute.answer (oneAMinute.after {} [undated]) returning).verdict = .refused (-1) := by
  refine ⟨by decide, ?_, fun kind => rfl, ?_, by decide +kernel⟩
  · simp [undated, returning, Plain]
  · intro hbounded
    have hlive : ((oneAMinute.after {} [undated]).asOf returning.time).live?
        (oneAMinute.keyOf returning) = some ⟨1, none⟩ := by
      decide +kernel
    obtain ⟨deadline, hnone, -⟩ := hbounded _ hlive
    cases hnone

end Stranding

end Limiter

end ContractBench.Limit
