import ContractBench.Proofs.Limit.Traffic
import Mathlib.Data.List.Basic

/-! # Windows

While the store works, the requests of a client to a path fall into windows. A window opens with the
first request that is in no other, and it is over when its time has passed, whatever is asked in it.
What becomes of a request depends on its place in its window and on nothing else.
-/

namespace ContractBench.Limit

/-- The times of requests, window by window. -/
def windows (length : Int) : List Int → List (List Int)
  | [] => []
  | opened :: times =>
      (opened :: times.takeWhile (· < opened + length)) ::
        windows length (times.dropWhile (· < opened + length))
termination_by times => times.length
decreasing_by
  rw [List.length_cons]
  exact Nat.lt_succ_of_le (List.dropWhile_suffix _).length_le

/-- Clients are named without a slash, and paths begin with one. -/
def Plain (client path : String) : Prop :=
  '/' ∉ client.toList ∧ path.toList.head? = some '/'

/-- The store works for a request. -/
def Visit.Works (v : Visit) : Prop := ∀ kind, v.fails kind = false

/-- The times of the requests with a property. -/
def timesOf (p : Visit → Bool) (visits : List Visit) : List Int := (visits.filter p).map (·.time)

namespace Limiter

variable {limiter : Limiter}

theorem key_inj {client client' path path' : String} (h : Plain client path)
    (h' : Plain client' path') (hkey : limiter.key client path = limiter.key client' path') :
    client = client' ∧ path = path' := by
  obtain ⟨hclient, hpath⟩ := h
  obtain ⟨hclient', hpath'⟩ := h'
  obtain ⟨rest, hrest⟩ := List.head?_eq_some_iff.mp hpath
  obtain ⟨rest', hrest'⟩ := List.head?_eq_some_iff.mp hpath'
  -- The slash that begins the path is the first one behind the scope.
  have hfront : ∀ cs more : List Char, '/' ∉ cs →
      ((cs ++ [':']) ++ '/' :: more).takeWhile (· != '/') = cs ++ [':'] := by
    intro cs more hcs
    rw [List.takeWhile_append_of_pos, List.takeWhile_cons_of_neg (by simp), List.append_nil]
    intro c hc
    rcases List.mem_append.mp hc with hmem | hmem
    · exact bne_iff_ne.mpr fun heq => hcs (heq ▸ hmem)
    · rw [List.mem_singleton.mp hmem]
      decide
  have hlists : (client.toList ++ [':']) ++ '/' :: rest =
      (client'.toList ++ [':']) ++ '/' :: rest' := by
    have hkeys := congrArg String.toList hkey
    simpa [key, hrest, hrest'] using hkeys
  have hclients : client.toList ++ [':'] = client'.toList ++ [':'] := by
    rw [← hfront _ rest hclient, hlists, hfront _ rest' hclient']
  have heq : client = client' := String.toList_inj.mp (List.append_cancel_right hclients)
  subst heq
  refine ⟨rfl, String.toList_inj.mp ?_⟩
  rw [hrest, hrest', List.append_cancel_left hlists]

variable (limiter)

/-- What the request is told that has a rank in the window opened at a time. -/
def outcome (opened rank time : Int) : Verdict × Option Allowance :=
  (if rank ≤ limiter.limit then .admitted else .refused (opened + limiter.window - time),
    some ⟨max 0 (limiter.limit - rank), limiter.limit⟩)

/-- What requests are told that take one place after the other in a window. -/
def outcomesFrom (opened : Int) : Int → List Int → List (Verdict × Option Allowance)
  | _, [] => []
  | rank, time :: times => limiter.outcome opened rank time :: outcomesFrom opened (rank + 1) times

/-- What the requests of a window are told. -/
def outcomes : List Int → List (Verdict × Option Allowance)
  | [] => []
  | opened :: times => limiter.outcomesFrom opened 1 (opened :: times)

/-- What the requests with a property are told. -/
def told (p : Visit → Bool) (record : List (Visit × Admission)) :
    List (Verdict × Option Allowance) :=
  (record.filter fun entry => p entry.1).map fun entry => (entry.2.verdict, entry.2.allowance)

variable {limiter} {s : Counters} {v : Visit} {a : Admission}

namespace Turn

theorem of_live (h : Turn limiter s v a) (hworks : v.Works) {count deadline : Int}
    (hcounter : s.counterAt (limiter.keyOf v) = some ⟨count, some deadline⟩)
    (htime : v.time < deadline) :
    (a.verdict, a.allowance) = limiter.outcome (deadline - limiter.window) (count + 1) v.time ∧
      a.counters.counterAt (limiter.keyOf v) = some ⟨count + 1, some deadline⟩ := by
  have hlive : (s.asOf v.time).live? (limiter.keyOf v) = some ⟨count, some deadline⟩ := by
    refine Counters.live?_eq_some_iff.mpr ⟨hcounter, ?_⟩
    simpa [Counters.isLive] using htime
  cases h with
  | uncounted hcount => simp [hworks .increment] at hcount
  | stranding _ hnone => cases hlive.symm.trans hnone
  | opening _ hnone => cases hlive.symm.trans hnone
  | counted _ hfound =>
      cases hlive.symm.trans hfound
      have hafter : (((s.asOf v.time).set (limiter.keyOf v) ⟨count + 1, some deadline⟩).live?
          (limiter.keyOf v)) = some ⟨count + 1, some deadline⟩ :=
        Counters.live?_set_self (by simpa [Counters.isLive] using htime)
      refine ⟨?_, by simp⟩
      rw [verdict_decide, allowance_decide, verdict, Counters.secondsLeft_eq hafter, outcome]
      by_cases hmore : limiter.limit < count + 1
      · simp [hmore, hworks .secondsLeft, allowance, Int.not_le.mpr hmore]
      · simp [hmore, allowance, Int.not_lt.mp hmore]

theorem of_over (h : Turn limiter s v a) (hlimit : 1 ≤ limiter.limit) (hworks : v.Works)
    (hlive : (s.asOf v.time).live? (limiter.keyOf v) = none) :
    (a.verdict, a.allowance) = limiter.outcome v.time 1 v.time ∧
      a.counters.counterAt (limiter.keyOf v) = some ⟨1, some (v.time + limiter.window)⟩ := by
  cases h with
  | uncounted hcount => simp [hworks .increment] at hcount
  | counted _ hfound => cases hlive.symm.trans hfound
  | stranding _ _ hexpire => simp [hworks .expire] at hexpire
  | opening =>
      refine ⟨?_, by simp⟩
      have hone : ¬limiter.limit < 1 := by omega
      simp [verdict, outcome, allowance, hlimit, hone]

end Turn

section Run

variable (limiter) in
/-- Whether a request is counted under a key. -/
def under (key : String) (v : Visit) : Bool := limiter.keyOf v = key

variable {key : String}

/-- A request that is counted under another key leaves the counter as it is. -/
theorem Turn.counterAt_of_not_under (h : Turn limiter s v a) (hkey : ¬limiter.under key v = true) :
    a.counters.counterAt key = s.counterAt key := by
  refine h.counterAt_of_ne ?_
  rintro rfl
  simp [under] at hkey

theorem told_record_cons (p : Visit → Bool) (visits : List Visit) :
    told p (limiter.record s (v :: visits)) =
      if p v then ((limiter.answer s v).verdict, (limiter.answer s v).allowance) ::
        told p (limiter.record (limiter.answer s v).counters visits)
      else told p (limiter.record (limiter.answer s v).counters visits) := by
  rw [record, told, List.filter_cons]
  split <;> rfl

theorem map_fst_record (limiter : Limiter) (s : Counters) (visits : List Visit) :
    (limiter.record s visits).map Prod.fst = visits := by
  induction visits generalizing s with
  | nil => rfl
  | cons v visits ih => rw [record, List.map_cons, ih]

theorem timesOf_cons (p : Visit → Bool) (visits : List Visit) :
    timesOf p (v :: visits) = if p v then v.time :: timesOf p visits else timesOf p visits := by
  rw [timesOf, List.filter_cons]
  split <;> rfl

/-- Where the window before is over, the first request opens one, and others follow it. -/
theorem flatMap_windows_cons (time : Int) (times : List Int) :
    (windows limiter.window (time :: times)).flatMap limiter.outcomes =
      limiter.outcome time 1 time ::
        (limiter.outcomesFrom time 2 (times.takeWhile (· < time + limiter.window)) ++
          (windows limiter.window (times.dropWhile (· < time + limiter.window))).flatMap
            limiter.outcomes) := by
  rw [windows, List.flatMap_cons, outcomes, outcomesFrom, List.cons_append]
  rfl

/-- In an open window the requests take one place after the other, and windows follow. -/
theorem told_record_of_open (hlimit : 1 ≤ limiter.limit) {visits : List Visit}
    (hworks : ∀ v ∈ visits, v.Works) (hpositive : s.Positive) {opened count : Int}
    (hcounter : s.counterAt key = some ⟨count, some (opened + limiter.window)⟩) :
    told (limiter.under key) (limiter.record s visits) =
      limiter.outcomesFrom opened (count + 1) ((timesOf (limiter.under key) visits).takeWhile
          (· < opened + limiter.window)) ++
        (windows limiter.window ((timesOf (limiter.under key) visits).dropWhile
          (· < opened + limiter.window))).flatMap limiter.outcomes := by
  induction visits generalizing s opened count with
  | nil => simp [record, told, timesOf, windows, outcomesFrom]
  | cons v visits ih =>
      obtain ⟨hv, hrest⟩ := List.forall_mem_cons.mp hworks
      have hturn : Turn limiter s v (limiter.answer s v) := turn_answer hpositive
      have hpositive' := hturn.positive hpositive
      rw [told_record_cons, timesOf_cons]
      split
      next hkey =>
        have hkey : limiter.keyOf v = key := by simpa [under] using hkey
        subst hkey
        -- The request takes a place in the open window, or it opens the next one.
        by_cases htime : v.time < opened + limiter.window
        · obtain ⟨htold, hafter⟩ := hturn.of_live hv hcounter htime
          rw [htold, ih hrest hpositive' hafter, List.takeWhile_cons_of_pos (by simpa using htime),
            List.dropWhile_cons_of_pos (by simpa using htime), outcomesFrom, Int.add_sub_cancel]
          rfl
        · have hover : (s.asOf v.time).live? (limiter.keyOf v) = none := by
            simp [Counters.live?, hcounter, Counters.isLive, htime]
          obtain ⟨htold, hafter⟩ := hturn.of_over hlimit hv hover
          rw [htold, ih hrest hpositive' hafter, List.takeWhile_cons_of_neg (by simpa using htime),
            List.dropWhile_cons_of_neg (by simpa using htime), flatMap_windows_cons]
          rfl
      next hkey =>
        rw [← hturn.counterAt_of_not_under hkey] at hcounter
        exact ih hrest hpositive' hcounter

theorem told_record_of_none (hlimit : 1 ≤ limiter.limit) {visits : List Visit}
    (hworks : ∀ v ∈ visits, v.Works) (hpositive : s.Positive) (hcounter : s.counterAt key = none) :
    told (limiter.under key) (limiter.record s visits) =
      (windows limiter.window (timesOf (limiter.under key) visits)).flatMap limiter.outcomes := by
  induction visits generalizing s with
  | nil => simp [record, told, timesOf, windows]
  | cons v visits ih =>
      obtain ⟨hv, hrest⟩ := List.forall_mem_cons.mp hworks
      have hturn : Turn limiter s v (limiter.answer s v) := turn_answer hpositive
      have hpositive' := hturn.positive hpositive
      rw [told_record_cons, timesOf_cons]
      split
      next hkey =>
        have hkey : limiter.keyOf v = key := by simpa [under] using hkey
        subst hkey
        have hover : (s.asOf v.time).live? (limiter.keyOf v) = none := by
          simp [Counters.live?, hcounter]
        obtain ⟨htold, hafter⟩ := hturn.of_over hlimit hv hover
        rw [htold, told_record_of_open hlimit hrest hpositive' hafter, flatMap_windows_cons]
        rfl
      next hkey =>
        rw [← hturn.counterAt_of_not_under hkey] at hcounter
        exact ih hrest hpositive' hcounter

end Run

variable {client path : String}

/-- Whether a request is of a client to a path. -/
def isOf (client path : String) (v : Visit) : Bool := v.client = client ∧ v.path = path

theorem isOf_eq_under (hv : Plain v.client v.path) (hplace : Plain client path) :
    isOf client path v = limiter.under (limiter.key client path) v := by
  refine decide_eq_decide.mpr ⟨?_, fun hkey => key_inj hv hplace hkey⟩
  rintro ⟨rfl, rfl⟩
  rfl

/-- While the store works, what the requests of a client to a path are told is told window by
window, whatever others ask for in between. -/
theorem told_eq_windows (hlimit : 1 ≤ limiter.limit) {visits : List Visit}
    (hworks : ∀ v ∈ visits, v.Works) (hplain : ∀ v ∈ visits, Plain v.client v.path)
    (hplace : Plain client path) :
    told (isOf client path) (limiter.record {} visits) =
      (windows limiter.window (timesOf (isOf client path) visits)).flatMap limiter.outcomes := by
  have hsame : ∀ v ∈ visits, isOf client path v = limiter.under (limiter.key client path) v :=
    fun v hv => isOf_eq_under (hplain v hv) hplace
  have hrecord : ∀ entry ∈ limiter.record {} visits,
      isOf client path entry.1 = limiter.under (limiter.key client path) entry.1 := by
    intro entry hentry
    apply hsame
    rw [← map_fst_record limiter {} visits]
    exact List.mem_map_of_mem hentry
  rw [told, timesOf, List.filter_congr hrecord, List.filter_congr hsame]
  exact told_record_of_none hlimit hworks nofun rfl

/-- A client whose name has colons asks four times, and another one asks in between. -/
theorem told_eq_windows_of_two_clients :
    let limiter : Limiter := ⟨1, 10, "compile_limit"⟩
    let visits : List Visit :=
      [{ time := 0, client := "::1", path := "/compile" },
        { time := 3, client := "::1", path := "/compile" },
        { time := 5, client := "::2", path := "/compile" },
        { time := 10, client := "::1", path := "/compile" },
        { time := 12, client := "::1", path := "/compile" }]
    1 ≤ limiter.limit ∧ (∀ v ∈ visits, v.Works) ∧ (∀ v ∈ visits, Plain v.client v.path) ∧
      Plain "::1" "/compile" ∧
      told (isOf "::1" "/compile") (limiter.record {} visits) =
        (windows limiter.window (timesOf (isOf "::1" "/compile") visits)).flatMap
          limiter.outcomes ∧
      told (isOf "::1" "/compile") (limiter.record {} visits) =
        [(.admitted, some ⟨0, 1⟩), (.refused 7, some ⟨0, 1⟩), (.admitted, some ⟨0, 1⟩),
          (.refused 8, some ⟨0, 1⟩)] := by
  intro limiter visits
  have hlimit : 1 ≤ limiter.limit := by decide
  have hworks : ∀ v ∈ visits, v.Works := by
    simp [visits, Visit.Works]
  have hplain : ∀ v ∈ visits, Plain v.client v.path := by
    simp [visits, Plain]
  have hplace : Plain "::1" "/compile" := by
    simp [Plain]
  refine ⟨hlimit, hworks, hplain, hplace, told_eq_windows hlimit hworks hplain hplace, ?_⟩
  decide +kernel

end Limiter

end ContractBench.Limit
