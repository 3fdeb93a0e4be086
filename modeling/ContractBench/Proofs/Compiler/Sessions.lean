import ContractBench.Compiler.Loader
import ContractBench.Proofs.Ordered
import Mathlib.Data.List.DropRight

/-! # Sessions

A loader is called one time after the other, on a machine where installing or locating a compiler
may fail at any call. What the loader keeps is told by the answers it has given: for every version
the compiler of the first load that succeeded since it forgot last. What the machine has installed
outlives that, so that no compiler is installed twice.
-/

namespace ContractBench.Compiler

namespace Toolchain

/-- The machine at a time when installing and locating a compiler fail as given. -/
def facing (machine : Toolchain) (installing locating : Option Failure) : Toolchain :=
  { machine with outcomes := [installing], locating }

/-- What keeps a machine from having the executable of a version. -/
def hindrance? (machine : Toolchain) (version : RawText) (installing locating : Option Failure) :
    Option Failure :=
  if version ∈ machine.installed then locating else installing.or locating

/-- What obtaining an executable comes to, and what it does to the machine. -/
theorem obtain_facing (machine : Toolchain) (version : RawText)
    (installing locating : Option Failure) :
    ((machine.facing installing locating).obtain version).1 =
        (match machine.hindrance? version installing locating with
        | some cause => .error (unavailable version cause)
        | none => .ok (executable version)) ∧
      ((machine.facing installing locating).obtain version).2.installs =
        machine.installs ++ (if version ∈ machine.installed then [] else [version]) ∧
      ((machine.facing installing locating).obtain version).2.installed =
        machine.installed ++
          if version ∈ machine.installed ∨ installing.isSome then [] else [version] := by
  by_cases hmem : version ∈ machine.installed
  · cases locating <;> simp [obtain, facing, hindrance?, locate, hmem]
  · cases installing with
    | some cause => simp [obtain, install, facing, hindrance?, hmem]
    | none => cases locating <;> simp [obtain, install, facing, hindrance?, locate, hmem]

/-- What a machine has tried to install since a time, and what it has installed: nothing twice, and
nothing that it had before. -/
structure Installs (earlier later : Toolchain) (tried done : List RawText) : Prop where
  installs_eq : later.installs = earlier.installs ++ tried
  installed_eq : later.installed = earlier.installed ++ done
  sublist : done.Sublist tried
  nodup : done.Nodup
  new : ∀ version ∈ done, version ∉ earlier.installed

/-- Obtaining an executable installs at most what is not installed yet. -/
theorem Installs.obtain {earlier later : Toolchain} {tried done : List RawText}
    (h : Installs earlier later tried done) (version : RawText)
    (installing locating : Option Failure) :
    ∃ tried done,
      Installs earlier ((later.facing installing locating).obtain version).2 tried done := by
  obtain ⟨-, hinstalls, hinstalled⟩ := obtain_facing later version installing locating
  rw [h.installs_eq, h.installed_eq, List.append_assoc] at hinstalls
  rw [h.installed_eq, List.append_assoc] at hinstalled
  refine ⟨_, _, hinstalls, hinstalled, ?_, ?_, ?_⟩
  · apply h.sublist.append
    by_cases hmem : version ∈ earlier.installed ++ done <;> cases installing <;> simp [hmem]
  · split
    next => simpa using h.nodup
    next hnew =>
      refine List.nodup_append_comm.mp (List.nodup_cons.mpr ⟨fun hmem => ?_, h.nodup⟩)
      exact hnew (Or.inl (List.mem_append_right _ hmem))
  · intro other hother
    rcases List.mem_append.mp hother with hold | hnew
    · exact h.new other hold
    · split at hnew
      next => cases hnew
      next hmissing =>
        obtain rfl := List.mem_singleton.mp hnew
        exact fun hmem => hmissing (Or.inl (List.mem_append_left _ hmem))

end Toolchain

/-- A loader, and the machine on which it installs compilers. -/
structure Session where
  loader : Loader := {}
  machine : Toolchain

/-- What a loader is called for. -/
inductive Call where
  /-- A load, at a time when installing and locating a compiler fail as given. -/
  | load (release : Release) (installing locating : Option Failure)
  | forget
  | versions
  | isLoading (version : RawText)

def Call.forgets : Call → Bool
  | .forget => true
  | _ => false

/-- What a call is answered. -/
inductive Answer where
  | loaded (outcome : Except Failure Binary)
  | versions (versions : List RawText)
  | isLoading (loading : Bool)
  | nothing

namespace Session

def load (s : Session) (release : Release) (installing locating : Option Failure) :
    Except Failure Binary × Session :=
  let (outcome, loader, machine) :=
    s.loader.load (s.machine.facing installing locating) release
  (outcome, ⟨loader, machine⟩)

def perform (s : Session) : Call → Answer × Session
  | .load release installing locating =>
      let (outcome, s) := s.load release installing locating
      (.loaded outcome, s)
  | .forget => (.nothing, { s with loader := s.loader.forget })
  | .versions => (.versions s.loader.versions, s)
  | .isLoading version => (.isLoading (s.loader.isLoading version), s)

/-- The calls with their answers. -/
def record : Session → List Call → List (Call × Answer)
  | _, [] => []
  | s, call :: calls => (call, (s.perform call).1) :: record (s.perform call).2 calls

def after : Session → List Call → Session
  | s, [] => s
  | s, call :: calls => after (s.perform call).2 calls

/-- The compiler that a load came to, with its version. -/
def success? : Call × Answer → Option (RawText × Binary)
  | (.load release _ _, .loaded (.ok binary)) => some (release.version, binary)
  | _ => none

/-- The loads that succeeded since the loader forgot last, with what they came to. -/
def successes (record : List (Call × Answer)) : List (RawText × Binary) :=
  (record.rtakeWhile fun entry => !entry.1.forgets).filterMap success?

variable {s : Session} {calls : List Call} {call : Call} {release : Release}
  {installing locating : Option Failure}

theorem after_snoc : s.after (calls ++ [call]) = ((s.after calls).perform call).2 := by
  induction calls generalizing s with
  | nil => rfl
  | cons first calls ih => exact ih

theorem record_snoc :
    s.record (calls ++ [call]) = s.record calls ++ [(call, ((s.after calls).perform call).1)] := by
  induction calls generalizing s with
  | nil => rfl
  | cons first calls ih => exact congrArg (_ :: ·) ih

section Load

/-- A compiler that is kept is given again, and the machine is left alone. -/
theorem load_of_ready {binary : Binary}
    (hready : Ordered.get? s.loader.ready release.version = some binary) :
    s.load release installing locating =
      (.ok binary, ⟨s.loader, s.machine.facing installing locating⟩) := by
  simp [load, Loader.load, Loader.enter, hready]

/-- A load that finds nothing kept or under way obtains the executable and leaves with what comes
of it. -/
theorem load_of_missing (installing locating : Option Failure) (hidle : s.loader.pending = [])
    (hready : Ordered.get? s.loader.ready release.version = none) :
    (s.load release installing locating).2.machine =
        ((s.machine.facing installing locating).obtain release.version).2 ∧
      (s.load release installing locating).2.loader.pending = [] ∧
      ((∃ cause, s.machine.hindrance? release.version installing locating = some cause ∧
          (s.load release installing locating).1 =
            .error (Toolchain.unavailable release.version cause) ∧
          (s.load release installing locating).2.loader.ready = s.loader.ready) ∨
        s.machine.hindrance? release.version installing locating = none ∧
          ∃ binary, (s.load release installing locating).1 = .ok binary ∧
            (s.load release installing locating).2.loader.ready =
              s.loader.ready ++ [(release.version, binary)]) := by
  have hnew : Ordered.has s.loader.ready release.version = false := by
    rw [← Ordered.isSome_get?, hready]
    rfl
  have henter : s.loader.enter release.version = (.own s.loader.tickets,
      { s.loader with
        pending := [(release.version, s.loader.tickets)]
        tickets := s.loader.tickets + 1 }) := by
    rw [Loader.enter, hready, hidle]
    rfl
  have hobtain := (Toolchain.obtain_facing s.machine release.version installing locating).1
  rcases hobtained : (s.machine.facing installing locating).obtain release.version with
    ⟨outcome, machine⟩
  rw [hobtained] at hobtain
  obtain rfl := hobtain
  simp only [load, Loader.load, henter, hobtained]
  cases hcause : s.machine.hindrance? release.version installing locating with
  | some cause => simp [Loader.leave, Loader.withdraw, Loader.erase]
  | none => simp [Loader.leave, Loader.publish, Loader.erase, Ordered.put_of_not_has hnew]

end Load

section Kept

variable {kept : List (RawText × Binary)} {loader next : Loader} {version : RawText}
  {binary : Binary}

/-- A loader keeps, for every version and in the order in which they came, the first of the loads
that succeeded, and no load is under way. -/
structure Keeps (loader : Loader) (kept : List (RawText × Binary)) : Prop where
  idle : loader.pending = []
  versions_eq : loader.versions = (Ordered.keys kept).eraseDups
  get?_eq : ∀ version, Ordered.get? loader.ready version = Ordered.get? kept version

theorem Keeps.mem_versions_iff (h : Keeps loader kept) :
    version ∈ loader.versions ↔ version ∈ Ordered.keys kept := by
  rw [h.versions_eq, List.mem_eraseDups]

/-- A load that is answered with what is kept changes nothing about it. -/
theorem Keeps.again (h : Keeps loader kept)
    (hready : Ordered.get? loader.ready version = some binary) :
    Keeps loader (kept ++ [(version, binary)]) where
  idle := h.idle
  versions_eq := by
    have hmem : version ∈ Ordered.keys kept :=
      h.mem_versions_iff.mp (Ordered.mem_keys_of_get?_eq_some hready)
    rw [h.versions_eq, Ordered.keys_concat, eraseDups_concat, if_pos hmem, List.append_nil]
  get?_eq := by
    intro other
    rw [Ordered.get?_append, ← h.get?_eq]
    by_cases heq : version = other
    · rw [← heq, hready, Option.some_or]
    · simp [Ordered.get?, heq]

/-- A first success is kept behind those before it. -/
theorem Keeps.more (h : Keeps loader kept) (hready : Ordered.get? loader.ready version = none)
    (hidle : next.pending = []) (hnext : next.ready = loader.ready ++ [(version, binary)]) :
    Keeps next (kept ++ [(version, binary)]) where
  idle := hidle
  versions_eq := by
    have hmem : version ∉ Ordered.keys kept := by
      rw [← Ordered.has_eq_false_iff, ← Ordered.isSome_get?, ← h.get?_eq, hready]
      rfl
    rw [Ordered.keys_concat, eraseDups_concat, if_neg hmem, ← h.versions_eq, Loader.versions, hnext,
      Ordered.keys_concat]
    rfl
  get?_eq := by
    intro other
    rw [hnext, Ordered.get?_append, Ordered.get?_append, h.get?_eq]

theorem Keeps.congr (h : Keeps loader kept) (hready : next.ready = loader.ready)
    (hidle : next.pending = []) : Keeps next kept where
  idle := hidle
  versions_eq := by rw [Loader.versions, hready, ← h.versions_eq, Loader.versions]
  get?_eq := by rw [hready]; exact h.get?_eq

end Kept

section Run

variable {answer : Answer}

theorem successes_snoc_forget {record : List (Call × Answer)} :
    successes (record ++ [(.forget, answer)]) = [] := by
  simp [successes, Call.forgets]

theorem successes_snoc {record : List (Call × Answer)} (hcall : call.forgets = false) :
    successes (record ++ [(call, answer)]) =
      successes record ++ (success? (call, answer)).toList := by
  unfold successes
  rw [List.rtakeWhile_concat, if_pos (by simp [hcall]), List.filterMap_append]
  cases hsuccess : success? (call, answer) <;> simp [hsuccess]

/-- One call keeps that a loader keeps the first successes. -/
theorem Keeps.perform {record : List (Call × Answer)} (h : Keeps s.loader (successes record))
    (call : Call) :
    Keeps (s.perform call).2.loader (successes (record ++ [(call, (s.perform call).1)])) := by
  cases call with
  | forget =>
      rw [successes_snoc_forget]
      exact ⟨h.idle, rfl, fun version => rfl⟩
  | versions =>
      rw [successes_snoc rfl]
      exact (List.append_nil (successes record)).symm ▸ h
  | isLoading version =>
      rw [successes_snoc rfl]
      exact (List.append_nil (successes record)).symm ▸ h
  | load release installing locating =>
      rw [successes_snoc rfl]
      cases hready : Ordered.get? s.loader.ready release.version with
      | some binary =>
          simp only [Session.perform, load_of_ready hready, success?, Option.toList_some]
          exact h.again hready
      | none =>
          obtain ⟨-, hidle, ⟨cause, -, hfailed, hsame⟩ | ⟨-, binary, hloaded, hmore⟩⟩ :=
            load_of_missing installing locating h.idle hready
          · simp only [Session.perform, hfailed, success?, Option.toList_none, List.append_nil]
            exact h.congr hsame hidle
          · simp only [Session.perform, hloaded, success?, Option.toList_some]
            exact h.more hready hidle hmore

theorem keeps_after (machine : Toolchain) (calls : List Call) :
    Keeps (after { machine } calls).loader (successes (record { machine } calls)) := by
  induction calls using List.reverseRecOn with
  | nil => exact ⟨rfl, rfl, fun version => rfl⟩
  | append_singleton calls call ih =>
      rw [after_snoc, record_snoc]
      exact ih.perform call

/-- One call keeps that nothing is installed twice. -/
theorem installs_perform {machine : Toolchain} {tried done : List RawText}
    (h : machine.Installs s.machine tried done) (hidle : s.loader.pending = []) (call : Call) :
    ∃ tried done, machine.Installs (s.perform call).2.machine tried done := by
  cases call with
  | load release installing locating =>
      cases hready : Ordered.get? s.loader.ready release.version with
      | some binary =>
          simp only [Session.perform, load_of_ready hready]
          exact ⟨tried, done, h.installs_eq, h.installed_eq, h.sublist, h.nodup, h.new⟩
      | none =>
          obtain ⟨hmachine, -⟩ :=
            load_of_missing installing locating hidle hready
          simp only [Session.perform, hmachine]
          exact h.obtain release.version installing locating
  | _ => exact ⟨tried, done, h⟩

theorem installs_after (machine : Toolchain) (calls : List Call) :
    ∃ tried done, machine.Installs (after { machine } calls).machine tried done := by
  induction calls using List.reverseRecOn with
  | nil =>
      exact ⟨[], [], (List.append_nil _).symm, (List.append_nil _).symm, List.Sublist.slnil,
        List.nodup_nil, nofun⟩
  | append_singleton calls call ih =>
      obtain ⟨tried, done, h⟩ := ih
      rw [after_snoc]
      exact installs_perform h (keeps_after machine calls).idle call

/-- A load fails just where the compiler is not kept and something keeps the machine from having its
executable, and it tells that. -/
theorem Keeps.load_eq_error_iff {kept : List (RawText × Binary)} (h : Keeps s.loader kept)
    {failure : Failure} :
    (s.load release installing locating).1 = .error failure ↔
      release.version ∉ s.loader.versions ∧
        ∃ cause, s.machine.hindrance? release.version installing locating = some cause ∧
          failure = Toolchain.unavailable release.version cause := by
  cases hready : Ordered.get? s.loader.ready release.version with
  | some binary =>
      have hmem : release.version ∈ s.loader.versions := Ordered.mem_keys_of_get?_eq_some hready
      simp [load_of_ready hready, hmem]
  | none =>
      have hmem : release.version ∉ s.loader.versions := by
        rw [Loader.versions, ← Ordered.has_eq_false_iff, ← Ordered.isSome_get?, hready]
        rfl
      obtain ⟨-, -, ⟨cause, hcause, hfailed, -⟩ | ⟨hcause, binary, hloaded, -⟩⟩ :=
        load_of_missing installing locating h.idle hready
      · simp [hfailed, hcause, hmem, eq_comm]
      · simp [hloaded, hcause]

/-- A load that fails leaves what is kept and what is under way as they were. -/
theorem Keeps.ready_of_error {kept : List (RawText × Binary)} (h : Keeps s.loader kept)
    {failure : Failure} (hfailure : (s.load release installing locating).1 = .error failure) :
    (s.load release installing locating).2.loader.ready = s.loader.ready ∧
      (s.load release installing locating).2.loader.pending = s.loader.pending := by
  cases hready : Ordered.get? s.loader.ready release.version with
  | some binary =>
      rw [load_of_ready hready] at hfailure
      cases hfailure
  | none =>
      obtain ⟨-, hidle, ⟨-, -, -, hsame⟩ | ⟨-, binary, hloaded, -⟩⟩ :=
        load_of_missing installing locating h.idle hready
      · exact ⟨hsame, hidle.trans h.idle.symm⟩
      · cases hfailure.symm.trans hloaded

/-- A load of a compiler that is kept gives the first one of its version that was loaded since the
loader forgot last, and installs nothing. -/
theorem Keeps.load_of_mem {kept : List (RawText × Binary)} (h : Keeps s.loader kept)
    (hmem : release.version ∈ s.loader.versions) :
    ∃ binary, Ordered.get? kept release.version = some binary ∧
      (s.load release installing locating).1 = .ok binary ∧
      (s.load release installing locating).2.machine.installs = s.machine.installs := by
  obtain ⟨binary, hready⟩ := Ordered.exists_get?_of_mem_keys hmem
  rw [load_of_ready hready]
  exact ⟨binary, by rw [← h.get?_eq, hready], rfl, rfl⟩

/-- Whatever a loader was called for, and whatever failed, it keeps the versions that were loaded
since it forgot last, in the order in which they were first loaded, and no load is under way. A load
fails just where the version is not kept and cannot be obtained; it says so and changes nothing that
is kept or under way. A load of a version that is kept gives what the first load of it gave, and
installs nothing. In all that time no compiler is installed twice, and none that was installed
before. -/
theorem session_keeps_first_successes (machine : Toolchain) (calls : List Call) :
    let s := after { machine } calls
    let kept := successes (record { machine } calls)
    s.loader.pending = [] ∧ (∀ version, s.loader.isLoading version = false) ∧
    s.loader.versions = (Ordered.keys kept).eraseDups ∧ s.loader.versions.Nodup ∧
    (∃ tried done, s.machine.installs = machine.installs ++ tried ∧
      s.machine.installed = machine.installed ++ done ∧ done.Sublist tried ∧ done.Nodup ∧
      ∀ version ∈ done, version ∉ machine.installed) ∧
    ∀ release installing locating,
      (∀ failure, (s.load release installing locating).1 = .error failure ↔
        release.version ∉ s.loader.versions ∧
          ∃ cause, s.machine.hindrance? release.version installing locating = some cause ∧
            failure = Toolchain.unavailable release.version cause) ∧
      (∀ failure, (s.load release installing locating).1 = .error failure →
        (s.load release installing locating).2.loader.ready = s.loader.ready ∧
        (s.load release installing locating).2.loader.pending = s.loader.pending ∧
        ∃ message, failure = .loading message) ∧
      (release.version ∈ s.loader.versions →
        ∃ binary, Ordered.get? kept release.version = some binary ∧
          (s.load release installing locating).1 = .ok binary ∧
          (s.load release installing locating).2.machine.installs = s.machine.installs) := by
  intro s kept
  have hkeeps : Keeps s.loader kept := keeps_after machine calls
  obtain ⟨tried, done, hinstalls⟩ := installs_after machine calls
  refine ⟨hkeeps.idle, fun version => ?_, hkeeps.versions_eq, ?_, ⟨tried, done,
    hinstalls.installs_eq, hinstalls.installed_eq, hinstalls.sublist, hinstalls.nodup,
    hinstalls.new⟩, fun release installing locating =>
      ⟨fun failure => hkeeps.load_eq_error_iff, fun failure hfailure => ?_, hkeeps.load_of_mem⟩⟩
  · rw [Loader.isLoading, hkeeps.idle]
    rfl
  · rw [hkeeps.versions_eq]
    exact nodup_eraseDups _
  · obtain ⟨hready, hpending⟩ := hkeeps.ready_of_error hfailure
    obtain ⟨-, cause, hcause, rfl⟩ := hkeeps.load_eq_error_iff.mp hfailure
    exact ⟨hready, hpending, _, rfl⟩

end Run

end Session

end ContractBench.Compiler
