import ContractBench.Proofs.Compiler.Turns
import Mathlib.Data.List.Induction
import Mathlib.Data.List.Nodup

/-! # Shared loads

Callers load through one loader, and their steps come in any order. Of the loads of a version that
are under way one is the owner, and the others wait for its ticket. A ticket is held from the time
it is given out until it is announced, and by one caller only; it is registered with the loader for
the first part of that time. So no version is obtained twice at once, and whoever waits is told what
its owner came to, even if another load of the version has started in between.
-/

namespace ContractBench.Compiler

namespace Crowd

variable {crowd next : Crowd} {m : Move} {i j : Nat} {release : Release} {before after : Stage}
  {stage : Stage} {version : RawText} {ticket : Nat} {outcome : Except Failure Binary}

/-- What is registered are the loads of the callers between entering and leaving, one for each
version. A ticket that is held was given out, is held by one caller, and has not been announced; and
no ticket is announced twice. -/
structure Orderly (crowd : Crowd) : Prop where
  mem_pending_iff : ∀ entry, entry ∈ crowd.loader.pending ↔ ∃ i, crowd.registered? i = some entry
  nodup_pending : (Ordered.keys crowd.loader.pending).Nodup
  eq_of_held : ∀ i j ticket, crowd.held? i = some ticket → crowd.held? j = some ticket → i = j
  lt_of_held : ∀ i ticket, crowd.held? i = some ticket → ticket < crowd.loader.tickets
  not_mem_of_held : ∀ i ticket, crowd.held? i = some ticket →
    ticket ∉ Ordered.keys crowd.announced
  lt_of_mem : ∀ ticket ∈ Ordered.keys crowd.announced, ticket < crowd.loader.tickets
  nodup_announced : (Ordered.keys crowd.announced).Nodup

namespace Orderly

theorem congr (h : Orderly crowd) (hheld : ∀ j, next.held? j = crowd.held? j)
    (hregistered : ∀ j, next.registered? j = crowd.registered? j)
    (hpending : next.loader.pending = crowd.loader.pending)
    (htickets : next.loader.tickets = crowd.loader.tickets)
    (hannounced : next.announced = crowd.announced) : Orderly next where
  mem_pending_iff := by simpa only [hpending, hregistered] using h.mem_pending_iff
  nodup_pending := hpending ▸ h.nodup_pending
  eq_of_held := by simpa only [hheld] using h.eq_of_held
  lt_of_held := by simpa only [hheld, htickets] using h.lt_of_held
  not_mem_of_held := by simpa only [hheld, hannounced] using h.not_mem_of_held
  lt_of_mem := by simpa only [hannounced, htickets] using h.lt_of_mem
  nodup_announced := hannounced ▸ h.nodup_announced

/-- A caller that goes on without taking a ticket or giving one away changes nothing about the
tickets. -/
theorem quiet (h : Orderly crowd) (hgoes : crowd.Goes next i release before after)
    (hheld : after.held? = before.held?) (hregistered : after.registered? = before.registered?)
    (hloader : next.loader = crowd.loader) (hannounced : next.announced = crowd.announced) :
    Orderly next :=
  h.congr (hgoes.held?_of_eq hheld) (hgoes.registered?_of_eq hregistered) (by rw [hloader])
    (by rw [hloader]) hannounced

/-- Two callers of one version that are registered are one caller. -/
theorem eq_of_registered (h : Orderly crowd) {first second : Nat}
    (hfirst : crowd.registered? i = some (version, first))
    (hsecond : crowd.registered? j = some (version, second)) : i = j := by
  have hmem := (h.mem_pending_iff _).mpr ⟨i, hfirst⟩
  have hmem' := (h.mem_pending_iff _).mpr ⟨j, hsecond⟩
  have hentry := List.inj_on_of_nodup_map h.nodup_pending hmem hmem' rfl
  obtain rfl := (Prod.mk.inj hentry).2
  exact h.eq_of_held i j first (held?_of_registered? hfirst) (held?_of_registered? hsecond)

theorem enters (h : Orderly crowd)
    (hgoes : crowd.Goes next i release .arriving (.obtaining crowd.loader.tickets))
    (hnew : release.version ∉ Ordered.keys crowd.loader.pending)
    (hpending : next.loader.pending =
      crowd.loader.pending ++ [(release.version, crowd.loader.tickets)])
    (htickets : next.loader.tickets = crowd.loader.tickets + 1)
    (hannounced : next.announced = crowd.announced) : Orderly next where
  mem_pending_iff entry := by
    rw [hpending, List.mem_append, List.mem_singleton, h.mem_pending_iff]
    constructor
    · rintro (⟨j, hj⟩ | rfl)
      · refine ⟨j, ?_⟩
        rw [hgoes.registered?_eq, if_neg, hj]
        rintro rfl
        cases hgoes.registered?_before.symm.trans hj
      · exact ⟨i, by rw [hgoes.registered?_eq, if_pos rfl]; rfl⟩
    · rintro ⟨j, hj⟩
      rw [hgoes.registered?_eq] at hj
      split at hj
      next => exact Or.inr (Option.some.inj hj).symm
      next => exact Or.inl ⟨j, hj⟩
  nodup_pending := by
    rw [hpending]
    exact Ordered.nodup_keys_concat h.nodup_pending hnew
  eq_of_held := by
    -- The new ticket is above all that are held.
    have hfresh : ∀ j, crowd.held? j ≠ some crowd.loader.tickets :=
      fun j hj => Nat.lt_irrefl _ (h.lt_of_held j _ hj)
    intro j k ticket hj hk
    rw [hgoes.held?_eq] at hj hk
    split at hj <;> split at hk
    next hji hki => rw [hji, hki]
    next => exact absurd (hk.trans hj.symm) (hfresh k)
    next => exact absurd (hj.trans hk.symm) (hfresh j)
    next => exact h.eq_of_held j k ticket hj hk
  lt_of_held j ticket hj := by
    rw [hgoes.held?_eq] at hj
    rw [htickets]
    split at hj
    next =>
      obtain rfl := Option.some.inj hj
      exact Nat.lt_succ_self _
    next => exact Nat.lt_succ_of_lt (h.lt_of_held j ticket hj)
  not_mem_of_held j ticket hj := by
    rw [hgoes.held?_eq] at hj
    rw [hannounced]
    split at hj
    next =>
      obtain rfl := Option.some.inj hj
      exact fun hmem => Nat.lt_irrefl _ (h.lt_of_mem _ hmem)
    next => exact h.not_mem_of_held j ticket hj
  lt_of_mem ticket hmem := by
    rw [htickets]
    exact Nat.lt_succ_of_lt (h.lt_of_mem ticket (hannounced ▸ hmem))
  nodup_announced := hannounced ▸ h.nodup_announced

theorem leaves (h : Orderly crowd) {outcome : Except Failure RawText}
    {result : Except Failure Binary}
    (hgoes : crowd.Goes next i release (.leaving ticket outcome) (.announcing ticket result))
    (hpending : next.loader.pending = Loader.erase release.version crowd.loader.pending)
    (htickets : next.loader.tickets = crowd.loader.tickets)
    (hannounced : next.announced = crowd.announced) : Orderly next := by
  have hheld : ∀ j, next.held? j = crowd.held? j := hgoes.held?_of_eq rfl
  have hself : crowd.registered? i = some (release.version, ticket) := hgoes.registered?_before
  refine ⟨fun entry => ?_, ?_, ?_, ?_, ?_, ?_, hannounced ▸ h.nodup_announced⟩
  · rw [hpending, Loader.mem_erase, h.mem_pending_iff]
    constructor
    · rintro ⟨⟨j, hj⟩, hne⟩
      refine ⟨j, ?_⟩
      rw [hgoes.registered?_eq, if_neg, hj]
      rintro rfl
      rw [hself] at hj
      exact hne (congrArg Prod.fst (Option.some.inj hj)).symm
    · rintro ⟨j, hj⟩
      rw [hgoes.registered?_eq] at hj
      split at hj
      next => cases hj
      next hne =>
        refine ⟨⟨j, hj⟩, fun hversion => hne ?_⟩
        -- The entry of the version that goes is the own one.
        obtain ⟨version, other⟩ := entry
        obtain rfl : version = release.version := hversion
        exact h.eq_of_registered hj hself
  · rw [hpending]
    exact h.nodup_pending.sublist (List.filter_sublist.map Prod.fst)
  · simpa only [hheld] using h.eq_of_held
  · simpa only [hheld, htickets] using h.lt_of_held
  · simpa only [hheld, hannounced] using h.not_mem_of_held
  · simpa only [hannounced, htickets] using h.lt_of_mem

theorem announces (h : Orderly crowd)
    (hgoes : crowd.Goes next i release (.announcing ticket outcome) (.done outcome))
    (hloader : next.loader = crowd.loader)
    (hannounced : next.announced = crowd.announced ++ [(ticket, outcome)]) : Orderly next := by
  have hself : crowd.held? i = some ticket := held?_of_stage? hgoes.stage?_before
  have hregistered : ∀ j, next.registered? j = crowd.registered? j := hgoes.registered?_of_eq rfl
  have hheld : ∀ j other, next.held? j = some other → j ≠ i ∧ crowd.held? j = some other := by
    intro j other hj
    rw [hgoes.held?_eq] at hj
    split at hj
    next => cases hj
    next hne => exact ⟨hne, hj⟩
  have hkeys : Ordered.keys next.announced = Ordered.keys crowd.announced ++ [ticket] := by
    rw [hannounced, Ordered.keys_concat]
  refine ⟨fun entry => ?_, hloader ▸ h.nodup_pending, fun j k other hj hk => ?_,
    fun j other hj => hloader ▸ h.lt_of_held j other (hheld j other hj).2,
    fun j other hj hmem => ?_, fun other hmem => ?_, ?_⟩
  · simpa only [hloader, hregistered] using h.mem_pending_iff entry
  · exact h.eq_of_held j k other (hheld j other hj).2 (hheld k other hk).2
  · obtain ⟨hne, hj⟩ := hheld j other hj
    rw [hkeys, List.mem_append, List.mem_singleton] at hmem
    rcases hmem with hmem | rfl
    · exact h.not_mem_of_held j other hj hmem
    · exact hne (h.eq_of_held j i other hj hself)
  · rw [hkeys, List.mem_append, List.mem_singleton] at hmem
    rw [hloader]
    rcases hmem with hmem | rfl
    · exact h.lt_of_mem other hmem
    · exact h.lt_of_held i other hself
  · rw [hannounced]
    exact Ordered.nodup_keys_concat h.nodup_announced (h.not_mem_of_held i ticket hself)

/-- A move keeps the order. -/
theorem turn (h : Orderly crowd) (hturn : Turn crowd next m) : Orderly next := by
  cases hturn with
  | rests hnext => exact hnext ▸ h
  | forgets _ hnext =>
      subst hnext
      exact h.congr (fun _ => rfl) (fun _ => rfl) rfl rfl rfl
  | goes hgoes hpassage =>
      cases hpassage with
      | finds _ hloader hannounced => exact h.quiet hgoes rfl rfl hloader hannounced
      | joins _ hloader hannounced => exact h.quiet hgoes rfl rfl hloader hannounced
      | obtains hloader hannounced => exact h.quiet hgoes rfl rfl hloader hannounced
      | isTold _ hloader hannounced => exact h.quiet hgoes rfl rfl hloader hannounced
      | enters hpending hloader hannounced =>
          refine h.enters hgoes ?_ (by rw [hloader]) (by rw [hloader]) hannounced
          rw [← Ordered.has_eq_false_iff, ← Ordered.isSome_get?, hpending]
          rfl
      | leaves hloader hannounced =>
          exact h.leaves hgoes (by rw [hloader, Loader.pending_leave])
            (by rw [hloader, Loader.tickets_leave]) hannounced
      | announces hloader hannounced => exact h.announces hgoes hloader hannounced

theorem run {start : Crowd} (h : Orderly start) (moves : List Move) :
    Orderly (start.run moves) := by
  induction moves using List.reverseRecOn with
  | nil => exact h
  | append_singleton moves m ih => exact ih.turn (turn_run start moves m)

end Orderly

namespace Turn

/-- An entry of the loads under way disappears only when the caller it stands for leaves. -/
theorem pending_back (h : Turn crowd next m) (horderly : Orderly crowd) {entry : RawText × Nat}
    (hmem : entry ∈ crowd.loader.pending) (hgone : entry ∉ next.loader.pending) :
    ∃ i outcome, m = .step i ∧ crowd.registered? i = some entry ∧
      crowd.stage? i = some (.leaving entry.2 outcome) := by
  cases h with
  | rests hnext => exact absurd (hnext ▸ hmem) hgone
  | forgets _ hnext => exact absurd (by rw [hnext]; exact hmem) hgone
  | @goes i release _ _ hgoes hpassage =>
      cases hpassage with
      | @leaves ticket outcome hloader _ =>
          rw [hloader, Loader.pending_leave, Loader.mem_erase, not_and_not_right] at hgone
          obtain ⟨version, other⟩ := entry
          obtain rfl : version = release.version := hgone hmem
          obtain ⟨j, hj⟩ := (horderly.mem_pending_iff _).mp hmem
          have hself : crowd.registered? i = some (release.version, ticket) :=
            hgoes.registered?_before
          obtain rfl := horderly.eq_of_registered hj hself
          obtain ⟨-, rfl⟩ := Prod.mk.inj (Option.some.inj (hself.symm.trans hj))
          exact ⟨j, outcome, rfl, hself, hgoes.stage?_before⟩
      | enters _ hloader => exact absurd (by rw [hloader]; exact List.mem_append_left _ hmem) hgone
      | _ => exact absurd (by simp only [*]) hgone

end Turn

section Histories

/-- A caller has been at a stage at some time while the moves were made. -/
def Been (start : Crowd) (moves : List Move) (i : Nat) (stage : Stage) : Prop :=
  ∃ earlier, earlier <+: moves ∧ (start.run earlier).stage? i = some stage

variable {start : Crowd} {moves : List Move}

theorem been_of_stage? (h : (start.run moves).stage? i = some stage) : start.Been moves i stage :=
  ⟨moves, List.prefix_rfl, h⟩

theorem Been.mono {more : List Move} (h : start.Been moves i stage) (hmore : moves <+: more) :
    start.Been more i stage := by
  obtain ⟨earlier, hearlier, hstage⟩ := h
  exact ⟨earlier, hearlier.trans hmore, hstage⟩

theorem been_snoc_iff :
    start.Been (moves ++ [m]) i stage ↔
      start.Been moves i stage ∨ (start.run (moves ++ [m])).stage? i = some stage := by
  constructor
  · rintro ⟨earlier, hearlier, hstage⟩
    rcases List.prefix_concat_iff.mp hearlier with rfl | hearlier
    · exact Or.inr hstage
    · exact Or.inl ⟨earlier, hearlier, hstage⟩
  · rintro (h | h)
    · exact h.mono (List.prefix_append _ _)
    · exact been_of_stage? h

theorem version?_run (i : Nat) : (start.run moves).version? i = start.version? i := by
  induction moves using List.reverseRecOn with
  | nil => rfl
  | append_singleton moves m ih => rw [(turn_run start moves m).version?_eq, ih]

/-- An owner holds its ticket until it has announced what it came to. -/
theorem held?_of_been (h : start.Been moves i (.obtaining ticket)) :
    (start.run moves).held? i = some ticket ∨ (start.run moves).Settled i ticket := by
  induction moves using List.reverseRecOn with
  | nil =>
      obtain ⟨earlier, hearlier, hstage⟩ := h
      obtain rfl := List.prefix_nil.mp hearlier
      exact Or.inl (held?_of_stage? hstage)
  | append_singleton moves m ih =>
      rcases been_snoc_iff.mp h with h | hstage
      · rcases ih h with hheld | hsettled
        · exact (turn_run start moves m).held?_of_held? hheld
        · exact Or.inr ((turn_run start moves m).settled hsettled)
      · exact Or.inl (held?_of_stage? hstage)

/-- Whoever has waited for a ticket waits for it still, or was told what was announced. -/
theorem waiting_of_been (h : start.Been moves i (.waiting ticket)) :
    (start.run moves).stage? i = some (.waiting ticket) ∨ (start.run moves).Settled i ticket := by
  induction moves using List.reverseRecOn with
  | nil =>
      obtain ⟨earlier, hearlier, hstage⟩ := h
      obtain rfl := List.prefix_nil.mp hearlier
      exact Or.inl hstage
  | append_singleton moves m ih =>
      rcases been_snoc_iff.mp h with h | hstage
      · rcases ih h with hwaiting | hsettled
        · exact (turn_run start moves m).stage?_of_waiting hwaiting
        · exact Or.inr ((turn_run start moves m).settled hsettled)
      · exact Or.inl hstage

/-- Only one caller ever owns a ticket: the ticket of a caller that owns it already is held or
announced, and that of a caller that has just entered is neither. -/
theorem Orderly.owner_unique (h : Orderly start) (hi : start.Been moves i (.obtaining ticket))
    (hj : start.Been moves j (.obtaining ticket)) : i = j := by
  have hlast : ∀ {i j : Nat} {earlier : List Move}, start.Been earlier i (.obtaining ticket) →
      (start.run earlier).stage? j = some (.obtaining ticket) → i = j := by
    intro i j earlier hi hj
    have hheld : (start.run earlier).held? j = some ticket := held?_of_stage? hj
    rcases held?_of_been hi with hi | ⟨outcome, -, hmem⟩
    · exact (h.run earlier).eq_of_held i j ticket hi hheld
    · exact absurd (List.mem_map_of_mem hmem) ((h.run earlier).not_mem_of_held j ticket hheld)
  obtain ⟨first, hfirst, hi⟩ := hi
  obtain ⟨second, hsecond, hj⟩ := hj
  rcases List.prefix_or_prefix_of_prefix hfirst hsecond with hle | hle
  · exact hlast ((been_of_stage? hi).mono hle) hj
  · exact (hlast ((been_of_stage? hj).mono hle) hi).symm

end Histories

section Gathered

/-- Callers that are about to load a release each. -/
def gathered (loader : Loader) (releases : List Release) : Crowd :=
  ⟨loader, releases.map (⟨·, .arriving⟩), []⟩

variable {loader : Loader} {releases : List Release} {moves : List Move}

theorem arriving_of_gathered (h : (gathered loader releases).stage? i = some stage) :
    stage = .arriving := by
  simp only [gathered, stage?, List.getElem?_map, Option.map_map, Option.map_eq_some_iff] at h
  obtain ⟨release, -, rfl⟩ := h
  rfl

theorem held?_gathered (i : Nat) : (gathered loader releases).held? i = none := by
  cases hstage : (gathered loader releases).stage? i with
  | none => rw [held?, hstage]; rfl
  | some stage => rw [held?_of_stage? hstage, arriving_of_gathered hstage]; rfl

theorem orderly_gathered (hidle : loader.pending = []) : Orderly (gathered loader releases) where
  mem_pending_iff entry := by
    rw [gathered, hidle]
    refine iff_of_false (List.not_mem_nil) fun ⟨i, hi⟩ => ?_
    cases (held?_gathered i).symm.trans (held?_of_registered? hi)
  nodup_pending := by rw [gathered, hidle]; exact List.nodup_nil
  eq_of_held i _ _ hi _ := by rw [held?_gathered] at hi; cases hi
  lt_of_held i _ hi := by rw [held?_gathered] at hi; cases hi
  not_mem_of_held i _ hi := by rw [held?_gathered] at hi; cases hi
  lt_of_mem _ hmem := by cases hmem
  nodup_announced := List.nodup_nil

/-- Who holds a ticket has obtained the executable for it, or does so now. -/
theorem been_of_held? (h : ((gathered loader releases).run moves).held? i = some ticket) :
    (gathered loader releases).Been moves i (.obtaining ticket) := by
  induction moves using List.reverseRecOn with
  | nil => cases (held?_gathered i).symm.trans h
  | append_singleton moves m ih =>
      rcases (turn_run _ moves m).held?_back h with hheld | hstage
      · exact (ih hheld).mono (List.prefix_append _ _)
      · exact been_of_stage? hstage

/-- What is announced is what the owner of the ticket came to. -/
theorem owner_of_announced
    (h : (ticket, outcome) ∈ ((gathered loader releases).run moves).announced) :
    ∃ i, (gathered loader releases).Been moves i (.obtaining ticket) ∧
      ((gathered loader releases).run moves).stage? i = some (.done outcome) := by
  induction moves using List.reverseRecOn with
  | nil => cases h
  | append_singleton moves m ih =>
      have hturn := turn_run (gathered loader releases) moves m
      rcases hturn.announced_back h with hmem | ⟨i, hheld, hstage⟩
      · obtain ⟨i, hbeen, hstage⟩ := ih hmem
        exact ⟨i, hbeen.mono (List.prefix_append _ _), hturn.stage?_of_done hstage⟩
      · exact ⟨i, (been_of_held? hheld).mono (List.prefix_append _ _), hstage⟩

/-- Who waits for a ticket waits for an owner that loads the same version. -/
theorem owner_of_waiting (hidle : loader.pending = [])
    (h : (gathered loader releases).Been moves i (.waiting ticket)) :
    ∃ j, (gathered loader releases).Been moves j (.obtaining ticket) ∧
      (gathered loader releases).version? j = (gathered loader releases).version? i := by
  induction moves using List.reverseRecOn with
  | nil =>
      obtain ⟨earlier, hearlier, hstage⟩ := h
      obtain rfl := List.prefix_nil.mp hearlier
      cases arriving_of_gathered hstage
  | append_singleton moves m ih =>
      rcases been_snoc_iff.mp h with h | hstage
      · obtain ⟨j, hbeen, hversion⟩ := ih h
        exact ⟨j, hbeen.mono (List.prefix_append _ _), hversion⟩
      rcases (turn_run _ moves m).waiting_back hstage with hstage | ⟨version, hversion, hmem⟩
      · obtain ⟨j, hbeen, hversion⟩ := ih (been_of_stage? hstage)
        exact ⟨j, hbeen.mono (List.prefix_append _ _), hversion⟩
      · obtain ⟨j, hj⟩ := (((orderly_gathered hidle).run moves).mem_pending_iff _).mp hmem
        refine ⟨j, (been_of_held? (held?_of_registered? hj)).mono (List.prefix_append _ _), ?_⟩
        have hsame := (registered?_eq_some_iff.mp hj).1.trans hversion.symm
        rwa [version?_run, version?_run] at hsame

/-- Who is done with what it waited for came to what the owner came to. -/
theorem Orderly.owner_done {start : Crowd} (h : Orderly (start.run moves))
    (howner : start.Been moves j (.obtaining ticket))
    (hwaiter : start.Been moves i (.waiting ticket))
    (hdone : (start.run moves).stage? i = some (.done outcome)) :
    (start.run moves).stage? j = some (.done outcome) := by
  rcases waiting_of_been hwaiter with hwaiting | ⟨told, hstage, hmem⟩
  · cases hwaiting.symm.trans hdone
  obtain rfl := Stage.done.inj (Option.some.inj (hstage.symm.trans hdone))
  rcases held?_of_been howner with hheld | ⟨announced, hannounced, hmem'⟩
  · exact absurd (List.mem_map_of_mem hmem) (h.not_mem_of_held j ticket hheld)
  · have hentry := List.inj_on_of_nodup_map h.nodup_announced hmem hmem' rfl
    rw [(Prod.mk.inj hentry).2, hannounced]

/-- Once the owner is done, whoever still waits for it is done with its next step. -/
theorem Orderly.waiter_done {start : Crowd} (h : Orderly (start.run moves))
    (howner : start.Been moves j (.obtaining ticket))
    (hdone : (start.run moves).stage? j = some (.done outcome))
    (hwaiting : (start.run moves).stage? i = some (.waiting ticket)) :
    (start.run (moves ++ [.step i])).stage? i = some (.done outcome) := by
  have htold : Ordered.get? (start.run moves).announced ticket = some outcome := by
    rcases held?_of_been howner with hheld | ⟨announced, hannounced, hmem⟩
    · cases (held?_of_stage? hdone).symm.trans hheld
    · obtain rfl := Stage.done.inj (Option.some.inj (hdone.symm.trans hannounced))
      exact Ordered.get?_of_mem h.nodup_announced hmem
  obtain ⟨⟨release, stage⟩, hcaller, rfl⟩ := Option.map_eq_some_iff.mp hwaiting
  have hmove : (start.run moves).move (.step i) =
      some ((start.run moves).advance i ⟨release, .waiting ticket⟩ (.done outcome)) := by
    simp only [move, hcaller, stepOf, htold, Option.map_some, Option.bind_eq_bind,
      Option.bind_some]
  rw [run_snoc, hmove]
  exact Goes.stage?_after ⟨hcaller, rfl⟩

/-- Callers load releases through a loader that is idle, in whatever order their steps, what
obtaining comes to and forgetting follow each other. At any time at most one caller obtains the
executable of a version, and the loads under way are those of the callers between entering and
leaving, one for each version; such a load ends only when its own caller leaves. What is kept is
changed by forgetting and by leaving with an executable only. Every ticket is announced at most
once, with what its owner came to. Who waits for a ticket has one owner, which loads the same
version: it is done with what the owner is done with, and can be done as soon as the owner is.
While nobody is loading, no load is under way. -/
theorem loads_are_shared (loader : Loader) (hidle : loader.pending = []) (releases : List Release)
    (moves : List Move) :
    let start := gathered loader releases
    let crowd := start.run moves
    (∀ i j first second, crowd.stage? i = some (.obtaining first) →
      crowd.stage? j = some (.obtaining second) → crowd.version? i = crowd.version? j → i = j) ∧
    (∀ entry, entry ∈ crowd.loader.pending ↔ ∃ i, crowd.registered? i = some entry) ∧
    (∀ version, crowd.loader.isLoading version = true ↔
      ∃ i ticket, crowd.registered? i = some (version, ticket)) ∧
    (Ordered.keys crowd.loader.pending).Nodup ∧
    (∀ m, let next := start.run (moves ++ [m])
      (∀ entry ∈ crowd.loader.pending, entry ∉ next.loader.pending →
        ∃ i outcome, m = .step i ∧ crowd.registered? i = some entry ∧
          crowd.stage? i = some (.leaving entry.2 outcome)) ∧
      (next.loader.ready = crowd.loader.ready ∨ m = .forget ∨
        ∃ i ticket executable, m = .step i ∧
          crowd.stage? i = some (.leaving ticket (.ok executable)))) ∧
    (Ordered.keys crowd.announced).Nodup ∧
    (∀ ticket outcome, (ticket, outcome) ∈ crowd.announced →
      ∃ i, start.Been moves i (.obtaining ticket) ∧ crowd.stage? i = some (.done outcome)) ∧
    (∀ i ticket, start.Been moves i (.waiting ticket) →
      ∃ j, (∀ k, start.Been moves k (.obtaining ticket) ↔ k = j) ∧
        crowd.version? j = crowd.version? i ∧
        ∀ outcome,
          (crowd.stage? i = some (.done outcome) → crowd.stage? j = some (.done outcome)) ∧
          (crowd.stage? j = some (.done outcome) → crowd.stage? i = some (.done outcome) ∨
            (start.run (moves ++ [.step i])).stage? i = some (.done outcome))) ∧
    ((∀ i stage, crowd.stage? i = some stage →
        stage = .arriving ∨ ∃ outcome, stage = .done outcome) →
      crowd.loader.pending = []) := by
  intro start crowd
  have horderly : Orderly crowd := (orderly_gathered hidle).run moves
  refine ⟨?_, horderly.mem_pending_iff, ?_, horderly.nodup_pending, ?_, horderly.nodup_announced,
    fun _ _ => owner_of_announced, ?_, ?_⟩
  · intro i j first second hi hj hversion
    obtain ⟨version, hi'⟩ := exists_version? hi
    exact horderly.eq_of_registered
      (registered?_eq_some_iff.mpr ⟨hi', _, hi, rfl⟩)
      (registered?_eq_some_iff.mpr ⟨hversion ▸ hi', _, hj, rfl⟩)
  · intro version
    rw [Loader.isLoading, Ordered.has_iff_mem_keys, Ordered.keys, List.mem_map]
    constructor
    · rintro ⟨⟨version, ticket⟩, hmem, rfl⟩
      exact ((horderly.mem_pending_iff _).mp hmem).imp fun i hi => ⟨ticket, hi⟩
    · rintro ⟨i, ticket, hi⟩
      exact ⟨_, (horderly.mem_pending_iff _).mpr ⟨i, hi⟩, rfl⟩
  · intro m
    have hturn : Turn crowd (start.run (moves ++ [m])) m := turn_run start moves m
    exact ⟨fun entry => hturn.pending_back horderly, hturn.ready_cases⟩
  · intro i ticket hwaiter
    obtain ⟨j, howner, hversion⟩ := owner_of_waiting hidle hwaiter
    refine ⟨j, fun k => ⟨fun hk => ?_, fun heq => heq ▸ howner⟩, ?_, fun outcome => ⟨?_, ?_⟩⟩
    · exact (orderly_gathered hidle).owner_unique hk howner
    · rw [version?_run, version?_run, hversion]
    · exact horderly.owner_done howner hwaiter
    · intro hdone
      rcases waiting_of_been hwaiter with hwaiting | ⟨told, htold, -⟩
      · exact Or.inr (horderly.waiter_done howner hdone hwaiting)
      · -- Both have come to what was announced.
        have hsame := (horderly.owner_done howner hwaiter htold).symm.trans hdone
        exact Or.inl (htold.trans hsame)
  · intro hnobody
    refine List.eq_nil_iff_forall_not_mem.mpr fun entry hmem => ?_
    obtain ⟨i, hi⟩ := (horderly.mem_pending_iff entry).mp hmem
    obtain ⟨-, stage, hstage, hticket⟩ := registered?_eq_some_iff.mp hi
    rcases hnobody i stage hstage with rfl | ⟨outcome, rfl⟩ <;> cases hticket

/-- A load fails while another waits for it, and a third takes the version over before the failure
is announced: the one that waited is told the failure all the same. -/
theorem loads_are_shared_after_failure :
    let failure : Failure := .outage .runtime "disk full"
    let release : Release := ⟨"0.8.20", .null, "v0.8.20"⟩
    let start := gathered {} [release, release, release]
    let moves : List Move :=
      [.step 0, .step 1, .obtain 0 (.error failure), .step 0, .step 2, .step 0, .step 1]
    let crowd := start.run moves
    crowd.stage? 1 = some (.done (.error failure)) ∧ crowd.stage? 2 = some (.obtaining 1) ∧
      crowd.loader.isLoading "0.8.20" = true ∧
      ∃ j, (∀ k, start.Been moves k (.obtaining 0) ↔ k = j) ∧
        crowd.stage? j = some (.done (.error failure)) := by
  intro failure release start moves crowd
  have hcrowd : crowd = ⟨{ pending := [("0.8.20", 1)], tickets := 2 },
      [⟨release, .done (.error failure)⟩, ⟨release, .done (.error failure)⟩,
        ⟨release, .obtaining 1⟩], [(0, .error failure)]⟩ := by
    simp [crowd, moves, start, release, gathered, run, move, stepOf, advance, entered, Loader.enter,
      Loader.leave, Loader.withdraw, Loader.erase, Ordered.get?]
  have hdone : crowd.stage? 1 = some (.done (.error failure)) := by rw [hcrowd]; rfl
  have howns : crowd.registered? 2 = some (↑"0.8.20", 1) := by rw [hcrowd]; rfl
  have hwaiter : start.Been moves 1 (.waiting 0) := ⟨[.step 0, .step 1], ⟨_, rfl⟩, rfl⟩
  obtain ⟨-, -, hloading, -, -, -, -, howners, -⟩ := loads_are_shared {} rfl _ moves
  obtain ⟨j, howner, -, hsame⟩ := howners 1 0 hwaiter
  exact ⟨hdone, by rw [hcrowd]; rfl, (hloading "0.8.20").mpr ⟨2, 1, howns⟩, j, howner,
    (hsame _).1 hdone⟩

end Gathered

end Crowd

end ContractBench.Compiler
