import ContractBench.Compiler.Interleaving

/-! # Turns

What one move does to callers that load through one loader: at most one of them goes on, from its
stage to one that can follow it. All that is said about several moves is drawn from this.
-/

namespace ContractBench.Compiler

namespace Loader

variable {loader : Loader} {release : Release} {outcome : Except Failure RawText}

theorem pending_leave :
    (loader.leave release outcome).2.pending = erase release.version loader.pending := by
  cases outcome <;> rfl

theorem tickets_leave : (loader.leave release outcome).2.tickets = loader.tickets := by
  cases outcome <;> rfl

theorem mem_erase {version : RawText} {table : List (RawText × Nat)} {entry : RawText × Nat} :
    entry ∈ erase version table ↔ entry ∈ table ∧ entry.1 ≠ version := by
  rw [erase, List.mem_filter, bne_iff_ne]

end Loader

/-- The ticket that is registered with the loader for a caller at a stage. -/
def Stage.registered? : Stage → Option Nat
  | .obtaining ticket | .leaving ticket _ => some ticket
  | _ => none

/-- The ticket that a caller at a stage has yet to announce. -/
def Stage.held? : Stage → Option Nat
  | .obtaining ticket | .leaving ticket _ | .announcing ticket _ => some ticket
  | _ => none

theorem Stage.held?_of_registered? {stage : Stage} {ticket : Nat}
    (h : stage.registered? = some ticket) : stage.held? = some ticket := by
  cases stage <;> first | exact h | cases h

namespace Crowd

section Stages

variable (crowd : Crowd) (i : Nat)

def stage? : Option Stage := crowd.callers[i]?.map Caller.stage

/-- The version that a caller loads. -/
def version? : Option RawText := crowd.callers[i]?.map (·.release.version)

def held? : Option Nat := (crowd.stage? i).bind Stage.held?

/-- What is registered with the loader for a caller. -/
def registered? : Option (RawText × Nat) :=
  (crowd.version? i).bind fun version =>
    ((crowd.stage? i).bind Stage.registered?).map (version, ·)

end Stages

variable {crowd next : Crowd} {m : Move} {i j : Nat} {release : Release} {before after : Stage}
  {stage : Stage} {version : RawText} {ticket : Nat} {outcome : Except Failure Binary}

theorem held?_of_stage? (h : crowd.stage? i = some stage) : crowd.held? i = stage.held? := by
  rw [held?, h, Option.bind_some]

theorem exists_version? (h : crowd.stage? i = some stage) :
    ∃ version, crowd.version? i = some version := by
  obtain ⟨caller, hcaller, -⟩ := Option.map_eq_some_iff.mp h
  exact ⟨caller.release.version, by rw [version?, hcaller]; rfl⟩

theorem registered?_eq_some_iff :
    crowd.registered? i = some (version, ticket) ↔
      crowd.version? i = some version ∧
        ∃ stage, crowd.stage? i = some stage ∧ stage.registered? = some ticket := by
  constructor
  · intro h
    obtain ⟨_, hversion, h⟩ := Option.bind_eq_some_iff.mp h
    obtain ⟨_, hstage, h⟩ := Option.map_eq_some_iff.mp h
    obtain ⟨rfl, rfl⟩ := Prod.mk.inj h
    exact ⟨hversion, Option.bind_eq_some_iff.mp hstage⟩
  · rintro ⟨hversion, hstage⟩
    rw [registered?, hversion, Option.bind_some, Option.bind_eq_some_iff.mpr hstage]
    rfl

theorem held?_of_registered? (h : crowd.registered? i = some (version, ticket)) :
    crowd.held? i = some ticket := by
  obtain ⟨-, stage, hstage, hticket⟩ := registered?_eq_some_iff.mp h
  exact (held?_of_stage? hstage).trans (Stage.held?_of_registered? hticket)

/-- A caller goes on from one stage to another, while the others stay where they are. -/
structure Goes (crowd next : Crowd) (i : Nat) (release : Release) (before after : Stage) :
    Prop where
  caller : crowd.callers[i]? = some ⟨release, before⟩
  callers : next.callers = crowd.callers.set i ⟨release, after⟩

namespace Goes

variable (h : Goes crowd next i release before after)
include h

theorem getElem? (j : Nat) :
    next.callers[j]? = if j = i then some ⟨release, after⟩ else crowd.callers[j]? := by
  obtain ⟨hlt, -⟩ := List.getElem?_eq_some_iff.mp h.caller
  rw [h.callers, List.getElem?_set]
  by_cases heq : i = j
  · subst heq
    simp [hlt]
  · simp [heq, Ne.symm heq]

theorem stage?_before : crowd.stage? i = some before := by rw [stage?, h.caller]; rfl

theorem stage?_after : next.stage? i = some after := by rw [stage?, h.getElem?, if_pos rfl]; rfl

theorem stage?_of_ne (hne : j ≠ i) : next.stage? j = crowd.stage? j := by
  rw [stage?, stage?, h.getElem?, if_neg hne]

theorem version?_self : crowd.version? i = some release.version := by rw [version?, h.caller]; rfl

theorem version?_eq (j : Nat) : next.version? j = crowd.version? j := by
  by_cases heq : j = i
  · rw [heq, h.version?_self, version?, h.getElem?, if_pos rfl]
    rfl
  · rw [version?, version?, h.getElem?, if_neg heq]

theorem held?_eq (j : Nat) :
    next.held? j = if j = i then after.held? else crowd.held? j := by
  split
  next heq => rw [heq, held?_of_stage? h.stage?_after]
  next hne => rw [held?, held?, h.stage?_of_ne hne]

theorem held?_of_eq (heq : after.held? = before.held?) (j : Nat) :
    next.held? j = crowd.held? j := by
  rw [h.held?_eq, heq]
  split
  next hj => rw [hj, held?_of_stage? h.stage?_before]
  next => rfl

theorem registered?_before : crowd.registered? i = before.registered?.map (release.version, ·) := by
  rw [registered?, h.version?_self, Option.bind_some, h.stage?_before, Option.bind_some]

theorem registered?_eq (j : Nat) :
    next.registered? j =
      if j = i then after.registered?.map (release.version, ·) else crowd.registered? j := by
  split
  next heq =>
    rw [heq, registered?, h.version?_eq, h.version?_self, Option.bind_some, h.stage?_after,
      Option.bind_some]
  next hne => rw [registered?, registered?, h.version?_eq, h.stage?_of_ne hne]

theorem registered?_of_eq (heq : after.registered? = before.registered?) (j : Nat) :
    next.registered? j = crowd.registered? j := by
  rw [h.registered?_eq, heq]
  split
  next hj => rw [hj, h.registered?_before]
  next => rfl

end Goes

/-- How a caller can go on by a move. -/
inductive Passage (crowd next : Crowd) (release : Release) (i : Nat) : Move → Stage → Stage → Prop
  where
  | finds {binary : Binary} (hready : Ordered.get? crowd.loader.ready release.version = some binary)
      (hloader : next.loader = crowd.loader) (hannounced : next.announced = crowd.announced) :
      Passage crowd next release i (.step i) .arriving (.done (.ok binary))
  | joins {ticket : Nat}
      (hpending : Ordered.get? crowd.loader.pending release.version = some ticket)
      (hloader : next.loader = crowd.loader) (hannounced : next.announced = crowd.announced) :
      Passage crowd next release i (.step i) .arriving (.waiting ticket)
  | enters (hpending : Ordered.get? crowd.loader.pending release.version = none)
      (hloader : next.loader = { crowd.loader with
        pending := crowd.loader.pending ++ [(release.version, crowd.loader.tickets)]
        tickets := crowd.loader.tickets + 1 })
      (hannounced : next.announced = crowd.announced) :
      Passage crowd next release i (.step i) .arriving (.obtaining crowd.loader.tickets)
  | obtains {ticket : Nat} {outcome : Except Failure RawText}
      (hloader : next.loader = crowd.loader) (hannounced : next.announced = crowd.announced) :
      Passage crowd next release i (.obtain i outcome) (.obtaining ticket) (.leaving ticket outcome)
  | leaves {ticket : Nat} {outcome : Except Failure RawText}
      (hloader : next.loader = (crowd.loader.leave release outcome).2)
      (hannounced : next.announced = crowd.announced) :
      Passage crowd next release i (.step i) (.leaving ticket outcome)
        (.announcing ticket (crowd.loader.leave release outcome).1)
  | announces {ticket : Nat} {outcome : Except Failure Binary}
      (hloader : next.loader = crowd.loader)
      (hannounced : next.announced = crowd.announced ++ [(ticket, outcome)]) :
      Passage crowd next release i (.step i) (.announcing ticket outcome) (.done outcome)
  | isTold {ticket : Nat} {outcome : Except Failure Binary}
      (htold : Ordered.get? crowd.announced ticket = some outcome)
      (hloader : next.loader = crowd.loader) (hannounced : next.announced = crowd.announced) :
      Passage crowd next release i (.step i) (.waiting ticket) (.done outcome)

/-- All that a move can do. -/
inductive Turn (crowd next : Crowd) (m : Move) : Prop where
  | rests (hnext : next = crowd)
  | forgets (hmove : m = .forget) (hnext : next = { crowd with loader := crowd.loader.forget })
  | goes {i : Nat} {release : Release} {before after : Stage}
      (hgoes : crowd.Goes next i release before after)
      (hpassage : crowd.Passage next release i m before after)

theorem turn_of_move (h : crowd.move m = some next) : Turn crowd next m := by
  cases m with
  | forget => exact .forgets rfl (Option.some.inj h).symm
  | obtain i outcome =>
      obtain ⟨⟨release, stage⟩, hcaller, hmove⟩ := Option.bind_eq_some_iff.mp h
      cases stage with
      | obtaining ticket =>
          obtain rfl := Option.some.inj hmove
          exact .goes ⟨hcaller, rfl⟩ (.obtains rfl rfl)
      | _ => cases hmove
  | step i =>
      obtain ⟨⟨release, stage⟩, hcaller, hstep⟩ := Option.bind_eq_some_iff.mp h
      cases stage with
      | arriving =>
          simp only [stepOf, Loader.enter] at hstep
          split at hstep
          next hready =>
            obtain rfl := Option.some.inj hstep
            exact .goes ⟨hcaller, rfl⟩ (.finds hready rfl rfl)
          next =>
            split at hstep
            next hpending =>
              obtain rfl := Option.some.inj hstep
              exact .goes ⟨hcaller, rfl⟩ (.joins hpending rfl rfl)
            next hpending =>
              obtain rfl := Option.some.inj hstep
              exact .goes ⟨hcaller, rfl⟩ (.enters hpending rfl rfl)
      | leaving ticket outcome =>
          obtain rfl := Option.some.inj hstep
          exact .goes ⟨hcaller, rfl⟩ (.leaves rfl rfl)
      | announcing ticket outcome =>
          obtain rfl := Option.some.inj hstep
          exact .goes ⟨hcaller, rfl⟩ (.announces rfl rfl)
      | waiting ticket =>
          obtain ⟨outcome, htold, rfl⟩ := Option.map_eq_some_iff.mp hstep
          exact .goes ⟨hcaller, rfl⟩ (.isTold htold rfl rfl)
      | obtaining ticket => cases hstep
      | done outcome => cases hstep

/-- A move that is not possible is passed over. -/
theorem run_snoc (start : Crowd) (moves : List Move) (m : Move) :
    start.run (moves ++ [m]) = ((start.run moves).move m).getD (start.run moves) := by
  rw [run, List.foldl_append]
  rfl

theorem turn_run (start : Crowd) (moves : List Move) (m : Move) :
    Turn (start.run moves) (start.run (moves ++ [m])) m := by
  rw [run_snoc]
  cases hmove : (start.run moves).move m with
  | none => exact .rests rfl
  | some next => exact turn_of_move hmove

/-- A caller is done with what was announced under a ticket. -/
def Settled (crowd : Crowd) (i ticket : Nat) : Prop :=
  ∃ outcome, crowd.stage? i = some (.done outcome) ∧ (ticket, outcome) ∈ crowd.announced

namespace Turn

variable (h : Turn crowd next m)
include h

theorem version?_eq (i : Nat) : next.version? i = crowd.version? i := by
  cases h with
  | rests hnext => rw [hnext]
  | forgets _ hnext => rw [hnext]; rfl
  | goes hgoes _ => exact hgoes.version?_eq i

/-- A caller stays at its stage, or goes on from it. -/
theorem stage?_onward (hstage : crowd.stage? i = some stage) :
    next.stage? i = some stage ∨
      ∃ release after, crowd.Goes next i release stage after ∧
        crowd.Passage next release i m stage after := by
  cases h with
  | rests hnext => exact Or.inl (hnext ▸ hstage)
  | forgets _ hnext => exact Or.inl (hnext ▸ hstage)
  | @goes k release before after hgoes hpassage =>
      by_cases heq : i = k
      · subst heq
        obtain rfl := Option.some.inj (hgoes.stage?_before.symm.trans hstage)
        exact Or.inr ⟨release, after, hgoes, hpassage⟩
      · exact Or.inl ((hgoes.stage?_of_ne heq).trans hstage)

/-- A caller has been at its stage already, or has come to it. -/
theorem stage?_back (hstage : next.stage? i = some stage) :
    crowd.stage? i = some stage ∨
      ∃ release before, crowd.Goes next i release before stage ∧
        crowd.Passage next release i m before stage := by
  cases h with
  | rests hnext => exact Or.inl (hnext ▸ hstage)
  | forgets _ hnext =>
      subst hnext
      exact Or.inl hstage
  | @goes k release before after hgoes hpassage =>
      by_cases heq : i = k
      · subst heq
        obtain rfl := Option.some.inj (hgoes.stage?_after.symm.trans hstage)
        exact Or.inr ⟨release, before, hgoes, hpassage⟩
      · exact Or.inl ((hgoes.stage?_of_ne heq).symm.trans hstage)

/-- Nothing new is announced, or it is what the holder of a ticket came to. -/
theorem announced_cases :
    next.announced = crowd.announced ∨
      ∃ i ticket outcome, crowd.held? i = some ticket ∧ next.stage? i = some (.done outcome) ∧
        next.announced = crowd.announced ++ [(ticket, outcome)] := by
  cases h with
  | rests hnext => exact Or.inl (hnext ▸ rfl)
  | forgets _ hnext => exact Or.inl (hnext ▸ rfl)
  | @goes i _ _ _ hgoes hpassage =>
      cases hpassage with
      | announces _ hannounced =>
          exact Or.inr ⟨i, _, _, held?_of_stage? hgoes.stage?_before, hgoes.stage?_after,
            hannounced⟩
      | finds _ _ hannounced => exact Or.inl hannounced
      | joins _ _ hannounced => exact Or.inl hannounced
      | enters _ _ hannounced => exact Or.inl hannounced
      | obtains _ hannounced => exact Or.inl hannounced
      | leaves _ hannounced => exact Or.inl hannounced
      | isTold _ _ hannounced => exact Or.inl hannounced

theorem announced_prefix : crowd.announced <+: next.announced := by
  rcases h.announced_cases with heq | ⟨_, _, _, _, _, heq⟩
  · exact heq ▸ List.prefix_rfl
  · exact heq ▸ List.prefix_append _ _

/-- What is announced was announced before, or is what the holder of the ticket came to. -/
theorem announced_back (hmem : (ticket, outcome) ∈ next.announced) :
    (ticket, outcome) ∈ crowd.announced ∨
      ∃ i, crowd.held? i = some ticket ∧ next.stage? i = some (.done outcome) := by
  rcases h.announced_cases with heq | ⟨i, _, _, hheld, hstage, heq⟩
  · exact Or.inl (heq ▸ hmem)
  · rw [heq, List.mem_append, List.mem_singleton] at hmem
    refine hmem.imp_right fun hentry => ?_
    obtain ⟨rfl, rfl⟩ := Prod.mk.inj hentry
    exact ⟨i, hheld, hstage⟩

theorem stage?_of_done (hstage : crowd.stage? i = some (.done outcome)) :
    next.stage? i = some (.done outcome) := by
  rcases h.stage?_onward hstage with hstays | ⟨_, _, _, hpassage⟩
  · exact hstays
  · cases hpassage

/-- Who waits goes on waiting until it is told what was announced. -/
theorem stage?_of_waiting (hstage : crowd.stage? i = some (.waiting ticket)) :
    next.stage? i = some (.waiting ticket) ∨ next.Settled i ticket := by
  rcases h.stage?_onward hstage with hstays | ⟨_, _, hgoes, hpassage⟩
  · exact Or.inl hstays
  · cases hpassage with
    | isTold htold _ hannounced =>
        exact Or.inr ⟨_, hgoes.stage?_after, hannounced ▸ Ordered.mem_of_get?_eq_some htold⟩

/-- Who holds a ticket goes on holding it until it has announced what it came to. -/
theorem held?_of_held? (hheld : crowd.held? i = some ticket) :
    next.held? i = some ticket ∨ next.Settled i ticket := by
  obtain ⟨stage, hstage, hticket⟩ := Option.bind_eq_some_iff.mp hheld
  rcases h.stage?_onward hstage with hstays | ⟨_, after, hgoes, hpassage⟩
  · exact Or.inl ((held?_of_stage? hstays).trans hticket)
  · have hafter := held?_of_stage? hgoes.stage?_after
    cases hpassage with
    | obtains => exact Or.inl (hafter.trans hticket)
    | leaves => exact Or.inl (hafter.trans hticket)
    | announces _ hannounced =>
        obtain rfl := Option.some.inj hticket
        exact Or.inr ⟨_, hgoes.stage?_after, by rw [hannounced]; simp⟩
    | _ => cases hticket

/-- What is kept changes only where the loader forgets and where a caller leaves with what it has
obtained. -/
theorem ready_cases :
    next.loader.ready = crowd.loader.ready ∨ m = .forget ∨
      ∃ i ticket executable, m = .step i ∧
        crowd.stage? i = some (.leaving ticket (.ok executable)) := by
  cases h with
  | rests hnext => exact Or.inl (hnext ▸ rfl)
  | forgets hmove _ => exact Or.inr (Or.inl hmove)
  | @goes i _ _ _ hgoes hpassage =>
      cases hpassage with
      | @leaves ticket outcome hloader _ =>
          cases outcome with
          | error failure => exact Or.inl (by rw [hloader]; rfl)
          | ok executable => exact Or.inr (Or.inr ⟨i, ticket, executable, rfl, hgoes.stage?_before⟩)
      | _ => exact Or.inl (by simp only [*])

theorem settled (hsettled : crowd.Settled i ticket) : next.Settled i ticket := by
  obtain ⟨outcome, hstage, hmem⟩ := hsettled
  exact ⟨outcome, h.stage?_of_done hstage, h.announced_prefix.subset hmem⟩

/-- A ticket that is held was held already, or its holder has just entered. -/
theorem held?_back (hheld : next.held? i = some ticket) :
    crowd.held? i = some ticket ∨ next.stage? i = some (.obtaining ticket) := by
  obtain ⟨stage, hstage, hticket⟩ := Option.bind_eq_some_iff.mp hheld
  rcases h.stage?_back hstage with hstays | ⟨_, before, hgoes, hpassage⟩
  · exact Or.inl ((held?_of_stage? hstays).trans hticket)
  · have hbefore := held?_of_stage? hgoes.stage?_before
    cases hpassage with
    | enters => exact Or.inr (Option.some.inj hticket ▸ hstage)
    | obtains => exact Or.inl (hbefore.trans hticket)
    | leaves => exact Or.inl (hbefore.trans hticket)
    | _ => cases hticket

/-- Who waits has waited already, or has found the load of its version that was under way. -/
theorem waiting_back (hstage : next.stage? i = some (.waiting ticket)) :
    crowd.stage? i = some (.waiting ticket) ∨
      ∃ version, crowd.version? i = some version ∧ (version, ticket) ∈ crowd.loader.pending := by
  rcases h.stage?_back hstage with hstays | ⟨release, _, hgoes, hpassage⟩
  · exact Or.inl hstays
  · cases hpassage with
    | joins hpending =>
        exact Or.inr ⟨_, hgoes.version?_self, Ordered.mem_of_get?_eq_some hpending⟩

end Turn

end Crowd

end ContractBench.Compiler
