/-! # Walks

A walk works off a list of items. Taking an item changes a state and can bring more items, which
come in front of those that wait, so that a walk through a graph goes into depth first.
-/

namespace ContractBench.Source

section Run

variable {σ τ : Type} (step : σ → τ → σ × Option (List τ))

/-- Works off the items that wait, in at most the given number of steps; none if some wait still.
An item that brings nothing, not even an empty list, ends the walk. -/
def walk : Nat → List τ → σ → Option σ
  | _, [], s => some s
  | 0, _ :: _, _ => none
  | steps + 1, item :: waiting, s =>
      match step s item with
      | (s, some more) => walk steps (more ++ waiting) s
      | (s, none) => some s

variable {step}

@[simp] theorem walk_nil (steps : Nat) (s : σ) : walk step steps [] s = some s := by
  cases steps <;> rfl

/-- A walk that ends takes the first item that waits. -/
theorem walk_cons {steps : Nat} {item : τ} {waiting : List τ} {s t : σ}
    (h : walk step steps (item :: waiting) s = some t) :
    ∃ left, steps = left + 1 ∧
      ((∃ next more, step s item = (next, some more) ∧
        walk step left (more ++ waiting) next = some t) ∨ step s item = (t, none)) := by
  cases steps with
  | zero => cases h
  | succ left =>
      refine ⟨left, rfl, ?_⟩
      unfold walk at h
      split at h
      next next more heq => exact Or.inl ⟨next, more, heq, h⟩
      next last heq => exact Or.inr (Option.some.inj h ▸ heq)

/-- A walk ends if its state holds a budget that pays for all items that come. -/
theorem walk_isSome {budget : σ → Nat}
    (hpays : ∀ s item t more, step s item = (t, some more) → more.length + budget t ≤ budget s)
    {steps : Nat} {waiting : List τ} {s : σ} (hsteps : waiting.length + budget s ≤ steps) :
    (walk step steps waiting s).isSome = true := by
  induction steps generalizing waiting s with
  | zero =>
      cases waiting with
      | nil => rfl
      | cons item waiting => simp at hsteps
  | succ steps ih =>
      cases waiting with
      | nil => rfl
      | cons item waiting =>
          unfold walk
          split
          next t more hstep =>
            have hpaid := hpays s item t more hstep
            apply ih
            rw [List.length_cons] at hsteps
            rw [List.length_append]
            omega
          next => rfl

/-- More steps do not change what a walk comes to. -/
theorem walk_of_le {steps more : Nat} (hle : steps ≤ more) {waiting : List τ} {s t : σ}
    (h : walk step steps waiting s = some t) : walk step more waiting s = some t := by
  induction more generalizing steps waiting s with
  | zero => rwa [Nat.le_zero.mp hle] at h
  | succ more ih =>
      cases waiting with
      | nil => rwa [walk_nil] at h ⊢
      | cons item waiting =>
          obtain ⟨left, rfl, hstep⟩ := walk_cons h
          unfold walk
          obtain ⟨next, brought, heq, hrest⟩ | heq := hstep
          · rw [heq]
            exact ih (Nat.le_of_succ_le_succ hle) hrest
          · rw [heq]

/-- What every step keeps holds where a walk ends: with no items left, or at the item that ended
it. -/
theorem walk_induction {P : List τ → σ → Prop}
    (hstep : ∀ s item waiting t more, step s item = (t, some more) → P (item :: waiting) s →
      P (more ++ waiting) t)
    {steps : Nat} {waiting : List τ} {s t : σ} (h : walk step steps waiting s = some t)
    (hP : P waiting s) :
    P [] t ∨ ∃ last item rest, P (item :: rest) last ∧ step last item = (t, none) := by
  induction steps generalizing waiting s with
  | zero =>
      cases waiting with
      | nil => exact Or.inl (Option.some.inj h ▸ hP)
      | cons item waiting => cases h
  | succ steps ih =>
      cases waiting with
      | nil => exact Or.inl (Option.some.inj h ▸ hP)
      | cons item waiting =>
          obtain ⟨left, hleft, hfirst⟩ := walk_cons h
          cases hleft
          obtain ⟨next, more, heq, hrest⟩ | heq := hfirst
          · exact ih hrest (hstep s item waiting next more heq hP)
          · exact Or.inr ⟨s, item, waiting, hP, heq⟩

end Run

section Work

variable {α κ : Type} [DecidableEq κ] (key : α → κ) (work : α → Nat)
variable {seen more : List κ} {items : List α}

/-- The work of the items whose keys have not been seen: what is left of the budget of a walk that
enters every item at most once. -/
def unseenWork (seen : List κ) : List α → Nat
  | [] => 0
  | item :: items => (if key item ∈ seen then 0 else work item) + unseenWork seen items

theorem unseenWork_mono (hmore : ∀ k ∈ seen, k ∈ more) :
    unseenWork key work more items ≤ unseenWork key work seen items := by
  induction items with
  | nil => exact Nat.le_refl _
  | cons item items ih =>
      simp only [unseenWork]
      by_cases h : key item ∈ seen
      · rw [if_pos h, if_pos (hmore _ h)]
        omega
      · rw [if_neg h]
        split <;> omega

/-- Seeing a new item pays for its work. -/
theorem unseenWork_add_le {item : α} (hmem : item ∈ items) (hnew : key item ∉ seen)
    (hmore : ∀ k ∈ seen, k ∈ more) (hseen : key item ∈ more) :
    unseenWork key work more items + work item ≤ unseenWork key work seen items := by
  induction items with
  | nil => cases hmem
  | cons head items ih =>
      simp only [unseenWork]
      rcases List.mem_cons.mp hmem with rfl | htail
      · have hrest : unseenWork key work more items ≤ unseenWork key work seen items :=
          unseenWork_mono key work hmore
        rw [if_pos hseen, if_neg hnew]
        omega
      · have hrest := ih htail
        by_cases h : key head ∈ seen
        · rw [if_pos h, if_pos (hmore _ h)]
          omega
        · rw [if_neg h]
          split <;> omega

end Work

end ContractBench.Source
