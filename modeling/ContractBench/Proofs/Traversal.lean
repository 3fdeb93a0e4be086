import ContractBench.Failure
import Mathlib.Data.List.Forall2

/-! # Operations on the way

Where operations that are made of others fail: a list at the first of its elements that fails, an
operation with changed failures where it fails itself. A list whose elements all succeed is gone
through in order.
-/

namespace ContractBench

variable {ε δ α β : Type}

theorem mapError_eq_error_iff {outcome : Except ε α} {f : ε → δ} {e : δ} :
    outcome.mapError f = .error e ↔ ∃ d, outcome = .error d ∧ f d = e := by
  cases outcome with
  | ok a => exact ⟨nofun, nofun⟩
  | error d =>
      constructor
      · intro h
        exact ⟨d, rfl, Except.error.inj h⟩
      · rintro ⟨_, ⟨⟩, rfl⟩
        rfl

theorem orFail_eq_error_iff {outcome : Except Fault α} {failure : Failure} :
    orFail outcome = .error failure ↔ ∃ fault, outcome = .error fault ∧ .fault fault = failure := by
  cases outcome <;> simp [orFail]

/-- A list is gone through to its end if no element fails. -/
theorem mapM_eq_ok_iff {f : α → Except ε β} {xs : List α} {ys : List β} :
    xs.mapM f = .ok ys ↔ List.Forall₂ (fun x y => f x = .ok y) xs ys := by
  induction xs generalizing ys with
  | nil =>
      rw [List.mapM_nil, List.forall₂_nil_left_iff]
      exact ⟨fun h => (Except.ok.inj h).symm, fun h => h ▸ rfl⟩
  | cons x xs ih =>
      rw [List.mapM_cons, bind_eq_ok_iff]
      constructor
      · rintro ⟨y, hy, hrest⟩
        obtain ⟨more, hmore, heq⟩ := bind_eq_ok_iff.mp hrest
        cases heq
        exact .cons hy (ih.mp hmore)
      · rintro (_ | ⟨hy, hmore⟩)
        exact ⟨_, hy, bind_eq_ok_iff.mpr ⟨_, ih.mpr hmore, rfl⟩⟩

/-- A list is related to some list if each of its elements is related to something. -/
theorem exists_forall₂_iff {r : α → β → Prop} {xs : List α} :
    (∃ ys, List.Forall₂ r xs ys) ↔ ∀ x ∈ xs, ∃ y, r x y := by
  induction xs with
  | nil => exact iff_of_true ⟨[], .nil⟩ nofun
  | cons x xs ih =>
      rw [List.forall_mem_cons, ← ih]
      constructor
      · rintro ⟨ys, _ | ⟨hy, hrest⟩⟩
        exact ⟨⟨_, hy⟩, _, hrest⟩
      · rintro ⟨⟨y, hy⟩, ys, hrest⟩
        exact ⟨y :: ys, .cons hy hrest⟩

theorem exists_mapM_eq_ok_iff {f : α → Except ε β} {xs : List α} :
    (∃ ys, xs.mapM f = .ok ys) ↔ ∀ x ∈ xs, ∃ y, f x = .ok y := by
  simp only [mapM_eq_ok_iff]
  exact exists_forall₂_iff

/-- Of two lists that are related each has something related to whatever is in the other. -/
theorem exists_of_forall₂_mem {r : α → β → Prop} {xs : List α} {ys : List β}
    (h : List.Forall₂ r xs ys) :
    (∀ x ∈ xs, ∃ y ∈ ys, r x y) ∧ ∀ y ∈ ys, ∃ x ∈ xs, r x y := by
  induction h with
  | nil => simp
  | cons hr _ ih =>
      constructor
      · refine List.forall_mem_cons.mpr ⟨⟨_, List.mem_cons_self, hr⟩, fun x hx => ?_⟩
        obtain ⟨y, hy, hxy⟩ := ih.1 x hx
        exact ⟨y, List.mem_cons_of_mem _ hy, hxy⟩
      · refine List.forall_mem_cons.mpr ⟨⟨_, List.mem_cons_self, hr⟩, fun y hy => ?_⟩
        obtain ⟨x, hx, hxy⟩ := ih.2 y hy
        exact ⟨x, List.mem_cons_of_mem _ hx, hxy⟩

/-- A list is gone through to its end if no element is without a result. -/
theorem mapM_eq_some_iff {f : α → Option β} {xs : List α} {ys : List β} :
    xs.mapM f = some ys ↔ List.Forall₂ (fun x y => f x = some y) xs ys := by
  induction xs generalizing ys with
  | nil =>
      rw [List.mapM_nil, List.forall₂_nil_left_iff]
      exact ⟨fun h => (Option.some.inj h).symm, fun h => h ▸ rfl⟩
  | cons x xs ih =>
      rw [List.mapM_cons, Option.bind_eq_bind, Option.bind_eq_some_iff]
      constructor
      · rintro ⟨y, hy, hrest⟩
        obtain ⟨more, hmore, heq⟩ := Option.bind_eq_some_iff.mp hrest
        cases heq
        exact .cons hy (ih.mp hmore)
      · rintro (_ | ⟨hy, hmore⟩)
        exact ⟨_, hy, Option.bind_eq_some_iff.mpr ⟨_, ih.mpr hmore, rfl⟩⟩

/-- What a list is related to has an element for each of its elements, in its place. -/
theorem exists_of_forall₂_append {r : α → β → Prop} {as cs : List α} {a : α} {bs : List β}
    (h : List.Forall₂ r (as ++ a :: cs) bs) :
    ∃ ahead b behind, bs = ahead ++ b :: behind ∧ ahead.length = as.length ∧ r a b := by
  induction as generalizing bs with
  | nil =>
      cases h with
      | cons ha hrest => exact ⟨[], _, _, rfl, rfl, ha⟩
  | cons first as ih =>
      cases h with
      | cons hfirst hrest =>
          obtain ⟨ahead, b, behind, rfl, hlength, hb⟩ := ih hrest
          exact ⟨_ :: ahead, b, behind, rfl, congrArg Nat.succ hlength, hb⟩

theorem exists_of_mapM {f : α → Option β} {xs : List α} {ys : List β} {x : α}
    (h : xs.mapM f = some ys) (hx : x ∈ xs) : ∃ y ∈ ys, f x = some y := by
  obtain ⟨before, after, rfl⟩ := List.append_of_mem hx
  obtain ⟨ahead, y, behind, rfl, -, hy⟩ := exists_of_forall₂_append (mapM_eq_some_iff.mp h)
  exact ⟨y, List.mem_append_right _ List.mem_cons_self, hy⟩

/-- A list is gone through up to the first element that fails. -/
theorem mapM_eq_error_iff {f : α → Except ε β} {xs : List α} {e : ε} :
    xs.mapM f = .error e ↔
      ∃ before x after, xs = before ++ x :: after ∧ (∀ y ∈ before, ∃ b, f y = .ok b) ∧
        f x = .error e := by
  induction xs with
  | nil => simp [pure, Except.pure]
  | cons x xs ih =>
      rw [List.mapM_cons, bind_eq_error_iff]
      constructor
      · rintro (hx | ⟨b, hb, hrest⟩)
        · exact ⟨[], x, xs, rfl, nofun, hx⟩
        · rcases bind_eq_error_iff.mp hrest with hxs | ⟨bs, -, hpure⟩
          · obtain ⟨before, y, after, rfl, hbefore, hy⟩ := ih.mp hxs
            exact ⟨x :: before, y, after, rfl, List.forall_mem_cons.mpr ⟨⟨b, hb⟩, hbefore⟩, hy⟩
          · cases hpure
      · rintro ⟨before, y, after, hsplit, hbefore, hy⟩
        cases before with
        | nil =>
            cases hsplit
            exact Or.inl hy
        | cons z before =>
            cases hsplit
            obtain ⟨⟨b, hb⟩, hrest⟩ := List.forall_mem_cons.mp hbefore
            refine Or.inr ⟨b, hb, bind_eq_error_iff.mpr (Or.inl ?_)⟩
            exact ih.mpr ⟨before, y, after, rfl, hrest, hy⟩

end ContractBench
