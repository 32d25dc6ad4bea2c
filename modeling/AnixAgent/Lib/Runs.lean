import Mathlib

namespace AnixAgent.Lib.Runs

open Option

variable {σ α : Type} {step : σ → α → Option σ} {C D : σ → α → Prop}

/-- `Reach step C s t`: a finite run leads from `s` to `t`, and every action
it takes meets the condition `C` in the state before it. -/
inductive Reach (step : σ → α → Option σ) (C : σ → α → Prop) (s : σ) : σ → Prop
  | refl : Reach step C s s
  | snoc {t u : σ} (a : α) : Reach step C s t → C t a → step t a = some u → Reach step C s u

abbrev Steps (step : σ → α → Option σ) : σ → σ → Prop := Reach step (fun _ _ ↦ True)

variable {s t : σ}

theorem Reach.one (a : α) (hc : C s a) (h : step s a = some t) : Reach step C s t :=
  .snoc a .refl hc h

theorem Reach.trans {u : σ} (h : Reach step C s t) (h' : Reach step C t u) : Reach step C s u := by
  induction h' with
  | refl => exact h
  | snoc a _ hc hs ih => exact .snoc a ih hc hs

theorem Reach.mono (hCD : ∀ s a, C s a → D s a) (h : Reach step C s t) : Reach step D s t := by
  induction h with
  | refl => exact .refl
  | snoc a _ hc hs ih => exact .snoc a ih (hCD _ _ hc) hs

theorem Reach.steps (h : Reach step C s t) : Steps step s t :=
  h.mono fun _ _ _ ↦ trivial

/-- What holds at the start and is kept by every step that meets the condition
holds in every state of the run. -/
theorem Reach.invariant {I : σ → Prop} (h : Reach step C s t) (hs : I s)
    (hstep : ∀ s a t, I s → C s a → step s a = some t → I t) : I t := by
  induction h with
  | refl => exact hs
  | snoc a _ hc ht ih => exact hstep _ a _ ih hc ht

/-- A reflexive and transitive relation that every step is in relates the two
ends of a run. -/
theorem Reach.related {R : σ → σ → Prop} (h : Reach step C s t)
    (hrefl : ∀ s, R s s) (htrans : ∀ s t u, R s t → R t u → R s u)
    (hstep : ∀ s a t, C s a → step s a = some t → R s t) : R s t := by
  induction h with
  | refl => exact hrefl s
  | snoc a _ hc ht ih => exact htrans _ _ _ ih (hstep _ a _ hc ht)

/-- Run a list of actions, stopping at the first one that is not enabled. -/
def exec (step : σ → α → Option σ) : σ → List α → Option σ
  | s, [] => some s
  | s, a :: as => (step s a).bind fun t ↦ exec step t as

def execWhen (step : σ → α → Option σ) (C : σ → α → Prop) [∀ s a, Decidable (C s a)] :
    σ → List α → Option σ
  | s, [] => some s
  | s, a :: as => if C s a then (step s a).bind fun t ↦ execWhen step C t as else none

theorem reach_of_execWhen [∀ s a, Decidable (C s a)] {as : List α}
    (h : execWhen step C s as = some t) : Reach step C s t := by
  induction as generalizing s with
  | nil => cases h; exact .refl
  | cons a as ih =>
    simp only [execWhen] at h
    split at h
    · next hc =>
      obtain ⟨u, hu, hrest⟩ := bind_eq_some_iff.mp h
      exact (Reach.one a hc hu).trans (ih hrest)
    · cases h

theorem steps_of_exec {as : List α} (h : exec step s as = some t) : Steps step s t := by
  induction as generalizing s with
  | nil => cases h; exact .refl
  | cons a as ih =>
    obtain ⟨u, hu, hrest⟩ := bind_eq_some_iff.mp h
    exact (Reach.one a trivial hu).trans (ih hrest)

theorem exec_of_execWhen [∀ s a, Decidable (C s a)] {as : List α}
    (h : execWhen step C s as = some t) : exec step s as = some t := by
  induction as generalizing s with
  | nil => exact h
  | cons a as ih =>
    simp only [execWhen] at h
    split at h
    · obtain ⟨u, hu, hrest⟩ := bind_eq_some_iff.mp h
      exact bind_eq_some_iff.mpr ⟨u, hu, ih hrest⟩
    · cases h

/-- The state after a list of actions that are all enabled. -/
def after (step : σ → α → Option σ) (s : σ) (as : List α) : σ := (exec step s as).getD s

theorem steps_after (as : List α) (h : (exec step s as).isSome) :
    Steps step s (after step s as) := by
  obtain ⟨t, ht⟩ := isSome_iff_exists.mp h
  rw [after, ht]
  exact steps_of_exec ht

theorem reach_after [∀ s a, Decidable (C s a)] (as : List α) (h : (execWhen step C s as).isSome) :
    Reach step C s (after step s as) := by
  obtain ⟨t, ht⟩ := isSome_iff_exists.mp h
  rw [after, exec_of_execWhen ht]
  exact reach_of_execWhen ht

theorem step_after {a : α} (h : (step s a).isSome) : step s a = some (after step s [a]) := by
  obtain ⟨t, ht⟩ := isSome_iff_exists.mp h
  simp [after, exec, ht]

/-- A run that was evaluated: it reaches a state, and the state has the property. -/
theorem exists_reach [∀ s a, Decidable (C s a)] (as : List α) (P : σ → Prop)
    [DecidablePred P] (h : (execWhen step C s as).any (fun t ↦ decide (P t))) :
    ∃ t, Reach step C s t ∧ P t := by
  obtain ⟨t, ht, hP⟩ := (any_eq_true _ _).mp h
  exact ⟨t, reach_of_execWhen ht, of_decide_eq_true hP⟩

theorem exists_steps (as : List α) (P : σ → Prop) [DecidablePred P]
    (h : (exec step s as).any (fun t ↦ decide (P t))) : ∃ t, Steps step s t ∧ P t := by
  obtain ⟨t, ht, hP⟩ := (any_eq_true _ _).mp h
  exact ⟨t, steps_of_exec ht, of_decide_eq_true hP⟩

theorem exists_steps_reach [∀ s a, Decidable (C s a)] (as bs : List α)
    (P : σ → σ → Prop) [∀ t u, Decidable (P t u)]
    (h : (exec step s as).any (fun t ↦ (execWhen step C t bs).any fun u ↦ decide (P t u))) :
    ∃ t u, Steps step s t ∧ Reach step C t u ∧ P t u := by
  obtain ⟨t, ht, h⟩ := (any_eq_true _ _).mp h
  obtain ⟨u, hu, hP⟩ := (any_eq_true _ _).mp h
  exact ⟨t, u, steps_of_exec ht, reach_of_execWhen hu, of_decide_eq_true hP⟩

end AnixAgent.Lib.Runs
