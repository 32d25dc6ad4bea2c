import Mathlib

namespace AnixAgent.Lib.Results

open List

variable {ε α β σ : Type}

/-- A sequence of two fallible steps succeeds when both do. -/
theorem bind_eq_ok {x : Except ε α} {f : α → Except ε β} {b : β} :
    x >>= f = .ok b ↔ ∃ a, x = .ok a ∧ f a = .ok b := by
  cases x with
  | error e =>
    constructor
    · intro h
      cases h
    · rintro ⟨a, h, -⟩
      cases h
  | ok a =>
    constructor
    · intro h
      exact ⟨a, rfl, h⟩
    · rintro ⟨a', h, hf⟩
      cases h
      exact hf

/-- What one step of a fallible loop keeps, the loop keeps. -/
theorem foldlM_invariant {f : σ → α → Except ε σ} {I : σ → Prop} {l : List α} {s t : σ}
    (h : l.foldlM f s = .ok t) (hs : I s)
    (hstep : ∀ s a t, a ∈ l → I s → f s a = .ok t → I t) : I t := by
  induction l generalizing s with
  | nil =>
    cases h
    exact hs
  | cons a l ih =>
    rw [foldlM_cons] at h
    obtain ⟨s', hs', h⟩ := bind_eq_ok.mp h
    refine ih h (hstep s a s' mem_cons_self hs hs') ?_
    intro s b t hb
    exact hstep s b t (mem_cons_of_mem a hb)

end AnixAgent.Lib.Results
