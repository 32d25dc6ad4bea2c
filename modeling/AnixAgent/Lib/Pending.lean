import Mathlib

namespace AnixAgent.Lib.Pending

variable {σ ρ : Type} {exec : σ → ρ → σ} {P P' : σ → Prop} {Q : σ → ρ → Prop} {s : σ}
  {rs rs' : List ρ}

/-- The operations that are still to be done can be done one after the other: `P` holds before the
first and after each, and `Q` holds of each one when its turn comes. -/
def Safely (exec : σ → ρ → σ) (P : σ → Prop) (Q : σ → ρ → Prop) : σ → List ρ → Prop
  | s, [] => P s
  | s, r :: rs => P s ∧ Q s r ∧ Safely exec P Q (exec s r) rs

theorem Safely.now (h : Safely exec P Q s rs) : P s := by
  cases rs with
  | nil => exact h
  | cons r rs => exact h.1

theorem Safely.done (h : Safely exec P Q s rs) : P (rs.foldl exec s) := by
  induction rs generalizing s with
  | nil => exact h
  | cons r rs ih => exact ih h.2.2

theorem Safely.append (h : Safely exec P Q s rs)
    (h' : Safely exec P Q (rs.foldl exec s) rs') : Safely exec P Q s (rs ++ rs') := by
  induction rs generalizing s with
  | nil => exact h'
  | cons r rs ih => exact ⟨h.1, h.2.1, ih h.2.2 h'⟩

/-- Operations that are done on a condition. -/
theorem Safely.unless {c : Prop} [Decidable c] (h : P s) (hdo : ¬c → Safely exec P Q s rs) :
    Safely exec P Q s (if c then [] else rs) := by
  split
  · exact h
  · next hc => exact hdo hc

end AnixAgent.Lib.Pending
