import Mathlib

namespace AnixAgent.Lib.Threads

open List

variable {τ : Type} [DecidableEq τ] {l new : List τ} {t u : τ}

/-- One thread takes a step: others may come in its place. -/
def swap (l : List τ) (t : τ) (new : List τ) : List τ := l.erase t ++ new

theorem countP_swap (h : t ∈ l) (new : List τ) (p : τ → Bool) :
    (swap l t new).countP p + (if p t then 1 else 0) = l.countP p + new.countP p := by
  have hperm := (perm_cons_erase h).countP_eq p
  rw [countP_cons] at hperm
  rw [swap, countP_append]
  omega

theorem mem_swap_of_ne (h : u ∈ l) (hne : u ≠ t) : u ∈ swap l t new :=
  mem_append.mpr (.inl ((mem_erase_of_ne hne).mpr h))

theorem mem_swap_new (h : u ∈ new) : u ∈ swap l t new := mem_append.mpr (.inr h)

/-- Of what at most one thread has, there is one thread. -/
theorem eq_of_countP_le_one {p : τ → Bool} (h : l.countP p ≤ 1) (ht : t ∈ l) (hu : u ∈ l)
    (hpt : p t) (hpu : p u) : t = u := by
  by_contra hne
  have hcount := (perm_cons_erase ht).countP_eq p
  have hmem : u ∈ l.erase t := (mem_erase_of_ne (Ne.symm hne)).mpr hu
  have hpos := countP_pos_iff.mpr ⟨u, hmem, hpu⟩
  rw [countP_cons, if_pos hpt] at hcount
  omega

theorem not_of_mem_erase {p : τ → Bool} (h : l.countP p ≤ 1) (ht : t ∈ l) (hpt : p t)
    (hu : u ∈ l.erase t) : p u = false := by
  by_contra hpu
  have hcount := (perm_cons_erase ht).countP_eq p
  have hpos := countP_pos_iff.mpr ⟨u, hu, Bool.eq_true_of_not_eq_false hpu⟩
  rw [countP_cons, if_pos hpt] at hcount
  omega

end AnixAgent.Lib.Threads
