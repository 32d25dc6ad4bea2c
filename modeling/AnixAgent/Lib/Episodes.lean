import Mathlib

namespace AnixAgent.Lib.Episodes

open Computability List

variable {α : Type} (a b : α)

def run : Language α := {[a]} * ({[a]} : Language α)∗

def episodes : Language α := (run a * {[b]})∗

def unfinished : Language α := episodes a b * run a

variable {a b} {word : List α}

theorem nil_mem_episodes : [] ∈ episodes a b := Language.nil_mem_kstar _

theorem singleton_mem_run : [a] ∈ run a := by
  have hnil : [] ∈ ({[a]} : Language α)∗ := Language.nil_mem_kstar _
  exact Language.mem_mul.mpr ⟨[a], Set.mem_singleton [a], [], hnil, append_nil [a]⟩

theorem run_append (h : word ∈ run a) : word ++ [a] ∈ run a := by
  obtain ⟨x, hx, y, hy, rfl⟩ := Language.mem_mul.mp h
  rw [append_assoc]
  refine Language.append_mem_mul hx ?_
  rw [← Language.one_add_kstar_mul_self_eq_kstar]
  exact .inr (Language.append_mem_mul hy (Set.mem_singleton [a]))

theorem begin_episode (h : word ∈ episodes a b) : word ++ [a] ∈ unfinished a b :=
  Language.append_mem_mul h singleton_mem_run

theorem extend_episode (h : word ∈ unfinished a b) : word ++ [a] ∈ unfinished a b := by
  obtain ⟨x, hx, y, hy, rfl⟩ := Language.mem_mul.mp h
  rw [append_assoc]
  exact Language.append_mem_mul hx (run_append hy)

theorem end_episode (h : word ∈ unfinished a b) : word ++ [b] ∈ episodes a b := by
  obtain ⟨x, hx, y, hy, rfl⟩ := Language.mem_mul.mp h
  have hy' : y ++ [b] ∈ run a * {[b]} := Language.append_mem_mul hy (Set.mem_singleton [b])
  rw [append_assoc]
  unfold episodes at hx ⊢
  rw [← Language.one_add_kstar_mul_self_eq_kstar]
  exact .inr (Language.append_mem_mul hx hy')

end AnixAgent.Lib.Episodes
