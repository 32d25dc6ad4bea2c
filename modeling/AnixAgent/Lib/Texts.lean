import Mathlib

namespace AnixAgent.Lib.Texts

open List

/-- Two texts joined by a character that is in neither of the first ones. -/
theorem append_cons_inj {α : Type} {c : α} {a a' b b' : List α} (ha : c ∉ a) (ha' : c ∉ a')
    (h : a ++ c :: b = a' ++ c :: b') : a = a' ∧ b = b' := by
  induction a generalizing a' with
  | nil =>
    cases a' with
    | nil =>
      cases h
      exact ⟨rfl, rfl⟩
    | cons x a' =>
      cases h
      exact absurd mem_cons_self ha'
  | cons x a ih =>
    cases a' with
    | nil =>
      cases h
      exact absurd mem_cons_self ha
    | cons x' a' =>
      rw [cons_append, cons_append, List.cons.injEq] at h
      rw [mem_cons, not_or] at ha ha'
      obtain ⟨rfl, h⟩ := h
      obtain ⟨rfl, rfl⟩ := ih ha.2 ha'.2 h
      exact ⟨rfl, rfl⟩

theorem join_inj {s s' t t' sep : String} {c : Char} (hsep : sep.toList = [c])
    (hs : c ∉ s.toList) (hs' : c ∉ s'.toList) (h : s ++ sep ++ t = s' ++ sep ++ t') :
    s = s' ∧ t = t' := by
  have hlist := congrArg String.toList h
  simp only [String.toList_append, hsep, append_assoc, singleton_append] at hlist
  obtain ⟨h1, h2⟩ := append_cons_inj hs hs' hlist
  exact ⟨String.toList_injective h1, String.toList_injective h2⟩

/-- The decimal text of a number has digits only. -/
theorem notMem_toString {c : Char} (hc : c.isDigit = false) (n : Nat) :
    c ∉ (toString n).toList := by
  intro h
  have hrepr : (toString n).toList = Nat.toDigits 10 n := Nat.toList_repr
  rw [hrepr] at h
  have hdigit := Nat.isDigit_of_mem_toDigits (by omega) (by omega) h
  rw [hc] at hdigit
  cases hdigit

end AnixAgent.Lib.Texts
