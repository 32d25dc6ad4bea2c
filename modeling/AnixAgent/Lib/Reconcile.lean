import AnixAgent.Lib.Tables

namespace AnixAgent.Lib.Reconcile

open Lib.Tables List

variable {α κ β : Type} [DecidableEq κ] [DecidableEq β] {old new : Table κ β}

def stale (old new : Table κ β) : List κ :=
  (old.entries.filter fun e ↦ new.lookup e.1 ≠ some e.2).map (·.1)

def fresh (old new : Table κ β) : List (κ × β) :=
  (new.entries.filter fun e ↦ old.lookup e.1 ≠ some e.2).map fun e ↦ (e.1, e.2)

theorem mem_stale {k : κ} :
    k ∈ stale old new ↔ ∃ b, old.lookup k = some b ∧ new.lookup k ≠ some b := by
  simp only [stale, mem_map, mem_filter, decide_eq_true_eq]
  constructor
  · rintro ⟨⟨k, b⟩, ⟨hmem, hne⟩, rfl⟩
    exact ⟨b, AList.mem_lookup_iff.mpr hmem, hne⟩
  · rintro ⟨b, hb, hne⟩
    exact ⟨⟨k, b⟩, ⟨AList.mem_lookup_iff.mp hb, hne⟩, rfl⟩

theorem mem_fresh {k : κ} {b : β} :
    (k, b) ∈ fresh old new ↔ new.lookup k = some b ∧ old.lookup k ≠ some b := by
  simp only [fresh, mem_map, mem_filter, decide_eq_true_eq, Prod.mk.injEq]
  constructor
  · rintro ⟨⟨k, b⟩, ⟨hmem, hne⟩, rfl, rfl⟩
    exact ⟨AList.mem_lookup_iff.mpr hmem, hne⟩
  · rintro ⟨hb, hne⟩
    exact ⟨⟨k, b⟩, ⟨AList.mem_lookup_iff.mp hb, hne⟩, rfl, rfl⟩

omit [DecidableEq β] in
/-- Removing what is stale and adding what is fresh, in whatever order, turns the old table into the
new one. -/
theorem lookup_reconciled {gone : List κ} {added : List α} {f : α → κ} {g : α → β}
    (hgone : ∀ k, k ∈ gone ↔ ∃ b, old.lookup k = some b ∧ new.lookup k ≠ some b)
    (hadded : ∀ x ∈ added, new.lookup (f x) = some (g x))
    (hall : ∀ k b, new.lookup k = some b → old.lookup k ≠ some b → ∃ x ∈ added, f x = k) (k : κ) :
    (added.foldl (fun t x ↦ t.insert (f x) (g x)) (gone.foldl (fun t x ↦ t.erase x) old)).lookup k =
      new.lookup k := by
  rw [lookup_foldl_insert, lookup_foldl_erase]
  cases hindex : (index f g added).lookup k with
  | some b =>
    obtain ⟨x, hx, rfl, rfl⟩ := exists_of_lookup_index hindex
    exact (hadded x hx).symm
  | none =>
    have hkept (b : β) (hb : new.lookup k = some b) : old.lookup k = some b := by
      by_contra hne
      obtain ⟨x, hx, rfl⟩ := hall k b hb hne
      exact lookup_index_ne_none hx hindex
    rw [Option.none_or]
    split
    · next hk =>
      obtain ⟨b, hold, hnew⟩ := (hgone k).mp hk
      cases hb : new.lookup k with
      | none => rfl
      | some b' =>
        have hsame := hkept b' hb
        rw [hold] at hsame
        cases hsame
        exact absurd hb hnew
    · next hk =>
      cases hb : new.lookup k with
      | some b => exact hkept b hb
      | none =>
        cases hold : old.lookup k with
        | none => rfl
        | some b =>
          refine absurd ((hgone k).mpr ⟨b, hold, ?_⟩) hk
          rw [hb]
          simp

def sameEntries (s t : Table κ β) : Bool := stale s t = [] ∧ stale t s = []

theorem sameEntries_iff {s t : Table κ β} : sameEntries s t ↔ ∀ k, s.lookup k = t.lookup k := by
  simp only [sameEntries, decide_eq_true_eq, eq_nil_iff_forall_not_mem, mem_stale, not_exists,
    not_and, not_not]
  constructor
  · rintro ⟨hst, hts⟩ k
    cases h : s.lookup k with
    | some b => exact (hst k b h).symm
    | none =>
      cases h' : t.lookup k with
      | none => rfl
      | some b =>
        rw [hts k b h'] at h
        cases h
  · intro h
    exact ⟨fun k b hb ↦ (h k).symm.trans hb, fun k b hb ↦ (h k).trans hb⟩

end AnixAgent.Lib.Reconcile
