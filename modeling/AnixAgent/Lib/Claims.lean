import AnixAgent.Lib.Results
import AnixAgent.Lib.Tables

namespace AnixAgent.Lib.Claims

open Lib.Results Lib.Tables List

variable {ε κ β : Type} [DecidableEq κ] [DecidableEq β] {clash : κ → ε}

def claim (clash : κ → ε) (owners : Table κ β) (x : κ × β) : Except ε (Table κ β) :=
  match owners.lookup x.1 with
  | some other => if other = x.2 then .ok (owners.insert x.1 x.2) else .error (clash x.1)
  | none => .ok (owners.insert x.1 x.2)

def claimAll (clash : κ → ε) (owners : Table κ β) (claims : List (κ × β)) :
    Except ε (Table κ β) :=
  claims.foldlM (claim clash) owners

theorem claim_eq_ok {owners owners' : Table κ β} {x : κ × β} : claim clash owners x = .ok owners' ↔
      (∀ other, owners.lookup x.1 = some other → other = x.2) ∧
        owners' = owners.insert x.1 x.2 := by
  unfold claim
  cases h : owners.lookup x.1 with
  | none => simp [eq_comm]
  | some other =>
    by_cases ho : other = x.2
    · simp [ho, eq_comm]
    · simp [ho]

/-- Whether claims succeed depends on which there are, not on their order: no key has two
owners. -/
theorem claimAll_isOk {owners : Table κ β} {claims : List (κ × β)} :
    (∃ owners', claimAll clash owners claims = .ok owners') ↔
      (∀ x ∈ claims, ∀ other, owners.lookup x.1 = some other → other = x.2) ∧
        ∀ x ∈ claims, ∀ y ∈ claims, x.1 = y.1 → x.2 = y.2 := by
  induction claims generalizing owners with
  | nil =>
    refine iff_of_true ⟨owners, rfl⟩ ⟨?_, ?_⟩
    · intro x hx
      cases hx
    · intro x hx
      cases hx
  | cons x claims ih =>
    have hcons : (∃ owners', claimAll clash owners (x :: claims) = .ok owners') ↔
        (∀ other, owners.lookup x.1 = some other → other = x.2) ∧
          ∃ owners', claimAll clash (owners.insert x.1 x.2) claims = .ok owners' := by
      simp only [claimAll, foldlM_cons, bind_eq_ok, claim_eq_ok]
      constructor
      · rintro ⟨owners', _, ⟨hx, rfl⟩, h⟩
        exact ⟨hx, owners', h⟩
      · rintro ⟨hx, owners', h⟩
        exact ⟨owners', _, ⟨hx, rfl⟩, h⟩
    rw [hcons, ih]
    constructor
    · rintro ⟨hx, hrest, hpairs⟩
      have hsame (y : κ × β) (hy : y ∈ claims) (hk : y.1 = x.1) : x.2 = y.2 :=
        hrest y hy x.2 (by rw [lookup_insert_ite, if_pos hk])
      refine ⟨?_, ?_⟩
      · intro y hy other hother
        rcases mem_cons.mp hy with rfl | hy
        · exact hx other hother
        by_cases hk : y.1 = x.1
        · rw [← hsame y hy hk]
          exact hx other (hk ▸ hother)
        · exact hrest y hy other (by rwa [lookup_insert_ite, if_neg hk])
      · intro y hy z hz hk
        rcases mem_cons.mp hy with rfl | hy' <;> rcases mem_cons.mp hz with rfl | hz'
        · rfl
        · exact hsame z hz' hk.symm
        · exact (hsame y hy' hk).symm
        · exact hpairs y hy' z hz' hk
    · rintro ⟨hfree, hpairs⟩
      refine ⟨hfree x mem_cons_self, ?_, ?_⟩
      · intro y hy other hother
        rw [lookup_insert_ite] at hother
        split at hother
        · next hk =>
          cases hother
          exact hpairs x mem_cons_self y (mem_cons_of_mem x hy) hk.symm
        · exact hfree y (mem_cons_of_mem x hy) other hother
      · intro y hy z hz
        exact hpairs y (mem_cons_of_mem x hy) z (mem_cons_of_mem x hz)

end AnixAgent.Lib.Claims
