import Mathlib

namespace AnixAgent.Lib.Windows

open List

variable {T : Type} [AddCommGroup T] [LinearOrder T] [IsOrderedAddMonoid T]

def recent (w now : T) (l : List T) : List T := l.filter fun t ↦ now - w < t

def window (w t : T) (l : List T) : List T := l.filter fun x ↦ t - w < x ∧ x ≤ t

/-- A budget of `limit` grants per window that remembers the times in `kept`: it has not
forgotten a grant that still counts at `last`, and no window holds too many of them. -/
structure Kept (w : T) (limit : Nat) (last : T) (kept granted : List T) : Prop where
  past : ∀ t ∈ granted, t ≤ last
  covers : (recent w last granted).Sublist kept
  bounded : ∀ t, (window w t granted).length ≤ limit

variable {w last now : T} {limit : Nat} {kept granted : List T}

omit [IsOrderedAddMonoid T] in
theorem Kept.empty (kept : List T) : Kept w limit last kept [] :=
  ⟨by simp, nil_sublist _, by simp [window]⟩

theorem recent_recent (h : last ≤ now) (l : List T) :
    recent w now (recent w last l) = recent w now l := by
  unfold recent
  rw [filter_filter]
  refine filter_congr fun t _ ↦ ?_
  have hle : last - w ≤ now - w := sub_le_sub_right h w
  simp only [← Bool.decide_and, decide_eq_decide]
  exact ⟨fun ht ↦ ht.1, fun ht ↦ ⟨ht, hle.trans_lt ht⟩⟩

/-- Time passes, and the budget forgets what no longer counts. -/
theorem Kept.pass (h : Kept w limit last kept granted) (hle : last ≤ now) :
    Kept w limit now (recent w now kept) granted where
  past := fun t ht ↦ (h.past t ht).trans hle
  covers := by
    rw [← recent_recent hle]
    exact h.covers.filter _
  bounded := h.bounded

omit [IsOrderedAddMonoid T] in
/-- A time may be remembered that was not granted. -/
theorem Kept.remember (h : Kept w limit last kept granted) (t : T) :
    Kept w limit last (kept ++ [t]) granted :=
  ⟨h.past, h.covers.trans (sublist_append_left _ _), h.bounded⟩

theorem window_sublist_recent {t : T} (h : now ≤ t) (l : List T) :
    (window w t l).Sublist (recent w now l) := by
  refine monotone_filter_right l fun x hx ↦ ?_
  simp only [decide_eq_true_eq] at hx ⊢
  exact (sub_le_sub_right h w).trans_lt hx.1

theorem Kept.grant (h : Kept w limit now kept granted) (hroom : kept.length < limit) :
    Kept w limit now (kept ++ [now]) (granted ++ [now]) where
  past := by
    intro t ht
    rcases mem_append.mp ht with ht | ht
    · exact h.past t ht
    · exact (mem_singleton.mp ht).le
  covers := by
    unfold recent
    rw [filter_append]
    exact h.covers.append (filter_sublist)
  bounded := by
    intro t
    have happend : (window w t (granted ++ [now])).length =
        (window w t granted).length + (window w t [now]).length := by
      simp [window, filter_append]
    by_cases hle : now ≤ t
    · have hold := ((window_sublist_recent hle granted).trans h.covers).length_le
      have hnew : (window w t [now]).length ≤ 1 := length_filter_le _ _
      omega
    · have hnew : window w t [now] = [] := by simp [window, hle]
      rw [happend, hnew, length_nil, Nat.add_zero]
      exact h.bounded t

end AnixAgent.Lib.Windows
