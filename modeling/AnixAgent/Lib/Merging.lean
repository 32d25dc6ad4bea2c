import AnixAgent.Lib.Tables

namespace AnixAgent.Lib.Merging

open Tables List Option

/- Elements that go into a slice, one slot for each key, found through an index of the slots. -/
variable {ε κ σ : Type} [DecidableEq κ] (key : ε → Option κ) (fresh : ε → σ) (add : ε → σ → σ)

def mergeStep (acc : Table κ Nat × List σ) (e : ε) : Table κ Nat × List σ :=
  match key e with
  | none => acc
  | some k =>
    match acc.1.lookup k with
    | some i => (acc.1, acc.2.modify i (add e))
    | none => (acc.1.insert k acc.2.length, acc.2 ++ [fresh e])

def merge (es : List ε) : Table κ Nat × List σ := es.foldl (mergeStep key fresh add) (∅, [])

/-- The sum over the elements with a property. -/
def total {β : Type} (p : β → Prop) [DecidablePred p] (f : β → Int) (l : List β) : Int :=
  (l.map fun x ↦ if p x then f x else 0).sum

/-- The index has exactly the slots. -/
def Indexed (keyOf : σ → κ) (acc : Table κ Nat × List σ) : Prop :=
  ∀ (k : κ) (i : Nat), acc.1.lookup k = some i ↔ acc.2[i]?.map keyOf = some k

variable {key fresh add} {keyOf : σ → κ} {acc : Table κ Nat × List σ} {es : List ε}

theorem Indexed.nodup (h : Indexed keyOf acc) : (acc.2.map keyOf).Nodup := by
  rw [nodup_iff_getElem?_ne_getElem?]
  intro i j hij hj heq
  rw [getElem?_map, getElem?_map] at heq
  have hi : i < acc.2.length := by rw [length_map] at hj; omega
  have hslot : acc.2[i]?.map keyOf = some (keyOf (acc.2[i])) := by
    rw [getElem?_eq_getElem hi, map_some]
  have hsame := ((h _ i).mpr hslot).symm.trans ((h _ j).mpr (heq ▸ hslot))
  exact absurd (Option.some.inj hsame) (by omega)

variable (hfresh : ∀ e, ∀ k ∈ key e, keyOf (fresh e) = k) (hadd : ∀ e v, keyOf (add e v) = keyOf v)

include hfresh hadd

theorem Indexed.mergeStep (h : Indexed keyOf acc) (e : ε) :
    Indexed keyOf (mergeStep key fresh add acc e) := by
  unfold Merging.mergeStep
  split
  · exact h
  next k hk =>
  split
  · intro k' i
    rw [h k' i, getElem?_modify]
    split <;> cases acc.2[i]? <;> simp [hadd]
  next hnone =>
  intro k' i
  have hk' := hfresh e k hk
  rw [lookup_insert_ite, getElem?_append]
  split
  · next heq =>
    have := h k i
    grind
  · next hne =>
    have := h k' i
    grind

theorem indexed_merge (es : List ε) : Indexed keyOf (merge key fresh add es) := by
  induction es using reverseRecOn with
  | nil => intro k i; simp [merge]
  | append_singleton es e ih =>
    rw [merge, foldl_append]
    exact ih.mergeStep hfresh hadd e

omit hfresh hadd in
theorem sum_modify (w : σ → Int) {f : σ → σ} {n : Int} (l : List σ) : ∀ i : Nat,
    (∀ v ∈ l[i]?, w (f v) = w v + n) → i < l.length →
    ((l.modify i f).map w).sum = (l.map w).sum + n := by
  induction l with
  | nil => intro i _ hi; cases hi
  | cons v l ih =>
    intro i hf hi
    cases i with
    | zero => simp [hf v rfl]; ring
    | succ i =>
      have := ih i (by simpa using hf) (by simpa using hi)
      simp [this]; ring

variable (keyOf) in
/-- What is counted of the elements is counted of the slots. -/
theorem sum_merge (w : σ → Int) (a : ε → Int) : ∀ es : List ε,
    (∀ e ∈ es, key e = none → a e = 0) → (∀ e ∈ es, (key e).isSome → w (fresh e) = a e) →
    (∀ e ∈ es, ∀ v, key e = some (keyOf v) → w (add e v) = w v + a e) →
    ((merge key fresh add es).2.map w).sum = (es.map a).sum := by
  intro es
  induction es using reverseRecOn with
  | nil => intro _ _ _; rfl
  | append_singleton es e ih =>
    intro hnone hone hmore
    have hes := ih (fun x hx ↦ hnone x (by simp [hx])) (fun x hx ↦ hone x (by simp [hx]))
      (fun x hx ↦ hmore x (by simp [hx]))
    have hindexed := indexed_merge hfresh hadd es
    rw [merge, foldl_append, map_append, sum_append, ← hes]
    change ((mergeStep key fresh add (merge key fresh add es) e).2.map w).sum = _
    unfold mergeStep
    split
    · next hk => simp [hnone e (by simp) hk]
    next k hk =>
    split
    · next i hi =>
      have hslot := (hindexed k i).mp hi
      obtain ⟨v, hv, hkey⟩ := map_eq_some_iff.mp hslot
      rw [sum_modify w _ i _ (List.getElem?_eq_some_iff.mp hv).1, map_singleton, sum_singleton]
      intro u hu
      cases hv.symm.trans hu
      exact hmore e (by simp) v (hkey ▸ hk)
    · simp [hone e (by simp) (by simp [hk])]

theorem total_merge {p : σ → Prop} {q : ε → Prop} [DecidablePred p] [DecidablePred q]
    {f : σ → Int} {g : ε → Int} (hp : ∀ e v, p (add e v) ↔ p v)
    (hq : ∀ e v, key e = some (keyOf v) → (q e ↔ p v))
    (hnone : ∀ e ∈ es, key e = none → q e → g e = 0) (hone : ∀ e ∈ es, f (fresh e) = g e)
    (hmore : ∀ e ∈ es, ∀ v, f (add e v) = f v + g e) :
    total p f (merge key fresh add es).2 = total q g es := by
  apply sum_merge keyOf hfresh hadd
  · intro e he hk
    split
    · next h => exact hnone e he hk h
    · rfl
  · intro e he hk
    obtain ⟨k, hk⟩ := isSome_iff_exists.mp hk
    simp only [hq e (fresh e) (by rw [hfresh e k hk, hk]), hone e he]
  · intro e he v hk
    simp only [hp, hq e v hk]
    split
    · exact hmore e he v
    · rfl

end AnixAgent.Lib.Merging
