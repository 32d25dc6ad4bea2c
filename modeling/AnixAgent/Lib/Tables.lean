import Mathlib

namespace AnixAgent.Lib.Tables

open List Option

variable {κ β : Type} [DecidableEq κ]

abbrev Table (κ β : Type) := AList (fun _ : κ ↦ β)

@[grind =] theorem lookup_insert_ite (t : Table κ β) (k k' : κ) (b : β) :
    (t.insert k b).lookup k' = if k' = k then some b else t.lookup k' := by
  split
  · next h => subst h; exact AList.lookup_insert t
  · next h => exact AList.lookup_insert_ne h

@[grind =] theorem lookup_erase_ite (t : Table κ β) (k k' : κ) :
    (t.erase k).lookup k' = if k' = k then none else t.lookup k' := by
  split
  · next h => subst h; exact AList.lookup_erase _ t
  · next h => exact AList.lookup_erase_ne h

theorem lookup_erase_le {t : Table κ β} {k k' : κ} {b : β}
    (h : (t.erase k).lookup k' = some b) : t.lookup k' = some b := by
  rw [lookup_erase_ite] at h
  split at h
  · cases h
  · exact h

/-- `delete(t, k)` guarded by `t[k] == b`. -/
def eraseIf [DecidableEq β] (t : Table κ β) (k : κ) (b : β) : Table κ β :=
  if t.lookup k = some b then t.erase k else t

@[grind =] theorem lookup_eraseIf [DecidableEq β] (t : Table κ β) (k k' : κ) (b : β) :
    (eraseIf t k b).lookup k' =
      if k' = k ∧ t.lookup k = some b then none else t.lookup k' := by
  unfold eraseIf
  by_cases hb : t.lookup k = some b
  · rw [if_pos hb, lookup_erase_ite]
    simp only [hb, and_true]
  · rw [if_neg hb, if_neg fun h ↦ hb h.2]

omit [DecidableEq κ] in
theorem keys_map_snd {γ : Type} (f : β → γ) (l : List (Sigma fun _ : κ ↦ β)) :
    (l.map fun x ↦ (⟨x.1, f x.2⟩ : Sigma fun _ : κ ↦ γ)).keys = l.keys := by
  simp [keys, Function.comp_def]

def mapValues {γ : Type} (f : β → γ) (t : Table κ β) : Table κ γ where
  entries := t.entries.map fun x ↦ ⟨x.1, f x.2⟩
  nodupKeys := by
    have hkeys := t.nodupKeys
    unfold List.NodupKeys at hkeys ⊢
    rwa [keys_map_snd]

theorem lookup_mapValues {γ : Type} (f : β → γ) (t : Table κ β) (k : κ) :
    (mapValues f t).lookup k = (t.lookup k).map f := by
  have hlookup (l : List (Sigma fun _ : κ ↦ β)) :
      (l.map fun x ↦ (⟨x.1, f x.2⟩ : Sigma fun _ : κ ↦ γ)).dlookup k = (l.dlookup k).map f := by
    induction l with
    | nil => rfl
    | cons x rest ih =>
      obtain ⟨k', b⟩ := x
      by_cases hk : k = k'
      · subst hk
        simp only [map_cons, dlookup_cons_eq, map_some]
      · rw [map_cons, dlookup_cons_ne _ _ hk, dlookup_cons_ne _ _ hk, ih]
  exact hlookup t.entries

def count (p : β → Bool) (t : Table κ β) : Nat := t.entries.countP fun x ↦ p x.2

omit [DecidableEq κ] in
theorem entries_nodup (t : Table κ β) : t.entries.Nodup := t.nodupKeys.nodup

theorem count_mono {p q : β → Bool} {t t' : Table κ β}
    (h : ∀ k b, t.lookup k = some b → p b → ∃ b', t'.lookup k = some b' ∧ q b') :
    count p t ≤ count q t' := by
  have hnodup : ((t.entries.filter fun x ↦ p x.2).map Sigma.fst).Nodup :=
    Nodup.sublist ((filter_sublist).map _) t.nodupKeys
  have hsubset : (t.entries.filter fun x ↦ p x.2).map Sigma.fst ⊆
      (t'.entries.filter fun x ↦ q x.2).map Sigma.fst := by
    intro k hk
    obtain ⟨x, hx, rfl⟩ := mem_map.mp hk
    obtain ⟨hmem, hp⟩ := mem_filter.mp hx
    obtain ⟨b, hb, hq⟩ := h x.1 x.2 (AList.mem_lookup_iff.mpr hmem) hp
    exact mem_map.mpr ⟨⟨x.1, b⟩, mem_filter.mpr ⟨AList.mem_lookup_iff.mp hb, hq⟩, rfl⟩
  have hlength := (subperm_of_subset hnodup hsubset).length_le
  rw [length_map, length_map] at hlength
  unfold count
  rw [countP_eq_length_filter, countP_eq_length_filter]
  exact hlength

theorem count_erase_le (p : β → Bool) (t : Table κ β) (k : κ) : count p (t.erase k) ≤ count p t :=
  count_mono fun _ b h hp ↦ ⟨b, lookup_erase_le h, hp⟩

theorem count_insert_le (p : β → Bool) (t : Table κ β) (k : κ) (b : β) :
    count p (t.insert k b) ≤ count p t + 1 := by
  have herase := count_erase_le p t k
  have hentries : (t.insert k b).entries = ⟨k, b⟩ :: (t.erase k).entries := rfl
  unfold count at herase ⊢
  rw [hentries, countP_cons]
  split <;> omega

section Index

variable {α : Type} (f : α → κ) (g : α → β)

/-- The value of the last entry for each key. -/
def index (l : List α) : Table κ β := l.foldl (fun t x ↦ t.insert (f x) (g x)) ∅

theorem index_append_singleton (l : List α) (x : α) :
    index f g (l ++ [x]) = (index f g l).insert (f x) (g x) := by
  simp only [index, foldl_append, foldl_cons, foldl_nil]

theorem lookup_foldl_insert (l : List α) (t : Table κ β) (k : κ) :
    (l.foldl (fun t x ↦ t.insert (f x) (g x)) t).lookup k =
      ((index f g l).lookup k).or (t.lookup k) := by
  induction l using reverseRecOn with
  | nil => rfl
  | append_singleton l x ih =>
    rw [index_append_singleton, foldl_append, foldl_cons, foldl_nil,
      lookup_insert_ite, lookup_insert_ite, ih]
    split <;> rfl

variable {f g}

theorem exists_of_lookup_index {l : List α} {k : κ} {b : β}
    (h : (index f g l).lookup k = some b) : ∃ x ∈ l, f x = k ∧ g x = b := by
  induction l using reverseRecOn with
  | nil => cases h
  | append_singleton l x ih =>
    rw [index_append_singleton, lookup_insert_ite] at h
    split at h
    · next hk =>
      cases h
      exact ⟨x, by simp, hk.symm, rfl⟩
    · obtain ⟨y, hy, hfg⟩ := ih h
      exact ⟨y, mem_append_left _ hy, hfg⟩

theorem lookup_index_ne_none {l : List α} {x : α} (h : x ∈ l) :
    (index f g l).lookup (f x) ≠ none := by
  induction l using reverseRecOn with
  | nil => cases h
  | append_singleton l y ih =>
    rw [index_append_singleton, lookup_insert_ite]
    split
    · nofun
    next hne =>
    rw [mem_append, mem_singleton] at h
    rcases h with h | rfl
    · exact ih h
    · exact absurd rfl hne

theorem lookup_index_of_unique {l : List α} {x : α} (h : x ∈ l)
    (hunique : ∀ y ∈ l, f y = f x → g y = g x) : (index f g l).lookup (f x) = some (g x) := by
  obtain ⟨b, hb⟩ := ne_none_iff_exists'.mp (lookup_index_ne_none (f := f) (g := g) h)
  obtain ⟨y, hy, hf, hg⟩ := exists_of_lookup_index hb
  rw [hb, ← hg, hunique y hy hf]

theorem lookup_index_iff {l : List α} {k : κ} {b : β}
    (hunique : ∀ x ∈ l, ∀ y ∈ l, f x = f y → g x = g y) :
    (index f g l).lookup k = some b ↔ ∃ x ∈ l, f x = k ∧ g x = b := by
  constructor
  · exact exists_of_lookup_index
  · rintro ⟨x, hx, rfl, rfl⟩
    exact lookup_index_of_unique hx fun y hy ↦ hunique y hy x hx

theorem lookup_index_eq_none {l : List α} {k : κ} :
    (index f g l).lookup k = none ↔ ∀ x ∈ l, f x ≠ k := by
  constructor
  · rintro h x hx rfl
    exact lookup_index_ne_none hx h
  intro h
  refine eq_none_iff_forall_ne_some.mpr fun b hb ↦ ?_
  obtain ⟨x, hx, hk, -⟩ := exists_of_lookup_index hb
  exact h x hx hk

/-- Entries that do not replace: the value of the first entry for each key that is new. -/
theorem lookup_foldl_insertNew (l : List α) (t : Table κ β) (k : κ) :
    (l.foldl (fun t x ↦ if (t.lookup (f x)).isSome then t else t.insert (f x) (g x)) t).lookup k =
      (t.lookup k).or ((l.find? (f · = k)).map g) := by
  induction l generalizing t with
  | nil => simp
  | cons x l ih =>
    rw [foldl_cons, ih, find?_cons]
    by_cases hx : f x = k
    · subst hx
      cases h : t.lookup (f x) with
      | some b => simp [h]
      | none => simp
    · have hkept : (if (t.lookup (f x)).isSome then t else t.insert (f x) (g x)).lookup k =
          t.lookup k := by
        split
        · rfl
        · rw [lookup_insert_ite, if_neg (Ne.symm hx)]
      simp [hkept, hx]

end Index

theorem lookup_foldl_erase (l : List κ) (t : Table κ β) (k : κ) :
    (l.foldl (fun t x ↦ t.erase x) t).lookup k = if k ∈ l then none else t.lookup k := by
  induction l generalizing t with
  | nil => rfl
  | cons x l ih =>
    rw [foldl_cons, ih, lookup_erase_ite]
    by_cases hx : k = x
    · simp [hx]
    · simp [hx]

end AnixAgent.Lib.Tables
