import Mathlib

namespace AnixAgent.Lib.ChangeLog

open List

variable {κ β : Type} [DecidableEq κ]

/-- A keyed set and its changes, in order; a change gives a key its new value, or
takes it out. -/
structure History (κ β : Type) where
  start : κ → Option β
  changes : List (κ × Option β)

def History.after (h : History κ β) (n : Nat) : κ → Option β :=
  (h.changes.take n).foldl (fun set change ↦ Function.update set change.1 change.2) h.start

def History.Changed (h : History κ β) (a b : Nat) (k : κ) : Prop :=
  ∃ change ∈ (h.changes.take b).drop a, change.1 = k

theorem History.after_zero (h : History κ β) : h.after 0 = h.start := by
  unfold History.after
  rw [take_zero]
  rfl

theorem foldl_update_of_ne (changes : List (κ × Option β)) (set : κ → Option β) {k : κ}
    (hk : ∀ change ∈ changes, change.1 ≠ k) :
    changes.foldl (fun set change ↦ Function.update set change.1 change.2) set k = set k := by
  induction changes generalizing set with
  | nil => rfl
  | cons change changes ih =>
    rw [foldl_cons, ih _ fun c hc ↦ hk c (mem_cons_of_mem _ hc)]
    exact Function.update_of_ne (hk change mem_cons_self).symm _ _

theorem History.after_eq_of_not_changed (h : History κ β) {a b : Nat} (hab : a ≤ b) {k : κ}
    (hk : ¬ h.Changed a b k) : h.after b k = h.after a k := by
  have hsplit : h.changes.take b = h.changes.take a ++ (h.changes.take b).drop a := by
    have htake : (h.changes.take b).take a = h.changes.take a := by
      rw [take_take, Nat.min_eq_left hab]
    rw [← htake]
    exact (take_append_drop a _).symm
  unfold History.after
  rw [hsplit, foldl_append]
  apply foldl_update_of_ne
  intro change hchange heq
  exact hk ⟨change, hchange, heq⟩

variable {set : κ → Option β}

theorem foldl_update_forall {P : κ → β → Prop} (changes : List (κ × Option β))
    (hchanges : ∀ change ∈ changes, ∀ v, change.2 = some v → P change.1 v)
    (hset : ∀ k v, set k = some v → P k v) (k : κ) (v : β)
    (hv : changes.foldl (fun set change ↦ Function.update set change.1 change.2) set k = some v) :
    P k v := by
  induction changes generalizing set with
  | nil => exact hset k v hv
  | cons change changes ih =>
    refine ih (fun c hc ↦ hchanges c (mem_cons_of_mem _ hc)) ?_ hv
    intro k v hk
    dsimp only at hk
    by_cases heq : k = change.1
    · rw [heq, Function.update_self] at hk
      rw [heq]
      exact hchanges change mem_cons_self v hk
    · rw [Function.update_of_ne heq] at hk
      exact hset k v hk

variable {h : History κ β}

/-- What holds of the first values and of every change holds at every point. -/
theorem History.after_forall {P : κ → β → Prop} (hstart : ∀ k v, h.start k = some v → P k v)
    (hchanges : ∀ change ∈ h.changes, ∀ v, change.2 = some v → P change.1 v) (n : Nat) {k : κ}
    {v : β} (hv : h.after n k = some v) : P k v := by
  refine foldl_update_forall (h.changes.take n) ?_ hstart k v hv
  exact fun change hchange ↦ hchanges change (mem_of_mem_take hchange)

/-- A message that brings a copy to `cursor`: what it says of the keys it names, and
whether the others are out of the set or as before. -/
structure Delta (κ β : Type) where
  whole : Bool
  cursor : Nat
  entry : κ → Option (Option β)

def Delta.apply (d : Delta κ β) (set : κ → Option β) : κ → Option β :=
  fun k ↦ (d.entry k).getD (if d.whole then none else set k)

def Holds (h : History κ β) (position : Option Nat) (set : κ → Option β) : Prop :=
  match position with
  | none => ∀ k, set k = none
  | some n => set = h.after n

/-- The delta can be applied to a copy at `position`: it says what the history says,
goes forward, and names every key that is in the set, or every key that was changed
since some point the copy is past. -/
structure Fits (h : History κ β) (position : Option Nat) (d : Delta κ β) : Prop where
  truth : ∀ k v, d.entry k = some v → h.after d.cursor k = v
  forward : ∀ n, position = some n → n ≤ d.cursor
  complete : if d.whole then ∀ k, d.entry k = none → h.after d.cursor k = none
    else ∃ a, (∀ k, d.entry k = none → ¬ h.Changed a d.cursor k) ∧
      match position with
      | none => a = 0 ∧ ∀ k, h.start k = none
      | some n => a ≤ n

variable {position : Option Nat} {d : Delta κ β}

theorem Fits.apply_whole (hd : Fits h position d) (hwhole : d.whole) (set : κ → Option β) :
    d.apply set = h.after d.cursor := by
  have hcomplete := hd.complete
  rw [if_pos hwhole] at hcomplete
  funext k
  unfold Delta.apply
  cases hentry : d.entry k with
  | none =>
    rw [hcomplete k hentry, hwhole]
    rfl
  | some v => exact (hd.truth k v hentry).symm

theorem Fits.apply (hd : Fits h position d) (hset : Holds h position set) :
    d.apply set = h.after d.cursor := by
  cases hwhole : d.whole with
  | true => exact hd.apply_whole hwhole set
  | false =>
    have hcomplete := hd.complete
    rw [hwhole] at hcomplete
    obtain ⟨a, hunchanged, hbehind⟩ := hcomplete
    funext k
    unfold Delta.apply
    cases hentry : d.entry k with
    | some v => exact (hd.truth k v hentry).symm
    | none =>
      have hk := hunchanged k hentry
      rw [hwhole]
      show set k = h.after d.cursor k
      cases position with
      | none =>
        obtain ⟨rfl, hempty⟩ := hbehind
        rw [h.after_eq_of_not_changed (Nat.zero_le _) hk, h.after_zero, hempty k]
        exact hset k
      | some n =>
        have hn : ¬ h.Changed n d.cursor k := by
          rintro ⟨change, hchange, heq⟩
          refine hk ⟨change, ?_, heq⟩
          have hsub : (h.changes.take d.cursor).drop n ⊆ (h.changes.take d.cursor).drop a := by
            rw [show n = a + (n - a) by have : a ≤ n := hbehind; omega, ← drop_drop]
            exact drop_subset _ _
          exact hsub hchange
        rw [h.after_eq_of_not_changed (hd.forward n rfl) hn]
        exact congrFun hset k

/-- The copy was brought to a position, and the delta now fits there. -/
theorem Fits.advance (hd : Fits h none d) {n : Nat} (hn : n ≤ d.cursor) : Fits h (some n) d := by
  refine ⟨hd.truth, ?_, ?_⟩
  · rintro _ ⟨⟩
    exact hn
  have hcomplete := hd.complete
  split at hcomplete
  · next hwhole =>
    rw [if_pos hwhole]
    exact hcomplete
  next hwhole =>
  rw [if_neg hwhole]
  obtain ⟨a, hunchanged, rfl, -⟩ := hcomplete
  exact ⟨0, hunchanged, Nat.zero_le n⟩

def Line (h : History κ β) : Option Nat → List (Delta κ β) → Prop
  | _, [] => True
  | position, d :: ds => Fits h position d ∧ Line h (some d.cursor) ds

def target : Option Nat → List (Delta κ β) → Option Nat
  | position, [] => position
  | _, d :: ds => target (some d.cursor) ds

omit [DecidableEq κ] in
theorem target_append (position : Option Nat) (ds es : List (Delta κ β)) :
    target position (ds ++ es) = target (target position ds) es := by
  induction ds generalizing position with
  | nil => rfl
  | cons d ds ih => exact ih (some d.cursor)

variable {ds : List (Delta κ β)}

theorem line_append {es : List (Delta κ β)} :
    Line h position (ds ++ es) ↔ Line h position ds ∧ Line h (target position ds) es := by
  induction ds generalizing position with
  | nil => exact ⟨fun hes ↦ ⟨trivial, hes⟩, And.right⟩
  | cons d ds ih =>
    refine ⟨fun ⟨hd, hrest⟩ ↦ ?_, fun ⟨⟨hd, hds⟩, hes⟩ ↦ ⟨hd, ih.mpr ⟨hds, hes⟩⟩⟩
    obtain ⟨hds, hes⟩ := ih.mp hrest
    exact ⟨⟨hd, hds⟩, hes⟩

theorem Line.holds (hline : Line h position ds) (hset : Holds h position set) :
    Holds h (target position ds) (ds.foldl (fun set d ↦ d.apply set) set) := by
  induction ds generalizing position set with
  | nil => exact hset
  | cons d ds ih => exact ih hline.2 (hline.1.apply hset)

theorem Line.forward (hline : Line h position ds) {n : Nat} (hn : position = some n) :
    ∃ m, target position ds = some m ∧ n ≤ m := by
  induction ds generalizing position n with
  | nil => exact ⟨n, hn, Nat.le_refl n⟩
  | cons d ds ih =>
    obtain ⟨m, hm, hle⟩ := ih hline.2 rfl
    exact ⟨m, hm, Nat.le_trans (hline.1.forward n hn) hle⟩

theorem Line.advance (hline : Line h none ds) {n : Nat}
    (hn : ∀ d ∈ ds, n ≤ d.cursor) : Line h (some n) ds := by
  cases ds with
  | nil => trivial
  | cons d ds => exact ⟨hline.1.advance (hn d mem_cons_self), hline.2⟩

end AnixAgent.Lib.ChangeLog
