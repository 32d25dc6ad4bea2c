import AnixAgent.Lib.Runs

namespace AnixAgent.Plugins.Gate

open Lib.Runs List

/-- A `beginClose` call: it waits on the idle channel that it read, or has returned. -/
inductive Closer
  | waiting (idle : Option Nat)
  | returned (ok : Bool)
  deriving DecidableEq

/-- The fields of `lifecycleGate`, the channels that were closed, each numbered by those closed
before it, and for each admission whether its release function has run. -/
structure State where
  closing : Bool
  active : Int
  idle : Option Nat
  closed : List Nat
  admissions : List Bool
  closers : List Closer
  deriving DecidableEq

inductive Action
  | enter (expired : Bool)
  | release (i : Nat)
  | beginClose
  | woken (i : Nat)
  | expire (i : Nat)

def newLifecycleGate : State := ⟨false, 0, none, [], [], []⟩

def enter (s : State) (expired : Bool) : State :=
  if expired then s
  else if s.closing then s
  else { s with
    idle := if s.active = 0 then some s.closed.length else s.idle
    active := s.active + 1
    admissions := s.admissions ++ [false] }

def leave (s : State) : State :=
  if s.active = 0 then s
  else match s.idle with
    | some c =>
      if s.active - 1 = 0 then
        { s with active := s.active - 1, idle := none, closed := c :: s.closed }
      else { s with active := s.active - 1 }
    | none => { s with active := s.active - 1 }

def beginClose (s : State) : State := { s with
  closing := true
  closers := s.closers ++ [if s.active = 0 then .returned true else .waiting s.idle] }

def step (s : State) : Action → Option State
  | .enter expired => some (enter s expired)
  | .release i => match s.admissions[i]? with
    | none => none
    | some true => some s
    | some false => some (leave { s with admissions := s.admissions.set i true })
  | .beginClose => some (beginClose s)
  | .woken i => match s.closers[i]? with
    | some (.waiting (some c)) =>
      if c ∈ s.closed then some { s with closers := s.closers.set i (.returned true) } else none
    | _ => none
  | .expire i => match s.closers[i]? with
    | some (.waiting _) => some { s with closers := s.closers.set i (.returned false) }
    | _ => none

/-- The channel of the busy period is open, and a closer whose channel is closed finds the gate
drained. -/
structure Inv (s : State) : Prop where
  counted : s.active = s.admissions.count false
  channels : ∀ c ∈ s.closed, c < s.closed.length
  current : s.active ≠ 0 → s.idle = some s.closed.length
  closing : s.closers ≠ [] → s.closing = true
  woken : ∀ c, .waiting (some c) ∈ s.closers → c ∈ s.closed → s.active = 0
  drained : .returned true ∈ s.closers → s.active = 0

variable {s t : State} {a : Action}

theorem inv_enter (h : Inv s) (expired : Bool) : Inv (enter s expired) := by
  unfold enter
  split
  · exact h
  split
  · exact h
  next hopen =>
  have hnone : s.closers = [] := by
    by_contra hne
    exact hopen (h.closing hne)
  refine ⟨by simp [h.counted], h.channels, fun _ ↦ ?_, by simp [hnone], by simp [hnone],
    by simp [hnone]⟩
  split
  · rfl
  · next hbusy => exact h.current hbusy

theorem inv_release {i : Nat} (h : Inv s) (hi : s.admissions[i]? = some false) :
    Inv (leave { s with admissions := s.admissions.set i true }) := by
  obtain ⟨hlt, hfalse⟩ := List.getElem?_eq_some_iff.mp hi
  have hpos : 0 < s.admissions.count false := count_pos_iff.mpr (hfalse ▸ getElem_mem hlt)
  have hbusy : s.active ≠ 0 := by
    rw [h.counted]
    omega
  have hcount : s.active - 1 = (s.admissions.set i true).count false := by
    rw [count_set hlt, h.counted]
    simp [hfalse]
    omega
  simp only [leave, hbusy, if_false, h.current hbusy]
  split
  · next hzero =>
    exact ⟨hcount, by simpa using fun c hc ↦ (h.channels c hc).trans (Nat.lt_succ_self _),
      fun hne ↦ absurd hzero hne, h.closing, fun _ _ _ ↦ hzero, fun _ ↦ hzero⟩
  · exact ⟨hcount, h.channels, fun _ ↦ rfl, h.closing,
      fun c hc hclosed ↦ absurd (h.woken c hc hclosed) hbusy, fun hc ↦ absurd (h.drained hc) hbusy⟩

/-- The closer `x` is new: it waits on an open channel, or the gate is drained. -/
theorem inv_closers {closing : Bool} {closers : List Closer} {x : Closer} (h : Inv s)
    (hclosing : closing = true) (hsub : ∀ y ∈ closers, y ∈ s.closers ∨ y = x)
    (hwoken : ∀ c, x = .waiting (some c) → c ∈ s.closed → s.active = 0)
    (hdrained : x = .returned true → s.active = 0) :
    Inv { s with closing := closing, closers := closers } := by
  refine ⟨h.counted, h.channels, h.current, fun _ ↦ hclosing, fun c hc hclosed ↦ ?_, fun hc ↦ ?_⟩
  · rcases hsub _ hc with hc | hc
    · exact h.woken c hc hclosed
    · exact hwoken c hc.symm hclosed
  · rcases hsub _ hc with hc | hc
    · exact h.drained hc
    · exact hdrained hc.symm

theorem inv_beginClose (h : Inv s) : Inv (beginClose s) := by
  refine inv_closers h rfl (fun y hy ↦ by simpa using hy) (fun c hc hclosed ↦ ?_) fun hok ↦ ?_
  · split at hc
    · assumption
    · next hbusy =>
      rw [h.current hbusy] at hc
      cases hc
      exact absurd (h.channels _ hclosed) (lt_irrefl _)
  · split at hok
    · assumption
    · cases hok

theorem inv_step (h : Inv s) (hstep : step s a = some t) : Inv t := by
  cases a with
  | enter expired => cases hstep; exact inv_enter h expired
  | release i =>
    simp only [step] at hstep
    split at hstep
    · cases hstep
    · cases hstep
      exact h
    · next hi =>
      cases hstep
      exact inv_release h hi
  | beginClose => cases hstep; exact inv_beginClose h
  | woken i =>
    simp only [step] at hstep
    split at hstep
    · next c hi =>
      obtain ⟨hclosed, ⟨⟩⟩ := Option.ite_none_right_eq_some.mp hstep
      have hmem := mem_of_getElem? hi
      exact inv_closers h (h.closing (ne_nil_of_mem hmem)) (fun _ ↦ mem_or_eq_of_mem_set)
        nofun fun _ ↦ h.woken c hmem hclosed
    · cases hstep
  | expire i =>
    simp only [step] at hstep
    split at hstep
    · next hi =>
      cases hstep
      exact inv_closers h (h.closing (ne_nil_of_mem (mem_of_getElem? hi)))
        (fun _ ↦ mem_or_eq_of_mem_set) nofun nofun
    · cases hstep

/-- The gate is closing: since `s` nothing was admitted, and when it was drained it still is. -/
structure Closes (s t : State) : Prop where
  closing : t.closing = true
  admissions : t.admissions.length = s.admissions.length
  drained : s.active = 0 → t.active = 0

theorem closes_step (h : s.closing = true) (hstep : step s a = some t) : Closes s t := by
  cases a <;> constructor <;> grind [step, enter, leave, beginClose]

/-- Over every interleaving the active count is that of the admissions that are not released, no
operation is admitted once a `beginClose` has begun, and once one has returned nil none is active
any more. -/
theorem gate_closes (h : Steps step newLifecycleGate s) (h' : Steps step s t) :
    s.active = s.admissions.count false ∧ 0 ≤ s.active ∧
      (s.closers ≠ [] → t.admissions.length = s.admissions.length) ∧
      (.returned true ∈ s.closers → t.active = 0 ∧ false ∉ t.admissions) := by
  have hs : Inv s := h.invariant ⟨rfl, nofun, nofun, nofun, nofun, nofun⟩
    fun _ _ _ hi _ hstep ↦ inv_step hi hstep
  have ht : Inv t := h'.invariant hs fun _ _ _ hi _ hstep ↦ inv_step hi hstep
  have hcloses (hne : s.closers ≠ []) : Closes s t := by
    refine h'.invariant (I := Closes s) ⟨hs.closing hne, rfl, id⟩ fun _ _ _ hi _ hstep ↦ ?_
    have hnext := closes_step hi.closing hstep
    exact ⟨hnext.closing, hnext.admissions.trans hi.admissions, hnext.drained ∘ hi.drained⟩
  refine ⟨hs.counted, hs.counted ▸ Int.natCast_nonneg _, fun hne ↦ (hcloses hne).admissions,
    fun hnil ↦ ?_⟩
  have hzero := (hcloses (ne_nil_of_mem hnil)).drained (hs.drained hnil)
  exact ⟨hzero, count_eq_zero.mp (Int.ofNat_eq_zero.mp (ht.counted.symm.trans hzero))⟩

/-- Two operations, of which one is released twice; the closer that waits is woken. -/
theorem gate_closes_woken : ∃ s : State, Steps step newLifecycleGate s ∧ s.active = 0 ∧
    false ∉ s.admissions := by
  obtain ⟨s, h, hnil⟩ : ∃ s, Steps step newLifecycleGate s ∧ .returned true ∈ s.closers :=
    exists_steps [.enter false, .enter false, .release 0, .beginClose, .release 0, .release 1,
      .woken 0] _ (by decide)
  exact ⟨s, h, (gate_closes h .refl).2.2.2 hnil⟩

end AnixAgent.Plugins.Gate
