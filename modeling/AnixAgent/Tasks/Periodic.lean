import AnixAgent.Lib.Runs

namespace AnixAgent.Tasks.Periodic

open Lib.Runs List

/-- Where the goroutine of a loop stands. `failed` is after an `Execute` that returned an error,
before the lock, and `reading` before the channels of the select are evaluated. -/
inductive Place
  | spawned (first : Bool)
  | executing
  | failed
  | reading
  | selecting (stop : Nat)
  | done
  deriving DecidableEq

/-- A `Task` with the goroutines that it started. The stop channels are numbered as they are
made; `calls` is the loop of each call of `Execute`. -/
structure Task where
  running : Bool
  stop : Option Nat
  channels : Nat
  closed : List Nat
  loops : List Place
  calls : List Nat
  panicked : Bool
  deriving DecidableEq

def initial : Task := ⟨false, none, 0, [], [], [], false⟩

def Task.closeStop (t : Task) : Task :=
  match t.stop with
  | none => { t with panicked := true }
  | some c =>
    if c ∈ t.closed then { t with panicked := true } else { t with closed := c :: t.closed }

def Task.start (t : Task) (first : Bool) : Task :=
  if t.running then t
  else
    { t with
      running := true
      stop := some t.channels
      channels := t.channels + 1
      loops := t.loops ++ [.spawned first] }

def Task.close (t : Task) : Task :=
  if t.running then { t with running := false }.closeStop else t

def Task.place (t : Task) (i : Nat) (p : Place) : Task := { t with loops := t.loops.set i p }

def Task.call (t : Task) (i : Nat) : Task :=
  { t.place i .executing with calls := t.calls ++ [i] }

/-- `Start` and `Close` by anyone, and the steps of the loops. -/
inductive Action
  | start (first : Bool)
  | close
  | proceed (i : Nat)
  | returns (i : Nat) (ok : Bool)
  | fail (i : Nat)
  | read (i : Nat)
  | fire (i : Nat)
  | leave (i : Nat)
  deriving DecidableEq

def step (t : Task) (a : Action) : Option Task :=
  if t.panicked then none
  else match a with
    | .start first => some (t.start first)
    | .close => some t.close
    | .proceed i =>
      match t.loops[i]? with
      | some (.spawned true) => some (t.call i)
      | some (.spawned false) => some (t.place i .reading)
      | _ => none
    | .returns i ok =>
      match t.loops[i]? with
      | some .executing => some (t.place i (if ok then .reading else .failed))
      | _ => none
    | .fail i =>
      match t.loops[i]? with
      | some .failed => some ({ t with running := false }.closeStop.place i .done)
      | _ => none
    | .read i =>
      match t.loops[i]?, t.stop with
      | some .reading, some c => some (t.place i (.selecting c))
      | _, _ => none
    | .fire i =>
      match t.loops[i]? with
      | some (.selecting _) => some (t.call i)
      | _ => none
    | .leave i =>
      match t.loops[i]? with
      | some (.selecting c) => if c ∈ t.closed then some (t.place i .done) else none
      | _ => none

def Spent (t : Task) : Place → Prop
  | .done => True
  | .selecting c => c ∈ t.closed
  | _ => False

instance (t : Task) : DecidablePred (Spent t) := fun p ↦ by
  cases p <;> unfold Spent <;> infer_instance

def Live (t : Task) (i : Nat) : Prop := ∃ p, t.loops[i]? = some p ∧ ¬ Spent t p

/-- `Start` finds no loop of an earlier one that may go on, `Close` neither a goroutine that was
to begin with `Execute` nor one on its way to report an error, no `Execute` returns an error after
a `Close`, and a closed channel wins over the timer. -/
def Orderly (t : Task) : Action → Prop
  | .start _ => t.running = false → ∀ p ∈ t.loops, Spent t p
  | .close => Place.failed ∉ t.loops ∧ Place.spawned true ∉ t.loops
  | .returns _ ok => ok = false → t.running = true
  | .fire i => ∀ p ∈ t.loops[i]?, ¬ Spent t p
  | _ => True

instance (t : Task) (a : Action) : Decidable (Orderly t a) := by
  cases a <;> unfold Orderly <;> infer_instance

structure Sound (t : Task) : Prop where
  quiet : t.panicked = false
  running : t.running = true → ∃ c, t.stop = some c ∧ c ∉ t.closed
  stopped : t.running = false → ∀ c ∈ t.stop, c ∈ t.closed
  made : ∀ c, c ∈ t.closed ∨ t.stop = some c → c < t.channels
  unique : ∀ i j, Live t i → Live t j → i = j
  selecting : ∀ (i c : Nat), t.loops[i]? = some (.selecting c) → c ∈ t.closed ∨ t.stop = some c
  failed : ∀ i : Nat, t.loops[i]? = some .failed → t.running = true
  first : ∀ i : Nat, t.loops[i]? = some (.spawned true) → t.running = true

theorem sound_initial : Sound initial where
  quiet := rfl
  running := nofun
  stopped := fun _ ↦ nofun
  made := nofun
  unique := fun _ _ ⟨_, h, _⟩ ↦ by cases h
  selecting := fun _ _ h ↦ by cases h
  failed := fun _ h ↦ by cases h
  first := fun _ h ↦ by cases h

variable {s t u : Task} {i j : Nat} {p q : Place}

theorem loops_place (t : Task) (i j : Nat) (p : Place) :
    (t.place i p).loops[j]? = if i = j then t.loops[i]?.map fun _ ↦ p else t.loops[j]? := by
  rw [Task.place, getElem?_set]
  split
  · cases hi : t.loops[i]? with
    | none => simp [List.getElem?_eq_none_iff.mp hi]
    | some q => simp [(List.getElem?_eq_some_iff.mp hi).1]
  · rfl

theorem live_of_place (hi : t.loops[i]? = some q) (hlive : ¬ Spent t p → ¬ Spent t q)
    (h : Live (t.place i p) j) : Live t j := by
  obtain ⟨r, hr, hspent⟩ := h
  rw [loops_place] at hr
  split at hr
  · next heq =>
    subst heq
    rw [hi] at hr
    cases hr
    exact ⟨q, hi, hlive hspent⟩
  · exact ⟨r, hr, hspent⟩

theorem Sound.place (h : Sound t) (hi : t.loops[i]? = some q) (hlive : ¬ Spent t p → ¬ Spent t q)
    (hselecting : ∀ c, p = .selecting c → c ∈ t.closed ∨ t.stop = some c)
    (hfailed : p = .failed → t.running) (hfirst : p ≠ .spawned true) :
    Sound (t.place i p) where
  quiet := h.quiet
  running := h.running
  stopped := h.stopped
  made := h.made
  unique := fun j k hj hk ↦ h.unique j k (live_of_place hi hlive hj) (live_of_place hi hlive hk)
  selecting := by
    intro j c hj
    rw [loops_place, hi] at hj
    split at hj
    · exact hselecting c (Option.some.inj hj)
    · exact h.selecting j c hj
  failed := by
    intro j hj
    rw [loops_place, hi] at hj
    split at hj
    · exact hfailed (Option.some.inj hj)
    · exact h.failed j hj
  first := by
    intro j hj
    rw [loops_place, hi] at hj
    split at hj
    · exact absurd (Option.some.inj hj) hfirst
    · exact h.first j hj

theorem Sound.call (h : Sound t) (hi : t.loops[i]? = some q) (hlive : ¬ Spent t q) :
    Sound (t.call i) := by
  have hplace : Sound (t.place i .executing) := h.place hi (fun _ ↦ hlive) nofun nofun nofun
  exact { hplace with }

theorem Spent.mono (h : Spent t p) (hsub : t.closed ⊆ u.closed) : Spent u p := by
  cases p with
  | done => exact trivial
  | selecting c => exact hsub h
  | _ => exact h

theorem Sound.shut (h : Sound t) (hrunning : t.running)
    (hfailed : ∀ i : Nat, t.loops[i]? ≠ some .failed)
    (hfirst : ∀ i : Nat, t.loops[i]? ≠ some (.spawned true)) :
    Sound { t with running := false }.closeStop ∧
      ({ t with running := false }.closeStop).running = false ∧
      ({ t with running := false }.closeStop).loops = t.loops ∧
      ({ t with running := false }.closeStop).calls = t.calls ∧
      t.closed ⊆ ({ t with running := false }.closeStop).closed := by
  obtain ⟨c, hc, hopen⟩ := h.running hrunning
  have heq : { t with running := false }.closeStop =
      { t with running := false, closed := c :: t.closed } := by
    simp only [Task.closeStop, hc, if_neg hopen]
  rw [heq]
  have hsub : t.closed ⊆ c :: t.closed := subset_cons_self _ _
  have hlive {i : Nat} (hi : Live { t with running := false, closed := c :: t.closed } i) :
      Live t i := by
    obtain ⟨p, hp, hspent⟩ := hi
    exact ⟨p, hp, fun hold ↦ hspent (hold.mono hsub)⟩
  refine ⟨⟨h.quiet, nofun, ?_, ?_, ?_, ?_, ?_, ?_⟩, rfl, rfl, rfl, hsub⟩
  · intro _ d hd
    obtain rfl : c = d := Option.some.inj (hc.symm.trans hd)
    exact mem_cons_self
  · intro d hd
    rw [mem_cons] at hd
    rcases hd with (rfl | hd) | hd
    · exact h.made d (.inr hc)
    · exact h.made d (.inl hd)
    · exact h.made d (.inr hd)
  · exact fun i j hi hj ↦ h.unique i j (hlive hi) (hlive hj)
  · intro i d hi
    exact (h.selecting i d hi).imp (fun hd ↦ hsub hd) id
  · exact fun i hi ↦ absurd hi (hfailed i)
  · exact fun i hi ↦ absurd hi (hfirst i)

inductive Moves (t : Task) : Action → Task → Prop
  | start {first : Bool} : Moves t (.start first) (t.start first)
  | close : Moves t .close t.close
  | begins {i : Nat} : t.loops[i]? = some (.spawned true) → Moves t (.proceed i) (t.call i)
  | skips {i : Nat} : t.loops[i]? = some (.spawned false) →
      Moves t (.proceed i) (t.place i .reading)
  | returns {i : Nat} {ok : Bool} : t.loops[i]? = some .executing →
      Moves t (.returns i ok) (t.place i (if ok then .reading else .failed))
  | fail {i : Nat} : t.loops[i]? = some .failed →
      Moves t (.fail i) ({ t with running := false }.closeStop.place i .done)
  | read {i c : Nat} : t.loops[i]? = some .reading → t.stop = some c →
      Moves t (.read i) (t.place i (.selecting c))
  | fire {i c : Nat} : t.loops[i]? = some (.selecting c) → Moves t (.fire i) (t.call i)
  | leave {i c : Nat} : t.loops[i]? = some (.selecting c) → c ∈ t.closed →
      Moves t (.leave i) (t.place i .done)

theorem moves_of_step {a : Action} (h : step t a = some u) : Moves t a u := by
  obtain ⟨-, h⟩ := Option.ite_none_left_eq_some.mp h
  cases a with
  | start first => cases h; exact .start
  | close => cases h; exact .close
  | proceed i =>
    dsimp only at h
    split at h
    · next hi => cases h; exact .begins hi
    · next hi => cases h; exact .skips hi
    · cases h
  | returns i ok =>
    dsimp only at h
    split at h
    · next hi => cases h; exact .returns hi
    · cases h
  | fail i =>
    dsimp only at h
    split at h
    · next hi => cases h; exact .fail hi
    · cases h
  | read i =>
    dsimp only at h
    split at h
    · next hi hc => cases h; exact .read hi hc
    · cases h
  | fire i =>
    dsimp only at h
    split at h
    · next hi => cases h; exact .fire hi
    · cases h
  | leave i =>
    dsimp only at h
    split at h
    · next hi =>
      obtain ⟨hc, h⟩ := Option.ite_none_right_eq_some.mp h
      cases h
      exact .leave hi hc
    · cases h

theorem Sound.start (h : Sound t) {first : Bool}
    (hspent : t.running = false → ∀ p ∈ t.loops, Spent t p) : Sound (t.start first) := by
  unfold Task.start
  split
  · exact h
  next hstopped =>
  rw [Bool.not_eq_true] at hstopped
  have hold {i : Nat} {p : Place} (hi : t.loops[i]? = some p) : Spent t p :=
    hspent hstopped p (mem_of_getElem? hi)
  have hnew : t.channels ∉ t.closed := fun hc ↦ Nat.lt_irrefl _ (h.made _ (.inl hc))
  have hlast {i : Nat} {p : Place} (hi : (t.loops ++ [.spawned first])[i]? = some p)
      (hp : ¬ Spent t p) : i = t.loops.length := by
    rw [getElem?_append] at hi
    split at hi
    · exact absurd (hold hi) hp
    · have hlt := (List.getElem?_eq_some_iff.mp hi).1
      simp only [length_singleton] at hlt
      omega
  refine ⟨h.quiet, fun _ ↦ ⟨_, rfl, hnew⟩, nofun, ?_, ?_, ?_, fun _ _ ↦ rfl, fun _ _ ↦ rfl⟩
  · rintro c (hc | hc)
    · exact Nat.lt_trans (h.made c (.inl hc)) (Nat.lt_succ_self _)
    · cases hc
      exact Nat.lt_succ_self _
  · rintro i j ⟨p, hi, hp⟩ ⟨q, hj, hq⟩
    exact (hlast hi hp).trans (hlast hj hq).symm
  · intro i c hi
    rw [getElem?_append] at hi
    split at hi
    · exact .inl (hold hi)
    · have hmem := mem_of_getElem? hi
      simp at hmem

theorem Sound.step {a : Action} (h : Sound t) (horderly : Orderly t a) (hmoves : Moves t a u) :
    Sound u := by
  cases hmoves with
  | start => exact h.start horderly
  | close =>
    unfold Task.close
    split
    · next hrunning =>
      exact (h.shut hrunning (fun i hi ↦ horderly.1 (mem_of_getElem? hi))
        fun i hi ↦ horderly.2 (mem_of_getElem? hi)).1
    · exact h
  | begins hi => exact h.call hi nofun
  | skips hi => exact h.place hi (fun _ ↦ nofun) nofun nofun nofun
  | @returns i ok hi =>
    cases ok with
    | true => exact h.place hi (fun _ ↦ nofun) nofun nofun nofun
    | false => exact h.place hi (fun _ ↦ nofun) nofun (fun _ ↦ horderly rfl) nofun
  | @fail i hi =>
    -- the failed loop is the only live one, so without it nothing is left that may go on
    have hdone : Sound (t.place i .done) := h.place hi (fun _ ↦ nofun) nofun nofun nofun
    have hnone {j : Nat} {p : Place} (hj : (t.place i .done).loops[j]? = some p)
        (hp : ¬ Spent t p) : False := by
      rw [loops_place] at hj
      split at hj
      · rw [hi] at hj
        cases hj
        exact hp trivial
      · next hne => exact hne (h.unique i j ⟨_, hi, nofun⟩ ⟨p, hj, hp⟩)
    have hshut := (hdone.shut (h.failed i hi) (fun j hj ↦ hnone hj nofun)
      fun j hj ↦ hnone hj nofun).1
    obtain ⟨c, hc, hopen⟩ := h.running (h.failed i hi)
    have hcomm : { t with running := false }.closeStop.place i .done =
        { t.place i .done with running := false }.closeStop := by
      simp only [Task.closeStop, Task.place, hc, if_neg hopen]
    rw [hcomm]
    exact hshut
  | read hi hc =>
    refine h.place hi (fun _ ↦ nofun) ?_ nofun nofun
    rintro d ⟨⟩
    exact .inr hc
  | fire hi => exact h.call hi (horderly _ hi)
  | leave hi _ => exact h.place hi (fun hdone ↦ absurd trivial hdone) nofun nofun nofun

structure Behind (n m : Nat) (t : Task) : Prop where
  length : n ≤ t.loops.length
  places : ∀ (i : Nat) (p : Place), i < n → t.loops[i]? = some p → ¬ Spent t p →
    t.running = false ∧ (p = .spawned false ∨ p = .executing ∨ p = .reading)
  counted : m ≤ t.calls.length
  calls : ∀ i ∈ t.calls.drop m, n ≤ i

variable {n m : Nat}

theorem Behind.place (h : Behind n m t) (hi : t.loops[i]? = some q)
    (hp : i < n → ¬ Spent t p → t.running = false ∧
      (p = .spawned false ∨ p = .executing ∨ p = .reading)) : Behind n m (t.place i p) where
  length := by
    rw [Task.place, length_set]
    exact h.length
  places := by
    intro j r hj hr hspent
    rw [loops_place, hi] at hr
    split at hr
    · next heq =>
      subst heq
      cases hr
      exact hp hj hspent
    · exact h.places j r hj hr hspent
  counted := h.counted
  calls := h.calls

theorem Behind.call (h : Behind n m t) (hi : t.loops[i]? = some q) (hn : n ≤ i) :
    Behind n m (t.call i) := by
  have hplace : Behind n m (t.place i .executing) := h.place hi fun hlt ↦ absurd hlt (by omega)
  refine ⟨hplace.length, hplace.places, ?_, ?_⟩
  · exact Nat.le_trans h.counted (by simp [Task.call])
  intro j hj
  rw [Task.call, drop_append_of_le_length h.counted, mem_append, mem_singleton] at hj
  rcases hj with hj | rfl
  · exact h.calls j hj
  · exact hn

theorem Behind.shut (h : Behind n m t) (hloops : u.loops = t.loops) (hcalls : u.calls = t.calls)
    (hrunning : u.running = false) (hsub : t.closed ⊆ u.closed) : Behind n m u where
  length := hloops ▸ h.length
  places := by
    intro i p hi hp hspent
    rw [hloops] at hp
    exact ⟨hrunning, (h.places i p hi hp fun hold ↦ hspent (hold.mono hsub)).2⟩
  counted := hcalls ▸ h.counted
  calls := hcalls ▸ h.calls

theorem closeStop_frame (t : Task) : t.closeStop.loops = t.loops ∧ t.closeStop.calls = t.calls ∧
    t.closeStop.running = t.running ∧ t.closed ⊆ t.closeStop.closed := by
  unfold Task.closeStop
  split
  · exact ⟨rfl, rfl, rfl, Subset.refl _⟩
  · split
    · exact ⟨rfl, rfl, rfl, Subset.refl _⟩
    · exact ⟨rfl, rfl, rfl, subset_cons_self _ _⟩

theorem Behind.closeStop (h : Behind n m t) : Behind n m { t with running := false }.closeStop := by
  obtain ⟨hloops, hcalls, hrunning, hsub⟩ := closeStop_frame { t with running := false }
  exact h.shut hloops hcalls hrunning hsub

theorem Behind.not_live (h : Behind n m t) (hi : t.loops[i]? = some p) (hp : ¬ Spent t p)
    (hsettled : p ≠ .spawned false) (hexecuting : p ≠ .executing) (hreading : p ≠ .reading) :
    n ≤ i := by
  by_contra hlt
  rcases (h.places i p (by omega) hi hp).2 with heq | heq | heq
  · exact hsettled heq
  · exact hexecuting heq
  · exact hreading heq

theorem Behind.step {a : Action} (h : Behind n m t) (hsound : Sound t) (horderly : Orderly t a)
    (hmoves : Moves t a u) : Behind n m u := by
  cases hmoves with
  | start =>
    unfold Task.start
    split
    · exact h
    next hstopped =>
    rw [Bool.not_eq_true] at hstopped
    refine ⟨Nat.le_trans h.length (by simp), ?_, h.counted, h.calls⟩
    intro i p hi hp hspent
    rw [getElem?_append_left (Nat.lt_of_lt_of_le hi h.length)] at hp
    exact absurd (horderly hstopped p (mem_of_getElem? hp)) hspent
  | close =>
    unfold Task.close
    split
    · exact h.closeStop
    · exact h
  | begins hi => exact h.call hi (h.not_live hi nofun nofun nofun nofun)
  | skips hi =>
    exact h.place hi fun hlt _ ↦ ⟨(h.places _ _ hlt hi nofun).1, .inr (.inr rfl)⟩
  | @returns i ok hi =>
    refine h.place hi fun hlt _ ↦ ?_
    have hstopped := (h.places _ _ hlt hi nofun).1
    cases ok with
    | true => exact ⟨hstopped, .inr (.inr rfl)⟩
    | false =>
      rw [horderly rfl] at hstopped
      cases hstopped
  | fail hi =>
    have hloops := (closeStop_frame { t with running := false }).1
    exact h.closeStop.place (by rw [hloops]; exact hi) fun _ hdone ↦ absurd trivial hdone
  | @read i c hi hc =>
    refine h.place hi fun hlt hspent ↦ ?_
    have hstopped := (h.places _ _ hlt hi nofun).1
    exact absurd (hsound.stopped hstopped c hc) hspent
  | fire hi => exact h.call hi (h.not_live hi (horderly _ hi) nofun nofun nofun)
  | leave hi _ => exact h.place hi fun _ hdone ↦ absurd trivial hdone

theorem Sound.behind (h : Sound t) (hstopped : t.running = false) :
    Behind t.loops.length t.calls.length t where
  length := Nat.le_refl _
  places := by
    intro i p _ hp hspent
    refine ⟨hstopped, ?_⟩
    cases p with
    | spawned first =>
      cases first with
      | true => exact absurd (h.first i hp) (by simp [hstopped])
      | false => exact .inl rfl
    | executing => exact .inr (.inl rfl)
    | failed => exact absurd (h.failed i hp) (by simp [hstopped])
    | reading => exact .inr (.inr rfl)
    | selecting c =>
      rcases h.selecting i c hp with hc | hc
      · exact absurd hc hspent
      · exact absurd (h.stopped hstopped c hc) hspent
    | done => exact absurd trivial hspent
  counted := Nat.le_refl _
  calls := by simp

theorem close_frame (t : Task) :
    t.close.running = false ∧ t.close.loops = t.loops ∧ t.close.calls = t.calls := by
  unfold Task.close
  split
  · obtain ⟨hloops, hcalls, hrunning, -⟩ := closeStop_frame { t with running := false }
    exact ⟨hrunning, hloops, hcalls⟩
  · next h => exact ⟨Bool.not_eq_true _ ▸ h, rfl, rfl⟩

theorem sound_of_reach (h : Reach step Orderly s t) (hs : Sound s) : Sound t :=
  h.invariant hs fun _ _ _ hold horderly hstep ↦ hold.step horderly (moves_of_step hstep)

theorem behind_of_reach (h : Reach step Orderly t u) (ht : Sound t) (hbehind : Behind n m t) :
    Behind n m u := by
  have hboth : Sound u ∧ Behind n m u := by
    refine h.invariant (I := fun v ↦ Sound v ∧ Behind n m v) ⟨ht, hbehind⟩ ?_
    intro v a w ⟨hsound, hv⟩ horderly hstep
    have hmoves := moves_of_step hstep
    exact ⟨hsound.step horderly hmoves, hv.step hsound horderly hmoves⟩
  exact hboth.2

/-- No step of an orderly run panics, at most one loop may go on, and after a `Close` the loops
that were started before it call `Execute` no more. -/
theorem close_ends_earlier_loops (h : Reach step Orderly initial t) :
    t.panicked = false ∧
    (∀ i j, Live t i → Live t j → i = j) ∧
    (Orderly t .close → ∀ u, Reach step Orderly t.close u →
      ∀ i ∈ u.calls.drop t.calls.length, t.loops.length ≤ i) := by
  have hsound := sound_of_reach h sound_initial
  refine ⟨hsound.quiet, hsound.unique, ?_⟩
  intro hclose u hu
  have hshut : Sound t.close := hsound.step hclose .close
  obtain ⟨hstopped, hloops, hcalls⟩ := close_frame t
  have hbehind := hshut.behind hstopped
  rw [hloops, hcalls] at hbehind
  exact (behind_of_reach hu hshut hbehind).calls

def restartedRun : List Action :=
  [.start false, .proceed 0, .read 0, .fire 0, .returns 0 true, .read 0, .close, .leave 0,
    .start true, .proceed 1, .returns 1 false, .fail 1]

theorem close_ends_earlier_loops_restarted : ∃ t, Reach step Orderly initial t ∧
    t.calls = [0, 1] ∧ t.panicked = false ∧ ∀ i j, Live t i → Live t j → i = j := by
  obtain ⟨t, ht, hcalls⟩ : ∃ t, Reach step Orderly initial t ∧ t.calls = [0, 1] :=
    exists_reach restartedRun _ (by decide +kernel)
  exact ⟨t, ht, hcalls, (close_ends_earlier_loops ht).1, (close_ends_earlier_loops ht).2.1⟩

/-- An `Execute` that is running at a `Close` fails, and the stop channel is closed again. Or it
returns after the next `Start`, and its loop goes on with the new channel. -/
theorem close_during_execute :
    (∃ t, Steps step initial t ∧ t.panicked = true) ∧
    (∃ t, Steps step initial t ∧ Place.executing ∉ t.loops ∧ Live t 0 ∧ Live t 1) ∧
    ∃ t u, Steps step initial t ∧ Steps step t.close u ∧ t.loops.length = 1 ∧
      u.calls.drop t.calls.length = [0] := by
  refine ⟨?_, ?_, ?_⟩
  · exact exists_steps [.start false, .proceed 0, .read 0, .fire 0, .close, .returns 0 false,
      .fail 0] _ (by decide +kernel)
  · exact ⟨_, steps_after [.start false, .proceed 0, .read 0, .fire 0, .close, .start false,
      .returns 0 true, .read 0, .proceed 1, .read 1] (by decide), by decide, ⟨_, rfl, by decide⟩,
      ⟨_, rfl, by decide⟩⟩
  · exact ⟨_, _, steps_after [.start false, .proceed 0, .read 0, .fire 0] (by decide),
      steps_after [.start false, .returns 0 true, .read 0, .fire 0] (by decide), by decide, by decide⟩

end AnixAgent.Tasks.Periodic
