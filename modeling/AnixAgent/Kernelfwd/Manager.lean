import AnixAgent.Lib.Runs
import AnixAgent.Lib.Threads

namespace AnixAgent.Kernelfwd.Manager

open Lib.Runs Lib.Threads
open List hiding swap

/-- What called `check` and `sync`: `Apply`, or the loop with this `stop` channel. -/
inductive Owner
  | apply
  | loop (id : Nat)
  deriving DecidableEq

/-- Where a goroutine is, between its lock sections and its calls of nft. -/
inductive Thread (ρ : Type)
  | deleting
  | clearing
  | checking (owner : Owner)
  | syncing (owner : Owner)
  | loading (owner : Owner) (rules : ρ)
  | recording (owner : Owner) (rules : ρ) (ok : Bool)
  | starting
  | waiting (id : Nat)
  deriving DecidableEq

/-- A manager, whose forwards, targets and rendered rules have the types `φ`, `τ` and `ρ`, and the
table that nft holds. An `applied` of "" is none, as no rendered text is empty; a `stop` channel is
a number, and those in `stopped` are closed. -/
structure State (φ τ ρ : Type) where
  forwards : List φ
  targets : τ
  applied : Option ρ
  err : Bool
  stop : Option Nat
  loops : Nat
  stopped : List Nat
  table : Option ρ
  threads : List (Thread ρ)
  deriving DecidableEq

variable {φ τ ρ : Type}

/-- A new manager; an earlier one may have left the table. -/
def init (targets : τ) (table : Option ρ) : State φ τ ρ :=
  ⟨[], targets, none, false, none, 0, [], table, []⟩

inductive Action (φ τ ρ : Type)
  | apply (forwards : List φ)
  | close
  | tick (id : Nat)
  | quit (id : Nat)
  | check (owner : Owner) (found : τ)
  | sync (owner : Owner)
  | load (owner : Owner) (rules : ρ) (ok : Bool)
  | record (owner : Owner) (rules : ρ) (ok : Bool)
  | start
  | delete (ok : Bool)
  | clear

def Owner.next : Owner → Thread ρ
  | .apply => .starting
  | .loop id => .waiting id

def State.stopLoop (s : State φ τ ρ) : State φ τ ρ := { s with
  stop := none
  stopped := s.stop.toList ++ s.stopped }

def State.move [DecidableEq ρ] (s : State φ τ ρ) (t u : Thread ρ) : Option (State φ τ ρ) :=
  if t ∈ s.threads then some { s with threads := swap s.threads t [u] } else none

/-- `render` is of the forwards and targets, and `retarget` makes the targets of new forwards from
the old ones. What `check` finds is arbitrary, and `ok` whether a call succeeds. -/
def step [DecidableEq ρ] (render : List φ → τ → ρ) (retarget : List φ → τ → τ) (s : State φ τ ρ) :
    Action φ τ ρ → Option (State φ τ ρ)
  | .apply forwards => some { s.stopLoop with
      forwards := forwards
      targets := retarget forwards s.targets
      applied := none
      threads := (if forwards.isEmpty then .deleting else .checking .apply) :: s.threads }
  | .close => some s.stopLoop
  -- a closed channel and a tick may both be ready, and either is taken
  | .tick id => s.move (.waiting id) (.checking (.loop id))
  | .quit id =>
    if .waiting id ∈ s.threads ∧ id ∈ s.stopped then
      some { s with threads := swap s.threads (.waiting id) [] }
    else none
  | .check owner found =>
    (s.move (.checking owner) (.syncing owner)).map fun s ↦ { s with targets := found }
  | .sync owner =>
    let rules := render s.forwards s.targets
    s.move (.syncing owner) (if some rules = s.applied then owner.next else .loading owner rules)
  | .load owner rules ok =>
    (s.move (.loading owner rules) (.recording owner rules ok)).map fun s ↦
      { s with table := if ok then some rules else s.table }
  | .record owner rules ok =>
    (s.move (.recording owner rules ok) owner.next).map fun s ↦ { s with
      err := !ok
      applied := if ok then some rules else s.applied }
  | .start => (s.move .starting (.waiting s.loops)).map fun s ↦ { s with
      stop := some s.loops
      loops := s.loops + 1 }
  | .delete ok => (s.move .deleting .clearing).map fun s ↦
      { s with table := if ok then none else s.table }
  | .clear =>
    if .clearing ∈ s.threads then
      some { s with
        err := false
        threads := swap s.threads .clearing [] }
    else none

def Thread.active : Thread ρ → Bool
  | .waiting _ => false
  | _ => true

def Thread.syncs : Thread ρ → Bool
  | .loading _ _ | .recording _ _ _ => true
  | _ => false

/-- `Apply` begins while no other `Apply` and no round is in progress, a loop that was told to stop
begins no round, and the deletion of the table does not fail while there is one. -/
def orderly (s : State φ τ ρ) : Action φ τ ρ → Bool
  | .apply _ => s.threads.all fun t ↦ !t.active
  | .tick id => id ∉ s.stopped
  | .delete ok => ok || s.table.isNone
  | _ => true

def token (stopped : List Nat) : Thread ρ → Bool
  | .waiting id => id ∉ stopped
  | _ => true

def Owner.loops : Owner → Option Nat
  | .apply => none
  | .loop id => some id

def Thread.loops : Thread ρ → Option Nat
  | .checking owner | .syncing owner | .loading owner _ | .recording owner _ _ => owner.loops
  | .waiting id => some id
  | _ => none

def Agrees (s : State φ τ ρ) : Prop := s.applied = none ∨ s.table = s.applied

structure Settled (s : State φ τ ρ) : Prop where
  agrees : Agrees s
  empty : s.forwards = [] → s.applied = none ∧ s.table = none
  recorded : s.forwards ≠ [] → s.err = false → s.applied ≠ none

def Stage (s : State φ τ ρ) : Thread ρ → Prop
  | .deleting => s.forwards = [] ∧ s.applied = none
  | .clearing => s.forwards = [] ∧ s.applied = none ∧ s.table = none
  | .checking _ | .syncing _ | .loading _ _ => s.forwards ≠ [] ∧ Agrees s
  | .recording _ rules ok => s.forwards ≠ [] ∧ if ok then s.table = some rules else Agrees s
  | .starting => s.forwards ≠ [] ∧ Settled s
  | .waiting _ => True

structure Inv (targets : τ) (table : Option ρ) (s : State φ τ ρ) : Prop where
  tokens : s.threads.countP (token s.stopped) ≤ 1
  channel : ∀ t ∈ s.threads, ∀ id, t.loops = some id → id ∉ s.stopped → s.stop = some id
  looping : s.stop ≠ none → s.forwards ≠ []
  stage : ∀ t ∈ s.threads, Stage s t
  settled : (∀ t ∈ s.threads, t.active = false) → s = init targets table ∨ Settled s

variable {stopped : List Nat} {stop : Option Nat} {loops : Nat} {threads : List (Thread ρ)}

section
variable {targets : τ} {table : Option ρ} {s s' : State φ τ ρ} {t : Thread ρ}

theorem token_of_active (h : t.active = true) (stopped : List Nat) : token stopped t = true := by
  cases t with
  | waiting => cases h
  | _ => rfl

theorem waiting_of_not_token (h : token stopped t = false) : ∃ id ∈ stopped, t = .waiting id := by
  cases t with
  | waiting id => exact ⟨id, by simpa [token] using h, rfl⟩
  | _ => cases h

theorem Settled.moved (h : Settled s) : Settled { s with
      stop := stop
      loops := loops
      stopped := stopped
      threads := threads } :=
  ⟨h.agrees, h.empty, h.recorded⟩

theorem stage_moved (h : Stage s t) : Stage { s with
      stop := stop
      loops := loops
      stopped := stopped
      threads := threads } t := by
  cases t with
  | starting => exact ⟨h.1, h.2.moved⟩
  | _ => exact h

section
variable [DecidableEq ρ]

/-- The thread that may go on takes a step: the others wait on closed channels. -/
theorem Inv.next (h : Inv targets table s) (ht : t ∈ s.threads)
    (htoken : token s.stopped t = true) (new : List (Thread ρ)) (hlength : new.length ≤ 1)
    (hthreads : s'.threads = swap s.threads t new) (hstopped : s'.stopped = s.stopped)
    (hchannel : ∀ u ∈ new, ∀ id, u.loops = some id → id ∉ s.stopped → s'.stop = some id)
    (hlooping : s'.stop ≠ none → s'.forwards ≠ []) (hstage : ∀ u ∈ new, Stage s' u)
    (hsettled : (∀ u ∈ new, u.active = false) → Settled s') : Inv targets table s' := by
  have hothers (u : Thread ρ) (hu : u ∈ s.threads.erase t) : ∃ id ∈ s.stopped, u = .waiting id :=
    waiting_of_not_token (not_of_mem_erase h.tokens ht htoken hu)
  refine ⟨?_, fun u hu id hid hopen ↦ ?_, hlooping, fun u hu ↦ ?_, fun hquiet ↦ .inr (hsettled ?_)⟩
  · have hcount := countP_swap ht new (token s.stopped)
    have htokens := h.tokens
    have hnew := new.countP_le_length (p := token s.stopped)
    rw [htoken, if_pos rfl] at hcount
    rw [hthreads, hstopped]
    omega
  · rw [hthreads] at hu
    rw [hstopped] at hopen
    rcases mem_append.mp hu with hu | hu
    · obtain ⟨id', hid', rfl⟩ := hothers u hu
      cases hid
      exact absurd hid' hopen
    · exact hchannel u hu id hid hopen
  · rw [hthreads] at hu
    rcases mem_append.mp hu with hu | hu
    · obtain ⟨id, -, rfl⟩ := hothers u hu
      trivial
    · exact hstage u hu
  · intro u hu
    refine hquiet u ?_
    rw [hthreads]
    exact mem_swap_new hu

theorem Inv.move (h : Inv targets table s) {u : Thread ρ} (ht : t ∈ s.threads)
    (htoken : token s.stopped t = true) (hthreads : s'.threads = swap s.threads t [u])
    (hstopped : s'.stopped = s.stopped) (hstop : s'.stop = s.stop)
    (hforwards : s'.forwards = s.forwards) (hloops : u.loops = none ∨ u.loops = t.loops)
    (hstage : Stage s' u) (hsettled : u.active = false → Settled s') : Inv targets table s' := by
  refine h.next ht htoken _ le_rfl hthreads hstopped ?_ ?_ ?_ ?_
  · intro v hv id hid hopen
    obtain rfl := mem_singleton.mp hv
    rw [hstop]
    rcases hloops with hnone | hsame
    · rw [hnone] at hid
      cases hid
    · exact h.channel t ht id (hsame ▸ hid) hopen
  · rw [hstop, hforwards]
    exact h.looping
  · intro v hv
    obtain rfl := mem_singleton.mp hv
    exact hstage
  · intro hquiet
    exact hsettled (hquiet u (mem_singleton.mpr rfl))

end

theorem loops_next (owner : Owner) :
    (owner.next : Thread ρ).loops = none ∨ (owner.next : Thread ρ).loops = owner.loops := by
  cases owner with
  | apply => exact .inl rfl
  | loop id => exact .inr rfl

theorem Settled.next (h : Settled s) (hforwards : s.forwards ≠ []) (owner : Owner) :
    Stage s owner.next := by
  cases owner with
  | apply => exact ⟨hforwards, h⟩
  | loop id => trivial

theorem settled_of_applied (hforwards : s.forwards ≠ []) (hagrees : Agrees s)
    (happlied : s.err = false → s.applied ≠ none) : Settled s :=
  ⟨hagrees, fun hempty ↦ absurd hempty hforwards, fun _ ↦ happlied⟩

theorem inv_stopLoop (h : Inv targets table s) : Inv targets table s.stopLoop := by
  refine ⟨le_trans (countP_mono_left fun t _ htoken ↦ ?_) h.tokens,
    fun t ht id hid hopen ↦ ?_, fun hsome ↦ absurd rfl hsome, fun t ht ↦ ?_, fun hquiet ↦ ?_⟩
  · cases t with
    | waiting id =>
      simp only [token, State.stopLoop, mem_append, not_or, decide_eq_true_eq] at htoken ⊢
      exact htoken.2
    | _ => rfl
  · simp only [State.stopLoop, mem_append, not_or, Option.mem_toList] at hopen
    exact absurd (h.channel t ht id hid hopen.2) hopen.1
  · exact stage_moved (h.stage t ht)
  · rcases h.settled hquiet with rfl | hsettled
    · exact .inl rfl
    · exact .inr hsettled.moved

theorem inv_apply (h : Inv targets table s) (retarget : List φ → τ → τ) (forwards : List φ)
    (hquiet : ∀ t ∈ s.threads, t.active = false) :
    Inv targets table { s.stopLoop with
      forwards := forwards
      targets := retarget forwards s.targets
      applied := none
      threads := (if forwards.isEmpty then .deleting else .checking .apply) :: s.threads } := by
  have hwaiting (t : Thread ρ) (ht : t ∈ s.threads) :
      ∃ id ∈ s.stopLoop.stopped, t = .waiting id := by
    have hinactive := hquiet t ht
    cases t with
    | waiting id =>
      refine ⟨id, ?_, rfl⟩
      by_contra hopen
      simp only [State.stopLoop, mem_append, not_or, Option.mem_toList] at hopen
      exact hopen.1 (h.channel _ ht id rfl hopen.2)
    | _ => cases hinactive
  refine ⟨?_, fun t ht id hid hopen ↦ ?_, fun hsome ↦ absurd rfl hsome, fun t ht ↦ ?_,
    fun hinactive ↦ ?_⟩
  · have hnone : s.threads.countP (token s.stopLoop.stopped) = 0 := by
      rw [countP_eq_zero]
      intro t ht
      obtain ⟨id, hid, rfl⟩ := hwaiting t ht
      simpa [token] using hid
    simp only [countP_cons, hnone, Nat.zero_add]
    exact ite_le_one le_rfl (Nat.zero_le 1)
  · rcases mem_cons.mp ht with rfl | ht
    · split at hid <;> cases hid
    · obtain ⟨id', hid', rfl⟩ := hwaiting t ht
      cases hid
      exact absurd hid' hopen
  · rcases mem_cons.mp ht with rfl | ht
    · split
      · next hempty => exact ⟨isEmpty_iff.mp hempty, rfl⟩
      · next hsome => exact ⟨fun hnil ↦ hsome (isEmpty_iff.mpr hnil), .inl rfl⟩
    · obtain ⟨id, -, rfl⟩ := hwaiting t ht
      trivial
  · have hfirst := hinactive _ mem_cons_self
    split at hfirst <;> cases hfirst

theorem move_eq_some [DecidableEq ρ] {u : Thread ρ} (h : s.move t u = some s') :
    t ∈ s.threads ∧ s' = { s with threads := swap s.threads t [u] } := by
  unfold State.move at h
  split at h
  · next ht => exact ⟨ht, (Option.some.inj h).symm⟩
  · cases h

theorem inv_step [DecidableEq ρ] {render : List φ → τ → ρ} {retarget : List φ → τ → τ}
    {a : Action φ τ ρ} (h : Inv targets table s) (horderly : orderly s a = true)
    (hstep : step render retarget s a = some s') : Inv targets table s' := by
  cases a with
  | apply forwards =>
    cases hstep
    exact inv_apply h retarget forwards (by simpa [orderly] using horderly)
  | close =>
    cases hstep
    exact inv_stopLoop h
  | tick id =>
    obtain ⟨ht, rfl⟩ := move_eq_some hstep
    have hopen : id ∉ s.stopped := by simpa [orderly] using horderly
    have htoken : token s.stopped (.waiting id : Thread ρ) = true := by simpa [token] using hopen
    have hchannel := h.channel _ ht id rfl hopen
    -- no other thread is active, so the state is settled
    have hquiet (u : Thread ρ) (hu : u ∈ s.threads) : u.active = false := by
      by_contra hactive
      have htoken' := token_of_active (Bool.eq_true_of_not_eq_false hactive) s.stopped
      obtain rfl := eq_of_countP_le_one h.tokens ht hu htoken htoken'
      exact hactive rfl
    rcases h.settled hquiet with rfl | hsettled
    · cases ht
    · refine h.move ht htoken rfl rfl rfl rfl (.inr rfl) ⟨h.looping (by simp [hchannel]), ?_⟩
        (by rintro ⟨⟩)
      exact hsettled.agrees
  | quit id =>
    obtain ⟨hmem, rfl⟩ := Option.ite_some_none_eq_some.mp hstep
    have hsub : (swap s.threads (.waiting id) []).Sublist s.threads := by
      rw [swap, append_nil]
      exact erase_sublist
    refine ⟨(hsub.countP_le).trans h.tokens, fun t ht ↦ h.channel t (hsub.subset ht), h.looping,
      fun t ht ↦ ?_, fun hquiet ↦ ?_⟩
    · exact stage_moved (h.stage t (hsub.subset ht))
    have hall (t : Thread ρ) (ht : t ∈ s.threads) : t.active = false := by
      by_cases heq : t = .waiting id
      · rw [heq]
        rfl
      · exact hquiet t (mem_swap_of_ne ht heq)
    rcases h.settled hall with rfl | hsettled
    · cases hmem.1
    · exact .inr hsettled.moved
  | check owner found =>
    obtain ⟨s₁, hmove, rfl⟩ := Option.map_eq_some_iff.mp hstep
    obtain ⟨ht, rfl⟩ := move_eq_some hmove
    exact h.move ht rfl rfl rfl rfl rfl (.inr rfl) (h.stage _ ht) (by rintro ⟨⟩)
  | sync owner =>
    obtain ⟨ht, rfl⟩ := move_eq_some hstep
    obtain ⟨hforwards, hagrees⟩ := h.stage _ ht
    split
    · next hsame =>
      have hsettled := settled_of_applied hforwards hagrees fun _ ↦ (by rw [← hsame]; simp)
      exact h.move ht rfl rfl rfl rfl rfl (loops_next owner)
        (stage_moved (hsettled.next hforwards owner)) fun _ ↦ hsettled.moved
    · exact h.move ht rfl rfl rfl rfl rfl (.inr rfl) ⟨hforwards, hagrees⟩
        (by rintro ⟨⟩)
  | load owner rules ok =>
    obtain ⟨s₁, hmove, rfl⟩ := Option.map_eq_some_iff.mp hstep
    obtain ⟨ht, rfl⟩ := move_eq_some hmove
    obtain ⟨hforwards, hagrees⟩ := h.stage _ ht
    refine h.move ht rfl rfl rfl rfl rfl (.inr rfl) ⟨hforwards, ?_⟩ (by rintro ⟨⟩)
    cases ok with
    | true => rfl
    | false => exact hagrees
  | record owner rules ok =>
    obtain ⟨s₁, hmove, rfl⟩ := Option.map_eq_some_iff.mp hstep
    obtain ⟨ht, rfl⟩ := move_eq_some hmove
    obtain ⟨hforwards, hloaded⟩ := h.stage _ ht
    have hsettled : Settled { s with
        err := !ok
        applied := if ok then some rules else s.applied
        threads := swap s.threads (.recording owner rules ok) [owner.next] } := by
      refine settled_of_applied hforwards ?_ ?_
      · cases ok with
        | true => exact .inr hloaded
        | false => exact hloaded
      · cases ok with
        | true => exact fun _ ↦ Option.some_ne_none rules
        | false => simp
    exact h.move ht rfl rfl rfl rfl rfl (loops_next owner) (hsettled.next hforwards owner)
      fun _ ↦ hsettled
  | start =>
    obtain ⟨s₁, hmove, rfl⟩ := Option.map_eq_some_iff.mp hstep
    obtain ⟨ht, rfl⟩ := move_eq_some hmove
    obtain ⟨hforwards, hsettled⟩ := h.stage _ ht
    refine h.next ht rfl [.waiting s.loops] le_rfl rfl rfl ?_ (fun _ ↦ hforwards) ?_ ?_
    · intro u hu id hid _
      obtain rfl := mem_singleton.mp hu
      exact hid
    · intro u hu
      obtain rfl := mem_singleton.mp hu
      trivial
    · exact fun _ ↦ hsettled.moved
  | delete ok =>
    obtain ⟨s₁, hmove, rfl⟩ := Option.map_eq_some_iff.mp hstep
    obtain ⟨ht, rfl⟩ := move_eq_some hmove
    obtain ⟨hforwards, happlied⟩ := h.stage _ ht
    refine h.move ht rfl rfl rfl rfl rfl (.inl rfl) ⟨hforwards, happlied, ?_⟩
      (by rintro ⟨⟩)
    cases ok with
    | true => rfl
    | false => simpa [orderly] using horderly
  | clear =>
    obtain ⟨ht, rfl⟩ := Option.ite_some_none_eq_some.mp hstep
    obtain ⟨hforwards, happlied, htable⟩ := h.stage _ ht
    refine h.next ht rfl [] (Nat.zero_le 1) rfl rfl
      (fun u hu ↦ absurd hu not_mem_nil) h.looping
      (fun u hu ↦ absurd hu not_mem_nil) fun _ ↦ ?_
    exact ⟨.inl happlied, fun _ ↦ ⟨happlied, htable⟩, fun hne ↦ absurd hforwards hne⟩

end

/-- In every orderly run: while no `sync` is between its lock sections, what is recorded as applied
is loaded. Between the calls the table is what is recorded, unless the last load failed or nothing
was applied yet, and there is none without forwards. -/
theorem table_recorded [DecidableEq ρ] {render : List φ → τ → ρ} {retarget : List φ → τ → τ}
    {targets : τ} {table : Option ρ} {s : State φ τ ρ}
    (h : Reach (step render retarget) (fun s a ↦ orderly s a = true) (init targets table) s) :
    ((∀ t ∈ s.threads, t.syncs = false) → s.applied ≠ none → s.table = s.applied) ∧
      ((∀ t ∈ s.threads, t.active = false) → s = init targets table ∨
        (s.err = false → s.table = s.applied) ∧ (s.forwards = [] → s.table = none)) := by
  have hinv : Inv targets table s :=
    h.invariant ⟨Nat.zero_le 1, by simp [init], by simp [init], by simp [init], fun _ ↦ .inl rfl⟩
      fun _ _ _ hs horderly hstep ↦ inv_step hs horderly hstep
  refine ⟨fun hnone hsome ↦ ?_, fun hquiet ↦ ?_⟩
  · have hagrees : Agrees s := by
      by_cases hquiet : ∀ t ∈ s.threads, t.active = false
      · rcases hinv.settled hquiet with rfl | hsettled
        · exact .inl rfl
        · exact hsettled.agrees
      push Not at hquiet
      obtain ⟨t, ht, hactive⟩ := hquiet
      have hstage := hinv.stage t ht
      have hsync := hnone t ht
      cases t with
      | deleting => exact .inl hstage.2
      | clearing => exact .inl hstage.2.1
      | checking | syncing => exact hstage.2
      | loading | recording => cases hsync
      | starting => exact hstage.2.agrees
      | waiting => exact absurd rfl hactive
    exact hagrees.resolve_left hsome
  · refine (hinv.settled hquiet).imp_right fun hsettled ↦ ⟨fun herr ↦ ?_, fun hnil ↦ ?_⟩
    · by_cases hforwards : s.forwards = []
      · obtain ⟨happlied, htable⟩ := hsettled.empty hforwards
        rw [htable, happlied]
      · exact hsettled.agrees.resolve_left (hsettled.recorded hforwards herr)
    · exact (hsettled.empty hnil).2

def sampleStep : State Nat Nat (List Nat × Nat) → Action Nat Nat (List Nat × Nat) →
    Option (State Nat Nat (List Nat × Nat)) := step Prod.mk fun _ _ ↦ 0

def round (owner : Owner) (forwards : List Nat) (found : Nat) :
    List (Action Nat Nat (List Nat × Nat)) :=
  [.check owner found, .sync owner, .load owner (forwards, found) true,
    .record owner (forwards, found) true]

theorem table_recorded_deleted :
    ∃ s, Reach sampleStep (fun s a ↦ orderly s a = true) (init 0 none) s ∧
      s.loops = 1 ∧ s.forwards = [] ∧ s.table = none := by
  have hrun : ∃ s, Reach sampleStep (fun s a ↦ orderly s a = true) (init 0 none) s ∧
      (∀ t ∈ s.threads, t.active = false) ∧ s.loops = 1 ∧ s.forwards = [] :=
    exists_reach (flatten [[.apply [7]], round .apply [7] 1, [.start, .tick 0],
      round (.loop 0) [7] 2, [.apply [], .delete true, .clear, .quit 0]]) _ (by decide +kernel)
  obtain ⟨s, hreach, hquiet, hloops, hforwards⟩ := hrun
  refine ⟨s, hreach, hloops, hforwards, ?_⟩
  rcases (table_recorded hreach).2 hquiet with rfl | ⟨-, htable⟩
  · cases hloops
  · exact htable hforwards

/-- A round and an `Apply` load one after the other and record the other way round; and a round
loads its rules after an `Apply` without forwards deleted the table. -/
theorem table_not_recorded :
    (∃ s, Steps sampleStep (init 0 none) s ∧ (∀ t ∈ s.threads, t.active = false) ∧ s.err = false ∧
      s.table = some ([8], 3) ∧ s.applied = some ([7], 2)) ∧
    ∃ s, Steps sampleStep (init 0 none) s ∧ (∀ t ∈ s.threads, t.active = false) ∧
      s.forwards = [] ∧ s.table = some ([7], 2) :=
  ⟨exists_steps (flatten [[.apply [7]], round .apply [7] 1,
      [.start, .tick 0, .check (.loop 0) 2, .sync (.loop 0), .load (.loop 0) ([7], 2) true,
        .apply [8]], round .apply [8] 3, [.record (.loop 0) ([7], 2) true, .start]]) _
      (by decide +kernel),
    exists_steps (flatten [[.apply [7]], round .apply [7] 1,
      [.start, .tick 0, .check (.loop 0) 2, .sync (.loop 0), .apply [], .delete true, .clear,
        .load (.loop 0) ([7], 2) true, .record (.loop 0) ([7], 2) true]]) _ (by decide +kernel)⟩

end AnixAgent.Kernelfwd.Manager
