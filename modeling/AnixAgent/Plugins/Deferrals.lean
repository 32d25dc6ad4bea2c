import AnixAgent.Maintenance.Incidents
import AnixAgent.Plugins.Restarts

namespace AnixAgent.Plugins.Deferrals

open Lib.Runs Lib.Tables Lib.Crash Lib.Crash.Proc Lib.Answers Lifecycle Debts Frames Supervision List Option
open Monitor Restarts
open Journal (Kind Write Execution JournalEntry Ledger operationMutatesState
  operationBlocksAutomaticRestore interruptedRuntimeTransition loadJournal newJournalEntry)
open Replays (Binds Free Moves Round Stays)
open Maintenance.Incidents (sampleSizes sampleTime)
open Maintenance.Observations (DiskState InstanceState Sizes Store qualifies restartableError restartLimit)
open Maintenance.Calls (view restart_observe restart_verdict)

def Listed (j : Ledger) (x : Execution) (states : List Journal.State) : Prop :=
  ∃ e, j.lookup x.operationID = some e ∧ e.state ∈ states ∧ Binds e x

variable {j : Ledger} {x y : Execution} {states : List Journal.State} {s t : Journal.Supervisor}

variable {operationID : String}

theorem Listed.insert (h : Listed j x states) (hne : x.operationID ≠ operationID)
    (entry : JournalEntry) : Listed (j.insert operationID entry) x states := by
  obtain ⟨e, he, hstate, hbinds⟩ := h
  exact ⟨e, by rw [lookup_insert_ite, if_neg hne, he], hstate, hbinds⟩

theorem Listed.erase (h : Listed j x states)
    (hne : x.operationID ≠ operationID) : Listed (j.erase operationID) x states := by
  obtain ⟨e, he, hstate, hbinds⟩ := h
  exact ⟨e, by rw [lookup_erase_ite, if_neg hne, he], hstate, hbinds⟩

theorem Listed.mono {states' : List Journal.State} (h : Listed j x states)
    (hsub : states ⊆ states') : Listed j x states' := by
  obtain ⟨e, he, hstate, hbinds⟩ := h
  exact ⟨e, he, hsub hstate, hbinds⟩

variable {kind : Kind} {e : Journal.Envelope}

theorem Listed.not_free (h : Listed s.journal x [.running])
    {repair : Bool} (hfree : Free s kind e repair) : x.operationID ≠ e.operationID := by
  intro heq
  obtain ⟨entry, hentry, hstate, -⟩ := h
  rw [heq] at hentry
  cases hfree with
  | unused hlookup =>
    rw [hlookup] at hentry
    cases hentry
  | repair hlookup _ hinterrupted =>
    rw [hlookup] at hentry
    cases hentry
    rw [hinterrupted, mem_singleton] at hstate
    cases hstate

def Filed (s : Journal.Supervisor) : Prop :=
  ∀ x ∈ s.running, Listed s.journal x [.running] ∧ Listed s.disk x [.running]

theorem Filed.persist (h : Filed s) (w : Write) : Filed (s.persist w) := by
  intro x hx
  rw [Replays.persist_running] at hx
  obtain ⟨hjournal, hdisk⟩ := h x hx
  rw [Replays.persist_journal]
  refine ⟨hjournal, ?_⟩
  rcases Replays.persist_disk s w with heq | heq
  · rw [heq]
    exact hdisk
  · rw [heq]
    exact hjournal

theorem Filed.round (h : Filed s) {w : Write} (hround : Round s kind e w t) : Filed t := by
  cases hround with
  | answers => exact h
  | @interrupts previous _ _ _ hnone ht =>
    subst ht
    refine Filed.persist (fun x hx ↦ ?_) w
    exact ⟨(h x hx).1.insert (hnone x hx) _, (h x hx).2⟩
  | @starts repair _ _ hfree _ hjournal hdisk hrunning _ _ =>
    intro x hx
    rw [hdisk, hjournal]
    rw [hrunning, mem_append, mem_singleton] at hx
    suffices hlisted : Listed (s.journal.insert e.operationID (newJournalEntry kind e)) x [.running]
      from ⟨hlisted, hlisted⟩
    rcases hx with hx | rfl
    · exact (h x hx).1.insert ((h x hx).1.not_free hfree) _
    · exact ⟨_, AList.lookup_insert _, mem_singleton_self _,
        Replays.binds_newJournalEntry kind e repair⟩
  | fails _ hfree _ hjournal hdisk hrunning _ _ =>
    intro x hx
    rw [hrunning] at hx
    obtain ⟨hlisted, hlisted'⟩ := h x hx
    have hne := hlisted.not_free hfree
    refine ⟨?_, ?_⟩
    · rw [hjournal]
      exact (hlisted.insert hne _).erase hne
    rcases hdisk with hdisk | hdisk
    · rw [hdisk]
      exact hlisted'
    · rw [hdisk]
      exact hlisted.insert hne _

theorem Filed.finish (h : Filed s) (hx : x ∈ s.running) (outcome : Except String String)
    (w : Write) : Filed (Journal.finish s x outcome w) := by
  obtain ⟨⟨entry, hentry, -⟩, -⟩ := h x hx
  obtain ⟨hjournal, hdisk, hrunning, -⟩ := Replays.finish_eq hentry outcome w
  intro y hy
  rw [hrunning] at hy
  obtain ⟨hy, hne⟩ := mem_filter.mp hy
  have hlisted : Listed (Journal.finish s x outcome w).journal y [.running] := by
    rw [hjournal]
    exact (h y hy).1.insert (of_decide_eq_true hne) _
  refine ⟨hlisted, ?_⟩
  rcases hdisk with hdisk | hdisk
  · rw [hdisk]
    exact (h y hy).2
  · rw [hdisk]
    exact hlisted

theorem filed_of_idle (h : s.running = []) : Filed s := by
  intro x hx
  rw [h] at hx
  exact (not_mem_nil hx).elim

theorem Filed.step (h : Filed s) {a : Journal.Action} (hmoves : Moves s a t) : Filed t := by
  cases hmoves with
  | call _ hround => exact h.round hround
  | finish _ hx => exact h.finish hx _ _
  | persist => exact h.persist _
  | crash => exact filed_of_idle rfl
  | start => exact filed_of_idle (Replays.load_eq s _).2.1

structure Held (x : Execution) (s : Journal.Supervisor) : Prop where
  disk : Listed s.disk x [.running, .interrupted]
  journal : s.up = true → Listed s.journal x [.interrupted]
  running : ∀ y ∈ s.running, y.operationID ≠ x.operationID

theorem Held.disk_of_up (h : Held x s) (hup : s.up) : Listed s.journal x [.running, .interrupted] :=
  (h.journal hup).mono (by simp)

theorem Held.persist (h : Held x s) (hup : s.up) (w : Write) : Held x (s.persist w) where
  disk := by
    rcases Replays.persist_disk s w with heq | heq
    · rw [heq]
      exact h.disk
    · rw [heq]
      exact h.disk_of_up hup
  journal := fun _ ↦ by
    rw [Replays.persist_journal]
    exact h.journal hup
  running := by
    rw [Replays.persist_running]
    exact h.running

theorem Held.round (h : Held x s) (hup : s.up) {w : Write} (hround : Round s kind e w t)
    (hne : x.operationID ≠ e.operationID) : Held x t := by
  have hlisted := h.journal hup
  cases hround with
  | answers => exact h
  | @interrupts previous _ _ _ _ ht =>
    subst ht
    have hmid : Held x { s with
        journal := s.journal.insert e.operationID
          (Journal.interrupt previous Journal.interruptedBeforeCompletion) } :=
      ⟨h.disk, fun _ ↦ hlisted.insert hne _, h.running⟩
    exact hmid.persist hup w
  | starts _ _ _ hjournal hdisk hrunning _ _ =>
    refine ⟨?_, fun _ ↦ ?_, fun y hy ↦ ?_⟩
    · rw [hdisk, hjournal]
      exact (h.disk_of_up hup).insert hne _
    · rw [hjournal]
      exact hlisted.insert hne _
    rw [hrunning, mem_append, mem_singleton] at hy
    rcases hy with hy | rfl
    · exact h.running y hy
    · exact hne.symm
  | fails _ _ _ hjournal hdisk hrunning _ _ =>
    refine ⟨?_, fun _ ↦ ?_, ?_⟩
    · rcases hdisk with hdisk | hdisk
      · rw [hdisk]
        exact h.disk
      · rw [hdisk]
        exact (h.disk_of_up hup).insert hne _
    · rw [hjournal]
      exact (hlisted.insert hne _).erase hne
    · rw [hrunning]
      exact h.running

theorem Held.handle_eq (h : Held x s) (hup : s.up) {w : Write} (hid : e.operationID = x.operationID)
    (hstarted : ∀ repair, (Journal.handle s kind e w).1 ≠ .started repair)
    (hwritten : (Journal.handle s kind e w).1 ≠ .unwritten) :
    (Journal.handle s kind e w).2 = s := by
  obtain ⟨entry, hentry, hstate, -⟩ := h.journal hup
  rw [mem_singleton] at hstate
  have hlookup : s.journal.lookup e.lowered.operationID = some entry := by
    rw [show e.lowered.operationID = e.operationID from rfl, hid, hentry]
  unfold Journal.handle at hstarted hwritten ⊢
  simp only [hlookup, hstate] at hstarted hwritten ⊢
  split
  · rfl
  next hmatch =>
  rw [if_neg hmatch] at hstarted hwritten
  unfold Journal.begin at hstarted hwritten ⊢
  split
  · rfl
  next hkey =>
  rw [if_neg hkey] at hstarted hwritten
  by_cases hw : w = .done
  · simp [hw] at hstarted
  · simp [hw] at hwritten

theorem Held.finish (h : Held x s) (hup : s.up) (hfiled : Filed s) (hy : y ∈ s.running)
    (outcome : Except String String) (w : Write) : Held x (Journal.finish s y outcome w) := by
  obtain ⟨⟨entry, hentry, -⟩, -⟩ := hfiled y hy
  obtain ⟨hjournal, hdisk, hrunning, -⟩ := Replays.finish_eq hentry outcome w
  have hne : x.operationID ≠ y.operationID := (h.running y hy).symm
  refine ⟨?_, fun _ ↦ ?_, fun z hz ↦ ?_⟩
  · rcases hdisk with hdisk | hdisk
    · rw [hdisk]
      exact h.disk
    · rw [hdisk, hjournal]
      exact (h.disk_of_up hup).insert hne _
  · rw [hjournal]
    exact (h.journal hup).insert hne _
  · rw [hrunning] at hz
    exact h.running z (mem_of_mem_filter hz)

theorem listed_loadJournal (h : Listed j x [.running, .interrupted]) :
    Listed (loadJournal j) x [.interrupted] := by
  obtain ⟨e, he, hstate, hbinds⟩ := h
  refine ⟨Journal.loaded e, ?_, ?_, hbinds.loaded⟩
  · rw [loadJournal, lookup_mapValues, he]
    rfl
  unfold Journal.loaded
  split
  · exact mem_singleton_self _
  next hnot =>
  rw [mem_cons, mem_singleton] at hstate
  rw [mem_singleton]
  exact hstate.resolve_left hnot

theorem held_load (h : Listed s.disk x [.running, .interrupted]) (w : Write) :
    Held x (Journal.load s w) := by
  obtain ⟨hjournal, hrunning, -, hdisk⟩ := Replays.load_eq s w
  have hlisted : Listed (Journal.load s w).journal x [.interrupted] := by
    rw [hjournal]
    exact listed_loadJournal h
  refine ⟨?_, fun _ ↦ hlisted, ?_⟩
  · rcases hdisk with hdisk | hdisk
    · rw [hdisk]
      exact h
    · rw [hdisk]
      exact hlisted.mono (by simp)
  · rw [hrunning]
    nofun

theorem isSome_foldl_of_mem {α β : Type} {f : Option β → α → Option β} {a : α} {l : List α}
    {blocker : Option β} (hkeeps : ∀ b z, b.isSome → (f b z).isSome)
    (hmakes : ∀ b, (f b a).isSome) (ha : a ∈ l) :
    (l.foldl f blocker).isSome := by
  have hfold (l : List α) (b : Option β) (hb : b.isSome) : (l.foldl f b).isSome :=
    foldlRecOn l f hb fun b hb z _ ↦ hkeeps b z hb
  obtain ⟨before, after, rfl⟩ := append_of_mem ha
  rw [foldl_append, foldl_cons]
  exact hfold after _ (hmakes _)

theorem isSome_interruptedRuntimeTransition {id : String} {desired : Nat}
    (h : Listed j x [.interrupted]) (hid : x.envelope.pluginID = id)
    (hkind : operationBlocksAutomaticRestore x.kind) (hle : desired ≤ x.envelope.revision) :
    (interruptedRuntimeTransition j id desired).isSome := by
  obtain ⟨e, he, hstate, hbinds⟩ := h
  rw [mem_singleton] at hstate
  have hblocks : ¬ (e.pluginID ≠ id ∨ e.state ≠ .interrupted ∨
      operationBlocksAutomaticRestore e.kind = false ∨ e.revision < desired) := by
    rw [hbinds.plugin, hstate, hbinds.kind, hkind, hbinds.revision]
    simp [hid, hle]
  have hmem : ⟨x.operationID, e⟩ ∈ j.entries := AList.mem_lookup_iff.mp he
  unfold interruptedRuntimeTransition
  refine isSome_foldl_of_mem ?_ ?_ hmem
  · intro blocker z hsome
    split
    · exact hsome
    · split
      · rfl
      · split <;> rfl
  · intro blocker
    rw [if_neg hblocks]
    split
    · rfl
    · split <;> rfl

def code (s : Agent) (failure : Failure) : String :=
  if s.system.plugin.registered = none then exitCode s.lastError else maintenanceErrorCode failure

def failing (id : String) (s : Agent) (now : Int) (failure : Failure) : InstanceState :=
  ((view s.file ⟨id, id⟩).advance now).fail now (code s failure)

def Sheltered (st : PluginState) : Prop :=
  st.cleanupPending = true ∨ st.enabled = false ∧ st.health ≠ .unhealthy

def Spared (id : String) (s : Agent) (now : Int) (failure : Failure) : Prop :=
  (∀ st ∈ s.system.plugin.state, Sheltered st) ∨ id ≠ machineTelemetry ∨
    restartableError (code s failure) = false ∨ now ≤ (view s.file ⟨id, id⟩).lastObservedAt ∨
    qualifies (failing id s now failure) now (code s failure) = false ∨
    restartLimit ≤ (failing id s now failure).restartTimes.length

instance (st : PluginState) : Decidable (Sheltered st) :=
  inferInstanceAs (Decidable (_ ∨ _ ∧ _))

instance (id : String) (s : Agent) (now : Int) (failure : Failure) :
    Decidable (Spared id s now failure) :=
  inferInstanceAs (Decidable (_ ∨ _ ∨ _ ∨ _ ∨ _ ∨ _))

variable {a : Monitor.Action} {calls : Maintenance.Observations.Calls} {failure : Failure}
  {answers : List Bool} {attempt : Attempt} {n revision : Nat}
  {file : Option DiskState} {state : Option PluginState}

section

variable {capable : String → Bool} {id : String} {sizes : Sizes} {store : Store} {s t : Agent}
  {I : Plugin → Prop}

theorem Spared.not_tripped {now : Int}
    (h : Spared id s now failure) {w u : Now} (hw : w.now = s.system.plugin)
    (hagrees : (Attempt.round now calls failure).agrees id sizes store s (answered w u))
    (st : PluginState) : ¬ Tripped w u st := by
  rintro ⟨hst, hlive, hfaulty, hrestart⟩
  rw [hw] at hst hfaulty
  have hobserved := List.all_eq_true.mp hagrees _ hrestart
  obtain ⟨out, hout, hdecided⟩ := (Option.any_eq_true _ _).mp (of_decide_eq_true hobserved).symm
  have hcode : s.observation id failure (answered w u) =
      some (maintenanceObservation id st (code s failure)) := by
    rw [Agent.observation, hst, map_some, hfaulty.errorCode]
    rfl
  rw [Agent.observed, hcode, map_some, Option.some.injEq] at hout
  rw [← hout] at hdecided
  have hkey : (maintenanceObservation id st (code s failure)).key = ⟨id, id⟩ := by
    simp [Maintenance.Observations.Observation.key, maintenanceObservation]
  obtain ⟨hlater, hverdict⟩ := restart_observe hdecided
  obtain ⟨hallowed, hrestartable, hqualifies, hlimit⟩ := restart_verdict hverdict
  rw [hkey] at hlater hqualifies hlimit
  rcases h with hsheltered | hid | hcode | htime | hearly | hbudget
  · rcases hsheltered st hst with hpending | ⟨henabled, hhealth⟩
    · rw [hfaulty.clear] at hpending
      cases hpending
    rcases hlive with hlive | hlive
    · rw [henabled] at hlive
      cases hlive
    · exact hhealth hlive
  · exact hid (of_decide_eq_true hallowed)
  · rw [show restartableError (code s failure) = true from hrestartable] at hcode
    cases hcode
  · exact absurd hlater (not_lt.mpr htime)
  · rw [show qualifies (failing id s now failure) now (code s failure) = true from hqualifies]
      at hearly
    cases hearly
  · exact absurd hlimit (not_lt.mpr hbudget)

def attempted : Monitor.Action → Option Attempt
  | .run attempt _ _ | .crash attempt _ _ _ => some attempt
  | _ => none

def newAnswers (capable : String → Bool) (s : Agent) (task : Task) (answers : List Bool) (n : Nat) :
    List (Query × Bool) :=
  ((scenes capable s.system task answers)[n]?.map (answered (task.begin s.system answers))).getD []

inductive Happens (capable : String → Bool) (id : String) (sizes : Sizes) (store : Store)
    (s : Agent) : Monitor.Action → Agent → Prop
  | journal {a : Journal.Action} {j : Journal.Supervisor} : Stays a = true →
      Journal.step s.journal a = some j →
      Happens capable id sizes store s (.journal a) { s with journal := j }
  | store {a : Maintenance.Observations.Action} : Happens capable id sizes store s (.store a)
      { s with file := (a.outcome sizes s.file).file }
  | run {attempt : Attempt} {answers : List Bool} {error : String} {task : Task} {u : Now} :
      attempt.begins id s = some task → task.enabled s.system = true →
      u = (task.program capable (task.begin s.system answers)).state →
      attempt.agrees id sizes store s (answered (task.begin s.system answers) u) = true →
      Happens capable id sizes store s (.run attempt answers error)
        ⟨attempt.journal s, s.system.after task u,
          attempt.lastError id s (answered (task.begin s.system answers) u) error,
          attempt.file id sizes store s (answered (task.begin s.system answers) u)⟩
  | exit {i : Nat} : Happens capable id sizes store s (.exit i)
      { s with system := { s.system with plugin := s.system.plugin.leave i } }
  | crash {attempt : Attempt} {answers : List Bool} {n : Nat} {saved : Bool} {task : Task}
      {p : Plugin} : attempt.begins id s = some task → task.enabled s.system = true →
      attempt.agrees id sizes store s (newAnswers capable s task answers n) = true →
      p = (moments capable s.system task answers)[n]?.getD (task.opening s.system) →
      Happens capable id sizes store s (.crash attempt answers n saved)
        (s.crashed id sizes store attempt (newAnswers capable s task answers n)
          { s.system with
            up := false
            plugin := (if saved then { p with disk := p.state } else p).dead })
  | fail {write : Write} : Happens capable id sizes store s (.fail write)
      { s with journal := Journal.load s.journal write }

theorem happens_of_step (h : Monitor.step capable id sizes store s a = some t) :
    Happens capable id sizes store s a t := by
  cases a with
  | journal a =>
    obtain ⟨hstays, h⟩ := ite_none_right_eq_some.mp h
    obtain ⟨j, hj, rfl⟩ := map_eq_some_iff.mp h
    exact .journal hstays hj
  | store a =>
    cases h
    exact .store
  | run attempt answers error =>
    obtain ⟨task, htask, h⟩ := bind_eq_some_iff.mp h
    obtain ⟨hagrees, h⟩ := ite_none_right_eq_some.mp h
    obtain ⟨u, hu, rfl⟩ := map_eq_some_iff.mp h
    obtain ⟨henabled, hu⟩ := ite_none_right_eq_some.mp hu
    cases hu
    exact .run htask henabled rfl hagrees
  | exit i =>
    cases h
    exact .exit
  | crash attempt answers n saved =>
    obtain ⟨task, htask, h⟩ := bind_eq_some_iff.mp h
    obtain ⟨hagrees, h⟩ := ite_none_right_eq_some.mp h
    obtain ⟨u, hu, rfl⟩ := map_eq_some_iff.mp h
    obtain ⟨henabled, hu⟩ := ite_none_right_eq_some.mp hu
    cases hu
    exact .crash htask henabled hagrees rfl
  | fail write =>
    obtain ⟨-, h⟩ := ite_none_left_eq_some.mp h
    cases h
    exact .fail

def Quiet (I : Plugin → Prop) (id : String) (s : Agent) : Attempt → Prop
  | .execute operationID o => ∀ y ∈ s.journal.running, y.operationID = operationID →
      Harmless I o y.repairReplay s.system.plugin.state y.kind
  | .task _ => True
  | .round now _ failure => Spared id s now failure
  | .start _ => s.system.plugin.disk = none ∨ (s.blocker id).isSome = true ∨
      ∀ p, I p → ∀ st ∈ p.state, st.enabled = false

theorem mem_scenes {C : Now → Prop} {task : Task}
    (h : Sat (task.program capable) (task.begin s.system answers) C fun _ t ↦ C t) {u : Now}
    (hu : u ∈ scenes capable s.system task answers) : C u := by
  rcases mem_append.mp hu with hu | hu
  · exact h.points u hu
  · rw [mem_singleton.mp hu]
    exact h.ends

theorem kept_round (hpersist : ∀ p r, I p → I (p.persist r))
    (hhealth : ∀ p health, I p → (∀ st ∈ p.state, st.enabled ∨ st.health = .unhealthy) →
      I { p with state := p.state.map fun st ↦ { st with health := health } })
    (h : I s.system.plugin) {now : Int} (hspared : Spared id s now failure) {u : Now}
    (hu : u ∈ scenes capable s.system .maintenance answers)
    (hagrees : (Attempt.round now calls failure).agrees id sizes store s
      (answered (Task.begin s.system .maintenance answers) u)) : I u.now := by
  have hsat : Sat (Task.program capable .maintenance) (Task.begin s.system .maintenance answers)
      (fun t ↦ I t.now ∨ ∃ st, Tripped (Task.begin s.system .maintenance answers) t st)
      fun _ t ↦ I t.now ∨ ∃ st, Tripped (Task.begin s.system .maintenance answers) t st :=
    spared_maintenance hpersist hhealth h
  refine (mem_scenes hsat hu).resolve_right ?_
  rintro ⟨st, htripped⟩
  exact hspared.not_tripped rfl hagrees st htripped

theorem kept_scenes (hI : Lasting I) (h : I s.system.plugin) {task : Task}
    (hbegins : attempt.begins id s = some task) (henabled : task.enabled s.system)
    (hquiet : Quiet I id s attempt) {u : Now} (hu : u ∈ scenes capable s.system task answers)
    (hagrees : attempt.agrees id sizes store s (answered (task.begin s.system answers) u)) :
    I u.now := by
  have hidle : task ≠ .observe := by
    rintro rfl
    simp [Task.enabled, Plugin.exitedProcess, hI.idle _ h] at henabled
  have hprogram (hstart : task ≠ .start) (hmaintenance : task ≠ .maintenance)
      (hoperation : ∀ kind o repairReplay, task = .operation kind o repairReplay →
        Harmless I o repairReplay s.system.plugin.state kind) : I u.now := by
    have hholds : Holds I (task.program capable) (task.begin s.system answers) fun _ _ ↦ True :=
      hI.program h hstart hidle hmaintenance hoperation
    exact mem_scenes (C := fun t ↦ I t.now) (hholds.mono (fun _ hc ↦ hc) fun _ _ ht ↦ ht.1) hu
  cases attempt with
  | execute operationID o =>
    obtain ⟨y, hy, hbegins⟩ := bind_eq_some_iff.mp hbegins
    obtain ⟨-, hbegins⟩ := ite_none_right_eq_some.mp hbegins
    cases hbegins
    have hharmless := hquiet y (mem_of_find?_eq_some hy) (by simpa using find?_some hy)
    refine hprogram (by simp) (by simp) ?_
    rintro kind o' repair ⟨⟩
    exact hharmless
  | task other =>
    cases other with
    | operation | maintenance | start => cases hbegins
    | install | close | save =>
      cases hbegins
      exact hprogram (by simp) (by simp) (by simp)
    | observe =>
      cases hbegins
      exact absurd rfl hidle
  | round now calls failure =>
    cases hbegins
    exact kept_round hI.persist hI.health h hquiet hu hagrees
  | start write =>
    obtain ⟨-, hbegins⟩ := ite_none_right_eq_some.mp hbegins
    cases hbegins
    have hsat : Sat (Task.program capable .start) (Task.begin s.system .start answers)
        (fun t ↦ I t.now ∨ Resumed I (Task.begin s.system .start answers) t)
        fun _ t ↦ I t.now ∨ Resumed I (Task.begin s.system .start answers) t :=
      hI.newSupervisor h
    refine (mem_scenes hsat hu).resolve_right ?_
    rintro ⟨hdisk, ⟨p, hp, st, hst, hentry⟩, hinterrupted⟩
    rcases hquiet with hnone | hblocked | hdisabled
    · exact hdisk hnone
    · have hanswer := List.all_eq_true.mp hagrees _ hinterrupted
      rw [decide_eq_true_eq, hblocked] at hanswer
      cases hanswer
    · rw [hdisabled p hp st hst] at hentry
      cases hentry

theorem kept_moment {task : Task} (hopening : I (task.opening s.system))
    (hscenes : ∀ u ∈ scenes capable s.system task answers, attempt.agrees id sizes store s
      (answered (task.begin s.system answers) u) → I u.now)
    (hagrees : attempt.agrees id sizes store s (newAnswers capable s task answers n)) :
    I ((moments capable s.system task answers)[n]?.getD (task.opening s.system)) := by
  rw [← map_scenes, getElem?_map]
  unfold newAnswers at hagrees
  cases hscene : (scenes capable s.system task answers)[n]? with
  | none => exact hopening
  | some u =>
    rw [hscene] at hagrees
    exact hscenes u (mem_of_getElem? hscene) hagrees

theorem mem_scenes_end (task : Task) (answers : List Bool) :
    (task.program capable (task.begin s.system answers)).state ∈
      scenes capable s.system task answers :=
  mem_append_right _ (mem_singleton_self _)

theorem kept_step (hI : Lasting I) (h : I s.system.plugin)
    (hstep : Happens capable id sizes store s a t)
    (hquiet : ∀ attempt ∈ attempted a, Quiet I id s attempt) : I t.system.plugin := by
  cases hstep with
  | journal | store | fail => exact h
  | run hbegins henabled hu hagrees =>
    subst hu
    exact kept_scenes hI h hbegins henabled (hquiet _ rfl) (mem_scenes_end _ _) hagrees
  | exit => exact hI.leave _ _ h
  | @crash attempt answers n saved task p hbegins henabled hagrees hp =>
    have hopening : I (task.opening s.system) := by
      unfold Task.opening
      split
      · exact hI.load _ h
      · exact h
    refine hI.dead p saved ?_
    rw [hp]
    exact kept_moment hopening
      (fun u hu hagrees ↦ kept_scenes hI h hbegins henabled (hquiet _ rfl) hu hagrees) hagrees

theorem sound_system (h : Steps (Monitor.step capable id sizes store) (Monitor.initial file) s) :
    Supervision.Sound capable s.system := by
  refine h.invariant (I := fun s ↦ Supervision.Sound capable s.system) sound_initial ?_
  intro s a t hs _ hstep
  cases happens_of_step hstep with
  | journal | store | fail => exact hs
  | @run attempt answers error task u _ henabled hu _ =>
    subst hu
    exact sound_step hs (a := .run task answers) (if_pos henabled)
  | @exit i => exact sound_step hs (a := .exit i) rfl
  | @crash attempt answers n saved task p _ henabled _ hp =>
    subst hp
    exact sound_step hs (a := .crash task answers n saved) (if_pos henabled)

theorem filed_step (h : Filed s.journal)
    (hstep : Happens capable id sizes store s a t) : Filed t.journal := by
  cases hstep with
  | journal _ hj => exact h.step (Replays.moves_of_step hj)
  | store | exit => exact h
  | @run attempt =>
    cases attempt with
    | start write => exact filed_of_idle (Replays.load_eq _ write).2.1
    | _ => exact h
  | crash => exact filed_of_idle rfl
  | @fail write => exact filed_of_idle (Replays.load_eq _ write).2.1

theorem filed_journal (h : Steps (Monitor.step capable id sizes store) (Monitor.initial file) s) :
    Filed s.journal :=
  h.invariant (I := fun s ↦ Filed s.journal) (filed_of_idle rfl) fun _ _ _ hs _ hstep ↦
    filed_step hs (happens_of_step hstep)

def mayStart : Kind → Bool
  | .configure | .enable | .update | .rollback => true
  | _ => false

/-- No operation newer than `x` is executed, no other one that may start a process gets past the
check of its revision, and a round has no cause for a restart. -/
def Waits (id : String) (x : Execution) (s : Agent) : Attempt → Prop
  | .execute operationID o => ∀ y ∈ s.journal.running, y.operationID = operationID →
      (operationMutatesState y.kind = true → o.revision ≤ x.envelope.revision) ∧
      (mayStart y.kind = true →
        rejectStaleRevision o y.repairReplay s.system.plugin.state = true)
  | .round now _ failure => Spared id s now failure
  | _ => True

/-- The exact replay of `x` is not begun, nor does its journaling fail. -/
def Holding (id : String) (x : Execution) (s : Agent) : Monitor.Action → Prop
  | .journal (.call kind e write) => e.operationID = x.operationID →
      (∀ repair, (Journal.handle s.journal kind e write).1 ≠ .started repair) ∧
        (Journal.handle s.journal kind e write).1 ≠ .unwritten
  | .run attempt _ _ | .crash attempt _ _ _ => Waits id x s attempt
  | _ => True

instance (id : String) (x : Execution) (s : Agent) (attempt : Attempt) :
    Decidable (Waits id x s attempt) := by
  cases attempt <;> unfold Waits <;> infer_instance

instance (id : String) (x : Execution) (s : Agent) (a : Monitor.Action) :
    Decidable (Holding id x s a) := by
  unfold Holding
  split <;> infer_instance

abbrev UpTo (revision : Nat) (st : PluginState) : Prop := st.desiredRevision ≤ revision

theorem lasting_upTo (revision n : Nat) : Lasting (Rest (UpTo revision) n) := by
  refine lasting_rest ?_ ?_ ?_
  · intro version ok st hst
    rw [UpTo, desiredRevision_recovered]
    exact hst
  · intro st health hst _
    exact hst
  · intro version
    exact Nat.zero_le _

theorem installed_of {P : PluginState → Prop} {version : String}
    (hnew : P ⟨version, "", "", false, .installed, "", 0, 0, false, ""⟩)
    (hraised : ∀ st, P st → P { st with
      desiredRevision := max st.desiredRevision revision
      observedRevision := max st.observedRevision revision })
    (h : ∀ st ∈ state, P st) : P (installed version revision state) := by
  have hst : P (state.getD ⟨version, "", "", false, .installed, "", 0, 0, false, ""⟩) := by
    cases state with
    | none => exact hnew
    | some st => exact h st rfl
  unfold installed
  dsimp only
  split
  · exact hraised _ hst
  · exact hst

theorem harmless_of_waits {o : Operation} {repair : Bool}
    (hnewer : operationMutatesState kind → o.revision ≤ revision)
    (hstale : mayStart kind → rejectStaleRevision o repair state) :
    Harmless (Rest (UpTo revision) n) o repair state kind := by
  cases kind with
  | inspect => exact .inspect
  | health => exact .health
  | configure | enable | update | rollback => exact .stale rfl (hstale rfl)
  | install =>
    refine .install fun p hp ↦ hp.grow (l := []) ?_ hp.disk hp.registered (by simp) nofun
    rintro - ⟨⟩
    exact installed_of (Nat.zero_le _) (fun _ hst ↦ max_le hst (hnewer rfl)) hp.state
  | disable =>
    refine .disable fun p safe removed owing version hp ↦ hp.grow ?_ hp.disk hp.registered rfl ?_
    · intro st hst
      obtain ⟨st', hst', rfl⟩ := Option.mem_map.mp hst
      exact max_le (hp.state st' hst') (hnewer rfl)
    · intro version'
      cases owing <;> simp [noted]

/-- After a crash that interrupted `x` and before its replay: the journal has the interrupted
entry, and the plugin is at rest. -/
structure Waiting (x : Execution) (n : Nat) (s : Agent) : Prop where
  filed : Filed s.journal
  held : Held x s.journal
  rest : Rest (UpTo x.envelope.revision) n s.system.plugin

theorem Waiting.quiet (h : Waiting x n s) (hid : x.envelope.pluginID = id)
    (hkind : operationBlocksAutomaticRestore x.kind) (hwaits : Waits id x s attempt) :
    Quiet (Rest (UpTo x.envelope.revision) n) id s attempt := by
  cases attempt with
  | execute operationID o =>
    intro y hy hyid
    obtain ⟨hnewer, hstale⟩ := hwaits y hy hyid
    exact harmless_of_waits hnewer hstale
  | task => exact trivial
  | round now calls failure => exact hwaits
  | start write =>
    cases hdisk : s.system.plugin.disk with
    | none => exact .inl hdisk
    | some st =>
      refine .inr (.inl ?_)
      rw [Agent.blocker, hdisk, bind_some]
      exact isSome_interruptedRuntimeTransition (listed_loadJournal h.held.disk) hid hkind
        (h.rest.disk st hdisk)

theorem Waiting.held_step (h : Waiting x n s) (hholding : Holding id x s a)
    (hstep : Happens capable id sizes store s a t) : Held x t.journal := by
  cases hstep with
  | @journal a j hstays hj =>
    cases a with
    | call kind e write =>
      obtain ⟨hup, hj⟩ := ite_none_right_eq_some.mp hj
      cases hj
      by_cases heq : e.operationID = x.operationID
      · obtain ⟨hstarted, hwritten⟩ := hholding heq
        rw [h.held.handle_eq hup heq hstarted hwritten]
        exact h.held
      · exact h.held.round hup (Replays.round_handle s.journal kind e write) (Ne.symm heq)
    | finish operationID outcome write =>
      cases Replays.moves_of_step hj with
      | finish hup hy => exact h.held.finish hup h.filed hy outcome write
    | persist write =>
      cases Replays.moves_of_step hj with
      | persist hup => exact h.held.persist hup write
    | crash | start => cases hstays
  | store | exit => exact h.held
  | @run attempt =>
    cases attempt with
    | start write => exact held_load h.held.disk write
    | _ => exact h.held
  | @crash attempt =>
    refine ⟨?_, nofun, nofun⟩
    cases attempt with
    | start write => exact (held_load h.held.disk write).disk
    | _ => exact h.held.disk
  | @fail write => exact held_load h.held.disk write

theorem Waiting.step (h : Waiting x n s) (hid : x.envelope.pluginID = id)
    (hkind : operationBlocksAutomaticRestore x.kind) (hholding : Holding id x s a)
    (hstep : Happens capable id sizes store s a t) : Waiting x n t where
  filed := filed_step h.filed hstep
  held := h.held_step hholding hstep
  rest := by
    refine kept_step (lasting_upTo _ n) h.rest hstep fun attempt hattempt ↦ h.quiet hid hkind ?_
    cases a with
    | run | crash => cases hattempt; exact hholding
    | journal | store | exit | fail => cases hattempt

theorem waiting_of_crash {m : Nat} {saved : Bool} (hfiled : Filed s.journal)
    (hx : x ∈ s.journal.running)
    (hstep : Happens capable id sizes store s (.crash attempt answers m saved) t)
    (hdisk : ∀ st ∈ t.system.plugin.disk, st.desiredRevision ≤ x.envelope.revision) :
    Waiting x t.system.plugin.log.length t := by
  have hlisted : Listed s.journal.disk x [.running, .interrupted] :=
    (hfiled x hx).2.mono (by simp)
  refine ⟨filed_step hfiled hstep, ?_, ?_⟩
  · cases hstep with
    | crash =>
      refine ⟨?_, nofun, nofun⟩
      cases attempt with
      | start write => exact (held_load hlisted write).disk
      | _ => exact hlisted
  · have hdead : t.system.plugin.state = none ∧ t.system.plugin.registered = none := by
      cases hstep with
      | crash => exact ⟨rfl, rfl⟩
    refine ⟨?_, hdisk, hdead.2, le_rfl, ?_⟩
    · rw [hdead.1]
      nofun
    · rw [drop_length]
      nofun

/-- After a crash during an operation that blocks the restore, and until that operation is
replayed or a newer one executed, no process is started. -/
theorem restore_deferred_until_replay {file : Option DiskState}
    {u : Agent} {x : Execution} {attempt : Attempt} {answers : List Bool} {n : Nat} {saved : Bool}
    (hreach : Steps (Monitor.step capable id sizes store) (Monitor.initial file) s)
    (hx : x ∈ s.journal.running) (hid : x.envelope.pluginID = id)
    (hkind : operationBlocksAutomaticRestore x.kind = true)
    (hcrash : Monitor.step capable id sizes store s (.crash attempt answers n saved) = some t)
    (hdisk : ∀ st ∈ t.system.plugin.disk, st.desiredRevision ≤ x.envelope.revision)
    (hrun : Reach (Monitor.step capable id sizes store) (Holding id x) t u) :
    ∀ version, .started version ∉
      u.system.plugin.log.drop t.system.plugin.log.length := by
  have hwaiting := waiting_of_crash (filed_journal hreach) hx (happens_of_step hcrash) hdisk
  have hwaiting' : Waiting x t.system.plugin.log.length u :=
    hrun.invariant hwaiting fun _ _ _ h hholding hstep ↦
      h.step hid hkind hholding (happens_of_step hstep)
  exact hwaiting'.rest.log

end

def sampleStore : Store := ⟨"42", .production, "v5.0.0"⟩

abbrev sampleStep : Agent → Monitor.Action → Option Agent :=
  Monitor.step everyVersion machineTelemetry sampleSizes sampleStore

def accepts (operationID : String) (kind : Kind) (revision : Nat) : Monitor.Action :=
  .journal (.call kind (Replays.sample operationID operationID revision) .done)

def executes (operationID : String) (revision : Nat) (answers : List Bool) : Monitor.Action :=
  .run (.execute operationID (sampleOperation revision)) answers ""

def finishes (operationID : String) : Monitor.Action :=
  .journal (.finish operationID (.ok "") .done)

def watches (seconds : Int) (restart : Bool) : Monitor.Action :=
  .run (.round (sampleTime seconds)
    ⟨.ok (), .ok (toString seconds), sampleTime seconds, .done⟩ .permission)
    [true, true, true, true, restart] ""

def disabling : List Monitor.Action :=
  [.run (.start .done) [] "", accepts "a" .install 1, executes "a" 1 [], finishes "a",
    accepts "b" .enable 2, executes "b" 2 [], finishes "b", accepts "c" .disable 3]

def crashes : Monitor.Action := .crash (.execute "c" (sampleOperation 3)) [] 0 false

def starts : Monitor.Action := .run (.start .done) [true, true, false, true] ""

/-- The Supervisor is started and the monitor makes its rounds, and nothing else happens. -/
def Unattended : Monitor.Action → Prop
  | .run (.start _) _ _ | .run (.round ..) _ _ => True
  | _ => False

instance (a : Monitor.Action) : Decidable (Unattended a) := by
  unfold Unattended
  split <;> infer_instance

def underway : Agent := after sampleStep (Monitor.initial none) disabling

theorem steps_underway : Steps sampleStep (Monitor.initial none) underway :=
  steps_after disabling (by decide +kernel)

def interrupted : Agent := after sampleStep underway [crashes]

/-- A disable is interrupted. The restore is held back, and two rounds later still. -/
theorem restore_deferred_until_replay_held :
    ∃ s t u x, Steps sampleStep (Monitor.initial none) s ∧ x ∈ s.journal.running ∧
      sampleStep s crashes = some t ∧
      Reach sampleStep (Holding machineTelemetry x) t u ∧ u.system.up = true ∧
      u.system.plugin.state.any (·.enabled) = true ∧
      ∀ version, .started version ∉ u.system.plugin.log.drop t.system.plugin.log.length := by
  obtain ⟨x, hx, hid, hkind, hdisk, hwait⟩ : ∃ x ∈ underway.journal.running,
      x.envelope.pluginID = machineTelemetry ∧ operationBlocksAutomaticRestore x.kind = true ∧
      (∀ st ∈ interrupted.system.plugin.disk, st.desiredRevision ≤ x.envelope.revision) ∧
      (execWhen sampleStep (Holding machineTelemetry x) interrupted
        [starts, watches 0 false, watches 60 false]).isSome := by decide +kernel
  have hwait := reach_after _ hwait
  have hcrash : sampleStep underway crashes = some interrupted := step_after (by decide +kernel)
  exact ⟨_, _, _, x, steps_underway, hx, hcrash, hwait, by decide +kernel, by decide +kernel,
    restore_deferred_until_replay steps_underway hx hid hkind hcrash hdisk hwait⟩

/-- The third round restarts the process whose disable was interrupted. -/
theorem restore_deferred_then_restarted :
    ∃ s t u x, Steps sampleStep (Monitor.initial none) s ∧ x ∈ s.journal.running ∧
      x.envelope.pluginID = machineTelemetry ∧ x.kind = .disable ∧
      sampleStep s crashes = some t ∧ Reach sampleStep (fun _ a ↦ Unattended a) t u ∧
      .started "1.0.0" ∈ u.system.plugin.log.drop t.system.plugin.log.length := by
  obtain ⟨x, hx, hid, hkind⟩ : ∃ x ∈ underway.journal.running,
      x.envelope.pluginID = machineTelemetry ∧ x.kind = .disable := by decide +kernel
  exact ⟨_, _, _, x, steps_underway, hx, hid, hkind,
    step_after (by decide +kernel),
    reach_after [starts, watches 0 false, watches 60 false, watches 120 true] (by decide +kernel),
    by decide +kernel⟩

section

variable {capable : String → Bool} {id : String} {sizes : Sizes} {store : Store} {s t : Agent}

def Shut (st : PluginState) : Prop := st.enabled = false ∧ Sheltered st

theorem lasting_shut (n : Nat) : Lasting (Rest Shut n) := by
  refine lasting_rest ?_ ?_ ?_
  · rintro version ok st ⟨henabled, -⟩
    unfold recovered
    split
    · exact ⟨henabled, .inr ⟨henabled, by simp [henabled]⟩⟩
    · exact ⟨henabled, .inl rfl⟩
  · rintro st health ⟨henabled, hsheltered⟩ hlive
    rw [henabled] at hlive
    refine ⟨henabled, .inl ?_⟩
    rcases hsheltered with hpending | ⟨-, hhealth⟩
    · exact hpending
    · exact absurd (hlive.resolve_left nofun) hhealth
  · exact fun version ↦ ⟨rfl, .inr ⟨rfl, nofun⟩⟩

/-- No lifecycle operation is executed but those that are refused for their revision. -/
def Idling (s : Agent) (a : Monitor.Action) : Prop :=
  ∀ attempt ∈ attempted a, match attempt with
    | .execute operationID o => ∀ y ∈ s.journal.running, y.operationID = operationID →
        operationBlocksAutomaticRestore y.kind = true →
          rejectStaleRevision o y.repairReplay s.system.plugin.state = true
    | _ => True

theorem harmless_of_idling {o : Operation} {repair : Bool}
    (hstale : operationBlocksAutomaticRestore kind → rejectStaleRevision o repair state) :
    Harmless (Rest Shut n) o repair state kind := by
  cases kind with
  | inspect => exact .inspect
  | health => exact .health
  | configure | enable | disable | update | rollback => exact .stale rfl (hstale rfl)
  | install =>
    refine .install fun p hp ↦ hp.grow (l := []) ?_ hp.disk hp.registered (by simp) nofun
    rintro - ⟨⟩
    exact installed_of ⟨rfl, .inr ⟨rfl, nofun⟩⟩ (fun _ hst ↦ hst) hp.state

theorem rest_step (h : Rest Shut n s.system.plugin) (hidling : Idling s a)
    (hstep : Happens capable id sizes store s a t) : Rest Shut n t.system.plugin := by
  refine kept_step (lasting_shut n) h hstep fun attempt hattempt ↦ ?_
  have hallowed := hidling attempt hattempt
  cases attempt with
  | execute operationID o => exact fun y hy hyid ↦ harmless_of_idling (hallowed y hy hyid)
  | task => exact trivial
  | round now calls failure => exact .inl fun st hst ↦ (h.state st hst).2
  | start write => exact .inr (.inr fun p hp st hst ↦ (hp.state st hst).1)

theorem rest_of_sound (hsound : Supervision.Sound capable s.system)
    (hstate : ∀ st ∈ s.system.plugin.state, Shut st)
    (hdisk : ∀ st ∈ s.system.plugin.disk, Shut st) :
    Rest Shut s.system.plugin.log.length s.system.plugin := by
  have hregistered : s.system.plugin.registered = none := by
    cases hsound with
    | down _ hrest => exact hrest.registered
    | up _ hinv =>
      have hplaced : Configurations.Placed s.system.plugin := Configurations.placed_of_inv hinv
      cases hreg : s.system.plugin.registered with
      | none => rfl
      | some i =>
        obtain ⟨st, hst, q, -, henabled, -⟩ := hplaced i hreg
        rw [(hstate st hst).1] at henabled
        cases henabled
  refine ⟨hstate, hdisk, hregistered, le_rfl, ?_⟩
  rw [drop_length]
  nofun

def Enables (state : Option PluginState) : Prop := ∃ st ∈ state, st.enabled = true

structure Unmoved (p q : Plugin) : Prop where
  length : p.log.length ≤ q.log.length
  log : ∀ version, .started version ∉ q.log.drop p.log.length
  state : Enables q.state → Enables p.state
  disk : Enables q.disk → Enables p.state ∨ Enables p.disk

theorem Unmoved.refl (p : Plugin) : Unmoved p p where
  length := le_rfl
  log := by
    rw [drop_length]
    nofun
  state := id
  disk := .inr

theorem Unmoved.grow {p q r : Plugin} (h : Unmoved p q) {l : List Deed}
    (hlog : r.log = q.log ++ l) (hl : ∀ version, .started version ∉ l)
    (hstate : Enables r.state → Enables q.state)
    (hdisk : Enables r.disk → Enables q.state ∨ Enables q.disk) : Unmoved p r where
  length := hlog ▸ (unstarted_append h.length h.log hl).1
  log := hlog ▸ (unstarted_append h.length h.log hl).2
  state := fun henables ↦ h.state (hstate henables)
  disk := fun henables ↦ (hdisk henables).elim (fun hq ↦ .inl (h.state hq)) h.disk

theorem Unmoved.persist {p q : Plugin} (h : Unmoved p q) (r : Write) : Unmoved p (q.persist r) := by
  unfold Plugin.persist
  split
  · exact h.grow rfl (by simp) id .inl
  · exact h

theorem Unmoved.health {p q : Plugin} (h : Unmoved p q) (health : Health) :
    Unmoved p { q with state := q.state.map fun st ↦ { st with health := health } } := by
  refine h.grow (l := []) (by simp) nofun ?_ .inr
  rintro ⟨st, hst, henabled⟩
  obtain ⟨st', hst', rfl⟩ := Option.mem_map.mp hst
  exact ⟨st', hst', henabled⟩

theorem Unmoved.dead {p q : Plugin} (h : Unmoved p q) (saved : Bool) :
    Unmoved p (if saved then { q with disk := q.state } else q).dead := by
  have hsaved : Unmoved p (if saved then { q with disk := q.state } else q) := by
    split
    · exact h.grow (l := []) (by simp) nofun id .inl
    · exact h
  exact hsaved.grow rfl (by simp) nofun .inr

theorem unmoved_round {now : Int} (hround : attempted a = some (.round now calls failure))
    (hspared : Spared id s now failure) (hstep : Happens capable id sizes store s a t) :
    Unmoved s.system.plugin t.system.plugin := by
  have hscenes {answers : List Bool} (u : Now)
      (hu : u ∈ scenes capable s.system .maintenance answers)
      (hagrees : (Attempt.round now calls failure).agrees id sizes store s
        (answered (Task.begin s.system .maintenance answers) u)) :
      Unmoved s.system.plugin u.now :=
    kept_round (fun _ r h ↦ h.persist r) (fun _ health h _ ↦ h.health health) (.refl _) hspared hu
      hagrees
  cases hstep with
  | run hbegins henabled hu hagrees =>
    cases hround
    cases hbegins
    subst hu
    exact hscenes _ (mem_scenes_end _ _) hagrees
  | crash hbegins henabled hagrees hp =>
    cases hround
    cases hbegins
    subst hp
    exact (kept_moment (I := Unmoved s.system.plugin) (.refl _) hscenes hagrees).dead _
  | journal | store | exit | fail => cases hround

/-- A disable of the plugin runs from `s` to `t`, to its end or to a crash. -/
def Disables (capable : String → Bool) (id : String) (sizes : Sizes) (store : Store)
    (s t : Agent) : Prop :=
  ∃ a operationID o, attempted a = some (.execute operationID o) ∧
    ((s.journal.running.find? fun x ↦ x.operationID = operationID).map (·.kind)) = some .disable ∧
    Monitor.step capable id sizes store s a = some t

/-- While no lifecycle operation follows a disable, no round of the monitor starts a process or
enables the plugin. -/
theorem disabled_plugin_unmoved {file : Option DiskState} {u v : Agent}
    {a : Monitor.Action} {now : Int} {calls : Maintenance.Observations.Calls} {failure : Failure}
    (hreach : Steps (Monitor.step capable id sizes store) (Monitor.initial file) s)
    (hdisable : Disables capable id sizes store s t)
    (hrun : Reach (Monitor.step capable id sizes store) Idling t u)
    (hround : attempted a = some (.round now calls failure))
    (hstep : Monitor.step capable id sizes store u a = some v)
    (hleft : (∀ st, st ∈ t.system.plugin.state ∨ st ∈ t.system.plugin.disk → Shut st) ∨
      Spared id u now failure) :
    Unmoved u.system.plugin v.system.plugin := by
  obtain ⟨b, -, -, -, -, hdisable⟩ := hdisable
  refine unmoved_round hround ?_ (happens_of_step hstep)
  rcases hleft with hshut | hspared
  · have hsound := sound_system (hreach.snoc b trivial hdisable)
    have hrest : Rest Shut t.system.plugin.log.length t.system.plugin :=
      rest_of_sound hsound (fun st hst ↦ hshut st (.inl hst)) fun st hst ↦ hshut st (.inr hst)
    have hrest' : Rest Shut t.system.plugin.log.length u.system.plugin :=
      hrun.invariant (I := fun u ↦ Rest Shut _ u.system.plugin) hrest
        fun _ _ _ h hidling hstep ↦ rest_step h hidling (happens_of_step hstep)
    exact .inl fun st hst ↦ (hrest'.state st hst).2
  · exact hspared

end

instance (st : PluginState) : Decidable (Shut st) := inferInstanceAs (Decidable (_ ∧ _))

instance (s : Agent) (a : Monitor.Action) : Decidable (Idling s a) := by
  unfold Idling
  refine @decidableForallMem _ _ (fun attempt ↦ ?_) (attempted a)
  split <;> infer_instance

instance (state : Option PluginState) : Decidable (Enables state) :=
  inferInstanceAs (Decidable (∃ st ∈ state, _))

theorem disables_of_run {s t : Agent}
    (hkind : ((s.journal.running.find? fun x ↦ x.operationID = operationID).map (·.kind)) = some .disable)
    (hstep : sampleStep s (executes operationID revision answers) = some t) :
    Disables everyVersion machineTelemetry sampleSizes sampleStore s t :=
  ⟨_, operationID, sampleOperation revision, rfl, hkind, hstep⟩

/-- The signed cleanup of a disable fails, and the monitor leaves the plugin alone. -/
theorem disabled_plugin_unmoved_owing :
    ∃ s t v, Steps sampleStep (Monitor.initial none) s ∧
      sampleStep s (executes "c" 3 [true, true, true, false]) = some t ∧
      sampleStep t (watches 0 false) = some v ∧ Unmoved t.system.plugin v.system.plugin := by
  have hstep : sampleStep underway (executes "c" 3 [true, true, true, false]) = some _ :=
    step_after (by decide +kernel)
  exact ⟨_, _, _, steps_underway, hstep, step_after (by decide +kernel),
    disabled_plugin_unmoved steps_underway (disables_of_run (by decide +kernel) hstep) .refl rfl
      (step_after (by decide +kernel)) (.inl fun st hst ↦ hst.elim
        ((by decide +kernel : ∀ st ∈ _, Shut st) st) ((by decide +kernel : ∀ st ∈ _, Shut st) st))⟩

/-- The stop of a disable fails although the process is gone, and the third round starts a
process and enables the plugin. -/
theorem disabled_plugin_restarted :
    ∃ s t u v, Steps sampleStep (Monitor.initial none) s ∧
      Disables everyVersion machineTelemetry sampleSizes sampleStore s t ∧
      Reach sampleStep Idling t u ∧ sampleStep u (watches 120 true) = some v ∧
      .started "1.0.0" ∈ v.system.plugin.log.drop u.system.plugin.log.length ∧
      ¬ Enables u.system.plugin.state ∧ Enables v.system.plugin.state := by
  exact ⟨_, _, _, _, steps_underway, disables_of_run (by decide +kernel)
      (step_after (a := executes "c" 3 [true, true, false, true]) (by decide +kernel)),
    reach_after [watches 0 false, watches 60 false] (by decide +kernel),
    step_after (by decide +kernel), by decide +kernel⟩

end AnixAgent.Plugins.Deferrals
