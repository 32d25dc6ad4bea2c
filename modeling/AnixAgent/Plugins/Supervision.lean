import AnixAgent.Plugins.Tasks

namespace AnixAgent.Plugins.Supervision

open Lib.Runs Lib.Crash Lib.Crash.Proc Lib.Answers Lifecycle Debts Upkeep Transitions Operations List Option
open Tasks
open Journal (Write Kind Envelope operationMutatesState journalMatches nil_hashed)

variable {capable : String → Bool} {s t : System} {task : Task}

def now (s : System) : Now := ⟨s.plugin, [], s.asked⟩

variable {w u : Now}

theorem inv_of_same (h : Inv capable w) (hnow : u.now = w.now)
    (hasked : u.asked = w.asked) : Inv capable u := by
  have hkeeps : Keeps w.now u.now := by
    rw [hnow]
    exact ⟨rfl, rfl, .inl rfl, .inl rfl⟩
  exact inv_of_still h (still_of_eq (l := []) hnow (by simp [hasked])
    (h.moment.keeps hkeeps hasked))

structure Resting (capable : String → Bool) (p : Plugin) : Prop where
  disk : ∀ st ∈ p.disk, WellKept st
  state : p.state = none
  registered : p.registered = none
  processes : p.processes = []
  overlap : p.overlap = false
  surviving : Surviving capable p

inductive Sound (capable : String → Bool) (s : System) : Prop
  | up (hup : s.up = true) (h : Inv capable (now s))
  | down (hdown : s.up = false) (h : Resting capable s.plugin)

theorem sound_initial : Sound capable initial :=
  .down rfl ⟨nofun, rfl, rfl, rfl, rfl, fun _ _ hwr ↦ by cases hwr⟩

variable {st : PluginState}

theorem Sound.inv_of_entry (h : Sound capable s)
    (hst : s.plugin.state = some st) : Inv capable (now s) := by
  cases h with
  | up _ hinv => exact hinv
  | down _ hrest =>
    rw [hrest.state] at hst
    cases hst

/-- The plugin and its environment after each atomic action of a task, and at its end. -/
def scenes (capable : String → Bool) (s : System) (task : Task) (answers : List Bool) : List Now :=
  let outcome := task.program capable (task.begin s answers)
  outcome.points ++ [outcome.state]

theorem map_scenes (answers : List Bool) :
    (scenes capable s task answers).map (·.now) = moments capable s task answers := by
  simp [scenes, moments]

def entrance (s : System) (task : Task) (answers : List Bool) : Now :=
  { task.begin s answers with now := task.opening s }

theorem chain_of_goes {α : Type} {p : Supervised α} {Q : α → Now → Prop}
    (h : Goes p w (Climbs capable) Q) (hend : Point capable (p w).state) :
    (w :: ((p w).points ++ [(p w).state])).IsChain (Climbs capable) := by
  refine h.chain.append (.singleton _) fun x hx y hy ↦ ?_
  rw [getLast?_cons, ← h.last, mem_some_iff] at hx
  rw [head?_cons, mem_some_iff] at hy
  rw [← hx, ← hy]
  exact hend.stay rfl hend.moment

theorem Sound.running (h : Sound capable s) (henabled : task.enabled s)
    (hstart : task ≠ .start) (answers : List Bool) : Inv capable (task.begin s answers) := by
  cases h with
  | up hup hinv => exact inv_of_same hinv rfl (by simp [Task.begin, hstart, now])
  | down hdown _ =>
    cases task with
    | start => exact absurd rfl hstart
    | _ => simp [Task.enabled, hdown] at henabled

theorem Sound.disk (h : Sound capable s) : ∀ st ∈ s.plugin.disk, WellKept st := by
  cases h with
  | up _ hinv => exact hinv.disk
  | down _ hrest => exact hrest.disk

theorem task_climbs (h : Sound capable s) (henabled : task.enabled s) (answers : List Bool) :
    (entrance s task answers :: scenes capable s task answers).IsChain (Climbs capable) ∧
      Inv capable (task.program capable (task.begin s answers)).state := by
  by_cases hstart : task = .start
  · subst hstart
    have hgoes : Upholds capable (do
        let _ ← recoverPluginCleanup capable .recoverStart
        restoreEnabled capable) (⟨s.plugin.load, answers, []⟩ : Now) := goes_restore (w := now s) h.disk rfl
    have hload : Inv capable ⟨s.plugin.load, answers, []⟩ := inv_of_load (w := now s) h.disk rfl
    exact ⟨.cons_cons (hload.point.stay rfl hload.moment) (chain_of_goes hgoes hgoes.ends.point),
      hgoes.ends⟩
  · have hgoes := goes_program (h.running henabled hstart answers) hstart fun hobserve ↦ by
      subst hobserve
      exact (Bool.and_eq_true_iff.mp henabled).2
    refine ⟨?_, hgoes.ends⟩
    rw [entrance, Task.opening, if_neg hstart]
    exact chain_of_goes hgoes hgoes.ends.point

theorem task_moments {R : Plugin → Plugin → Prop} (h : Sound capable s)
    (henabled : task.enabled s) (answers : List Bool)
    (hR : ∀ w t, Climbs capable w t → R w.now t.now) :
    (task.opening s :: moments capable s task answers).IsChain R := by
  have hchain := (task_climbs h henabled answers).1.imp hR
  rw [← map_scenes]
  exact (isChain_map (l := entrance s task answers :: scenes capable s task answers) _).mpr hchain

theorem point_of_moment (h : Sound capable s) (henabled : task.enabled s)
    (answers : List Bool) (n : Nat) :
    ∃ w : Now, w.now = (moments capable s task answers)[n]?.getD (task.opening s) ∧
      Point capable w := by
  have hopening : Point capable (entrance s task answers) := by
    by_cases hstart : task = .start
    · subst hstart
      exact (inv_of_load (w := now s) h.disk rfl).point
    have hinv := h.running henabled hstart answers
    have hsame : task.opening s = s.plugin := by rw [Task.opening, if_neg hstart]
    have hentrance : Inv capable (entrance s task answers) := inv_of_same hinv hsame rfl
    exact hentrance.point
  rw [← map_scenes, getElem?_map]
  cases hn : (scenes capable s task answers)[n]? with
  | none => exact ⟨_, rfl, hopening⟩
  | some w =>
    exact ⟨w, rfl, forall_mem_of_isChain (task_climbs h henabled answers).1
      (fun _ _ hc ↦ hc.point) w (mem_of_getElem? hn)⟩

theorem inv_leave {i : Nat} (h : Inv capable w) (hnow : u.now = w.now.leave i)
    (hasked : u.asked = w.asked) : Inv capable u := by
  have hleft : Left i w u := ⟨by rw [hnow]; rfl, by rw [hnow]; rfl, [], by simp [hasked]⟩
  have hstate : u.now.state = w.now.state := by rw [hnow]; rfl
  have hreg : u.now.registered = w.now.registered := by rw [hnow]; rfl
  have hkeeps : Keeps w.now u.now := by
    rw [hnow]
    exact ⟨rfl, rfl, .inl rfl, .inl rfl⟩
  refine ⟨hstate ▸ h.state, by rw [hnow]; exact h.disk, fun j hj ↦ ?_, ?_, fun htidy ↦ ?_,
    h.moment.keeps hkeeps hasked⟩
  · obtain ⟨st, q, hst, hq, henabled, hversion, hrest⟩ := h.registered j (hreg ▸ hj)
    obtain ⟨q', hq', hsame⟩ := leave_places _ i j q hq
    exact ⟨st, q', hstate.trans hst, by rw [hleft.processes]; exact hq', henabled,
      hsame.trans hversion, hrest⟩
  · rw [hstate, hreg]
    exact h.ledger.left hleft
  · rw [hstate, hreg]
    refine (h.debt (hleft.tidy htidy)).imp_right (Or.imp_right fun hall ↦ ?_)
    have hcleaned : Cleaned capable w := fun _ ↦ hall
    exact hcleaned.left hleft htidy

theorem Resting.leave {p : Plugin} (h : Resting capable p) (i : Nat) :
    Resting capable (p.leave i) :=
  { h with processes := by simp [Plugin.leave, h.processes] }

theorem sound_step {a : Action} (h : Sound capable s) (hstep : step capable s a = some t) :
    Sound capable t := by
  cases a with
  | run task answers =>
    obtain ⟨henabled, rfl⟩ := ite_some_none_eq_some.mp hstep
    exact .up rfl (inv_of_same (task_climbs h henabled answers).2 rfl rfl)
  | exit i =>
    cases hstep
    cases h with
    | up hup hinv => exact .up hup (inv_leave hinv rfl rfl)
    | down hdown hrest => exact .down hdown (hrest.leave i)
  | crash task answers n saved =>
    obtain ⟨henabled, rfl⟩ := ite_some_none_eq_some.mp hstep
    obtain ⟨w, hw, hpoint⟩ := point_of_moment h henabled answers n
    rw [← hw]
    refine .down rfl ⟨fun st hst ↦ ?_, rfl, rfl, rfl, rfl, hpoint.moment.kept.dead saved⟩
    cases saved with
    | true => exact hpoint.state st hst
    | false => exact hpoint.disk st hst

theorem sound_reachable (h : Steps (step capable) initial s) : Sound capable s :=
  h.invariant (I := Sound capable) sound_initial fun _ _ _ hs _ hstep ↦ sound_step hs hstep

def Bounded (p : Plugin) : Prop :=
  (∀ st ∈ p.state, st.observedRevision ≤ st.desiredRevision) ∧
    ∀ st ∈ p.disk, st.observedRevision ≤ st.desiredRevision

theorem bounded_of_point (h : Point capable w) : Bounded w.now :=
  ⟨fun st hst ↦ (h.state st hst).revision, fun st hst ↦ (h.disk st hst).revision⟩

theorem Sound.bounded (h : Sound capable s) : Bounded s.plugin := by
  cases h with
  | up _ hinv => exact bounded_of_point hinv.point
  | down _ hrest =>
    refine ⟨fun st hst ↦ ?_, fun st hst ↦ (hrest.disk st hst).revision⟩
    rw [hrest.state] at hst
    cases hst

def Action.crashes : Action → Bool
  | .crash .. => true
  | _ => false

theorem step_rises {a : Action} (h : Sound capable s) (hup : s.up)
    (ha : Action.crashes a = false) (hstep : step capable s a = some t) :
    t.up ∧ Rises s.plugin t.plugin := by
  cases a with
  | run task answers =>
    obtain ⟨henabled, rfl⟩ := ite_some_none_eq_some.mp hstep
    refine ⟨rfl, ?_⟩
    have hstart : task ≠ .start := by
      rintro rfl
      simp [Task.enabled, hup] at henabled
    have hchain := task_moments h henabled answers fun _ _ hc ↦ hc.revision
    rw [Task.opening, if_neg hstart] at hchain
    exact hchain.rel_cons (mem_append_right _ (mem_singleton_self _))
  | exit i =>
    cases hstep
    exact ⟨hup, .refl s.plugin⟩
  | crash => cases ha

theorem run_rises (h : Sound capable s) (hup : s.up)
    (hrun : Reach (step capable) (fun _ a ↦ Action.crashes a = false) s t) :
    Rises s.plugin t.plugin := by
  refine (hrun.invariant (I := fun u ↦ Sound capable u ∧ u.up ∧
    Rises s.plugin u.plugin) ⟨h, hup, .refl _⟩ ?_).2.2
  rintro u a v ⟨hu, hup, hrises⟩ ha hstep
  obtain ⟨hv, hrises'⟩ := step_rises hu hup ha hstep
  exact ⟨sound_step hu hstep, hv, hrises.trans hrises'⟩

/-- The operation is the exact replay of one that was interrupted. -/
def ExactReplay (j : Journal.Supervisor) (kind : Kind) (e : Envelope) : Prop :=
  ∃ previous, j.journal.lookup e.lowered.operationID = some previous ∧
    journalMatches previous kind e.lowered = true ∧ previous.state = .interrupted

variable {j : Journal.Supervisor} {kind : Kind} {e : Envelope} {write : Write} {repairReplay : Bool}

theorem repairReplay_of_started (h : (Journal.handle j kind e write).1 = .started repairReplay)
    (hreplay : ¬ ExactReplay j kind e) : repairReplay = false := by
  unfold Journal.handle at h
  simp only [] at h
  split at h
  · unfold Journal.begin at h
    split at h
    · cases h
    simp only [] at h
    split at h
    · cases h
      rfl
    · cases h
  · next previous hprevious =>
    split at h
    · cases h
    next hmatches =>
    split at h
    · cases h
    · cases h
    · split at h <;> cases h
    · next hstate =>
      exact absurd ⟨previous, hprevious, by simpa using hmatches, hstate⟩ hreplay
    · cases h

theorem stale_of_le {o : Operation} (h : o.revision ≤ st.desiredRevision) :
    rejectStaleRevision o false (some st) := by
  simp only [rejectStaleRevision, any_some, Bool.or_eq_true, decide_eq_true_eq,
    Bool.not_false, Bool.true_and]
  exact h.lt_or_eq

theorem recover_idle (hst : w.now.state = some st) (hclear : st.cleanupPending = false)
    (site : Site) : (recoverPluginCleanup capable site w).state = w := by
  have hgoes : Goes (recoverPluginCleanup capable site) w (fun _ _ ↦ False) fun _ t ↦ t = w := by
    refine .bind (.look ?_)
    simp only [hst, hclear]
    exact .pure rfl
  exact hgoes.ends

/-- A refusal that changes nothing, except that a pending cleanup is recovered before it. -/
def Refused (capable : String → Bool) (st : PluginState) (p : Plugin) (ok : Bool) (t : Now) :
    Prop :=
  ok = false ∧ (t.now = p ∨ st.cleanupPending = true ∧ ∃ u : Now, u.now = p ∧
    t.now = (recoverPluginCleanup capable .recover u).state.now)

theorem goes_execute_stale {o : Operation} (h : Inv capable w)
    (hmutates : operationMutatesState kind)
    (hst : w.now.state = some st) (hrevision : o.revision ≤ st.desiredRevision) :
    Goes (execute capable kind o false) w (Climbs capable) (Refused capable st w.now) := by
  refine .bind (goes_question h.point rfl fun accepted t₁ hnow _ hstill ↦ ?_)
  have h₁ := inv_of_still h hstill
  have hst₁ : t₁.now.state = some st := hnow ▸ hst
  cases accepted with
  | false => exact .pure ⟨rfl, .inl hnow⟩
  | true =>
    rw [hmutates]
    have hgoes := h₁.recover .recover
    have hrises : Rises t₁.now (recoverPluginCleanup capable .recover t₁).state.now :=
      hgoes.related (R := Within Rises) (.refl _) fun _ _ hc ↦ hc.revision
    obtain ⟨st₂, hst₂, hle⟩ := hrises st hst₁
    have hstale := stale_of_le (hrevision.trans hle)
    have hnow₂ : (recoverPluginCleanup capable .recover t₁).state.now = w.now ∨
        st.cleanupPending ∧ ∃ u : Now, u.now = w.now ∧
          (recoverPluginCleanup capable .recover t₁).state.now =
            (recoverPluginCleanup capable .recover u).state.now := by
      cases hpending : st.cleanupPending with
      | false => exact .inl (by rw [recover_idle hst₁ hpending, hnow])
      | true => exact .inr ⟨rfl, t₁, hnow, rfl⟩
    refine .seq (hgoes.and (R := fun _ t ↦ t = (recoverPluginCleanup capable .recover t₁).state)
      rfl) ?_
    rintro recovered t₂ ⟨-, rfl⟩
    cases recovered with
    | false => exact .pure ⟨rfl, hnow₂⟩
    | true =>
      refine .bind (goes_seeing ?_)
      rw [hmutates, hst₂, hstale]
      exact .pure ⟨rfl, hnow₂⟩

/-- Within one Supervisor the desired revision never falls, and stale operations are refused. -/
theorem desired_revision_never_falls (hreach : Steps (step capable) initial s) :
    Bounded s.plugin ∧
    (∀ t, s.up = true → Reach (step capable) (fun _ a ↦ Action.crashes a = false) s t →
      Rises s.plugin t.plugin) ∧
    (∀ task answers, Task.enabled s task = true →
      (task.opening s :: moments capable s task answers).IsChain fun p q ↦
        Rises p q ∧ Bounded q) ∧
    ∀ (j : Journal.Supervisor) (e : Envelope) (write : Write) (kind : Kind) (o : Operation)
      (repairReplay : Bool) (answers : List Bool) (st : PluginState),
      (Journal.handle j kind e write).1 = .started repairReplay → ¬ ExactReplay j kind e →
      operationMutatesState kind = true → o.revision = e.revision →
      s.plugin.state = some st → e.revision ≤ st.desiredRevision →
      let outcome := execute capable kind o repairReplay
        ((Task.operation kind o repairReplay).begin s answers)
      Refused capable st s.plugin outcome.value outcome.state := by
  have hsound := sound_reachable hreach
  refine ⟨hsound.bounded, fun t hup hrun ↦ run_rises hsound hup hrun,
    fun task answers henabled ↦ ?_, ?_⟩
  · exact task_moments hsound henabled answers fun _ _ hc ↦
      ⟨hc.revision, bounded_of_point hc.point⟩
  intro j e write kind o repairReplay answers st hstarted hreplay hmutates ho hst hrevision
  cases repairReplay_of_started hstarted hreplay
  have hbegin : Inv capable ((Task.operation kind o false).begin s answers) :=
    inv_of_same (hsound.inv_of_entry hst) rfl rfl
  exact (goes_execute_stale hbegin hmutates hst (ho ▸ hrevision)).ends

section

def everyVersion : String → Bool := fun _ ↦ true

def sampleOperation (revision : Nat) : Operation := ⟨"1.0.0", "e3", "config", revision, false⟩

def sampleEnvelope (revision : Nat) : Envelope where
  operationID := "a"
  idempotencyKey := "k"
  sessionID := "session"
  pluginID := "machine-telemetry"
  targetVersion := "1.0.0"
  configHash := ['e', '3']
  revision := revision
  secretMaterials := ⟨[], List.nodup_nil, nil_hashed⟩

def runs (kind : Kind) (revision : Nat) (answers : List Bool) : Action :=
  .run (.operation kind (sampleOperation revision) false) answers

def enabling : List Action := [.run .start [], runs .install 1 [], runs .enable 2 []]

def owing : List Action := enabling ++ [runs .disable 3 [true, true, true, false]]

def stopped : List Action := enabling ++ [runs .disable 3 [true, true, false, true]]

def unstopped : List Action := enabling ++ [runs .disable 3 [true, true, false, false]]

theorem desired_revision_never_falls_disabled :
    ∃ s t, Steps (step everyVersion) initial s ∧
      Reach (step everyVersion) (fun _ a ↦ Action.crashes a = false) s t ∧
      s.plugin.state.map (·.desiredRevision) = some 3 ∧
      t.plugin.state.map (·.desiredRevision) = some 4 ∧ Rises s.plugin t.plugin ∧
      ∃ st, s.plugin.state = some st ∧
        Refused everyVersion st s.plugin
          (execute everyVersion .enable (sampleOperation 3) false (now s)).value
          (execute everyVersion .enable (sampleOperation 3) false (now s)).state := by
  have hs : Steps (step everyVersion) initial _ := steps_after owing (by decide)
  obtain ⟨-, hrises, -, hrefused⟩ := desired_revision_never_falls hs
  have hrises := hrises _ (by decide) (reach_after [runs .enable 4 []] (by decide))
  obtain ⟨st, hst, hrevision⟩ := Option.map_eq_some_iff.mp
    (show (after (step everyVersion) initial owing).plugin.state.map (·.desiredRevision) = some 3 by
      decide)
  refine ⟨_, _, hs, reach_after _ (by decide), by decide, by decide, hrises, st, hst, ?_⟩
  refine hrefused ⟨true, ∅, [], ∅, []⟩ (sampleEnvelope 3) .done .enable (sampleOperation 3) false []
    st (by decide) ?_ rfl rfl hst hrevision.ge
  rintro ⟨previous, hprevious, -⟩
  cases hprevious

/-- A configuration whose write fails is forgotten by the next start, and a stale operation
recovers a pending cleanup. -/
theorem desired_revision_forgotten :
    (∃ s t, Steps (step everyVersion) initial s ∧ Steps (step everyVersion) s t ∧
      s.up = true ∧ t.up = true ∧ s.plugin.state.map (·.desiredRevision) = some 2 ∧
      t.plugin.state.map (·.desiredRevision) = some 1) ∧
    ∃ s t, Steps (step everyVersion) initial s ∧ step everyVersion s (runs .enable 3 []) = some t ∧
      s.plugin.state.map (fun st ↦ (st.desiredRevision, st.cleanupPending)) = some (3, true) ∧
      t.plugin.state.map (fun st ↦ (st.desiredRevision, st.cleanupPending)) = some (3, false) := by
  refine ⟨exists_steps_reach [.run .start [], runs .install 1 [],
    runs .configure 2 [true, true, true, true, false, false]]
    [.crash .save [] 0 false, .run .start []] _ (by decide), ?_⟩
  exact ⟨_, _, steps_after owing (by decide), step_after (by decide), by decide⟩

end

theorem registered_process_observed (hreach : Steps (step capable) initial s) {i : Nat}
    (hi : s.plugin.registered = some i) :
    ∃ st q, s.plugin.state = some st ∧ s.plugin.processes[i]? = some q ∧ st.enabled = true ∧
      q.version = st.observedVersion ∧ st.observedVersion = st.desiredVersion := by
  cases sound_reachable hreach with
  | down _ hrest =>
    rw [hrest.registered] at hi
    cases hi
  | up _ hinv =>
    obtain ⟨st, q, hst, hq, henabled, hversion, -, -⟩ := hinv.registered i hi
    have hobserved := (hinv.state st hst).version henabled
    exact ⟨st, q, hst, hq, henabled, hversion.trans hobserved.symm, hobserved⟩

theorem registered_process_observed_enabled :
    ∃ s, Steps (step everyVersion) initial s ∧ s.plugin.registered = some 0 ∧
      ∃ st q, s.plugin.state = some st ∧ s.plugin.processes[0]? = some q ∧ st.enabled = true ∧
        q.version = st.observedVersion ∧ st.observedVersion = st.desiredVersion := by
  have hexists : ∃ s, Steps (step everyVersion) initial s ∧ s.plugin.registered = some 0 :=
    exists_steps enabling _ (by decide)
  obtain ⟨s, hs, hi⟩ := hexists
  exact ⟨s, hs, hi, registered_process_observed hs hi⟩

theorem ledger_reachable (hreach : Steps (step capable) initial s) :
    ∃ version, Ledger capable s.plugin.registered version (now s) := by
  cases sound_reachable hreach with
  | up _ hinv => exact ⟨_, hinv.ledger⟩
  | down _ hrest =>
    have hprocesses : (now s).now.processes = [] := hrest.processes
    exact ⟨"", by simp [hprocesses], fun _ ↦ hrest.overlap, by simp [hprocesses]⟩

/-- When a process whose `Stop` fails outside `Close` has exited, no process is started while
another one is alive. -/
theorem no_overlap_of_orderly (hreach : Steps (step capable) initial s)
    (horderly : Orderly s.asked) :
    s.plugin.overlap = false ∧ ∀ (i j : Nat) (p q : Process),
      s.plugin.processes[i]? = some p → p.fate = .alive →
      s.plugin.processes[j]? = some q → q.fate = .alive → i = j := by
  obtain ⟨version, hledger⟩ := ledger_reachable hreach
  refine ⟨hledger.single horderly, fun i j p q hp hpalive hq hqalive ↦ ?_⟩
  have hi := hledger.alive horderly i p hp hpalive
  have hj := hledger.alive horderly j q hq hqalive
  exact Option.some.inj (hi.symm.trans hj)

theorem no_overlap_of_orderly_restarted :
    ∃ s, Steps (step everyVersion) initial s ∧ Orderly s.asked ∧
      s.plugin.processes.map (·.fate) = [.cleaned, .alive] ∧ s.plugin.overlap = false := by
  have hs : Steps (step everyVersion) initial _ :=
    steps_after (stopped ++ [runs .enable 4 []]) (by decide)
  exact ⟨_, hs, by decide, by decide, (no_overlap_of_orderly hs (by decide)).1⟩

theorem overlap_after_failed_stop :
    ∃ s, Steps (step everyVersion) initial s ∧ s.plugin.overlap = true ∧
      s.plugin.processes.map (·.fate) = [.alive, .alive] :=
  exists_steps (unstopped ++ [runs .enable 4 []]) _ (by decide)

/-- With all needed calls succeeding, every process of a plugin without a registered one was
cleaned up, or its cleanup is pending. -/
theorem cleanup_debt_recorded (hreach : Steps (step capable) initial s)
    (hcapable : ∀ v, capable v = true) (horderly : Orderly s.asked)
    (hneeded : ∀ x ∈ s.asked, Needed x.1 = true → x.2 = true) :
    s.plugin.registered.isSome = true ∨ (∃ st ∈ s.plugin.state, st.cleanupPending = true) ∨
      ∀ q ∈ s.plugin.processes, q.fate = .cleaned := by
  cases sound_reachable hreach with
  | up _ hinv => exact hinv.debt ⟨horderly, hneeded, hcapable⟩
  | down _ hrest => exact .inr (.inr fun q hq ↦ by simp [hrest.processes] at hq)

theorem cleanup_debt_recorded_disabled :
    ∃ s, Steps (step everyVersion) initial s ∧ s.plugin.processes ≠ [] ∧
      (s.plugin.registered.isSome = true ∨ (∃ st ∈ s.plugin.state, st.cleanupPending = true) ∨
        ∀ q ∈ s.plugin.processes, q.fate = .cleaned) := by
  have hs : Steps (step everyVersion) initial _ := steps_after stopped (by decide)
  exact ⟨_, hs, by decide, cleanup_debt_recorded hs (fun _ ↦ rfl) (by decide) (by decide)⟩

theorem cleanup_debt_forgotten :
    ∃ s, Steps (step everyVersion) initial s ∧ s.plugin.registered = none ∧
      s.plugin.state.map (·.cleanupPending) = some false ∧
      s.plugin.processes.map (·.fate) = [.alive] :=
  exists_steps unstopped _ (by decide)

def reconfiguring (answers : List Bool) : List Action :=
  enabling ++ [runs .configure 3 ([true, true, true, true, true, true, true, true, true, true, true,
    true, false, false, true] ++ answers)]

/-- None of the needed calls can be spared: the failure of any one of them leaves a process that
nobody will clean up. -/
theorem needed_calls_needed (q : Query) (hq : Needed q) :
    ∃ s, Steps (step everyVersion) initial s ∧ Orderly s.asked ∧
      (∀ x ∈ s.asked, Needed x.1 → x.2 = false → x.1 = q) ∧
      s.plugin.registered = none ∧ s.plugin.state.map (·.cleanupPending) = some false ∧
      ∃ p ∈ s.plugin.processes, p.fate ≠ .cleaned := by
  unfold Needed at hq
  split at hq
  · exact exists_steps (enabling ++ [runs .disable 3 [true, false]]) _ (by decide)
  · exact exists_steps [.run .start [], runs .install 1 [],
      runs .enable 2 [true, true, true, true, false, false]] _ (by decide)
  · exact exists_steps (enabling ++ [.run .maintenance [true, true, false, true, true, true, true,
      true, true, true, true, true, false, false]]) _ (by decide)
  · exact exists_steps (reconfiguring [false]) _ (by decide)
  · exact exists_steps (reconfiguring [true, false]) _ (by decide)
  · exact exists_steps (reconfiguring [true, true, false]) _ (by decide)
  · cases hq

end AnixAgent.Plugins.Supervision
