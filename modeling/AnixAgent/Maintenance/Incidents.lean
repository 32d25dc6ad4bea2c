import AnixAgent.Lib.Episodes
import AnixAgent.Lib.Windows
import AnixAgent.Maintenance.Calls

namespace AnixAgent.Maintenance.Incidents

open Lib.Runs Lib.Windows Lib.Episodes Observations Calls List Option

variable {sizes : Sizes} {s t : System} {key : Key} {a : Action}

theorem restartTimes_settled (v : Verdict) : v.settled.restartTimes = v.inst.restartTimes := by
  unfold Verdict.settled
  split <;> rfl

theorem restartTimes_verdict (o : Observation) (inst : InstanceState) (now : Int) :
    ((verdict o inst now).restart = false ∧
      (verdict o inst now).inst.restartTimes = inst.restartTimes) ∨
    ((verdict o inst now).restart ∧ inst.restartTimes.length < restartLimit ∧
      (verdict o inst now).inst.restartTimes = inst.restartTimes ++ [now]) := by
  unfold verdict observeHealthy observeFailure openIncident
  dsimp only
  split
  · exact .inl ⟨rfl, rfl⟩
  split
  · split
    · split
      · next hroom => exact .inr ⟨rfl, hroom, rfl⟩
      · exact .inl ⟨rfl, rfl⟩
    · exact .inl ⟨rfl, rfl⟩
  · exact .inl ⟨rfl, rfl⟩

def Budgeted (s : System) (key : Key) : Prop :=
  Kept restartWindow restartLimit (view s.file key).lastObservedAt (view s.file key).restartTimes
    (grants s key)

theorem budgeted_seen (h : Budgeted s key) (hseen : Seen s t key a) : Budgeted t key := by
  unfold Budgeted at h ⊢
  cases hseen with
  | idle hview _ hgrants _ =>
    rw [hgrants]
    rcases hview with hview | hview <;> rw [hview] <;> exact h
  | audited store o now failed calls ha hopen hview _ hgrants _ =>
    rw [hgrants, hview]
    exact h
  | observed store o now calls ha hkey hlater hview _ hgrants _ =>
    have hpass := h.pass hlater.le
    rw [hview, lastObservedAt_settled, restartTimes_settled]
    rcases restartTimes_verdict o ((view s.file key).advance now) now with
      ⟨hno, htimes⟩ | ⟨-, hroom, htimes⟩
    · rcases hgrants with hgrants | ⟨hyes, -⟩
      · rw [hgrants, htimes]
        exact hpass
      · rw [hno] at hyes
        cases hyes
    · rw [htimes]
      rcases hgrants with hgrants | ⟨-, hgrants⟩ <;> rw [hgrants]
      · exact hpass.remember now
      · exact hpass.grant hroom

theorem restarts_within_budget {file : Option DiskState}
    (hreach : Steps (step sizes) (initial file) s) :
    (∀ key t, (window restartWindow t (grants s key)).length ≤ restartLimit) ∧
    ∀ (store : Store) (o : Observation) (now : Int) (calls : Calls),
      (store.observe sizes o now calls s.file).error ≠ none →
        (store.observe sizes o now calls s.file).restart = false := by
  refine ⟨fun key t ↦ ?_, fun store o now calls herror ↦ restart_eq_false herror⟩
  have hbudget : Budgeted s key :=
    hreach.invariant (I := fun s ↦ Budgeted s key) (Kept.empty _)
      fun _ _ _ hs _ hstep ↦ budgeted_seen hs (step_seen hstep key)
  exact hbudget.bounded t

section

/-- Events whose id has three letters, and states with two events, just fit. -/
def sampleSizes : Sizes :=
  ⟨fun e ↦ some (maxEventBytes - 3 + e.eventID.length),
    fun state ↦ some (maxStateBytes / 2 * state.events.entries.length)⟩

def sampleKey : Key := ⟨"machine-telemetry", "machine-telemetry"⟩

def sampleTime (seconds : Int) : Int := (1600000000 + seconds) * second

def observes (code id : String) (seconds : Int) (write : Write) : Action :=
  .observe ⟨"42", .production, "v5.0.0"⟩
    ⟨"machine-telemetry", "", "1.0.0", "1", code, true⟩ (sampleTime seconds)
    ⟨.ok (), .ok id, sampleTime seconds, write⟩

def failing : List Action :=
  [observes "PLUGIN_PROCESS_EXITED" "a" 0 .done, observes "PLUGIN_PROCESS_EXITED" "b" 60 .done,
    observes "PLUGIN_PROCESS_EXITED" "c" 120 (.unsynced "sync"),
    observes "PLUGIN_PROCESS_EXITED" "d" 150 .done, observes "PLUGIN_PROCESS_EXITED" "e" 180 .done]

theorem restarts_within_budget_failing :
    ∃ s, Steps (step sampleSizes) (initial none) s ∧ grants s sampleKey = [sampleTime 150] ∧
      (view s.file sampleKey).restartTimes = [sampleTime 120, sampleTime 150] ∧
      (window restartWindow (sampleTime 150) (grants s sampleKey)).length ≤ restartLimit := by
  have hs : Steps (step sampleSizes) (initial none) _ := steps_after failing (by decide +kernel)
  exact ⟨_, hs, by decide +kernel, by decide +kernel,
    (restarts_within_budget hs).1 sampleKey (sampleTime 150)⟩

end

/-- The observations end with three failures in a row or more, over two minutes or more. -/
def FailingRun (h : List Accepted) : Prop :=
  ∃ run first last, run <:+ h ∧ 3 ≤ run.length ∧ (∀ x ∈ run, x.errorCode ≠ "") ∧
    run.head? = some first ∧ run.getLast? = some last ∧ failureDuration ≤ last.time - first.time

/-- The observations end with healthy ones over five minutes or more, none of them more than a
minute after the one before. -/
def HealthyRun (h : List Accepted) : Prop :=
  ∃ run first last, run <:+ h ∧ (∀ x ∈ run, x.errorCode = "") ∧
    run.IsChain (fun x y ↦ y.time - x.time ≤ minute) ∧
    run.head? = some first ∧ run.getLast? = some last ∧ recoveryDuration ≤ last.time - first.time

structure Failing (inst : InstanceState) (run h : List Accepted) : Prop where
  suffix : run <:+ h
  failed : ∀ x ∈ run, x.errorCode ≠ ""
  count : inst.consecutiveFailures ≤ run.length
  start : inst.failureStreakAt = run.head?.map (·.time)

structure Healthy (inst : InstanceState) (run h : List Accepted) : Prop where
  suffix : run <:+ h
  healthy : ∀ x ∈ run, x.errorCode = ""
  dense : run.IsChain fun x y ↦ y.time - x.time ≤ minute
  start : inst.healthySince = run.head?.map (·.time)

structure Tracks (inst : InstanceState) (h : List Accepted) : Prop where
  last : ∀ x ∈ h.getLast?, x.time = inst.lastObservedAt
  failing : ∃ run, Failing inst run h
  healthy : ∃ run, Healthy inst run h

variable {run h : List Accepted}

theorem suffix_snoc (hsuffix : run <:+ h) (x : Accepted) : run ++ [x] <:+ h ++ [x] := by
  obtain ⟨before, rfl⟩ := hsuffix
  exact ⟨before, by simp⟩

theorem head?_snoc (run : List Accepted) (x : Accepted) :
    (run ++ [x]).head?.map (·.time) = some ((run.head?.map (·.time)).getD x.time) := by
  cases run <;> rfl

variable {inst : InstanceState} {x last : Accepted}

theorem Failing.snoc
    (hrun : Failing inst run h) (hx : x.errorCode ≠ "") (now : Int) (hnow : x.time = now) :
    Failing (inst.fail now x.errorCode) (run ++ [x]) (h ++ [x]) where
  suffix := suffix_snoc hrun.suffix x
  failed := forall_mem_append.mpr ⟨hrun.failed, by simpa using hx⟩
  count := by
    have hcount := hrun.count
    simp only [InstanceState.fail, length_append, length_singleton]
    split <;> split <;> omega
  start := by
    rw [head?_snoc, ← hrun.start, hnow]
    rfl

theorem Healthy.nil (h : List Accepted) (hsince : inst.healthySince = none) : Healthy inst [] h :=
  ⟨nil_suffix, by simp, .nil, hsince⟩

theorem Failing.nil (h : List Accepted) (hcount : inst.consecutiveFailures = 0)
    (hstreak : inst.failureStreakAt = none) : Failing inst [] h :=
  ⟨nil_suffix, by simp, by simp [hcount], hstreak⟩

theorem Healthy.advance (hrun : Healthy inst run h)
    (hlast : ∀ x ∈ h.getLast?, x.time = inst.lastObservedAt) (now : Int) :
    ∃ run, Healthy (inst.advance now) run h ∧ ∀ y ∈ run.getLast?, now - y.time ≤ minute := by
  by_cases hgap : minute < now - inst.lastObservedAt
  · exact ⟨[], .nil h (if_pos hgap), by simp⟩
  refine ⟨run, ⟨hrun.suffix, hrun.healthy, hrun.dense, (if_neg hgap).trans hrun.start⟩,
    fun y hy ↦ ?_⟩
  obtain ⟨before, rfl⟩ := hrun.suffix
  have hmem : y ∈ (before ++ run).getLast? := by
    rw [getLast?_append, mem_def.mp hy]
    rfl
  rw [hlast y hmem]
  omega

theorem Healthy.snoc (hrun : Healthy inst run h) (hx : x.errorCode = "")
    (hgap : ∀ y ∈ run.getLast?, x.time - y.time ≤ minute) {inst' : InstanceState}
    (hsince : inst'.healthySince = some (inst.healthySince.getD x.time)) :
    Healthy inst' (run ++ [x]) (h ++ [x]) where
  suffix := suffix_snoc hrun.suffix x
  healthy := forall_mem_append.mpr ⟨hrun.healthy, by simpa using hx⟩
  dense := by
    refine hrun.dense.append (.singleton _) fun y hy z hz ↦ ?_
    rw [head?_cons, mem_some_iff] at hz
    exact hz ▸ hgap y hy
  start := by
    rw [head?_snoc, ← hrun.start, hsince]

theorem getLast?_suffix {first : Accepted} (hsuffix : run <:+ h)
    (hhead : run.head? = some first) : run.getLast? = h.getLast? := by
  obtain ⟨before, rfl⟩ := hsuffix
  cases run with
  | nil => cases hhead
  | cons x rest => simp [getLast?_append, getLast?_cons]

variable {since now : Int}

theorem Failing.failingRun (hrun : Failing inst run h) (hcount : 3 ≤ inst.consecutiveFailures)
    (hsince : inst.failureStreakAt = some since) (hlast : h.getLast? = some last)
    (hspan : failureDuration ≤ last.time - since) : FailingRun h := by
  obtain ⟨first, hfirst, rfl⟩ := map_eq_some_iff.mp (hrun.start.symm.trans hsince)
  exact ⟨run, first, last, hrun.suffix, hcount.trans hrun.count, hrun.failed, hfirst,
    (getLast?_suffix hrun.suffix hfirst).trans hlast, hspan⟩

variable {o : Observation}

theorem emit_verdict (h : (verdict o inst now).emit) :
    (o.errorCode = "" ∧ (verdict o inst now).status = .recovered ∧ inst.isOpen ∧
      recoveryDuration ≤ now - inst.healthySince.getD now) ∨
    (o.errorCode ≠ "" ∧ (verdict o inst now).status = .opened ∧
      qualifies (inst.fail now o.errorCode) now o.errorCode) := by
  unfold verdict at h ⊢
  split at h
  · next hcode =>
    rw [if_pos hcode]
    have hemit : inst.isOpen ∧ recoveryDuration ≤ now - inst.healthySince.getD now := by
      simpa [observeHealthy] using h
    refine .inl ⟨hcode, ?_, hemit.1, hemit.2⟩
    unfold observeHealthy at h ⊢
    exact if_pos h
  · next hcode =>
    rw [if_neg hcode]
    unfold observeFailure at h ⊢
    dsimp only at h ⊢
    split at h
    · next hqualifies =>
      rw [if_pos hqualifies]
      refine .inr ⟨hcode, ?_, hqualifies⟩
      unfold openIncident
      dsimp only
      split
      · split <;> rfl
      · rfl
    · cases h

theorem settled_healthy (hcode : o.errorCode = "") (inst : InstanceState) (now : Int) :
    (verdict o inst now).settled.consecutiveFailures = 0 ∧
      (verdict o inst now).settled.failureStreakAt = none ∧
      (verdict o inst now).settled.healthySince = some (inst.healthySince.getD now) := by
  rw [verdict, if_pos hcode]
  unfold Verdict.settled
  split <;> exact ⟨rfl, rfl, rfl⟩

theorem settled_failure (hcode : o.errorCode ≠ "") (inst : InstanceState) (now : Int) :
    (verdict o inst now).settled.consecutiveFailures =
        (inst.fail now o.errorCode).consecutiveFailures ∧
      (verdict o inst now).settled.failureStreakAt = (inst.fail now o.errorCode).failureStreakAt ∧
      (verdict o inst now).settled.healthySince = none := by
  have hstatus : (verdict o inst now).status = .opened := by
    rw [verdict, if_neg hcode]
    unfold observeFailure openIncident
    dsimp only
    split
    · split
      · split <;> rfl
      · rfl
    · rfl
  have hsettled : (verdict o inst now).settled = (verdict o inst now).inst := by
    unfold Verdict.settled
    rw [if_neg fun h ↦ by simp [hstatus] at h]
  rw [hsettled, verdict, if_neg hcode]
  unfold observeFailure openIncident
  dsimp only
  split
  · split
    · split <;> exact ⟨rfl, rfl, rfl⟩
    · exact ⟨rfl, rfl, rfl⟩
  · exact ⟨rfl, rfl, rfl⟩

theorem isOpen_settled (o : Observation) (inst : InstanceState) (now : Int) :
    (verdict o inst now).settled.isOpen =
      if (verdict o inst now).emit then decide ((verdict o inst now).status = .opened)
      else inst.isOpen := by
  unfold verdict
  split
  · unfold Verdict.settled observeHealthy
    dsimp only
    by_cases hemit : (inst.isOpen && decide (recoveryDuration ≤ now - inst.healthySince.getD now)) =
        true
    · simp only [hemit, if_true, and_self, reduceCtorEq, decide_false]
    · simp only [hemit, Bool.false_eq_true, false_and, if_false]
  · unfold Verdict.settled observeFailure openIncident
    dsimp only
    split
    · split
      · split <;> simp
      · simp
    · simp [InstanceState.fail]

theorem tracks_observed (htracks : Tracks inst h) (o : Observation) (now : Int) :
    Tracks (verdict o (inst.advance now) now).settled (h ++ [⟨key, now, o.errorCode⟩]) := by
  obtain ⟨failures, hfailures⟩ := htracks.failing
  obtain ⟨run, hrun⟩ := htracks.healthy
  obtain ⟨run, hrun, hgap⟩ := hrun.advance htracks.last now
  refine ⟨?_, ?_, ?_⟩
  · intro x hx
    rw [getLast?_concat, mem_some_iff] at hx
    rw [← hx, lastObservedAt_settled]
  · by_cases hcode : o.errorCode = ""
    · obtain ⟨hcount, hstreak, -⟩ := settled_healthy hcode (inst.advance now) now
      exact ⟨[], .nil _ hcount hstreak⟩
    have hadvance : Failing (inst.advance now) failures h :=
      { hfailures with }
    obtain ⟨hsuffix, hfailed, hcount, hstart⟩ :=
      hadvance.snoc (x := ⟨key, now, o.errorCode⟩) hcode now rfl
    obtain ⟨hcount', hstreak', -⟩ := settled_failure hcode (inst.advance now) now
    exact ⟨_, hsuffix, hfailed, hcount' ▸ hcount, hstreak' ▸ hstart⟩
  · by_cases hcode : o.errorCode = ""
    · obtain ⟨-, -, hsince⟩ := settled_healthy hcode (inst.advance now) now
      exact ⟨_, hrun.snoc (x := ⟨key, now, o.errorCode⟩) hcode hgap hsince⟩
    · obtain ⟨-, -, hsince⟩ := settled_failure hcode (inst.advance now) now
      exact ⟨[], .nil _ hsince⟩

theorem tracks_seen (h : Tracks (view s.file key) (history s key)) (hseen : Seen s t key a) :
    Tracks (view t.file key) (history t key) := by
  cases hseen with
  | idle hview hhistory _ _ =>
    rw [hhistory]
    rcases hview with hview | hview <;> rw [hview]
    · exact h
    obtain ⟨run, hrun⟩ := h.failing
    exact ⟨h.last, ⟨run, hrun.suffix, hrun.failed, hrun.count, hrun.start⟩, [], .nil _ rfl⟩
  | audited store o now failed calls ha hopen hview hhistory _ _ =>
    rw [hview, hhistory]
    exact h
  | observed store o now calls ha hkey hlater hview hhistory _ _ =>
    rw [hview, hhistory]
    exact tracks_observed h o now

structure Worded (s : System) (key : Key) : Prop where
  closed : (view s.file key).isOpen = false → statuses s key ∈ episodes .opened .recovered
  opened : (view s.file key).isOpen = true → statuses s key ∈ unfinished .opened .recovered

def Dated (s : System) : Prop :=
  ∀ id e, (events s.file).lookup id = some e →
    (e.selfHealResult = .succeeded ∨ e.selfHealResult = .failed) ∨
      e.occurredAt ≤ (view s.file (Event.key e)).lastObservedAt

theorem lastObservedAt_seen (hseen : Seen s t key a) :
    (view s.file key).lastObservedAt ≤ (view t.file key).lastObservedAt := by
  cases hseen with
  | idle hview _ _ _ => rcases hview with hview | hview <;> rw [hview]
  | audited store o now failed calls ha hopen hview _ _ _ => rw [hview]
  | observed store o now calls ha hkey hlater hview _ _ _ =>
    rw [hview, lastObservedAt_settled]
    exact hlater.le

theorem dated_step (h : Dated s) (hqueue : a.queues = false) (hstep : step sizes s a = some t) :
    Dated t := by
  intro id e he
  rcases step_events hstep hqueue he with hold | hresult | htime
  · exact (h id e hold).imp_right fun hle ↦ hle.trans (lastObservedAt_seen (step_seen hstep _))
  · exact .inl hresult
  · exact .inr htime.ge

theorem statuses_observed (hdated : Dated s) (hlater : (view s.file key).lastObservedAt < now)
    (h : statuses t key = statuses s key ++
        (if (verdict o ((view s.file key).advance now) now).emit then
          [(verdict o ((view s.file key).advance now) now).status] else []) ∨
      ∃ id e, (events s.file).lookup id = some e ∧ Observed key now e) :
    statuses t key = statuses s key ++
      if (verdict o ((view s.file key).advance now) now).emit then
        [(verdict o ((view s.file key).advance now) now).status] else [] := by
  refine h.resolve_right ?_
  rintro ⟨id, e, he, hkey, htime, hsucceeded, hfailed⟩
  rcases hdated id e he with hresult | hle
  · exact hresult.elim hsucceeded hfailed
  · rw [hkey, htime] at hle
    exact absurd hle (not_le.mpr hlater)

theorem worded_seen (h : Worded s key) (hdated : Dated s) (hseen : Seen s t key a) :
    Worded t key := by
  cases hseen with
  | idle hview _ _ hstatuses =>
    have hopen : (view t.file key).isOpen = (view s.file key).isOpen := by
      rcases hview with hview | hview <;> rw [hview]
    exact ⟨fun hc ↦ hstatuses ▸ h.closed (hopen ▸ hc), fun ho ↦ hstatuses ▸ h.opened (hopen ▸ ho)⟩
  | audited store o now failed calls ha hopen hview _ _ hstatuses =>
    refine ⟨fun hc ↦ ?_, fun _ ↦ hstatuses ▸ extend_episode (h.opened hopen)⟩
    rw [hview, hopen] at hc
    cases hc
  | observed store o now calls ha hkey hlater hview _ _ hstatuses =>
    have hnew := statuses_observed hdated hlater hstatuses
    have hopen := isOpen_settled o ((view s.file key).advance now) now
    rw [← hview] at hopen
    cases hemit : (verdict o ((view s.file key).advance now) now).emit with
    | false =>
      rw [hemit] at hnew hopen
      rw [if_neg Bool.false_ne_true, append_nil] at hnew
      rw [if_neg Bool.false_ne_true] at hopen
      exact ⟨fun hc ↦ hnew ▸ h.closed (hopen ▸ hc), fun ho ↦ hnew ▸ h.opened (hopen ▸ ho)⟩
    | true =>
      rw [hemit, if_pos rfl] at hnew hopen
      rcases emit_verdict hemit with ⟨-, hstatus, hwas, -⟩ | ⟨-, hstatus, -⟩
      · rw [hstatus] at hnew hopen
        refine ⟨fun _ ↦ hnew ▸ end_episode (h.opened hwas), fun ho ↦ ?_⟩
        rw [hopen] at ho
        cases ho
      · rw [hstatus] at hnew hopen
        refine ⟨fun hc ↦ ?_, fun _ ↦ hnew ▸ ?_⟩
        · rw [hopen] at hc
          cases hc
        · cases hwas : (view s.file key).isOpen with
          | false => exact begin_episode (h.closed hwas)
          | true => exact extend_episode (h.opened hwas)

structure Recorded (s : System) : Prop where
  dated : Dated s
  worded : ∀ key, Worded s key
  tracked : ∀ key, Tracks (view s.file key) (history s key)

theorem recorded_initial : Recorded (initial none) where
  dated := fun id e he ↦ by simp [initial, events] at he
  worded := fun key ↦ ⟨fun _ ↦ nil_mem_episodes, fun h ↦ by cases h⟩
  tracked := fun key ↦ ⟨by simp [history, initial], ⟨[], .nil _ rfl rfl⟩, ⟨[], .nil _ rfl⟩⟩

theorem event_qualifies {status : Status} (htracks : Tracks (view s.file key) (history s key))
    (hhistory : history t key = history s key ++ [⟨key, now, o.errorCode⟩])
    (hemit : (verdict o ((view s.file key).advance now) now).emit)
    (hstatus : (verdict o ((view s.file key).advance now) now).status = status) :
    (status = .opened → manualError o.errorCode ∨ FailingRun (history t key)) ∧
      (status = .recovered → (view s.file key).isOpen ∧ HealthyRun (history t key)) := by
  have htracks' : Tracks (verdict o ((view s.file key).advance now) now).settled
      (history t key) := hhistory ▸ tracks_observed htracks o now
  have hlast : (history t key).getLast? = some ⟨key, now, o.errorCode⟩ := by
    rw [hhistory, getLast?_concat]
  rcases emit_verdict hemit with ⟨hcode, hrecovered, hopen, hspan⟩ | ⟨hcode, hopened, hqualifies⟩
  · rw [hrecovered] at hstatus
    subst hstatus
    refine ⟨nofun, fun _ ↦ ⟨hopen, ?_⟩⟩
    obtain ⟨run, hrun⟩ := htracks'.healthy
    obtain ⟨first, hfirst, hsince⟩ :=
      map_eq_some_iff.mp (hrun.start.symm.trans (settled_healthy hcode _ now).2.2)
    exact ⟨run, first, _, hrun.suffix, hrun.healthy, hrun.dense, hfirst,
      (getLast?_suffix hrun.suffix hfirst).trans hlast, by rw [hsince]; exact hspan⟩
  · rw [hopened] at hstatus
    subst hstatus
    refine ⟨fun _ ↦ ?_, nofun⟩
    rcases Bool.or_eq_true_iff.mp hqualifies with hcount | hmanual
    · obtain ⟨hthree, hspan⟩ := Bool.and_eq_true_iff.mp hcount
      obtain ⟨run, hrun⟩ := htracks'.failing
      obtain ⟨hcount', hstreak', -⟩ := settled_failure hcode ((view s.file key).advance now) now
      refine .inr (hrun.failingRun ?_ hstreak' hlast (of_decide_eq_true hspan))
      rw [hcount']
      exact of_decide_eq_true hthree
    · exact .inl hmanual

/-- Every incident event is earned by the observations before it, and the events of an instance
are those of its incidents, one after another. -/
theorem incident_events_earned
    (hreach : Reach (step sizes) (fun _ a ↦ a.queues = false) (initial none) s) :
    (∀ key, statuses s key ∈ episodes .opened .recovered ∨
      statuses s key ∈ unfinished .opened .recovered) ∧
    ∀ (a : Action) (t : System) (e : Event), step sizes s a = some t → a.queues = false →
      t.appended = s.appended ++ [e] →
      (∀ store o now calls, a = .observe store o now calls → e.status = .opened →
        manualError o.errorCode = true ∨ FailingRun (history t (Event.key e))) ∧
      (e.status = .recovered → statuses s (Event.key e) ∈ unfinished .opened .recovered ∧
        HealthyRun (history t (Event.key e))) := by
  have hrecorded : Recorded s := hreach.invariant (I := Recorded) recorded_initial
    fun _ _ _ hs hqueue hstep ↦ ⟨dated_step hs.dated hqueue hstep,
      fun key ↦ worded_seen (hs.worded key) hs.dated (step_seen hstep key),
      fun key ↦ tracks_seen (hs.tracked key) (step_seen hstep key)⟩
  refine ⟨fun key ↦ ?_, fun a t e hstep hqueue happended ↦ ?_⟩
  · cases hopen : (view s.file key).isOpen with
    | false => exact .inl ((hrecorded.worded key).closed hopen)
    | true => exact .inr ((hrecorded.worded key).opened hopen)
  have hstatuses : statuses t (Event.key e) = statuses s (Event.key e) ++ [e.status] := by
    simp [statuses, happended]
  have hseen := step_seen hstep (Event.key e)
  generalize hkey : Event.key e = key at *
  cases hseen with
  | idle _ _ _ hsame => simp [hsame] at hstatuses
  | audited store o now failed calls ha hopen hview _ _ hnew =>
    rw [hnew, List.append_cancel_left_eq, List.singleton_inj] at hstatuses
    refine ⟨fun _ _ _ _ ha' ↦ ?_, fun hrecovered ↦ ?_⟩
    · rw [ha] at ha'
      cases ha'
    · rw [← hstatuses] at hrecovered
      cases hrecovered
  | observed store o now calls ha hkey hlater hview hhistory _ hnew =>
    have hnew := statuses_observed hrecorded.dated hlater hnew
    rw [hstatuses, List.append_cancel_left_eq] at hnew
    cases hemit : (verdict o ((view s.file key).advance now) now).emit with
    | false => simp [hemit] at hnew
    | true =>
      rw [hemit, if_pos rfl, List.singleton_inj] at hnew
      obtain ⟨hopened, hrecovered⟩ :=
        event_qualifies (hrecorded.tracked key) hhistory hemit hnew.symm
      refine ⟨fun store' o' now' calls' ha' hstatus ↦ ?_, fun hstatus ↦ ?_⟩
      · rw [ha] at ha'
        cases ha'
        exact hopened hstatus
      · obtain ⟨hopen, hrun⟩ := hrecovered hstatus
        exact ⟨(hrecorded.worded key).opened hopen, hrun⟩

def recovering : List Action :=
  [observes "PLUGIN_CONFIG_INVALID" "a" 0 .done, observes "" "b" 60 .done,
    observes "" "c" 120 .done, observes "" "d" 180 .done, observes "" "e" 240 .done,
    observes "" "f" 300 .done]

theorem incident_events_earned_recovering :
    ∃ s t e, Reach (step sampleSizes) (fun _ a ↦ a.queues = false) (initial none) s ∧
      step sampleSizes s (observes "" "g" 360 .done) = some t ∧ t.appended = s.appended ++ [e] ∧
      e.status = .recovered ∧ statuses s (Event.key e) ∈ unfinished .opened .recovered ∧
      HealthyRun (history t (Event.key e)) := by
  have hexists : ∃ s, Reach (step sampleSizes) (fun _ a ↦ a.queues = false) (initial none) s ∧
      ((step sampleSizes s (observes "" "g" 360 .done)).any fun t ↦
        t.appended.dropLast = s.appended ∧
          t.appended.getLast?.any fun e ↦ e.status = .recovered) = true :=
    exists_reach recovering _ (by decide +kernel)
  obtain ⟨s, hs, hstep⟩ := hexists
  obtain ⟨t, ht, happended⟩ := (Option.any_eq_true _ _).mp hstep
  obtain ⟨hdrop, hlast⟩ := of_decide_eq_true happended
  obtain ⟨e, he, hrecovered⟩ := (Option.any_eq_true _ _).mp hlast
  have heq : t.appended = s.appended ++ [e] := by
    rw [← hdrop, List.dropLast_append_getLast?]
    exact he
  have hearned := ((incident_events_earned hs).2 _ t e ht rfl heq).2 (of_decide_eq_true hrecovered)
  exact ⟨s, t, e, hs, ht, heq, of_decide_eq_true hrecovered, hearned⟩

end AnixAgent.Maintenance.Incidents
