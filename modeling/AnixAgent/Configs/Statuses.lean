import AnixAgent.Configs.Machine
import AnixAgent.NodePlane.Machine

namespace AnixAgent.Configs.Statuses

open Machine Lib.Runs
open NodePlane.Machine (Node ConfigParts ControllerParts newController)

variable {β σ π : Type} {env : Applier β σ π} {s t : System β σ}

/-- The node runs a snapshot with this revision and hash: the last call of
`ApplyConfig` was for it and returned nil, or there was none since it was restored. -/
def Runs (s : System β σ) (configRevision : Nat) (configHash : String) : Prop :=
  ∃ snapshot, (s.latest = some (.called snapshot true) ∨ s.latest = some (.restored snapshot)) ∧
    snapshot.configRevision = configRevision ∧ snapshot.configHash = configHash

def succeeded : Latest β → Bool
  | .called _ ok => ok
  | .restored _ => true

def Fresh (s : System β σ) : Action β π → Prop
  | .begin _ => ∀ snapshot ∈ s.pendingConfig, AlreadyApplied s snapshot →
      ∀ latest ∈ s.latest, succeeded latest = true
  | _ => True

instance (s : System β σ) (a : Action β π) : Decidable (Fresh s a) := by
  unfold Fresh
  split <;> infer_instance

def Tracks (s : System β σ) : Prop :=
  match s.latest with
  | none => s.appliedConfig = none
  | some (.called snapshot true) | some (.restored snapshot) => s.appliedConfig = some snapshot
  | some (.called _ false) => True

structure Quiet (s t : System β σ) : Prop where
  latest : t.latest = s.latest
  appliedConfig : t.appliedConfig = s.appliedConfig
  closed : t.closed = s.closed

theorem Quiet.tracks (h : Quiet s t) (hs : Tracks s) : Tracks t := by
  unfold Tracks
  rw [h.latest, h.appliedConfig]
  exact hs

theorem flushStatus_quiet (s : System β σ) (delivered : Bool) :
    Quiet s (flushStatus s delivered) ∧ (flushStatus s delivered).queued = s.queued := by
  unfold flushStatus
  split
  · exact ⟨⟨rfl, rfl, rfl⟩, rfl⟩
  · split <;> exact ⟨⟨rfl, rfl, rfl⟩, rfl⟩

theorem queueStatus_quiet (s : System β σ) (status : ConfigStatus) (delivered : Bool) :
    Quiet s (queueStatus s status delivered) ∧
      (queueStatus s status delivered).queued = s.queued ++ [status] := by
  obtain ⟨hquiet, hqueued⟩ := flushStatus_quiet
    { s with pendingStatus := some status, queued := s.queued ++ [status] } delivered
  exact ⟨⟨hquiet.latest, hquiet.appliedConfig, hquiet.closed⟩, hqueued⟩

/-- What a step does about statuses: none is queued, or one that says the snapshot was
not applied, or one that is true. -/
inductive Answered (s t : System β σ) : Prop
  | silent (h : t.queued = s.queued)
  | refused {status : ConfigStatus} (h : t.queued = s.queued ++ [status])
      (hstatus : status.applied = false)
  | applied {status : ConfigStatus} (h : t.queued = s.queued ++ [status])
      (hruns : Runs t status.configRevision status.configHash)

theorem Answered.of_queued {s' : System β σ} (h : Answered s' t) (hqueued : s'.queued = s.queued) :
    Answered s t := by
  cases h with
  | silent h => exact .silent (h.trans hqueued)
  | refused h hstatus => exact .refused (hqueued ▸ h) hstatus
  | applied h hruns => exact .applied (hqueued ▸ h) hruns

theorem answered_receiveConfig (env : Applier β σ π) (s : System β σ)
    (snapshot : Option (ConfigSnapshot β)) (delivered : Bool) :
    Quiet s (receiveConfig env s snapshot delivered) ∧
      Answered s (receiveConfig env s snapshot delivered) := by
  unfold receiveConfig
  split
  · exact ⟨⟨rfl, rfl, rfl⟩, .silent rfl⟩
  next snapshot =>
  split
  · next problem code _ =>
    dsimp only
    split
    · obtain ⟨hquiet, hqueued⟩ := queueStatus_quiet s
        ⟨snapshot.configRevision, snapshot.configHash, false, problem, code⟩ delivered
      exact ⟨⟨hquiet.latest, hquiet.appliedConfig, hquiet.closed⟩, .refused hqueued rfl⟩
    · exact ⟨⟨rfl, rfl, rfl⟩, .silent rfl⟩
  · exact ⟨⟨rfl, rfl, rfl⟩, .silent rfl⟩

variable {snapshot : ConfigSnapshot β}

theorem answered_finishConfig {err : Option ApplyError}
    (hlatest : s.latest = some (.called snapshot err.isNone)) (delivered : Bool) :
    Tracks (finishConfig s snapshot err delivered) ∧
      Answered s (finishConfig s snapshot err delivered) := by
  unfold finishConfig
  cases err with
  | some err =>
    obtain ⟨hquiet, hqueued⟩ := queueStatus_quiet { s with lastConfigError := err.text }
      ⟨snapshot.configRevision, snapshot.configHash, false, err.text, configErrorCode err⟩ delivered
    refine ⟨?_, .refused hqueued rfl⟩
    unfold Tracks
    rw [hquiet.latest, hlatest]
    trivial
  | none =>
    obtain ⟨hquiet, hqueued⟩ := queueStatus_quiet { s with
      appliedConfig := some snapshot
      persistedConfig := some snapshot
      lastConfigError := "" } (appliedStatus snapshot) delivered
    have hcalled := hquiet.latest.trans hlatest
    refine ⟨?_, .applied hqueued ⟨snapshot, .inl hcalled, rfl, rfl⟩⟩
    unfold Tracks
    rw [hcalled]
    exact hquiet.appliedConfig

theorem Tracks.runs_of_alreadyApplied (h : Tracks s) (happlied : AlreadyApplied s snapshot)
    (hfresh : ∀ latest ∈ s.latest, succeeded latest) :
    Runs s snapshot.configRevision snapshot.configHash := by
  obtain ⟨applied, hmem, hrevision, hhash⟩ := happlied
  have hsome : s.appliedConfig = some applied := hmem
  unfold Tracks at h
  split at h
  · rw [h] at hsome
    cases hsome
  · next called hlatest =>
    rw [h, Option.some.injEq] at hsome
    exact ⟨applied, .inl (hsome ▸ hlatest), hrevision, hhash⟩
  · next restored hlatest =>
    rw [h, Option.some.injEq] at hsome
    exact ⟨applied, .inr (hsome ▸ hlatest), hrevision, hhash⟩
  · next failed hlatest => exact nomatch hfresh _ hlatest

theorem called_spec {s' : System β σ} {parts : π}
    {err : Option ApplyError} (h : called env s snapshot parts = (s', err)) :
    s'.latest = some (.called snapshot err.isNone) ∧ s'.queued = s.queued ∧
      s'.closed = s.closed := by
  cases h
  exact ⟨rfl, rfl, rfl⟩

theorem step_answered {a : Action β π} (h : s.closed = false → Tracks s) (ha : Fresh s a)
    (hstep : step env s a = some t) : (t.closed = false → Tracks t) ∧ Answered s t := by
  cases a with
  | startStored parts =>
    dsimp only [step] at hstep
    split at hstep
    · split at hstep
      · next hcalled =>
        cases hstep
        exact ⟨fun _ ↦ rfl, .silent (called_spec hcalled).2.1⟩
      next err hcalled =>
      cases hstep
      obtain ⟨hlatest, hqueued, -⟩ := called_spec hcalled
      refine ⟨fun _ ↦ ?_, .silent hqueued⟩
      unfold Tracks
      dsimp only
      rw [hlatest]
      trivial
    · cases hstep
  | takeConfig =>
    dsimp only [step] at hstep
    split at hstep
    · cases hstep
      exact ⟨h, .silent rfl⟩
    · cases hstep
  | result parts delivered =>
    dsimp only [step] at hstep
    split at hstep
    · next snapshot _ _ =>
      cases hcalled : called env s snapshot parts with
      | mk s' err =>
        rw [hcalled] at hstep
        cases hstep
        obtain ⟨hlatest, hqueued, -⟩ := called_spec hcalled
        obtain ⟨htracks, hanswered⟩ := answered_finishConfig
          (s := { s' with startup := .applied snapshot }) hlatest delivered
        exact ⟨fun _ ↦ htracks, hanswered.of_queued hqueued⟩
    · cases hstep
  | activate | session =>
    cases hstep
    exact ⟨h, .silent rfl⟩
  | receive snapshot delivered =>
    cases hstep
    obtain ⟨hquiet, hanswered⟩ := answered_receiveConfig env s snapshot delivered
    exact ⟨fun hopen ↦ hquiet.tracks (h (hquiet.closed ▸ hopen)), hanswered⟩
  | flush delivered =>
    cases hstep
    obtain ⟨hquiet, hqueued⟩ := flushStatus_quiet s delivered
    exact ⟨fun hopen ↦ hquiet.tracks (h (hquiet.closed ▸ hopen)), .silent hqueued⟩
  | begin delivered =>
    dsimp only [step] at hstep
    split at hstep
    · next snapshot _ hpending =>
      split at hstep
      · cases hstep
      next hworks =>
      have hopen : s.closed = false := by
        cases hclosed : s.closed with
        | false => rfl
        | true => simp [hclosed] at hworks
      split at hstep
      · next halready =>
        cases hstep
        obtain ⟨hquiet, hqueued⟩ := queueStatus_quiet { s with pendingConfig := none }
          (appliedStatus snapshot) delivered
        obtain ⟨applied, hlatest, heq⟩ :=
          (h hopen).runs_of_alreadyApplied halready (ha snapshot hpending halready)
        refine ⟨fun _ ↦ hquiet.tracks (h hopen), .applied hqueued ⟨applied, ?_, heq⟩⟩
        rwa [hquiet.latest]
      · cases hstep
        exact ⟨h, .silent rfl⟩
    · cases hstep
  | applied parts delivered =>
    dsimp only [step] at hstep
    split at hstep
    · cases hstep
    next snapshot _ =>
    cases hcalled : called env { s with worker := none } snapshot parts with
    | mk s' err =>
      rw [hcalled] at hstep
      obtain ⟨hlatest, hqueued, -⟩ := called_spec hcalled
      dsimp only at hstep
      split at hstep
      · next hclosed =>
        cases hstep
        exact ⟨fun hopen ↦ absurd (hclosed.symm.trans hopen) nofun, .silent hqueued⟩
      · cases hstep
        obtain ⟨htracks, hanswered⟩ := answered_finishConfig hlatest delivered
        exact ⟨fun _ ↦ htracks, hanswered.of_queued hqueued⟩
  | close =>
    cases hstep
    exact ⟨nofun, .silent rfl⟩

/-- A step queues at most one status, and one that says a snapshot was applied is
queued only when the node runs that snapshot. -/
theorem applied_status_true {node : σ} {persisted : Option (ConfigSnapshot β)} {a : Action β π}
    (hrun : Reach (step env) Fresh (initial node persisted) s) (ha : Fresh s a)
    (hstep : step env s a = some t) :
    t.queued = s.queued ∨ ∃ status, t.queued = s.queued ++ [status] ∧
      (status.applied = true → Runs t status.configRevision status.configHash) := by
  have htracks : s.closed = false → Tracks s := hrun.invariant (fun _ ↦ rfl)
    fun _ _ _ hs ha hstep ↦ (step_answered hs ha hstep).1
  cases (step_answered htracks ha hstep).2 with
  | silent h => exact .inl h
  | @refused status h hstatus =>
    refine .inr ⟨status, h, fun htrue ↦ ?_⟩
    exact nomatch hstatus.symm.trans htrue
  | @applied status h hruns => exact .inr ⟨status, h, fun _ ↦ hruns⟩

def sampleDocument (n : Nat) : NodePlane.Machine.Snapshot Nat :=
  some ⟨"proxy", [], some ⟨.valid n, fun _ ↦ .valid n, fun _ ↦ none⟩⟩

def sampleNode : Applier Nat (Node Nat) ConfigParts where
  forward := false
  sha256 n := if n = 1 then "6b86" else "d473"
  apply node snapshot parts :=
    match NodePlane.Machine.applyConfig node (sampleDocument snapshot.configJson) parts with
    | (node, true) => (node, none)
    | (node, false) => (node, some ⟨"add node", false⟩)

def sampleControllers : Node Nat where
  controllers := [newController "vmess" 0, newController "trojan" 0]
  extras := []
  startupUsers := none
  lastUsers := some [Controller.UserSync.plainUser "a" 1]

def partsWith (second : ControllerParts) : ConfigParts where
  forward := true
  controller i := if i = 1 then second else ⟨.ok, true, .ok, .ok⟩
  controllerCancelled _ := false
  closed _ := true
  extra _ := ⟨.ok, true, .ok, .ok⟩
  extraCancelled _ := false
  others := true

def allWell : ConfigParts := partsWith ⟨.ok, true, .ok, .ok⟩

def snapshotOne : ConfigSnapshot Nat := ⟨1, "6b86", configFormatNodeConfigV1, 1⟩

def snapshotTwo : ConfigSnapshot Nat := ⟨2, "d473", configFormatNodeConfigV1, 2⟩

/-- The stored snapshot is restored and then delivered again. -/
theorem applied_status_true_restored :
    ∃ s t, Reach (step sampleNode) Fresh (initial sampleControllers (some snapshotOne)) s ∧
      step sampleNode s (.begin true) = some t ∧ t.queued = [appliedStatus snapshotOne] ∧
      (t.queued = s.queued ∨ ∃ status, t.queued = s.queued ++ [status] ∧
        (status.applied = true → Runs t status.configRevision status.configHash)) := by
  have hrun : Reach (step sampleNode) Fresh (initial sampleControllers (some snapshotOne)) _ :=
    reach_after [.startStored allWell, .activate, .session true, .receive (some snapshotOne) true]
      (by decide +kernel)
  exact ⟨_, _, hrun, step_after (by decide +kernel), by decide +kernel,
    applied_status_true hrun (by decide +kernel) (step_after (by decide +kernel))⟩

/-- The second snapshot fails for one of two controllers; the first one is delivered
again, and its status is queued while one controller runs the second. -/
theorem redelivered_after_failure :
    ∃ s, Steps (step sampleNode) (initial sampleControllers none) s ∧
      s.queued = [appliedStatus snapshotOne,
        ⟨2, "d473", false, "add node", configErrorCodeApplyFailed⟩, appliedStatus snapshotOne] ∧
      s.latest = some (.called snapshotTwo false) ∧
      s.node.controllers.map (·.info) = [some 2, some 1] :=
  exists_steps [.receive (some snapshotOne) true, .takeConfig, .result allWell true, .activate,
    .receive (some snapshotTwo) true, .begin true, .applied (partsWith ⟨.ok, true, .refused, .ok⟩) true,
    .receive (some snapshotOne) true, .begin true] _ (by decide +kernel)

end AnixAgent.Configs.Statuses
