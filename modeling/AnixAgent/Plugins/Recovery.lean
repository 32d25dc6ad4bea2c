import AnixAgent.Plugins.Supervision

namespace AnixAgent.Plugins.Recovery

open Lib.Runs Lib.Crash.Proc Lib.Answers Lifecycle Debts Upkeep Supervision

variable {capable : String → Bool} {s : System}

instance (asked : List (Query × Bool)) : Decidable (Recovering asked) := by
  unfold Recovering
  infer_instance

theorem moment_of_scene (hreach : Steps (step capable) initial s) {task : Task}
    {answers : List Bool} (henabled : Task.enabled s task) {w : Now}
    (hw : w ∈ scenes capable s task answers) : Moment capable w := by
  have hchain := (task_climbs (sound_reachable hreach) henabled answers).1
  exact forall_mem_of_isChain hchain (fun _ _ hc ↦ hc.point.moment) w hw

/-- In a gentle environment a plugin with a registered process has no pending cleanup, at any
moment, and no recovery runs a cleanup or removes a socket beside a registered process. -/
theorem recovery_without_process (hreach : Steps (step capable) initial s) :
    (Gentle s.asked → s.plugin.registered.isSome = true →
      ∀ st ∈ s.plugin.state, st.cleanupPending = false) ∧
    ∀ task answers, Task.enabled s task = true → ∀ w ∈ scenes capable s task answers,
      Gentle w.asked → (w.now.registered.isSome = true → Clear w) ∧
        (Recovering w.asked → w.now.registered = none) := by
  refine ⟨fun hgentle hreg ↦ ?_, fun task answers henabled w hw hgentle ↦ ?_⟩
  · cases sound_reachable hreach with
    | up _ hinv => exact hinv.moment.calm hgentle hreg
    | down _ hrest =>
      rw [hrest.registered] at hreg
      cases hreg
  · have hmoment := moment_of_scene hreach henabled hw
    exact ⟨hmoment.calm hgentle, hmoment.idle hgentle⟩

def next (kind : Journal.Kind) : Task := .operation kind (sampleOperation 4) false

theorem recovery_without_process_enabled :
    ∃ s, Steps (step everyVersion) initial s ∧
      (∃ w ∈ scenes everyVersion s (next .enable) [], Recovering w.asked ∧
        w.now.registered = none) ∧
      ∃ w ∈ scenes everyVersion s (next .enable) [], w.now.registered = some 1 ∧ Clear w := by
  have hexists : ∃ s, Steps (step everyVersion) initial s ∧ Task.enabled s (next .enable) = true ∧
      (∃ w ∈ scenes everyVersion s (next .enable) [], Gentle w.asked ∧ Recovering w.asked) ∧
      ∃ w ∈ scenes everyVersion s (next .enable) [], Gentle w.asked ∧
        w.now.registered = some 1 := exists_steps owing _ (by decide +kernel)
  obtain ⟨s, hs, henabled, ⟨w, hw, hgentle, hrec⟩, u, hu, hgentle', hreg⟩ := hexists
  obtain ⟨-, hscenes⟩ := recovery_without_process hs
  refine ⟨s, hs, ⟨w, hw, hrec, (hscenes _ _ henabled w hw hgentle).2 hrec⟩, u, hu, hreg, ?_⟩
  exact (hscenes _ _ henabled u hu hgentle').1 (by rw [hreg]; rfl)

def misconfiguring : List Action :=
  enabling ++ [runs .configure 3 [true, true, true, true, true, true, true, true, true, true, true,
    false, true, false]]

/-- The rollback of a configuration registers a process beside a pending cleanup, and the next
operation runs that cleanup; so does a `Close` whose `Stop` fails. -/
theorem recovery_beside_process :
    (∃ s, Steps (step everyVersion) initial s ∧ s.plugin.registered = some 2 ∧
      s.plugin.state.map (·.cleanupPending) = some true ∧
      ∃ w ∈ scenes everyVersion s (next .disable) [],
        Recovering w.asked ∧ w.now.registered = some 2) ∧
    ∃ s, Steps (step everyVersion) initial s ∧
      ∃ w ∈ scenes everyVersion s .close [true, true, true, false, false],
        Recovering w.asked ∧ w.now.registered = some 0 ∧
          w.now.state.map (·.cleanupPending) = some true :=
  ⟨exists_steps misconfiguring _ (by decide +kernel), exists_steps enabling _ (by decide +kernel)⟩

/-- The debt of a version that can clean up stays recorded, in memory and from the first write on
in the file, until its signed cleanup returns success. -/
theorem cleanup_debt_kept (hreach : Steps (step capable) initial s) :
    Surviving capable s.plugin ∧ (s.up = true → Kept capable s.plugin) ∧
    ∀ task answers, Task.enabled s task = true →
      (task.opening s :: moments capable s task answers).IsChain fun p q ↦
        Records p q ∧ Kept capable q := by
  have hsound := sound_reachable hreach
  refine ⟨?_, fun hup ↦ ?_, fun task answers henabled ↦ ?_⟩
  · cases hsound with
    | up _ hinv => exact hinv.moment.kept.disk
    | down _ hrest => exact hrest.surviving
  · cases hsound with
    | up _ hinv => exact hinv.moment.kept
    | down hdown _ =>
      rw [hdown] at hup
      cases hup
  · exact task_moments hsound henabled answers fun _ _ hc ↦ ⟨hc.records, hc.point.moment.kept⟩

theorem cleanup_debt_kept_restarted :
    ∃ s t, Steps (step everyVersion) initial s ∧ s.up = true ∧
      debtOf s.plugin.state = some "1.0.0" ∧ Steps (step everyVersion) initial t ∧ t.up = false ∧
      debtOf t.plugin.disk = some "1.0.0" := by
  have hs : Steps (step everyVersion) initial _ := steps_after owing (by decide +kernel)
  have ht : Steps (step everyVersion) initial _ :=
    steps_after (owing ++ [.crash .save [] 0 false]) (by decide +kernel)
  exact ⟨_, _, hs, by decide +kernel, ((cleanup_debt_kept hs).2.1 (by decide +kernel)).memory _ rfl
    (by decide +kernel), ht, by decide +kernel, (cleanup_debt_kept ht).1 _ rfl (by decide +kernel)⟩

/-- The exit of a process whose version has no signed cleanup is recorded, and forgotten without
one. -/
theorem cleanup_debt_dropped :
    ∃ s, Steps (step fun _ ↦ false) initial s ∧ recorded "1.0.0" s.plugin.log = true ∧
      debtOf s.plugin.state = none ∧ debtOf s.plugin.disk = none :=
  exists_steps (enabling ++ [.exit 0, .run .observe []]) _ (by decide +kernel)

end AnixAgent.Plugins.Recovery
