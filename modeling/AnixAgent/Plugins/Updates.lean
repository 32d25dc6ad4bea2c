import AnixAgent.Plugins.Frames
import AnixAgent.Plugins.Supervision

namespace AnixAgent.Plugins.Updates

open Lib.Runs Lib.Crash Lib.Crash.Proc Lib.Answers Lifecycle Debts Frames Supervision
open Journal (Write)

variable {capable : String → Bool} {original st : PluginState} {w t u : Now} {site : Site}
  {o : Operation} {old : Option String}

/-- A write that reports an error left its file alone, and restoring a file succeeds. -/
def Restores (asked : List (Query × Bool)) : Prop :=
  ∀ x ∈ asked, (x.1.1 = .renamed → x.2 = false) ∧ (x.1.1 = .restoreConfig → x.2 = true)

instance (asked : List (Query × Bool)) : Decidable (Restores asked) := by
  unfold Restores
  infer_instance

theorem Restores.of_prefix {l l' : List (Query × Bool)} (h : Restores l') (hl : l <+: l') :
    Restores l :=
  fun x hx ↦ h x (hl.subset hx)

structure Carried (o : Operation) (t : Now) : Prop where
  state : ∃ st, t.now.state = some st ∧ st.desiredVersion = o.targetVersion ∧
    st.configHash = o.configHash
  config : t.now.config o.targetVersion = some o.config

theorem Carried.of_eq (h : Carried o w) (hnow : t.now = w.now) : Carried o t :=
  ⟨hnow ▸ h.state, hnow ▸ h.config⟩

theorem Carried.of_same (hst : t.now.state = some st) (hsame : Same original st)
    (hversion : original.desiredVersion = o.targetVersion)
    (hhash : original.configHash = o.configHash)
    (hconfig : t.now.config o.targetVersion = some o.config) : Carried o t :=
  ⟨⟨st, hst, hsame.desiredVersion.trans hversion, hsame.configHash.trans hhash⟩, hconfig⟩

def Running (version : String) (p : Plugin) : Prop :=
  ∃ i ∈ p.registered, ∃ q ∈ p.processes[i]?, q.version = version

instance (version : String) (p : Plugin) : Decidable (Running version p) := by
  unfold Running
  infer_instance

/-- What a failed update leaves: the old entry and `config.json`, and the old version running
again or the plugin disabled. -/
structure Undone (original : PluginState) (version : String) (old : Option String) (t : Now) :
    Prop where
  state : ∃ st, t.now.state = some st ∧ Same original st ∧
    (st.enabled = false ∨ Running original.desiredVersion t.now)
  config : t.now.config version = old

structure Closes (original : PluginState) (o : Operation) (old : Option String) (ok : Bool)
    (t : Now) : Prop where
  carried : ok = true → Carried o t
  undone : ok = false → Restores t.asked → Undone original o.targetVersion old t

structure Settles (original : PluginState) (o : Operation) (old : Option String) (ok : Bool)
    (t : Now) : Prop extends Closes original o old ok t where
  fresh : Fresh t.now

structure Back (original : PluginState) (version : String) (old : Option String) (t : Now) :
    Prop where
  off : Off original t
  config : Restores t.asked → t.now.config version = old

variable {version : String}

theorem Restores.config {ok : Bool} (h : Restores t.asked) (ht : Rewritten w t site version old ok)
    (hanswer : ((.restoreConfig, site), ok) ∈ answered w t) : t.now.config version = old := by
  cases ok with
  | true => exact ht.done rfl
  | false => cases (h _ (List.mem_of_mem_drop hanswer)).2 rfl

theorem Off.back (h : Off original w) (version : String) (old : Option String) :
    Ends (restoreConfig .update version old) w fun _ t ↦ Back original version old t :=
  (ends_restoreConfig .update version old).imp fun _ _ ht ↦
    ⟨h.rewritten ht.1, fun hrestores ↦ hrestores.config ht.1 ht.2⟩

theorem Back.calm (h : Back original version old w) (ht : Calm w t)
    (hoff : Off original t) : Back original version old t := by
  refine ⟨hoff, fun hrestores ↦ ?_⟩
  rw [ht.config]
  exact h.config (hrestores.of_prefix ht.asked)

theorem Back.lockDown {f : Plugin → Plugin} (h : Back original o.targetVersion old w)
    (hf : Enters w.now (f w.now)) (hstate : (f w.now).state = some st)
    (hreg : (f w.now).registered = none) (hsame : Same original st) (hoff : st.enabled = false) :
    Ends (locked site f) w fun _ t ↦ Settles original o old false t := by
  refine (ends_locked hf).imp ?_
  rintro - t ⟨hcalm, hst, hreg'⟩
  rw [hstate] at hst
  rw [hreg] at hreg'
  refine ⟨⟨nofun, fun _ hrestores ↦ ⟨⟨st, hst, hsame, .inl hoff⟩, ?_⟩⟩, fresh_of_none hreg'⟩
  rw [hcalm.config]
  exact h.config (hrestores.of_prefix hcalm.asked)

theorem Back.lockUp {f : Plugin → Plugin} {i : Nat} (h : Back original o.targetVersion old w)
    (hran : Ran original.desiredVersion i w) (hf : Enters w.now (f w.now))
    (hstate : (f w.now).state = some st) (hreg : (f w.now).registered = some i)
    (hsame : Same original st) :
    Ends (locked site f) w fun _ t ↦ Settles original o old false t := by
  refine (ends_locked hf).imp ?_
  rintro - t ⟨hcalm, hst, hreg'⟩
  rw [hstate] at hst
  rw [hreg] at hreg'
  have hran' := hran.steady hcalm.toSteady
  have hrunning : Running original.desiredVersion t.now := by
    obtain ⟨q, hq, hversion, -⟩ := hran'
    exact ⟨i, hreg', q, hq, hversion⟩
  refine ⟨⟨nofun, fun _ hrestores ↦ ⟨⟨st, hst, hsame, .inr hrunning⟩, ?_⟩⟩, hran'.fresh hreg'⟩
  rw [hcalm.config]
  exact h.config (hrestores.of_prefix hcalm.asked)

theorem same_merge (original : PluginState) (current : Option PluginState) :
    Same original (mergePendingCleanup original current) := by
  unfold mergePendingCleanup
  split
  · exact .refl original
  · split <;> exact ⟨rfl, rfl, rfl⟩

theorem Back.blocked (h : Back original o.targetVersion old w) : Ends (do
      recordUpdateRollbackBlocked site original o.revision
      pure false) w fun ok t ↦ Settles original o old ok t :=
  .seq (.seq (h.lockDown (.of_log rfl rfl rfl) rfl rfl ((same_merge original _).trans ⟨rfl, rfl, rfl⟩) rfl)
    fun _ _ ht ↦ .pure ht) fun _ _ ht ↦ .pure ht

theorem same_reverted (original : PluginState) (revision : Nat) (current : Option PluginState)
    (running : Bool) : Same original (reverted original revision current running) := by
  refine (same_merge original current).trans ?_
  cases running <;> exact ⟨rfl, rfl, rfl⟩

theorem ends_updateNotStarted (h : Off original w) :
    Ends (updateNotStarted capable original o old) w fun ok t ↦ Settles original o old ok t := by
  refine .bind (sat_seeing ?_)
  split
  · refine .seq (h.recover .recoverUpdate) ?_
    rintro - t₁ ⟨h₁, -⟩
    exact .seq (Off.back h₁ _ _) fun _ t₂ h₂ ↦ h₂.blocked
  refine .seq (Off.back h _ _) fun _ t₁ h₁ ↦ .seq (h₁.off.start .revert Site.noConfusion _) ?_
  rintro (_ | i) t₂ ⟨hoff, hcalm, hran⟩
  · have h₂ := h₁.calm hcalm hoff
    exact .seq (h₂.lockDown (.of_log rfl rfl rfl) rfl hoff.registered
      (same_reverted original o.revision _ false) rfl) fun _ _ ht ↦ .pure ht
  · have h₂ := h₁.calm hcalm hoff
    exact .seq (h₂.lockUp (hran i rfl).1 (.of_log rfl rfl rfl) rfl rfl
      (same_reverted original o.revision _ true)) fun _ _ ht ↦ .pure ht

theorem same_restarted {cur : PluginState} (h : Same original cur) (running : Bool) :
    Same original (restarted original running cur) := by
  refine h.trans ?_
  cases running <;> exact ⟨rfl, rfl, rfl⟩

theorem Off.recoverTarget (h : Off original w) (due : Bool) (version : String) :
    Ends (recoverTarget capable due version) w fun _ t ↦ Off original t := by
  cases due with
  | false => exact .pure h
  | true =>
    refine .seq (h.mark .update version) ?_
    rintro - t₁ ⟨h₁, -⟩
    refine .seq (h₁.recover .recoverUpdate) ?_
    rintro - t₂ ⟨h₂, -⟩
    exact .pure h₂

theorem ends_updateNotWritten {i : Nat} (h : Off original w) :
    Ends (updateNotWritten capable original o old i) w fun ok t ↦ Settles original o old ok t := by
  refine .seq (aside_stopAndCleanup _ _ _) ?_
  rintro ⟨pending, ok⟩ t₁ h₁
  refine .seq (Off.recoverTarget (h.aside h₁) _ _) fun _ t₂ h₂ ↦
    .seq (Off.back h₂ _ _) fun _ t₃ h₃ ↦ ?_
  cases ok with
  | false => exact h₃.blocked
  | true =>
    refine .seq (h₃.off.start .revert Site.noConfusion _) ?_
    rintro (_ | j) t₄ ⟨hoff, hcalm, hran⟩
    · obtain ⟨cur, hcur, hsame⟩ := hoff.state
      have h₄ := h₃.calm hcalm hoff
      exact .seq (h₄.lockDown (.of_log rfl rfl rfl) (by simp only [hcur, Option.map_some]; rfl)
        hoff.registered (same_restarted hsame false) rfl) fun _ _ ht ↦ .pure ht
    · obtain ⟨cur, hcur, hsame⟩ := hoff.state
      have h₄ := h₃.calm hcalm hoff
      exact .seq (h₄.lockUp (hran j rfl).1 (.of_log rfl rfl rfl)
        (by simp only [hcur, Option.map_some]; rfl) rfl (same_restarted hsame true))
        fun _ _ ht ↦ .pure ht

theorem carried_updated {running : Bool} (hst : t.now.state = some (updated original o running))
    (hconfig : t.now.config o.targetVersion = some o.config) : Carried o t := by
  refine ⟨⟨_, hst, ?_⟩, hconfig⟩
  cases running <;> exact ⟨rfl, rfl⟩

theorem ends_updateEnabled (hst : w.now.state = some original)
    (hconfig : w.now.config o.targetVersion = some o.config) :
    Ends (updateEnabled capable original o old) w fun ok t ↦ Settles original o old ok t := by
  refine .bind (sat_seeing (.seq (off_removeProcess hst) ?_))
  rintro - t₁ ⟨h₁, hcalm₁, -⟩
  refine .seq (aside_stop _ _) fun stopped t₂ h₂ ↦ .seq (aside_cleanup _ _) fun cleaned t₃ h₃ ↦ ?_
  have hoff₃ := (h₁.aside h₂).aside h₃
  have hcalm₃ := (hcalm₁.trans h₂.calm).trans h₃.calm
  cases stopped && cleaned with
  | false =>
    exact .seq (Off.back hoff₃ _ _) fun _ t₄ h₄ ↦ .seq (.seq (h₄.lockDown (.of_noted _ rfl rfl rfl)
      rfl rfl ⟨rfl, rfl, rfl⟩ rfl) fun _ _ ht ↦ .pure ht) fun _ _ ht ↦ .pure ht
  | true =>
    refine .seq (aside_ask rfl) ?_
    rintro removed t₄ ⟨h₄, -⟩
    have hoff₄ := hoff₃.aside h₄
    cases removed with
    | false =>
      exact .seq (Off.back hoff₄ _ _) fun _ t₅ h₅ ↦ .seq (.seq (h₅.lockDown (.of_log rfl rfl rfl)
        rfl rfl ⟨rfl, rfl, rfl⟩ rfl) fun _ _ ht ↦ .pure ht) fun _ _ ht ↦ .pure ht
    | true =>
      refine .seq (hoff₄.start .update Site.noConfusion _) ?_
      rintro (_ | i) t₅ ⟨hoff₅, hcalm₅, hran⟩
      · exact ends_updateNotStarted hoff₅
      refine .seq (ends_lockedOr (some original) none (.of_log rfl rfl rfl)
        fun r ↦ ⟨rfl, rfl, rfl, rfl, rfl⟩) ?_
      rintro written t₆ ⟨hcalm₆, hstate, hreg⟩
      cases written with
      | false =>
        exact ends_updateNotWritten ⟨⟨original, hstate, .refl original⟩, hreg⟩
      | true =>
        have hran₆ := (hran i rfl).1.steady hcalm₆.toSteady
        refine .pure ⟨⟨fun _ ↦ carried_updated hstate ?_, nofun⟩, hran₆.fresh hreg⟩
        rw [hcalm₆.config, hcalm₅.config, h₄.calm.config, hcalm₃.config, hconfig]

theorem ends_updateDisabled (henabled : original.enabled = false)
    (hconfig : w.now.config o.targetVersion = some o.config) :
    Ends (updateDisabled capable original o old) w fun ok t ↦ Closes original o old ok t ∧
      (w.now.registered = none → t.now.registered = none) := by
  refine .seq (aside_cleanup _ _) fun cleaned t₁ h₁ ↦ ?_
  cases cleaned with
  | true =>
    refine .seq (ends_lockedOr (some original) t₁.now.registered (.of_log rfl rfl rfl)
      fun r ↦ ⟨rfl, by simp, rfl, rfl, rfl⟩) ?_
    rintro written t₂ ⟨hcalm, hstate, hreg⟩
    have hreg₂ : t₂.now.registered = w.now.registered := by
      rw [hreg, ← h₁.registered]
      split <;> rfl
    cases written with
    | true =>
      refine .pure ⟨⟨fun _ ↦ carried_updated hstate ?_, nofun⟩, hreg₂.trans⟩
      rw [hcalm.config, h₁.calm.config, hconfig]
    | false =>
      refine .seq (ends_restoreConfig _ _ _) ?_
      rintro ok t₃ ⟨h₃, hasked⟩
      refine .pure ⟨⟨nofun, fun _ hrestores ↦ ⟨?_, hrestores.config h₃ hasked⟩⟩,
        (h₃.registered.trans hreg₂).trans⟩
      exact ⟨original, h₃.state.trans hstate, .refl original, .inl henabled⟩
  | false =>
    refine .seq (ends_restoreConfig _ _ _) ?_
    rintro ok t₂ ⟨h₂, hasked⟩
    refine .seq (ends_recordTransitionFailure _ _ _ _) ?_
    rintro - t₃ ⟨hcalm, hstate, hreg⟩
    refine .pure ⟨⟨nofun, fun _ hrestores ↦ ⟨⟨_, hstate, ⟨rfl, rfl, rfl⟩, .inl rfl⟩, ?_⟩⟩,
      fun _ ↦ hreg⟩
    rw [hcalm.config]
    exact (hrestores.of_prefix hcalm.asked).config h₂ hasked

/-- How an update to another version ends: without having replaced its `config.json`, or with
what `Closes` says. -/
inductive Finishes (original : PluginState) (o : Operation) (w : Now) : Bool → Now → Prop
  | refused {t : Now} (h : Rewritten w t .update o.targetVersion (some o.config) false) :
    Finishes original o w false t
  | closes {t : Now} {ok : Bool} (h : Closes original o (w.now.config o.targetVersion) ok t)
    (fresh : original.enabled = true ∨ w.now.registered = none → Fresh t.now) :
    Finishes original o w ok t

theorem Finishes.after {ok : Bool} (h : Finishes original o t ok u) (hnow : t.now = w.now)
    (hmute : Mute w t) : Finishes original o w ok u := by
  cases h with
  | refused h => exact .refused (h.after hnow hmute)
  | closes h fresh => exact .closes (hnow ▸ h) (hnow ▸ fresh)

theorem finishes_of_aside (h : Aside w t) (hnow : t.now = w.now) : Finishes original o w false t :=
  .refused (.of_eq hnow h.calm.mute)

theorem ends_updateVersion (hst : w.now.state = some original) :
    Ends (updateVersion capable original o) w fun ok t ↦ Finishes original o w ok t := by
  refine .seq (aside_verify _ _) ?_
  rintro verified t₁ ⟨h₁, hnow₁⟩
  cases verified with
  | false => exact .pure (finishes_of_aside h₁ hnow₁)
  | true =>
    refine .seq (aside_verify _ _) ?_
    rintro verified t₂ ⟨h₂, hnow₂⟩
    have hnow₂ := hnow₂.trans hnow₁
    have haside₂ := h₁.trans h₂
    cases verified with
    | false => exact .pure (finishes_of_aside haside₂ hnow₂)
    | true =>
      refine .seq (aside_ask rfl) ?_
      rintro readable t₃ ⟨h₃, hnow₃, -⟩
      have hnow₃ := hnow₃.trans hnow₂
      have haside₃ := haside₂.trans h₃
      cases readable with
      | false => exact .pure (finishes_of_aside haside₃ hnow₃)
      | true =>
        refine .bind (sat_seeing (.seq (ends_writeConfig _ _ _) ?_))
        rintro written t₄ ⟨h₄, -⟩
        rw [hnow₃]
        cases written with
        | false => exact .pure (.refused (h₄.after hnow₃ haside₃.calm.mute))
        | true =>
          have hst₄ : t₄.now.state = some original := by rw [h₄.state, hnow₃, hst]
          have hreg₄ : t₄.now.registered = w.now.registered := by rw [h₄.registered, hnow₃]
          cases henabled : original.enabled with
          | true =>
            exact (ends_updateEnabled hst₄ (h₄.done rfl)).imp fun _ _ ht ↦
              .closes ht.toCloses fun _ ↦ ht.fresh
          | false =>
            refine (ends_updateDisabled henabled (h₄.done rfl)).imp fun _ _ ht ↦
              .closes ht.1 fun hor ↦ fresh_of_none (ht.2 (hreg₄.trans ?_))
            exact hor.resolve_left (by simp [henabled])

theorem ends_update_other (hst : w.now.state = some original)
    (hother : original.desiredVersion ≠ o.targetVersion) :
    Ends (update capable o) w fun ok t ↦ Finishes original o w ok t := by
  refine .seq (aside_ask rfl) ?_
  rintro accepted t₁ ⟨h₁, hnow₁, -⟩
  cases accepted with
  | false => exact .pure (finishes_of_aside h₁ hnow₁)
  | true =>
    refine .bind (sat_seeing ?_)
    simp only [hnow₁, hst, if_neg hother]
    have hst₁ : t₁.now.state = some original := by rw [hnow₁, hst]
    exact (ends_updateVersion hst₁).imp fun _ _ ht ↦ ht.after hnow₁ h₁.calm.mute

theorem ends_update_none (hst : w.now.state = none) :
    Ends (update capable o) w fun _ t ↦ t.now = w.now := by
  refine .seq (aside_ask rfl) ?_
  rintro accepted t₁ ⟨-, hnow₁, -⟩
  cases accepted with
  | false => exact .pure hnow₁
  | true =>
    refine .bind (sat_seeing ?_)
    simp only [hnow₁, hst]
    exact .pure hnow₁

theorem ends_rollback_none (hst : w.now.state = none) :
    Ends (rollback capable o) w fun _ t ↦ t.now = w.now := by
  refine .bind (sat_seeing ?_)
  simp only [hst]
  exact .pure rfl

/-- What an update that returns an error leaves: `p` is the plugin before it, `q` after it. -/
structure Unchanged (version : String) (p q : Plugin) : Prop where
  state : ∀ original ∈ p.state, ∃ st ∈ q.state, Same original st
  config : q.config version = p.config version
  process : (q.registered = p.registered ∧ q.processes = p.processes) ∨
    (∃ original ∈ p.state, Running original.desiredVersion q) ∨ ∃ st ∈ q.state, st.enabled = false

theorem Unchanged.of_eq {p q : Plugin} (h : q = p) : Unchanged version p q := by
  subst h
  exact ⟨fun st hst ↦ ⟨st, hst, .refl st⟩, rfl, .inl ⟨rfl, rfl⟩⟩

theorem Finishes.unchanged (h : Finishes original o w false t) (hst : w.now.state = some original)
    (hrestores : Restores t.asked) : Unchanged o.targetVersion w.now t.now := by
  cases h with
  | refused h =>
    refine .of_eq ((h.failed rfl).resolve_right fun hmem ↦ ?_)
    cases (hrestores _ (List.mem_of_mem_drop hmem)).1 rfl
  | closes h =>
    obtain ⟨⟨st, hst', hsame, hrunning⟩, hconfig⟩ := h.undone rfl hrestores
    refine ⟨fun original' horiginal ↦ ?_, hconfig, .inr ?_⟩
    · cases hst.symm.trans horiginal
      exact ⟨st, hst', hsame⟩
    · rcases hrunning with hoff | hrunning
      · exact .inr ⟨st, hst', hoff⟩
      · exact .inl ⟨original, hst, hrunning⟩

/-- An update or rollback to another version that returns an error, in an environment where a
failed write left its file alone and files can be restored. -/
theorem failed_update_undone (capable : String → Bool) (p : Plugin) (o : Operation)
    (answers : List Bool) (operation : Supervised Bool)
    (hoperation : operation = update capable o ∨ operation = rollback capable o)
    (hother : ∀ st ∈ p.state, st.desiredVersion ≠ o.targetVersion)
    (hfailed : (operation ⟨p, answers, []⟩).value = false)
    (hrestores : Restores (operation ⟨p, answers, []⟩).state.asked) :
    Unchanged o.targetVersion p (operation ⟨p, answers, []⟩).state.now := by
  cases hst : p.state with
  | none =>
    refine .of_eq ?_
    rcases hoperation with rfl | rfl
    · exact (ends_update_none hst).ends
    · exact (ends_rollback_none hst).ends
  | some original =>
    have hends : Ends operation ⟨p, answers, []⟩ fun ok t ↦
        Finishes original o ⟨p, answers, []⟩ ok t := by
      rcases hoperation with rfl | rfl
      · exact ends_update_other hst (hother original hst)
      refine .bind (sat_seeing ?_)
      simp only [hst]
      split
      · exact .pure (finishes_of_aside (.refl _) rfl)
      · exact ends_update_other hst (hother original hst)
    have hfinishes := hends.ends
    rw [hfailed] at hfinishes
    exact hfinishes.unchanged hst hrestores

def sampleUpdate : Operation := ⟨"2.0.0", "e4", "other", 3, false⟩

def relapsing : List Bool :=
  [true, true, true, true, true, true, true, true, true, true, false]

theorem failed_update_undone_relapsing :
    ∃ s, Steps (step everyVersion) initial s ∧ s.plugin.registered = some 0 ∧
      (update everyVersion sampleUpdate ⟨s.plugin, relapsing, []⟩).value = false ∧
      (update everyVersion sampleUpdate ⟨s.plugin, relapsing, []⟩).state.now.registered = some 2 ∧
      Unchanged "2.0.0" s.plugin
        (update everyVersion sampleUpdate ⟨s.plugin, relapsing, []⟩).state.now := by
  have hs : Steps (step everyVersion) initial _ := steps_after enabling (by decide)
  exact ⟨_, hs, by decide, by decide, by decide, failed_update_undone everyVersion _ sampleUpdate
    relapsing _ (.inl rfl) (by decide) (by decide) (by decide)⟩

def stranded : List Action :=
  enabling ++ [.crash .save [] 0 false, .run .start [false, false, false]]

/-- An update whose target is not trusted changes nothing, and nothing was registered. -/
theorem failed_update_stranded :
    ∃ s, Steps (step everyVersion) initial s ∧
      (∀ st ∈ s.plugin.state, st.desiredVersion ≠ sampleUpdate.targetVersion) ∧
      (update everyVersion sampleUpdate ⟨s.plugin, [true, false], []⟩).value = false ∧
      Restores (update everyVersion sampleUpdate ⟨s.plugin, [true, false], []⟩).state.asked ∧
      (update everyVersion sampleUpdate ⟨s.plugin, [true, false], []⟩).state.now.registered = none ∧
      (update everyVersion sampleUpdate ⟨s.plugin, [true, false], []⟩).state.now.state.map
        (·.enabled) = some true :=
  exists_steps stranded _ (by decide)

end AnixAgent.Plugins.Updates
