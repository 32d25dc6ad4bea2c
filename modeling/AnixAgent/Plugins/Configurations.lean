import AnixAgent.Plugins.Updates

namespace AnixAgent.Plugins.Configurations

open Lib.Runs Lib.Crash Lib.Crash.Proc Lib.Answers Lifecycle Debts Upkeep Transitions Frames Updates Option
open Operations Supervision
open Journal (Kind operationMutatesState)

variable {capable : String → Bool} {original st : PluginState} {w t u : Now} {site : Site}
  {o : Operation} {old : Option String}

def Placed (p : Plugin) : Prop :=
  ∀ i ∈ p.registered, ∃ st ∈ p.state, ∃ q ∈ p.processes[i]?, st.enabled = true ∧
    q.version = st.desiredVersion ∧ st.observedVersion = st.desiredVersion

theorem placed_of_inv (h : Inv capable w) : Placed w.now := by
  intro i hi
  obtain ⟨st, q, hst, hq, henabled, hversion, -⟩ := h.registered i hi
  exact ⟨st, hst, q, hq, henabled, hversion, (h.state st hst).version henabled⟩

theorem Placed.entry {p : Plugin} {i : Nat} (h : Placed p) (hst : p.state = some st)
    (hi : p.registered = some i) :
    st.enabled ∧ st.observedVersion = st.desiredVersion ∧ Running st.desiredVersion p := by
  obtain ⟨st', hst', q, hq, henabled, hversion, hobserved⟩ := h i hi
  cases hst.symm.trans hst'
  exact ⟨henabled, hobserved, i, hi, q, hq, hversion⟩

theorem Placed.none {p : Plugin} (h : Placed p) (hst : p.state = some st)
    (henabled : st.enabled = false) : p.registered = none := by
  cases hreg : p.registered with
  | none => rfl
  | some i =>
    rw [(h.entry hst hreg).1] at henabled
    cases henabled

theorem Placed.version {p : Plugin} {version : String} (h : Placed p) (hst : p.state = some st)
    (hrunning : Running version p) : st.desiredVersion = version := by
  obtain ⟨i, hi, q, hq, hversion⟩ := hrunning
  obtain ⟨st', hst', q', hq', -, hversion', -⟩ := h i hi
  cases hst.symm.trans hst'
  cases hq.symm.trans hq'
  exact hversion'.symm.trans hversion

structure Idle (w t : Now) : Prop where
  calm : Calm w t
  registered : t.now.registered = w.now.registered

theorem Idle.of_aside (h : Aside w t) : Idle w t := ⟨h.calm, h.registered⟩

theorem Idle.refl (w : Now) : Idle w w := .of_aside (.refl w)

theorem Idle.trans (h : Idle w t) (h' : Idle t u) : Idle w u :=
  ⟨h.calm.trans h'.calm, h'.registered.trans h.registered⟩

theorem Idle.fresh (h : Idle w t) (hw : Fresh w.now) : Fresh t.now :=
  hw.steady h.calm.toSteady h.registered

theorem idle_locked {f : Plugin → Plugin} (hf : Enters w.now (f w.now))
    (hreg : (f w.now).registered = w.now.registered) :
    Ends (locked site f) w fun _ t ↦ Idle w t ∧ t.now.state = (f w.now).state :=
  (ends_locked hf).imp fun _ _ ht ↦ ⟨⟨ht.1, ht.2.2.trans hreg⟩, ht.2.1⟩

theorem idle_recordPluginError (site : Site) : Ends (recordPluginError site) w fun _ t ↦ Idle w t ∧
      t.now.state = w.now.state.map fun st ↦ { st with health := .unhealthy } :=
  .returns (idle_locked (.of_log rfl rfl rfl) rfl)

abbrev Tended (w t : Now) : Prop := Fresh t.now ∨ Idle w t

theorem Idle.tended (h : Idle w t) (h' : Tended t u) : Tended w u :=
  h'.imp_right h.trans

theorem ends_rollbackConfiguration (h : Off original w) (cause : Cause) :
    Ends (rollbackConfiguration capable original o old cause) w fun _ t ↦ Fresh t.now := by
  refine .seq (ends_restoreConfig _ _ _) ?_
  rintro restored t₁ ⟨h₁, -⟩
  have hoff₁ := h.rewritten h₁
  have hstart : Ends (startIf capable (.rollback cause) restored original.desiredVersion) t₁
      fun process t ↦ ∀ i ∈ process, Ran original.desiredVersion i t := by
    cases restored with
    | false => exact .pure nofun
    | true =>
      exact (hoff₁.start _ Site.noConfusion _).imp fun _ _ ht i hi ↦ (ht.2.2 i hi).1
  refine .seq hstart fun process t₂ hran ↦ .seq (ends_locked (.of_log rfl rfl rfl)) ?_
  rintro - t₃ ⟨hcalm, -, hreg⟩
  cases process with
  | none => exact .pure (fresh_of_none hreg)
  | some i => exact .pure (((hran i rfl).steady hcalm.toSteady).fresh hreg)

theorem ends_configureRestart (h : Off original w)
    (htarget : o.targetVersion = original.desiredVersion) :
    Ends (configureRestart capable original o old) w fun ok t ↦
      Fresh t.now ∧ (ok → Carried o t) := by
  have hback {t : Now} (ht : Off original t) (cause : Cause) : Ends (do
        rollbackConfiguration capable original o old cause
        pure false) t fun ok t ↦ Fresh t.now ∧ (ok → Carried o t) :=
    .seq (ends_rollbackConfiguration ht cause) fun _ _ hu ↦ .pure ⟨hu, nofun⟩
  refine .seq (aside_ask rfl) ?_
  rintro removed t₁ ⟨h₁, -⟩
  have hoff₁ := h.aside h₁
  cases removed with
  | false => exact hback hoff₁ _
  | true =>
    refine .seq (ends_writeConfig _ _ _) ?_
    rintro written t₂ ⟨h₂, -⟩
    have hoff₂ := hoff₁.rewritten h₂
    cases written with
    | false => exact hback hoff₂ _
    | true =>
      refine .seq (hoff₂.start .configure Site.noConfusion _) ?_
      rintro (_ | i) t₃ ⟨hoff₃, hcalm₃, hran⟩
      · exact .bind (sat_seeing (hback hoff₃ _))
      refine .seq (ends_lockedOr (some original) none (.of_log rfl rfl rfl)
        fun r ↦ ⟨rfl, rfl, rfl, rfl, rfl⟩) ?_
      rintro persisted t₄ ⟨hcalm₄, hstate, hreg⟩
      cases persisted with
      | false =>
        have hoff₄ : Off original t₄ := ⟨⟨original, hstate, .refl original⟩, hreg⟩
        exact .seq (aside_stop _ _) fun _ t₅ h₅ ↦ hback (hoff₄.aside h₅) _
      | true =>
        have hran₄ := (hran i rfl).1.steady hcalm₄.toSteady
        refine .pure ⟨hran₄.fresh hreg, fun _ ↦ ⟨⟨_, hstate, htarget.symm, rfl⟩, ?_⟩⟩
        rw [hcalm₄.config, hcalm₃.config, htarget]
        exact h₂.done rfl

theorem ends_configureEnabled (hst : w.now.state = some original)
    (htarget : o.targetVersion = original.desiredVersion) :
    Ends (configureEnabled capable original o) w fun ok t ↦ Tended w t ∧ (ok → Carried o t) := by
  refine .seq (ends_ask _) ?_
  rintro readable t₁ ⟨hnow₁, hasked₁⟩
  cases readable with
  | false =>
    have h₁ : Idle w t₁ := .of_aside (.of_eq hnow₁ hasked₁ (by simp [replaces]))
    exact .seq (idle_recordPluginError _) fun _ _ ht ↦ .pure ⟨.inr (h₁.trans ht.1), nofun⟩
  | true =>
    have hst₁ : t₁.now.state = some original := hnow₁ ▸ hst
    refine .bind (sat_seeing (.bind (sat_seeing (.seq (off_removeProcess hst₁) ?_))))
    rintro - t₂ ⟨hoff₂, -⟩
    refine .seq (aside_verify _ _) ?_
    rintro verified t₃ ⟨h₃, -⟩
    have hoff₃ := hoff₂.aside h₃
    cases verified with
    | false =>
      exact .seq (aside_stop _ _) fun _ t₄ _ ↦ .seq (off_recordTransitionFailure _ _ _ _)
        fun _ _ h₅ ↦ .pure ⟨.inl h₅.1.fresh, nofun⟩
    | true =>
      refine .seq (aside_stopAndCleanup _ _ _) ?_
      rintro ⟨pending, ok⟩ t₄ h₄
      cases ok with
      | false =>
        exact .seq (off_recordTransitionFailure _ _ _ _) fun _ _ h₅ ↦ .pure ⟨.inl h₅.1.fresh, nofun⟩
      | true =>
        exact (ends_configureRestart (hoff₃.aside h₄) htarget).imp fun _ _ ht ↦ ⟨.inl ht.1, ht.2⟩

theorem ends_configureDisabled (hreg : w.now.registered = none)
    (htarget : o.targetVersion = original.desiredVersion) :
    Ends (configureDisabled original o) w fun ok t ↦ Fresh t.now ∧ (ok → Carried o t) := by
  refine .seq (ends_writeConfig _ _ _) ?_
  rintro written t₁ ⟨h₁, -⟩
  have hreg₁ := h₁.registered.trans hreg
  cases written with
  | false => exact .pure ⟨fresh_of_none hreg₁, nofun⟩
  | true =>
    refine (idle_locked (.of_log rfl rfl rfl) rfl).imp ?_
    rintro ok t₂ ⟨h₂, hstate⟩
    refine ⟨fresh_of_none (h₂.registered.trans hreg₁), fun _ ↦ ⟨⟨_, hstate, htarget.symm, rfl⟩, ?_⟩⟩
    rw [h₂.calm.config, htarget]
    exact h₁.done rfl

theorem ends_configure (h : Placed w.now) :
    Ends (configure capable o) w fun ok t ↦ Tended w t ∧ (ok → Carried o t) := by
  refine .seq (aside_ask rfl) ?_
  rintro accepted t₁ ⟨h₁, hnow₁, -⟩
  have hidle := Idle.of_aside h₁
  cases accepted with
  | false => exact .pure ⟨.inr hidle, nofun⟩
  | true =>
    refine .bind (sat_seeing ?_)
    cases hst : t₁.now.state with
    | none => exact .pure ⟨.inr hidle, nofun⟩
    | some original =>
      simp only []
      split
      · exact .pure ⟨.inr hidle, nofun⟩
      next hversion =>
      obtain ⟨-, htarget⟩ := not_or.mp hversion
      rw [not_not] at htarget
      cases henabled : original.enabled with
      | true =>
        exact (ends_configureEnabled hst htarget).imp fun _ _ ht ↦ ⟨hidle.tended ht.1, ht.2⟩
      | false =>
        rw [hnow₁] at hst
        have hreg : t₁.now.registered = none := hnow₁ ▸ h.none hst henabled
        exact (ends_configureDisabled hreg htarget).imp fun _ _ ht ↦ ⟨.inl ht.1, ht.2⟩

structure Enabling (w : Now) (ok : Bool) (t : Now) : Prop where
  steady : Steady w t
  same : ∀ st, w.now.state = some st → ∃ st', t.now.state = some st' ∧ Same st st'
  process : Idle w t ∨ Fresh t.now ∧ (ok = false → t.now.registered = none)

theorem Enabling.of_off (h : Off original t) (hsteady : Steady w t)
    (hst : w.now.state = some original) : Enabling w false t where
  steady := hsteady
  same := fun st heq ↦ by
    cases hst.symm.trans heq
    exact h.state
  process := .inr ⟨h.fresh, fun _ ↦ h.registered⟩

theorem off_recordPluginError (h : Off original w) (site : Site) :
    Ends (recordPluginError site) w fun _ t ↦ Off original t ∧ Calm w t := by
  refine (idle_recordPluginError site).imp ?_
  rintro - t ⟨hidle, hstate⟩
  obtain ⟨cur, hcur, hsame⟩ := h.state
  rw [hcur] at hstate
  exact ⟨⟨⟨_, hstate, hsame.trans ⟨rfl, rfl, rfl⟩⟩, hidle.registered.trans h.registered⟩,
    hidle.calm⟩

theorem ends_enableStart (h : Off original t) (hsteady : Steady w t)
    (hst : w.now.state = some original) (version : String) :
    Ends (enableStart capable o version) t fun ok u ↦ Enabling w ok u := by
  refine .seq (h.start .enable Site.noConfusion _) ?_
  rintro (_ | i) t₁ ⟨hoff₁, hcalm₁, hran⟩
  · refine .seq (off_recordPluginError hoff₁ _) fun _ t₂ h₂ ↦ .pure (.of_off h₂.1 ?_ hst)
    exact (hsteady.trans hcalm₁.toSteady).trans h₂.2.toSteady
  obtain ⟨cur, hcur, hsame⟩ := hoff₁.state
  refine .seq (ends_lockedOr (some cur) none (.of_log rfl rfl rfl)
    fun r ↦ ⟨hcur, rfl, rfl, rfl, rfl⟩) ?_
  rintro written t₂ ⟨hcalm₂, hstate, hreg⟩
  have hsteady₂ := (hsteady.trans hcalm₁.toSteady).trans hcalm₂.toSteady
  cases written with
  | true =>
    rw [if_pos rfl, hcur] at hstate
    refine .pure ⟨hsteady₂, fun st heq ↦ ?_, .inr ⟨?_, nofun⟩⟩
    · cases hst.symm.trans heq
      exact ⟨_, hstate, hsame.trans ⟨rfl, rfl, rfl⟩⟩
    · exact ((hran i rfl).1.steady hcalm₂.toSteady).fresh hreg
  | false =>
    have hoff₂ : Off original t₂ := ⟨⟨cur, hstate, hsame⟩, hreg⟩
    exact .seq (aside_stop _ _) fun _ t₃ h₃ ↦
      .pure (.of_off (hoff₂.aside h₃) (hsteady₂.trans h₃.calm.toSteady) hst)

theorem ends_enableUnhealthy (hst : w.now.state = some original) (hsteady : Steady u w)
    (hst' : u.now.state = some original) (process : Option Nat) :
    Ends (enableUnhealthy capable original o process) w fun ok t ↦ Enabling u ok t := by
  have hdown {t : Now} (ht : Steady u t) (version : String) : Ends (do
        recordTransitionFailure .enable original o.revision version
        pure false) t fun ok t ↦ Enabling u ok t :=
    .seq (off_recordTransitionFailure _ _ _ _) fun _ _ h' ↦
      .pure (.of_off h'.1 (ht.trans h'.2.toSteady) hst')
  refine .seq (off_removeProcess hst) ?_
  rintro - t₁ ⟨hoff₁, hcalm₁, -⟩
  refine .seq (aside_verify _ _) ?_
  rintro verified t₂ ⟨h₂, -⟩
  have hsteady₂ := (hsteady.trans hcalm₁.toSteady).trans h₂.calm.toSteady
  have hoff₂ := hoff₁.aside h₂
  cases verified with
  | false =>
    exact .seq (aside_stop _ _) fun _ t₃ h₃ ↦ hdown (hsteady₂.trans h₃.calm.toSteady) _
  | true =>
    refine .seq (aside_stopAndCleanup _ _ _) ?_
    rintro ⟨pending, ok⟩ t₃ h₃
    have hsteady₃ := hsteady₂.trans h₃.calm.toSteady
    have hoff₃ := hoff₂.aside h₃
    cases ok with
    | false => exact hdown hsteady₃ _
    | true =>
      refine .seq (aside_ask rfl) ?_
      rintro removed t₄ ⟨h₄, -⟩
      have hsteady₄ := hsteady₃.trans h₄.calm.toSteady
      cases removed with
      | true => exact ends_enableStart (hoff₃.aside h₄) hsteady₄ hst' _
      | false =>
        exact .seq (off_recordConfigureStopFailure _ _) fun _ _ h₅ ↦
          .pure (.of_off h₅.1 (hsteady₄.trans h₅.2.toSteady) hst')

variable {ok : Bool}

theorem Idle.enabling (h : Idle w t)
    (hsame : ∀ st, w.now.state = some st → ∃ st', t.now.state = some st' ∧ Same st st') :
    Enabling w ok t :=
  ⟨h.calm.toSteady, hsame, .inl h⟩

theorem ends_enable (h : Placed w.now) : Ends (enable capable o) w fun ok t ↦ Enabling w ok t ∧
      (ok → ∃ st ∈ w.now.state, st.desiredVersion = o.targetVersion) := by
  have hsame : ∀ st, w.now.state = some st → ∃ st', w.now.state = some st' ∧ Same st st' :=
    fun st hst ↦ ⟨st, hst, .refl st⟩
  refine .bind (sat_seeing ?_)
  cases hst : w.now.state with
  | none => exact .pure ⟨(Idle.refl w).enabling hsame, nofun⟩
  | some original =>
    simp only []
    split
    · exact .pure ⟨(Idle.refl w).enabling hsame, nofun⟩
    next hversion =>
    have htarget : original.desiredVersion = o.targetVersion :=
      not_not.mp (not_or.mp hversion).2
    refine Ends.imp (Q := fun ok t ↦ Enabling w ok t) ?_ fun _ _ ht ↦
      ⟨ht, fun _ ↦ ⟨original, rfl, htarget⟩⟩
    refine .bind (sat_seeing ?_)
    cases hreg : w.now.registered with
    | none =>
      have hoff : Off original w := ⟨⟨original, hst, .refl original⟩, hreg⟩
      exact ends_enableStart hoff (Calm.refl w).toSteady hst _
    | some i =>
      obtain ⟨henabled, hobserved, -⟩ := h.entry hst hreg
      simp only [isSome_some, henabled, hobserved, decide_true, Bool.and_self, if_true]
      refine .seq (ends_ask _) ?_
      rintro healthy t₁ ⟨hnow₁, hasked₁⟩
      have hst₁ : t₁.now.state = some original := hnow₁ ▸ hst
      cases healthy with
      | true =>
        have h₁ : Idle w t₁ := .of_aside (.of_eq hnow₁ hasked₁ (by simp [replaces]))
        refine (idle_locked (.of_log rfl rfl rfl) rfl).imp ?_
        rintro ok t₂ ⟨h₂, hstate⟩
        refine (h₁.trans h₂).enabling fun st heq ↦ ?_
        cases hst.symm.trans heq
        rw [hst₁] at hstate
        exact ⟨_, hstate, ⟨rfl, rfl, rfl⟩⟩
      | false =>
        exact ends_enableUnhealthy hst₁ (.of_eq hnow₁ (hasked₁ ▸ List.prefix_append _ _)) hst _

theorem Enabling.tended (h : Enabling w ok t) : Tended w t :=
  h.process.elim .inr fun h' ↦ .inl h'.1

theorem ends_disable : Ends (disable capable o) w fun _ t ↦ Tended w t := by
  refine .bind (sat_seeing ?_)
  cases hst : w.now.state with
  | none => exact .pure (.inr (.refl w))
  | some original =>
    simp only []
    split
    · exact .pure (.inr (.refl w))
    refine .bind (sat_seeing (.seq (off_removeProcess hst) ?_))
    rintro - t₁ ⟨hoff₁, -⟩
    refine .seq (aside_verify _ _) ?_
    rintro verified t₂ ⟨h₂, -⟩
    refine .seq (aside_stop _ _) fun stopped t₃ h₃ ↦ .seq (aside_cleanupIf _ _ _)
      fun cleaned t₄ h₄ ↦ .seq (aside_ask rfl) ?_
    rintro removed t₅ ⟨h₅, -⟩
    refine .seq (ends_locked (.of_noted _ rfl rfl rfl)) ?_
    rintro written t₆ ⟨-, -, hreg⟩
    have hoff₅ := (((hoff₁.aside h₂).aside h₃).aside h₄).aside h₅
    exact .pure (.inl (fresh_of_none (hreg.trans hoff₅.registered)))

/-- Something of a registered process of the target version was written: its `config.json` by an
`enable`, or a secret file of its configuration. -/
def Touched (o : Operation) (w t : Now) : Prop :=
  Running o.targetVersion w.now ∧
    (((.writeConfig, .enable), true) ∈ answered w t ∨ ((.renamed, .enable), true) ∈ answered w t ∨
      ((.secrets, .operation), true) ∈ answered w t ∧
        w.now.config o.targetVersion = some o.config)

def Replaced (w t : Now) : Prop := ∃ x ∈ answered w t, replaces x = true

instance (w t : Now) : Decidable (Touched o w t) := by
  unfold Touched
  infer_instance

instance (w t : Now) : Decidable (Replaced w t) := by
  unfold Replaced
  infer_instance

theorem not_replaced (h : Mute w t) : ¬ Replaced w t := by
  obtain ⟨l, hl, hmute⟩ := h
  rintro ⟨x, hx, hreplaces⟩
  rw [answered_append hl] at hx
  rw [hmute x hx] at hreplaces
  cases hreplaces

theorem Touched.later (h : Touched o w t) (hw : w.asked <+: t.asked) (ht : t.asked <+: u.asked) :
    Touched o w u := by
  have hsub {x : Query × Bool} (hx : x ∈ answered w t) : x ∈ answered w u :=
    answered_later hx hw ht
  exact ⟨h.1, h.2.imp hsub (Or.imp hsub fun hs ↦ ⟨hsub hs.1, hs.2⟩)⟩

/-- The registered process has what was written last, or it stayed, and if something of it was
written the answers show that. -/
def Minds (o : Operation) (w t : Now) : Prop :=
  Fresh t.now ∨ Mute w t ∧ (Fresh w.now → Fresh t.now ∨ Touched o w t)

structure Before (o : Operation) (w t : Now) : Prop where
  mute : Mute w t
  config : t.now.config = w.now.config
  running : ∀ version, Running version t.now → Running version w.now
  fresh : Fresh w.now → Fresh t.now ∨ Touched o w t

theorem Touched.earlier (h : Touched o t u) (hw : Before o w t) (ht : t.asked <+: u.asked) :
    Touched o w u := by
  have hsub {x : Query × Bool} (hx : x ∈ answered t u) : x ∈ answered w u :=
    answered_earlier hx hw.mute.asked ht
  exact ⟨hw.running _ h.1, h.2.imp hsub (Or.imp hsub fun hs ↦ ⟨hsub hs.1, hw.config ▸ hs.2⟩)⟩

theorem Before.minds (h : Before o w t) (h' : Minds o t u) : Minds o w u := by
  refine h'.imp_right fun ⟨hmute, hfresh⟩ ↦ ⟨h.mute.trans hmute, fun hw ↦ ?_⟩
  rcases h.fresh hw with ht | htouched
  · exact (hfresh ht).imp_right fun hu ↦ hu.earlier h hmute.asked
  · exact .inr (htouched.later h.mute.asked hmute.asked)

theorem Idle.before (h : Idle w t) (hw : Placed w.now) : Before o w t where
  mute := h.calm.mute
  config := h.calm.config
  running := by
    rintro version ⟨i, hi, q, hq, hversion⟩
    rw [h.registered] at hi
    obtain ⟨-, -, q', hq', -⟩ := hw i hi
    obtain ⟨q'', hq'', hsame, -⟩ := h.calm.places i q' hq'
    cases hq.symm.trans hq''
    exact ⟨i, hi, q', hq', hsame.symm.trans hversion⟩
  fresh := fun hw ↦ .inl (h.fresh hw)

theorem Tended.minds (h : Tended w t) : Minds o w t :=
  h.imp_right fun hidle ↦ ⟨hidle.calm.mute, fun hw ↦ .inl (hidle.fresh hw)⟩

theorem Minds.idle (h : Minds o w t) (h' : Idle t u) : Minds o w u := by
  rcases h with hfresh | ⟨hmute, hfresh⟩
  · exact .inl (h'.fresh hfresh)
  · refine .inr ⟨hmute.trans h'.calm.mute, fun hw ↦ (hfresh hw).imp h'.fresh fun htouched ↦ ?_⟩
    exact htouched.later hmute.asked h'.calm.asked

variable {content : Option String}

theorem other_of_rewritten {version : String}
    (h : Rewritten w t site version content ok) (hversion : ¬ Running version w.now) :
    ¬ Running version t.now ∧ (Fresh w.now → Fresh t.now) := by
  refine ⟨?_, fun hfresh i hi ↦ ?_⟩
  · rwa [Running, h.registered, h.processes]
  rw [h.registered] at hi
  obtain ⟨q, hq, hun⟩ := hfresh i hi
  have hne : q.version ≠ version := fun heq ↦ hversion ⟨i, hi, q, hq, heq⟩
  refine ⟨q, h.processes ▸ hq, ?_⟩
  rcases h.log with hnow | hlog
  · exact hnow ▸ hun
  · exact hun.append hlog (h.others _ hne) (by simpa using Ne.symm hne) (by simp)

theorem before_secrets (hnow : t.now = w.now.did (.secrets o.targetVersion o.config))
    (hasked : t.asked = w.asked ++ [((.secrets, .operation), true)]) : Before o w t where
  mute := ⟨_, hasked, by simp [replaces]⟩
  config := by
    rw [hnow]
    rfl
  running := fun version ↦ by
    rw [hnow]
    exact id
  fresh := fun hfresh ↦ by
    by_cases htouched : Running o.targetVersion w.now ∧ w.now.config o.targetVersion = some o.config
    · refine .inr ⟨htouched.1, .inr (.inr ⟨?_, htouched.2⟩)⟩
      rw [answered_append hasked]
      exact List.mem_singleton_self _
    refine .inl fun i hi ↦ ?_
    rw [hnow] at hi ⊢
    obtain ⟨q, hq, hun⟩ := hfresh i hi
    refine ⟨q, hq, hun.append rfl rfl Deed.noConfusion fun c hc heq ↦ ?_⟩
    obtain ⟨hversion, rfl⟩ := Deed.secrets.inj heq
    exact htouched ⟨⟨i, hi, q, hq, hversion.symm⟩, hversion ▸ hc⟩

theorem before_writeSecrets (h : Placed w.now) :
    Ends (writeSecrets o) w fun _ t ↦ Before o w t ∧ Placed t.now ∧ t.now.state = w.now.state := by
  unfold writeSecrets
  split
  · refine .seq (ends_ask _) ?_
    rintro written t₁ ⟨hnow₁, hasked₁⟩
    cases written with
    | false =>
      have h₁ : Idle w t₁ := .of_aside (.of_eq hnow₁ hasked₁ (by simp [replaces]))
      exact .pure ⟨h₁.before h, hnow₁ ▸ h, by rw [hnow₁]⟩
    | true =>
      rw [if_pos rfl]
      refine sat_acting fun t₂ hnow₂ hasked₂ ↦ ⟨trivial, ?_⟩
      rw [hnow₁] at hnow₂
      rw [hasked₁] at hasked₂
      refine ⟨before_secrets hnow₂ hasked₂, ?_, ?_⟩
      · rw [hnow₂]
        exact h
      · rw [hnow₂]
        rfl
  · exact .pure ⟨(Idle.refl w).before h, h, rfl⟩

/-- What an operation that brings a configuration does. `known` says that the entry has its
hash, for an `enable`, which does not record it. -/
structure Brings (o : Operation) (known : Prop) (w : Now) (ok : Bool) (t : Now) : Prop where
  minds : Minds o w t
  carried : ok = true → known → Carried o t

theorem ends_staged {operation : Supervised Bool} (known : Option PluginState → Prop)
    (h : Placed w.now)
    (hop : ∀ t, Placed t.now → Ends operation t fun ok u ↦ Brings o (known t.now.state) t ok u) :
    Ends (staged o operation) w fun ok t ↦ Brings o (known w.now.state) w ok t := by
  refine .seq (before_writeSecrets h) ?_
  rintro - t₁ ⟨hbefore, h₁, hstate₁⟩
  refine .seq (aside_ask rfl) ?_
  rintro ready t₂ ⟨h₂, hnow₂, -⟩
  have hidle₂ := Idle.of_aside h₂
  cases ready with
  | false => exact .pure ⟨hbefore.minds (Tended.minds (.inr hidle₂)), nofun⟩
  | true =>
    refine .seq (hop t₂ (hnow₂ ▸ h₁)) ?_
    rintro ok t₃ ⟨hminds, hcarried⟩
    have hminds₃ := hbefore.minds ((hidle₂.before h₁).minds hminds)
    rw [h₂.state, hstate₁] at hcarried
    cases ok with
    | false => exact .pure ⟨hminds₃, nofun⟩
    | true =>
      refine (aside_ask rfl).imp ?_
      rintro committed t₄ ⟨h₄, hnow₄, -⟩
      exact ⟨hminds₃.idle (.of_aside h₄), fun _ hknown ↦ (hcarried rfl hknown).of_eq hnow₄⟩

theorem brings_of_finishes (h : Finishes original o w ok t) (hw : Placed w.now)
    (hst : w.now.state = some original) (hother : original.desiredVersion ≠ o.targetVersion) :
    Brings o True w ok t := by
  cases h with
  | refused h =>
    have hunwritten := other_of_rewritten h fun hrunning ↦ hother (hw.version hst hrunning)
    exact ⟨.inr ⟨h.mute, fun hfresh ↦ .inl (hunwritten.2 hfresh)⟩, nofun⟩
  | closes h fresh =>
    refine ⟨.inl (fresh ?_), fun hok _ ↦ h.carried hok⟩
    cases henabled : original.enabled with
    | true => exact .inl rfl
    | false => exact .inr (hw.none hst henabled)

theorem brings_of_tended (h : Idle w t) (h' : Tended t u)
    (hcarried : ok → Carried o u) : Brings o True w ok u :=
  ⟨(h.tended h').minds, fun hok _ ↦ hcarried hok⟩

theorem ends_update (h : Placed w.now) :
    Ends (update capable o) w fun ok t ↦ Brings o True w ok t := by
  refine .seq (aside_ask rfl) ?_
  rintro accepted t₁ ⟨h₁, hnow₁, -⟩
  have hidle₁ := Idle.of_aside h₁
  have hw₁ : Placed t₁.now := hnow₁ ▸ h
  cases accepted with
  | false => exact .pure ⟨Tended.minds (.inr hidle₁), nofun⟩
  | true =>
    refine .bind (sat_seeing ?_)
    cases hst : t₁.now.state with
    | none => exact .pure ⟨Tended.minds (.inr hidle₁), nofun⟩
    | some original =>
      have hconfigure {t : Now} (ht : Idle w t) (hplaced : Placed t.now) :
          Ends (configure capable o) t fun ok t ↦ Brings o True w ok t :=
        (ends_configure hplaced).imp fun _ _ hu ↦ brings_of_tended ht hu.1 hu.2
      simp only []
      split
      · next hversion =>
        split
        · next hhash =>
          refine .seq (aside_ask rfl) ?_
          rintro readable t₂ ⟨h₂, hnow₂, -⟩
          have hidle₂ := hidle₁.trans (.of_aside h₂)
          cases readable with
          | false => exact .pure ⟨Tended.minds (.inr hidle₂), nofun⟩
          | true =>
            refine .bind (sat_seeing ?_)
            split
            · next hconfig =>
              rw [← hnow₂] at hw₁ hst
              rw [hversion] at hconfig
              cases original.enabled with
              | true =>
                refine (ends_enable hw₁).imp fun ok t ht ↦
                  brings_of_tended hidle₂ ht.1.tended fun _ ↦ ?_
                obtain ⟨st, hst', hsame⟩ := ht.1.same original hst
                exact .of_same hst' hsame hversion hhash (by rw [ht.1.steady.config, hconfig])
              | false =>
                refine (idle_locked (.of_log rfl rfl rfl) rfl).imp fun ok t ht ↦
                  brings_of_tended hidle₂ (.inr ht.1) fun _ ↦ ?_
                exact .of_same ht.2 ⟨rfl, rfl, rfl⟩ hversion hhash (by rw [ht.1.calm.config, hconfig])
            · exact hconfigure hidle₂ (hnow₂ ▸ hw₁)
        · exact hconfigure hidle₁ hw₁
      · next hother =>
        refine (ends_updateVersion hst).imp fun ok u hu ↦ ?_
        have hbrings := brings_of_finishes hu hw₁ hst hother
        exact ⟨(hidle₁.before h).minds hbrings.minds, hbrings.carried⟩

theorem ends_rollback (h : Placed w.now) :
    Ends (rollback capable o) w fun ok t ↦ Brings o True w ok t := by
  have hidle : Brings o True w false w := ⟨Tended.minds (.inr (.refl w)), nofun⟩
  refine .bind (sat_seeing ?_)
  cases w.now.state with
  | none => exact .pure hidle
  | some st =>
    simp only []
    split
    · exact .pure hidle
    · exact ends_update h

/-- `config.json` of the target version was replaced by an `enable`. -/
structure Marks (o : Operation) (w t : Now) : Prop where
  mute : Mute w t
  touched : Running o.targetVersion w.now → Touched o w t
  other : ¬ Running o.targetVersion w.now →
    ¬ Running o.targetVersion t.now ∧ (Fresh w.now → Fresh t.now)

theorem Marks.minds (h : Marks o w t) : Minds o w t := by
  refine .inr ⟨h.mute, fun hw ↦ ?_⟩
  by_cases hrunning : Running o.targetVersion w.now
  · exact .inr (h.touched hrunning)
  · exact .inl ((h.other hrunning).2 hw)

theorem marks_of_rewritten (h : Rewritten w t site o.targetVersion content ok)
    (hanswer : ((.writeConfig, .enable), true) ∈ answered w t ∨
      ((.renamed, .enable), true) ∈ answered w t) : Marks o w t :=
  ⟨h.mute, fun hrunning ↦ ⟨hrunning, hanswer.imp_right .inl⟩, other_of_rewritten h⟩

theorem Marks.idle (h : Marks o w t) (h' : Idle t u) (ht : Placed t.now) : Marks o w u where
  mute := h.mute.trans h'.calm.mute
  touched := fun hrunning ↦ (h.touched hrunning).later h.mute.asked h'.calm.asked
  other := fun hrunning ↦ ⟨fun hu ↦ (h.other hrunning).1 ((h'.before ht (o := o)).running _ hu),
      fun hw ↦ h'.fresh ((h.other hrunning).2 hw)⟩

theorem Marks.rewritten (h : Marks o w t)
    (h' : Rewritten t u site o.targetVersion content ok) : Marks o w u where
  mute := h.mute.trans h'.mute
  touched := fun hrunning ↦ (h.touched hrunning).later h.mute.asked h'.asked
  other := fun hrunning ↦ ⟨(other_of_rewritten h' (h.other hrunning).1).1,
      fun hw ↦ (other_of_rewritten h' (h.other hrunning).1).2 ((h.other hrunning).2 hw)⟩

def Known (o : Operation) (state : Option PluginState) : Prop :=
  ∃ st ∈ state, st.configHash = o.configHash

theorem Known.same {state state' : Option PluginState} (h : Known o state)
    (hsame : ∀ st, state = some st → ∃ st', state' = some st' ∧ Same st st') : Known o state' := by
  obtain ⟨st, hst, hhash⟩ := h
  obtain ⟨st', hst', hsame'⟩ := hsame st hst
  exact ⟨st', hst', hsame'.configHash.trans hhash⟩

theorem ends_materializedEnable (h : Placed w.now) :
    Ends (materializedEnable capable o) w fun ok t ↦ Brings o (Known o w.now.state) w ok t := by
  refine .seq (aside_ask rfl) ?_
  rintro readable t₁ ⟨h₁, hnow₁, -⟩
  have hidle₁ := Idle.of_aside h₁
  cases readable with
  | false => exact .pure ⟨Tended.minds (.inr hidle₁), nofun⟩
  | true =>
    have hbefore := hidle₁.before h (o := o)
    refine .bind (sat_seeing (.seq (ends_writeConfig _ _ _) ?_))
    rintro written t₂ ⟨h₂, hanswer⟩
    cases written with
    | false =>
      refine .pure ⟨hbefore.minds ?_, nofun⟩
      rcases h₂.failed rfl with hnow₂ | hrenamed
      · obtain ⟨l, hl, hmute⟩ := h₂.mute
        exact Tended.minds (.inr (.of_aside (.of_eq hnow₂ hl hmute)))
      · exact (marks_of_rewritten h₂ (.inr hrenamed)).minds
    | true =>
      have hmarks := marks_of_rewritten h₂ (.inl hanswer)
      have hw₂ : Placed t₂.now := by
        rw [Placed, h₂.registered, h₂.state, h₂.processes, hnow₁]
        exact h
      refine .seq (ends_enable hw₂) ?_
      rintro ok t₃ ⟨henabling, hversion⟩
      cases ok with
      | true =>
        refine .pure ⟨hbefore.minds ?_, fun _ hknown ↦ ?_⟩
        · exact henabling.process.elim (fun hidle ↦ (hmarks.idle hidle hw₂).minds)
            fun hfresh ↦ .inl hfresh.1
        obtain ⟨st, hst, htarget⟩ := hversion rfl
        obtain ⟨st', hst', hsame⟩ := henabling.same st hst
        obtain ⟨st'', hst'', hhash⟩ := hknown
        rw [h₂.state, hnow₁] at hst
        cases hst.symm.trans hst''
        exact .of_same hst' hsame htarget hhash
          (by rw [henabling.steady.config]; exact h₂.done rfl)
      | false =>
        refine .seq (ends_restoreConfig _ _ _) ?_
        rintro restored t₄ ⟨h₄, -⟩
        refine .pure ⟨hbefore.minds ?_, nofun⟩
        rcases henabling.process with hidle | ⟨-, hnone⟩
        · exact ((hmarks.idle hidle hw₂).rewritten h₄).minds
        · exact .inl (fresh_of_none (h₄.registered.trans (hnone rfl)))

theorem idle_installPrepared (version : String) (revision : Nat) :
    Ends (installPrepared version revision) w fun _ t ↦ Idle w t := by
  refine .seq (aside_ask rfl) ?_
  rintro accepted t₁ ⟨h₁, -⟩
  cases accepted with
  | false => exact .pure (.of_aside h₁)
  | true =>
    rw [if_pos rfl]
    refine Ends.imp (ends_lockedOr t₁.now.state t₁.now.registered (.of_log rfl rfl rfl)
      fun r ↦ ⟨rfl, by simp, rfl, rfl, rfl⟩) ?_
    rintro ok t₂ ⟨hcalm, -, hreg⟩
    refine ⟨h₁.calm.trans hcalm, ?_⟩
    rw [hreg, ← h₁.registered]
    split <;> rfl

theorem idle_healthCheck : Ends healthCheck w fun _ t ↦ Idle w t := by
  refine .bind (sat_seeing ?_)
  cases w.now.state with
  | none => exact .pure (.refl w)
  | some st =>
    simp only []
    split
    · refine .seq (aside_ask rfl) ?_
      rintro healthy t₁ ⟨h₁, -⟩
      have hidle := Idle.of_aside h₁
      cases healthy with
      | true =>
        exact (idle_locked (.of_log rfl rfl rfl) rfl).imp fun _ _ ht ↦ hidle.trans ht.1
      | false => exact .seq (idle_recordPluginError _) fun _ _ ht ↦ .pure (hidle.trans ht.1)
    · exact .pure (.refl w)

def carries (kind : Kind) (o : Operation) : Bool :=
  match kind with
  | .configure | .update | .rollback => true
  | .enable => o.materialized
  | _ => false

theorem ends_executePreparedOperation (h : Placed w.now) (kind : Kind) :
    Ends (executePreparedOperation capable kind o) w fun ok t ↦
      Brings o (carries kind o ∧ (kind = .enable → Known o w.now.state)) w ok t := by
  have htended (kind : Kind) {t : Now} {ok : Bool} (ht : Tended w t)
      (hkind : carries kind o = false) :
      Brings o (carries kind o ∧ (kind = .enable → Known o w.now.state)) w ok t :=
    ⟨ht.minds, fun _ hknown ↦ by rw [hkind] at hknown; cases hknown.1⟩
  have hbrings {t : Now} {kind : Kind} {ok : Bool} (ht : Brings o True w ok t) :
      Brings o (carries kind o ∧ (kind = .enable → Known o w.now.state)) w ok t :=
    ⟨ht.minds, fun hok _ ↦ ht.carried hok trivial⟩
  cases kind with
  | install => exact (idle_installPrepared _ _).imp fun _ _ ht ↦ htended .install (.inr ht) rfl
  | inspect =>
    rw [executePreparedOperation]
    exact sat_seeing (htended .inspect (.inr (.refl w)) rfl)
  | configure =>
    refine (ends_staged (fun _ ↦ True) h fun t ht ↦ ?_).imp fun _ _ ↦ hbrings
    exact (ends_configure ht).imp fun _ _ hu ↦ brings_of_tended (.refl t) hu.1 hu.2
  | enable =>
    rw [executePreparedOperation]
    split
    · refine (ends_staged (Known o) h fun t ht ↦ ends_materializedEnable ht).imp
        fun _ _ ht ↦ ⟨ht.minds, fun hok hknown ↦ ht.carried hok (hknown.2 rfl)⟩
    · next hplain =>
      exact (ends_enable h).imp fun _ _ ht ↦
        htended .enable ht.1.tended (by simpa [carries] using hplain)
  | disable => exact ends_disable.imp fun _ _ ht ↦ htended .disable ht rfl
  | update =>
    exact (ends_staged (fun _ ↦ True) h fun t ht ↦ ends_update ht).imp fun _ _ ↦ hbrings
  | rollback =>
    exact (ends_staged (fun _ ↦ True) h fun t ht ↦ ends_rollback ht).imp
      fun _ _ ↦ hbrings
  | health => exact idle_healthCheck.imp fun _ _ ht ↦ htended .health (.inr ht) rfl

theorem ends_executeOperation (h : Placed w.now) (kind : Kind) (repairReplay : Bool) :
    Ends (executeOperation capable kind o repairReplay) w fun ok t ↦
      Brings o (carries kind o ∧ (kind = .enable → Known o w.now.state)) w ok t := by
  refine .bind (sat_seeing ?_)
  split
  · exact .pure ⟨Tended.minds (.inr (.refl w)), nofun⟩
  · exact ends_executePreparedOperation h kind

theorem Idle.brings {known known' : Prop} (h : Idle w t) (hw : Placed w.now)
    (h' : Brings o known' t ok u) (hknown : known → known') : Brings o known w ok u :=
  ⟨(h.before hw).minds h'.minds, fun hok hk ↦ h'.carried hok (hknown hk)⟩

theorem ends_execute (h : Inv capable w) (kind : Kind) (repairReplay : Bool) :
    Ends (execute capable kind o repairReplay) w fun ok t ↦
      Brings o (carries kind o ∧ (kind = .enable → Known o w.now.state)) w ok t := by
  refine .seq ((aside_ask rfl).and (ends_of_goes (goes_ask_inv h _ (by rfl)))) ?_
  rintro accepted t₁ ⟨⟨h₁, hnow₁, -⟩, hinv₁, -⟩
  have hplaced := placed_of_inv h
  have hidle₁ := Idle.of_aside h₁
  cases accepted with
  | false => exact .pure ⟨Tended.minds (.inr hidle₁), nofun⟩
  | true =>
    rw [if_pos rfl]
    split
    · refine .seq ((ends_recover _).and (ends_of_goes (hinv₁.recover .recover))) ?_
      rintro recovered t₂ ⟨⟨hcalm₂, hreg₂, hsame₂⟩, hinv₂, -⟩
      have hidle₂ := hidle₁.trans ⟨hcalm₂, hreg₂⟩
      cases recovered with
      | false => exact .pure ⟨Tended.minds (.inr hidle₂), nofun⟩
      | true =>
        refine (ends_executeOperation (placed_of_inv hinv₂) kind repairReplay).imp fun _ _ ht ↦
          hidle₂.brings hplaced ht fun hknown ↦ ⟨hknown.1, fun hkind ↦ ?_⟩
        rw [hnow₁] at hsame₂
        exact (hknown.2 hkind).same hsame₂
    · refine (ends_executeOperation (placed_of_inv hinv₁) kind repairReplay).imp fun _ _ ht ↦
        hidle₁.brings hplaced ht ?_
      rw [hnow₁]
      exact id

theorem fresh_observeProcessExit : Ends (observeProcessExit capable) w fun _ t ↦ Fresh t.now := by
  refine .bind (sat_seeing ?_)
  cases hst : w.now.state with
  | none =>
    refine sat_acting fun t hnow _ ↦ ⟨trivial, fresh_of_none ?_⟩
    rw [hnow]
    rfl
  | some st =>
    refine .seq (ends_locked (.of_noted true rfl rfl rfl)) ?_
    rintro - t₁ ⟨-, -, hreg₁⟩
    refine .seq (aside_verify _ _) ?_
    rintro verified t₂ ⟨h₂, -⟩
    refine .seq (aside_cleanupIf _ _ _) fun cleaned t₃ h₃ ↦ .seq (aside_ask rfl) ?_
    rintro removed t₄ ⟨h₄, -⟩
    refine .seq (idle_locked (.of_log rfl rfl rfl) rfl) fun _ t₅ h₅ ↦ .pure (fresh_of_none ?_)
    rw [h₅.1.registered, h₄.registered, h₃.registered, h₂.registered, hreg₁]

theorem fresh_restartStart (h : Off st w) (original : PluginState) :
    Ends (restartStart capable original) w fun _ t ↦ Fresh t.now := by
  refine .seq (h.start .restart Site.noConfusion _) ?_
  rintro (_ | i) t₁ ⟨hoff₁, -, hran⟩
  · exact (off_recordPluginError hoff₁ _).imp fun _ _ ht ↦ ht.1.fresh
  refine .seq (ends_lockedOr (some original) none (.of_log rfl rfl rfl)
    fun r ↦ ⟨rfl, rfl, rfl, rfl, rfl⟩) ?_
  rintro written t₂ ⟨hcalm₂, -, hreg₂⟩
  cases written with
  | true => exact .pure (((hran i rfl).1.steady hcalm₂.toSteady).fresh hreg₂)
  | false =>
    exact .seq (aside_stop _ _) fun _ t₃ h₃ ↦ .pure (fresh_of_none (h₃.registered.trans hreg₂))

theorem fresh_restartMaintenanceInstance (hst : w.now.state = some st) (original : PluginState)
    (process : Option Nat) :
    Ends (restartMaintenanceInstance capable original process) w fun _ t ↦ Fresh t.now := by
  refine .seq (off_removeProcess hst) ?_
  rintro - t₁ ⟨hoff₁, -⟩
  refine .seq (aside_stopAndCleanup _ _ _) ?_
  rintro ⟨pending, ok⟩ t₂ h₂
  have hoff₂ := hoff₁.aside h₂
  cases ok with
  | true =>
    refine .seq (aside_ask rfl) ?_
    rintro removed t₃ ⟨h₃, -⟩
    have hoff₃ := hoff₂.aside h₃
    cases removed with
    | false => exact .pure hoff₃.fresh
    | true => exact fresh_restartStart hoff₃ original
  | false =>
    refine .seq (off_recordTransitionFailure _ _ _ _) fun _ t₃ h₃ ↦ ?_
    cases pending with
    | false => exact .pure h₃.1.fresh
    | true => exact (h₃.1.mark _ _).imp fun _ _ ht ↦ ht.1.fresh

theorem aside_probe (st : PluginState) (process : Option Nat) :
    Ends (probe st process) w fun _ t ↦ Aside w t := by
  refine .seq (aside_verify _ _) ?_
  rintro verified t₁ ⟨h₁, -⟩
  cases verified with
  | false => exact .pure h₁
  | true =>
    refine .seq (aside_ask rfl) ?_
    rintro accepted t₂ ⟨h₂, -⟩
    have haside₂ := h₁.trans h₂
    cases accepted with
    | false => exact .pure haside₂
    | true =>
      rw [if_pos rfl]
      split
      · exact .pure haside₂
      split
      · exact .pure haside₂
      · refine .seq (aside_ask rfl) ?_
        rintro healthy t₃ ⟨h₃, -⟩
        cases healthy <;> exact .pure (haside₂.trans h₃)

theorem tended_checkMaintenanceInstance :
    Ends (checkMaintenanceInstance capable) w fun _ t ↦ Tended w t := by
  refine .bind (sat_seeing ?_)
  cases hst : w.now.state with
  | none => exact .pure (.inr (.refl w))
  | some st =>
    simp only []
    split
    · exact .pure (.inr (.refl w))
    refine .bind (sat_seeing (.seq (aside_probe _ _) fun fault t₁ h₁ ↦ .seq (aside_ask rfl) ?_))
    rintro stored t₂ ⟨h₂, -⟩
    have haside₂ := h₁.trans h₂
    cases stored with
    | false => exact .pure (.inr (.of_aside haside₂))
    | true =>
      refine .seq (idle_locked (.of_log rfl rfl rfl) rfl) ?_
      rintro written t₃ ⟨h₃, hstate₃⟩
      have hidle₃ := (Idle.of_aside haside₂).trans h₃
      split
      · refine .seq (aside_ask rfl) ?_
        rintro restart t₄ ⟨h₄, -⟩
        cases restart with
        | false => exact .pure (.inr (hidle₃.trans (.of_aside h₄)))
        | true =>
          rw [haside₂.state, hst] at hstate₃
          exact (fresh_restartMaintenanceInstance (h₄.state.trans hstate₃) _ _).imp
            fun _ _ ht ↦ .inl ht
      · exact .pure (.inr hidle₃)

theorem tended_closeProcess (st : PluginState) (i : Nat) :
    Ends (closeProcess capable st i) w fun _ t ↦ Tended w t := by
  refine .seq (aside_verify _ _) ?_
  rintro verified t₁ ⟨h₁, -⟩
  refine .seq (aside_stop _ _) fun stopped t₂ h₂ ↦ .seq (aside_cleanupIf _ _ _)
    fun cleaned t₃ h₃ ↦ .seq (aside_removeSocketIf _ _) fun removed t₄ h₄ ↦ ?_
  have haside := ((h₁.trans h₂).trans h₃).trans h₄
  refine sat_acting fun t₅ hnow₅ hasked₅ ↦ ⟨trivial, ?_⟩
  cases stopped with
  | true => exact .inl (fresh_of_none (by rw [hnow₅]; rfl))
  | false =>
    have henters : Enters t₄.now t₅.now := by
      rw [hnow₅]
      exact .of_noted _ rfl rfl rfl
    refine .inr ((Idle.of_aside haside).trans ⟨henters.calm (.refl t₄) rfl hasked₅, ?_⟩)
    rw [hnow₅]
    rfl

theorem tended_closePlugin : Ends (closePlugin capable) w fun _ t ↦ Tended w t := by
  have hrecover {t : Now} (ht : Tended w t) :
      Ends (do let _ ← recoverPluginCleanup capable .recoverClose) t fun _ t ↦ Tended w t := by
    refine .seq (ends_recover _) fun _ u hu ↦ .pure ?_
    have hidle : Idle t u := ⟨hu.1, hu.2.1⟩
    exact ht.imp hidle.fresh fun h ↦ h.trans hidle
  refine .bind (sat_seeing (.bind (sat_seeing ?_)))
  split
  · exact .seq (tended_closeProcess _ _) fun _ _ ht ↦ hrecover ht
  · exact hrecover (.inr (.refl w))

theorem tended_close : Ends (Lifecycle.close capable) w fun _ t ↦ Tended w t := by
  have hsave {t : Now} (ht : Tended w t) :
      Ends (do let _ ← locked .close id) t fun _ t ↦ Tended w t :=
    .seq (idle_locked (.of_log rfl rfl rfl) rfl) fun _ _ hu ↦
      .pure (ht.imp hu.1.fresh fun h ↦ h.trans hu.1)
  refine .seq (aside_ask rfl) ?_
  rintro alone t₁ ⟨h₁, -⟩
  have hidle₁ := Idle.of_aside h₁
  cases alone with
  | false => exact .pure (.inr hidle₁)
  | true =>
    refine .seq (aside_ask rfl) ?_
    rintro accepted t₂ ⟨h₂, -⟩
    have hidle₂ := hidle₁.trans (.of_aside h₂)
    cases accepted with
    | false => exact hsave (.inr hidle₂)
    | true => exact .seq tended_closePlugin fun _ _ ht ↦ hsave (hidle₂.tended ht)

theorem fresh_restoreStart (h : Off original w) (st : PluginState) :
    Ends (restoreStart capable st) w fun _ t ↦ Fresh t.now := by
  refine .seq (aside_ask rfl) ?_
  rintro interrupted t₁ ⟨h₁, -⟩
  have hoff₁ := h.aside h₁
  cases interrupted with
  | true =>
    exact .seq (idle_locked (.of_log rfl rfl rfl) rfl) fun _ _ ht ↦ .pure (ht.1.fresh hoff₁.fresh)
  | false =>
    refine .seq (hoff₁.start .restore Site.noConfusion _) ?_
    rintro process t₂ ⟨hoff₂, -, hran⟩
    have hsave {t : Now} (ht : Fresh t.now) :
        Ends (do let _ ← locked .restore id) t fun _ t ↦ Fresh t.now :=
      .seq (idle_locked (.of_log rfl rfl rfl) rfl) fun _ _ hu ↦ .pure (hu.1.fresh ht)
    refine .bind (sat_acting fun t₃ hnow₃ hasked₃ ↦ ⟨trivial, hsave ?_⟩)
    cases process with
    | none => exact fresh_of_none (by rw [hnow₃]; exact hoff₂.registered)
    | some i =>
      have henters : Enters t₂.now t₃.now := by
        rw [hnow₃]
        exact .of_log rfl rfl rfl
      have hcalm := henters.calm (.refl t₂) rfl hasked₃
      exact ((hran i rfl).1.steady hcalm.toSteady).fresh (by rw [hnow₃])

theorem fresh_restoreEnabled (h : w.now.registered = none) :
    Ends (restoreEnabled capable) w fun _ t ↦ Fresh t.now := by
  have hfresh := fresh_of_none h
  refine .bind (sat_seeing ?_)
  cases hst : w.now.state with
  | none => exact .pure hfresh
  | some st =>
    have hoff : Off st w := ⟨⟨st, hst, .refl st⟩, h⟩
    simp only []
    split
    · refine .seq (aside_ask rfl) ?_
      rintro monitored t₁ ⟨h₁, -⟩
      have hoff₁ := hoff.aside h₁
      cases monitored with
      | false => exact fresh_restoreStart hoff₁ st
      | true =>
        refine .seq (aside_ask rfl) ?_
        rintro failures t₂ ⟨h₂, -⟩
        have hoff₂ := hoff₁.aside h₂
        cases failures with
        | false =>
          exact .seq (idle_locked (.of_log rfl rfl rfl) rfl) fun _ _ ht ↦
            .pure (ht.1.fresh hoff₂.fresh)
        | true =>
          refine .seq (aside_ask rfl) ?_
          rintro failing t₃ ⟨h₃, -⟩
          have hoff₃ := hoff₂.aside h₃
          split
          · exact .pure hoff₃.fresh
          · exact fresh_restoreStart hoff₃ st
    · exact .pure hfresh

theorem fresh_newSupervisor : Ends (newSupervisor capable) w fun _ t ↦ Fresh t.now := by
  refine .bind (sat_acting fun t₁ hnow₁ _ ↦ ⟨trivial, .seq (ends_recover _) ?_⟩)
  rintro - t₂ ⟨-, hreg₂, -⟩
  refine fresh_restoreEnabled ?_
  rw [hreg₂, hnow₁]
  rfl

/-- An operation that writes something of the registered process finds that process unhealthy,
or configures it, and replaces it. -/
def Undisturbed (capable : String → Bool) (s : System) : Action → Prop
  | .run (.operation kind o repairReplay) answers =>
    let w := (Task.operation kind o repairReplay).begin s answers
    let t := (execute capable kind o repairReplay w).state
    Touched o w t → Replaced w t
  | _ => True

instance (s : System) (a : Action) : Decidable (Undisturbed capable s a) := by
  unfold Undisturbed
  split <;> infer_instance

theorem Minds.fresh (h : Minds o w t) (hw : Fresh w.now)
    (hundisturbed : Touched o w t → Replaced w t) : Fresh t.now := by
  rcases h with hfresh | ⟨hmute, hfresh⟩
  · exact hfresh
  · exact (hfresh hw).resolve_right fun htouched ↦ not_replaced hmute (hundisturbed htouched)

theorem fresh_task {s : System} {task : Task} {answers : List Bool} (h : Sound capable s)
    (hs : Fresh s.plugin) (henabled : task.enabled s)
    (hundisturbed : Undisturbed capable s (.run task answers)) :
    Fresh (task.program capable (task.begin s answers)).state.now := by
  have hbegin : Fresh (task.begin s answers).now := hs
  have htended {w t : Now} (hw : Fresh w.now) (ht : Tended w t) : Fresh t.now :=
    ht.elim id fun hidle ↦ hidle.fresh hw
  cases task with
  | operation kind o repairReplay =>
    have hinv := h.running henabled nofun answers
    exact (ends_execute hinv kind repairReplay).ends.minds.fresh hbegin hundisturbed
  | install version => exact (idle_installPrepared version 0).ends.fresh hbegin
  | observe => exact fresh_observeProcessExit.ends
  | maintenance => exact htended hbegin tended_checkMaintenanceInstance.ends
  | close => exact htended hbegin tended_close.ends
  | save => exact (idle_locked (.of_log rfl rfl rfl) rfl).ends.1.fresh hbegin
  | start => exact fresh_newSupervisor.ends

theorem fresh_step {s t : System} {a : Action} (h : Sound capable s) (hs : Fresh s.plugin)
    (ha : Undisturbed capable s a) (hstep : step capable s a = some t) : Fresh t.plugin := by
  cases a with
  | run task answers =>
    obtain ⟨henabled, rfl⟩ := ite_some_none_eq_some.mp hstep
    exact fresh_task h hs henabled ha
  | exit i =>
    cases hstep
    have hleave : Aside (now s) (doing (fun p : Plugin ↦ p.leave i) (now s)).state :=
      (aside_leave i).ends
    exact (Idle.of_aside hleave).fresh hs
  | crash task answers n saved =>
    obtain ⟨-, rfl⟩ := ite_some_none_eq_some.mp hstep
    exact fresh_of_none rfl

theorem fresh_reachable {s : System} (h : Reach (step capable) (Undisturbed capable) initial s) :
    Sound capable s ∧ Fresh s.plugin := by
  refine h.invariant (I := fun s ↦ Sound capable s ∧ Fresh s.plugin)
    ⟨sound_initial, fresh_of_none rfl⟩ ?_
  rintro s a t ⟨hsound, hfresh⟩ ha hstep
  exact ⟨sound_step hsound hstep, fresh_step hsound hfresh ha hstep⟩

/-- A successful operation that carries a configuration leaves its hash recorded and its
`config.json` in place, and a registered process was started after that file and the secret files
were last written. -/
theorem configuration_carried {s : System}
    (hreach : Reach (step capable) (Undisturbed capable) initial s) {kind : Kind} {o : Operation}
    {repairReplay : Bool} {answers : List Bool} (hkind : carries kind o = true)
    (henabled : Task.enabled s (.operation kind o repairReplay) = true)
    (hknown : kind = .enable → Known o s.plugin.state)
    (hundisturbed : Undisturbed capable s (.run (.operation kind o repairReplay) answers))
    (hok : (execute capable kind o repairReplay
      ((Task.operation kind o repairReplay).begin s answers)).value = true) :
    let t := (execute capable kind o repairReplay
      ((Task.operation kind o repairReplay).begin s answers)).state
    Carried o t ∧ ∀ i ∈ t.now.registered, Ran o.targetVersion i t := by
  obtain ⟨hsound, hfresh⟩ := fresh_reachable hreach
  have hinv := hsound.running henabled nofun answers
  have hbrings := (ends_execute (o := o) hinv kind repairReplay).ends
  have hplaced := placed_of_inv (goes_execute (o := o) hinv kind repairReplay).ends
  have hcarried := hbrings.carried hok ⟨hkind, hknown⟩
  refine ⟨hcarried, fun i hi ↦ ?_⟩
  obtain ⟨q, hq, hun⟩ := hbrings.minds.fresh hfresh hundisturbed i hi
  obtain ⟨st, hst, hversion, -⟩ := hcarried.state
  refine ⟨q, hq, ?_, hun⟩
  exact ((hplaced.version hst ⟨i, hi, q, hq, rfl⟩).symm.trans hversion)

def bringing (revision : Nat) : Operation := ⟨"1.0.0", "e4", "other", revision, true⟩

theorem configuration_carried_configured :
    ∃ s, Reach (step everyVersion) (Undisturbed everyVersion) initial s ∧
      s.plugin.registered = some 0 ∧
      let t := (execute everyVersion .configure (bringing 3) false
        ((Task.operation .configure (bringing 3) false).begin s [])).state
      t.now.registered = some 1 ∧ Carried (bringing 3) t ∧ Ran "1.0.0" 1 t := by
  have hs : Reach (step everyVersion) (Undisturbed everyVersion) initial _ :=
    reach_after enabling (by decide)
  obtain ⟨hcarried, hran⟩ := configuration_carried hs rfl
    (show Task.enabled _ (.operation .configure (bringing 3) false) = true by decide)
    Kind.noConfusion (show Undisturbed _ _ (.run _ []) by decide) (by decide)
  exact ⟨_, hs, by decide, by decide, hcarried, hran 1 (by decide)⟩

/-- A process that was started before the last write of its `config.json`, or of a secret file
of the configuration. -/
def Stale (o : Operation) (p : Plugin) : Prop :=
  ∃ i ∈ p.registered, ∃ q ∈ p.processes[i]?, .wrote q.version ∈ p.log.drop q.since ∨
    .secrets q.version o.config ∈ p.log.drop q.since

instance (p : Plugin) : Decidable (Stale o p) := by
  unfold Stale
  infer_instance

/-- An `enable` replaces the `config.json` of a healthy process, and neither records the hash nor
restarts it; an `update` to the configuration that the plugin has writes a secret file that was
removed, and does not restart it either. -/
theorem configuration_replaced_under_process :
    (∃ s, Steps (step everyVersion) initial s ∧
      let outcome := execute everyVersion .enable (bringing 3) false
        ((Task.operation .enable (bringing 3) false).begin s [])
      outcome.value = true ∧ outcome.state.now.state.map (·.configHash) ≠ some "e4" ∧
        Stale (bringing 3) outcome.state.now) ∧
    ∃ s, Steps (step everyVersion) initial s ∧
      let outcome := execute everyVersion .update (bringing 4) false
        ((Task.operation .update (bringing 4) false).begin s [])
      outcome.value = true ∧ Stale (bringing 4) outcome.state.now :=
  ⟨exists_steps enabling _ (by decide),
    exists_steps (enabling ++ [.run (.operation .configure (bringing 3) false) []]) _ (by decide)⟩

end AnixAgent.Plugins.Configurations
