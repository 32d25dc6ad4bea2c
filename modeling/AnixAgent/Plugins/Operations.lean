import AnixAgent.Plugins.Transitions

namespace AnixAgent.Plugins.Operations

open Lib.Crash Lib.Crash.Proc Lib.Answers Lifecycle Debts Upkeep Transitions List Option
open Journal (Write Kind operationMutatesState)

variable {capable : String → Bool} {original st : PluginState}
  {hand reg : Option Nat} {v version : String} {k : Known} {w t : Now} {site : Site}
  {o : Operation} {old : Option String} {revision : Nat}

variable {p : Plugin}

theorem renews_clear (h : Clear w) (hlog : p.log = w.now.log)
    (hst : st.cleanupPending = false) : Renews capable w.now p st :=
  .same hlog ((debt_of_clear hst).trans h.debt.symm)

theorem renews_failedTransition (h : Clear w) (hclear : original.cleanupPending = false)
    (hlog : p.log = w.now.log ++ noted (version ≠ "") version) :
    Renews capable w.now p (failedTransition original revision version) := by
  by_cases hv : version = ""
  · refine renews_clear h (by simp [hlog, noted, hv]) ?_
    simp [failedTransition, hv, hclear]
  refine .owed version (by simp [hlog, noted, hv]) ?_ fun u hu ↦ ?_
  · simp [PluginState.debt, failedTransition, PluginState.owes, hv]
  · rw [h.debt] at hu
    cases hu

theorem goes_recordTransitionFailure (h : Mid capable original none none v .clear w)
    (hclear : original.cleanupPending = false) (hdebt : version = v ∧ v ≠ "" ∨ Cleaned capable w) :
    Upholds capable (recordTransitionFailure site original revision version) w := by
  refine .returns (h.lockDown ⟨rfl, rfl, rfl, rfl, rfl⟩ (renews_failedTransition h.known hclear rfl)
    ⟨h.kept.revision.trans (le_max_left _ _), nofun⟩
    (le_max_left _ _) fun htidy ↦ ?_)
  rcases hdebt with ⟨rfl, hv⟩ | hclean
  · exact .inl (by simp [failedTransition, PluginState.owes, hv])
  · exact .inr (hclean htidy)

theorem goes_recordConfigureStopFailure (h : Mid capable original none none v .clean w)
    (hclear : original.cleanupPending = false) :
    Upholds capable (recordConfigureStopFailure site original) w :=
  .returns (h.lockDown ⟨rfl, rfl, rfl, rfl, rfl⟩ (renews_clear h.known.1 rfl hclear)
    ⟨h.kept.revision, nofun⟩ le_rfl
    fun htidy ↦ .inr (h.known.2 htidy))

theorem inv_of_settled (h : Mid capable original none none v .settled w) : Inv capable w := by
  obtain ⟨cur, hcur, hlike, -⟩ := h.state
  refine h.down ⟨hcur, h.registered, ⟨rfl, rfl, [], by simp⟩, h.disk, h.moment⟩
    (hlike.wellKept h.kept)
    (h.settled_debt fun cur' hcur' hpending _ ↦ ?_)
  rw [hcur] at hcur'
  cases hcur'
  exact ⟨hpending, rfl⟩

structure Mild (st st' : PluginState) : Prop where
  desiredVersion : st'.desiredVersion = st.desiredVersion
  enabled : st'.enabled = st.enabled
  cleanupPending : st'.cleanupPending = st.cleanupPending
  cleanupVersion : st'.cleanupVersion = st.cleanupVersion
  revision : st.desiredRevision ≤ st'.desiredRevision
  kept : WellKept st → WellKept st'

theorem Mild.refl (st : PluginState) : Mild st st := ⟨rfl, rfl, rfl, rfl, le_rfl, id⟩

theorem mild_health (health : Health) (st : PluginState) : Mild st { st with health := health } :=
  ⟨rfl, rfl, rfl, rfl, le_rfl, fun h ↦ ⟨h.revision, h.version⟩⟩

variable {st' cur : PluginState}

theorem Mild.owes (h : Mild st st') : st'.owes = st.owes := by
  unfold PluginState.owes
  rw [h.cleanupVersion, h.desiredVersion]

theorem Mild.debt (h : Mild st st') : st'.debt = st.debt := by
  rw [PluginState.debt, PluginState.debt, h.cleanupPending, h.owes]

variable {g : PluginState → PluginState}

theorem inv_of_mild (h : Inv capable w)
    (hg : ∀ st, Mild st (g st)) (hstate : t.now.state = w.now.state.map g)
    (hreg : t.now.registered = w.now.registered) (ht : Told w t)
    (hdisk : ∀ st ∈ t.now.disk, WellKept st) (hmoment : Moment capable t) : Inv capable t := by
  have howed : owed t.now.state = owed w.now.state := by
    rw [hstate]
    cases hst : w.now.state with
    | none => rfl
    | some st =>
      simp only [map_some, owed, (hg st).cleanupPending, (hg st).owes, (hg st).desiredVersion]
  have hmap {st : PluginState} (hst : st ∈ w.now.state) : t.now.state = some (g st) := by
    rw [hstate, hst, map_some]
  refine ⟨fun st hst ↦ ?_, hdisk, fun i hi ↦ ?_, ?_, fun htidy ↦ ?_, hmoment⟩
  · rw [hstate] at hst
    obtain ⟨st', hst', rfl⟩ := map_eq_some_iff.mp hst
    exact (hg st').kept (h.state st' hst')
  · rw [hreg] at hi
    obtain ⟨st, q, hst, hq, henabled, hversion, hne, hdebt⟩ := h.registered i hi
    refine ⟨g st, q, hmap hst, ht.same ▸ hq, (hg st).enabled.trans henabled,
      hversion.trans (hg st).desiredVersion.symm, (hg st).desiredVersion.symm ▸ hne, ?_⟩
    rw [(hg st).cleanupPending, (hg st).owes, (hg st).desiredVersion]
    exact hdebt
  · rw [hreg, howed]
    exact h.ledger.told ht
  · rw [hreg, ht.same]
    refine (h.debt (ht.tidy htidy)).imp_right (Or.imp_left ?_)
    rintro ⟨st, hst, hpending⟩
    exact ⟨g st, hmap hst, (hg st).cleanupPending.trans hpending⟩

theorem debtOf_map (hg : ∀ st, Mild st (g st))
    (state : Option PluginState) : debtOf (state.map g) = debtOf state := by
  cases state with
  | none => rfl
  | some st => exact (hg st).debt

theorem changes_of_mild (h : Point capable w) (hg : ∀ st, Mild st (g st)) :
    Changes capable w { w.now with state := w.now.state.map g } := by
  have hkept := h.moment.kept
  refine ⟨fun st hst ↦ ?_, ?_, fun st hst ↦ ?_, h.disk, ⟨?_, hkept.disk, hkept.both⟩,
    fun hgentle hreg st hst ↦ ?_⟩
  · exact ⟨g st, map_eq_some_iff.mpr ⟨st, hst, rfl⟩, (hg st).revision⟩
  · exact ⟨prefix_refl _, fun v hv ↦ .inl (debtOf_map hg w.now.state ▸ hv)⟩
  · obtain ⟨st', hst', rfl⟩ := map_eq_some_iff.mp hst
    exact (hg st').kept (h.state st' hst')
  · rw [debtOf_map hg]
    exact hkept.memory
  · obtain ⟨st', hst', rfl⟩ := map_eq_some_iff.mp hst
    exact (hg st').cleanupPending.trans (h.moment.calm hgentle hreg st' hst')

section

variable (h : Inv capable w)
include h

theorem goes_lockMild {f : Plugin → Plugin} (hg : ∀ st, Mild st (g st))
    (hf : f w.now = { w.now with state := w.now.state.map g }) :
    Upholds capable (locked site f) w := by
  refine goes_locked h.point (hf ▸ changes_of_mild h.point hg) fun r t l hnow hasked ht ↦ ?_
  rw [hf] at hnow
  exact inv_of_mild h hg (by simp [hnow]) (by simp [hnow])
    ⟨by simp [hnow], by simp [hnow], _, hasked⟩ ht.disk ht.moment

theorem inv_of_still (ht : Still capable w t) : Inv capable t :=
  inv_of_mild h (g := id) Mild.refl (by simp [ht.state]) ht.registered ht.told
    (ht.disk ▸ h.disk) ht.moment

theorem goes_ask_inv (q : Query) (hq : recovers q = false) :
    Goes (ask q) w (Climbs capable) fun _ t ↦ Inv capable t ∧ t.now = w.now :=
  goes_question h.point hq fun _ _ hnow _ hstill ↦ ⟨inv_of_still h hstill, hnow⟩

theorem goes_recordPluginError : Upholds capable (recordPluginError site) w :=
  .returns (goes_lockMild h (mild_health .unhealthy) rfl)

theorem goes_lockSame : Upholds capable (locked site id) w :=
  goes_lockMild h (g := id) Mild.refl (by simp)

end

theorem merge_like (original : PluginState) (current : Option PluginState) :
    (mergePendingCleanup original current).desiredVersion = original.desiredVersion ∧
      (mergePendingCleanup original current).observedRevision = original.observedRevision := by
  unfold mergePendingCleanup
  split
  · exact ⟨rfl, rfl⟩
  · split <;> exact ⟨rfl, rfl⟩

theorem merge_pending (hlike : Like original cur) (hpending : cur.cleanupPending) :
    (mergePendingCleanup original (some cur)).cleanupPending ∧
      (mergePendingCleanup original (some cur)).owes = cur.owes := by
  simp [mergePendingCleanup, hpending, PluginState.owes, hlike.desiredVersion]

theorem merge_clear (hclear : original.cleanupPending = false)
    (hpending : (mergePendingCleanup original (some cur)).cleanupPending) :
    cur.cleanupPending := by
  cases hcur : cur.cleanupPending with
  | true => rfl
  | false => simp [mergePendingCleanup, hcur, hclear] at hpending

theorem wellKept_rolledBack (h : WellKept original) (revision : Nat)
    (current : Option PluginState) (running : Bool) :
    WellKept (rolledBack original revision current running) := by
  obtain ⟨hversion, hrevision⟩ := merge_like original current
  have hle : (mergePendingCleanup original current).observedRevision ≤
      max original.desiredRevision revision := by
    rw [hrevision]
    exact h.revision.trans (le_max_left _ _)
  cases running with
  | true => exact ⟨hle, fun _ ↦ hversion.symm⟩
  | false => exact ⟨hle, nofun⟩

theorem rolledBack_debt (original : PluginState) (revision : Nat) (current : Option PluginState)
    (running : Bool) :
    (rolledBack original revision current running).cleanupPending =
        (mergePendingCleanup original current).cleanupPending ∧
      (rolledBack original revision current running).owes =
        (mergePendingCleanup original current).owes := by
  cases running <;> exact ⟨rfl, rfl⟩

theorem renews_like (h : Mid capable original hand reg v k w)
    (hclear : original.cleanupPending = false) (hlog : p.log = w.now.log)
    (hst : st.debt = (mergePendingCleanup original w.now.state).debt) :
    Renews capable w.now p st := by
  obtain ⟨cur, hcur, hlike, -⟩ := h.state
  refine .same hlog ?_
  rw [hst, hcur]
  change _ = cur.debt
  cases hpending : cur.cleanupPending with
  | true =>
    obtain ⟨hmerged, howes⟩ := merge_pending hlike hpending
    rw [debt_of_pending hmerged, debt_of_pending hpending, howes]
  | false =>
    rw [debt_of_clear hpending]
    refine debt_of_clear (Bool.eq_false_iff.mpr fun hmerged ↦ ?_)
    rw [merge_clear hclear hmerged] at hpending
    cases hpending

theorem debt_rolledBack (original : PluginState) (revision : Nat) (current : Option PluginState)
    (running : Bool) :
    (rolledBack original revision current running).debt =
      (mergePendingCleanup original current).debt := by
  obtain ⟨hpending, howes⟩ := rolledBack_debt original revision current running
  rw [PluginState.debt, PluginState.debt, hpending, howes]

theorem goes_rollbackConfiguration {cause : Cause}
    (h : Mid capable original none none original.desiredVersion k w)
    (hclear : original.cleanupPending = false) (hversion : original.desiredVersion ≠ "")
    (hk : k = .clean ∨ k = .settled ∨ cause = .persist) (hcause : cause = .owing ∨ Clear w) :
    Upholds capable (rollbackConfiguration capable original o old cause) w := by
  refine .seq (goes_restoreConfig h.point _ _ _) ?_
  rintro restored t ⟨hstill, hrestored⟩
  have ht := h.still hstill
  have hstarted : Goes (startIf capable (.rollback cause) restored original.desiredVersion) t
      (Climbs capable) (Started capable original original.desiredVersion (.rollback cause) t) := by
    cases restored with
    | true =>
      refine ht.start Site.noConfusion rfl (.inl rfl) (hk.imp_right (Or.imp_right ?_))
      rintro rfl
      exact ⟨hversion, rfl, rfl⟩
    | false =>
      rcases hk with rfl | rfl | rfl
      · exact .pure ht.clean_settled
      · exact .pure ht
      · exact .pure (ht.refused rfl hrestored)
  refine .seq hstarted ?_
  rintro (_ | i) u hu
  · obtain ⟨cur, hcur, -, -⟩ := hu.state
    refine .returns (hu.lockDown ⟨rfl, rfl, rfl, rfl, rfl⟩
      (renews_like hu hclear rfl (debt_rolledBack _ _ _ _)) (wellKept_rolledBack hu.kept _ _ _)
      (le_max_left _ _) (hu.settled_debt fun cur' hcur' hpending hlike ↦ ?_))
    obtain ⟨hp, howes⟩ := rolledBack_debt original o.revision u.now.state false
    rw [hcur'] at hp howes ⊢
    obtain ⟨hmerged, hsame⟩ := merge_pending hlike hpending
    exact ⟨hp.trans hmerged, howes.trans hsame⟩
  · obtain ⟨hu, hprocess, hstate, l, hasked⟩ := hu
    obtain ⟨cur, hcur, hlike, hdebt⟩ := hu.state
    obtain ⟨hp, howes⟩ := rolledBack_debt original o.revision u.now.state true
    rw [hcur] at hp howes
    refine .returns (hu.lockUp hprocess ⟨rfl, rfl, rfl, rfl, rfl⟩
      (renews_like hu hclear rfl (debt_rolledBack _ _ _ _)) (wellKept_rolledBack hu.kept _ _ _)
      (le_max_left _ _) rfl (merge_like original _).1 (fun hpending ↦ ?_) fun hgentle ↦ ?_)
    · rw [hcur] at hpending ⊢
      have hcurp := merge_clear hclear (hp.symm.trans hpending)
      exact howes.trans ((merge_pending hlike hcurp).2.trans (hdebt hcurp))
    rcases hcause with rfl | hwas
    · refine absurd ?_ hgentle.2
      rw [hasked]
      exact mem_append_right _ (mem_singleton_self _)
    rw [hcur]
    refine Bool.eq_false_iff.mpr fun hpending ↦ ?_
    have hcurp := merge_clear hclear (hp.symm.trans hpending)
    have hcurw : w.now.state = some cur := by rw [← hcur, hstate, hstill.state]
    rw [hwas cur hcurw] at hcurp
    cases hcurp

theorem clear_of_state (h : Clear w) (hstate : t.now.state = w.now.state) : Clear t :=
  fun st hst ↦ h st (hstate ▸ hst)

theorem clear_of_entry (hst : w.now.state = some st) (hclear : st.cleanupPending = false) :
    Clear w := by
  intro st' hst'
  rw [hst] at hst'
  cases hst'
  exact hclear

theorem goes_configureRestart (h : Mid capable original none none original.desiredVersion .clean w)
    (hclear : original.cleanupPending = false) (hversion : original.desiredVersion ≠ "")
    (henabled : original.enabled) (hrevision : original.desiredRevision ≤ o.revision) :
    Upholds capable (configureRestart capable original o old) w := by
  refine .seq (h.ask _ (by rfl)) ?_
  rintro removed t₁ ⟨h₁, -⟩
  cases removed with
  | false =>
    exact .returns (goes_rollbackConfiguration h₁ hclear hversion (.inl rfl) (.inr h₁.known.1))
  | true =>
    refine .seq (h₁.writeConfig _ _ _) ?_
    rintro written t₂ ⟨h₂, -⟩
    cases written with
    | false =>
      exact .returns (goes_rollbackConfiguration h₂ hclear hversion (.inl rfl) (.inr h₂.known.1))
    | true =>
      refine .seq (h₂.start Site.noConfusion rfl (.inl rfl) (.inl rfl)) ?_
      rintro (_ | i) t₃ h₃
      · refine .bind (goes_seeing ?_)
        obtain ⟨cur, hcur, -, -⟩ := Mid.state h₃
        refine .returns (goes_rollbackConfiguration h₃ hclear hversion (.inr (.inl rfl)) ?_)
        rw [hcur, any_some]
        cases hpending : cur.cleanupPending with
        | true => exact .inl rfl
        | false => exact .inr (clear_of_entry hcur hpending)
      · obtain ⟨h₃, hprocess, hstate, -⟩ := h₃
        refine .seq (h₃.lockUpOr hprocess ⟨rfl, rfl, rfl, rfl, rfl⟩ rfl
          (clear_of_state h₂.known.1 hstate)
          ⟨max_le (h₃.kept.revision.trans hrevision) le_rfl, fun _ ↦ h₃.kept.version henabled⟩ hrevision rfl
          rfl rfl (fun _ ↦ ⟨⟨rfl, rfl, rfl, rfl, rfl⟩, rfl⟩) (.refl original) hclear) ?_
        rintro (_ | _) t₄ h₄
        · refine .seq (h₄.1.stop nofun) fun _ t₅ h₅ ↦ ?_
          exact .returns (goes_rollbackConfiguration h₅ hclear hversion (.inr (.inr rfl))
            (.inr (clear_of_entry h₅.known hclear)))
        · exact .pure h₄

theorem goes_stopFailed {pending : Bool} (h : Mid capable original none none v .clear w)
    (hclear : original.cleanupPending = false) (hv : v ≠ "")
    (hclean : pending = false → Cleaned capable w) :
    Upholds capable (do
      recordTransitionFailure site original revision (if pending then v else "")
      pure false) w := by
  refine .returns (goes_recordTransitionFailure h hclear ?_)
  cases pending with
  | true => exact .inl ⟨rfl, hv⟩
  | false => exact .inr (hclean rfl)

theorem goes_configureEnabled (h : Inv capable w) (hst : w.now.state = some original)
    (hclear : original.cleanupPending = false) (hversion : original.desiredVersion ≠ "")
    (henabled : original.enabled) (hrevision : original.desiredRevision ≤ o.revision) :
    Upholds capable (configureEnabled capable original o) w := by
  refine .seq (goes_ask_inv h _ (by rfl)) ?_
  rintro read t₁ ⟨h₁, hnow⟩
  cases read with
  | false => exact .returns (goes_recordPluginError h₁)
  | true =>
    have hmid := h₁.mid_clear (hnow ▸ hst) hclear
    refine .bind (goes_seeing (.bind (goes_seeing (.seq hmid.removeProcess fun _ t₂ h₂ ↦ ?_))))
    refine .seq (h₂.verify _ _) ?_
    rintro verified t₃ ⟨h₃, -, -⟩
    cases verified with
    | false =>
      refine .seq (h₃.stop nofun) fun _ t₄ h₄ ↦ ?_
      exact .returns (goes_recordTransitionFailure h₄ hclear (.inl ⟨rfl, hversion⟩))
    | true =>
      refine .seq (h₃.stopAndCleanup Site.noConfusion rfl) ?_
      rintro ⟨pending, ok⟩ t₄ ⟨h₄, hclean, hok⟩
      cases ok with
      | false => exact goes_stopFailed h₄ hclear hversion hclean
      | true =>
        exact goes_configureRestart (h₄.known_as .clean ⟨h₄.known, hclean (hok rfl)⟩) hclear hversion
          henabled hrevision

theorem registered_none (h : Inv capable w) (hst : w.now.state = some original)
    (henabled : original.enabled = false) : w.now.registered = none := by
  cases hreg : w.now.registered with
  | none => rfl
  | some i =>
    obtain ⟨st, -, hst', -, hon, -⟩ := h.registered i hreg
    rw [hst] at hst'
    cases hst'
    rw [henabled] at hon
    cases hon

structure Ready (capable : String → Bool) (o : Operation) (w : Now) : Prop where
  inv : Inv capable w
  clear : Clear w
  revision : ∀ st ∈ w.now.state, st.desiredRevision ≤ o.revision

theorem Ready.still (h : Ready capable o w) (ht : Still capable w t) : Ready capable o t where
  inv := inv_of_still h.inv ht
  clear := fun st hst ↦ h.clear st (ht.state ▸ hst)
  revision := fun st hst ↦ h.revision st (ht.state ▸ hst)

theorem Ready.ask (h : Ready capable o w) (q : Query) (hq : recovers q = false) :
    Goes (ask q) w (Climbs capable) fun _ t ↦ Ready capable o t ∧ Still capable w t :=
  goes_question h.inv.point hq fun _ _ _ _ hstill ↦ ⟨h.still hstill, hstill⟩

theorem goes_configure (h : Ready capable o w) : Upholds capable (configure capable o) w := by
  refine .seq (h.ask _ (by rfl)) ?_
  rintro accepted t ⟨ht, -⟩
  cases accepted with
  | false => exact .pure ht.inv
  | true =>
    refine .bind (goes_seeing ?_)
    cases hst : t.now.state with
    | none => exact .pure ht.inv
    | some original =>
      simp only []
      have hclear := ht.clear original hst
      have hrevision := ht.revision original hst
      split
      · exact .pure ht.inv
      next hversion =>
      rw [not_or] at hversion
      cases henabled : original.enabled with
      | true => exact goes_configureEnabled ht.inv hst hclear hversion.1 henabled hrevision
      | false =>
        have hmid := ht.inv.mid_clean hst hclear (registered_none ht.inv hst henabled)
        refine .seq (hmid.writeConfig _ _ _) ?_
        rintro written t₁ ⟨h₁, -⟩
        cases written with
        | false => exact .pure (inv_of_settled h₁.clean_settled)
        | true =>
          exact h₁.lockDown ⟨rfl, h₁.registered, rfl, rfl, rfl⟩ (renews_clear h₁.known.1 rfl hclear)
            ⟨h₁.kept.revision.trans hrevision, h₁.kept.version⟩ hrevision
            fun htidy ↦ .inr (h₁.known.2 htidy)

theorem goes_enableStart (h : Mid capable original none none original.desiredVersion .clean w) :
    Upholds capable (enableStart capable o original.desiredVersion) w := by
  refine .seq (h.start Site.noConfusion rfl (.inl rfl) (.inl rfl)) ?_
  rintro (_ | i) t₁ h₁
  · exact .returns (goes_recordPluginError (inv_of_settled h₁))
  obtain ⟨h₁, hprocess, hstate, -⟩ := h₁
  obtain ⟨cur, hcur, hlike, -⟩ := h₁.state
  have hkept := hlike.wellKept h₁.kept
  have hclear : Clear t₁ := clear_of_state h.known.1 hstate
  have hsets : Sets t₁.now { t₁.now with
      state := t₁.now.state.map (enabledAt o.revision), registered := some i }
      (enabledAt o.revision cur) (some i) := ⟨by simp [hcur], rfl, rfl, rfl, rfl⟩
  refine .seq (h₁.lockUpOr hprocess hsets rfl hclear ⟨max_le_max hkept.revision le_rfl, fun _ ↦ rfl⟩
    (hlike.desiredRevision ▸ le_max_left _ _) rfl hlike.desiredVersion rfl
    (fun _ ↦ ⟨⟨hcur, rfl, rfl, rfl, rfl⟩, rfl⟩) hlike (hclear cur hcur)) ?_
  rintro (_ | _) t₂ h₂
  · obtain ⟨h₂, hrefused⟩ := h₂
    exact .seq ((h₂.refused rfl hrefused).stop nofun) fun _ t₃ h₃ ↦
      .pure (inv_of_settled h₃)
  · exact .pure h₂

theorem goes_enableUnhealthy (h : Inv capable w) (hst : w.now.state = some original)
    (hclear : original.cleanupPending = false) (hversion : original.desiredVersion ≠ "") :
    Upholds capable (enableUnhealthy capable original o w.now.registered) w := by
  refine .seq (h.mid_clear hst hclear).removeProcess fun _ t₁ h₁ ↦ .seq (h₁.verify _ _) ?_
  rintro verified t₂ ⟨h₂, -, -⟩
  cases verified with
  | false =>
    refine .seq (h₂.stop nofun) fun _ t₃ h₃ ↦ ?_
    exact .returns (goes_recordTransitionFailure h₃ hclear (.inl ⟨rfl, hversion⟩))
  | true =>
    refine .seq (h₂.stopAndCleanup Site.noConfusion rfl) ?_
    rintro ⟨pending, ok⟩ t₃ ⟨h₃, hclean, hok⟩
    cases ok with
    | false => exact goes_stopFailed h₃ hclear hversion hclean
    | true =>
      have h₃' := h₃.known_as .clean ⟨h₃.known, hclean (hok rfl)⟩
      refine .seq (h₃'.ask _ (by rfl)) ?_
      rintro removed t₄ ⟨h₄, -⟩
      cases removed with
      | true => exact goes_enableStart h₄
      | false => exact .returns (goes_recordConfigureStopFailure h₄ hclear)

theorem runs_registered {i : Nat} (h : Inv capable w) (hst : w.now.state = some original)
    (hreg : w.now.registered = some i) :
    original.enabled ∧ Runs original.desiredVersion i w := by
  obtain ⟨st, q, hst', hq, hon, hversion, hne, -⟩ := h.registered i hreg
  rw [hst] at hst'
  cases hst'
  exact ⟨hon, hne, q, hq, hversion⟩

theorem goes_enable (h : Ready capable o w) : Upholds capable (enable capable o) w := by
  refine .bind (goes_seeing ?_)
  cases hst : w.now.state with
  | none => exact .pure h.inv
  | some original =>
    simp only []
    have hclear := h.clear original hst
    split
    · exact .pure h.inv
    next hversion =>
    rw [not_or] at hversion
    refine .bind (goes_seeing ?_)
    cases hreg : w.now.registered with
    | none => exact goes_enableStart (h.inv.mid_clean hst hclear hreg)
    | some i =>
      obtain ⟨hon, -⟩ := runs_registered h.inv hst hreg
      have hsame := (h.inv.state original hst).version hon
      simp only [hon, hsame, isSome_some, Bool.true_and, decide_true, if_true]
      refine .seq (goes_ask_inv h.inv _ (by rfl)) ?_
      rintro healthy t ⟨ht, hnow⟩
      have hst' : t.now.state = some original := hnow ▸ hst
      have hreg' : t.now.registered = some i := hnow ▸ hreg
      cases healthy with
      | false => exact hreg' ▸ goes_enableUnhealthy ht hst' hclear hversion.1
      | true =>
        have hmid := ht.mid_clear hst' hclear
        rw [hreg'] at hmid
        have hsets : Sets t.now { t.now with state := t.now.state.map (refreshed o.revision) }
            (refreshed o.revision original) (some i) := ⟨by simp [hst'], hreg', rfl, rfl, rfl⟩
        exact hmid.lockUp (runs_registered ht hst' hreg').2 hsets
          (renews_clear hmid.known rfl hclear) ⟨max_le_max hmid.kept.revision le_rfl, hmid.kept.version⟩
          (le_max_left _ _) hon rfl
          (fun hpending ↦ nomatch hclear.symm.trans hpending) fun _ ↦ hclear

theorem wellKept_disabledAt (h : WellKept original) (revision : Nat) (safe removed owing : Bool) :
    WellKept (disabledAt revision safe removed owing original) := by
  refine ⟨?_, nofun⟩
  simp only [disabledAt]
  split
  · exact max_le_max h.revision le_rfl
  · exact h.revision.trans (le_max_left _ _)

theorem renews_disabledAt {safe removed cleaned : Bool} (h : Clear w)
    (hst : w.now.state = some st) (hlog : p.log = w.now.log ++ noted (!cleaned) st.desiredVersion)
    (hsafe : cleaned = false → safe = false) :
    Renews capable w.now p (disabledAt revision safe removed (!cleaned) st) := by
  have hclear := h st hst
  cases cleaned with
  | true =>
    refine renews_clear h (by simpa [noted] using hlog) ?_
    simp [disabledAt, hclear]
  | false =>
    refine .owed st.desiredVersion (by simpa [noted] using hlog) ?_ fun u hu ↦ ?_
    · simp [PluginState.debt, disabledAt, hsafe rfl, PluginState.owes]
    · rw [h.debt] at hu
      cases hu

theorem goes_disableEnd {verified stopped cleaned removed : Bool}
    (h : Mid capable original none none original.desiredVersion .clear w)
    (hdebt : cleaned → Cleaned capable w) :
    Upholds capable (locked site fun p ↦ { p with
      state := p.state.map (disabledAt revision (verified && stopped && cleaned) removed (!cleaned))
      log := p.log ++ noted (!cleaned) original.desiredVersion }) w := by
  obtain ⟨cur, hcur, hlike, -⟩ := h.state
  have hsets : Sets w.now { w.now with
      state := w.now.state.map (disabledAt revision (verified && stopped && cleaned) removed
        (!cleaned))
      log := w.now.log ++ noted (!cleaned) original.desiredVersion }
      (disabledAt revision (verified && stopped && cleaned) removed (!cleaned) cur) none :=
    ⟨by simp [hcur], h.registered, rfl, rfl, rfl⟩
  have hrevision : original.desiredRevision ≤
      (disabledAt revision (verified && stopped && cleaned) removed (!cleaned)
        cur).desiredRevision := by
    rw [← hlike.desiredRevision]
    exact le_max_left _ _
  refine h.lockDown hsets (renews_disabledAt h.known hcur (by rw [hlike.desiredVersion])
    fun hfalse ↦ by rw [hfalse, Bool.and_false])
    (wellKept_disabledAt (hlike.wellKept h.kept) _ _ _ _) hrevision fun htidy ↦ ?_
  cases cleaned with
  | false =>
    refine .inl ⟨by simp [disabledAt], ?_⟩
    simp [disabledAt, PluginState.owes, hlike.desiredVersion]
  | true => exact .inr (hdebt rfl htidy)

theorem goes_disable (h : Ready capable o w) : Upholds capable (disable capable o) w := by
  refine .bind (goes_seeing ?_)
  cases hst : w.now.state with
  | none => exact .pure h.inv
  | some original =>
    simp only []
    have hclear := h.clear original hst
    split
    · exact .pure h.inv
    refine .bind (goes_seeing ?_)
    cases hreg : w.now.registered with
    | none =>
      have hmid := h.inv.mid_clean hst hclear hreg
      refine .seq hmid.removeProcess fun _ t₁ h₁ ↦ .seq (h₁.verify _ _) ?_
      rintro verified t₂ ⟨h₂, -, -⟩
      refine .seq (h₂.stop nofun) fun stopped t₃ h₃ ↦
        .seq (h₃.cleanupIf _ (not_recovers rfl)) ?_
      rintro cleaned t₄ ⟨h₄, -⟩
      refine .seq (h₄.ask _ (by rfl)) ?_
      rintro removed t₅ ⟨h₅, -⟩
      exact .returns (goes_disableEnd h₅.clean_clear fun _ ↦ h₅.known.2)
    | some i =>
      have hmid := h.inv.mid_clear hst hclear
      rw [hreg] at hmid
      have hne := (runs_registered h.inv hst hreg).2.1
      refine .seq hmid.removeProcess fun _ t₁ h₁ ↦ .seq (h₁.verify _ _) ?_
      rintro (_ | _) t₂ ⟨h₂, -, hasked⟩
      · have hclean := h₂.known_as .clean
          ⟨h₂.known, fun htidy ↦ by cases htidy.needed _ (hasked hne) rfl⟩
        refine .seq (hclean.stop nofun)
          fun stopped t₃ h₃ ↦ .seq (h₃.cleanupIf _ (not_recovers rfl)) ?_
        rintro cleaned t₄ ⟨h₄, -⟩
        refine .seq (h₄.ask _ (by rfl)) ?_
        rintro removed t₅ ⟨h₅, -⟩
        exact .returns (goes_disableEnd h₅.clean_clear fun _ ↦ h₅.known.2)
      · refine .seq (h₂.stop nofun) fun stopped t₃ h₃ ↦
          .seq (h₃.cleanupIf _ (not_recovers rfl)) ?_
        rintro cleaned t₄ ⟨h₄, hclean⟩
        refine .bind (goes_question h₄.point rfl fun removed t₅ hnow hasked hstill ↦ ?_)
        refine .returns (goes_disableEnd (h₄.still hstill) fun hcleaned ↦ ?_)
        exact (h₄.cleaned_of (hclean rfl hcleaned)).told hstill.told

theorem wellKept_blockedRollback (h : WellKept original) (revision : Nat)
    (current : Option PluginState) : WellKept (blockedRollback original revision current) := by
  refine ⟨?_, nofun⟩
  have hle := h.revision.trans (le_max_left original.desiredRevision revision)
  exact (merge_like original current).2 ▸ hle

theorem goes_recordUpdateRollbackBlocked (h : Mid capable original none none v .settled w)
    (hclear : original.cleanupPending = false) :
    Upholds capable (recordUpdateRollbackBlocked site original revision) w := by
  refine .returns (h.lockDown ⟨rfl, rfl, rfl, rfl, rfl⟩ (renews_like h hclear rfl rfl)
    (wellKept_blockedRollback h.kept revision _) (le_max_left _ _)
    (h.settled_debt fun cur hcur hpending hlike ↦ ?_))
  rw [hcur]
  exact merge_pending hlike hpending

theorem wellKept_reverted (h : WellKept original) (revision : Nat)
    (current : Option PluginState) (running : Bool) :
    WellKept (reverted original revision current running) := by
  obtain ⟨hversion, hrevision⟩ := merge_like original current
  cases running with
  | true => exact ⟨max_le_max h.revision le_rfl, fun _ ↦ hversion.symm⟩
  | false =>
    refine ⟨?_, nofun⟩
    have hle := h.revision.trans (le_max_left original.desiredRevision revision)
    exact hrevision ▸ hle

theorem clean_of_settled (h : Mid capable original hand reg v .settled w) (hclear : Clear w) :
    Mid capable original hand reg v .clean w := by
  refine h.known_as .clean ⟨hclear, fun htidy ↦ (h.known htidy).resolve_left ?_⟩
  rintro ⟨st, hst, hpending⟩
  rw [hclear st hst] at hpending
  cases hpending

theorem goes_updateNotStarted (h : Mid capable original none none o.targetVersion .settled w)
    (hclear : original.cleanupPending = false) :
    Upholds capable (updateNotStarted capable original o old) w := by
  obtain ⟨cur, hcur, -, -⟩ := h.state
  refine .bind (goes_seeing ?_)
  cases hpending : cur.cleanupPending with
  | true =>
    simp only [hcur, any_some, hpending, if_true]
    refine .seq (h.recover _) fun _ t₁ h₁ ↦ .seq (h₁.restoreConfig _ _ _) ?_
    rintro - t₂ ⟨h₂, -⟩
    exact .returns (goes_recordUpdateRollbackBlocked h₂ hclear)
  | false =>
    simp only [hcur, any_some, hpending]
    refine .seq ((clean_of_settled h (clear_of_entry hcur hpending)).restoreConfig _ _ _) ?_
    rintro - t₁ ⟨h₁, -⟩
    refine .seq (h₁.start Site.noConfusion rfl (.inr rfl) (.inl rfl)) ?_
    rintro (_ | i) t₂ h₂
    · refine .returns (h₂.lockDown ⟨rfl, h₂.registered, rfl, rfl, rfl⟩
        (renews_like h₂ hclear rfl rfl) (wellKept_reverted h₂.kept _ _ _) (le_max_left _ _)
        (h₂.settled_debt fun cur' hcur' hpending' hlike ↦ ?_))
      rw [hcur']
      exact merge_pending hlike hpending'
    · obtain ⟨h₂, hprocess, hstate, -⟩ := h₂
      exact .returns (h₂.lockUp hprocess ⟨rfl, rfl, rfl, rfl, rfl⟩
        (renews_clear (clear_of_state h₁.known.1 hstate) rfl rfl) (wellKept_reverted h₂.kept _ _ _)
        (le_max_left _ _) rfl (merge_like original _).1
        nofun fun _ ↦ rfl)

theorem wellKept_restarted (h : WellKept cur) (hlike : Like original cur)
    (running : Bool) : WellKept (restarted original running cur) := by
  cases running with
  | true => exact ⟨h.revision, fun _ ↦ hlike.desiredVersion.symm⟩
  | false => exact ⟨h.revision, nofun⟩

theorem goes_updateNotWritten {i : Nat}
    (h : Mid capable original (some i) none o.targetVersion (.entry original) w)
    (hclear : original.cleanupPending = false) (htarget : o.targetVersion ≠ "") :
    Upholds capable (updateNotWritten capable original o old i) w := by
  refine .seq (h.stopAndCleanup Site.noConfusion rfl) ?_
  rintro ⟨pending, ok⟩ t₁ ⟨h₁, hclean, hok⟩
  have hclear₁ : Clear t₁ := clear_of_entry h₁.known hclear
  have hrecovered : Goes (recoverTarget capable (!ok && pending) o.targetVersion) t₁ (Climbs capable)
      fun _ t ↦ Mid capable original none none o.targetVersion
        (if ok then .clean else .settled) t := by
    cases hpending : pending with
    | false =>
      have hclean₁ := h₁.known_as .clean ⟨hclear₁, hclean hpending⟩
      rw [Bool.and_false]
      cases ok with
      | true => exact .pure hclean₁
      | false => exact .pure hclean₁.clean_settled
    | true =>
      cases ok with
      | true => exact nomatch (hok rfl).symm.trans hpending
      | false =>
        refine .seq (h₁.mark _ htarget) fun _ t₂ h₂ ↦ ?_
        exact .seq (h₂.recover _) fun _ t₃ h₃ ↦ .pure h₃
  refine .seq hrecovered fun _ t₂ h₂ ↦ .seq (h₂.restoreConfig _ _ _) ?_
  rintro - t₃ ⟨h₃, -⟩
  cases ok with
  | false => exact .returns (goes_recordUpdateRollbackBlocked h₃ hclear)
  | true =>
    refine .seq (h₃.start Site.noConfusion rfl (.inr rfl) (.inl rfl)) ?_
    rintro (_ | j) t₄ h₄
    · obtain ⟨cur, hcur, hlike, -⟩ := h₄.state
      have hsets : Sets t₄.now { t₄.now with state := t₄.now.state.map (restarted original false) }
          (restarted original false cur) none :=
        ⟨by simp [hcur], h₄.registered, rfl, rfl, rfl⟩
      refine .returns (h₄.lockDown hsets (.same rfl (by rw [hcur]; rfl))
        (wellKept_restarted (hlike.wellKept h₄.kept) hlike false)
        hlike.desiredRevision.ge (h₄.settled_debt fun cur' hcur' hpending' _ ↦ ?_))
      rw [hcur] at hcur'
      cases hcur'
      exact ⟨hpending', rfl⟩
    · obtain ⟨h₄, hprocess, hstate, -⟩ := h₄
      obtain ⟨cur, hcur, hlike, -⟩ := h₄.state
      have hsets : Sets t₄.now { t₄.now with
          state := t₄.now.state.map (restarted original true), registered := some j }
          (restarted original true cur) (some j) := ⟨by simp [hcur], rfl, rfl, rfl, rfl⟩
      exact .returns (h₄.lockUp hprocess hsets (renews_clear (clear_of_state h₃.known.1 hstate) rfl rfl)
        (wellKept_restarted (hlike.wellKept h₄.kept) hlike true) hlike.desiredRevision.ge rfl
        hlike.desiredVersion nofun fun _ ↦ rfl)

theorem wellKept_updated (h : WellKept original) (running : Bool)
    (henabled : running = false → original.enabled = false) :
    WellKept (updated original o running) := by
  cases running with
  | true => exact ⟨max_le_max h.revision le_rfl, fun _ ↦ rfl⟩
  | false =>
    exact ⟨max_le_max h.revision le_rfl,
      fun hon ↦ nomatch (henabled rfl).symm.trans hon⟩

theorem goes_updateEnabled (h : Inv capable w) (hst : w.now.state = some original)
    (hclear : original.cleanupPending = false) (hversion : original.desiredVersion ≠ "")
    (htarget : o.targetVersion ≠ "") :
    Upholds capable (updateEnabled capable original o old) w := by
  have hmid := h.mid_clear hst hclear
  refine .bind (goes_seeing (.seq hmid.removeProcess fun _ t₁ h₁ ↦ ?_))
  refine .seq (h₁.stop nofun) fun stopped t₂ h₂ ↦ .seq (h₂.cleanup (not_recovers rfl)) ?_
  rintro cleaned t₃ ⟨h₃, hclean, -⟩
  have hcleaned : cleaned → Cleaned capable t₃ := fun hc ↦ h₃.cleaned_of (hclean hc)
  cases hok : stopped && cleaned with
  | false =>
    refine .bind ((goes_restoreConfig h₃.point _ _ _).imp ?_)
    rintro - t₄ ⟨hstill, -⟩
    refine .returns (goes_recordTransitionFailure (h₃.still hstill) hclear ?_)
    cases cleaned with
    | true => exact .inr ((hcleaned rfl).told hstill.told)
    | false => exact .inl ⟨rfl, hversion⟩
  | true =>
    simp only [Bool.and_eq_true] at hok
    have h₃' := h₃.known_as .clean ⟨h₃.known, hcleaned hok.2⟩
    refine .seq (h₃'.ask _ (by rfl)) ?_
    rintro removed t₄ ⟨h₄, -⟩
    cases removed with
    | false =>
      refine .seq (h₄.restoreConfig _ _ _) ?_
      rintro - t₅ ⟨h₅, -⟩
      exact .returns (goes_recordConfigureStopFailure h₅ hclear)
    | true =>
      refine .seq (h₄.start Site.noConfusion rfl (.inr rfl) (.inl rfl)) ?_
      rintro (_ | i) t₅ h₅
      · exact goes_updateNotStarted h₅ hclear
      obtain ⟨h₅, hprocess, hstate, -⟩ := h₅
      refine .seq (h₅.lockUpOr hprocess ⟨rfl, rfl, rfl, rfl, rfl⟩ rfl
        (clear_of_state h₄.known.1 hstate)
        (wellKept_updated h₅.kept true fun hfalse ↦ absurd hfalse.symm Bool.false_ne_true)
        (le_max_left _ _) rfl rfl rfl (fun _ ↦ ⟨⟨rfl, rfl, rfl, rfl, rfl⟩, rfl⟩)
        (.refl original) hclear) ?_
      rintro (_ | _) t₆ h₆
      · exact goes_updateNotWritten h₆.1 hclear htarget
      · exact .pure h₆

theorem goes_lockDownOr {f : Plugin → Plugin} {undo : Plugin → Plugin → Plugin} {back : PluginState}
    (h : Mid capable original none none v .clean w) (hf : Sets w.now (f w.now) st none)
    (hlog : (f w.now).log = w.now.log) (hkept : WellKept st)
    (hrevision : original.desiredRevision ≤ st.desiredRevision) (hclear : st.cleanupPending = false)
    (hundo : ∀ r, Sets ((f w.now).persist r) (undo w.now ((f w.now).persist r)) back none ∧ (undo w.now ((f w.now).persist r)).log = ((f w.now).persist r).log)
    (hback : Like original back) (hbackclear : back.cleanupPending = false) :
    Upholds capable (lockedOr site f undo) w := by
  have hchanges := h.changes hf (renews_clear h.known.1 hlog hclear) hkept hrevision nofun
  have hnone : debtOf (f w.now).state = none := by
    rw [hf.state]
    exact debt_of_clear hclear
  refine goes_lockedOr h.point hchanges
    (fun r ↦ h.undone hchanges hnone (hundo r).1 (hundo r).2 hback hbackclear)
    (fun t l hnow hasked ht ↦ ?_) fun r t l hnow hasked ht ↦ ?_
  · exact h.down (hf.leads hnow hasked ht) hkept fun htidy ↦ .inr (h.known.2 htidy)
  have hsets := (hundo r).1
  exact h.down ⟨by rw [hnow]; exact hsets.state, by rw [hnow]; exact hsets.registered,
    ⟨by simp [hnow, hsets.processes, hf.processes], by simp [hnow, hsets.overlap, hf.overlap], _,
      hasked⟩, ht.disk, ht.moment⟩ (hback.wellKept h.kept) fun htidy ↦ .inr (h.known.2 htidy)

theorem goes_updateDisabled (h : Inv capable w) (hst : w.now.state = some original)
    (hclear : original.cleanupPending = false) (henabled : original.enabled = false) :
    Upholds capable (updateDisabled capable original o old) w := by
  have hmid := h.mid_clean hst hclear (registered_none h hst henabled)
  refine .seq (hmid.cleanup (not_recovers rfl)) ?_
  rintro cleaned t₁ ⟨h₁, -, -⟩
  cases cleaned with
  | false =>
    refine .seq (h₁.restoreConfig _ _ _) ?_
    rintro - t₂ ⟨h₂, -⟩
    exact .returns (goes_recordTransitionFailure h₂.clean_clear hclear (.inr h₂.known.2))
  | true =>
    refine .seq (goes_lockDownOr h₁ ⟨rfl, h₁.registered, rfl, rfl, rfl⟩ rfl
      (wellKept_updated h₁.kept false fun _ ↦ henabled) (le_max_left _ _) rfl
      (fun r ↦ ⟨⟨rfl, by simpa using h₁.registered, rfl, rfl, rfl⟩, rfl⟩) (.refl original) hclear) ?_
    rintro (_ | _) t₂ h₂
    · exact .seq (goes_restoreConfig h₂.point _ _ _) fun _ t₃ ht ↦ .pure (inv_of_still h₂ ht.1)
    · exact .pure h₂

theorem goes_updateVersion (h : Ready capable o w) (hst : w.now.state = some original) :
    Upholds capable (updateVersion capable original o) w := by
  refine .seq (goes_verify h.inv.point _ _) ?_
  rintro verified t₁ ⟨hstill₁, htarget, -⟩
  have h₁ := h.still hstill₁
  cases verified with
  | false => exact .pure h₁.inv
  | true =>
    refine .seq (goes_verify h₁.inv.point _ _) ?_
    rintro verified t₂ ⟨hstill₂, hversion, -⟩
    have h₂ := h₁.still hstill₂
    cases verified with
    | false => exact .pure h₂.inv
    | true =>
      refine .seq (h₂.ask _ (by rfl)) ?_
      rintro read t₃ ⟨h₃, hstill₃⟩
      cases read with
      | false => exact .pure h₃.inv
      | true =>
        refine .bind (goes_seeing (.seq (goes_writeConfig h₃.inv.point _ _ _) ?_))
        rintro written t₄ ⟨hstill₄, -⟩
        have h₄ := h₃.still hstill₄
        have hst₄ : t₄.now.state = some original :=
          (((hstill₁.trans hstill₂).trans hstill₃).trans hstill₄).state.trans hst
        have hclear := h₄.clear original hst₄
        cases written with
        | false => exact .pure h₄.inv
        | true =>
          cases henabled : original.enabled with
          | true => exact goes_updateEnabled h₄.inv hst₄ hclear (hversion rfl) (htarget rfl)
          | false => exact goes_updateDisabled h₄.inv hst₄ hclear henabled

theorem mild_raise (revision : Nat) (st : PluginState) : Mild st { st with
    desiredRevision := max st.desiredRevision revision
    observedRevision := max st.observedRevision revision } :=
  ⟨rfl, rfl, rfl, rfl, le_max_left _ _, fun h ↦ ⟨max_le_max h.revision le_rfl, h.version⟩⟩

theorem goes_update (h : Ready capable o w) : Upholds capable (update capable o) w := by
  refine .seq (h.ask _ (by rfl)) ?_
  rintro accepted t₁ ⟨h₁, -⟩
  cases accepted with
  | false => exact .pure h₁.inv
  | true =>
    refine .bind (goes_seeing ?_)
    cases hst : t₁.now.state with
    | none => exact .pure h₁.inv
    | some original =>
      simp only []
      split
      · split
        · refine .seq (h₁.ask _ (by rfl)) ?_
          rintro read t₂ ⟨h₂, hstill⟩
          cases read with
          | false => exact .pure h₂.inv
          | true =>
            refine .bind (goes_seeing ?_)
            split
            · split
              · exact goes_enable h₂
              · refine goes_lockMild h₂.inv (mild_raise o.revision) ?_
                rw [hstill.state, hst, map_some]
            · exact goes_configure h₂
        · exact goes_configure h₁
      · exact goes_updateVersion h₁ hst

theorem goes_rollback (h : Ready capable o w) : Upholds capable (rollback capable o) w := by
  refine .bind (goes_seeing ?_)
  cases w.now.state with
  | none => exact .pure h.inv
  | some st =>
    simp only []
    split
    · exact .pure h.inv
    · exact goes_update h

theorem goes_healthCheck (h : Inv capable w) : Upholds capable healthCheck w := by
  refine .bind (goes_seeing ?_)
  cases w.now.state with
  | none => exact .pure h
  | some st =>
    simp only []
    split
    · refine .seq (goes_ask_inv h _ (by rfl)) ?_
      rintro healthy t ⟨ht, -⟩
      cases healthy with
      | true => exact goes_lockMild ht (mild_health .healthy) rfl
      | false => exact .returns (goes_recordPluginError ht)
    · exact .pure h

theorem goes_writeSecrets (h : Ready capable o w) :
    Goes (writeSecrets o) w (Climbs capable) fun _ t ↦ Ready capable o t := by
  unfold writeSecrets
  split
  · refine .seq (h.ask _ (by rfl)) ?_
    rintro written t ⟨ht, -⟩
    cases written with
    | false => exact .pure ht
    | true =>
      rw [if_pos rfl]
      refine goes_acting fun u hu hasked ↦ ?_
      have hkeeps : Keeps t.now u.now := by
        rw [hu]
        exact ⟨rfl, rfl, .inl rfl, .inr ⟨.secrets o.targetVersion o.config, rfl, rfl⟩⟩
      have hclimbs := ht.inv.point.keeps hkeeps hasked
      have htold : Told t u := ⟨by rw [hu]; rfl, by rw [hu]; rfl, [], by simp [hasked]⟩
      exact ⟨hclimbs, ht.still ⟨htold, hkeeps.state, by rw [hu]; rfl, hkeeps.disk,
        hclimbs.point.moment⟩⟩
  · exact .pure h

theorem goes_staged {operation : Supervised Bool} (h : Ready capable o w)
    (hop : ∀ t, Ready capable o t → Upholds capable operation t) :
    Upholds capable (staged o operation) w := by
  refine .seq (goes_writeSecrets h) fun _ t h₀ ↦ .seq (h₀.ask _ (by rfl)) ?_
  rintro ready t₁ ⟨h₁, -⟩
  cases ready with
  | false => exact .pure h₁.inv
  | true =>
    refine .seq (hop t₁ h₁) ?_
    rintro (_ | _) t₂ h₂
    · exact .pure h₂
    · exact (goes_ask_inv h₂ _ (by rfl)).imp fun _ _ ht ↦ ht.1

theorem goes_materializedEnable (h : Ready capable o w) :
    Upholds capable (materializedEnable capable o) w := by
  refine .seq (h.ask _ (by rfl)) ?_
  rintro read t₁ ⟨h₁, -⟩
  cases read with
  | false => exact .pure h₁.inv
  | true =>
    refine .bind (goes_seeing (.seq (goes_writeConfig h₁.inv.point _ _ _) ?_))
    rintro written t₂ ⟨hstill, -⟩
    have h₂ := h₁.still hstill
    cases written with
    | false => exact .pure h₂.inv
    | true =>
      refine .seq (goes_enable h₂) ?_
      rintro (_ | _) t₃ h₃
      · exact .seq (goes_restoreConfig h₃.point _ _ _) fun _ t₄ ht ↦ .pure (inv_of_still h₃ ht.1)
      · exact .pure h₃

theorem registered_of_none (h : Inv capable w) (hst : w.now.state = none) :
    w.now.registered = none := by
  refine eq_none_iff_forall_ne_some.mpr fun i hi ↦ ?_
  obtain ⟨st, -, hst', -⟩ := h.registered i hi
  rw [hst] at hst'
  cases hst'

theorem inv_of_fresh (h : Inv capable w) (hst : w.now.state = none)
    (ht : Leads capable w t st none) (hkept : WellKept st) : Inv capable t := by
  have hreg := registered_of_none h hst
  have hall (htidy : Tidy capable t.asked) : ∀ q ∈ t.now.processes, q.fate = .cleaned := by
    rw [ht.told.same]
    rcases h.debt (ht.told.tidy htidy) with hsome | ⟨st, hst', -⟩ | hall
    · rw [hreg] at hsome
      cases hsome
    · rw [hst] at hst'
      cases hst'
    · exact hall
  have hledger := h.ledger.told ht.told
  rw [hreg] at hledger
  refine ⟨fun st' hst' ↦ ?_, ht.disk, fun i hi ↦ ?_, ?_, fun htidy ↦ .inr (.inr (hall htidy)),
    ht.moment⟩
  · rw [ht.state] at hst'
    cases hst'
    exact hkept
  · rw [ht.registered] at hi
    cases hi
  · rw [ht.registered]
    exact hledger.of_cleaned hall _

theorem mild_installed (version : String) (revision : Nat) (st : PluginState) :
    Mild st (installed version revision (some st)) := by
  unfold installed
  simp only [getD_some]
  split
  · exact mild_raise revision st
  · exact .refl st

theorem wellKept_installed (version : String) (revision : Nat) :
    WellKept (installed version revision none) := by
  unfold installed
  simp only [getD_none]
  split <;> exact ⟨le_rfl, nofun⟩

theorem debt_installed (version : String) (revision : Nat) (state : Option PluginState) :
    (installed version revision state).debt = debtOf state := by
  cases state with
  | none =>
    unfold installed
    simp only [getD_none]
    split <;> rfl
  | some st => exact (mild_installed version revision st).debt

section

variable (h : Inv capable w)
include h

theorem changes_installed (version : String) (revision : Nat) :
    Changes capable w { w.now with state := some (installed version revision w.now.state) } := by
  cases hst : w.now.state with
  | none =>
    have hnew : Renews capable w.now { w.now with state := some (installed version revision none) }
        (installed version revision none) := .same rfl (by rw [debt_installed, hst])
    refine ⟨fun st hst' ↦ ?_, hnew.records rfl, fun st hst' ↦ ?_, h.disk,
      h.moment.kept.renew rfl rfl hnew, fun _ hreg ↦ ?_⟩
    · rw [hst] at hst'
      cases hst'
    · cases hst'
      exact wellKept_installed version revision
    · rw [registered_of_none h hst] at hreg
      cases hreg
  | some st =>
    have hmild := changes_of_mild h.point (mild_installed version revision)
    rw [hst] at hmild
    exact hmild

theorem goes_lockInstalled (version : String) (revision : Nat) :
    Upholds capable (lockedOr site (fun p ↦ { p with state := some (installed version revision p.state) })
      fun p q ↦ { q with state := p.state }) w := by
  have hchanges := changes_installed h version revision
  have hundo (r : Write) : Changes capable w { ({ w.now with
      state := some (installed version revision w.now.state) } : Plugin).persist r with
      state := w.now.state } := by
    have hpr := hchanges.persist r
    refine ⟨.of_state rfl, .of_state rfl hpr.records.log, h.state, hpr.disk,
      ⟨?_, hpr.kept.disk, hpr.kept.both⟩, fun hgentle hreg ↦ h.moment.calm hgentle (by simpa using hreg)⟩
    intro v hv hrec
    have hmemory := hpr.kept.memory v hv hrec
    rw [persist_state] at hmemory
    exact (debt_installed version revision w.now.state).symm.trans hmemory
  refine goes_lockedOr h.point hchanges hundo (fun t l hnow hasked ht ↦ ?_)
    fun r t l hnow hasked ht ↦ ?_
  · have htold : Told w t := ⟨by simp [hnow], by simp [hnow], _, hasked⟩
    cases hst : w.now.state with
    | none =>
      have hreg := registered_of_none h hst
      exact inv_of_fresh h hst
        ⟨by simp [hnow, hst], by simp [hnow, hreg], htold, ht.disk, ht.moment⟩
        (wellKept_installed version revision)
    | some st =>
      exact inv_of_mild h (mild_installed version revision) (by simp [hnow, hst])
        (by simp [hnow]) htold ht.disk ht.moment
  · exact inv_of_mild h (g := id) Mild.refl (by simp [hnow]) (by simp [hnow])
      ⟨by simp [hnow], by simp [hnow], _, hasked⟩ ht.disk ht.moment

theorem goes_installPrepared (version : String) (revision : Nat) :
    Upholds capable (installPrepared version revision) w := by
  refine .seq (goes_ask_inv h _ (by rfl)) ?_
  rintro accepted t ⟨ht, -⟩
  cases accepted with
  | false => exact .pure ht
  | true => exact goes_lockInstalled ht version revision

theorem goes_executePreparedOperation (kind : Kind)
    (hready : operationMutatesState kind → Ready capable o w) :
    Upholds capable (executePreparedOperation capable kind o) w := by
  cases kind with
  | install => exact goes_installPrepared h _ _
  | inspect =>
    exact goes_seeing (H := Climbs capable) (f := fun p ↦ p.state.isSome)
      (Q := fun _ t ↦ Inv capable t) h
  | configure => exact goes_staged (hready rfl) fun _ ht ↦ goes_configure ht
  | enable =>
    simp only [executePreparedOperation]
    split
    · exact goes_staged (hready rfl) fun _ ht ↦ goes_materializedEnable ht
    · exact goes_enable (hready rfl)
  | disable => exact goes_disable (hready rfl)
  | update => exact goes_staged (hready rfl) fun _ ht ↦ goes_update ht
  | rollback => exact goes_staged (hready rfl) fun _ ht ↦ goes_rollback ht
  | health => exact goes_healthCheck h

end

theorem goes_executeOperation (h : Inv capable w) (kind : Kind) (repairReplay : Bool)
    (hclear : operationMutatesState kind → Clear w) :
    Upholds capable (executeOperation capable kind o repairReplay) w := by
  refine .bind (goes_seeing ?_)
  split
  · exact .pure h
  next hstale =>
  refine goes_executePreparedOperation h kind fun hmutates ↦ ⟨h, hclear hmutates, ?_⟩
  rw [hmutates, Bool.true_and] at hstale
  intro st hst
  rw [mem_def.mp hst] at hstale
  simp only [rejectStaleRevision, any_some, Bool.not_eq_true, Bool.or_eq_false_iff,
    decide_eq_false_iff_not, not_lt] at hstale
  exact hstale.1

theorem goes_execute (h : Inv capable w) (kind : Kind) (repairReplay : Bool) :
    Upholds capable (execute capable kind o repairReplay) w := by
  refine .seq (goes_ask_inv h _ (by rfl)) ?_
  rintro accepted t₁ ⟨h₁, -⟩
  cases accepted with
  | false => exact .pure h₁
  | true =>
    cases hmutates : operationMutatesState kind with
    | false =>
      exact goes_executeOperation h₁ kind repairReplay fun htrue ↦ by
        rw [hmutates] at htrue
        cases htrue
    | true =>
      refine .seq (h₁.recover _) ?_
      rintro recovered t₂ ⟨h₂, hclear⟩
      cases recovered with
      | false => exact .pure h₂
      | true => exact goes_executeOperation h₂ kind repairReplay fun _ ↦ hclear rfl

end AnixAgent.Plugins.Operations
