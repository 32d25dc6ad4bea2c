import AnixAgent.Plugins.Operations

namespace AnixAgent.Plugins.Tasks

open Lib.Crash Lib.Crash.Proc Lib.Answers Lifecycle Debts Upkeep Transitions Operations
open Journal (Write)

variable {capable : String → Bool} {original st : PluginState}
  {hand reg : Option Nat} {v version : String} {k : Known} {w t : Now} {site : Site}

variable {i : Nat}

theorem mid_registered (h : Inv capable w) (hst : w.now.state = some st)
    (hi : w.now.registered = some i) :
    Mid capable st (some i) (some i) st.desiredVersion (.entry st) w ∧
      st.enabled ∧ st.desiredVersion ≠ "" := by
  obtain ⟨st', -, hst', -, henabled, -, hne, hdebt⟩ := h.registered i hi
  rw [hst] at hst'
  cases hst'
  have hmid := h.mid hst
  have howed : owed (some st) = st.desiredVersion := by
    unfold owed
    simp only []
    split
    · next hpending => exact hdebt hpending
    · rfl
  rw [hi, howed] at hmid
  exact ⟨hmid.known_as (.entry st) hst, henabled, hne⟩

theorem exited_hand (h : Mid capable original (some i) reg v k w) (hi : w.now.registered = some i)
    (hexited : w.now.exitedProcess) : Mid capable original none reg v k w := by
  refine { h with ledger := { h.ledger with alive := fun ho j q hq ha ↦ ?_ } }
  cases h.ledger.alive ho j q hq ha
  simp [Plugin.exitedProcess, hi, hq, ha] at hexited

theorem debt_observed (ok : Bool) (st : PluginState) :
    (observed ok st).debt = if ok then none else some st.desiredVersion := by
  cases ok with
  | true => rfl
  | false => simp [PluginState.debt, observed, PluginState.owes]

theorem renews_cleaned {p : Plugin} (h : Mid capable original hand reg v k w)
    (hlog : p.log = w.now.log) (hclean : Cleanup capable v w) (hst : st.cleanupPending = false) :
    Renews capable w.now p st := by
  refine .free hlog (h.moment.kept.free_of_cleaned h.debt hclean.recorded) fun u hu ↦ ?_
  rw [debt_of_clear hst] at hu
  cases hu

variable {cur : PluginState}

theorem goes_observeEnd (h : Mid capable original none none v (.entry cur) w)
    (hpending : cur.cleanupPending) (hv : original.desiredVersion = v) (ok : Bool)
    (hclean : ok → Cleanup capable v w) :
    Upholds capable (locked site fun p ↦ { p with state := p.state.map (observed ok) }) w := by
  have hcur : w.now.state = some cur := h.known
  obtain ⟨cur', hcur', hlike, -⟩ := h.state
  rw [hcur] at hcur'
  cases hcur'
  have hsets : Sets w.now { w.now with state := w.now.state.map (observed ok) } (observed ok cur)
      none := ⟨by simp [hcur], h.registered, rfl, rfl, rfl⟩
  have hnew : Renews capable w.now { w.now with state := w.now.state.map (observed ok) }
      (observed ok cur) := by
    cases ok with
    | true => exact renews_cleaned h rfl (hclean rfl) rfl
    | false =>
      refine .same rfl ?_
      have hdebt : debtOf w.now.state = some cur.owes := by
        rw [hcur]
        exact debt_of_pending hpending
      rw [debt_observed, if_neg Bool.false_ne_true, hlike.desiredVersion, hv, hdebt,
        h.debt cur.owes hdebt]
  refine h.lockDown hsets hnew ?_ hlike.desiredRevision.ge fun htidy ↦ ?_
  · exact ⟨(hlike.wellKept h.kept).revision, (hlike.wellKept h.kept).version⟩
  · cases ok with
    | true => exact .inr (h.cleaned_of (hclean rfl) htidy)
    | false => exact .inl ⟨rfl, by simp [observed, PluginState.owes, hlike.desiredVersion, hv]⟩

theorem goes_observeProcessExit (h : Inv capable w) (hexited : w.now.exitedProcess) :
    Upholds capable (observeProcessExit capable) w := by
  obtain ⟨i, hi⟩ : ∃ i, w.now.registered = some i := by
    cases hreg : w.now.registered with
    | none => simp [Plugin.exitedProcess, hreg] at hexited
    | some i => exact ⟨i, rfl⟩
  obtain ⟨st, -, hst, -⟩ := h.registered i hi
  obtain ⟨hmid, -, hne⟩ := mid_registered h hst hi
  refine .bind (goes_seeing ?_)
  rw [hst]
  refine .seq ((exited_hand hmid hi hexited).lockPending _ hne hst rfl) fun _ t₁ h₁ ↦ ?_
  refine .seq (h₁.verify _ _) ?_
  rintro verified t₂ ⟨h₂, -, -⟩
  refine .seq (h₂.cleanupIf verified (not_recovers rfl)) ?_
  rintro cleaned t₃ ⟨h₃, hclean⟩
  refine .bind (goes_question h₃.point rfl fun removed t₄ hnow hasked hstill ↦ ?_)
  refine .returns (goes_observeEnd (h₃.still hstill) rfl rfl (verified && cleaned && removed)
    fun hok ↦ ?_)
  simp only [Bool.and_eq_true] at hok
  exact (hclean hok.1.1 hok.1.2).still hnow hstill.told

theorem goes_lockLike {f : Plugin → Plugin} (h : Mid capable original hand reg v .clear w)
    {reg' : Option Nat} (hreg : reg' = reg ∨ reg' = none) (hf : Sets w.now (f w.now) cur reg')
    (hlog : (f w.now).log = w.now.log) (hlike : Like original cur)
    (hclear : cur.cleanupPending = false) :
    Goes (locked site f) w (Climbs capable) fun _ t ↦
      Mid capable original hand reg' v .clear t := by
  have hchanges := h.changes hf (renews_clear h.known hlog hclear) (hlike.wellKept h.kept)
    hlike.desiredRevision.ge fun _ _ ↦ hclear
  refine goes_locked h.point hchanges fun r t l hnow hasked ht ↦ ?_
  have hleads := hf.leads hnow hasked ht
  refine ⟨h.kept, ⟨cur, hleads.state, hlike, fun hpending ↦ ?_⟩, hleads.registered, ?_,
    hleads.disk, h.ledger.told hleads.told, clear_of_entry hleads.state hclear, hleads.moment⟩
  · rw [hclear] at hpending
    cases hpending
  rw [hleads.told.same]
  rcases hreg with rfl | rfl
  · exact h.process
  · exact fun i hi ↦ nomatch hi

theorem goes_restartStart (h : Mid capable original none none original.desiredVersion .clean w)
    (hclear : original.cleanupPending = false) :
    Upholds capable (restartStart capable original) w := by
  refine .seq (h.start Site.noConfusion rfl (.inl rfl) (.inl rfl)) ?_
  rintro (_ | i) t₁ h₁
  · exact goes_recordPluginError (inv_of_settled h₁)
  obtain ⟨hmid, hruns, hstate, -⟩ := h₁
  obtain ⟨cur, hcur, hlike, -⟩ := hmid.state
  have hsets : Sets t₁.now { t₁.now with
      state := t₁.now.state.map (revived original), registered := some i }
      (revived original cur) (some i) := ⟨by simp [hcur], rfl, rfl, rfl, rfl⟩
  refine .seq (hmid.lockUpOr hruns hsets rfl (clear_of_state h.known.1 hstate)
    ⟨(hlike.wellKept h.kept).revision, fun _ ↦ hlike.desiredVersion.symm⟩
    hlike.desiredRevision.ge rfl hlike.desiredVersion rfl
    (fun p ↦ ⟨⟨rfl, rfl, rfl, rfl, rfl⟩, rfl⟩) (.refl original) hclear) ?_
  rintro (_ | _) t₂ h₂
  · obtain ⟨hback, hrefused⟩ := h₂
    refine .seq ((hback.refused rfl hrefused).stop nofun) fun _ t₃ h₃ ↦ ?_
    exact .pure (inv_of_settled h₃)
  · exact .pure h₂

theorem goes_restartMaintenanceInstance
    (h : Mid capable original reg reg original.desiredVersion .clear w)
    (hclear : original.cleanupPending = false) (hv : original.desiredVersion ≠ "") :
    Upholds capable (restartMaintenanceInstance capable original reg) w := by
  refine .seq h.removeProcess fun _ t₁ h₁ ↦ .seq (h₁.stopAndCleanup Site.noConfusion rfl) ?_
  rintro ⟨pending, ok⟩ t₂ ⟨h₂, hclean, hok⟩
  cases ok with
  | false =>
    cases pending with
    | false =>
      exact .returns (goes_recordTransitionFailure h₂ hclear (.inr (hclean rfl)))
    | true =>
      have hlike : Like original (failedTransition original original.desiredRevision "") :=
        ⟨max_self _, rfl, rfl, rfl, nofun⟩
      refine .bind (.bind (.imp (goes_lockLike h₂ (.inr rfl) ⟨rfl, rfl, rfl, rfl, rfl⟩
        (List.append_nil _) hlike hclear) fun _ t ht ↦ .pure ?_))
      exact (ht.mark _ hv).imp fun _ _ hu ↦ inv_of_settled hu
  | true =>
    refine .seq ((h₂.known_as .clean ⟨h₂.known, hclean (hok rfl)⟩).ask _ (by rfl)) ?_
    rintro removed t₃ ⟨h₃, -⟩
    cases removed with
    | false => exact .pure (inv_of_settled h₃.clean_settled)
    | true => exact goes_restartStart h₃ hclear

theorem goes_probe (h : Inv capable w) (st : PluginState) (process : Option Nat) :
    Goes (probe st process) w (Climbs capable) fun fault t ↦ Inv capable t ∧ Still capable w t ∧
      (fault = .restartable → st.cleanupPending = false) := by
  refine .seq (goes_verify h.point _ _) ?_
  rintro verified t₁ ⟨hstill₁, -, -⟩
  have h₁ := inv_of_still h hstill₁
  cases verified with
  | false => exact .pure ⟨h₁, hstill₁, Fault.noConfusion⟩
  | true =>
    refine .bind (goes_question h₁.point rfl fun accepted t₂ _ _ hstill ↦ ?_)
    have hstill₂ := hstill₁.trans hstill
    have h₂ := inv_of_still h hstill₂
    cases accepted with
    | false => exact .pure ⟨h₂, hstill₂, Fault.noConfusion⟩
    | true =>
      rw [if_pos rfl]
      split
      · exact .pure ⟨h₂, hstill₂, Fault.noConfusion⟩
      next hpending =>
      rw [Bool.not_eq_true] at hpending
      split
      · exact .pure ⟨h₂, hstill₂, fun _ ↦ hpending⟩
      · refine .bind (goes_question h₂.point rfl fun healthy t₃ _ _ hstill ↦ ?_)
        have hstill₃ := hstill₂.trans hstill
        cases healthy <;> exact .pure ⟨inv_of_still h hstill₃, hstill₃, fun _ ↦ hpending⟩

theorem goes_lockHealth (h : Inv capable w) (hst : w.now.state = some st) (health : Health) :
    Goes (locked site fun p ↦ { p with
      state := p.state.map fun st ↦ { st with health := health } }) w (Climbs capable) fun _ t ↦
      Inv capable t ∧ (st.cleanupPending = false →
        Mid capable st w.now.registered w.now.registered st.desiredVersion .clear t) := by
  have hdone : Upholds capable (locked site fun p ↦ { p with
      state := p.state.map fun st ↦ { st with health := health } }) w := goes_lockMild h (mild_health health) rfl
  cases hpending : st.cleanupPending with
  | true => exact hdone.imp fun _ _ ht ↦ ⟨ht, fun hfalse ↦ by cases hfalse⟩
  | false =>
    have hsets : Sets w.now { w.now with
        state := w.now.state.map fun st ↦ { st with health := health } }
        { st with health := health } w.now.registered := ⟨by simp [hst], rfl, rfl, rfl, rfl⟩
    refine (hdone.and (R := fun _ t ↦ Mid capable st w.now.registered w.now.registered
      st.desiredVersion .clear t) ?_).imp fun _ _ ht ↦ ⟨ht.1, fun _ ↦ ht.2⟩
    have hlike : Like st { st with health := health } := ⟨rfl, rfl, rfl, rfl, id⟩
    exact (goes_lockLike (h.mid_clear hst hpending) (.inl rfl) hsets rfl hlike
      (by exact hpending)).ends

theorem goes_checkMaintenanceInstance (h : Inv capable w) :
    Upholds capable (checkMaintenanceInstance capable) w := by
  refine .bind (goes_seeing ?_)
  cases hst : w.now.state with
  | none => exact .pure h
  | some st =>
    simp only []
    split
    · exact .pure h
    next hskip =>
    have hne : st.desiredVersion ≠ "" := fun hempty ↦ hskip (by simp [hempty])
    refine .bind (goes_seeing (.seq (goes_probe h st w.now.registered) ?_))
    rintro fault t₁ ⟨h₁, hstill₁, hclear⟩
    refine .bind (goes_question h₁.point rfl fun observed t₂ _ _ hstill ↦ ?_)
    have hstill₂ := hstill₁.trans hstill
    have h₂ := inv_of_still h hstill₂
    cases observed with
    | false => exact .pure h₂
    | true =>
      refine .seq (goes_lockHealth h₂ (hstill₂.state.trans hst) _) ?_
      rintro written t₃ ⟨h₃, hmid⟩
      split
      · next hrestart =>
        have hpending : st.cleanupPending = false :=
          hclear (of_decide_eq_true (Bool.and_eq_true_iff.mp hrestart).2)
        rw [hstill₂.registered] at hmid
        refine .bind (goes_question h₃.point rfl fun restart t₄ _ _ hstill ↦ ?_)
        cases restart with
        | false => exact .pure (inv_of_still h₃ hstill)
        | true => exact goes_restartMaintenanceInstance ((hmid hpending).still hstill) hpending hne
      · exact .pure h₃

theorem goes_stopClosing (h : Mid capable original (some i) reg v k w) :
    Goes (stopProcess .close (some i)) w (Climbs capable) fun stopped t ↦
      Mid capable original (if stopped then none else some i) reg v k t ∧
        (stopped = false → ¬ Gentle t.asked) := by
  refine .seq (h.ask _ (by rfl)) ?_
  rintro b t ⟨ht, hb⟩
  cases b with
  | true => exact .seq ht.leave fun _ u hu ↦ .pure ⟨hu, nofun⟩
  | false =>
    refine .bind (goes_question ht.point rfl fun b u _ hasked hstill ↦ ?_)
    have hu := ht.still hstill
    have hfailed : ¬ Gentle u.asked := fun hgentle ↦ (gentle_of_asked hasked hgentle).1 hb
    cases b with
    | false => exact .pure ⟨hu, fun _ ↦ hfailed⟩
    | true =>
      refine .bind (goes_acting fun u' hnow hasked' ↦ ?_)
      have hkeeps : Keeps u.now u'.now := by
        rw [hnow]
        exact ⟨rfl, rfl, .inl rfl, .inl rfl⟩
      have hleft : Left i u u' := ⟨by rw [hnow]; rfl, by rw [hnow]; rfl, [], by simp [hasked']⟩
      refine ⟨hu.point.keeps hkeeps hasked', .pure ⟨?_, fun _ ↦ hasked' ▸ hfailed⟩⟩
      exact hu.moved hleft hkeeps (by rw [hnow]; rfl) hasked' (leave_places _ i)
        (hu.ledger.left hleft) fun hc ↦ hc.left hleft

theorem owes_closed (verified stopped cleaned removed : Bool) (st : PluginState)
    (h : (closed verified stopped cleaned removed st).cleanupPending) :
    (closed verified stopped cleaned removed st).owes = st.desiredVersion := by
  simp only [closed] at h
  simp [closed, PluginState.owes, h]

theorem goes_removeSocketIf (hw : Point capable w) (hsite : site.recovers = false) (go : Bool) :
    Goes (removeSocketIf site go) w (Climbs capable) fun _ t ↦ Still capable w t ∧ t.now = w.now := by
  cases go with
  | false => exact .pure ⟨still_of_eq (l := []) rfl (by simp) hw.moment, rfl⟩
  | true => exact goes_question hw hsite fun _ t hnow _ hstill ↦ ⟨hstill, hnow⟩

variable {verified stopped cleaned removed : Bool}

theorem debt_closed (h : (verified && stopped && cleaned) = false) :
    (closed verified stopped cleaned removed st).debt = some st.desiredVersion := by
  have hpending : (closed verified stopped cleaned removed st).cleanupPending := by
    simp [closed, h]
  rw [debt_of_pending hpending, owes_closed _ _ _ _ _ hpending]

theorem renews_closed {p : Plugin} (h : Mid capable original hand reg st.desiredVersion k w)
    (hlog : p.log = w.now.log ++ noted (!(verified && stopped && cleaned)) st.desiredVersion)
    (hcleaned : (verified && stopped && cleaned) → Cleanup capable st.desiredVersion w) :
    Renews capable w.now p (closed verified stopped cleaned removed st) := by
  cases hok : verified && stopped && cleaned with
  | true =>
    refine renews_cleaned h ?_ (hcleaned hok) ?_
    · simpa [hok, noted] using hlog
    · simp [closed, hok]
  | false =>
    refine .owed st.desiredVersion ?_ (debt_closed hok) h.debt
    simpa [hok, noted] using hlog

theorem goes_closeEnd
    (h : Mid capable st (if stopped then none else some i) (some i) st.desiredVersion (.entry st) w)
    (henabled : st.enabled) (hne : st.desiredVersion ≠ "")
    (hstopped : stopped = false → ¬ Gentle w.asked)
    (hcleaned : (verified && stopped && cleaned) → Cleanup capable st.desiredVersion w) :
    Upholds capable (doing fun p : Plugin ↦ { p with
      registered := if stopped then none else p.registered
      state := p.state.map (closed verified stopped cleaned removed)
      log := p.log ++ noted (!(verified && stopped && cleaned)) st.desiredVersion }) w := by
  have hsets : Sets w.now { w.now with
      registered := if stopped then none else w.now.registered
      state := w.now.state.map (closed verified stopped cleaned removed)
      log := w.now.log ++ noted (!(verified && stopped && cleaned)) st.desiredVersion }
      (closed verified stopped cleaned removed st) (if stopped then none else some i) := by
    refine ⟨?_, by rw [h.registered], rfl, rfl, rfl⟩
    simp only [show w.now.state = some st from h.known, Option.map_some]
  have hkept : WellKept (closed verified stopped cleaned removed st) :=
    ⟨h.kept.revision, h.kept.version⟩
  have hchanges := h.changes hsets (renews_closed h rfl hcleaned) hkept le_rfl
    fun hgentle hreg ↦ by
      cases stopped with
      | true => cases hreg
      | false => exact absurd hgentle (hstopped rfl)
  refine goes_acting fun t hnow hasked ↦ ?_
  have hclimbs : Climbs capable w t := by
    refine hchanges.climbs rfl (l := []) (by simp) (fun hgentle hrec ↦ ?_) hnow hasked
    have hnone := h.moment.idle hgentle hrec
    rw [h.registered] at hnone
    cases hnone
  refine ⟨hclimbs, ?_⟩
  have hleads : Leads capable w t (closed verified stopped cleaned removed st)
      (if stopped then none else some i) :=
    ⟨by rw [hnow]; exact hsets.state, by rw [hnow]; exact hsets.registered,
      ⟨by rw [hnow]; rfl, by rw [hnow], [], by simp [hasked]⟩, hclimbs.point.disk,
      hclimbs.point.moment⟩
  cases stopped with
  | true =>
    refine h.down hleads hkept fun htidy ↦ ?_
    cases hpending : (closed verified true cleaned removed st).cleanupPending with
    | true => exact .inl ⟨rfl, owes_closed _ _ _ _ _ hpending⟩
    | false => exact .inr (h.cleaned_of (hcleaned (by simpa [closed] using hpending)) htidy)
  | false =>
    obtain ⟨q, hq, hversion⟩ := h.process i rfl
    exact h.up ⟨hne, q, hq, hversion⟩ hleads hkept henabled rfl (owes_closed _ _ _ _ _)

theorem goes_closeProcess (h : Inv capable w) (hst : w.now.state = some st)
    (hi : w.now.registered = some i) : Upholds capable (closeProcess capable st i) w := by
  obtain ⟨hmid, henabled, hne⟩ := mid_registered h hst hi
  refine .seq (hmid.verify _ _) ?_
  rintro verified t₁ ⟨h₁, -, -⟩
  refine .seq (goes_stopClosing h₁) ?_
  rintro (_ | _) t₂ ⟨h₂, hstopped⟩
  · refine .bind (.pure (.bind (.pure (goes_closeEnd h₂ henabled hne hstopped fun hok ↦ ?_))))
    rw [Bool.and_false, Bool.false_and] at hok
    cases hok
  refine .seq (h₂.cleanupIf verified (not_recovers rfl)) ?_
  rintro cleaned t₃ ⟨h₃, hclean⟩
  refine .seq (goes_removeSocketIf h₃.point rfl true) ?_
  rintro removed t₄ ⟨hstill, hnow⟩
  refine goes_closeEnd (h₃.still hstill) henabled hne nofun fun hok ↦ ?_
  simp only [Bool.and_true, Bool.and_eq_true] at hok
  exact (hclean hok.1 hok.2).still hnow hstill.told

theorem goes_closePlugin (h : Inv capable w) : Upholds capable (closePlugin capable) w := by
  have hrecover {u : Now} (hu : Inv capable u) :
      Upholds capable (do let _ ← recoverPluginCleanup capable .recoverClose) u := .seq (hu.recover _) fun _ _ ht ↦ .pure ht.1
  refine .bind (goes_seeing (.bind (goes_seeing ?_)))
  cases hst : w.now.state with
  | none => exact hrecover h
  | some st =>
    cases hi : w.now.registered with
    | none => exact hrecover h
    | some i => exact .seq (goes_closeProcess h hst hi) fun _ t ht ↦ hrecover ht

theorem goes_close (h : Inv capable w) : Upholds capable (Lifecycle.close capable) w := by
  refine .seq (goes_ask_inv h _ (by rfl)) ?_
  rintro alone t₁ ⟨h₁, -⟩
  cases alone with
  | false => exact .pure h₁
  | true =>
    refine .seq (goes_ask_inv h₁ _ (by rfl)) ?_
    rintro accepted t₂ ⟨h₂, -⟩
    cases accepted with
    | false => exact .returns (goes_lockSame h₂)
    | true =>
      exact .seq (goes_closePlugin h₂) fun _ t₃ h₃ ↦ .returns (goes_lockSame h₃)

theorem goes_restoreStart (h : Mid capable original none none v .settled w)
    (hcur : w.now.state = some cur) (henabled : cur.enabled)
    (hclear : cur.cleanupPending = false) : Upholds capable (restoreStart capable cur) w := by
  refine .bind (goes_question h.point rfl fun interrupted t₁ _ _ hstill ↦ ?_)
  have h₁ := h.still hstill
  have hcur₁ : t₁.now.state = some cur := hstill.state.trans hcur
  cases interrupted with
  | true =>
    exact .returns (goes_lockMild (inv_of_settled h₁) (mild_health .interrupted) rfl)
  | false =>
    have hclean := clean_of_settled h₁ (clear_of_entry hcur₁ hclear)
    have hlike : Like original cur := by
      obtain ⟨cur', hcur', hlike, -⟩ := h₁.state
      rw [hcur₁] at hcur'
      cases hcur'
      exact hlike
    refine .seq (hclean.start Site.noConfusion rfl (.inr rfl) (.inl rfl)) ?_
    rintro (_ | i) t₂ h₂
    · have hdone := inv_of_settled h₂
      refine .bind (goes_acting fun t₃ hnow hasked ↦ ?_)
      have hclimbs : Climbs capable t₂ t₃ :=
        (changes_of_mild hdone.point (mild_health .unhealthy)).climbs rfl (l := []) (by simp)
          hdone.moment.idle hnow hasked
      have h₃ : Inv capable t₃ := inv_of_mild hdone (mild_health .unhealthy)
        (by rw [hnow]) (by rw [hnow]) ⟨by rw [hnow]; rfl, by rw [hnow], [], by simp [hasked]⟩
        hclimbs.point.disk hclimbs.point.moment
      exact ⟨hclimbs, .returns (goes_lockSame h₃)⟩
    · obtain ⟨hmid, hruns, hstate, l, hlast⟩ := h₂
      have hkept : WellKept (restored cur) := ⟨(hlike.wellKept h.kept).revision, fun _ ↦ rfl⟩
      have hsets : Sets t₂.now { t₂.now with
          state := t₂.now.state.map restored, registered := some i } (restored cur) (some i) :=
        ⟨by rw [hstate, hcur₁, Option.map_some], rfl, rfl, rfl, rfl⟩
      have hchanges := hmid.changes hsets
        (renews_clear (clear_of_state hclean.known.1 hstate) rfl rfl) hkept
        hlike.desiredRevision.ge fun _ _ ↦ rfl
      refine .bind (goes_acting fun t₃ hnow hasked ↦ ?_)
      have hclimbs : Climbs capable t₂ t₃ := hchanges.climbs rfl (l := []) (by simp)
        (fun _ hrec ↦ absurd hrec (not_recovering rfl hlast)) hnow hasked
      have h₃ : Inv capable t₃ := hmid.up hruns ⟨by rw [hnow]; exact hsets.state,
        by rw [hnow], ⟨by rw [hnow]; rfl, by rw [hnow], [], by simp [hasked]⟩,
        hclimbs.point.disk, hclimbs.point.moment⟩ hkept henabled rfl
        fun hfalse ↦ by cases hfalse
      exact ⟨hclimbs, .returns (goes_lockSame h₃)⟩

theorem goes_restoreEnabled (h : Mid capable original none none v .settled w) :
    Upholds capable (restoreEnabled capable) w := by
  obtain ⟨cur, hcur, -, -⟩ := h.state
  refine .bind (goes_seeing ?_)
  rw [hcur]
  simp only []
  split
  · next hgo =>
    simp only [Bool.and_eq_true, Bool.not_eq_true'] at hgo
    obtain ⟨henabled, hclear⟩ := hgo
    refine .bind (goes_question h.point rfl fun monitored t₁ _ _ hstill₁ ↦ ?_)
    have h₁ := h.still hstill₁
    cases monitored with
    | false => exact goes_restoreStart h₁ (hstill₁.state.trans hcur) henabled hclear
    | true =>
      refine .bind (goes_question h₁.point rfl fun failures t₂ _ _ hstill ↦ ?_)
      have hstill₂ := hstill₁.trans hstill
      have h₂ := h.still hstill₂
      cases failures with
      | false =>
        exact .returns (goes_lockMild (inv_of_settled h₂) (mild_health .unhealthy) rfl)
      | true =>
        refine .bind (goes_question h₂.point rfl fun failing t₃ _ _ hstill ↦ ?_)
        have hstill₃ := hstill₂.trans hstill
        have h₃ := h.still hstill₃
        split
        · exact .pure (inv_of_settled h₃)
        · exact goes_restoreStart h₃ (hstill₃.state.trans hcur) henabled hclear
  · exact .pure (inv_of_settled h)

theorem inv_of_load (h : ∀ st ∈ w.now.disk, WellKept st) (hnow : t.now = w.now.load) :
    Inv capable t where
  state := by rw [hnow]; exact h
  disk := by rw [hnow]; exact h
  registered := fun i hi ↦ by
    rw [hnow] at hi
    cases hi
  ledger := ⟨fun _ i q hq ↦ by simp [hnow, Plugin.load] at hq, fun _ ↦ by rw [hnow]; rfl,
    fun _ q hq ↦ by simp [hnow, Plugin.load] at hq⟩
  debt := fun _ ↦ .inr (.inr fun q hq ↦ by simp [hnow, Plugin.load] at hq)
  moment := by
    have hreg : t.now.registered = none := by rw [hnow]; rfl
    refine ⟨hnow ▸ .load w.now, fun _ hsome ↦ ?_, fun _ _ ↦ hreg⟩
    rw [hreg] at hsome
    cases hsome

theorem goes_restore (h : ∀ st ∈ w.now.disk, WellKept st) (hnow : t.now = w.now.load) :
    Upholds capable (do
      let _ ← recoverPluginCleanup capable .recoverStart
      restoreEnabled capable) t := by
  have hinv : Inv capable t := inv_of_load h hnow
  cases hst : t.now.state with
  | none =>
    have hrecover : Goes (recoverPluginCleanup capable .recoverStart) t (Climbs capable) fun _ u ↦
        Inv capable u ∧ u.now.state = none := by
      refine .bind (goes_seeing ?_)
      rw [hst]
      exact .pure ⟨hinv, hst⟩
    refine .seq hrecover ?_
    rintro - u ⟨hu, hnone⟩
    refine .bind (goes_seeing ?_)
    rw [hnone]
    exact .pure hu
  | some st =>
    have hmid := (hinv.mid hst).known_as .settled fun _ ↦
      .inr fun q hq ↦ by simp [hnow, Plugin.load] at hq
    rw [show t.now.registered = none by rw [hnow]; rfl] at hmid
    exact .seq (hmid.recover _) fun _ u hu ↦ goes_restoreEnabled hu

theorem goes_program {task : Task} (h : Inv capable w) (hstart : task ≠ .start)
    (hobserve : task = .observe → w.now.exitedProcess) :
    Upholds capable (task.program capable) w := by
  cases task with
  | operation kind o repairReplay =>
    exact .returns (goes_execute h kind repairReplay)
  | install version => exact .returns (goes_installPrepared h version 0)
  | observe => exact goes_observeProcessExit h (hobserve rfl)
  | maintenance => exact goes_checkMaintenanceInstance h
  | close => exact goes_close h
  | save => exact .returns (goes_lockSame h)
  | start => exact absurd rfl hstart

end AnixAgent.Plugins.Tasks
