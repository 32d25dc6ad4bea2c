import AnixAgent.Plugins.Configurations
import AnixAgent.Plugins.Monitor

namespace AnixAgent.Plugins.Restarts

open Lib.Runs Lib.Crash Lib.Crash.Proc Lib.Answers Lifecycle Debts Frames Supervision Monitor List Option
open Journal (Kind Write operationMutatesState operationBlocksAutomaticRestore)

variable {α : Type} {capable : String → Bool} {I : Plugin → Prop} {w t u : Now} {site : Site}
  {o : Operation}

/-- What a predicate of the plugin has to survive to hold throughout the tasks that start no
process. -/
structure Lasting (I : Plugin → Prop) : Prop where
  clean : ∀ p version, I p → I (p.clean version)
  persist : ∀ p r, I p → I (p.persist r)
  leave : ∀ p i, I p → I (p.leave i)
  idle : ∀ p, I p → p.registered = none
  recovered : ∀ p version ok, I p → I { p with state := p.state.map (recovered version ok) }
  undone : ∀ p q, I p → I q → I { q with state := p.state }
  health : ∀ p health, I p → (∀ st ∈ p.state, st.enabled = true ∨ st.health = .unhealthy) →
    I { p with state := p.state.map fun st ↦ { st with health := health } }
  install : ∀ p version, I p → I { p with state := some (installed version 0 p.state) }
  load : ∀ p, I p → I p.load
  dead : ∀ p (saved : Bool), I p → I (if saved then { p with disk := p.state } else p).dead

theorem holds_verify (h : I w.now) (site : Site) (version : String) :
    Holds I (verifyInstalledVersion site version) w fun _ t ↦ t.now = w.now := by
  unfold verifyInstalledVersion
  split
  · exact .pure ⟨h, rfl⟩
  · exact (holds_ask h _).mono (fun _ hc ↦ hc) fun _ _ ht ↦ ⟨ht.1, ht.2.1⟩

theorem holds_writes (h : I w.now) (call : Call) (site : Site) :
    Holds I (writes call site) w fun _ t ↦ t.now = w.now := by
  refine .seq (holds_ask h _) ?_
  rintro b t ⟨ht, hnow, -⟩
  cases b with
  | true => exact .pure ⟨ht, hnow⟩
  | false =>
    refine .seq (holds_ask ht _) ?_
    rintro b u ⟨hu, hnow', -⟩
    cases b <;> exact .pure ⟨hu, hnow'.trans hnow⟩

theorem holds_locked {f : Plugin → Plugin} (h : I w.now) (hf : ∀ r, I ((f w.now).persist r)) :
    Holds I (locked site f) w fun _ t ↦ ∃ r, t.now = (f w.now).persist r := by
  refine .seq (holds_writes h _ _) ?_
  rintro r t ⟨-, hnow⟩
  refine .seq (holds_doing (by rw [hnow]; exact hf r)) ?_
  rintro - u ⟨hu, hnow', -⟩
  exact .pure ⟨hu, r, by rw [hnow', hnow]⟩

theorem holds_lockedOr {f : Plugin → Plugin} {undo : Plugin → Plugin → Plugin} (h : I w.now)
    (hf : ∀ r, I ((f w.now).persist r)) (hundo : ∀ r, I (undo w.now ((f w.now).persist r))) :
    Holds I (lockedOr site f undo) w fun _ t ↦ ∃ r, t.now = (f w.now).persist r ∨
      t.now = undo w.now ((f w.now).persist r) := by
  refine .seq (holds_writes h _ _) ?_
  rintro r t ⟨-, hnow⟩
  refine .seq (holds_doing ?_) ?_
  · rw [hnow]
    split
    · exact hf r
    · exact hundo r
  · rintro - u ⟨hu, hnow', -⟩
    rw [hnow] at hnow'
    refine .pure ⟨hu, r, ?_⟩
    split at hnow'
    · exact .inl hnow'
    · exact .inr hnow'

theorem Lasting.cleanup (hI : Lasting I) (h : I w.now) (site : Site) (version : String) :
    Holds I (cleanupInstalledVersion capable site version) w fun _ t ↦
      t.now.state = w.now.state := by
  unfold cleanupInstalledVersion
  split
  · refine .seq (holds_ask h _) ?_
    rintro b t ⟨ht, hnow, -⟩
    cases b with
    | false => exact .pure ⟨ht, congrArg Plugin.state hnow⟩
    | true =>
      refine .seq (holds_doing (hI.clean _ version ht)) ?_
      rintro - u ⟨hu, hnow', -⟩
      have hstate : u.now.state = w.now.state := by
        rw [hnow', hnow]
        rfl
      exact .pure ⟨hu, hstate⟩
  · exact .pure ⟨h, rfl⟩

theorem Lasting.cleanupIf (hI : Lasting I) (h : I w.now) (site : Site) (verified : Bool)
    (version : String) :
    Holds I (cleanupIf capable site verified version) w fun _ t ↦ t.now.state = w.now.state := by
  cases verified with
  | false => exact .pure ⟨h, rfl⟩
  | true => exact hI.cleanup h site version

def revisionOf (p : Plugin) : Option Nat := p.state.map (·.desiredRevision)

theorem desiredRevision_recovered (version : String) (ok : Bool) (st : PluginState) :
    (recovered version ok st).desiredRevision = st.desiredRevision := by
  unfold recovered
  split <;> rfl

theorem Lasting.recover (hI : Lasting I) (h : I w.now) (site : Site) :
    Holds I (recoverPluginCleanup capable site) w fun _ t ↦ revisionOf t.now = revisionOf w.now := by
  refine .bind (sat_seeing ?_)
  cases hst : w.now.state with
  | none => exact .pure ⟨h, rfl⟩
  | some persisted =>
    simp only []
    split
    · refine .seq (holds_verify h _ _) ?_
      rintro verified t₁ ⟨h₁, hnow₁⟩
      refine .seq (hI.cleanupIf h₁ _ _ _) ?_
      rintro cleaned t₂ ⟨h₂, hstate₂⟩
      refine .seq (holds_ask h₂ _) ?_
      rintro removed t₃ ⟨h₃, hnow₃, -⟩
      have hstate₃ : t₃.now.state = w.now.state := by rw [hnow₃, hstate₂, hnow₁]
      refine .seq (holds_lockedOr h₃ (fun r ↦ hI.persist _ r (hI.recovered _ _ _ h₃))
        fun r ↦ hI.undone _ _ h₃ (hI.persist _ r (hI.recovered _ _ _ h₃))) ?_
      rintro written t₄ ⟨h₄, r, hnow₄⟩
      refine .pure ⟨h₄, ?_⟩
      rcases hnow₄ with hnow₄ | hnow₄
      · rw [revisionOf, hnow₄, revisionOf, ← hstate₃, Upkeep.persist_state, Option.map_map]
        congr 1
        funext st
        exact desiredRevision_recovered _ _ st
      · rw [revisionOf, hnow₄, revisionOf, ← hstate₃]
    · exact .pure ⟨h, rfl⟩

theorem Lasting.lockHealth (hI : Lasting I) (h : I w.now)
    (hlive : ∀ st ∈ w.now.state, st.enabled ∨ st.health = .unhealthy) (health : Health) :
    Holds I (locked site fun p ↦ { p with
      state := p.state.map fun st ↦ { st with health := health } }) w fun _ _ ↦ True :=
  (holds_locked h fun r ↦ hI.persist _ r (hI.health _ health h hlive)).mono (fun _ hc ↦ hc)
    fun _ _ ht ↦ ⟨ht.1, trivial⟩

/-- The operations that start no process: one that is refused for its revision, and those that
only look, install or disable. -/
inductive Harmless (I : Plugin → Prop) (o : Operation) (repairReplay : Bool)
    (state : Option PluginState) : Kind → Prop
  | stale {kind : Kind} (hkind : operationMutatesState kind = true)
    (h : rejectStaleRevision o repairReplay state = true) : Harmless I o repairReplay state kind
  | inspect : Harmless I o repairReplay state .inspect
  | health : Harmless I o repairReplay state .health
  | install (h : ∀ p, I p → I { p with
      state := some (installed o.targetVersion o.revision p.state) }) :
    Harmless I o repairReplay state .install
  | disable (h : ∀ p safe removed owing version, I p → I { p with
      state := p.state.map (disabledAt o.revision safe removed owing)
      log := p.log ++ noted owing version }) : Harmless I o repairReplay state .disable

variable {state state' : Option PluginState}

theorem stale_congr (repairReplay : Bool)
    (h : state'.map (·.desiredRevision) = state.map (·.desiredRevision)) :
    rejectStaleRevision o repairReplay state' = rejectStaleRevision o repairReplay state := by
  have hmap (state : Option PluginState) : rejectStaleRevision o repairReplay state =
      (state.map (·.desiredRevision)).any fun desired ↦ o.revision < desired ||
        (!repairReplay && o.revision = desired) := by
    cases state <;> rfl
  rw [hmap, h, hmap]

theorem Lasting.installPrepared (hI : Lasting I) (h : I w.now) (version : String) (revision : Nat)
    (hinstall : ∀ p, I p → I { p with state := some (installed version revision p.state) }) :
    Holds I (installPrepared version revision) w fun _ _ ↦ True := by
  refine .seq (holds_ask h _) ?_
  rintro accepted t ⟨ht, -⟩
  cases accepted with
  | false => exact .pure ⟨ht, trivial⟩
  | true =>
    rw [if_pos rfl]
    have hpersist (r : Write) := hI.persist _ r (hinstall _ ht)
    exact Sat.mono (holds_lockedOr ht hpersist fun r ↦ hI.undone _ _ ht (hpersist r))
      (fun _ hc ↦ hc) fun _ _ hu ↦ ⟨hu.1, trivial⟩

theorem Lasting.healthCheck (hI : Lasting I) (h : I w.now) :
    Holds I healthCheck w fun _ _ ↦ True := by
  refine .bind (sat_seeing ?_)
  cases hst : w.now.state with
  | none => exact .pure ⟨h, trivial⟩
  | some st =>
    simp only []
    split
    · next henabled =>
      have hlive {t : Now} (hnow : t.now = w.now) :
          ∀ st ∈ t.now.state, st.enabled ∨ st.health = .unhealthy := by
        rintro st' hst'
        rw [hnow, hst] at hst'
        cases hst'
        exact .inl henabled
      refine .seq (holds_ask h _) ?_
      rintro healthy t ⟨ht, hnow, -⟩
      cases healthy with
      | true => exact hI.lockHealth ht (hlive hnow) _
      | false =>
        exact .returns (.returns (hI.lockHealth ht (hlive hnow) _))
    · exact .pure ⟨h, trivial⟩

theorem Lasting.disable (hI : Lasting I) (h : I w.now)
    (hdisable : ∀ p safe removed owing version, I p → I { p with
      state := p.state.map (disabledAt o.revision safe removed owing)
      log := p.log ++ noted owing version }) :
    Holds I (disable capable o) w fun _ _ ↦ True := by
  refine .bind (sat_seeing ?_)
  cases hst : w.now.state with
  | none => exact .pure ⟨h, trivial⟩
  | some original =>
    simp only []
    split
    · exact .pure ⟨h, trivial⟩
    refine .bind (sat_seeing ?_)
    rw [hI.idle _ h]
    have hremoved : w.now.removeProcess = w.now := by
      rw [Plugin.removeProcess, ← hI.idle _ h]
    refine .seq (holds_doing (by rw [hremoved]; exact h)) ?_
    rintro - t₁ ⟨h₁, -⟩
    refine .seq (holds_verify h₁ _ _) ?_
    rintro verified t₂ ⟨h₂, -⟩
    refine .bind (.pure (.seq (hI.cleanupIf h₂ _ _ _) ?_))
    rintro cleaned t₃ ⟨h₃, -⟩
    refine .seq (holds_ask h₃ _) ?_
    rintro removed t₄ ⟨h₄, -⟩
    exact .seq (holds_locked h₄ fun r ↦ hI.persist _ r (hdisable _ _ _ _ _ h₄))
      fun _ _ ht ↦ .pure ⟨ht.1, trivial⟩

variable {repairReplay : Bool}

theorem Lasting.executeOperation (hI : Lasting I) (h : I w.now) {kind : Kind}
    (hkind : Harmless I o repairReplay w.now.state kind) :
    Holds I (executeOperation capable kind o repairReplay) w fun _ _ ↦ True := by
  refine .bind (sat_seeing ?_)
  split
  · exact .pure ⟨h, trivial⟩
  next hgo =>
  cases hkind with
  | stale hmutates hstale =>
    rw [hmutates, hstale] at hgo
    exact absurd rfl hgo
  | inspect =>
    rw [executePreparedOperation]
    exact sat_seeing ⟨h, trivial⟩
  | health => exact hI.healthCheck h
  | install hinstall => exact hI.installPrepared h _ _ hinstall
  | disable hdisable => exact hI.disable h hdisable

theorem Harmless.of_state {kind : Kind} (h : Harmless I o repairReplay state kind)
    (hrevision : state'.map (·.desiredRevision) = state.map (·.desiredRevision)) :
    Harmless I o repairReplay state' kind := by
  cases h with
  | stale hkind hstale => exact .stale hkind (by rw [stale_congr _ hrevision, hstale])
  | inspect => exact .inspect
  | health => exact .health
  | install h => exact .install h
  | disable h => exact .disable h

theorem Lasting.execute (hI : Lasting I) (h : I w.now) {kind : Kind}
    (hkind : Harmless I o repairReplay w.now.state kind) :
    Holds I (execute capable kind o repairReplay) w fun _ _ ↦ True := by
  refine .seq (holds_ask h _) ?_
  rintro accepted t₁ ⟨h₁, hnow₁, -⟩
  rw [← hnow₁] at hkind
  cases accepted with
  | false => exact .pure ⟨h₁, trivial⟩
  | true =>
    rw [if_pos rfl]
    split
    · refine .seq (hI.recover h₁ _) ?_
      rintro recovered t₂ ⟨h₂, hrevision⟩
      cases recovered with
      | false => exact .pure ⟨h₂, trivial⟩
      | true => exact hI.executeOperation h₂ (hkind.of_state hrevision)
    · exact hI.executeOperation h₁ hkind

theorem Lasting.close (hI : Lasting I) (h : I w.now) :
    Holds I (Lifecycle.close capable) w fun _ _ ↦ True := by
  have hsave {t : Now} (ht : I t.now) : Holds I (do let _ ← locked .close id) t fun _ _ ↦ True :=
    .seq (holds_locked ht fun r ↦ hI.persist _ r ht) fun _ _ hu ↦ .pure ⟨hu.1, trivial⟩
  refine .seq (holds_ask h _) ?_
  rintro alone t₁ ⟨h₁, -⟩
  cases alone with
  | false => exact .pure ⟨h₁, trivial⟩
  | true =>
    refine .seq (holds_ask h₁ _) ?_
    rintro accepted t₂ ⟨h₂, -⟩
    cases accepted with
    | false => exact hsave h₂
    | true =>
      refine .seq ?_ fun _ _ ht ↦ hsave ht
      refine .bind (sat_seeing (.bind (sat_seeing ?_)))
      rw [hI.idle _ h₂]
      have hrecover : Sat (do let _ ← recoverPluginCleanup capable .recoverClose) t₂
          (fun t ↦ I t.now) fun _ t ↦ I t.now :=
        .seq (hI.recover h₂ _) fun _ _ ht ↦ .pure ht.1
      cases t₂.now.state <;> exact hrecover

theorem Lasting.program (hI : Lasting I) (h : I w.now) {task : Task} (hstart : task ≠ .start)
    (hobserve : task ≠ .observe) (hmaintenance : task ≠ .maintenance)
    (hoperation : ∀ kind o repairReplay, task = .operation kind o repairReplay →
      Harmless I o repairReplay w.now.state kind) :
    Holds I (task.program capable) w fun _ _ ↦ True := by
  cases task with
  | operation kind o repairReplay =>
    exact .returns (hI.execute h (hoperation kind o repairReplay rfl))
  | install version =>
    exact .returns (hI.installPrepared h version 0 fun p ↦ hI.install p version)
  | close => exact hI.close h
  | save => exact .seq (holds_locked h fun r ↦ hI.persist _ r h) fun _ _ ht ↦ .pure ⟨ht.1, trivial⟩
  | observe => exact absurd rfl hobserve
  | maintenance => exact absurd rfl hmaintenance
  | start => exact absurd rfl hstart

theorem grows_verify (site : Site) (version : String) :
    Grows (verifyInstalledVersion site version) :=
  .ite (.pure _) (grows_ask _)

theorem grows_locked (site : Site) (f : Plugin → Plugin) : Grows (locked site f) :=
  .bind (.bind (grows_ask _) fun _ ↦ .ite (.pure _) (.bind (grows_ask _) fun _ ↦
    .ite (.pure _) (.pure _))) fun _ ↦ .bind (grows_doing _) fun _ ↦ .pure _

theorem grows_lockedOr (site : Site) (f : Plugin → Plugin) (undo : Plugin → Plugin → Plugin) :
    Grows (lockedOr site f undo) :=
  .bind (.bind (grows_ask _) fun _ ↦ .ite (.pure _) (.bind (grows_ask _) fun _ ↦
    .ite (.pure _) (.pure _))) fun _ ↦ .bind (grows_doing _) fun _ ↦ .pure _

theorem grows_stop (site : Site) (process : Option Nat) : Grows (stopProcess site process) := by
  cases process with
  | none => exact .pure _
  | some i =>
    exact .bind (grows_ask _) fun _ ↦ .ite (.bind (grows_doing _) fun _ ↦ .pure _)
      (.bind (grows_ask _) fun _ ↦ .ite (.bind (grows_doing _) fun _ ↦ .pure _) (.pure _))

theorem grows_cleanup (site : Site) (version : String) :
    Grows (cleanupInstalledVersion capable site version) :=
  .ite (.bind (grows_ask _) fun _ ↦ .ite (.bind (grows_doing _) fun _ ↦ .pure _) (.pure _))
    (.pure _)

theorem grows_mark (site : Site) (version : String) : Grows (markCleanupPending site version) :=
  .bind (grows_locked _ _) fun _ ↦ .pure _

theorem grows_startVersion (site : Site) (version : String) :
    Grows (startVersion capable site version) :=
  .bind (grows_verify _ _) fun _ ↦ .ite (.bind (grows_ask _) fun _ ↦ .ite
      (.bind (grows_seeing _) fun _ ↦ .bind (grows_doing _) fun _ ↦ .bind (grows_ask _) fun _ ↦
        .ite (.pure _) (.bind (grows_stop _ _) fun _ ↦ .bind (grows_cleanup _ _) fun _ ↦
          .ite (.bind (grows_mark _ _) fun _ ↦ .pure _) (.pure _)))
      (.pure _))
    (.pure _)

theorem grows_restartStart (original : PluginState) : Grows (restartStart capable original) := by
  refine .bind (grows_startVersion _ _) fun process ↦ ?_
  cases process with
  | none => exact .bind (grows_locked _ _) fun _ ↦ .pure _
  | some i =>
    exact .bind (grows_lockedOr _ _ _) fun _ ↦
      .ite (.pure _) (.bind (grows_stop _ _) fun _ ↦ .pure _)

theorem grows_restartMaintenanceInstance (original : PluginState) (process : Option Nat) :
    Grows (restartMaintenanceInstance capable original process) := by
  refine .bind (grows_doing _) fun _ ↦ .bind (.bind (grows_stop _ _) fun _ ↦
    .bind (grows_cleanup _ _) fun _ ↦ .pure _) ?_
  rintro ⟨pending, ok⟩
  exact .ite (.bind (grows_ask _) fun _ ↦ .ite (grows_restartStart _) (.pure _))
    (.bind (.bind (grows_locked _ _) fun _ ↦ .pure _) fun _ ↦ .ite (grows_mark _ _) (.pure _))

variable {l : List (Query × Bool)}

theorem told_append {q : Query} {b : Bool} (h : told l q = some b)
    (l' : List (Query × Bool)) : told (l ++ l') q = some b := by
  obtain ⟨x, hx, rfl⟩ := map_eq_some_iff.mp h
  rw [told, find?_append, hx]
  rfl

structure Faulty (st : PluginState) (process : Option Nat) (l : List (Query × Bool)) : Prop where
  clear : st.cleanupPending = false
  verified : told l (.verify, .maintenance) = some true
  accepted : told l (.accept, .maintenance) = some true
  fault : process = none ∨ told l (.health, .maintenance) = some false

variable {st : PluginState}

theorem Faulty.append {process : Option Nat}
    (h : Faulty st process l) (l' : List (Query × Bool)) : Faulty st process (l ++ l') :=
  ⟨h.clear, told_append h.verified l', told_append h.accepted l', h.fault.imp id (told_append · l')⟩

theorem Faulty.errorCode {process : Option Nat}
    (h : Faulty st process l) (lastError : String) (failure : Failure) :
    errorCode st process lastError failure l =
      if process = none then exitCode lastError else maintenanceErrorCode failure := by
  unfold Monitor.errorCode
  rw [h.verified, h.accepted, h.clear]
  rcases h.fault with rfl | hhealth
  · rfl
  · simp [hhealth]

theorem holds_probe (h : I w.now) (st : PluginState) (process : Option Nat) :
    Holds I (probe st process) w fun fault t ↦ t.now = w.now ∧ ∃ l, t.asked = w.asked ++ l ∧
      (fault = .restartable → Faulty st process l) := by
  have hverify : Holds I (verifyInstalledVersion .maintenance st.desiredVersion) w fun b t ↦
      t.now = w.now ∧ ∃ l, t.asked = w.asked ++ l ∧ (b → l = [((.verify, .maintenance), b)]) := by
    unfold verifyInstalledVersion
    split
    · exact .pure ⟨h, rfl, [], by simp, nofun⟩
    · exact (holds_ask h _).mono (fun _ hc ↦ hc) fun _ _ ht ↦ ⟨ht.1, ht.2.1, _, ht.2.2, fun _ ↦ rfl⟩
  refine .seq hverify ?_
  rintro verified t₁ ⟨h₁, hnow₁, l, hl, hverified⟩
  cases verified with
  | false => exact .pure ⟨h₁, hnow₁, l, hl, nofun⟩
  | true =>
    obtain rfl := hverified rfl
    refine .seq (holds_ask h₁ _) ?_
    rintro accepted t₂ ⟨h₂, hnow₂, hasked₂⟩
    rw [hl, append_assoc] at hasked₂
    have hnow₂' := hnow₂.trans hnow₁
    cases accepted with
    | false => exact .pure ⟨h₂, hnow₂', _, hasked₂, nofun⟩
    | true =>
      rw [if_pos rfl]
      split
      · exact .pure ⟨h₂, hnow₂', _, hasked₂, nofun⟩
      next hclear =>
      rw [Bool.not_eq_true] at hclear
      cases process with
      | none => exact .pure ⟨h₂, hnow₂', _, hasked₂, fun _ ↦ ⟨hclear, rfl, rfl, .inl rfl⟩⟩
      | some i =>
        refine .seq (holds_ask h₂ _) ?_
        rintro healthy t₃ ⟨h₃, hnow₃, hasked₃⟩
        rw [hasked₂, append_assoc] at hasked₃
        have hnow₃' := hnow₃.trans hnow₂'
        cases healthy with
        | true => exact .pure ⟨h₃, hnow₃', _, hasked₃, nofun⟩
        | false =>
          exact .pure ⟨h₃, hnow₃', _, hasked₃, fun _ ↦ ⟨hclear, rfl, rfl, .inr rfl⟩⟩

structure Tripped (w t : Now) (st : PluginState) : Prop where
  state : w.now.state = some st
  live : st.enabled = true ∨ st.health = .unhealthy
  faulty : Faulty st w.now.registered (answered w t)
  restart : ((.restart, .maintenance), true) ∈ answered w t

theorem Tripped.later (h : Tripped w t st) (hw : w.asked <+: t.asked)
    (ht : t.asked <+: u.asked) : Tripped w u st where
  state := h.state
  live := h.live
  faulty := by
    rw [answered_trans hw ht]
    exact h.faulty.append _
  restart := answered_later h.restart hw ht

theorem spared_maintenance (hpersist : ∀ p r, I p → I (p.persist r))
    (hhealth : ∀ p health, I p → (∀ st ∈ p.state, st.enabled ∨ st.health = .unhealthy) →
      I { p with state := p.state.map fun st ↦ { st with health := health } }) (h : I w.now) :
    Sat (checkMaintenanceInstance capable) w (fun t ↦ I t.now ∨ ∃ st, Tripped w t st)
      fun _ t ↦ I t.now ∨ ∃ st, Tripped w t st := by
  refine .bind (sat_seeing ?_)
  cases hst : w.now.state with
  | none => exact .pure (.inl h)
  | some st =>
    simp only []
    split
    · exact .pure (.inl h)
    next hgo =>
    have hlive : st.enabled ∨ st.health = .unhealthy := by
      by_contra hcon
      simp only [not_or, Bool.not_eq_true] at hcon
      simp [hcon.1, hcon.2] at hgo
    refine .bind (sat_seeing ?_)
    refine .seq ((holds_probe h st _).mono (fun _ ↦ .inl) fun _ _ ↦ id) ?_
    rintro fault t₁ ⟨h₁, hnow₁, l₁, hasked₁, hfaulty⟩
    refine .seq (Sat.mono (holds_ask h₁ _) (fun _ ↦ .inl) fun _ _ ↦ id) ?_
    rintro observed t₂ ⟨h₂, hnow₂, hasked₂⟩
    cases observed with
    | false => exact .pure (.inl h₂)
    | true =>
      have hjudged (health : Health) :
          I { t₂.now with state := t₂.now.state.map fun st ↦ { st with health := health } } := by
        refine hhealth _ _ h₂ ?_
        rw [hnow₂, hnow₁, hst]
        intro st' hst'
        rw [← mem_some_iff.mp hst']
        exact hlive
      refine .seq (Sat.mono ((holds_locked h₂ fun r ↦ hpersist _ r (hjudged _)).and
        (grows_locked _ _ t₂)) (fun _ hc ↦ .inl hc.1) fun _ _ ↦ id) ?_
      rintro written t₃ ⟨⟨h₃, -⟩, hasked₃⟩
      split
      · next hfault =>
        rw [Bool.and_eq_true, decide_eq_true_eq] at hfault
        refine .seq (Sat.mono (holds_ask h₃ _) (fun _ ↦ .inl) fun _ _ ↦ id) ?_
        rintro restart t₄ ⟨h₄, -, hasked₄⟩
        cases restart with
        | false => exact .pure (.inl h₄)
        | true =>
          obtain ⟨l₃, hl₃⟩ := hasked₃
          rw [← hl₃, hasked₂, hasked₁] at hasked₄
          simp only [append_assoc] at hasked₄
          have htripped : Tripped w t₄ st := by
            refine ⟨hst, hlive, ?_, ?_⟩
            · rw [answered_append hasked₄]
              exact (hfaulty hfault.2).append _
            · rw [answered_append hasked₄]
              simp
          have hw : w.asked <+: t₄.asked := ⟨_, hasked₄.symm⟩
          rw [if_pos rfl]
          exact Sat.mono (grows_restartMaintenanceInstance _ _ t₄)
            (fun _ hu ↦ .inr ⟨st, htripped.later hw hu⟩)
            fun _ _ hu ↦ .inr ⟨st, htripped.later hw hu⟩
      · exact .pure (.inl h₃)

theorem grows_recover (site : Site) : Grows (recoverPluginCleanup capable site) := by
  refine .bind (grows_seeing _) fun state ↦ ?_
  cases state with
  | none => exact .pure _
  | some persisted =>
    exact .ite (.bind (grows_verify _ _) fun _ ↦ .bind (.ite (grows_cleanup _ _) (.pure _)) fun _ ↦
      .bind (grows_ask _) fun _ ↦ .bind (grows_lockedOr _ _ _) fun _ ↦ .pure _) (.pure _)

structure Resumed (I : Plugin → Prop) (w t : Now) : Prop where
  disk : w.now.disk ≠ none
  enabled : ∃ p, I p ∧ ∃ st ∈ p.state, st.enabled = true
  interrupted : ((.interrupted, .restore), false) ∈ answered w t

theorem Lasting.restoreStart (hI : Lasting I) (h : I t.now) (hst : t.now.state = some st)
    (henabled : st.enabled) (hdisk : w.now.disk ≠ none) (hw : w.asked <+: t.asked) :
    Sat (restoreStart capable st) t (fun u ↦ I u.now ∨ Resumed I w u)
      fun _ u ↦ I u.now ∨ Resumed I w u := by
  refine .seq (Sat.mono (holds_ask h _) (fun _ ↦ .inl) fun _ _ ↦ id) ?_
  rintro interrupted t₁ ⟨h₁, hnow₁, hasked₁⟩
  cases interrupted with
  | true =>
    rw [if_pos rfl]
    have hlive : ∀ st ∈ t₁.now.state, st.enabled ∨ st.health = .unhealthy := by
      intro st' hst'
      rw [hnow₁, hst, mem_some_iff] at hst'
      exact .inl (hst' ▸ henabled)
    exact .seq (Sat.mono (hI.lockHealth h₁ hlive _) (fun _ ↦ .inl) fun _ _ ht ↦ ht.1)
      fun _ _ ht ↦ .pure (.inl ht)
  | false =>
    have hresumed (u : Now) (hu : t₁.asked <+: u.asked) : Resumed I w u := by
      have hfirst : ((.interrupted, .restore), false) ∈ answered t t₁ := by
        rw [answered_append hasked₁]
        exact mem_singleton_self _
      have hgrown : t.asked <+: t₁.asked := ⟨_, hasked₁.symm⟩
      exact ⟨hdisk, ⟨t.now, h, st, hst, henabled⟩,
        answered_later (answered_earlier hfirst hw hgrown) (hw.trans hgrown) hu⟩
    refine Sat.mono ((?_ : Grows _) t₁) (fun u hu ↦ .inr (hresumed u hu))
      fun _ u hu ↦ .inr (hresumed u hu)
    exact .bind (grows_startVersion _ _) fun _ ↦ .bind (grows_doing _) fun _ ↦
      .bind (grows_locked _ _) fun _ ↦ .pure _

theorem Lasting.restoreEnabled (hI : Lasting I) (h : I t.now)
    (hdisk : t.now.state ≠ none → w.now.disk ≠ none) (hw : w.asked <+: t.asked) :
    Sat (restoreEnabled capable) t (fun u ↦ I u.now ∨ Resumed I w u)
      fun _ u ↦ I u.now ∨ Resumed I w u := by
  refine .bind (sat_seeing ?_)
  cases hst : t.now.state with
  | none => exact .pure (.inl h)
  | some st =>
    simp only []
    have hdisk := hdisk (by rw [hst]; nofun)
    split
    · next hgo =>
      have henabled : st.enabled := (Bool.and_eq_true_iff.mp hgo).1
      have hask {u : Now} (hu : I u.now) (q : Query) :
          Sat (ask q) u (fun u ↦ I u.now ∨ Resumed I w u) fun b v ↦
            I v.now ∧ v.now = u.now ∧ v.asked = u.asked ++ [(q, b)] :=
        (holds_ask hu q).mono (fun _ ↦ .inl) fun _ _ ↦ id
      refine .seq (hask h _) ?_
      rintro monitored t₁ ⟨h₁, hnow₁, hasked₁⟩
      have hw₁ : w.asked <+: t₁.asked := hw.trans ⟨_, hasked₁.symm⟩
      have hst₁ : t₁.now.state = some st := by rw [hnow₁, hst]
      cases monitored with
      | false => exact hI.restoreStart h₁ hst₁ henabled hdisk hw₁
      | true =>
        refine .seq (hask h₁ _) ?_
        rintro failures t₂ ⟨h₂, hnow₂, hasked₂⟩
        have hw₂ : w.asked <+: t₂.asked := hw₁.trans ⟨_, hasked₂.symm⟩
        have hst₂ : t₂.now.state = some st := by rw [hnow₂, hst₁]
        cases failures with
        | false =>
          have hlive : ∀ st ∈ t₂.now.state, st.enabled ∨ st.health = .unhealthy := by
            intro st' hst'
            rw [hst₂, mem_some_iff] at hst'
            exact .inl (hst' ▸ henabled)
          exact .seq (Sat.mono (hI.lockHealth h₂ hlive _) (fun _ ↦ .inl) fun _ _ ht ↦ ht.1)
            fun _ _ ht ↦ .pure (.inl ht)
        | true =>
          refine .seq (hask h₂ _) ?_
          rintro failing t₃ ⟨h₃, hnow₃, hasked₃⟩
          split
          · exact .pure (.inl h₃)
          · exact hI.restoreStart h₃ (by rw [hnow₃, hst₂]) henabled hdisk
              (hw₂.trans ⟨_, hasked₃.symm⟩)
    · exact .pure (.inl h)

theorem Lasting.newSupervisor (hI : Lasting I) (h : I w.now) :
    Sat (newSupervisor capable) w (fun t ↦ I t.now ∨ Resumed I w t)
      fun _ t ↦ I t.now ∨ Resumed I w t := by
  refine .seq (Sat.mono (holds_doing (hI.load _ h)) (fun _ ↦ .inl) fun _ _ ↦ id) ?_
  rintro - t₁ ⟨h₁, hnow₁, hasked₁⟩
  refine .seq (Sat.mono ((hI.recover h₁ _).and (grows_recover _ t₁)) (fun _ hc ↦ .inl hc.1)
    fun _ _ ↦ id) ?_
  rintro - t₂ ⟨⟨h₂, hrevision⟩, hasked₂⟩
  refine hI.restoreEnabled h₂ ?_ (hasked₁ ▸ hasked₂)
  intro hstate hdisk
  have hloaded : revisionOf t₁.now = none := by
    rw [revisionOf, hnow₁, Plugin.load, hdisk]
    rfl
  rw [hloaded, revisionOf, map_eq_none_iff] at hrevision
  exact hstate hrevision

theorem unstarted_append {n : Nat} {log l : List Deed} (hlength : n ≤ log.length)
    (hold : ∀ version, .started version ∉ log.drop n) (hnew : ∀ version, .started version ∉ l) :
    n ≤ (log ++ l).length ∧ ∀ version, .started version ∉ (log ++ l).drop n := by
  rw [length_append, drop_append_of_le_length hlength]
  refine ⟨hlength.trans (Nat.le_add_right _ _), fun version hmem ↦ ?_⟩
  rcases mem_append.mp hmem with hmem | hmem
  · exact hold version hmem
  · exact hnew version hmem

structure Rest (B : PluginState → Prop) (n : Nat) (p : Plugin) : Prop where
  state : ∀ st ∈ p.state, B st
  disk : ∀ st ∈ p.disk, B st
  registered : p.registered = none
  length : n ≤ p.log.length
  log : ∀ version, .started version ∉ p.log.drop n

variable {B : PluginState → Prop} {n : Nat}

theorem Rest.grow {p q : Plugin} (h : Rest B n p) {l : List Deed} (hstate : ∀ st ∈ q.state, B st)
    (hdisk : ∀ st ∈ q.disk, B st) (hregistered : q.registered = none)
    (hlog : q.log = p.log ++ l) (hl : ∀ version, .started version ∉ l) : Rest B n q where
  state := hstate
  disk := hdisk
  registered := hregistered
  length := hlog ▸ (unstarted_append h.length h.log hl).1
  log := hlog ▸ (unstarted_append h.length h.log hl).2

theorem Rest.map {p : Plugin} (h : Rest B n p) {f : PluginState → PluginState}
    (hf : ∀ st ∈ p.state, B (f st)) : Rest B n { p with state := p.state.map f } := by
  refine h.grow (l := []) ?_ h.disk h.registered (by simp) nofun
  intro st hst
  obtain ⟨st', hst', rfl⟩ := Option.mem_map.mp hst
  exact hf st' hst'

theorem Rest.save {p : Plugin} (h : Rest B n p) : Rest B n { p with disk := p.state } :=
  h.grow (l := []) h.state h.state h.registered (by simp) nofun

theorem Rest.persist {p : Plugin} (h : Rest B n p) (r : Write) : Rest B n (p.persist r) := by
  unfold Plugin.persist
  split
  · exact h.grow h.state h.state h.registered rfl (by simp)
  · exact h

theorem lasting_rest (hrecovered : ∀ version ok st, B st → B (recovered version ok st))
    (hhealth : ∀ st health, B st → st.enabled ∨ st.health = .unhealthy →
      B { st with health := health })
    (hinstall : ∀ version, B (installed version 0 none)) : Lasting (Rest B n) where
  clean p version h := h.grow h.state h.disk h.registered rfl (by simp)
  persist p r h := h.persist r
  leave p i h := h.grow (l := []) h.state h.disk h.registered (by simp [Plugin.leave]) (by simp)
  idle p h := h.registered
  recovered p version ok h := h.map fun st hst ↦ hrecovered version ok st (h.state st hst)
  undone p q hp hq := hq.grow (l := []) hp.state hq.disk hq.registered (by simp) (by simp)
  health p health h hlive := h.map fun st hst ↦ hhealth st health (h.state st hst) (hlive st hst)
  install p version h := by
    refine h.grow (l := []) ?_ h.disk h.registered (by simp) (by simp)
    rintro st ⟨⟩
    cases hst : p.state with
    | none => exact hinstall version
    | some st => exact h.state st hst
  load p h := h.grow h.disk h.disk rfl rfl (by simp)
  dead p saved h := by
    have hsaved : Rest B n (if saved then { p with disk := p.state } else p) := by
      split
      · exact h.save
      · exact h
    exact hsaved.grow (by rintro _ ⟨⟩) hsaved.disk rfl rfl (by simp)

end AnixAgent.Plugins.Restarts
