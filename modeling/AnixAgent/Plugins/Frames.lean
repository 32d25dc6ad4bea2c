import AnixAgent.Plugins.Upkeep

namespace AnixAgent.Plugins.Frames

open Lib.Crash Lib.Crash.Proc Lib.Answers Lifecycle Debts Upkeep List
open Journal (Write)

abbrev Ends {α : Type} (p : Supervised α) (w : Now) (Q : α → Now → Prop) : Prop :=
  Sat p w (fun _ ↦ True) Q

variable {α : Type} {capable : String → Bool} {original st : PluginState} {version : String}
  {w t u : Now} {site : Site}

variable {Q R : α → Now → Prop}

theorem ends_of_goes {p : Supervised α} {G : Now → Now → Prop} (h : Goes p w G Q) : Ends p w Q :=
  ⟨fun _ _ ↦ trivial, h.ends⟩

theorem Ends.and {p : Supervised α} (h : Ends p w Q) (h' : Ends p w R) :
    Ends p w fun a t ↦ Q a t ∧ R a t :=
  ⟨fun _ _ ↦ trivial, h.ends, h'.ends⟩

theorem Ends.imp {p : Supervised α} (h : Ends p w Q) (hQ : ∀ a t, Q a t → R a t) : Ends p w R :=
  h.mono (fun _ hc ↦ hc) hQ

def Deed.quiet : Deed → Bool
  | .wrote _ | .secrets .. => false
  | _ => true

/-- The answers after which a registered process is replaced: a `configure` could read the old
`config.json`, or a health check of the process failed. -/
def replaces : Query × Bool → Bool
  | ((.readConfig, .configure), true) | ((.health, .refresh), false) => true
  | _ => false

structure Steady (w t : Now) : Prop where
  config : t.now.config = w.now.config
  log : ∃ l, t.now.log = w.now.log ++ l ∧ ∀ d ∈ l, Deed.quiet d = true
  places : ∀ (i : Nat) q, w.now.processes[i]? = some q →
    ∃ q', t.now.processes[i]? = some q' ∧ q'.version = q.version ∧ q'.since = q.since
  asked : w.asked <+: t.asked

def Mute (w t : Now) : Prop := ∃ l, t.asked = w.asked ++ l ∧ ∀ x ∈ l, replaces x = false

structure Calm (w t : Now) : Prop extends Steady w t where
  mute : Mute w t

theorem Steady.of_eq (hnow : t.now = w.now) (hasked : w.asked <+: t.asked) : Steady w t where
  config := by rw [hnow]
  log := ⟨[], by simp [hnow], by simp⟩
  places := fun i q hq ↦ ⟨q, by rw [hnow]; exact hq, rfl, rfl⟩
  asked := hasked

theorem Steady.trans (h : Steady w t) (h' : Steady t u) : Steady w u where
  config := h'.config.trans h.config
  log := by
    obtain ⟨l, hl, hquiet⟩ := h.log
    obtain ⟨l', hl', hquiet'⟩ := h'.log
    refine ⟨l ++ l', by rw [hl', hl, append_assoc], fun d hd ↦ ?_⟩
    exact (mem_append.mp hd).elim (hquiet d) (hquiet' d)
  places := fun i q hq ↦ by
    obtain ⟨q', hq', hversion, hsince⟩ := h.places i q hq
    obtain ⟨q'', hq'', hversion', hsince'⟩ := h'.places i q' hq'
    exact ⟨q'', hq'', hversion'.trans hversion, hsince'.trans hsince⟩
  asked := h.asked.trans h'.asked

theorem Mute.asked (h : Mute w t) : w.asked <+: t.asked := by
  obtain ⟨l, hl, -⟩ := h
  exact hl ▸ prefix_append _ _

theorem Mute.trans (h : Mute w t) (h' : Mute t u) : Mute w u := by
  obtain ⟨l, hl, hmute⟩ := h
  obtain ⟨l', hl', hmute'⟩ := h'
  refine ⟨l ++ l', by rw [hl', hl, append_assoc], fun x hx ↦ ?_⟩
  exact (mem_append.mp hx).elim (hmute x) (hmute' x)

theorem Mute.of_asked (h : Mute w t) (hasked : u.asked = t.asked) : Mute w u := by
  obtain ⟨l, hl, hmute⟩ := h
  exact ⟨l, hasked.trans hl, hmute⟩

variable {l : List (Query × Bool)}

theorem Calm.of_eq (hnow : t.now = w.now)
    (hasked : t.asked = w.asked ++ l) (hl : ∀ x ∈ l, replaces x = false) : Calm w t :=
  ⟨.of_eq hnow (hasked ▸ prefix_append _ _), l, hasked, hl⟩

theorem Calm.refl (w : Now) : Calm w w := .of_eq (l := []) rfl (by simp) (by simp)

theorem Calm.trans (h : Calm w t) (h' : Calm t u) : Calm w u :=
  ⟨h.toSteady.trans h'.toSteady, h.mute.trans h'.mute⟩

structure Aside (w t : Now) : Prop where
  calm : Calm w t
  state : t.now.state = w.now.state
  registered : t.now.registered = w.now.registered

theorem Aside.of_eq (hnow : t.now = w.now)
    (hasked : t.asked = w.asked ++ l) (hl : ∀ x ∈ l, replaces x = false) : Aside w t :=
  ⟨.of_eq hnow hasked hl, by rw [hnow], by rw [hnow]⟩

theorem Aside.refl (w : Now) : Aside w w := .of_eq (l := []) rfl (by simp) (by simp)

theorem Aside.trans (h : Aside w t) (h' : Aside t u) : Aside w u :=
  ⟨h.calm.trans h'.calm, h'.state.trans h.state, h'.registered.trans h.registered⟩

def answered (w t : Now) : List (Query × Bool) := t.asked.drop w.asked.length

theorem answered_append (h : t.asked = w.asked ++ l) : answered w t = l := by
  rw [answered, h, drop_left]

theorem answered_trans (h : w.asked <+: t.asked) (h' : t.asked <+: u.asked) :
    answered w u = answered w t ++ answered t u := by
  obtain ⟨l, hl⟩ := h
  obtain ⟨l', hl'⟩ := h'
  rw [answered_append hl.symm, answered_append hl'.symm]
  exact answered_append (by rw [← hl', ← hl, append_assoc])

theorem answered_later {x : Query × Bool} (hx : x ∈ answered w t) (h : w.asked <+: t.asked)
    (h' : t.asked <+: u.asked) : x ∈ answered w u := by
  rw [answered_trans h h']
  exact mem_append_left _ hx

theorem answered_earlier {x : Query × Bool} (hx : x ∈ answered t u) (h : w.asked <+: t.asked)
    (h' : t.asked <+: u.asked) : x ∈ answered w u := by
  rw [answered_trans h h']
  exact mem_append_right _ hx

theorem ends_ask (q : Query) :
    Ends (ask q) w fun b t ↦ t.now = w.now ∧ t.asked = w.asked ++ [(q, b)] :=
  sat_asking fun _ _ hnow hasked ↦ ⟨trivial, hnow, hasked⟩

theorem aside_ask {q : Query} (hq : (fun b ↦ replaces (q, b)) = fun _ ↦ false) :
    Ends (ask q) w fun b t ↦ Aside w t ∧ t.now = w.now ∧ (q, b) ∈ answered w t := by
  refine (ends_ask q).imp fun b t ht ↦ ⟨.of_eq ht.1 ht.2 ?_, ht.1, ?_⟩
  · simpa using congrFun hq b
  · rw [answered_append ht.2]
    exact mem_singleton_self _

theorem ends_writes {call : Call} (hcall : ∀ b, replaces ((call, site), b) = false) :
    Ends (writes call site) w fun r t ↦ t.now = w.now ∧ Calm w t ∧
      ((call, site), decide (r = .done)) ∈ answered w t ∧
      (r = .unsynced → ((.renamed, site), true) ∈ answered w t) := by
  refine .seq (aside_ask (funext hcall)) ?_
  rintro b t ⟨ht, hnow, hmem⟩
  cases b with
  | true => exact .pure ⟨hnow, ht.calm, hmem, nofun⟩
  | false =>
    refine .seq (aside_ask rfl) ?_
    rintro b u ⟨hu, hnow', hmem'⟩
    have hnow'' := hnow'.trans hnow
    have hcalm := ht.calm.trans hu.calm
    have hfailed := answered_later hmem ht.calm.asked hu.calm.asked
    have hrenamed := answered_earlier hmem' ht.calm.asked hu.calm.asked
    cases b with
    | true => exact .pure ⟨hnow'', hcalm, hfailed, fun _ ↦ hrenamed⟩
    | false => exact .pure ⟨hnow'', hcalm, hfailed, nofun⟩

theorem aside_verify (site : Site) (version : String) :
    Ends (verifyInstalledVersion site version) w fun _ t ↦ Aside w t ∧ t.now = w.now := by
  unfold verifyInstalledVersion
  split
  · exact .pure ⟨.refl w, rfl⟩
  · exact (aside_ask rfl).imp fun _ _ ht ↦ ⟨ht.1, ht.2.1⟩

theorem since_leave (q : Process) : q.leave.since = q.since := by
  unfold Process.leave
  split <;> rfl

variable {f : Plugin → Plugin}

theorem ends_acting (hconfig : (f w.now).config = w.now.config)
    (hlog : ∃ l, (f w.now).log = w.now.log ++ l ∧ ∀ d ∈ l, Deed.quiet d)
    (hplaces : ∀ (i : Nat) q, w.now.processes[i]? = some q →
      ∃ q', (f w.now).processes[i]? = some q' ∧ q'.version = q.version ∧ q'.since = q.since)
    (hstate : (f w.now).state = w.now.state) (hreg : (f w.now).registered = w.now.registered) :
    Ends (doing f) w fun _ t ↦ Aside w t ∧ t.now = f w.now := by
  refine sat_acting fun t hnow hasked ↦ ⟨trivial, ⟨⟨⟨?_, ?_, ?_, ?_⟩, [], ?_, by simp⟩, ?_, ?_⟩,
    hnow⟩
  · rw [hnow, hconfig]
  · rw [hnow]
    exact hlog
  · rw [hnow]
    exact hplaces
  · exact hasked ▸ prefix_refl _
  · simp [hasked]
  · rw [hnow, hstate]
  · rw [hnow, hreg]

theorem aside_leave (i : Nat) : Ends (doing fun p : Plugin ↦ p.leave i) w fun _ t ↦ Aside w t := by
  refine (ends_acting rfl ⟨[], by simp [Plugin.leave], by simp⟩ (fun j q hq ↦ ?_) rfl rfl).imp
    fun _ _ ht ↦ ht.1
  rw [Plugin.leave, getElem?_modify, hq]
  by_cases hij : i = j
  · exact ⟨q.leave, by simp [hij], version_leave q, since_leave q⟩
  · exact ⟨q, by simp [hij], rfl, rfl⟩

theorem aside_stop (site : Site) (process : Option Nat) :
    Ends (stopProcess site process) w fun _ t ↦ Aside w t := by
  cases process with
  | none => exact .pure (.refl w)
  | some i =>
    refine .seq (aside_ask rfl) ?_
    rintro b t ⟨ht, -⟩
    cases b with
    | true => exact .seq (aside_leave i) fun _ u hu ↦ .pure (ht.trans hu)
    | false =>
      refine .seq (aside_ask rfl) ?_
      rintro b u ⟨hu, -⟩
      cases b with
      | true => exact .seq (aside_leave i) fun _ u' hu' ↦ .pure ((ht.trans hu).trans hu')
      | false => exact .pure (ht.trans hu)

theorem aside_cleanup (site : Site) (version : String) :
    Ends (cleanupInstalledVersion capable site version) w fun _ t ↦ Aside w t := by
  unfold cleanupInstalledVersion
  split
  · refine .seq (aside_ask rfl) ?_
    rintro b t ⟨ht, -⟩
    cases b with
    | false => exact .pure ht
    | true =>
      refine .seq (ends_acting rfl ⟨[.cleaned version], rfl, by simp [Deed.quiet]⟩ (fun j q hq ↦ ?_)
        rfl rfl) fun _ u hu ↦ .pure (ht.trans hu.1)
      refine ⟨q.clean version, ?_, (clean_cases version q).1, ?_⟩
      · rw [Plugin.clean, getElem?_map, hq, Option.map_some]
      · unfold Process.clean
        split <;> rfl
  · exact .pure (.refl w)

theorem aside_cleanupIf (site : Site) (verified : Bool) (version : String) :
    Ends (cleanupIf capable site verified version) w fun _ t ↦ Aside w t := by
  cases verified with
  | false => exact .pure (.refl w)
  | true => exact aside_cleanup site version

theorem aside_stopAndCleanup (site : Site) (version : String) (process : Option Nat) :
    Ends (stopAndCleanupInstalledVersion capable site version process) w fun _ t ↦ Aside w t :=
  .seq (aside_stop site process) fun _ _ ht ↦ .seq (aside_cleanup site version) fun _ _ hu ↦
    .pure (ht.trans hu)

theorem aside_removeSocketIf (site : Site) (go : Bool) :
    Ends (removeSocketIf site go) w fun _ t ↦ Aside w t := by
  cases go with
  | false => exact .pure (.refl w)
  | true => exact (aside_ask rfl).imp fun _ _ ht ↦ ht.1

structure Enters (p p' : Plugin) : Prop where
  config : p'.config = p.config
  processes : p'.processes = p.processes
  log : ∃ l, p'.log = p.log ++ l ∧ ∀ d ∈ l, Deed.quiet d = true

variable {p p' : Plugin}

theorem Enters.of_log (hconfig : p'.config = p.config)
    (hprocesses : p'.processes = p.processes) (hlog : p'.log = p.log) : Enters p p' :=
  ⟨hconfig, hprocesses, [], by simp [hlog], by simp⟩

theorem Enters.of_noted (pending : Bool) (hconfig : p'.config = p.config)
    (hprocesses : p'.processes = p.processes) (hlog : p'.log = p.log ++ noted pending version) :
    Enters p p' := by
  refine ⟨hconfig, hprocesses, _, hlog, fun d hd ↦ ?_⟩
  cases pending with
  | false => cases hd
  | true =>
    rw [mem_singleton.mp hd]
    rfl

theorem Enters.persist (h : Enters p p') (r : Write) : Enters p (p'.persist r) := by
  unfold Plugin.persist
  split
  · obtain ⟨l, hl, hquiet⟩ := h.log
    refine ⟨h.config, h.processes, l ++ [.saved], by simp [Plugin.did, hl], fun d hd ↦ ?_⟩
    rcases mem_append.mp hd with hmem | hmem
    · exact hquiet d hmem
    · rw [mem_singleton.mp hmem]
      rfl
  · exact h

theorem Enters.calm (h : Enters w.now p) (hu : Calm w u) (hnow : t.now = p)
    (hasked : t.asked = u.asked) : Calm w t where
  config := hnow ▸ h.config
  log := hnow ▸ h.log
  places := fun i q hq ↦ ⟨q, by rw [hnow, h.processes]; exact hq, rfl, rfl⟩
  asked := hasked ▸ hu.asked
  mute := hu.mute.of_asked hasked

theorem ends_locked (hf : Enters w.now (f w.now)) :
    Ends (locked site f) w fun _ t ↦ Calm w t ∧ t.now.state = (f w.now).state ∧
      t.now.registered = (f w.now).registered := by
  refine .seq (ends_writes fun _ ↦ rfl) ?_
  rintro r t ⟨hnow, hcalm, -⟩
  refine .bind (sat_acting fun u hu hasked ↦ ⟨trivial, .pure ?_⟩)
  rw [hnow] at hu
  exact ⟨(hf.persist r).calm hcalm hu hasked, by simp [hu], by simp [hu]⟩

theorem ends_recordTransitionFailure (site : Site) (original : PluginState) (revision : Nat)
    (version : String) :
    Ends (recordTransitionFailure site original revision version) w fun _ t ↦ Calm w t ∧
      t.now.state = some (failedTransition original revision version) ∧
      t.now.registered = none :=
  .returns (ends_locked (.of_noted _ rfl rfl rfl))

structure Undoes (p p' : Plugin) (state : Option PluginState) (reg : Option Nat) : Prop where
  state : p'.state = state
  registered : p'.registered = reg
  config : p'.config = p.config
  processes : p'.processes = p.processes
  log : p'.log = p.log

theorem ends_lockedOr {undo : Plugin → Plugin → Plugin}
    (back : Option PluginState) (reg : Option Nat) (hf : Enters w.now (f w.now))
    (hundo : ∀ r, Undoes ((f w.now).persist r) (undo w.now ((f w.now).persist r)) back reg) :
    Ends (lockedOr site f undo) w fun ok t ↦ Calm w t ∧
      t.now.state = (if ok then (f w.now).state else back) ∧
      t.now.registered = if ok then (f w.now).registered else reg := by
  refine .seq (ends_writes fun _ ↦ rfl) ?_
  rintro r t ⟨hnow, hcalm, -⟩
  refine .bind (sat_acting fun u hu hasked ↦ ⟨trivial, .pure ?_⟩)
  have hpersist := hf.persist r
  rw [hnow] at hu
  by_cases hr : r = .done
  · rw [if_pos hr] at hu
    simp only [hr, decide_true, if_true]
    exact ⟨hpersist.calm hcalm hu hasked, by simp [hu], by simp [hu]⟩
  rw [if_neg hr] at hu
  have hback := hundo r
  have henters : Enters w.now (undo w.now ((f w.now).persist r)) :=
    ⟨hback.config.trans hpersist.config, hback.processes.trans hpersist.processes,
      hback.log ▸ hpersist.log⟩
  simp only [hr, decide_false, Bool.false_eq_true, if_false]
  exact ⟨henters.calm hcalm hu hasked, by rw [hu, hback.state], by rw [hu, hback.registered]⟩

structure Unwritten (p : Plugin) (q : Process) : Prop where
  since : q.since ≤ p.log.length
  config : Deed.wrote q.version ∉ p.log.drop q.since
  secrets : ∀ c ∈ p.config q.version, Deed.secrets q.version c ∉ p.log.drop q.since

def Fresh (p : Plugin) : Prop := ∀ i ∈ p.registered, ∃ q, p.processes[i]? = some q ∧ Unwritten p q

def Ran (version : String) (i : Nat) (w : Now) : Prop :=
  ∃ q, w.now.processes[i]? = some q ∧ q.version = version ∧ Unwritten w.now q

theorem Unwritten.append {q : Process} {d : Deed} (h : Unwritten p q) (hlog : p'.log = p.log ++ [d])
    (hconfig : p'.config q.version = p.config q.version) (hwrote : d ≠ .wrote q.version)
    (hsecrets : ∀ c ∈ p.config q.version, d ≠ .secrets q.version c) : Unwritten p' q := by
  have hdrop : p'.log.drop q.since = p.log.drop q.since ++ [d] := by
    rw [hlog, drop_append_of_le_length h.since]
  have hnew {e : Deed} (hold : e ∉ p.log.drop q.since) (hne : d ≠ e) : e ∉ p'.log.drop q.since := by
    rw [hdrop, mem_append, mem_singleton]
    rintro (hmem | rfl)
    · exact hold hmem
    · exact hne rfl
  refine ⟨?_, hnew h.config hwrote, ?_⟩
  · rw [hlog, length_append]
    exact h.since.trans (Nat.le_add_right _ _)
  · rw [hconfig]
    exact fun c hc ↦ hnew (h.secrets c hc) (hsecrets c hc)

theorem Unwritten.steady {q q' : Process} (h : Unwritten w.now q) (ht : Steady w t)
    (hversion : q'.version = q.version) (hsince : q'.since = q.since) : Unwritten t.now q' := by
  obtain ⟨l, hl, hquiet⟩ := ht.log
  have hdrop : t.now.log.drop q.since = w.now.log.drop q.since ++ l := by
    rw [hl, drop_append_of_le_length h.since]
  have hloud {d : Deed} (hd : Deed.quiet d = false) (hold : d ∉ w.now.log.drop q.since) :
      d ∉ t.now.log.drop q.since := by
    rw [hdrop, mem_append]
    rintro (hmem | hmem)
    · exact hold hmem
    · rw [hquiet d hmem] at hd
      cases hd
  refine ⟨?_, ?_, ?_⟩
  · rw [hsince, hl, length_append]
    exact h.since.trans (Nat.le_add_right _ _)
  · rw [hsince, hversion]
    exact hloud rfl h.config
  · rw [hsince, hversion, ht.config]
    exact fun c hc ↦ hloud rfl (h.secrets c hc)

theorem Ran.steady {i : Nat} (h : Ran version i w) (ht : Steady w t) : Ran version i t := by
  obtain ⟨q, hq, hversion, hun⟩ := h
  obtain ⟨q', hq', hversion', hsince⟩ := ht.places i q hq
  exact ⟨q', hq', hversion'.trans hversion, hun.steady ht hversion' hsince⟩

theorem Fresh.steady (h : Fresh w.now) (ht : Steady w t)
    (hreg : t.now.registered = w.now.registered) : Fresh t.now := by
  intro i hi
  obtain ⟨q, hq, hun⟩ := h i (hreg ▸ hi)
  obtain ⟨q', hq', -, hun'⟩ := Ran.steady ⟨q, hq, rfl, hun⟩ ht
  exact ⟨q', hq', hun'⟩

theorem fresh_of_none (h : p.registered = none) : Fresh p := by
  intro i hi
  rw [h] at hi
  cases hi

theorem Ran.fresh {i : Nat} (h : Ran version i w) (hreg : w.now.registered = some i) :
    Fresh w.now := by
  intro j hj
  rw [hreg] at hj
  cases hj
  obtain ⟨q, hq, -, hun⟩ := h
  exact ⟨q, hq, hun⟩

structure Same (st st' : PluginState) : Prop where
  desiredVersion : st'.desiredVersion = st.desiredVersion
  previousVersion : st'.previousVersion = st.previousVersion
  configHash : st'.configHash = st.configHash

theorem Same.refl (st : PluginState) : Same st st := ⟨rfl, rfl, rfl⟩

theorem Same.trans {a b c : PluginState} (h : Same a b) (h' : Same b c) : Same a c :=
  ⟨h'.desiredVersion.trans h.desiredVersion, h'.previousVersion.trans h.previousVersion,
    h'.configHash.trans h.configHash⟩

structure Off (original : PluginState) (w : Now) : Prop where
  state : ∃ cur, w.now.state = some cur ∧ Same original cur
  registered : w.now.registered = none

theorem Off.fresh (h : Off original w) : Fresh w.now := fresh_of_none h.registered

theorem Off.aside (h : Off original w) (ht : Aside w t) : Off original t :=
  ⟨ht.state ▸ h.state, ht.registered.trans h.registered⟩

theorem off_recordTransitionFailure (site : Site) (original : PluginState) (revision : Nat)
    (version : String) :
    Ends (recordTransitionFailure site original revision version) w fun _ t ↦
      Off original t ∧ Calm w t :=
  (ends_recordTransitionFailure site original revision version).imp fun _ _ ht ↦
    ⟨⟨⟨_, ht.2.1, ⟨rfl, rfl, rfl⟩⟩, ht.2.2⟩, ht.1⟩

theorem off_recordConfigureStopFailure (site : Site) (original : PluginState) :
    Ends (recordConfigureStopFailure site original) w fun _ t ↦ Off original t ∧ Calm w t :=
  .seq (ends_locked (.of_log rfl rfl rfl)) fun _ _ ht ↦
    .pure ⟨⟨⟨_, ht.2.1, ⟨rfl, rfl, rfl⟩⟩, ht.2.2⟩, ht.1⟩

theorem off_removeProcess (hst : w.now.state = some original) :
    Ends (doing Plugin.removeProcess) w fun _ t ↦
      Off original t ∧ Calm w t ∧ t.now.state = some original := by
  refine sat_acting fun t hnow hasked ↦ ⟨trivial, ?_⟩
  have hstate : t.now.state = some original := by
    rw [hnow]
    exact hst
  have henters : Enters w.now w.now.removeProcess := .of_log rfl rfl rfl
  exact ⟨⟨⟨original, hstate, .refl original⟩, by rw [hnow]; rfl⟩,
    henters.calm (.refl w) hnow hasked, hstate⟩

theorem Off.mark (h : Off original w) (site : Site) (version : String) :
    Ends (markCleanupPending site version) w fun _ t ↦ Off original t ∧ Calm w t := by
  obtain ⟨cur, hcur, hsame⟩ := h.state
  refine .seq (ends_locked ?_) ?_
  · rw [hcur]
    exact .of_noted true rfl rfl rfl
  · rintro - t ⟨hcalm, hstate, hreg⟩
    rw [hcur] at hstate hreg
    exact .pure ⟨⟨⟨_, hstate, hsame.trans ⟨rfl, rfl, rfl⟩⟩, hreg⟩, hcalm⟩

theorem Off.launch (h : Off original w) (version : String) :
    Ends (doing fun p : Plugin ↦ p.launch version) w fun _ t ↦ Off original t ∧ Calm w t ∧
      t.now.state = w.now.state ∧ Ran version w.now.processes.length t := by
  refine (ends_acting rfl ⟨[.started version], rfl, by simp [Deed.quiet]⟩ (fun j q hq ↦ ?_) rfl
    rfl).imp fun _ t ht ↦ ⟨h.aside ht.1, ht.1.calm, ht.1.state, ?_⟩
  · refine ⟨q, ?_, rfl, rfl⟩
    rw [Plugin.launch, getElem?_append_left (List.getElem?_eq_some_iff.mp hq).1]
    exact hq
  · rw [Ran, ht.2]
    refine ⟨⟨version, .alive, w.now.log.length⟩, ?_, rfl, ?_, ?_, ?_⟩ <;> simp [Plugin.launch]

theorem Off.start (h : Off original w) (site : Site) (hsite : site ≠ .refresh) (version : String) :
    Ends (startVersion capable site version) w fun process t ↦ Off original t ∧ Calm w t ∧
      ∀ i ∈ process, Ran version i t ∧ t.now.state = w.now.state := by
  have hhealth (b : Bool) : replaces ((.health, site), b) = false := by
    cases site <;> first | rfl | exact absurd rfl hsite
  refine .seq (aside_verify site version) ?_
  rintro verified t₁ ⟨h₁, -⟩
  have hoff₁ := h.aside h₁
  cases verified with
  | false => exact .pure ⟨hoff₁, h₁.calm, nofun⟩
  | true =>
    refine .seq (aside_ask rfl) ?_
    rintro launched t₂ ⟨h₂, -⟩
    have hoff₂ := hoff₁.aside h₂
    have hcalm₂ := h₁.calm.trans h₂.calm
    cases launched with
    | false => exact .pure ⟨hoff₂, hcalm₂, nofun⟩
    | true =>
      refine .bind (sat_seeing (.seq (hoff₂.launch version) ?_))
      rintro - t₃ ⟨hoff₃, h₃, hstate₃, hran⟩
      refine .seq (aside_ask (funext hhealth)) ?_
      rintro healthy t₄ ⟨h₄, -⟩
      have hoff₄ := hoff₃.aside h₄
      have hcalm₄ := (hcalm₂.trans h₃).trans h₄.calm
      cases healthy with
      | true =>
        refine .pure ⟨hoff₄, hcalm₄, fun i hi ↦ ?_⟩
        cases hi
        exact ⟨hran.steady h₄.calm.toSteady,
          h₄.state.trans (hstate₃.trans (h₂.state.trans h₁.state))⟩
      | false =>
        refine .seq (aside_stop site _) fun stopped t₅ h₅ ↦
          .seq (aside_cleanup site version) fun cleaned t₆ h₆ ↦ ?_
        have hoff₆ := (hoff₄.aside h₅).aside h₆
        have hcalm₆ := (hcalm₄.trans h₅.calm).trans h₆.calm
        cases capable version && !(stopped && cleaned) with
        | false => exact .pure ⟨hoff₆, hcalm₆, nofun⟩
        | true =>
          exact .seq (hoff₆.mark site version) fun _ t₇ h₇ ↦ .pure ⟨h₇.1, hcalm₆.trans h₇.2, nofun⟩

theorem ends_recover (site : Site) : Ends (recoverPluginCleanup capable site) w fun _ t ↦ Calm w t ∧
      t.now.registered = w.now.registered ∧
      ∀ st, w.now.state = some st → ∃ st', t.now.state = some st' ∧ Same st st' := by
  refine .bind (sat_seeing ?_)
  cases hst : w.now.state with
  | none => exact .pure ⟨.refl w, rfl, nofun⟩
  | some cur =>
    cases hpending : cur.cleanupPending with
    | false =>
      simp only [hpending]
      refine .pure ⟨.refl w, rfl, fun st heq ↦ ⟨st, hst.trans heq, .refl st⟩⟩
    | true =>
      simp only [hpending, if_true]
      refine .seq (aside_verify _ _) ?_
      rintro verified t₁ ⟨h₁, -⟩
      refine .seq (aside_cleanupIf _ _ _) fun cleaned t₂ h₂ ↦ .seq (aside_ask rfl) ?_
      rintro removed t₃ ⟨h₃, -⟩
      have haside := (h₁.trans h₂).trans h₃
      have hcur₃ : t₃.now.state = some cur := haside.state.trans hst
      refine .seq (ends_lockedOr (some cur) t₃.now.registered (.of_log rfl rfl rfl)
        fun r ↦ ⟨hcur₃, by simp, rfl, rfl, rfl⟩) ?_
      rintro written t₄ ⟨hcalm, hstate, hreg⟩
      refine .pure ⟨haside.calm.trans hcalm, ?_, fun st heq ↦ ?_⟩
      · rw [← haside.registered, hreg]
        split <;> rfl
      cases heq
      cases written with
      | true =>
        rw [if_pos rfl, hcur₃, Option.map_some] at hstate
        refine ⟨_, hstate, ?_⟩
        unfold recovered
        split <;> exact ⟨rfl, rfl, rfl⟩
      | false => exact ⟨cur, hstate, .refl cur⟩

theorem Off.recover (h : Off original w) (site : Site) :
    Ends (recoverPluginCleanup capable site) w fun _ t ↦ Off original t ∧ Calm w t := by
  refine (ends_recover site).imp ?_
  rintro - t ⟨hcalm, hreg, hstate⟩
  obtain ⟨cur, hcur, hsame⟩ := h.state
  obtain ⟨cur', hcur', hsame'⟩ := hstate cur hcur
  exact ⟨⟨⟨cur', hcur', hsame.trans hsame'⟩, hreg.trans h.registered⟩, hcalm⟩

structure Rewritten (w t : Now) (site : Site) (version : String) (content : Option String)
    (ok : Bool) : Prop where
  state : t.now.state = w.now.state
  registered : t.now.registered = w.now.registered
  processes : t.now.processes = w.now.processes
  mute : Mute w t
  done : ok = true → t.now.config version = content
  failed : ok = false → t.now = w.now ∨ ((.renamed, site), true) ∈ answered w t
  others : ∀ v, v ≠ version → t.now.config v = w.now.config v
  log : t.now = w.now ∨ t.now.log = w.now.log ++ [.wrote version]

variable {content : Option String}

theorem Rewritten.asked {ok : Bool}
    (h : Rewritten w t site version content ok) : w.asked <+: t.asked :=
  h.mute.asked

theorem Rewritten.of_eq (hnow : t.now = w.now) (hmute : Mute w t) :
    Rewritten w t site version content false :=
  ⟨by rw [hnow], by rw [hnow], by rw [hnow], hmute, nofun, fun _ ↦ .inl hnow,
    fun _ _ ↦ by rw [hnow], .inl hnow⟩

theorem Rewritten.after {ok : Bool}
    (h : Rewritten t u site version content ok) (hnow : t.now = w.now) (hmute : Mute w t) :
    Rewritten w u site version content ok where
  state := h.state.trans (by rw [hnow])
  registered := h.registered.trans (by rw [hnow])
  processes := h.processes.trans (by rw [hnow])
  mute := hmute.trans h.mute
  done := h.done
  failed := fun hok ↦ (h.failed hok).imp (·.trans hnow) fun hmem ↦
    answered_earlier hmem hmute.asked h.asked
  others := hnow ▸ h.others
  log := hnow ▸ h.log

theorem ends_file {call : Call} (hcall : ∀ b, replaces ((call, site), b) = false)
    (version : String) (content : Option String) :
    Ends (do
      let r ← writes call site
      doing fun p ↦ if r.reaches then p.setConfig version content else p
      pure (decide (r = .done))) w fun ok t ↦
      Rewritten w t site version content ok ∧ ((call, site), ok) ∈ answered w t := by
  refine .seq (ends_writes hcall) ?_
  rintro r t ⟨hnow, hcalm, hmem, hrenamed⟩
  refine .bind (sat_acting fun u hu hasked ↦ ⟨trivial, .pure ?_⟩)
  have hanswered : answered w u = answered w t := by rw [answered, answered, hasked]
  refine ⟨?_, hanswered ▸ hmem⟩
  rw [hnow] at hu
  have hmute : Mute w u := hcalm.mute.of_asked hasked
  cases r with
  | refused => exact ⟨by rw [hu]; rfl, by rw [hu]; rfl, by rw [hu]; rfl, hmute, nofun,
      fun _ ↦ .inl hu, fun _ _ ↦ by rw [hu]; rfl, .inl hu⟩
  | unsynced =>
    refine ⟨by rw [hu]; rfl, by rw [hu]; rfl, by rw [hu]; rfl, hmute, nofun,
      fun _ ↦ .inr (hanswered ▸ hrenamed rfl), fun v hv ↦ ?_, .inr (by rw [hu]; rfl)⟩
    rw [hu]
    exact if_neg hv
  | done =>
    refine ⟨by rw [hu]; rfl, by rw [hu]; rfl, by rw [hu]; rfl, hmute, fun _ ↦ ?_, nofun,
      fun v hv ↦ ?_, .inr (by rw [hu]; rfl)⟩
    · rw [hu]
      exact if_pos rfl
    · rw [hu]
      exact if_neg hv

theorem ends_writeConfig (site : Site) (version content : String) :
    Ends (writeConfig site version content) w fun ok t ↦
      Rewritten w t site version (some content) ok ∧ ((.writeConfig, site), ok) ∈ answered w t :=
  ends_file (fun _ ↦ rfl) version (some content)

theorem ends_restoreConfig (site : Site) (version : String) (content : Option String) :
    Ends (restoreConfig site version content) w fun ok t ↦
      Rewritten w t site version content ok ∧ ((.restoreConfig, site), ok) ∈ answered w t :=
  ends_file (fun _ ↦ rfl) version content

theorem Off.rewritten {ok : Bool} (h : Off original w)
    (ht : Rewritten w t site version content ok) : Off original t :=
  ⟨ht.state ▸ h.state, ht.registered.trans h.registered⟩

end AnixAgent.Plugins.Frames
