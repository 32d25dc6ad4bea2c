import AnixAgent.Plugins.Lifecycle

namespace AnixAgent.Plugins.FailedWrites

open Journal Lifecycle Lib.Crash Lib.Crash.Proc Lib.Answers Option

/-- An entry of `s.state.Plugins`, with the fields that no operation reads. -/
structure Entry extends PluginState where
  lastError : String
  updatedAt : Int
  deriving DecidableEq

/-- A plugin: its entries in memory and in the state file, whether it has a process, and the
`config.json` of its version. -/
structure Memory where
  entry : Entry
  disk : Option Entry
  registered : Bool
  config : Option String
  deriving DecidableEq

structure Calls where
  now : Int
  accept : Bool
  readConfig : Bool
  writeConfig : Write
  health : Bool
  persist : Write
  deriving DecidableEq

def record (m : Memory) (entry : Entry) (w : Write) : Memory × Bool :=
  ({ m with entry := entry, disk := if w.reaches then some entry else m.disk }, w = .done)

def Entry.bumped (e : Entry) (revision : Nat) (now : Int) : Entry := { e with
  desiredRevision := max e.desiredRevision revision
  observedRevision := max e.observedRevision revision
  updatedAt := now
  lastError := "" }

/-- `configure`; none for an enabled plugin, which is restarted. -/
def configure (m : Memory) (o : Operation) (c : Calls) : Option (Memory × Bool) :=
  if !c.accept then some (m, false)
  else if m.entry.desiredVersion = "" ∨ o.targetVersion ≠ m.entry.desiredVersion then
    some (m, false)
  else if m.entry.enabled then none
  else
    let written := if c.writeConfig.reaches then { m with config := some o.config } else m
    if c.writeConfig ≠ .done then some (written, false)
    else some (record written { m.entry with
      configHash := o.configHash
      desiredRevision := o.revision
      updatedAt := c.now
      lastError := "" } c.persist)

/-- `enable`; none when a process is started. -/
def enable (m : Memory) (o : Operation) (c : Calls) : Option (Memory × Bool) :=
  if m.entry.desiredVersion = "" ∨ m.entry.desiredVersion ≠ o.targetVersion then some (m, false)
  else if m.registered && m.entry.enabled && m.entry.observedVersion = m.entry.desiredVersion &&
      c.health then
    some (record m { m.entry.bumped o.revision c.now with health := .healthy } c.persist)
  else none

/-- `update`; none for another version, too. -/
def update (m : Memory) (o : Operation) (c : Calls) : Option (Memory × Bool) :=
  if !c.accept then some (m, false)
  else if m.entry.desiredVersion ≠ o.targetVersion then none
  else if m.entry.configHash = o.configHash then
    if !c.readConfig then some (m, false)
    else if m.config = some o.config then
      if m.entry.enabled then enable m o c
      else some (record m (m.entry.bumped o.revision c.now) c.persist)
    else configure m o c
  else configure m o c

inductive Fast
  | configure
  | enable
  | update
  deriving DecidableEq

def Fast.run : Fast → Memory → Operation → Calls → Option (Memory × Bool)
  | .configure => FailedWrites.configure
  | .enable => FailedWrites.enable
  | .update => FailedWrites.update

/-- The entry has the revision, no error, and the time of the operation. -/
def Entry.current (e : Entry) (o : Operation) (c : Calls) : Bool :=
  o.revision ≤ e.desiredRevision && o.revision ≤ e.observedRevision && e.lastError = "" &&
    e.updatedAt = c.now

def Memory.configured (m : Memory) (o : Operation) (c : Calls) : Bool :=
  m.entry.configHash = o.configHash && m.entry.desiredRevision = o.revision &&
    m.entry.lastError = "" && m.entry.updatedAt = c.now && m.config = some o.config

def Fast.settled (m : Memory) (o : Operation) (c : Calls) : Fast → Bool
  | .configure => m.configured o c
  | .enable => m.entry.health = .healthy && m.entry.current o c
  | .update =>
    if m.entry.configHash = o.configHash ∧ m.config = some o.config then
      (!m.entry.enabled || m.entry.health = .healthy) && m.entry.current o c
    else m.configured o c

section
variable {m : Memory} {o : Operation} {c : Calls} {r : Memory × Bool}

theorem configured_eq {e : Entry} {hash : String} {revision : Nat} {now : Int} :
    { e with configHash := hash, desiredRevision := revision, updatedAt := now, lastError := "" } =
      e ↔ e.configHash = hash ∧ e.desiredRevision = revision ∧ e.lastError = "" ∧
        e.updatedAt = now := by
  obtain ⟨⟨⟩⟩ := e
  simp
  tauto

theorem bumped_eq {e : Entry} : e.bumped o.revision c.now = e ↔ e.current o c := by
  obtain ⟨⟨⟩⟩ := e
  simp [Entry.bumped, Entry.current]
  tauto

theorem refreshed_eq {e : Entry} : { e.bumped o.revision c.now with health := .healthy } = e ↔
    e.health = .healthy ∧ e.current o c := by
  obtain ⟨⟨⟩⟩ := e
  simp [Entry.bumped, Entry.current]
  tauto

/-- An operation that is for the installed version, and whose other calls succeed. -/
structure Accepted (m : Memory) (o : Operation) (c : Calls) : Prop where
  installed : m.entry.desiredVersion ≠ ""
  target : m.entry.desiredVersion = o.targetVersion
  accept : c.accept = true
  readConfig : c.readConfig = true
  writeConfig : c.writeConfig = .done

theorem configure_eq (h : Accepted m o c) (hrun : configure m o c = some r) :
    ¬m.entry.enabled ∧ r = record { m with config := some o.config } { m.entry with
      configHash := o.configHash
      desiredRevision := o.revision
      updatedAt := c.now
      lastError := "" } c.persist := by
  have hversion : ¬(m.entry.desiredVersion = "" ∨ o.targetVersion ≠ m.entry.desiredVersion) :=
    not_or.mpr ⟨h.installed, not_not.mpr h.target.symm⟩
  simp only [configure, h.accept, h.writeConfig, if_neg hversion] at hrun
  obtain ⟨henabled, heq⟩ := ite_none_left_eq_some.mp hrun
  cases heq
  exact ⟨henabled, rfl⟩

theorem enable_eq (h : Accepted m o c) (hrun : enable m o c = some r) :
    (m.registered && m.entry.enabled && m.entry.observedVersion = m.entry.desiredVersion) ∧
      r = record m { m.entry.bumped o.revision c.now with health := .healthy } c.persist := by
  have hversion : ¬(m.entry.desiredVersion = "" ∨ m.entry.desiredVersion ≠ o.targetVersion) :=
    not_or.mpr ⟨h.installed, not_not.mpr h.target⟩
  rw [enable, if_neg hversion] at hrun
  obtain ⟨hfast, heq⟩ := ite_some_none_eq_some.mp hrun
  exact ⟨(Bool.and_eq_true_iff.mp hfast).1, heq.symm⟩

theorem update_eq (h : Accepted m o c) : update m o c =
    if m.entry.configHash = o.configHash ∧ m.config = some o.config then
      if m.entry.enabled then enable m o c
      else some (record m (m.entry.bumped o.revision c.now) c.persist)
    else configure m o c := by
  simp only [update, h.accept, h.readConfig, if_neg (not_not.mpr h.target)]
  by_cases hhash : m.entry.configHash = o.configHash <;> simp [hhash]

theorem configure_spec (h : Accepted m o c) (hrun : configure m o c = some r) :
    r.2 = decide (c.persist = .done) ∧
      (r.1.entry = m.entry ∧ r.1.config = m.config ↔ m.configured o c) := by
  obtain ⟨-, rfl⟩ := configure_eq h hrun
  refine ⟨rfl, ?_⟩
  simp [record, configured_eq, Memory.configured, and_assoc, eq_comm (a := some o.config)]

theorem enable_spec (h : Accepted m o c) (hrun : enable m o c = some r) :
    r.2 = decide (c.persist = .done) ∧ (r.1.entry = m.entry ∧ r.1.config = m.config ↔
      m.entry.health = .healthy ∧ m.entry.current o c) := by
  obtain ⟨-, rfl⟩ := enable_eq h hrun
  exact ⟨rfl, by simp [record, refreshed_eq]⟩

theorem update_spec (h : Accepted m o c) (hrun : update m o c = some r) :
    r.2 = decide (c.persist = .done) ∧
      (r.1.entry = m.entry ∧ r.1.config = m.config ↔ Fast.update.settled m o c) := by
  rw [update_eq h] at hrun
  rw [Fast.settled]
  split at hrun
  · next hmatch =>
    rw [if_pos hmatch]
    split at hrun
    · next henabled => simpa [henabled] using enable_spec h hrun
    · next henabled =>
      cases hrun
      exact ⟨rfl, by simp [record, bumped_eq, henabled]⟩
  · next hmatch =>
    rw [if_neg hmatch]
    exact configure_spec h hrun

/-- The Supervisor's plugin has what is kept here of it. -/
structure Shows (m : Memory) (p : Plugin) : Prop where
  state : p.state = some m.entry.toPluginState
  disk : p.disk = m.disk.map (·.toPluginState)
  registered : p.registered.isSome = m.registered
  config : p.config m.entry.desiredVersion = m.config

def answers : Write → List Bool
  | .done => [true]
  | .unsynced => [false, true]
  | .refused => [false, false]

/-- The answers to the calls of an operation of which only the write of the state file fails. -/
def Fast.script (m : Memory) (o : Operation) (w : Write) : Fast → List Bool
  | .configure => true :: true :: answers w
  | .enable => true :: answers w
  | .update => true :: if m.entry.configHash = o.configHash then
      true :: if m.config = some o.config then
        if m.entry.enabled then true :: answers w else answers w
      else true :: true :: answers w
    else true :: true :: answers w

def Fast.operation (capable : String → Bool) (o : Operation) : Fast → Supervised Bool
  | .configure => Lifecycle.configure capable o
  | .enable => Lifecycle.enable capable o
  | .update => Lifecycle.update capable o

variable {capable : String → Bool} {p : Plugin} {l : List (Query × Bool)}

abbrev Ends (p : Supervised Bool) (w : World Plugin Query) (r : Memory × Bool) : Prop :=
  Sat p w (fun _ ↦ True) fun ok t ↦ ok = r.2 ∧ Shows r.1 t.now

theorem ends_answered {q : Query} {b : Bool} {rest : List Bool} {f : Bool → Supervised Bool}
    (h : Ends (f b) ⟨p, rest, l ++ [(q, b)]⟩ r) : Ends (ask q >>= f) ⟨p, b :: rest, l⟩ r :=
  .bind (.bind (.look (.bind (.act trivial (.pure h)))))

theorem ends_written {site : Site} {version content : String} {rest : List Bool}
    {f : Bool → Supervised Bool}
    (h : ∀ l, Ends (f true) ⟨p.setConfig version (some content), rest, l⟩ r) :
    Ends (writeConfig site version content >>= f) ⟨p, true :: rest, l⟩ r :=
  ⟨fun _ _ ↦ trivial, (h _).ends⟩

theorem ends_locked {site : Site} {f : Plugin → Plugin} {e : Entry} {w : Write} (h : Shows m p)
    (hf : f p = { p with state := some e.toPluginState })
    (hversion : e.desiredVersion = m.entry.desiredVersion) :
    Ends (locked site f) ⟨p, answers w, l⟩ (record m e w) := by
  have hshows : Shows (record m e w).1 ((f p).persist w) := by
    have hconfig := hversion ▸ h.config
    rw [hf]
    cases w with
    | refused => exact ⟨rfl, h.disk, h.registered, hconfig⟩
    | done | unsynced => exact ⟨rfl, rfl, h.registered, hconfig⟩
  refine ⟨fun _ _ ↦ trivial, ?_⟩
  cases w <;> exact ⟨rfl, hshows⟩

theorem ends_configure (ha : Accepted m o c) (h : Shows m p) (hrun : configure m o c = some r) :
    Ends (Lifecycle.configure capable o) ⟨p, true :: true :: answers c.persist, l⟩ r := by
  obtain ⟨henabled, rfl⟩ := configure_eq ha hrun
  have hversion : ¬(m.entry.desiredVersion = "" ∨ o.targetVersion ≠ m.entry.desiredVersion) :=
    not_or.mpr ⟨ha.installed, not_not.mpr ha.target.symm⟩
  refine ends_answered (.bind (sat_seeing ?_))
  simp only [h.state, if_neg hversion, if_neg henabled]
  exact ends_written fun _ ↦
    ends_locked ⟨h.state, h.disk, h.registered, if_pos rfl⟩ rfl rfl

theorem ends_enable (ha : Accepted m o c) (h : Shows m p) (hrun : enable m o c = some r) :
    Ends (Lifecycle.enable capable o) ⟨p, true :: answers c.persist, l⟩ r := by
  obtain ⟨hfast, rfl⟩ := enable_eq ha hrun
  refine .bind (sat_seeing ?_)
  have hversion : ¬(m.entry.desiredVersion = "" ∨ m.entry.desiredVersion ≠ o.targetVersion) :=
    not_or.mpr ⟨ha.installed, not_not.mpr ha.target⟩
  simp only [h.state, if_neg hversion]
  refine .bind (sat_seeing ?_)
  rw [h.registered, if_pos hfast]
  exact ends_answered (ends_locked h (by rw [h.state]; rfl) rfl)

/-- An operation that is accepted ends as the Supervisor's, on the same answers. -/
theorem ends_operation (fast : Fast) (ha : Accepted m o c) (h : Shows m p)
    (hrun : fast.run m o c = some r) :
    Ends (fast.operation capable o) ⟨p, fast.script m o c.persist, l⟩ r := by
  cases fast with
  | configure => exact ends_configure ha h hrun
  | enable => exact ends_enable ha h hrun
  | update =>
    change update m o c = some r at hrun
    rw [update_eq ha] at hrun
    refine ends_answered (.bind (sat_seeing ?_))
    simp only [h.state, if_pos ha.target]
    by_cases hhash : m.entry.configHash = o.configHash
    · simp only [hhash, true_and, if_true] at hrun ⊢
      refine ends_answered (.bind (sat_seeing ?_))
      rw [h.config]
      split at hrun
      · next hconfig =>
        rw [if_pos hconfig, if_pos hconfig]
        split at hrun
        · next henabled => exact if_pos henabled ▸ if_pos henabled ▸ ends_enable ha h hrun
        · next henabled =>
          cases hrun
          rw [if_neg henabled, if_neg henabled]
          exact ends_locked h (by rw [← hhash]; rfl) rfl
      · next hconfig => exact if_neg hconfig ▸ if_neg hconfig ▸ ends_configure ha h hrun
    · simp only [hhash, false_and, if_false] at hrun ⊢
      exact ends_configure ha h hrun

end

/-- An operation that restarts nothing and whose only failure is the write of the state file leaves
the entry in memory and the `config.json` as they were if and only if it had nothing to record. -/
theorem failed_write_keeps {m : Memory} {o : Operation} {c : Calls} {r : Memory × Bool}
    (fast : Fast) (h : Accepted m o c) (hpersist : c.persist ≠ .done)
    (hrun : fast.run m o c = some r) :
    r.2 = false ∧ (r.1.entry = m.entry ∧ r.1.config = m.config ↔ fast.settled m o c = true) := by
  cases fast with
  | configure =>
    obtain ⟨herror, hiff⟩ := configure_spec h hrun
    exact ⟨by simpa [hpersist] using herror, hiff⟩
  | enable =>
    obtain ⟨herror, hiff⟩ := enable_spec h hrun
    exact ⟨by simpa [hpersist] using herror, by simpa [Fast.settled] using hiff⟩
  | update =>
    obtain ⟨herror, hiff⟩ := update_spec h hrun
    exact ⟨by simpa [hpersist] using herror, hiff⟩

def samplePlugin (enabled : Bool) : Memory where
  entry := ⟨⟨"1", "1", "", enabled, .healthy, "a", 1, 1, false, ""⟩, "", 5⟩
  disk := none
  registered := enabled
  config := some "a"

def sampleOperation (hash : String) (revision : Nat) : Operation := ⟨"1", hash, hash, revision, false⟩

def sampleCalls : Calls := ⟨5, true, true, .done, true, .refused⟩

theorem failed_write_keeps_enabled :
    ((Fast.run .enable (samplePlugin true) (sampleOperation "a" 1) sampleCalls).map (·.1)) =
      some (samplePlugin true) ∧
    ∀ r, Fast.run .enable (samplePlugin true) (sampleOperation "a" 1) sampleCalls = some r →
      r.2 = false ∧ r.1.entry = (samplePlugin true).entry ∧ r.1.config = some "a" := by
  refine ⟨by decide, fun r hrun ↦ ?_⟩
  obtain ⟨herror, hiff⟩ := failed_write_keeps .enable
    ⟨by decide, by decide, by decide, by decide, by decide⟩ (by decide) hrun
  exact ⟨herror, hiff.mpr (by decide)⟩

/-- A configuration that was reported as failed is in memory and in the `config.json`, and an
operation of a later revision leaves that revision in memory. -/
theorem failed_write_recorded :
    Accepted (samplePlugin false) (sampleOperation "b" 2) sampleCalls ∧
    (Fast.run .configure (samplePlugin false) (sampleOperation "b" 2) sampleCalls).any (fun r ↦
      !r.2 && r.1.entry.configHash = "b" && r.1.config = some "b" && r.1.disk = none) = true ∧
    (Fast.run .enable (samplePlugin true) (sampleOperation "a" 2) sampleCalls).any (fun r ↦
      !r.2 && r.1.entry.observedRevision = 2) = true ∧
    (Fast.run .update (samplePlugin false) (sampleOperation "a" 2) sampleCalls).any (fun r ↦
      !r.2 && r.1.entry.observedRevision = 2) = true :=
  ⟨⟨by decide, by decide, by decide, by decide, by decide⟩, by decide, by decide, by decide⟩

end AnixAgent.Plugins.FailedWrites
