import AnixAgent.Lib.Answers
import AnixAgent.Plugins.Journal

namespace AnixAgent.Plugins.Lifecycle

open Lib.Runs Lib.Crash Lib.Answers Journal

inductive Health
  | installed
  | healthy
  | unhealthy
  | disabled
  | stopped
  | interrupted
  deriving DecidableEq

structure PluginState where
  desiredVersion : String
  observedVersion : String
  previousVersion : String
  enabled : Bool
  health : Health
  configHash : String
  desiredRevision : Nat
  observedRevision : Nat
  cleanupPending : Bool
  cleanupVersion : String
  deriving DecidableEq

/-- The fields of an operation that its execution reads. `materialized` is an envelope of the
second version. -/
structure Operation where
  targetVersion : String
  configHash : String
  config : String
  revision : Nat
  materialized : Bool
  deriving DecidableEq

/-- A process is alive until it exits or is stopped, and then waits for a signed cleanup. -/
inductive Fate
  | alive
  | gone
  | cleaned
  deriving DecidableEq

/-- `since` is what had been done before the process was started. -/
structure Process where
  version : String
  fate : Fate
  since : Nat
  deriving DecidableEq

/-- What was done for a plugin. -/
inductive Deed
  | owed (version : String)
  | cleaned (version : String)
  | saved
  | loaded (owed : Option String)
  | lost
  | wrote (version : String)
  | secrets (version config : String)
  | started (version : String)
  deriving DecidableEq

/-- One plugin of the Supervisor. `state` is its entry in memory, `disk` the one in the state file,
`processes` are all processes that were started for it and `registered` is the place of the one in
`s.processes`. `overlap` records that one was started while another was alive. -/
structure Plugin where
  state : Option PluginState
  registered : Option Nat
  processes : List Process
  overlap : Bool
  config : String → Option String
  disk : Option PluginState
  log : List Deed

inductive Cause
  | socket
  | config
  | restart
  | owing
  | persist
  deriving DecidableEq

inductive Site
  | operation
  | install
  | configure
  | rollback (cause : Cause)
  | enable
  | enabled
  | refresh
  | disable (registered : Bool)
  | update
  | revert
  | recover
  | recoverUpdate
  | recoverClose
  | recoverStart
  | health
  | observe
  | maintenance
  | restart
  | restarted
  | close
  | save
  | restore
  deriving DecidableEq

def Site.recovers : Site → Bool
  | .recover | .recoverUpdate | .recoverClose | .recoverStart => true
  | _ => false

/-- What it asks: whether a call succeeds, and a few facts it only branches on. -/
inductive Call
  | accept
  | secrets
  | stage
  | commit
  | verify
  | stop
  | exited
  | cleanup
  | socket
  | launch
  | health
  | persist
  | readConfig
  | writeConfig
  | restoreConfig
  | renamed
  | observe
  | restart
  | monitored
  | failures
  | failing
  | interrupted
  deriving DecidableEq

abbrev Query := Call × Site

instance : LawfulBEq (Query × Bool) := inferInstance

abbrev Supervised (α : Type) := Asking Plugin Query α

def writes (call : Call) (site : Site) : Supervised Write := do
  if ← ask (call, site) then pure .done
  else if ← ask (.renamed, site) then pure .unsynced
  else pure .refused

def Plugin.did (p : Plugin) (d : Deed) : Plugin := { p with log := p.log ++ [d] }

def Plugin.persist (p : Plugin) (w : Write) : Plugin :=
  if w.reaches then { p with disk := p.state }.did .saved else p

def locked (site : Site) (f : Plugin → Plugin) : Supervised Bool := do
  let w ← writes .persist site
  doing fun p ↦ (f p).persist w
  pure (w = .done)

def lockedOr (site : Site) (f : Plugin → Plugin) (undo : Plugin → Plugin → Plugin) :
    Supervised Bool := do
  let w ← writes .persist site
  doing fun p ↦ if w = .done then (f p).persist w else undo p ((f p).persist w)
  pure (w = .done)

def Plugin.setConfig (p : Plugin) (version : String) (content : Option String) : Plugin :=
  { p with
    config := fun v ↦ if v = version then content else p.config v
    log := p.log ++ [.wrote version] }

def writeConfig (site : Site) (version content : String) : Supervised Bool := do
  let w ← writes .writeConfig site
  doing fun p ↦ if w.reaches then p.setConfig version (some content) else p
  pure (w = .done)

def restoreConfig (site : Site) (version : String) (content : Option String) :
    Supervised Bool := do
  let w ← writes .restoreConfig site
  doing fun p ↦ if w.reaches then p.setConfig version content else p
  pure (w = .done)

def Plugin.removeProcess (p : Plugin) : Plugin := { p with registered := none }

def Process.leave (p : Process) : Process :=
  if p.fate = .alive then { p with fate := .gone } else p

def Process.clean (version : String) (p : Process) : Process :=
  if p.version = version ∧ p.fate = .gone then { p with fate := .cleaned } else p

def Plugin.leave (p : Plugin) (i : Nat) : Plugin :=
  { p with processes := p.processes.modify i Process.leave }

def Plugin.clean (p : Plugin) (version : String) : Plugin :=
  { p with
    processes := p.processes.map (Process.clean version)
    log := p.log ++ [.cleaned version] }

def Plugin.launch (p : Plugin) (version : String) : Plugin :=
  { p with
    processes := p.processes ++ [⟨version, .alive, p.log.length⟩]
    overlap := p.overlap || p.processes.any fun q ↦ q.fate = .alive
    log := p.log ++ [.started version] }

/-- `Stop` of a process, or of none. A process whose `Stop` failed may have exited. -/
def stopProcess (site : Site) : Option Nat → Supervised Bool
  | none => pure true
  | some i => do
    if ← ask (.stop, site) then
      doing fun p ↦ p.leave i
      pure true
    else
      if ← ask (.exited, site) then doing fun p ↦ p.leave i
      pure false

def verifyInstalledVersion (site : Site) (version : String) : Supervised Bool :=
  if version = "" then pure false else ask (.verify, site)

section

-- Which versions' manifests have `plugin.cleanup` among their capabilities.
variable (capable : String → Bool)

def cleanupInstalledVersion (site : Site) (version : String) : Supervised Bool := do
  if capable version then
    if ← ask (.cleanup, site) then
      doing fun p ↦ p.clean version
      pure true
    else pure false
  else pure true

/-- The first component says whether the cleanup is pending, the second whether both calls
succeeded. -/
def stopAndCleanupInstalledVersion (site : Site) (version : String) (process : Option Nat) :
    Supervised (Bool × Bool) := do
  let stopped ← stopProcess site process
  let cleaned ← cleanupInstalledVersion capable site version
  pure (capable version && !cleaned, stopped && cleaned)

def pendingCleanup (version : String) (st : PluginState) : PluginState :=
  { st with enabled := false, health := .unhealthy, cleanupPending := true,
            cleanupVersion := version }

def noted (pending : Bool) (version : String) : List Deed := if pending then [.owed version] else []

def markCleanupPending (site : Site) (version : String) : Supervised Unit := do
  let _ ← locked site fun p ↦ match p.state with
    | none => p
    | some st => { p with
      state := some (pendingCleanup version st)
      registered := none
      log := p.log ++ noted true version }

/-- Everything between the verification and the start of the process is folded into
`launch`. -/
def startVersion (site : Site) (version : String) : Supervised (Option Nat) := do
  if ← verifyInstalledVersion site version then
    if ← ask (.launch, site) then
      let i ← seeing fun p ↦ p.processes.length
      doing fun p ↦ p.launch version
      if ← ask (.health, site) then pure (some i)
      else
        let stopped ← stopProcess site (some i)
        let cleaned ← cleanupInstalledVersion capable site version
        if capable version && !(stopped && cleaned) then markCleanupPending site version
        pure none
    else pure none
  else pure none

def failedTransition (original : PluginState) (revision : Nat) (cleanupVersion : String) :
    PluginState :=
  { original with
    enabled := false
    health := .unhealthy
    cleanupPending := if cleanupVersion ≠ "" then true else original.cleanupPending
    cleanupVersion := if cleanupVersion ≠ "" then cleanupVersion else original.cleanupVersion
    desiredRevision := max original.desiredRevision revision }

def recordTransitionFailure (site : Site) (original : PluginState) (revision : Nat)
    (cleanupVersion : String) : Supervised Unit := do
  let _ ← locked site fun p ↦ { p with
    state := some (failedTransition original revision cleanupVersion)
    registered := none
    log := p.log ++ noted (cleanupVersion ≠ "") cleanupVersion }

def recordConfigureStopFailure (site : Site) (original : PluginState) : Supervised Unit := do
  let _ ← locked site fun p ↦ { p with
    state := some { original with enabled := false, health := .unhealthy }, registered := none }

def recordPluginError (site : Site) : Supervised Unit := do
  let _ ← locked site fun p ↦ { p with
    state := p.state.map fun st ↦ { st with health := .unhealthy } }

def mergePendingCleanup (target : PluginState) (current : Option PluginState) : PluginState :=
  match current with
  | none => target
  | some c =>
    if c.cleanupPending then
      { target with cleanupPending := true, cleanupVersion := c.cleanupVersion }
    else target

def blockedRollback (original : PluginState) (revision : Nat) (current : Option PluginState) :
    PluginState :=
  { mergePendingCleanup original current with
    enabled := false
    health := .unhealthy
    desiredRevision := max original.desiredRevision revision }

def recordUpdateRollbackBlocked (site : Site) (original : PluginState) (revision : Nat) :
    Supervised Unit := do
  let _ ← locked site fun p ↦ { p with
    state := some (blockedRollback original revision p.state), registered := none }

def PluginState.owes (st : PluginState) : String :=
  if st.cleanupVersion = "" then st.desiredVersion else st.cleanupVersion

def recovered (version : String) (ok : Bool) (st : PluginState) : PluginState :=
  if ok then
    { st with
      cleanupPending := false
      cleanupVersion := ""
      health := if st.enabled then .stopped else .disabled }
  else { st with cleanupPending := true, cleanupVersion := version, health := .unhealthy }

def cleanupIf (site : Site) (verified : Bool) (version : String) : Supervised Bool :=
  if verified then cleanupInstalledVersion capable site version else pure true

def recoverPending (site : Site) (persisted : PluginState) : Supervised Bool := do
  let verified ← verifyInstalledVersion site persisted.owes
  let cleaned ← cleanupIf capable site verified persisted.owes
  let removed ← ask (.socket, site)
  let ok := verified && cleaned && removed
  let written ← lockedOr site
    (fun p ↦ { p with state := p.state.map (recovered persisted.owes ok) })
    (fun p q ↦ { q with state := p.state })
  pure (ok && written)

def recoverPluginCleanup (site : Site) : Supervised Bool := do
  match ← seeing (·.state) with
  | none => pure true
  | some persisted =>
    if persisted.cleanupPending then recoverPending capable site persisted else pure true

def installed (version : String) (revision : Nat) (state : Option PluginState) : PluginState :=
  let st := state.getD ⟨version, "", "", false, .installed, "", 0, 0, false, ""⟩
  if revision > 0 then
    { st with
      desiredRevision := max st.desiredRevision revision
      observedRevision := max st.observedRevision revision }
  else st

/-- `installPrepared`; publishing the version directory is folded into `accept`. -/
def installPrepared (version : String) (revision : Nat) : Supervised Bool := do
  if ← ask (.accept, .install) then
    lockedOr .install
      (fun p ↦ { p with state := some (installed version revision p.state) })
      (fun p q ↦ { q with state := p.state })
  else pure false

def rolledBack (original : PluginState) (revision : Nat) (current : Option PluginState)
    (running : Bool) : PluginState :=
  let st := { mergePendingCleanup original current with
    desiredRevision := max original.desiredRevision revision }
  if running then
    { st with enabled := true, health := .healthy, observedVersion := original.desiredVersion }
  else { st with enabled := false, health := .unhealthy }

def startIf (site : Site) (go : Bool) (version : String) : Supervised (Option Nat) :=
  if go then startVersion capable site version else pure none

def rollbackConfiguration (original : PluginState) (o : Operation) (old : Option String)
    (cause : Cause) : Supervised Unit := do
  let restored ← restoreConfig (.rollback cause) original.desiredVersion old
  let process ← startIf capable (.rollback cause) restored original.desiredVersion
  let _ ← locked (.rollback cause) fun p ↦ { p with
    state := some (rolledBack original o.revision p.state process.isSome), registered := process }

def configuredRunning (original : PluginState) (o : Operation) : PluginState :=
  { original with
    configHash := o.configHash
    desiredRevision := o.revision
    observedRevision := max original.observedRevision o.revision
    health := .healthy
    enabled := true
    cleanupPending := false
    cleanupVersion := "" }

def configureRestart (original : PluginState) (o : Operation) (old : Option String) :
    Supervised Bool := do
  if ← ask (.socket, .configure) then
    if ← writeConfig .configure original.desiredVersion o.config then
      match ← startVersion capable .configure original.desiredVersion with
      | none =>
        let pending ← seeing fun p ↦ p.state.any (·.cleanupPending)
        rollbackConfiguration capable original o old (if pending then .owing else .restart)
        pure false
      | some i =>
        if ← lockedOr .configure
            (fun p ↦ { p with state := some (configuredRunning original o), registered := some i })
            (fun _ q ↦ { q with state := some original, registered := none }) then
          pure true
        else
          let _ ← stopProcess .configure (some i)
          rollbackConfiguration capable original o old .persist
          pure false
    else
      rollbackConfiguration capable original o old .config
      pure false
  else
    rollbackConfiguration capable original o old .socket
    pure false

def configureEnabled (original : PluginState) (o : Operation) : Supervised Bool := do
  if ← ask (.readConfig, .configure) then
    let old ← seeing fun p ↦ p.config original.desiredVersion
    let process ← seeing (·.registered)
    doing Plugin.removeProcess
    if ← verifyInstalledVersion .configure original.desiredVersion then
      let (pending, ok) ←
        stopAndCleanupInstalledVersion capable .configure original.desiredVersion process
      if ok then configureRestart capable original o old
      else
        recordTransitionFailure .configure original o.revision
          (if pending then original.desiredVersion else "")
        pure false
    else
      let _ ← stopProcess .configure process
      recordTransitionFailure .configure original o.revision original.desiredVersion
      pure false
  else
    recordPluginError .configure
    pure false

def configureDisabled (original : PluginState) (o : Operation) : Supervised Bool := do
  if ← writeConfig .configure original.desiredVersion o.config then
    locked .configure fun p ↦ { p with
      state := some { original with configHash := o.configHash, desiredRevision := o.revision } }
  else pure false

def configure (o : Operation) : Supervised Bool := do
  if ← ask (.accept, .configure) then
    match ← seeing (·.state) with
    | none => pure false
    | some original =>
      if original.desiredVersion = "" ∨ o.targetVersion ≠ original.desiredVersion then pure false
      else if original.enabled then configureEnabled capable original o
      else configureDisabled original o
  else pure false

def enabledAt (revision : Nat) (st : PluginState) : PluginState :=
  { st with
    enabled := true
    health := .healthy
    observedVersion := st.desiredVersion
    cleanupPending := false
    cleanupVersion := ""
    desiredRevision := max st.desiredRevision revision
    observedRevision := max st.observedRevision revision }

def enableStart (o : Operation) (version : String) : Supervised Bool := do
  match ← startVersion capable .enable version with
  | none =>
    recordPluginError .enable
    pure false
  | some i =>
    if ← lockedOr .enabled
        (fun p ↦ { p with state := p.state.map (enabledAt o.revision), registered := some i })
        (fun p q ↦ { q with state := p.state, registered := none }) then
      pure true
    else
      let _ ← stopProcess .enable (some i)
      pure false

def refreshed (revision : Nat) (st : PluginState) : PluginState :=
  { st with
    health := .healthy
    desiredRevision := max st.desiredRevision revision
    observedRevision := max st.observedRevision revision }

/-- `enable` of a plugin whose process is registered and fails its health check. -/
def enableUnhealthy (original : PluginState) (o : Operation) (process : Option Nat) :
    Supervised Bool := do
  doing Plugin.removeProcess
  if ← verifyInstalledVersion .enable original.desiredVersion then
    let (pending, ok) ←
      stopAndCleanupInstalledVersion capable .enable original.desiredVersion process
    if ok then
      if ← ask (.socket, .enable) then enableStart capable o original.desiredVersion
      else
        recordConfigureStopFailure .enable original
        pure false
    else
      recordTransitionFailure .enable original o.revision
        (if pending then original.desiredVersion else "")
      pure false
  else
    let _ ← stopProcess .enable process
    recordTransitionFailure .enable original o.revision original.desiredVersion
    pure false

def enable (o : Operation) : Supervised Bool := do
  match ← seeing (·.state) with
  | none => pure false
  | some original =>
    if original.desiredVersion = "" ∨ original.desiredVersion ≠ o.targetVersion then pure false
    else
      let process ← seeing (·.registered)
      if process.isSome && original.enabled &&
          original.observedVersion = original.desiredVersion then
        if ← ask (.health, .refresh) then
          locked .refresh fun p ↦ { p with state := p.state.map (refreshed o.revision) }
        else enableUnhealthy capable original o process
      else enableStart capable o original.desiredVersion

/-- `safe` is a verified version whose process was stopped and cleaned up, `removed` the
removal of the socket, and `owing` a cleanup that was due and failed. -/
def disabledAt (revision : Nat) (safe removed owing : Bool) (st : PluginState) : PluginState :=
  let done := safe && removed
  { st with
    enabled := false
    health := if done then .disabled else .unhealthy
    desiredRevision := max st.desiredRevision revision
    observedRevision := if done then max st.observedRevision revision else st.observedRevision
    cleanupPending := if done then false else if owing then true else st.cleanupPending
    cleanupVersion := if done then "" else if owing then st.desiredVersion
      else st.cleanupVersion }

def disable (o : Operation) : Supervised Bool := do
  match ← seeing (·.state) with
  | none => pure false
  | some original =>
    if original.desiredVersion ≠ o.targetVersion then pure false
    else
      let process ← seeing (·.registered)
      let site := Site.disable process.isSome
      doing Plugin.removeProcess
      let verified ← verifyInstalledVersion site original.desiredVersion
      let stopped ← stopProcess site process
      let cleaned ← cleanupIf capable site verified original.desiredVersion
      let removed ← ask (.socket, site)
      let safe := verified && stopped && cleaned
      let written ← locked site fun p ↦ { p with
        state := p.state.map (disabledAt o.revision safe removed (!cleaned))
        log := p.log ++ noted (!cleaned) original.desiredVersion }
      pure (written && safe && removed)

def updated (original : PluginState) (o : Operation) (running : Bool) : PluginState :=
  let st := { original with
    previousVersion := original.desiredVersion
    desiredVersion := o.targetVersion
    cleanupPending := false
    cleanupVersion := ""
    configHash := o.configHash
    desiredRevision := max original.desiredRevision o.revision
    observedRevision := max original.observedRevision o.revision }
  if running then { st with enabled := true, health := .healthy, observedVersion := o.targetVersion }
  else { st with health := .installed }

def reverted (original : PluginState) (revision : Nat) (current : Option PluginState)
    (running : Bool) : PluginState :=
  let st := { mergePendingCleanup original current with
    desiredRevision := max original.desiredRevision revision }
  if running then
    { st with
      enabled := true
      health := .healthy
      observedVersion := original.desiredVersion
      cleanupPending := false
      cleanupVersion := ""
      observedRevision := max original.observedRevision revision }
  else { st with enabled := false, health := .unhealthy }

def updateNotStarted (original : PluginState) (o : Operation) (old : Option String) :
    Supervised Bool := do
  let blocked ← seeing fun p ↦ p.state.any (·.cleanupPending)
  if blocked then
    let _ ← recoverPluginCleanup capable .recoverUpdate
    let _ ← restoreConfig .update o.targetVersion old
    recordUpdateRollbackBlocked .update original o.revision
    pure false
  else
    let _ ← restoreConfig .update o.targetVersion old
    let process ← startVersion capable .revert original.desiredVersion
    let _ ← locked .revert fun p ↦ { p with
      state := some (reverted original o.revision p.state process.isSome)
      registered := if process.isSome then process else p.registered }
    pure false

def restarted (original : PluginState) (running : Bool) (current : PluginState) : PluginState :=
  if running then
    { current with
      enabled := true
      health := .healthy
      observedVersion := original.desiredVersion
      cleanupPending := false
      cleanupVersion := "" }
  else { current with enabled := false, health := .unhealthy }

def recoverTarget (due : Bool) (version : String) : Supervised Unit := do
  if due then
    markCleanupPending .update version
    let _ ← recoverPluginCleanup capable .recoverUpdate

def updateNotWritten (original : PluginState) (o : Operation) (old : Option String) (i : Nat) :
    Supervised Bool := do
  let (pending, ok) ←
    stopAndCleanupInstalledVersion capable .update o.targetVersion (some i)
  recoverTarget capable (!ok && pending) o.targetVersion
  let _ ← restoreConfig .update o.targetVersion old
  if ok then
    let process ← startVersion capable .revert original.desiredVersion
    let _ ← locked .revert fun p ↦ { p with
      state := p.state.map (restarted original process.isSome)
      registered := if process.isSome then process else p.registered }
    pure false
  else
    recordUpdateRollbackBlocked .update original o.revision
    pure false

def updateEnabled (original : PluginState) (o : Operation) (old : Option String) :
    Supervised Bool := do
  let process ← seeing (·.registered)
  doing Plugin.removeProcess
  let stopped ← stopProcess .update process
  let cleaned ← cleanupInstalledVersion capable .update original.desiredVersion
  if stopped && cleaned then
    if ← ask (.socket, .update) then
      match ← startVersion capable .update o.targetVersion with
      | none => updateNotStarted capable original o old
      | some i =>
        if ← lockedOr .update
            (fun p ↦ { p with state := some (updated original o true), registered := some i })
            (fun _ q ↦ { q with state := some original, registered := none }) then
          pure true
        else updateNotWritten capable original o old i
    else
      let _ ← restoreConfig .update o.targetVersion old
      recordConfigureStopFailure .update original
      pure false
  else
    let _ ← restoreConfig .update o.targetVersion old
    recordTransitionFailure .update original o.revision
      (if cleaned then "" else original.desiredVersion)
    pure false

def updateDisabled (original : PluginState) (o : Operation) (old : Option String) :
    Supervised Bool := do
  if ← cleanupInstalledVersion capable .update original.desiredVersion then
    if ← lockedOr .update
        (fun p ↦ { p with state := some (updated original o false) })
        (fun _ q ↦ { q with state := some original }) then
      pure true
    else
      let _ ← restoreConfig .update o.targetVersion old
      pure false
  else
    let _ ← restoreConfig .update o.targetVersion old
    recordTransitionFailure .update original o.revision original.desiredVersion
    pure false

def updateVersion (original : PluginState) (o : Operation) : Supervised Bool := do
  if ← verifyInstalledVersion .update o.targetVersion then
    if ← verifyInstalledVersion .update original.desiredVersion then
      if ← ask (.readConfig, .update) then
        let old ← seeing fun p ↦ p.config o.targetVersion
        if ← writeConfig .update o.targetVersion o.config then
          if original.enabled then updateEnabled capable original o old
          else updateDisabled capable original o old
        else pure false
      else pure false
    else pure false
  else pure false

def update (o : Operation) : Supervised Bool := do
  if ← ask (.accept, .update) then
    match ← seeing (·.state) with
    | none => pure false
    | some original =>
      if original.desiredVersion = o.targetVersion then
        if original.configHash = o.configHash then
          if ← ask (.readConfig, .update) then
            let stored ← seeing fun p ↦ p.config original.desiredVersion
            if stored = some o.config then
              if original.enabled then enable capable o
              else locked .update fun p ↦ { p with state := some { original with
                desiredRevision := max original.desiredRevision o.revision
                observedRevision := max original.observedRevision o.revision } }
            else configure capable o
          else pure false
        else configure capable o
      else updateVersion capable original o
  else pure false

def rollback (o : Operation) : Supervised Bool := do
  match ← seeing (·.state) with
  | none => pure false
  | some st =>
    if st.previousVersion = "" ∨ o.targetVersion ≠ st.previousVersion then pure false
    else update capable o

def healthCheck : Supervised Bool := do
  match ← seeing (·.state) with
  | none => pure false
  | some st =>
    if st.enabled then
      if ← ask (.health, .health) then
        locked .health fun p ↦ { p with
          state := p.state.map fun st ↦ { st with health := .healthy } }
      else
        recordPluginError .health
        pure false
    else pure true

def writeSecrets (o : Operation) : Supervised Unit := do
  if o.materialized then
    if ← ask (.secrets, .operation) then
      doing fun p ↦ p.did (.secrets o.targetVersion o.config)

/-- An operation between the staging of its secret materials and their commit. -/
def staged (o : Operation) (operation : Supervised Bool) : Supervised Bool := do
  writeSecrets o
  if ← ask (.stage, .operation) then
    if ← operation then ask (.commit, .operation) else pure false
  else pure false

def materializedEnable (o : Operation) : Supervised Bool := do
  if ← ask (.readConfig, .enable) then
    let old ← seeing fun p ↦ p.config o.targetVersion
    if ← writeConfig .enable o.targetVersion o.config then
      if ← enable capable o then pure true
      else
        let _ ← restoreConfig .enable o.targetVersion old
        pure false
    else pure false
  else pure false

def rejectStaleRevision (o : Operation) (allowCurrent : Bool) (state : Option PluginState) :
    Bool :=
  state.any fun st ↦ o.revision < st.desiredRevision ||
    (!allowCurrent && o.revision = st.desiredRevision)

def executePreparedOperation (kind : Kind) (o : Operation) : Supervised Bool :=
  match kind with
  | .install => installPrepared o.targetVersion o.revision
  | .inspect => seeing fun p ↦ p.state.isSome
  | .configure => staged o (configure capable o)
  | .enable =>
    if o.materialized then staged o (materializedEnable capable o) else enable capable o
  | .disable => disable capable o
  | .update => staged o (update capable o)
  | .rollback => staged o (rollback capable o)
  | .health => healthCheck

def executeOperation (kind : Kind) (o : Operation) (repairReplay : Bool) : Supervised Bool := do
  let stale ← seeing fun p ↦ rejectStaleRevision o repairReplay p.state
  if operationMutatesState kind && stale then pure false
  else executePreparedOperation capable kind o

/-- What `handle` executes under the lock of the plugin. -/
def execute (kind : Kind) (o : Operation) (repairReplay : Bool) : Supervised Bool := do
  if ← ask (.accept, .operation) then
    if operationMutatesState kind then
      if ← recoverPluginCleanup capable .recover then
        executeOperation capable kind o repairReplay
      else pure false
    else executeOperation capable kind o repairReplay
  else pure false

def exited (st : PluginState) : PluginState :=
  { st with enabled := false, health := .unhealthy, cleanupPending := true,
            cleanupVersion := st.desiredVersion }

def observed (ok : Bool) (st : PluginState) : PluginState :=
  { st with cleanupPending := !ok, cleanupVersion := if ok then "" else st.desiredVersion }

def observeProcessExit : Supervised Unit := do
  match ← seeing (·.state) with
  | none => doing Plugin.removeProcess
  | some st =>
    let _ ← locked .observe fun p ↦ { p with
      state := some (exited st)
      registered := none
      log := p.log ++ noted true st.desiredVersion }
    let verified ← verifyInstalledVersion .observe st.desiredVersion
    let cleaned ← cleanupIf capable .observe verified st.desiredVersion
    let removed ← ask (.socket, .observe)
    let _ ← locked .observe fun p ↦ { p with
      state := p.state.map (observed (verified && cleaned && removed)) }

def revived (original st : PluginState) : PluginState :=
  { st with
    enabled := true
    health := .healthy
    observedVersion := original.desiredVersion
    cleanupPending := false
    cleanupVersion := "" }

def restartStart (original : PluginState) : Supervised Unit := do
  match ← startVersion capable .restart original.desiredVersion with
  | none => recordPluginError .restart
  | some i =>
    if ← lockedOr .restarted
        (fun p ↦ { p with state := p.state.map (revived original), registered := some i })
        (fun _ q ↦ { q with state := some original, registered := none }) then
      pure ()
    else
      let _ ← stopProcess .restart (some i)

def restartMaintenanceInstance (original : PluginState) (process : Option Nat) :
    Supervised Unit := do
  doing Plugin.removeProcess
  let (pending, ok) ←
    stopAndCleanupInstalledVersion capable .restart original.desiredVersion process
  if ok then
    if ← ask (.socket, .restart) then restartStart capable original
  else
    recordTransitionFailure .restart original original.desiredRevision ""
    if pending then markCleanupPending .restart original.desiredVersion

/-- What a probe finds: nothing, a fault that only an operator mends, or one that a restart
may mend. -/
inductive Fault
  | none
  | manual
  | restartable
  deriving DecidableEq

def probe (st : PluginState) (process : Option Nat) : Supervised Fault := do
  if ← verifyInstalledVersion .maintenance st.desiredVersion then
    if ← ask (.accept, .maintenance) then
      if st.cleanupPending then pure .manual
      else if process.isNone then pure .restartable
      else if ← ask (.health, .maintenance) then pure .none else pure .restartable
    else pure .manual
  else pure .manual

/-- The store refuses the observation, or answers whether to restart; `restart` also folds the
classes of errors in which it does not. -/
def checkMaintenanceInstance : Supervised Unit := do
  match ← seeing (·.state) with
  | none => pure ()
  | some st =>
    if (!st.enabled && st.health ≠ .unhealthy) || st.desiredVersion = "" then pure ()
    else
      let process ← seeing (·.registered)
      let fault ← probe st process
      if ← ask (.observe, .maintenance) then
        let written ← locked .maintenance fun p ↦ { p with
          state := p.state.map fun st ↦ { st with
            health := if fault = .none then .healthy else .unhealthy } }
        if written && fault = .restartable then
          if ← ask (.restart, .maintenance) then restartMaintenanceInstance capable st process

def closed (verified stopped cleaned removed : Bool) (st : PluginState) : PluginState :=
  let owing := !(verified && stopped && cleaned)
  { st with
    health := if owing || !removed then .unhealthy else .stopped
    cleanupPending := owing
    cleanupVersion := if owing then st.desiredVersion else "" }

def removeSocketIf (site : Site) (go : Bool) : Supervised Bool :=
  if go then ask (.socket, site) else pure true

def closeProcess (st : PluginState) (i : Nat) : Supervised Unit := do
  let verified ← verifyInstalledVersion .close st.desiredVersion
  let stopped ← stopProcess .close (some i)
  let cleaned ← cleanupIf capable .close (stopped && verified) st.desiredVersion
  let removed ← removeSocketIf .close stopped
  doing fun p ↦ { p with
    registered := if stopped then none else p.registered
    state := p.state.map (closed verified stopped cleaned removed)
    log := p.log ++ noted (!(verified && stopped && cleaned)) st.desiredVersion }

def closePlugin : Supervised Unit := do
  let state ← seeing (·.state)
  let process ← seeing (·.registered)
  match state, process with
  | some st, some i => closeProcess capable st i
  | _, _ => pure ()
  let _ ← recoverPluginCleanup capable .recoverClose

/-- `Close`, as far as it concerns the plugin. It may give up before it has the plugins for
itself, or fail to lock this one. -/
def close : Supervised Unit := do
  if ← ask (.stage, .close) then
    if ← ask (.accept, .close) then closePlugin capable
    let _ ← locked .close id

def restored (st : PluginState) : PluginState :=
  { st with
    health := .healthy
    observedVersion := st.desiredVersion
    cleanupPending := false
    cleanupVersion := "" }

def restoreStart (st : PluginState) : Supervised Unit := do
  if ← ask (.interrupted, .restore) then
    let _ ← locked .restore fun p ↦ { p with
      state := p.state.map fun st ↦ { st with health := .interrupted } }
  else
    let process ← startVersion capable .restore st.desiredVersion
    doing fun p ↦ match process with
      | none => { p with state := p.state.map fun st ↦ { st with health := .unhealthy } }
      | some _ => { p with state := p.state.map restored, registered := process }
    let _ ← locked .restore id

def restoreEnabled : Supervised Unit := do
  match ← seeing (·.state) with
  | none => pure ()
  | some st =>
    if st.enabled && !st.cleanupPending then
      if ← ask (.monitored, .restore) then
        if ← ask (.failures, .restore) then
          if (← ask (.failing, .restore)) || st.health = .unhealthy then pure ()
          else restoreStart capable st
        else
          let _ ← locked .restore fun p ↦ { p with
            state := p.state.map fun st ↦ { st with health := .unhealthy } }
      else restoreStart capable st

def PluginState.debt (st : PluginState) : Option String :=
  if st.cleanupPending then some st.owes else none

def Plugin.load (p : Plugin) : Plugin :=
  { p with
    state := p.disk
    registered := none
    processes := []
    overlap := false
    log := p.log ++ [.loaded (p.disk.bind PluginState.debt)] }

def newSupervisor : Supervised Unit := do
  doing Plugin.load
  let _ ← recoverPluginCleanup capable .recoverStart
  restoreEnabled capable

/-- What runs under the lock of the plugin, and a write of the state file for something
else. -/
inductive Task
  | operation (kind : Kind) (o : Operation) (repairReplay : Bool)
  | install (version : String)
  | observe
  | maintenance
  | close
  | save
  | start
  deriving DecidableEq

def Task.program : Task → Supervised Unit
  | .operation kind o repairReplay => do let _ ← execute capable kind o repairReplay
  | .install version => do let _ ← installPrepared version 0
  | .observe => observeProcessExit capable
  | .maintenance => checkMaintenanceInstance capable
  | .close => Lifecycle.close capable
  | .save => do let _ ← locked .save id
  | .start => newSupervisor capable

/-- The Supervisor as one plugin sees it. `asked` is what its environment answered since the
process started. -/
structure System where
  up : Bool
  closing : Bool
  plugin : Plugin
  asked : List (Query × Bool)

def initial : System := ⟨false, false, ⟨none, none, [], false, fun _ ↦ none, none, []⟩, []⟩

def Plugin.exitedProcess (p : Plugin) : Bool :=
  p.registered.any fun i ↦ p.processes[i]?.any fun q ↦ q.fate ≠ .alive

def Task.enabled (s : System) : Task → Bool
  | .operation .. | .install _ | .maintenance => s.up && !s.closing
  | .observe => s.up && s.plugin.exitedProcess
  | .close | .save => s.up
  | .start => !s.up

/-- The end of the Supervisor: its memory is gone, and its plugin processes are killed with
it. -/
def Plugin.dead (p : Plugin) : Plugin :=
  { p with
    state := none
    registered := none
    processes := []
    overlap := false
    log := p.log ++ [.lost] }

/-- `crash` ends the Supervisor after some of the atomic actions of a task; at that moment the
file may have been written for something else. -/
inductive Action
  | run (task : Task) (answers : List Bool)
  | exit (i : Nat)
  | crash (task : Task) (answers : List Bool) (n : Nat) (saved : Bool)

def Task.begin (s : System) (task : Task) (answers : List Bool) : World Plugin Query :=
  ⟨s.plugin, answers, if task = .start then [] else s.asked⟩

def Task.opening (s : System) (task : Task) : Plugin :=
  if task = .start then s.plugin.load else s.plugin

/-- The plugin after each atomic action of a task, and at its end. -/
def moments (s : System) (task : Task) (answers : List Bool) : List Plugin :=
  let outcome := task.program capable (task.begin s answers)
  outcome.points.map (·.now) ++ [outcome.state.now]

def System.after (s : System) (task : Task) (w : World Plugin Query) : System :=
  { up := true
    closing := if task = .start then false else s.closing || task = .close
    plugin := w.now
    asked := w.asked }

def step (s : System) : Action → Option System
  | .run task answers =>
    if task.enabled s then
      some (s.after task (task.program capable (task.begin s answers)).state)
    else none
  | .exit i => some { s with plugin := s.plugin.leave i }
  | .crash task answers n saved =>
    if task.enabled s then
      let p := (moments capable s task answers)[n]?.getD (task.opening s)
      some { s with
        up := false
        plugin := (if saved then { p with disk := p.state } else p).dead }
    else none

end

end AnixAgent.Plugins.Lifecycle
