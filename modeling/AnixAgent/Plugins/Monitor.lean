import AnixAgent.Maintenance.Calls
import AnixAgent.Plugins.Frames
import AnixAgent.Plugins.Replays
import AnixAgent.Plugins.Supervision

namespace AnixAgent.Plugins.Monitor

open Lib.Answers Lifecycle Debts Frames Supervision
open Journal (JournalEntry Kind Write interruptedRuntimeTransition loadJournal)
open Maintenance.Observations (Calls DiskState Observation Outcome Sizes Store)

/-- `machinetelemetry.ID`. -/
def machineTelemetry : String := "machine-telemetry"

/-- An error, by what `maintenanceErrorCode` asks of its type. -/
inductive Failure
  | permission
  | unauthenticated
  | invalidArgument
  | other (text : String)
  deriving DecidableEq

def mentions (text word : String) : Bool := word.toList <:+: text.toList.map Char.toLower

def maintenanceErrorCode : Failure → String
  | .permission => "PLUGIN_PERMISSION_DENIED"
  | .unauthenticated => "PLUGIN_CREDENTIAL_INVALID"
  | .invalidArgument => "PLUGIN_CONFIG_INVALID"
  | .other text =>
    if mentions text "signature" || mentions text "checksum" then "PLUGIN_SIGNATURE_INVALID"
    else if mentions text "permission" || mentions text "access denied" then
      "PLUGIN_PERMISSION_DENIED"
    else if mentions text "credential" || mentions text "unauthenticated" ||
        mentions text "unauthorized" then
      "PLUGIN_CREDENTIAL_INVALID"
    else if mentions text "config" || mentions text "invalid argument" then
      "PLUGIN_CONFIG_INVALID"
    else "PLUGIN_HEALTH_FAILED"

def exitCode (lastError : String) : String :=
  let code := maintenanceErrorCode (.other lastError)
  if code ≠ "PLUGIN_HEALTH_FAILED" then code else "PLUGIN_PROCESS_EXITED"

def told (answers : List (Query × Bool)) (q : Query) : Option Bool :=
  (answers.find? fun x ↦ x.1 = q).map (·.2)

/-- The code that `checkMaintenanceInstance` observes, by the answers to its probe. -/
def errorCode (st : PluginState) (process : Option Nat) (lastError : String) (failure : Failure)
    (answers : List (Query × Bool)) : String :=
  if told answers (.verify, .maintenance) = some false then "PLUGIN_SIGNATURE_INVALID"
  else if told answers (.accept, .maintenance) = some false then "PLUGIN_CONFIG_INVALID"
  else if st.cleanupPending then "PLUGIN_PERMISSION_DENIED"
  else if process = none then exitCode lastError
  else if told answers (.health, .maintenance) = some false then maintenanceErrorCode failure
  else ""

def maintenanceObservation (id : String) (st : PluginState) (code : String) : Observation where
  pluginID := id
  instanceID := id
  pluginVersion := st.desiredVersion
  configVersion := toString st.desiredRevision
  errorCode := code
  restartAllowed := id = machineTelemetry

def kindName : Kind → String
  | .install => "plugin.install"
  | .inspect => "plugin.inspect"
  | .configure => "plugin.configure"
  | .enable => "plugin.enable"
  | .disable => "plugin.disable"
  | .update => "plugin.update"
  | .rollback => "plugin.rollback"
  | .health => "plugin.health"

/-- The last error of a plugin whose restore is held back by an entry of the journal. -/
def deferral (entry : JournalEntry) : String :=
  "automatic restore deferred pending exact replay of " ++ kindName entry.kind ++ " operation " ++
    entry.operationID ++ " at revision " ++ toString entry.revision

/-- One plugin, the journal of all operations, and the file of the maintenance store.
`lastError` is the text in the plugin's entry. -/
structure Agent where
  journal : Journal.Supervisor
  system : System
  lastError : String
  file : Option DiskState

def initial (file : Option DiskState) : Agent := ⟨Journal.initial, Lifecycle.initial, "", file⟩

/-- What can be begun: a journaled operation of the plugin, another task, a round of the monitor,
and the start of a Supervisor. -/
inductive Attempt
  | execute (operationID : String) (o : Operation)
  | task (task : Task)
  | round (now : Int) (calls : Calls) (failure : Failure)
  | start (write : Write)

section

variable (capable : String → Bool) (id : String) (sizes : Sizes) (store : Store)

def Attempt.begins (s : Agent) : Attempt → Option Task
  | .execute operationID o =>
    (s.journal.running.find? fun x ↦ x.operationID = operationID).bind fun x ↦
      if x.envelope.pluginID = id ∧ x.envelope.targetVersion = o.targetVersion ∧
          x.envelope.revision = o.revision then
        some (.operation x.kind o x.repairReplay)
      else none
  | .task other =>
    match other with
    | .operation .. | .maintenance | .start => none
    | _ => some other
  | .round .. => some .maintenance
  | .start write => if (Journal.load s.journal write).up then some .start else none

/-- The entry of the journal that holds back the restore when the file is read. -/
def Agent.blocker (s : Agent) : Option JournalEntry :=
  s.system.plugin.disk.bind fun st ↦
    interruptedRuntimeTransition (loadJournal s.journal.disk) id st.desiredRevision

def Agent.observation (s : Agent) (failure : Failure) (answers : List (Query × Bool)) :
    Option Observation :=
  s.system.plugin.state.map fun st ↦ maintenanceObservation id st
    (errorCode st s.system.plugin.registered s.lastError failure answers)

def Agent.observed (s : Agent) (now : Int) (calls : Calls) (failure : Failure)
    (answers : List (Query × Bool)) : Option Outcome :=
  (s.observation id failure answers).map fun o ↦ store.observe sizes o now calls s.file

/-- The answers that the journal and the store determine. A round may be cancelled before it
calls the store. -/
def Attempt.agrees (s : Agent) (answers : List (Query × Bool)) : Attempt → Bool
  | .round now calls failure =>
    let out := s.observed id sizes store now calls failure answers
    answers.all fun x ↦ match x with
      | ((.accept, .maintenance), b) => b || decide (id = machineTelemetry)
      | ((.observe, .maintenance), b) => !b || out.any fun out ↦ out.error = none
      | ((.restart, .maintenance), b) => b = out.any (·.restart)
      | _ => true
  | .start _ =>
    answers.all fun x ↦ match x with
      | ((.interrupted, .restore), b) => b = (s.blocker id).isSome
      | _ => true
  | _ => true

def Attempt.journal (s : Agent) : Attempt → Journal.Supervisor
  | .start write => Journal.load s.journal write
  | _ => s.journal

def Attempt.lastError (s : Agent) (answers : List (Query × Bool)) (error : String) :
    Attempt → String
  | .round _ _ failure =>
    if ((.restart, .maintenance), true) ∈ answers then error
    else if ((.observe, .maintenance), true) ∈ answers then
      ((s.observation id failure answers).map (·.errorCode)).getD s.lastError
    else s.lastError
  | .start _ =>
    if ((.interrupted, .restore), true) ∈ answers then ((s.blocker id).map deferral).getD error
    else error
  | _ => error

def Attempt.file (s : Agent) (answers : List (Query × Bool)) : Attempt → Option DiskState
  | .round now calls failure =>
    match s.observed id sizes store now calls failure answers with
    | some out =>
      if told answers (.observe, .maintenance) = some out.error.isNone then out.file else s.file
    | none => s.file
  | _ => s.file

/-- `journal` is a round of `handle`, the end of an execution or a write of the state file, and
`store` a call of the maintenance store by anyone. A start can fail when `load` cannot write the
interrupted entries. -/
inductive Action
  | journal (a : Journal.Action)
  | store (a : Maintenance.Observations.Action)
  | run (attempt : Attempt) (answers : List Bool) (error : String)
  | exit (i : Nat)
  | crash (attempt : Attempt) (answers : List Bool) (n : Nat) (saved : Bool)
  | fail (write : Write)

def Agent.crashed (s : Agent) (attempt : Attempt) (answers : List (Query × Bool)) (t : System) :
    Agent :=
  { s with
    journal := { attempt.journal s with up := false, journal := ∅, running := [] }
    system := t
    file := attempt.file id sizes store s answers }

def step (s : Agent) : Action → Option Agent
  | .journal a =>
    if Replays.Stays a then (Journal.step s.journal a).map fun j ↦ { s with journal := j } else none
  | .store a => some { s with file := (a.outcome sizes s.file).file }
  | .run attempt answers error =>
    (attempt.begins id s).bind fun task ↦
      let w := task.begin s.system answers
      let new := answered w (task.program capable w).state
      if attempt.agrees id sizes store s new then
        (Lifecycle.step capable s.system (.run task answers)).map fun t ↦
          ⟨attempt.journal s, t, attempt.lastError id s new error,
            attempt.file id sizes store s new⟩
      else none
  | .exit i => (Lifecycle.step capable s.system (.exit i)).map fun t ↦ { s with system := t }
  | .crash attempt answers n saved =>
    (attempt.begins id s).bind fun task ↦
      let w := task.begin s.system answers
      let new := ((scenes capable s.system task answers)[n]?.map (answered w)).getD []
      if attempt.agrees id sizes store s new then
        (Lifecycle.step capable s.system (.crash task answers n saved)).map
          (s.crashed id sizes store attempt new)
      else none
  | .fail write =>
    if s.system.up || (Journal.load s.journal write).up then none
    else some { s with journal := Journal.load s.journal write }

end

end AnixAgent.Plugins.Monitor
