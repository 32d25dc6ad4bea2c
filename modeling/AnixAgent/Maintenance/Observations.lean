import AnixAgent.Maintenance.Machine

namespace AnixAgent.Maintenance.Observations

open Lib.Runs Lib.Tables
open Machine (maxQueueEvents)

def second : Int := 10 ^ 9

def minute : Int := 60 * second

def failureDuration : Int := 2 * minute

def recoveryDuration : Int := 5 * minute

def restartWindow : Int := 30 * minute

def restartLimit : Nat := 2

def zeroTime : Int := -62135596800 * second

def earliest : Int := 1577836800 * second

def maxStateBytes : Nat := 256 * 1024 * 1024

def maxEventBytes : Nat := 16 * 1024

def version : String := "anixops.maintenance/v1"

inductive Environment
  | production
  | staging
  | development
  deriving DecidableEq

inductive Source
  | agent
  | control
  | networkcore
  | deployment
  deriving DecidableEq

inductive Severity
  | p0
  | p1
  | p2
  | p3
  deriving DecidableEq

inductive Status
  | opened
  | degraded
  | recovered
  deriving DecidableEq

inductive SelfHealAction
  | unset
  | none
  | retry
  | restart
  | circuitBreak
  deriving DecidableEq

inductive SelfHealResult
  | unset
  | notAttempted
  | succeeded
  | failed
  | blocked
  deriving DecidableEq

/-- The checks of `ValidateAt` that a field is one of some words are the types of the fields. -/
structure Event where
  schemaVersion : Nat
  eventID : String
  occurredAt : Int
  environment : Environment
  source : Source
  nodeID : String
  agentVersion : String
  configVersion : String
  pluginID : String
  pluginVersion : String
  instanceID : String
  errorCode : String
  severity : Severity
  status : Status
  firstFailedAt : Option Int
  consecutiveFailures : Nat
  healthySince : Option Int
  selfHealAction : SelfHealAction
  selfHealResult : SelfHealResult
  diagnosticRef : String
  ticketKey : String
  redactedSummary : String
  deriving DecidableEq

def patterned (first rest : Char → Bool) (s : String) : Bool :=
  match s.toList with
  | [] => false
  | c :: cs => first c && cs.length ≤ 127 && cs.all rest

def identityPattern : String → Bool :=
  patterned Char.isAlphanum fun c ↦ c.isAlphanum || c ∈ ['.', '_', ':', '-']

def errorPattern : String → Bool :=
  patterned Char.isUpper fun c ↦ c.isUpper || c.isDigit || c ∈ ['_', '.', '-']

def versionPattern : String → Bool :=
  patterned Char.isAlphanum fun c ↦ c.isAlphanum || c ∈ ['.', '_', '+', '-']

def nodePattern : String → Bool :=
  patterned (fun c ↦ c.isDigit && c ≠ '0') Char.isDigit

def parseUint (s : String) : Option Nat :=
  let n := s.toList.foldl (fun n c ↦ 10 * n + (c.toNat - '0'.toNat)) 0
  if n < 2 ^ 64 then some n else none

abbrev Size (α : Type) := α → Option Nat

def Event.validateAt (size : Size Event) (now : Int) (e : Event) : Option String :=
  if e.schemaVersion ≠ 1 then some "invalid schema_version"
  else if !nodePattern e.nodeID || parseUint e.nodeID = none then some "invalid node_id"
  else if !identityPattern e.eventID then some "invalid event_id"
  else if !identityPattern e.pluginID then some "invalid plugin_id"
  else if !identityPattern e.instanceID then some "invalid instance_id"
  else if e.agentVersion ≠ "" ∧ !versionPattern e.agentVersion then some "invalid agent_version"
  else if e.configVersion ≠ "" ∧ !versionPattern e.configVersion then some "invalid config_version"
  else if !versionPattern e.pluginVersion then some "invalid plugin_version"
  else if !errorPattern e.errorCode then some "invalid error_code"
  else if e.occurredAt < earliest ∨ now + 5 * minute < e.occurredAt then some "invalid occurred_at"
  else if 1000000 < e.consecutiveFailures then some "invalid consecutive_failures"
  else if e.firstFailedAt.any fun at_ ↦ at_ < earliest ∨ e.occurredAt < at_ then
    some "invalid first_failed_at"
  else if e.healthySince.any fun at_ ↦ at_ < earliest ∨ e.occurredAt < at_ then
    some "invalid healthy_since"
  else if 256 < e.diagnosticRef.utf8ByteSize ∨ 256 < e.ticketKey.utf8ByteSize ∨
      2000 < e.redactedSummary.utf8ByteSize ∨
      '\x00' ∈ (e.diagnosticRef ++ e.ticketKey ++ e.redactedSummary).toList then
    some "invalid diagnostic fields"
  else if e.status = .recovered ∧ (e.healthySince = none ∨ e.consecutiveFailures ≠ 0) then
    some "invalid recovery"
  else if e.status ≠ .recovered ∧
      (e.firstFailedAt = none ∨ e.consecutiveFailures = 0 ∨ e.healthySince ≠ none) then
    some "invalid failure"
  else match size e with
    | none => some "json: unsupported value"
    | some n => if maxEventBytes < n then some "event exceeds maximum encoded size" else none

structure InstanceState where
  failureStreakAt : Option Int
  firstFailedAt : Option Int
  lastObservedAt : Int
  consecutiveFailures : Nat
  healthySince : Option Int
  isOpen : Bool
  errorCode : String
  restartTimes : List Int
  deriving DecidableEq

def InstanceState.zero : InstanceState := ⟨none, none, zeroTime, 0, none, false, "", []⟩

/-- A plugin and an instance of it. `instanceKey` joins the two with a byte that neither has. -/
structure Key where
  pluginID : String
  instanceID : String
  deriving DecidableEq

/-- `NextSequence` is a `uint64`, and no run takes it past its range. -/
structure DiskState where
  nextSequence : Nat
  order : Table String Nat
  version : String
  nodeID : String
  environment : Environment
  events : Table String Event
  instances : Table Key InstanceState

def DiskState.find (state : DiskState) (key : Key) : InstanceState :=
  (state.instances.lookup key).getD .zero

structure Store where
  nodeID : String
  environment : Environment
  agentVersion : String
  deriving DecidableEq

structure Observation where
  pluginID : String
  instanceID : String
  pluginVersion : String
  configVersion : String
  -- Empty means a successful real health check.
  errorCode : String
  restartAllowed : Bool
  deriving DecidableEq

/-- `instanceKey` of an observation, whose instance is the plugin when it names none. -/
def Observation.key (o : Observation) : Key :=
  ⟨o.pluginID, if o.instanceID = "" then o.pluginID else o.instanceID⟩

/-- How the calls of a transaction end. `access` is the lock and the reading of the file,
`write` the atomic write, whose last error may come after the rename. -/
inductive Write
  | done
  | unsynced (error : String)
  | refused (error : String)
  deriving DecidableEq

structure Calls where
  access : Except String Unit
  newEventID : Except String String
  clock : Int
  write : Write

/-- What a transaction makes of the state. `restart` is the decision of `Observe`; `accepted`
and `appended` are for the history: an observation that counts, and a new event. -/
structure Change where
  state : DiskState
  restart : Bool
  accepted : Bool
  appended : Option Event

/-- The end of a transaction: its error, the file, and the change that reached it. -/
structure Outcome where
  error : Option String
  file : Option DiskState
  change : Option Change

structure Sizes where
  event : Size Event
  state : Size DiskState

section

variable (sizes : Sizes)

def Store.fresh (s : Store) : DiskState := ⟨0, ∅, version, s.nodeID, s.environment, ∅, ∅⟩

/-- Every call of a `Store` locks the file, reads it, changes it and writes it. -/
def transaction (s : Store) (calls : Calls) (change : DiskState → Except String Change)
    (file : Option DiskState) : Outcome :=
  match calls.access with
  | .error err => ⟨some err, file, none⟩
  | .ok () =>
    let state := file.getD s.fresh
    if state.version ≠ version ∨ state.nodeID ≠ s.nodeID ∨ state.environment ≠ s.environment then
      ⟨some "maintenance state identity or version mismatch", file, none⟩
    else match change state with
      | .error err => ⟨some err, file, none⟩
      | .ok changed =>
        match sizes.state changed.state with
        | none => ⟨some "json: unsupported value", file, none⟩
        | some n =>
          if maxStateBytes < n then ⟨some "maintenance state capacity exceeded", file, none⟩
          else match calls.write with
            | .done => ⟨none, some changed.state, some changed⟩
            | .unsynced err => ⟨some err, some changed.state, some changed⟩
            | .refused err => ⟨some err, file, none⟩

abbrev DiskState.add (state : DiskState) (e : Event) : DiskState := { state with
  nextSequence := state.nextSequence + 1
  order := state.order.insert e.eventID (state.nextSequence + 1)
  events := state.events.insert e.eventID e }

def Store.append (s : Store) (clock : Int) (e : Event) (state : DiskState) :
    Except String (DiskState × Option Event) :=
  match e.validateAt sizes.event clock with
  | some err => .error err
  | none =>
    if e.nodeID ≠ s.nodeID then .error "maintenance event node does not match store"
    else match state.events.lookup e.eventID with
      | some existing =>
        if existing ≠ e then .error "maintenance event ID collision" else .ok (state, none)
      | none =>
        if maxQueueEvents ≤ state.events.entries.length then
          .error "maintenance outbox is full; event not accepted"
        else .ok (state.add e, some e)

def manualError (code : String) : Bool :=
  code ∈ ["PLUGIN_CREDENTIAL_INVALID", "PLUGIN_PERMISSION_DENIED", "PLUGIN_SIGNATURE_INVALID",
    "PLUGIN_CONFIG_INVALID"]

structure Verdict where
  inst : InstanceState
  emit : Bool
  status : Status
  action : SelfHealAction
  result : SelfHealResult
  restart : Bool

/-- The instance at a new time: a gap ends its healthy time, and old restarts do not count. -/
def InstanceState.advance (inst : InstanceState) (now : Int) : InstanceState :=
  { inst with
    healthySince := if minute < now - inst.lastObservedAt then none else inst.healthySince
    lastObservedAt := now
    restartTimes := inst.restartTimes.filter fun at_ ↦ now - restartWindow < at_ }

def observeHealthy (inst : InstanceState) (now : Int) : Verdict :=
  let since := inst.healthySince.getD now
  let emit := inst.isOpen && recoveryDuration ≤ now - since
  { inst := { inst with
      consecutiveFailures := 0
      failureStreakAt := none
      healthySince := some since
      firstFailedAt := if inst.isOpen then inst.firstFailedAt else none }
    emit := emit
    status := if emit then .recovered else .opened
    action := .none
    result := .notAttempted
    restart := false }

def InstanceState.fail (inst : InstanceState) (now : Int) (code : String) : InstanceState :=
  let failures := if inst.firstFailedAt = none then 0 else inst.consecutiveFailures
  { inst with
    healthySince := none
    failureStreakAt := some (inst.failureStreakAt.getD now)
    firstFailedAt := some (inst.firstFailedAt.getD now)
    consecutiveFailures := if failures < 1000000 then failures + 1 else failures
    errorCode := code }

def restartableError (code : String) : Bool :=
  code = "PLUGIN_HEALTH_FAILED" || code = "PLUGIN_PROCESS_EXITED"

def qualifies (inst : InstanceState) (now : Int) (code : String) : Bool :=
  (3 ≤ inst.consecutiveFailures && inst.failureStreakAt.any fun at_ ↦ failureDuration ≤ now - at_)
    || manualError code

def openIncident (o : Observation) (inst : InstanceState) (now : Int) : Verdict :=
  let inst := { inst with isOpen := true }
  if o.restartAllowed && restartableError o.errorCode then
    if inst.restartTimes.length < restartLimit then
      ⟨{ inst with restartTimes := inst.restartTimes ++ [now] }, true, .opened, .restart,
        .notAttempted, true⟩
    else ⟨inst, true, .opened, .circuitBreak, .blocked, false⟩
  else ⟨inst, true, .opened, .none, .blocked, false⟩

def observeFailure (o : Observation) (inst : InstanceState) (now : Int) : Verdict :=
  let inst := inst.fail now o.errorCode
  if qualifies inst now o.errorCode then openIncident o inst now
  else ⟨inst, false, .opened, .none, .notAttempted, false⟩

def Store.event (s : Store) (o : Observation) (inst : InstanceState) (now : Int) (id : String)
    (status : Status) (action : SelfHealAction) (result : SelfHealResult) : Event where
  schemaVersion := 1
  eventID := id
  occurredAt := now
  environment := s.environment
  source := .agent
  nodeID := s.nodeID
  agentVersion := s.agentVersion
  configVersion := o.configVersion
  pluginID := o.key.pluginID
  pluginVersion := o.pluginVersion
  instanceID := o.key.instanceID
  errorCode := inst.errorCode
  severity := if inst.errorCode = "PLUGIN_SIGNATURE_INVALID" then .p0 else .p2
  status := status
  firstFailedAt := inst.firstFailedAt
  consecutiveFailures := inst.consecutiveFailures
  healthySince := inst.healthySince
  selfHealAction := action
  selfHealResult := result
  diagnosticRef := ""
  ticketKey := ""
  redactedSummary := ""

def Verdict.settled (v : Verdict) : InstanceState :=
  if v.emit ∧ v.status = .recovered then
    { v.inst with isOpen := false, firstFailedAt := none, consecutiveFailures := 0, errorCode := "" }
  else v.inst

def Verdict.commit (v : Verdict) (key : Key) (state : DiskState) (appended : Option Event) :
    Change :=
  ⟨{ state with instances := state.instances.insert key v.settled }, v.restart, true, appended⟩

def Store.conclude (s : Store) (o : Observation) (now : Int) (calls : Calls) (v : Verdict)
    (state : DiskState) : Except String Change :=
  if v.emit then
    match calls.newEventID with
    | .error err => .error err
    | .ok id =>
      match s.append sizes calls.clock (s.event o v.inst now id v.status v.action v.result) state with
      | .error err => .error err
      | .ok (state, appended) => .ok (v.commit o.key state appended)
  else .ok (v.commit o.key state none)

def Store.observing (s : Store) (o : Observation) (now : Int) (calls : Calls) (state : DiskState) :
    Except String Change :=
  let inst := state.find o.key
  if now < inst.lastObservedAt then .error "maintenance observation clock moved backwards"
  -- Multiple monitors or exit + probe at the same instant do not create failures.
  else if now = inst.lastObservedAt then .ok ⟨state, false, false, none⟩
  else if o.errorCode = "" then
    s.conclude sizes o now calls (observeHealthy (inst.advance now) now) state
  else if !errorPattern o.errorCode then .error "invalid observation error code"
  else s.conclude sizes o now calls (observeFailure o (inst.advance now) now) state

def Store.observe (s : Store) (o : Observation) (now : Int) (calls : Calls)
    (file : Option DiskState) : Outcome :=
  if !identityPattern o.key.pluginID || !identityPattern o.key.instanceID then
    ⟨some "invalid plugin instance", file, none⟩
  else transaction sizes s calls (s.observing sizes o now calls) file

/-- The `Decision` of `Observe`. An error takes back what the transaction decided. -/
def Outcome.restart (out : Outcome) : Bool :=
  if out.error = none then out.change.any (·.restart) else false

def Store.completing (s : Store) (o : Observation) (now : Int) (failed : Bool) (calls : Calls)
    (state : DiskState) : Except String Change :=
  match state.instances.lookup o.key with
  | none => .error "restart has no persisted incident"
  | some inst =>
    if inst.isOpen = false then .error "restart has no persisted incident"
    else match calls.newEventID with
      | .error err => .error err
      | .ok id =>
        match s.append sizes calls.clock (s.event o inst now id .opened .restart
            (if failed then .failed else .succeeded)) state with
        | .error err => .error err
        | .ok (state, appended) => .ok ⟨state, false, false, appended⟩

def Store.completeRestart (s : Store) (o : Observation) (now : Int) (failed : Bool)
    (calls : Calls) : Option DiskState → Outcome :=
  transaction sizes s calls (s.completing sizes o now failed calls)

/-- `Open` forgets since when the instances are healthy. -/
def Store.opening (state : DiskState) : Except String Change :=
  let instances := mapValues (fun inst ↦ { inst with healthySince := none }) state.instances
  .ok ⟨{ state with instances := instances }, false, false, none⟩

def Store.openStore (s : Store) (calls : Calls) : Option DiskState → Outcome :=
  transaction sizes s calls Store.opening

def Store.queue (s : Store) (e : Event) (calls : Calls) : Option DiskState → Outcome :=
  transaction sizes s calls fun state ↦
    match s.append sizes calls.clock e state with
    | .error err => .error err
    | .ok (state, appended) => .ok ⟨state, false, false, appended⟩

def Store.removing (eventIDs : List String) (state : DiskState) : Except String Change :=
  .ok ⟨{ state with
    events := eventIDs.foldl (fun t id ↦ t.erase id) state.events
    order := eventIDs.foldl (fun t id ↦ t.erase id) state.order }, false, false, none⟩

def Store.remove (s : Store) (eventIDs : List String) (calls : Calls)
    (file : Option DiskState) : Outcome :=
  if eventIDs = [] then ⟨none, file, none⟩
  else transaction sizes s calls (Store.removing eventIDs) file

/-- `Pending` and `HasFailure` read the state and write it back. -/
def Store.read (s : Store) (calls : Calls) : Option DiskState → Outcome :=
  transaction sizes s calls fun state ↦ .ok ⟨state, false, false, none⟩

structure Accepted where
  key : Key
  time : Int
  errorCode : String
  deriving DecidableEq

/-- The state file and its history: what was observed, the events that `Observe` and
`CompleteRestart` appended, and the observations that were answered with a restart. -/
structure System where
  file : Option DiskState
  accepted : List Accepted
  appended : List Event
  granted : List (Key × Int)

def initial (file : Option DiskState) : System := ⟨file, [], [], []⟩

/-- One call, by any `Store` over the file. -/
inductive Action
  | openStore (s : Store) (calls : Calls)
  | observe (s : Store) (o : Observation) (now : Int) (calls : Calls)
  | completeRestart (s : Store) (o : Observation) (now : Int) (failed : Bool) (calls : Calls)
  | queue (s : Store) (e : Event) (calls : Calls)
  | remove (s : Store) (eventIDs : List String) (calls : Calls)
  | read (s : Store) (calls : Calls)

def Action.outcome (a : Action) (file : Option DiskState) : Outcome :=
  match a with
  | .openStore s calls => s.openStore sizes calls file
  | .observe s o now calls => s.observe sizes o now calls file
  | .completeRestart s o now failed calls => s.completeRestart sizes o now failed calls file
  | .queue s e calls => s.queue sizes e calls file
  | .remove s eventIDs calls => s.remove sizes eventIDs calls file
  | .read s calls => s.read sizes calls file

def Action.observation : Action → Option (Observation × Int)
  | .observe _ o now _ => some (o, now)
  | _ => none

def Action.queues : Action → Bool
  | .queue .. => true
  | _ => false

def System.note (t : System) (out : Outcome) : Option (Observation × Int) → System
  | none => t
  | some (o, now) =>
    { t with
      accepted := if out.change.any (·.accepted) then
        t.accepted ++ [⟨o.key, now, o.errorCode⟩] else t.accepted
      granted := if out.restart then t.granted ++ [(o.key, now)] else t.granted }

def step (s : System) (a : Action) : Option System :=
  let out := a.outcome sizes s.file
  let appended := if a.queues then none else out.change.bind (·.appended)
  some (System.note { s with file := out.file, appended := s.appended ++ appended.toList } out
    a.observation)

end

end AnixAgent.Maintenance.Observations
