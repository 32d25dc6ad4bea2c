import AnixAgent.Lib.Runs

namespace AnixAgent.Configs.Machine

open Lib.Runs

variable {β σ π : Type}

def configFormatNodeConfigV1 : String := "anixops.nodeconfig/v1"

def configFormatNodeConfigV2 : String := "anixops.nodeconfig/v2"

def configErrorCodeInvalid : String := "config_invalid"

def configErrorCodeFormatUnsupported : String := "config_format_unsupported"

def configErrorCodeHashMismatch : String := "config_hash_mismatch"

def configErrorCodeApplyFailed : String := "config_apply_failed"

structure ConfigSnapshot (β : Type) where
  configRevision : Nat
  configHash : String
  format : String
  configJson : β
  deriving DecidableEq

structure ConfigStatus where
  configRevision : Nat
  configHash : String
  applied : Bool
  error : String
  errorCode : String
  deriving DecidableEq

/-- An error of the applier; `invalid` is whether it is an `ErrConfigInvalid`. -/
structure ApplyError where
  text : String
  invalid : Bool
  deriving DecidableEq

def configErrorCode (err : ApplyError) : String :=
  if err.invalid then configErrorCodeInvalid else configErrorCodeApplyFailed

/-- The node that the data plane drives: `apply` is its `ApplyConfig`, for any outcome
of the parts that can fail, and `sha256` the hash of a document in hex. -/
structure Applier (β σ π : Type) where
  forward : Bool
  sha256 : β → String
  apply : σ → ConfigSnapshot β → π → σ × Option ApplyError

def acceptsFormat (env : Applier β σ π) (format : String) : Bool :=
  format = configFormatNodeConfigV1 || (format = configFormatNodeConfigV2 && env.forward)

def formatsText (env : Applier β σ π) : String :=
  if env.forward then configFormatNodeConfigV1 ++ " and " ++ configFormatNodeConfigV2
  else configFormatNodeConfigV1

def hashMatches (env : Applier β σ π) (snapshot : ConfigSnapshot β) : Bool :=
  snapshot.configHash = env.sha256 snapshot.configJson

/-- Why a snapshot cannot be applied, and the error code; `none` when it can. -/
def verifySnapshot (env : Applier β σ π) (snapshot : ConfigSnapshot β) :
    Option (String × String) :=
  if snapshot.configRevision = 0 then some ("config_revision is required", configErrorCodeInvalid)
  else if !acceptsFormat env snapshot.format then
    some ("unknown configuration format \"" ++ snapshot.format ++ "\" (this Agent applies " ++
      formatsText env ++ ")", configErrorCodeFormatUnsupported)
  else if !hashMatches env snapshot then
    some ("config_hash does not match the SHA-256 of config_json", configErrorCodeHashMismatch)
  else none

/-- What last happened to the node: a call of `ApplyConfig` that returned, with whether
it returned nil, or the record that it runs a stored snapshot. -/
inductive Latest (β : Type)
  | called (snapshot : ConfigSnapshot β) (ok : Bool)
  | restored (snapshot : ConfigSnapshot β)
  deriving DecidableEq

/-- Where the node's start stands: it may apply the stored snapshot, then one that it
took from Control, until it lets the worker through. -/
inductive Startup (β : Type)
  | starting
  | applied (snapshot : ConfigSnapshot β)
  | taken (snapshot : ConfigSnapshot β)
  deriving DecidableEq

/-- The configuration part of the data plane. `worker` is the snapshot that the worker
applies; `queued` lists every status queued and `sent` those that went out; `latest` is
about the node. -/
structure System (β σ : Type) where
  node : σ
  active : Bool
  closed : Bool
  pendingConfig : Option (ConfigSnapshot β)
  appliedConfig : Option (ConfigSnapshot β)
  persistedConfig : Option (ConfigSnapshot β)
  lastConfigError : String
  pendingStatus : Option ConfigStatus
  negotiated : Bool
  startup : Startup β
  worker : Option (ConfigSnapshot β)
  queued : List ConfigStatus
  sent : List ConfigStatus
  latest : Option (Latest β)

def initial (node : σ) (persisted : Option (ConfigSnapshot β)) : System β σ where
  node := node
  active := false
  closed := false
  pendingConfig := none
  appliedConfig := none
  persistedConfig := persisted
  lastConfigError := ""
  pendingStatus := none
  negotiated := false
  startup := .starting
  worker := none
  queued := []
  sent := []
  latest := none

def flushStatus (s : System β σ) (delivered : Bool) : System β σ :=
  match s.pendingStatus with
  | none => s
  | some status =>
    if s.negotiated && delivered then { s with pendingStatus := none, sent := s.sent ++ [status] }
    else s

def queueStatus (s : System β σ) (status : ConfigStatus) (delivered : Bool) : System β σ :=
  flushStatus { s with pendingStatus := some status, queued := s.queued ++ [status] } delivered

def appliedStatus (snapshot : ConfigSnapshot β) : ConfigStatus :=
  ⟨snapshot.configRevision, snapshot.configHash, true, "", ""⟩

def finishConfig (s : System β σ) (snapshot : ConfigSnapshot β) (err : Option ApplyError)
    (delivered : Bool) : System β σ :=
  match err with
  | some err =>
    queueStatus { s with lastConfigError := err.text }
      ⟨snapshot.configRevision, snapshot.configHash, false, err.text, configErrorCode err⟩ delivered
  | none =>
    queueStatus { s with
        appliedConfig := some snapshot
        persistedConfig := some snapshot
        lastConfigError := "" } (appliedStatus snapshot) delivered

def receiveConfig (env : Applier β σ π) (s : System β σ) (snapshot : Option (ConfigSnapshot β))
    (delivered : Bool) : System β σ :=
  match snapshot with
  | none => s
  | some snapshot =>
    match verifySnapshot env snapshot with
    | some (problem, code) =>
      let answered :=
        if snapshot.configRevision ≠ 0 then
          queueStatus s ⟨snapshot.configRevision, snapshot.configHash, false, problem, code⟩ delivered
        else s
      { answered with lastConfigError := problem }
    | none => { s with pendingConfig := some snapshot }

/-- The shortcut of `applyPendingConfig`: the snapshot has the revision and the hash of
the last one applied. -/
def AlreadyApplied (s : System β σ) (snapshot : ConfigSnapshot β) : Prop :=
  ∃ applied ∈ s.appliedConfig, applied.configRevision = snapshot.configRevision ∧
    applied.configHash = snapshot.configHash

instance (s : System β σ) (snapshot : ConfigSnapshot β) : Decidable (AlreadyApplied s snapshot) :=
  inferInstanceAs (Decidable (∃ _ ∈ _, _))

inductive Action (β π : Type)
  | startStored (parts : π)
  | takeConfig
  | result (parts : π) (delivered : Bool)
  | activate
  | receive (snapshot : Option (ConfigSnapshot β)) (delivered : Bool)
  | session (negotiated : Bool)
  | flush (delivered : Bool)
  | begin (delivered : Bool)
  | applied (parts : π) (delivered : Bool)
  | close

def called (env : Applier β σ π) (s : System β σ) (snapshot : ConfigSnapshot β) (parts : π) :
    System β σ × Option ApplyError :=
  let (node, err) := env.apply s.node snapshot parts
  ({ s with node := node, latest := some (.called snapshot err.isNone) }, err)

def step (env : Applier β σ π) (s : System β σ) : Action β π → Option (System β σ)
  | .startStored parts =>
    match s.startup, s.persistedConfig, s.active with
    | .starting, some snapshot, false =>
      match called env s snapshot parts with
      | (s, none) =>
        some { s with
          appliedConfig := some snapshot
          latest := some (.restored snapshot)
          startup := .applied snapshot }
      | (s, some _) => some { s with persistedConfig := none }
    | _, _, _ => none
  | .takeConfig =>
    match s.startup, s.pendingConfig, s.active with
    | .starting, some snapshot, false =>
      some { s with pendingConfig := none, startup := .taken snapshot }
    | _, _, _ => none
  | .result parts delivered =>
    match s.startup, s.active with
    | .taken snapshot, false =>
      let (s, err) := called env s snapshot parts
      some (finishConfig { s with startup := .applied snapshot } snapshot err delivered)
    | _, _ => none
  | .activate => some { s with active := true }
  | .receive snapshot delivered => some (receiveConfig env s snapshot delivered)
  | .session negotiated => some { s with negotiated := negotiated }
  | .flush delivered => some (flushStatus s delivered)
  | .begin delivered =>
    match s.worker, s.pendingConfig with
    | none, some snapshot =>
      if !s.active || s.closed then none
      else if AlreadyApplied s snapshot then
        some (queueStatus { s with pendingConfig := none } (appliedStatus snapshot) delivered)
      else some { s with pendingConfig := none, worker := some snapshot }
    | _, _ => none
  | .applied parts delivered =>
    match s.worker with
    | none => none
    | some snapshot =>
      let (s, err) := called env { s with worker := none } snapshot parts
      -- A call that the end of the process cut short is not answered.
      if s.closed then some s else some (finishConfig s snapshot err delivered)
  | .close => some { s with closed := true }

end AnixAgent.Configs.Machine
