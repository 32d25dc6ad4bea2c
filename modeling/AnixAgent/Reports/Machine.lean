import AnixAgent.Lib.Runs
import AnixAgent.ReportSpool.Machine

namespace AnixAgent.Reports.Machine

open ReportSpool.Machine Lib.Runs Lib.Tables

def reportAckTimeout : Int := 30 * 10 ^ 9

def reportWindow : Nat := 16

def reportErrorCodeUnavailable : String := "report_unavailable"

structure ReportAck where
  batchId : String
  applied : Bool
  error : String
  errorCode : String
  retryAfterMs : Int
  deriving DecidableEq

def ReportAck.unavailable (ack : ReportAck) : Bool :=
  !ack.applied && ack.error == "" && ack.errorCode == reportErrorCodeUnavailable

/-- The `time.Duration` of the answer, an int64. -/
def ReportAck.retry (ack : ReportAck) : Int :=
  let retry := Int.bmod (ack.retryAfterMs * 10 ^ 6) (2 ^ 64)
  if retry ≤ 0 then reportAckTimeout else retry

/-- The time that the answer states. -/
def ReportAck.stated (ack : ReportAck) : Int :=
  if ack.retryAfterMs ≤ 0 then reportAckTimeout else ack.retryAfterMs * 10 ^ 6

inductive Kind
  | traffic
  | logs
  | destinations
  deriving DecidableEq

/-- A `DataPlaneSession`, with the capabilities that reports need. Control gives
every session an id of its own; 0 stands for the empty one. -/
structure Session where
  id : Nat
  reports : Bool
  destinations : Bool
  deriving DecidableEq

def noSession : Session := ⟨0, false, false⟩

def Session.has (session : Session) : Kind → Bool
  | .traffic | .logs => session.reports
  | .destinations => session.destinations

structure ReportsState where
  session : Nat
  inflight : Table String Int
  notBefore : Table String Int
  acked : Nat
  duplicates : Nat
  refused : Nat
  deferred : Nat

structure Pass where
  session : Session
  now : Int
  deriving DecidableEq

/-- Where `replay` stands: the batch, those behind it in its spool, and the spools
behind that one. -/
structure Cursor where
  pass : Pass
  kind : Kind
  entry : Entry
  entries : List Entry
  rest : List Kind
  deriving DecidableEq

inductive Loop
  | waiting
  | woken (session : Session)
  | started (pass : Pass)
  | replaying (pass : Pass) (kinds : List Kind)
  | batches (pass : Pass) (kind : Kind) (entries : List Entry) (rest : List Kind)
  | checked (cursor : Cursor)
  | unreadable (cursor : Cursor) (err : String)
  | sending (cursor : Cursor)
  | streaming (cursor : Cursor)
  | sent (cursor : Cursor)
  deriving DecidableEq

/-- Where `runSession` stands: it takes a `ReportAck` in several steps. -/
inductive Receiver
  | offline
  | connected (session : Session)
  | running (session : Session)
  | removing (session : Session) (ack : ReportAck) (kinds : List Kind)
  | forgetting (session : Session) (ack : ReportAck)
  | closing (session : Session)
  | ended
  deriving DecidableEq

def Loop.session : Loop → Option Session
  | .waiting => none
  | .woken session => some session
  | .started pass | .replaying pass _ | .batches pass _ _ _ => some pass.session
  | .checked cursor | .unreadable cursor _ | .sending cursor | .streaming cursor | .sent cursor =>
    some cursor.pass.session

def Loop.pass : Loop → Option Pass
  | .waiting | .woken _ => none
  | .started pass | .replaying pass _ | .batches pass _ _ _ => some pass
  | .checked cursor | .unreadable cursor _ | .sending cursor | .streaming cursor | .sent cursor =>
    some cursor.pass

def Loop.replay : Loop → Option Pass
  | .waiting | .woken _ | .started _ => none
  | .replaying pass _ | .batches pass _ _ _ => some pass
  | .checked cursor | .unreadable cursor _ | .sending cursor | .streaming cursor | .sent cursor =>
    some cursor.pass

def Loop.committed : Loop → Option Cursor
  | .checked cursor | .sending cursor | .streaming cursor => some cursor
  | _ => none

def Loop.unrecorded : Loop → Option Cursor
  | .sent cursor => some cursor
  | _ => none

def Receiver.session : Receiver → Option Session
  | .connected session | .running session | .removing session _ _ | .forgetting session _ =>
    some session
  | .offline | .closing _ | .ended => none

def Receiver.live : Receiver → Option Session
  | .running session | .removing session _ _ | .forgetting session _ => some session
  | .offline | .connected _ | .closing _ | .ended => none

/-- A batch on the stream: the time it was sent, the retry time that Control's last
answer for it stated, and how many of the batches sent since the timeout then awaited
their answer. -/
structure Sent where
  batchId : String
  sentAt : Int
  retryAt : Option Int
  outstanding : Nat
  deriving DecidableEq

structure Config where
  nodeKind : String
  nodeID : Nat
  bootID : String

/-- The data plane's reports. The last four fields record what happened in the
session whose stream is open: when the batches that await their answer were sent, the
retry times that Control stated, and everything sent so far. -/
structure System where
  spools : Kind → Option State
  submitting : List (Kind × AgentToControl)
  seq : Nat
  clock : Int
  sessions : Nat
  connected : Option Session
  dataSession : Session
  reports : ReportsState
  receiver : Receiver
  loop : Loop
  stream : Option Nat
  awaiting : Table String Int
  retryAt : Table String Int
  log : List Sent

def initialReports : ReportsState where
  session := 0
  inflight := ∅
  notBefore := ∅
  acked := 0
  duplicates := 0
  refused := 0
  deferred := 0

def initial (spools : Kind → Option State) (clock : Int) : System where
  spools := spools
  submitting := []
  seq := 0
  clock := clock
  sessions := 0
  connected := none
  dataSession := noSession
  reports := initialReports
  receiver := .offline
  loop := .waiting
  stream := none
  awaiting := ∅
  retryAt := ∅
  log := []

def recent (table : Table String Int) (now : Int) : Nat :=
  count (fun sentAt ↦ now - sentAt < reportAckTimeout) table

def takeSession (s : System) (pass : Pass) : System :=
  { s with
    reports := if s.reports.session = pass.session.id then s.reports else
      { s.reports with
        session := pass.session.id
        inflight := ∅
        notBefore := ∅ }
    loop := if pass.session.reports then .replaying pass [.traffic, .logs, .destinations]
      else .waiting }

def checkBatch (s : System) (cursor : Cursor) : System :=
  let id := cursor.entry.batchId
  let now := cursor.pass.now
  let deferred := (s.reports.notBefore.lookup id).any fun until_ ↦ now < until_
  let inflight := (s.reports.inflight.lookup id).any fun sentAt ↦ now - sentAt < reportAckTimeout
  { s with
    reports := if deferred then s.reports else
      { s.reports with notBefore := s.reports.notBefore.erase id }
    loop := if deferred ∨ inflight then .batches cursor.pass cursor.kind cursor.entries cursor.rest
      else if reportWindow ≤ recent s.reports.inflight now then .waiting
      else .checked cursor }

/-- The stream takes the batch. The data plane then records the time of the pass for it,
which may have begun long before. -/
def streamSend (s : System) (cursor : Cursor) : System :=
  let id := cursor.entry.batchId
  let awaiting := s.awaiting.insert id s.clock
  { s with
    loop := .sent cursor
    awaiting := awaiting
    log := ⟨id, s.clock, s.retryAt.lookup id, recent awaiting s.clock⟩ :: s.log }

def setSpool (s : System) (kind : Kind) (spool : State) : System :=
  { s with spools := Function.update s.spools kind (some spool) }

def Cursor.next (cursor : Cursor) : Loop :=
  .batches cursor.pass cursor.kind cursor.entries cursor.rest

/-- One atomic step of `runReports`; `env` is what a call of a spool meets, and `ok`
whether the stream takes the message. -/
def loopStep (codec : Codec) (env : Env) (ok : Bool) (s : System) : System :=
  match s.loop with
  | .waiting => { s with loop := .woken s.dataSession }
  | .woken session => { s with loop := .started ⟨session, s.clock⟩ }
  | .started pass => takeSession s pass
  | .replaying _ [] => { s with loop := .waiting }
  | .replaying pass (kind :: rest) =>
    match s.spools kind with
    | none => { s with loop := .replaying pass rest }
    | some spool =>
      if pass.session.has kind then
        let outcome := pending env spool
        { setSpool s kind outcome.state with loop := .batches pass kind outcome.value rest }
      else { s with loop := .replaying pass rest }
  | .batches pass _ [] rest => { s with loop := .replaying pass rest }
  | .batches pass kind (entry :: entries) rest => checkBatch s ⟨pass, kind, entry, entries, rest⟩
  | .checked cursor =>
    match s.spools cursor.kind with
    | none => { s with loop := cursor.next }
    | some spool =>
      match (read codec env cursor.entry.batchId spool).value with
      | .error err => { s with loop := .unreadable cursor err }
      | .ok none => { s with loop := cursor.next }
      | .ok (some _) => { s with loop := .sending cursor }
  | .unreadable cursor _ =>
    match s.spools cursor.kind with
    | none => { s with loop := cursor.next }
    | some spool =>
      { setSpool s cursor.kind (remove env cursor.entry.batchId spool).state with loop := cursor.next }
  | .sending cursor =>
    if s.connected.any (fun session ↦ session.id = cursor.pass.session.id ∧
        session.has cursor.kind) then { s with loop := .streaming cursor }
    else { s with loop := .waiting }
  | .streaming cursor =>
    -- A stream that is no longer the session's was cancelled, and takes nothing.
    if ok ∧ s.stream = some cursor.pass.session.id then streamSend s cursor
    else { s with loop := .waiting }
  | .sent cursor =>
    { s with
      reports := { s.reports with
        inflight := s.reports.inflight.insert cursor.entry.batchId cursor.pass.now }
      loop := cursor.next }

/-- A batch whose answer is `report_unavailable` is put off. -/
abbrev System.putOff (s : System) (ack : ReportAck) : System := { s with
  reports := { s.reports with
    deferred := s.reports.deferred + 1
    inflight := s.reports.inflight.erase ack.batchId
    notBefore := s.reports.notBefore.insert ack.batchId (s.clock + ack.retry) }
  awaiting := s.awaiting.erase ack.batchId
  retryAt := s.retryAt.insert ack.batchId (s.clock + ack.stated) }

def receiveReportAck (s : System) (session : Session) (ack : ReportAck) : System :=
  if ack.batchId = "" then s
  else if ack.unavailable then s.putOff ack
  else { s with receiver := .removing session ack [.traffic, .logs, .destinations] }

/-- The rest of `receiveReportAck` for an answer that is final: the spools are asked
in turn for the batch, and then the data plane forgets it. -/
def handleStep (env : Env) (s : System) : Option System :=
  match s.receiver with
  | .removing session ack [] => some { s with receiver := .forgetting session ack }
  | .removing session ack (kind :: rest) =>
    match s.spools kind with
    | none => some { s with receiver := .removing session ack rest }
    | some spool =>
      let outcome := remove env ack.batchId spool
      some { setSpool s kind outcome.state with
        receiver := if outcome.value then .forgetting session ack else .removing session ack rest }
  | .forgetting session ack =>
    some { s with
      reports := { s.reports with
        inflight := s.reports.inflight.erase ack.batchId
        notBefore := s.reports.notBefore.erase ack.batchId
        acked := if ack.applied ∨ (ack.error = "" ∧ ack.errorCode = "") then s.reports.acked + 1
          else s.reports.acked
        duplicates := if ¬ ack.applied ∧ ack.error = "" ∧ ack.errorCode = "" then
          s.reports.duplicates + 1 else s.reports.duplicates
        refused := if ¬ ack.applied ∧ ¬ (ack.error = "" ∧ ack.errorCode = "") then
          s.reports.refused + 1 else s.reports.refused }
      receiver := .running session
      awaiting := s.awaiting.erase ack.batchId
      retryAt := s.retryAt.erase ack.batchId }
  | _ => none

def Kind.mark : Kind → String
  | .traffic | .logs => ""
  | .destinations => "destinations-"

def nextBatchID (config : Config) (kind : Kind) (seq : Nat) : String :=
  "node:" ++ config.nodeKind ++ "-" ++ toString config.nodeID ++ ":" ++ config.bootID ++ ":" ++
    kind.mark ++ toString seq

def payloadOf (kind : Kind) (batchId : String) (content : List UInt8) : Payload :=
  match kind with
  | .traffic => .traffic batchId content
  | .logs => .logs batchId content
  | .destinations => .destinations batchId content

inductive Action
  | tick (duration : Nat)
  | loop (env : Env) (ok : Bool)
  | submit (kind : Kind) (content : List UInt8)
  | append (kind : Kind) (message : AgentToControl) (sentAtUnixMs : Int) (env : Env)
  | connect (reports destinations : Bool)
  | start
  | receive (ack : ReportAck)
  | handle (env : Env)
  | close
  | finish
  | disconnect

abbrev System.connect (s : System) (session : Session) : System := { s with
  sessions := s.sessions + 1
  connected := some session
  receiver := .connected session
  stream := some session.id
  awaiting := ∅
  retryAt := ∅ }

def step (config : Config) (codec : Codec) (s : System) : Action → Option System
  | .tick duration => some { s with clock := s.clock + duration }
  | .loop env ok => some (loopStep codec env ok s)
  | .submit kind content =>
    if (s.spools kind).isSome then
      let message := payloadOf kind (nextBatchID config kind (s.seq + 1)) content
      some { s with
        seq := s.seq + 1
        submitting := (kind, ⟨0, message⟩) :: s.submitting }
    else none
  | .append kind message sentAtUnixMs env =>
    match s.spools kind with
    | none => none
    | some spool =>
      if (kind, message) ∈ s.submitting then
        let stored := append codec env { message with sentAtUnixMs := sentAtUnixMs } spool
        some { setSpool s kind stored.state with
          submitting := s.submitting.erase (kind, message) }
      else none
  | .connect reports destinations =>
    match s.receiver with
    | .offline =>
      some (s.connect ⟨s.sessions + 1, reports, destinations⟩)
    | _ => none
  | .start =>
    match s.receiver with
    | .connected session => some { s with dataSession := session, receiver := .running session }
    | _ => none
  | .receive ack =>
    match s.receiver with
    | .running session => some (if session.reports then receiveReportAck s session ack else s)
    | _ => none
  | .handle env => handleStep env s
  | .close =>
    match s.receiver with
    | .running session => some { s with receiver := .closing session, stream := none }
    | _ => none
  | .finish =>
    match s.receiver with
    | .closing _ => some { s with receiver := .ended, dataSession := noSession }
    | _ => none
  | .disconnect =>
    match s.receiver with
    | .ended => some { s with receiver := .offline, connected := none }
    | _ => none

end AnixAgent.Reports.Machine
