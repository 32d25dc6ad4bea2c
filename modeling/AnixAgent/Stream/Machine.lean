import AnixAgent.Lib.Runs
import AnixAgent.Stream.SessionOperations

namespace AnixAgent.Stream.Machine

open SessionOperations Lib.Runs Lib.Tables

def operationQueueSize : Nat := 32
def completedCacheSize : Nat := 256

structure OperationAck where
  operationId : String
  revision : Nat
  accepted : Bool
  error : String
  deriving DecidableEq

def ackOf (op : DesiredOperation) (accepted : Bool) (error : String) : OperationAck :=
  ⟨op.operationId, op.revision, accepted, error⟩

/-- A state reported for `op`. The clock is read when it is made. -/
def observedOf (op : DesiredOperation) (phase : ObservedPhase) (message : String) (now : Int) :
    ObservedState :=
  ⟨op.operationId, op.revision, phase, message, [], now⟩

def staleText : String := "operation revision is stale"
def becameStaleText : String := "operation revision became stale before execution"
def completedText (revision : Nat) : String :=
  s!"operation_id was already completed at revision {revision}"

inductive AfterAck
  | done
  | resend (observed : ObservedState)
  | stale (op : DesiredOperation)
  | complete (op : DesiredOperation) (phase : ObservedPhase) (message : String)
      (unmark : Option DesiredOperation)
  deriving DecidableEq

/-- Where the receive loop of `runSession` stands between two atomic steps. -/
inductive Receiver
  | offline
  | idle
  | lookup (op : DesiredOperation)
  | checkDeadline (op : DesiredOperation)
  | checkStale (op : DesiredOperation)
  | checkAdmission (op : DesiredOperation)
  | enqueue (op : DesiredOperation)
  | push (op : DesiredOperation)
  | unqueue (op : DesiredOperation)
  | lookupCancel (op : DesiredOperation)
  | requestCancel (op : DesiredOperation)
  | cancelContext (op : DesiredOperation) (context : Nat)
  | acknowledge (ack : OperationAck) (after : AfterAck)
  | resend (observed : ObservedState)
  | store (terminal : ObservedState) (unmark : Option DesiredOperation)
  | remember (terminal : ObservedState) (unmark : Option DesiredOperation)
  | report (terminal : ObservedState) (unmark : Option DesiredOperation)
  | unmark (op : DesiredOperation) (failed : Bool)
  | close
  | cancelContexts (contexts : List Nat)
  | cancelSession
  | waitWorker
  deriving DecidableEq

/-- Why `executeOperation` calls `operations.finish`, and what follows it. -/
inductive Exit
  | failed (message : String)
  | stale
  | abandoned
  | result (state : List UInt8) (err : Option String)
  deriving DecidableEq

inductive AfterReport
  | done
  | finishExpired (op : DesiredOperation)
  | finishCancellation (op : DesiredOperation)
  deriving DecidableEq

/-- Where the operation worker stands between two atomic steps. -/
inductive Worker
  | stopped
  | idle
  | begin (op : DesiredOperation)
  | checkExpired (op : DesiredOperation)
  | checkDeadline (op : DesiredOperation) (context : Nat)
  | checkStale (op : DesiredOperation) (context : Nat)
  | sendApplying (op : DesiredOperation) (context : Nat)
  | checkContext (op : DesiredOperation) (context : Nat)
  | call (op : DesiredOperation) (context : Nat)
  | handling (op : DesiredOperation) (context : Nat)
  | finish (op : DesiredOperation) (exit : Exit)
  | store (terminal : ObservedState) (after : AfterReport)
  | remember (terminal : ObservedState) (after : AfterReport)
  | report (terminal : ObservedState) (after : AfterReport)
  | clear (after : AfterReport)
  deriving DecidableEq

inductive Thread
  | receiver
  | worker
  deriving DecidableEq

/-- What the client did, newest first in `Client.log`. -/
inductive Event
  | arrived (op : DesiredOperation)
  | cancelArrived (op : DesiredOperation)
  | acked (ack : OperationAck)
  | sent (thread : Thread) (observed : ObservedState)
  | handled (op : DesiredOperation)
  | stored (thread : Thread) (terminal : ObservedState)
  | remembered (thread : Thread) (terminal : ObservedState)
  deriving DecidableEq

structure Client where
  desiredRevision : Nat
  observedRevision : Nat
  completed : Table String ObservedState
  completedOrder : List String
  /-- `Client.Close` cancelled the client's context. -/
  cancelled : Bool
  operations : SessionOperationState
  operationQueue : List DesiredOperation
  sessionCancelled : Bool
  contexts : Nat → Bool
  nextContext : Nat
  receiver : Receiver
  worker : Worker
  log : List Event

def newClient : Client where
  desiredRevision := 0
  observedRevision := 0
  completed := ∅
  completedOrder := []
  cancelled := false
  operations := newSessionOperationState
  operationQueue := []
  sessionCancelled := false
  contexts := fun _ ↦ false
  nextContext := 0
  receiver := .offline
  worker := .stopped
  log := []

/-- What a step reads from outside the client. `timer` says that the deadline
of the operation's context fired before anything cancelled the context. -/
structure Env where
  now : Int
  timer : Bool
  sendOk : Bool
  refusal : Option String
  state : List UInt8
  err : Option String
  deriving DecidableEq

inductive Action
  | connect (desiredRevision : Nat)
  | deliver (op : Option DesiredOperation)
  | receive (env : Env)
  | leave
  | take
  | quit
  | work (env : Env)
  | stop
  deriving DecidableEq

def evictCompleted :
    List String → Table String ObservedState → List String × Table String ObservedState
  | [], completed => ([], completed)
  | oldest :: order, completed =>
    if completedCacheSize < order.length + 1 then evictCompleted order (completed.erase oldest)
    else (oldest :: order, completed)

def rememberCompleted (c : Client) (observed : ObservedState) : Client :=
  let order := if (c.completed.lookup observed.operationId).isSome then c.completedOrder
    else c.completedOrder ++ [observed.operationId]
  let (order, completed) := evictCompleted order (c.completed.insert observed.operationId observed)
  { c with completed := completed, completedOrder := order }

def storeMax (current value : Nat) : Nat := max current value

def storeObservedRevision (c : Client) (revision : Nat) : Client :=
  { c with observedRevision := storeMax c.observedRevision revision }

def emit (c : Client) (e : Event) : Client := { c with log := e :: c.log }

inductive ContextError
  | canceled
  | deadlineExceeded
  deriving DecidableEq

/-- `operationCtx.Err()`: the operation's context is below the session's, which
is below the client's. -/
def contextErr (c : Client) (op : DesiredOperation) (context : Nat) (env : Env) :
    Option ContextError :=
  if decide (0 < op.deadlineUnixMs) && env.timer then some .deadlineExceeded
  else if c.contexts context || c.sessionCancelled || c.cancelled then some .canceled
  else none

def handlerTerminal (op : DesiredOperation) (wasCancelled : Bool) (state : List UInt8)
    (err : Option String) (env : Env) : ObservedState :=
  let deadlineExceeded := operationDeadlineExceeded op env.now ||
    (decide (0 < op.deadlineUnixMs) && env.timer)
  if wasCancelled then observedOf op .superseded operationCancelledText env.now
  else if deadlineExceeded then observedOf op .failed operationDeadlineText env.now
  else match err with
    | some message => { observedOf op .failed message env.now with stateJson := state }
    | none => { observedOf op .succeeded "" env.now with stateJson := state }

def deliver (c : Client) : Option DesiredOperation → Client
  | none => { c with receiver := .acknowledge ⟨"", 0, false, "invalid desired operation"⟩ .done }
  | some op =>
    if op.kind = operationCancelKind then
      let c := emit c (.cancelArrived op)
      if op.operationId = "" ∨ op.revision = 0 then
        { c with receiver := .acknowledge (ackOf op false "invalid operation cancellation") .done }
      else { c with receiver := .lookupCancel op }
    else
      let c := emit { c with desiredRevision := storeMax c.desiredRevision op.revision }
        (.arrived op)
      if op.operationId = "" ∨ op.kind = "" ∨ op.revision = 0 then
        { c with receiver := .acknowledge (ackOf op false "invalid desired operation") .done }
      else { c with receiver := .lookup op }

def afterAck (c : Client) (now : Int) : AfterAck → Client
  | .done => { c with receiver := .idle }
  | .resend observed => { c with receiver := .resend observed }
  | .stale op => { c with receiver := .resend (observedOf op .superseded staleText now) }
  | .complete op phase message unmark =>
    { c with receiver := .store (observedOf op phase message now) unmark }

/-- The next atomic step of the receive loop: `acceptOperation`,
`cancelOperation` and the end of `runSession`. A failed send makes the loop
return, which runs the deferred `close`. -/
def receiveStep (c : Client) (env : Env) : Option Client :=
  match c.receiver with
  | .offline => none
  | .idle => none
  | .lookup op =>
    match c.completed.lookup op.operationId with
    | some completed =>
      if completed.revision ≠ op.revision then
        some { c with
          receiver := .acknowledge (ackOf op false (completedText completed.revision)) .done }
      else some { c with receiver := .acknowledge (ackOf op true "") (.resend completed) }
    | none => some { c with receiver := .checkDeadline op }
  | .checkDeadline op =>
    if operationDeadlineExceeded op env.now then
      some { c with
        receiver := .acknowledge (ackOf op true "")
          (.complete op .failed operationDeadlineText none) }
    else some { c with receiver := .checkStale op }
  | .checkStale op =>
    if op.revision ≤ c.observedRevision then
      some { c with receiver := .acknowledge (ackOf op true "") (.stale op) }
    else some { c with receiver := .checkAdmission op }
  | .checkAdmission op =>
    match env.refusal with
    | some reason => some { c with receiver := .acknowledge (ackOf op false reason) .done }
    | none => some { c with receiver := .enqueue op }
  | .enqueue op =>
    let (operations, refused) := c.operations.queue op
    if refused then
      some { c with
        operations := operations
        receiver := .acknowledge (ackOf op true "")
          (.complete op .superseded operationCancelledText (some op)) }
    else some { c with operations := operations, receiver := .push op }
  | .push op =>
    if c.operationQueue.length < operationQueueSize then
      some { c with
        operationQueue := c.operationQueue ++ [op]
        receiver := .acknowledge (ackOf op true "") .done }
    else some { c with receiver := .unqueue op }
  | .unqueue op =>
    some { c with
      operations := c.operations.unqueue op
      receiver := .acknowledge (ackOf op false "operation queue is full") .done }
  | .lookupCancel op =>
    match c.completed.lookup op.operationId with
    | some completed =>
      if completed.revision ≠ op.revision then
        some { c with
          receiver := .acknowledge (ackOf op false (completedText completed.revision)) .done }
      else some { c with
        receiver := .acknowledge (ackOf op true "")
          (.complete op .superseded operationNotRunningText none) }
    | none => some { c with receiver := .requestCancel op }
  | .requestCancel op =>
    let (operations, answer) := c.operations.requestCancel op.operationId op.revision
    let c := { c with operations := operations }
    match answer with
    | .rejected reason => some { c with receiver := .acknowledge (ackOf op false reason) .done }
    | .running context => some { c with receiver := .cancelContext op context }
    | .recorded => some { c with receiver := .acknowledge (ackOf op true "") .done }
    | .notRunning => some { c with
      receiver := .acknowledge (ackOf op true "")
        (.complete op .superseded operationNotRunningText none) }
  | .cancelContext op context =>
    some { c with
      contexts := Function.update c.contexts context true
      receiver := .acknowledge (ackOf op true "") .done }
  | .acknowledge ack after =>
    if env.sendOk then some (afterAck (emit c (.acked ack)) env.now after)
    else some { c with receiver := .close }
  | .resend observed =>
    if env.sendOk then some { emit c (.sent .receiver observed) with receiver := .idle }
    else some { c with receiver := .close }
  | .store terminal unmark =>
    some { emit (storeObservedRevision c terminal.revision) (.stored .receiver terminal) with
      receiver := .remember terminal unmark }
  | .remember terminal unmark =>
    some { emit (rememberCompleted c terminal) (.remembered .receiver terminal) with
      receiver := .report terminal unmark }
  | .report terminal unmark =>
    let c := if env.sendOk then emit c (.sent .receiver terminal) else c
    match unmark with
    | some op => some { c with receiver := .unmark op (!env.sendOk) }
    | none => some { c with receiver := if env.sendOk then .idle else .close }
  | .unmark op failed =>
    some { c with
      operations := c.operations.finishCancellation op
      receiver := if failed then .close else .idle }
  | .close =>
    let (operations, contexts) := c.operations.close
    some { c with operations := operations, receiver := .cancelContexts contexts }
  | .cancelContexts [] => some { c with receiver := .cancelSession }
  | .cancelContexts (context :: contexts) =>
    some { c with
      contexts := Function.update c.contexts context true
      receiver := .cancelContexts contexts }
  | .cancelSession => some { c with sessionCancelled := true, receiver := .waitWorker }
  | .waitWorker => if c.worker = .stopped then some { c with receiver := .offline } else none

def workStep (c : Client) (env : Env) : Option Client :=
  match c.worker with
  | .stopped => none
  | .idle => none
  | .begin op =>
    let (operations, cancelled) := c.operations.begin op env.now c.nextContext
    if cancelled then some { c with operations := operations, worker := .checkExpired op }
    else some { c with
      operations := operations
      nextContext := c.nextContext + 1
      worker := .checkDeadline op c.nextContext }
  | .checkExpired op =>
    if c.operations.wasExpired op then
      some { c with
        worker := .store (observedOf op .failed operationDeadlineText env.now) (.finishExpired op) }
    else some { c with
      worker := .store (observedOf op .superseded operationCancelledText env.now)
        (.finishCancellation op) }
  | .checkDeadline op context =>
    if operationDeadlineExceeded op env.now then
      some { c with worker := .finish op (.failed operationDeadlineText) }
    else some { c with worker := .checkStale op context }
  | .checkStale op context =>
    if op.revision ≤ c.observedRevision then some { c with worker := .finish op .stale }
    else some { c with worker := .sendApplying op context }
  | .sendApplying op context =>
    if env.sendOk then
      some { emit c (.sent .worker (observedOf op .applying "" env.now)) with
        worker := .checkContext op context }
    else some { c with worker := .finish op .abandoned }
  | .checkContext op context =>
    match contextErr c op context env with
    | none => some { c with worker := .call op context }
    | some err =>
      let message := if err = .deadlineExceeded ∨ operationDeadlineExceeded op env.now then
        operationDeadlineText else "context canceled"
      some { c with worker := .finish op (.failed message) }
  | .call op context => some { emit c (.handled op) with worker := .handling op context }
  | .handling op _ => some { c with worker := .finish op (.result env.state env.err) }
  | .finish op exit =>
    let (operations, wasCancelled) := c.operations.finish op
    let c := { c with operations := operations }
    match exit with
    | .failed message =>
      some { c with worker := .store (observedOf op .failed message env.now) .done }
    | .stale =>
      some { c with worker := .remember (observedOf op .superseded becameStaleText env.now) .done }
    | .abandoned => some { c with worker := .idle }
    | .result state err =>
      some { c with worker := .store (handlerTerminal op wasCancelled state err env) .done }
  | .store terminal after =>
    some { emit (storeObservedRevision c terminal.revision) (.stored .worker terminal) with
      worker := .remember terminal after }
  | .remember terminal after =>
    some { emit (rememberCompleted c terminal) (.remembered .worker terminal) with
      worker := .report terminal after }
  | .report terminal after =>
    let c := if env.sendOk then emit c (.sent .worker terminal) else c
    some { c with worker := .clear after }
  | .clear .done => some { c with worker := .idle }
  | .clear (.finishExpired op) =>
    some { c with operations := c.operations.finishExpired op, worker := .idle }
  | .clear (.finishCancellation op) =>
    some { c with operations := c.operations.finishCancellation op, worker := .idle }

def connect (c : Client) (desiredRevision : Nat) : Client :=
  { c with
    desiredRevision := desiredRevision
    operations := newSessionOperationState
    operationQueue := []
    sessionCancelled := false
    receiver := .idle
    worker := .idle }

def step (c : Client) : Action → Option Client
  | .connect desiredRevision =>
    if c.receiver = .offline ∧ c.worker = .stopped ∧ c.cancelled = false then
      some (connect c desiredRevision)
    else none
  | .deliver op => if c.receiver = .idle then some (deliver c op) else none
  | .receive env => receiveStep c env
  -- Any other reason to return from `runSession`: a failed heartbeat, a stream
  -- error, a restart asked by the data plane, a closed client.
  | .leave => if c.receiver = .idle then some { c with receiver := .close } else none
  | .take =>
    match c.worker, c.operationQueue with
    | .idle, op :: queue => some { c with operationQueue := queue, worker := .begin op }
    | _, _ => none
  | .quit =>
    if c.worker = .idle ∧ (c.sessionCancelled = true ∨ c.cancelled = true) then
      some { c with worker := .stopped }
    else none
  | .work env => workStep c env
  | .stop => some { c with cancelled := true }

def Reachable (c : Client) : Prop := Steps step newClient c

end AnixAgent.Stream.Machine
