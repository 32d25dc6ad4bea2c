import AnixAgent.Lib.Tables

namespace AnixAgent.Stream.SessionOperations

open Lib.Tables

structure DesiredOperation where
  operationId : String
  kind : String
  revision : Nat
  deadlineUnixMs : Int
  deriving DecidableEq

inductive ObservedPhase
  | applying
  | succeeded
  | failed
  | superseded
  deriving DecidableEq

structure ObservedState where
  operationId : String
  revision : Nat
  phase : ObservedPhase
  message : String
  stateJson : List UInt8
  observedAtUnixMs : Int
  deriving DecidableEq

def operationCancelKind : String := "operation.cancel"
def operationCancelledText : String := "operation cancelled"
def operationNotRunningText : String := "operation cancelled/not running"
def operationDeadlineText : String := "operation deadline exceeded"

/-- `now` is in whole milliseconds: the deadline is one, so rounding the clock
down does not change the comparison. -/
def operationDeadlineExceeded (op : DesiredOperation) (now : Int) : Bool :=
  decide (0 < op.deadlineUnixMs) && decide (op.deadlineUnixMs ≤ now)

/-- A registered handler run. `context` names the context whose `CancelFunc`
the source keeps in the field `cancel`. -/
structure RunningOperation where
  revision : Nat
  context : Nat
  cancelled : Bool
  deriving DecidableEq

structure SessionOperationState where
  running : Table String RunningOperation
  queued : Table String Nat
  cancelled : Table String Nat
  expired : Table String Nat
  closed : Bool

def newSessionOperationState : SessionOperationState where
  running := ∅
  queued := ∅
  cancelled := ∅
  expired := ∅
  closed := false

def eraseAt (table : Table String Nat) (op : DesiredOperation) : Table String Nat :=
  eraseIf table op.operationId op.revision

namespace SessionOperationState

/-- `true` when the operation was cancelled before it got into the queue. -/
def queue (s : SessionOperationState) (op : DesiredOperation) : SessionOperationState × Bool :=
  if s.closed then (s, true)
  else if s.cancelled.lookup op.operationId = some op.revision then (s, true)
  else if s.expired.lookup op.operationId = some op.revision then (s, true)
  else ({ s with queued := s.queued.insert op.operationId op.revision }, false)

def unqueue (s : SessionOperationState) (op : DesiredOperation) : SessionOperationState :=
  { s with queued := eraseAt s.queued op }

/-- The third answer of `begin`: `true` for cancelled, which covers a closed
session, an operation.cancel and a passed deadline. -/
def begin (s : SessionOperationState) (op : DesiredOperation) (now : Int) (context : Nat) :
    SessionOperationState × Bool :=
  if s.closed then (s, true)
  else
    let s := { s with queued := eraseAt s.queued op }
    if s.cancelled.lookup op.operationId = some op.revision then (s, true)
    else if operationDeadlineExceeded op now then
      ({ s with expired := s.expired.insert op.operationId op.revision }, true)
    else
      ({ s with running := s.running.insert op.operationId ⟨op.revision, context, false⟩ }, false)

def wasExpired (s : SessionOperationState) (op : DesiredOperation) : Bool :=
  decide (s.expired.lookup op.operationId = some op.revision)

def finishExpired (s : SessionOperationState) (op : DesiredOperation) : SessionOperationState :=
  { s with expired := eraseAt s.expired op }

/-- What `requestCancel` answers: `(false, false, reason)`, `(true, false, "")`
with or without a running context to cancel, and `(true, true, "")`. -/
inductive CancelAnswer
  | rejected (reason : String)
  | running (context : Nat)
  | recorded
  | notRunning
  deriving DecidableEq

def revisionText (revision : Nat) : String := s!"operation revision is {revision}"

def requestCancel (s : SessionOperationState) (operationId : String) (revision : Nat) :
    SessionOperationState × CancelAnswer :=
  if s.closed then (s, .rejected "agent control session is closing")
  else match s.running.lookup operationId with
  | some r =>
    if r.revision ≠ revision then (s, .rejected (revisionText r.revision))
    else ({ s with running := s.running.insert operationId { r with cancelled := true } },
      .running r.context)
  | none => match s.queued.lookup operationId with
    | some q =>
      if q ≠ revision then (s, .rejected (revisionText q))
      else ({ s with cancelled := s.cancelled.insert operationId revision }, .recorded)
    | none => match s.cancelled.lookup operationId with
      | some r =>
        if r ≠ revision then
          (s, .rejected s!"operation cancellation already targets revision {r}")
        else (s, .recorded)
      | none => (s, .notRunning)

def finishCancellation (s : SessionOperationState) (op : DesiredOperation) :
    SessionOperationState :=
  { s with
    queued := eraseAt s.queued op
    cancelled := eraseAt s.cancelled op
    expired := eraseAt s.expired op }

/-- Unregister a handler run; the answer is its `cancelled` flag. -/
def finish (s : SessionOperationState) (op : DesiredOperation) : SessionOperationState × Bool :=
  match s.running.lookup op.operationId with
  | some r =>
    if r.revision ≠ op.revision then (s, false)
    else ({ s with running := s.running.erase op.operationId }, r.cancelled)
  | none => (s, false)

/-- The locked part of `close`, with the contexts to cancel after it. -/
def close (s : SessionOperationState) : SessionOperationState × List Nat :=
  if s.closed then (s, [])
  else ({ newSessionOperationState with closed := true },
    s.running.entries.map fun r ↦ r.2.context)

end SessionOperationState

end AnixAgent.Stream.SessionOperations
