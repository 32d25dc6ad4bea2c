import AnixAgent.Lib.Runs
import AnixAgent.Lib.Tables

namespace AnixAgent.Maintenance.Machine

open Lib.Runs Lib.Tables

def maxMaintenanceBatchEvents : Nat := 50

def maxMaintenanceBatchBytes : Nat := 256 * 1024

def defaultMaintenanceRetry : Int := 30 * 10 ^ 9

def maintenanceAckTimeout : Int := 30 * 10 ^ 9

def maintenanceErrorCodeUnavailable : String := "maintenance_unavailable"

def maintenanceErrorCodeBatchTooLarge : String := "maintenance_batch_too_large"

def maxBatchSize : Nat := 50

def maxPayloadBytes : Nat := 256 * 1024

def maxQueueEvents : Nat := 100000

def batchOverhead : Nat := 48

/-- An event of the outbox: `order` is its sequence number and `size` the length of its
JSON. -/
structure Event where
  eventID : String
  occurredAt : Int
  order : Nat
  size : Nat
  deriving DecidableEq

/-- The durable outbox holds every event id once. -/
structure Store where
  events : List Event
  nextSequence : Nat
  unique : (events.map (·.eventID)).Nodup

theorem nodup_queue {s : Store} {e : Event} (h : e.eventID ∉ s.events.map (·.eventID)) :
    ((s.events ++ [e]).map (·.eventID)).Nodup := by
  rw [List.map_append]
  refine List.Nodup.append s.unique (List.nodup_singleton _) ?_
  intro id hold hnew
  have heq : id = e.eventID := List.mem_singleton.mp hnew
  exact h (heq ▸ hold)

/-- `append`, for an event that is valid: a known id or a full outbox changes nothing. -/
def Store.queue (s : Store) (eventID : String) (occurredAt : Int) (size : Nat) : Store :=
  if h : eventID ∈ s.events.map (·.eventID) then s
  else if maxQueueEvents ≤ s.events.length then s
  else
    { events := s.events ++ [⟨eventID, occurredAt, s.nextSequence + 1, size⟩]
      nextSequence := s.nextSequence + 1
      unique := nodup_queue h }

def older (a b : Event) : Bool :=
  if a.occurredAt = b.occurredAt then
    if a.order ≠ b.order then a.order < b.order else a.eventID ≤ b.eventID
  else a.occurredAt < b.occurredAt

def fitting : Nat → Nat → List Event → List Event
  | _, _, [] => []
  | size, index, e :: rest =>
    let nextSize := size + e.size + if index > 0 then 1 else 0
    if nextSize > maxPayloadBytes then [] else e :: fitting nextSize (index + 1) rest

/-- `Pending`; `none` is its error for an oldest event that fits in no batch. -/
def Store.pending (s : Store) (limit : Nat) : Option (List Event) :=
  let limit := if limit = 0 ∨ maxBatchSize < limit then maxBatchSize else limit
  match (s.events.insertionSort fun a b ↦ older a b = true).take limit with
  | [] => some []
  | first :: rest =>
    if batchOverhead + first.size > maxPayloadBytes then none
    else some (fitting batchOverhead 0 (first :: rest))

def Store.remove (s : Store) (eventIDs : List String) : Store where
  events := s.events.filter fun e ↦ e.eventID ∉ eventIDs
  nextSequence := s.nextSequence
  unique := s.unique.sublist (List.filter_sublist.map _)

structure MaintenanceEventResult where
  eventId : String
  persisted : Bool
  error : String
  errorCode : String
  retryAfterMs : Int
  deriving DecidableEq

structure MaintenanceBatch where
  requestID : Nat
  session : Nat
  events : List String
  sentAt : Int
  deriving DecidableEq

structure MaintenanceAnswer where
  session : Nat
  requestID : Nat
  results : List MaintenanceEventResult
  deriving DecidableEq

/-- A `DataPlaneSession`; the id 0 is that of no session. -/
structure Session where
  id : Nat
  maintenance : Bool
  deriving DecidableEq

structure MaintenanceState where
  inflight : Option MaintenanceBatch
  acks : List MaintenanceAnswer
  notBefore : Table String Int
  limit : Nat
  pending : Nat
  persisted : Nat
  refused : Nat
  deferred : Nat

structure Applied where
  state : MaintenanceState
  remove : List String
  tooLarge : Bool
  allPersisted : Bool

def refused (result : MaintenanceEventResult) : Bool :=
  result.error ≠ "" ||
    (result.errorCode ≠ "" && result.errorCode ≠ maintenanceErrorCodeUnavailable)

def retryTime (now : Int) (result : MaintenanceEventResult) : Int :=
  let retry := Int.bmod (result.retryAfterMs * 10 ^ 6) (2 ^ 64)
  now + if retry ≤ 0 then defaultMaintenanceRetry else retry

def applyResult (now : Int) (size : Nat) (acc : Applied) (id : String) :
    Option MaintenanceEventResult → Applied
  | none => { acc with allPersisted := false }
  | some result =>
    if result.eventId ≠ "" ∧ result.eventId ≠ id then { acc with allPersisted := false }
    else if result.persisted then
      { acc with
        state := { acc.state with persisted := acc.state.persisted + 1 }
        remove := acc.remove ++ [id] }
    else if !refused result then
      { acc with
        state := { acc.state with
          deferred := acc.state.deferred + 1
          notBefore := acc.state.notBefore.insert id (retryTime now result) }
        allPersisted := false }
    else if result.errorCode = maintenanceErrorCodeBatchTooLarge ∧ 1 < size then
      { acc with tooLarge := true, allPersisted := false }
    else
      { acc with
        state := { acc.state with refused := acc.state.refused + 1 }
        remove := acc.remove ++ [id]
        allPersisted := false }

def applyResults (now : Int) (size : Nat) :
    Applied → List String → List MaintenanceEventResult → Applied
  | acc, [], _ => acc
  | acc, id :: ids, results =>
    applyResults now size (applyResult now size acc id results.head?) ids results.tail

/-- `applyMaintenanceAck` up to the removal: the state, and the events to remove. -/
def applyMaintenanceAck (state : MaintenanceState) (now : Int) (batch : MaintenanceBatch)
    (results : List MaintenanceEventResult) : MaintenanceState × List String :=
  let acc := applyResults now batch.events.length
    ⟨state, [], false, results.length = batch.events.length⟩ batch.events results
  let limit :=
    if acc.tooLarge then max 1 (batch.events.length / 2)
    else if acc.allPersisted ∧ acc.state.limit < maxMaintenanceBatchEvents then
      min maxMaintenanceBatchEvents (acc.state.limit * 2)
    else acc.state.limit
  ({ acc.state with
      limit := limit
      notBefore := acc.remove.foldl (fun t id ↦ t.erase id) acc.state.notBefore }, acc.remove)

/-- The events to send now, oldest first: those that may be sent, up to the limit. -/
def chooseBatch (notBefore : Table String Int) (now : Int) (limit : Nat) :
    Nat → Nat → List Event → List Event
  | _, _, [] => []
  | count, size, e :: rest =>
    if (notBefore.lookup e.eventID).any (fun at_ ↦ now < at_) then
      chooseBatch notBefore now limit count size rest
    else if limit ≤ count ∨ maxMaintenanceBatchBytes < size + e.size then []
    else e :: chooseBatch notBefore now limit (count + 1) (size + e.size) rest

/-- The retry times of events that left the outbox are forgotten, when it was read
whole. -/
def forgetRetries (notBefore : Table String Int) (events : List Event) : Table String Int :=
  if events.length < maxMaintenanceBatchEvents then
    (notBefore.keys.filter fun id ↦ id ∉ events.map (·.eventID)).foldl (fun t id ↦ t.erase id)
      notBefore
  else notBefore

/-- Where the worker of `runMaintenance` stands: it applies the answers it took, with
the session it saw, and then sends. -/
inductive Worker
  | idle
  | acking (session : Session) (answers : List MaintenanceAnswer)
  deriving DecidableEq

/-- The sender and what is around it. `sessions` counts the sessions and `requests` the
request ids; `sent` lists every batch that went out and `answered` the request ids
whose acknowledgement was applied. -/
structure System where
  store : Store
  state : MaintenanceState
  worker : Worker
  clock : Int
  session : Session
  sessions : Nat
  requests : Nat
  sent : List MaintenanceBatch
  answered : List Nat

def initial (store : Store) (clock : Int) : System where
  store := store
  state := ⟨none, [], ∅, maxMaintenanceBatchEvents, 0, 0, 0, 0⟩
  worker := .idle
  clock := clock
  session := ⟨0, false⟩
  sessions := 0
  requests := 0
  sent := []
  answered := []

/-- `sendMaintenance`: `readable` is whether the outbox could be read, `delivered` whether
the batch could be sent; a session that is gone takes no batch. -/
def sendMaintenance (s : System) (session : Session) (readable delivered : Bool) : System :=
  if !session.maintenance then s
  else if s.state.inflight.any (fun batch ↦ s.clock - batch.sentAt < maintenanceAckTimeout) then s
  else
    let s := { s with state := { s.state with inflight := none } }
    match if readable then s.store.pending maxMaintenanceBatchEvents else none with
    | none => s
    | some events =>
      let batch := chooseBatch s.state.notBefore s.clock s.state.limit 0 0 events
      let s := { s with state := { s.state with
        pending := events.length
        notBefore := forgetRetries s.state.notBefore events } }
      if batch.isEmpty ∨ delivered = false ∨ session.id ≠ s.session.id then s
      else
        let sent : MaintenanceBatch :=
          ⟨s.requests + 1, session.id, batch.map (·.eventID), s.clock⟩
        { s with
          state := { s.state with inflight := some sent }
          requests := s.requests + 1
          sent := s.sent ++ [sent] }

/-- One answer of `applyMaintenanceAcks`; `removed` is whether the outbox could be
written. -/
def applyAnswer (s : System) (answer : MaintenanceAnswer) (removed : Bool) : System :=
  match s.state.inflight with
  | none => s
  | some batch =>
    if batch.requestID ≠ answer.requestID ∨ batch.session ≠ answer.session then s
    else
      let (state, remove) := applyMaintenanceAck { s.state with inflight := none } s.clock batch
        answer.results
      { s with
        store := if removed then s.store.remove remove else s.store
        state := state
        answered := s.answered ++ [answer.requestID] }

inductive Action
  | tick (duration : Nat)
  | queue (eventID : String) (occurredAt : Int) (size : Nat)
  | sessionStarted (maintenance : Bool)
  | sessionEnded
  | receive (answer : MaintenanceAnswer)
  | wake
  | answer (removed : Bool)
  | send (readable delivered : Bool)

def step (s : System) : Action → Option System
  | .tick duration => some { s with clock := s.clock + duration }
  | .queue eventID occurredAt size =>
    some { s with store := s.store.queue eventID occurredAt size }
  | .sessionStarted maintenance =>
    some { s with
      session := ⟨s.sessions + 1, maintenance⟩
      sessions := s.sessions + 1 }
  | .sessionEnded => some { s with session := ⟨0, false⟩ }
  | .receive answer =>
    some { s with state := { s.state with acks := s.state.acks ++ [answer] } }
  | .wake =>
    match s.worker with
    | .idle =>
      some { s with
        worker := .acking s.session s.state.acks
        state := { s.state with
          acks := []
          -- A batch of a session that ended goes again.
          inflight := s.state.inflight.filter fun batch ↦ batch.session = s.session.id } }
    | .acking _ _ => none
  | .answer removed =>
    match s.worker with
    | .acking session (answer :: answers) =>
      some { applyAnswer s answer removed with worker := .acking session answers }
    | _ => none
  | .send readable delivered =>
    match s.worker with
    | .acking session [] =>
      some { sendMaintenance s session readable delivered with worker := .idle }
    | _ => none

end AnixAgent.Maintenance.Machine
