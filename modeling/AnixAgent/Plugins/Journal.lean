import AnixAgent.Lib.Runs
import AnixAgent.Lib.Tables

namespace AnixAgent.Plugins.Journal

open Lib.Runs Lib.Tables

inductive Kind
  | install
  | inspect
  | configure
  | enable
  | disable
  | update
  | rollback
  | health
  deriving DecidableEq

def operationMutatesState : Kind → Bool
  | .inspect | .health => false
  | _ => true

def operationBlocksAutomaticRestore : Kind → Bool
  | .configure | .enable | .disable | .update | .rollback => true
  | _ => false

structure SecretMaterialAudit where
  reference : String
  sha256 : String
  deriving DecidableEq

/-- The secret materials of an operation that passed `ValidateSecretMaterials`, without their
content: every reference once, each with its digest. -/
structure Materials where
  items : List SecretMaterialAudit
  distinct : (items.map (·.reference)).Nodup
  hashed : ∀ m ∈ items, m.sha256 ≠ ""

theorem nil_hashed : ∀ m ∈ ([] : List SecretMaterialAudit), m.sha256 ≠ "" :=
  fun _ h ↦ (List.not_mem_nil h).elim

/-- The part of an operation that passed `validateOperation` which the journal reads. A digest
is the list of its hexadecimal digits. -/
structure Envelope where
  operationID : String
  idempotencyKey : String
  sessionID : String
  pluginID : String
  targetVersion : String
  configHash : List Char
  revision : Nat
  secretMaterials : Materials

def fold (digest : List Char) : List Char := digest.map Char.toLower

/-- The copy of the envelope that `handle` works on. -/
def Envelope.lowered (e : Envelope) : Envelope := { e with configHash := fold e.configHash }

inductive State
  | running
  | interrupted
  | succeeded
  | failed
  | unknown
  deriving DecidableEq

structure JournalEntry where
  operationID : String
  idempotencyKey : String
  sessionID : String
  kind : Kind
  pluginID : String
  targetVersion : String
  configHash : List Char
  revision : Nat
  secretMaterials : Materials
  state : State
  result : String
  error : String

def JournalEntry.terminal (entry : JournalEntry) : Bool :=
  entry.state = .succeeded || entry.state = .failed

abbrev Ledger := Table String JournalEntry

def Materials.sorted (m : Materials) : Materials where
  items := m.items.insertionSort fun a b ↦ a.reference ≤ b.reference
  distinct := ((List.perm_insertionSort _ m.items).map _).nodup_iff.mpr m.distinct
  hashed := fun x hx ↦ m.hashed x ((List.perm_insertionSort _ m.items).mem_iff.mp hx)

def newJournalEntry (kind : Kind) (e : Envelope) : JournalEntry where
  operationID := e.operationID
  idempotencyKey := e.idempotencyKey
  sessionID := e.sessionID
  kind := kind
  pluginID := e.pluginID
  targetVersion := e.targetVersion
  configHash := e.configHash
  revision := e.revision
  secretMaterials := e.secretMaterials.sorted
  state := .running
  result := ""
  error := ""

/-- `actual[reference]` of `journalSecretMaterialsMatch`; a reference that is not there has
the empty digest. -/
def digestOf (materials : List SecretMaterialAudit) (reference : String) : String :=
  ((materials.find? fun m ↦ m.reference = reference).map (·.sha256)).getD ""

def journalSecretMaterialsMatch (audited materials : Materials) : Bool :=
  audited.items.length = materials.items.length &&
    audited.items.all fun m ↦ digestOf materials.items m.reference = m.sha256

def journalMatches (entry : JournalEntry) (kind : Kind) (e : Envelope) : Bool :=
  entry.operationID = e.operationID && entry.idempotencyKey = e.idempotencyKey &&
    entry.kind = kind && entry.pluginID = e.pluginID && entry.targetVersion = e.targetVersion &&
    fold entry.configHash = fold e.configHash && entry.revision = e.revision &&
    journalSecretMaterialsMatch entry.secretMaterials e.secretMaterials

/-- `interruptedRuntimeTransitionLocked`: the entry that holds back the automatic restore of a
plugin, the one with the highest revision and then the lowest id. -/
def interruptedRuntimeTransition (journal : Ledger) (pluginID : String) (desiredRevision : Nat) :
    Option JournalEntry :=
  journal.entries.foldl (fun blocker x ↦
    if x.2.pluginID ≠ pluginID ∨ x.2.state ≠ .interrupted ∨
        operationBlocksAutomaticRestore x.2.kind = false ∨ x.2.revision < desiredRevision then
      blocker
    else match blocker with
      | none => some x.2
      | some b =>
        if x.2.revision > b.revision ∨
            x.2.revision = b.revision ∧ x.2.operationID < b.operationID then some x.2
        else some b) none

/-- How `persistState` ended. `unsynced` is an error after the new file was renamed into its
place. -/
inductive Write
  | done
  | unsynced
  | refused
  deriving DecidableEq

def Write.reaches : Write → Bool
  | .refused => false
  | _ => true

/-- An operation that runs: its `done` channel is open. -/
structure Execution where
  kind : Kind
  envelope : Envelope
  repairReplay : Bool

def Execution.operationID (x : Execution) : String := x.envelope.operationID

/-- The journal of the process and of the state file. `log` is the history of everything that
was executed, in all processes. -/
structure Supervisor where
  up : Bool
  journal : Ledger
  running : List Execution
  disk : Ledger
  log : List Execution

def initial : Supervisor := ⟨false, ∅, [], ∅, []⟩

def Supervisor.persist (s : Supervisor) (write : Write) : Supervisor :=
  if write.reaches then { s with disk := s.journal } else s

inductive Answer
  | operationBound
  | keyBound
  | recorded (result : String)
  | previouslyFailed (error : String)
  | invalid
  | again
  | unwritten
  | started (repairReplay : Bool)
  deriving DecidableEq

def previousError (entry : JournalEntry) : String :=
  if entry.error = "" then "plugin operation previously failed" else entry.error

def interrupt (entry : JournalEntry) (error : String) : JournalEntry :=
  { entry with state := .interrupted, error := error }

def interruptedBeforeCompletion : String :=
  "plugin operation was interrupted before completion and is eligible for exact replay"

def interruptedByRestart : String :=
  "plugin operation was interrupted by agent restart and is eligible for exact replay"

def keyTaken (journal : Ledger) (e : Envelope) : Bool :=
  journal.entries.any fun x ↦ x.1 ≠ e.operationID && x.2.idempotencyKey = e.idempotencyKey

/-- The rest of the round once the operation id is free or up for repair: the entry is
journaled as running before anything is executed. -/
def begin (s : Supervisor) (kind : Kind) (e : Envelope) (repairReplay : Bool) (write : Write) :
    Answer × Supervisor :=
  if keyTaken s.journal e then (.keyBound, s)
  else
    let t := { s with
      journal := s.journal.insert e.operationID (newJournalEntry kind e) }.persist write
    if write = .done then
      (.started repairReplay, { t with
        running := t.running ++ [⟨kind, e, repairReplay⟩]
        log := t.log ++ [⟨kind, e, repairReplay⟩] })
    else (.unwritten, { t with journal := t.journal.erase e.operationID })

/-- One round of the loop in `handle`, which holds the lock. `again` is the end of a round
that waits for the running execution, or that found none. -/
def handle (s : Supervisor) (kind : Kind) (envelope : Envelope) (write : Write) :
    Answer × Supervisor :=
  let e := envelope.lowered
  match s.journal.lookup e.operationID with
  | none => begin s kind e false write
  | some previous =>
    if journalMatches previous kind e = false then (.operationBound, s)
    else match previous.state with
      | .succeeded => (.recorded previous.result, s)
      | .failed => (.previouslyFailed (previousError previous), s)
      | .running =>
        if s.running.any fun x ↦ x.operationID = e.operationID then (.again, s)
        else (.again, { s with
          journal := s.journal.insert e.operationID
            (interrupt previous interruptedBeforeCompletion) }.persist write)
      | .interrupted => begin s kind e true write
      | .unknown => (.invalid, s)

def finished (entry : JournalEntry) : Except String String → JournalEntry
  | .error err => { entry with state := .failed, error := err }
  | .ok result => { entry with state := .succeeded, result := result, error := "" }

/-- The end of an execution. Its entry is in the journal as long as it runs. -/
def finish (s : Supervisor) (x : Execution) (outcome : Except String String) (write : Write) :
    Supervisor :=
  match s.journal.lookup x.operationID with
  | none => s
  | some entry =>
    let t := { s with
      journal := s.journal.insert x.operationID (finished entry outcome) }.persist write
    { t with running := t.running.filter fun y ↦ y.operationID ≠ x.operationID }

def loaded (entry : JournalEntry) : JournalEntry :=
  if entry.state = .running then interrupt entry interruptedByRestart else entry

def loadJournal (disk : Ledger) : Ledger := mapValues loaded disk

/-- `load`: interrupted entries are written back, and without that the process does not
start. -/
def load (s : Supervisor) (write : Write) : Supervisor :=
  let t := { s with journal := loadJournal s.disk, running := [] }
  if s.disk.entries.any fun x ↦ x.2.state = .running then
    let u := t.persist write
    { u with up := write = .done }
  else { t with up := true }

inductive Action
  | call (kind : Kind) (envelope : Envelope) (write : Write)
  | finish (operationID : String) (outcome : Except String String) (write : Write)
  | persist (write : Write)
  | crash
  | start (write : Write)

/-- One step of the journal: a round of a `handle` call, the end of an execution, a write by
another function, the end of the process at any moment, and its next start. -/
def step (s : Supervisor) : Action → Option Supervisor
  | .call kind envelope write => if s.up then some (handle s kind envelope write).2 else none
  | .finish id outcome write =>
    if s.up then
      (s.running.find? fun x ↦ x.operationID = id).map fun x ↦ finish s x outcome write
    else none
  | .persist write => if s.up then some (s.persist write) else none
  | .crash => some { s with up := false, journal := ∅, running := [] }
  | .start write => if s.up then none else some (load s write)

end AnixAgent.Plugins.Journal
