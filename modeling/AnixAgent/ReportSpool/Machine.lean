import AnixAgent.Lib.Crash
import AnixAgent.Lib.Tables
import AnixAgent.ReportSpool.FileNames

namespace AnixAgent.ReportSpool.Machine

open FileNames Lib.Crash Lib.Tables
open Lib.Crash.Proc

def defaultMaxEntries : Int := 100000

def maxRetention : Int := 6 * 24 * 3600 * 10 ^ 9

inductive Payload
  | traffic (batchId : String) (content : List UInt8)
  | logs (batchId : String) (content : List UInt8)
  | destinations (batchId : String) (content : List UInt8)
  | other (content : List UInt8)
  deriving DecidableEq

structure AgentToControl where
  sentAtUnixMs : Int
  payload : Payload
  deriving DecidableEq

def batchID (message : AgentToControl) : String :=
  match message.payload with
  | .traffic batchId _ | .logs batchId _ | .destinations batchId _ => batchId
  | .other _ => ""

/-- The protobuf encoding: what is marshalled is read back. -/
structure Codec where
  marshal : AgentToControl → Except String (List UInt8)
  unmarshal : List UInt8 → Except String AgentToControl
  unmarshal_marshal : ∀ message data, marshal message = .ok data → unmarshal data = .ok message

structure Limits where
  maxBytes : Int
  maxAge : Int
  maxEntries : Int
  deriving DecidableEq

/-- The source's `path` is `path` in the spool's directory. -/
structure Entry where
  seq : Nat
  batchId : String
  size : Int
  createdAt : Int
  path : FileName
  deriving DecidableEq

def entryOf (seq : Nat) (message : AgentToControl) (size : Int) (path : FileName) : Entry :=
  ⟨seq, batchID message, size, message.sentAtUnixMs * 10 ^ 6, path⟩

/-- The counters are `uint64`; no run takes them past their range. -/
structure Drops where
  size : Nat
  age : Nat
  count : Nat
  deriving DecidableEq

structure Spool where
  limits : Limits
  entries : List Entry
  byBatch : Table String Entry
  bytes : Int
  nextSeq : Nat
  drops : Drops

structure File where
  regular : Bool
  data : List UInt8
  deriving DecidableEq

inductive Reason
  | size
  | age
  | count
  deriving DecidableEq

/-- The process's spool, the directory, and the batches that were lost to the
spool's bounds, newest first. -/
structure State where
  spool : Spool
  disk : Table FileName File
  lost : List (Reason × Entry)

inductive WriteFault
  | createTemp
  | chmod
  | write
  | sync
  | close
  | rename
  deriving DecidableEq

/-- What a call meets: the clock, the removes and reads that succeed, the write
that fails with what it left in the file, and the error it gives. -/
structure Env where
  now : Int
  removes : FileName → Bool
  reads : FileName → Bool
  fault : Option WriteFault
  written : List UInt8
  random : FileName
  error : String

def osRemove (env : Env) (path : FileName) : Proc State Unit :=
  act fun s ↦ if env.removes path then { s with disk := s.disk.erase path } else s

def setSpool (f : Spool → Spool) : Proc State Unit := act fun s ↦ { s with spool := f s.spool }

def Drops.add (drops : Drops) : Reason → Drops
  | .size => { drops with size := drops.size + 1 }
  | .age => { drops with age := drops.age + 1 }
  | .count => { drops with count := drops.count + 1 }

def countDrop (reason : Reason) (entry : Entry) : Proc State Unit :=
  act fun s ↦ { s with
    spool := { s.spool with drops := s.spool.drops.add reason }
    lost := (reason, entry) :: s.lost }

/-- What `expireLocked` and `removeLocked` share: the file goes, then the entry in
`byBatch`, then its bytes. -/
def discard (env : Env) (entry : Entry) : Proc State Unit := do
  osRemove env entry.path
  setSpool fun s ↦ { s with byBatch := s.byBatch.erase entry.batchId }
  setSpool fun s ↦ { s with bytes := s.bytes - entry.size }

def expireEntries (env : Env) (cutoff : Int) : List Entry → Proc State (List Entry)
  | [] => pure []
  | entry :: rest => do
    if entry.createdAt < cutoff then
      countDrop .age entry
      discard env entry
      expireEntries env cutoff rest
    else
      let kept ← expireEntries env cutoff rest
      pure (entry :: kept)

def expireLocked (env : Env) : Proc State Unit := do
  let cutoff ← look fun s ↦ env.now - s.spool.limits.maxAge
  let entries ← look fun s ↦ s.spool.entries
  let kept ← expireEntries env cutoff entries
  setSpool fun s ↦ { s with entries := kept }

def removeLocked (env : Env) (entry : Entry) : Proc State Unit := do
  discard env entry
  setSpool fun s ↦ { s with entries := s.entries.erase entry }

def overflow (s : Spool) (size : Int) : Option Reason :=
  if s.limits.maxBytes < s.bytes + size then some .size
  else if s.limits.maxEntries < s.entries.length + 1 then some .count
  else none

/-- The loop of `Append` that drops the oldest batches, for at most `fuel` rounds. -/
def makeRoom (env : Env) (size : Int) : Nat → Proc State Unit
  | 0 => pure ()
  | fuel + 1 => do
    let spool ← look fun s ↦ s.spool
    match spool.entries, overflow spool size with
    | oldest :: _, some reason =>
      countDrop reason oldest
      removeLocked env oldest
      makeRoom env size fuel
    | _, _ => pure ()

def abandon (env : Env) (name : FileName) : Proc State (Except String Unit) := do
  osRemove env name
  pure (.error env.error)

def writeFile (env : Env) (path : FileName) (data : List UInt8) :
    Proc State (Except String Unit) := do
  let name := temporaryName path env.random
  let taken ← look fun s ↦ (s.disk.lookup name).isSome
  if env.fault = some .createTemp ∨ taken then
    return .error env.error
  act fun s ↦ { s with disk := s.disk.insert name ⟨true, []⟩ }
  if env.fault = some .chmod then
    return ← abandon env name
  if env.fault = some .write then
    act fun s ↦ { s with disk := s.disk.insert name ⟨true, env.written⟩ }
    return ← abandon env name
  act fun s ↦ { s with disk := s.disk.insert name ⟨true, data⟩ }
  if env.fault = some .sync ∨ env.fault = some .close ∨ env.fault = some .rename then
    return ← abandon env name
  act fun s ↦ { s with disk := (s.disk.erase name).insert path ⟨true, data⟩ }
  return .ok ()

def storeBatch (env : Env) (message : AgentToControl) (data : List UInt8) :
    Proc State (Except String Bool) := do
  let seq ← look fun s ↦ s.spool.nextSeq
  let path := fileName seq
  match ← writeFile env path data with
  | .error err => return .error err
  | .ok () =>
    setSpool fun s ↦ { s with nextSeq := (s.nextSeq + 1) % 2 ^ 64 }
    let entry := entryOf seq message data.length path
    setSpool fun s ↦ { s with entries := s.entries ++ [entry] }
    setSpool fun s ↦ { s with byBatch := s.byBatch.insert entry.batchId entry }
    setSpool fun s ↦ { s with bytes := s.bytes + entry.size }
    return .ok true

def tooLargeText (size maxBytes : Int) : String :=
  s!"report batch exceeds the spool size ({size} > {maxBytes} bytes)"

/-- `Append`. It answers nil both for a batch it stored, `ok true` here, and for
one that is already spooled. -/
def append (codec : Codec) (env : Env) (message : AgentToControl) :
    Proc State (Except String Bool) := do
  let id := batchID message
  if id = "" then
    return .error "report spool: the message carries no batch"
  match codec.marshal message with
  | .error err => return .error err
  | .ok data =>
    let size : Int := data.length
    let limits ← look fun s ↦ s.spool.limits
    if limits.maxBytes < size then
      return .error (tooLargeText size limits.maxBytes)
    let known ← look fun s ↦ s.spool.byBatch.lookup id
    if known.isSome then
      return .ok false
    expireLocked env
    let count ← look fun s ↦ s.spool.entries.length
    makeRoom env size count
    storeBatch env message data

def pending (env : Env) : Proc State (List Entry) := do
  expireLocked env
  look fun s ↦ s.spool.entries

inductive ReadError
  | notExist
  | failed (text : String)
  deriving DecidableEq

def readBatch (codec : Codec) (env : Env) (disk : Table FileName File) (path : FileName) :
    Except ReadError (AgentToControl × Int) :=
  match disk.lookup path with
  | none => .error .notExist
  | some file =>
    if env.reads path = false then .error (.failed env.error)
    else match codec.unmarshal file.data with
      | .error err => .error (.failed err)
      | .ok message => .ok (message, file.data.length)

/-- `Read`; `ok none` is the answer for a batch that is gone. -/
def read (codec : Codec) (env : Env) (id : String) :
    Proc State (Except String (Option AgentToControl)) := do
  match ← look fun s ↦ s.spool.byBatch.lookup id with
  | none => return .ok none
  | some entry =>
    match ← look fun s ↦ readBatch codec env s.disk entry.path with
    | .error .notExist => return .ok none
    | .error (.failed err) => return .error err
    | .ok (message, _) => return .ok (some message)

def remove (env : Env) (id : String) : Proc State Bool := do
  match ← look fun s ↦ s.spool.byBatch.lookup id with
  | none => return false
  | some entry =>
    removeLocked env entry
    return true

def indexFile (codec : Codec) (env : Env) (name : FileName) : Proc State Unit := do
  let disk ← look fun s ↦ s.disk
  if hidden name then
    osRemove env name
  else match parseUint (trimSuffix name) with
    | none => pure ()
    | some seq =>
      if hasSuffix name = false ∨ (disk.lookup name).any (·.regular) = false then pure ()
      else match readBatch codec env disk name with
        | .error _ => osRemove env name
        | .ok (message, size) =>
          let entry := entryOf seq message size name
          if entry.batchId = "" ∨ (← look fun s ↦ s.spool.byBatch.lookup entry.batchId).isSome then
            osRemove env name
          else
            setSpool fun s ↦ { s with entries := s.entries ++ [entry] }
            setSpool fun s ↦ { s with byBatch := s.byBatch.insert entry.batchId entry }
            setSpool fun s ↦ { s with bytes := s.bytes + size }
            setSpool fun s ↦ { s with
              nextSeq := if s.nextSeq ≤ seq then (seq + 1) % 2 ^ 64 else s.nextSeq }

def readDir (disk : Table FileName File) : List FileName := disk.keys.insertionSort (· ≤ ·)

def index (codec : Codec) (env : Env) : Proc State Unit := do
  let names ← look fun s ↦ readDir s.disk
  names.forM (indexFile codec env)
  setSpool fun s ↦ { s with entries := s.entries.insertionSort fun a b ↦ a.seq ≤ b.seq }

def newSpool (limits : Limits) : Spool where
  limits := limits
  entries := []
  byBatch := ∅
  bytes := 0
  nextSeq := 1
  drops := ⟨0, 0, 0⟩

def isAbs (dir : String) : Bool := dir.toList.head? == some '/'

/-- `Open` on the directory `disk`; `access` is the error of a directory that
cannot be made or listed. -/
def openSpool (codec : Codec) (env : Env) (dir : String) (limits : Limits)
    (access : Option String) (disk : Table FileName File) : Except String State :=
  if isAbs dir = false then
    .error s!"report spool directory {dir.quote} must be an absolute path"
  else if limits.maxBytes ≤ 0 then .error "report spool needs a size bound"
  else if limits.maxAge ≤ 0 ∨ maxRetention < limits.maxAge then
    .error "report spool age bound must be within (0, 144h0m0s]"
  else
    let limits := { limits with
      maxEntries := if limits.maxEntries ≤ 0 then defaultMaxEntries else limits.maxEntries }
    match access with
    | some err => .error err
    | none => .ok (index codec env ⟨newSpool limits, disk, []⟩).state

end AnixAgent.ReportSpool.Machine
