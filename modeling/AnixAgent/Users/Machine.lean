import AnixAgent.Lib.Runs
import AnixAgent.Lib.Tables

namespace AnixAgent.Users.Machine

open Lib.Runs Lib.Tables

variable {γ : Type}

def usersRetryInterval : Int := 30 * 10 ^ 9

def usersSaveInterval : Int := 2 * 10 ^ 9

def maxPendingUserPages : Nat := 5000

structure NodeUser (γ : Type) where
  userId : Nat
  settings : γ
  deriving DecidableEq

structure UserDelta (γ : Type) where
  cursor : Nat
  full : Bool
  lastPage : Bool
  upserts : List (NodeUser γ)
  removedUserIds : List Nat
  deriving DecidableEq

structure UserSet (γ : Type) where
  cursor : Nat
  users : List (NodeUser γ)
  deriving DecidableEq

/-- A `usersState`; `none` stands for a nil map, a nil pointer and the zero time, and
0 for the empty session id. -/
structure UsersState (γ : Type) where
  has : Bool
  cursor : Nat
  set : Option (Table Nat (NodeUser γ))
  version : UInt64
  applied : UInt64
  persisted : Option (UserSet γ)
  pages : List (UserDelta γ)
  pagesSession : Nat
  queue : List (UserDelta γ)
  dirty : Bool
  savedAt : Option Int
  retryAt : Option Int
  lastErr : String

def initialUsers : UsersState γ where
  has := false
  cursor := 0
  set := none
  version := 0
  applied := 0
  persisted := none
  pages := []
  pagesSession := 0
  queue := []
  dirty := false
  savedAt := none
  retryAt := none
  lastErr := ""

def UsersState.lookup (u : UsersState γ) (id : Nat) : Option (NodeUser γ) :=
  u.set.bind fun set ↦ set.lookup id

def userSet (u : UsersState γ) : UserSet γ :=
  ⟨u.cursor, ((u.set.getD ∅).entries.map fun x ↦ x.2).insertionSort fun a b ↦
    a.userId ≤ b.userId⟩

def removeAll (set : Table Nat (NodeUser γ)) (ids : List Nat) : Table Nat (NodeUser γ) :=
  ids.foldl (fun set id ↦ set.erase id) set

def upsertAll (set : Table Nat (NodeUser γ)) (users : List (NodeUser γ)) :
    Table Nat (NodeUser γ) :=
  users.foldl (fun set user ↦ if user.userId = 0 then set else set.insert user.userId user) set

def fold (u : UsersState γ) (delta : UserDelta γ) : UsersState γ :=
  let set := if delta.full then ∅ else removeAll (u.set.getD ∅) delta.removedUserIds
  { u with
    set := some (upsertAll set delta.upserts)
    cursor := delta.cursor
    has := true
    version := u.version + 1
    dirty := true }

def helloUsersCursor (u : UsersState γ) : Nat := if u.has then u.cursor else 0

def restoreUsers (u : UsersState γ) (set : UserSet γ) : UsersState γ :=
  { u with
    set := some (set.users.foldl (fun t user ↦ t.insert user.userId user) ∅)
    cursor := set.cursor
    has := true
    version := u.version + 1
    applied := u.version + 1 }

/-- What `TakeUsers` does with the queue: the first whole set is taken, and the
changes queued before it are part of it. -/
def takeUsers (u : UsersState γ) : Option (UsersState γ × UserSet γ) :=
  match u.queue.dropWhile (fun delta ↦ !delta.full) with
  | [] => none
  | delta :: rest =>
    let taken := fold { u with queue := rest } delta
    some (taken, userSet taken)

def usersResult (u : UsersState γ) (now : Int) (set : UserSet γ) (err : Option String) :
    UsersState γ :=
  match err with
  | some err => { u with lastErr := err, retryAt := some now }
  | none => if u.cursor = set.cursor then { u with applied := u.version } else u

def joined (pages : List (UserDelta γ)) : UserDelta γ where
  cursor := (pages.getLast?.map (·.cursor)).getD 0
  full := (pages.head?.map (·.full)).getD false
  lastPage := true
  upserts := pages.flatMap (·.upserts)
  removedUserIds := pages.flatMap (·.removedUserIds)

def receiveUsers (u : UsersState γ) (sessionID : Nat) :
    Option (UserDelta γ) → UsersState γ × Bool
  | none => (u, false)
  | some delta =>
    let held := if u.pagesSession = sessionID then u.pages else []
    if maxPendingUserPages ≤ held.length then
      ({ u with pages := [], pagesSession := sessionID }, true)
    else if delta.lastPage then
      let pages := held ++ [delta]
      let assembled : UserDelta γ :=
        { cursor := delta.cursor
          full := (pages.head?.map (·.full)).getD false
          lastPage := true
          upserts := pages.flatMap (·.upserts)
          removedUserIds := pages.flatMap (·.removedUserIds) }
      ({ u with pages := [], pagesSession := sessionID, queue := u.queue ++ [assembled] }, false)
    else ({ u with pages := held ++ [delta], pagesSession := sessionID }, false)

def dropUserPages (u : UsersState γ) (sessionID : Nat) : UsersState γ :=
  if u.pagesSession = sessionID then { u with pages := [], pagesSession := 0 } else u

/-- `applyPendingUsers` up to the call of the applier: the state, and the set and
version to apply when one is due. -/
def applyPendingUsers (u : UsersState γ) (active : Bool) (now : Int) :
    UsersState γ × Option (UserSet γ × UInt64) :=
  if active then
    let folded := { u.queue.foldl fold u with queue := [] }
    if folded.has ∧ folded.applied ≠ folded.version ∧ folded.retryAt.all (· ≤ now) then
      (folded, some (userSet folded, folded.version))
    else (folded, none)
  else (u, none)

inductive Outcome
  | applied
  | failed (err : String)
  | cancelled
  deriving DecidableEq

def appliedUsers (u : UsersState γ) (now : Int) (version : UInt64) : Outcome → UsersState γ
  | .cancelled => u
  | .failed err => { u with lastErr := err, retryAt := some (now + usersRetryInterval) }
  | .applied =>
    { u with
      lastErr := ""
      retryAt := none
      applied := if u.version = version then version else u.applied }

def saveUsers (u : UsersState γ) (force : Bool) (now : Int) : UsersState γ × Option (UserSet γ) :=
  if !u.dirty || (!force && u.savedAt.any (fun at_ ↦ now - at_ < usersSaveInterval)) then (u, none)
  else ({ u with dirty := false, savedAt := some now }, some (userSet u))

/-- What the worker holds outside the lock. -/
inductive Worker (γ : Type)
  | idle
  | applying (set : UserSet γ) (version : UInt64)
  | saving (set : UserSet γ)
  deriving DecidableEq

/-- Where the node's start stands: it may restore the stored set until it takes one
from Control or goes on without. -/
inductive Startup (γ : Type)
  | starting
  | taken (set : UserSet γ)
  | started
  deriving DecidableEq

/-- A session with Control. `base` is the cursor up to which Control has sent changes, `held`
whether the Agent has a set, and `current` holds the pages of the delta being delivered, from its
first one on. -/
structure Stream (γ : Type) where
  id : Nat
  base : Nat
  held : Bool
  outgoing : List (UserDelta γ)
  current : List (UserDelta γ)

inductive Link (γ : Type)
  | offline
  | greeting (cursor : Nat) (held : Bool)
  | streaming (stream : Stream γ)

/-- The users part of the data plane, its file, its worker, the node's start and the
stream. `head` is the latest cursor that Control has sent. -/
structure System (γ : Type) where
  users : UsersState γ
  active : Bool
  clock : Int
  session : Nat
  file : Option (UserSet γ)
  worker : Worker γ
  startup : Startup γ
  sessions : Nat
  link : Link γ
  head : Nat

def initial (clock : Int) : System γ where
  users := initialUsers
  active := false
  clock := clock
  session := 0
  file := none
  worker := .idle
  startup := .starting
  sessions := 0
  link := .offline
  head := 0

def sessionEnded (s : System γ) (sessionID : Nat) : System γ :=
  if s.session = sessionID then { s with users := dropUserPages s.users sessionID, session := 0 }
  else s

inductive Action (γ : Type)
  | tick (duration : Nat)
  | restore
  | discard (removed : Bool)
  | take
  | result (err : Option String)
  | activate
  | hello
  | accept
  | refuse
  | send (pages : List (UserDelta γ))
  | deliver
  | close
  | apply
  | applied (outcome : Outcome)
  | save (force : Bool)
  | saved (written : Bool)
  | restart (readable removed : Bool)

abbrev System.send (s : System γ) (stream : Stream γ) (pages : List (UserDelta γ)) : System γ :=
  { s with
    link := .streaming { stream with
      base := (joined pages).cursor
      held := true
      outgoing := stream.outgoing ++ pages }
    head := (joined pages).cursor }

abbrev System.restart (s : System γ) (persisted file : Option (UserSet γ)) : System γ := { s with
  users := { initialUsers with persisted := persisted }
  active := false
  session := 0
  file := file
  worker := .idle
  startup := .starting
  link := .offline }

def step (s : System γ) : Action γ → Option (System γ)
  | .tick duration => some { s with clock := s.clock + duration }
  | .restore =>
    match s.startup, s.users.persisted with
    | .starting, some set => some { s with users := restoreUsers s.users set }
    | _, _ => none
  | .discard removed =>
    match s.startup with
    | .starting =>
      some { s with
        users := { s.users with persisted := none }
        file := if removed then none else s.file }
    | _ => none
  | .take =>
    match s.startup with
    | .starting =>
      (takeUsers s.users).map fun (users, set) ↦ { s with users := users, startup := .taken set }
    | _ => none
  | .result err =>
    match s.startup with
    | .taken set => some { s with users := usersResult s.users s.clock set err }
    | _ => none
  | .activate => some { s with active := true, startup := .started }
  | .hello =>
    match s.link with
    | .offline => some { s with link := .greeting (helloUsersCursor s.users) s.users.has }
    | _ => none
  | .accept =>
    match s.link with
    | .greeting cursor held =>
      some { s with
        sessions := s.sessions + 1
        session := s.sessions + 1
        link := .streaming ⟨s.sessions + 1, cursor, held, [], []⟩ }
    | _ => none
  | .refuse =>
    match s.link with
    | .greeting _ _ => some { s with link := .offline }
    | _ => none
  | .send pages =>
    match s.link with
    | .streaming stream =>
      some (s.send stream pages)
    | _ => none
  | .deliver =>
    match s.link with
    | .streaming stream =>
      match stream.outgoing with
      | [] => none
      | page :: outgoing =>
        some { s with
          users := (receiveUsers s.users stream.id (some page)).1
          link := .streaming { stream with
            outgoing := outgoing
            current := if page.lastPage then [] else stream.current ++ [page] } }
    | _ => none
  | .close =>
    match s.link with
    | .streaming stream => some { sessionEnded s stream.id with link := .offline }
    | _ => none
  | .apply =>
    match s.worker with
    | .idle =>
      let (users, due) := applyPendingUsers s.users s.active s.clock
      some { s with
        users := users
        worker := match due with
          | none => .idle
          | some (set, version) => .applying set version }
    | _ => none
  | .applied outcome =>
    match s.worker with
    | .applying _ version =>
      some { s with users := appliedUsers s.users s.clock version outcome, worker := .idle }
    | _ => none
  | .save force =>
    match s.worker with
    | .idle =>
      let (users, due) := saveUsers s.users force s.clock
      some { s with
        users := users
        worker := match due with
          | none => .idle
          | some set => .saving set }
    | _ => none
  | .saved written =>
    match s.worker with
    | .saving set =>
      some (if written then { s with file := some set, worker := .idle }
        else { s with users := { s.users with dirty := true }, worker := .idle })
    | _ => none
  | .restart readable removed =>
    -- A file that cannot be read is discarded.
    some (s.restart (if readable then s.file else none)
      (if readable ∨ removed = false then s.file else none))

end AnixAgent.Users.Machine
