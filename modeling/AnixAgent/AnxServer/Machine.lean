import AnixAgent.Lib.Reconcile
import AnixAgent.Lib.Runs
import AnixAgent.Network.Plan

namespace AnixAgent.AnxServer.Machine

open Lib.Reconcile Lib.Runs Lib.Tables Network.Plan

abbrev UserID := String

structure User where
  key : List UInt8
  externalId : String
  deriving DecidableEq

structure ReverseDial where
  dialId : String
  addr : String
  linkKey : List UInt8
  quic : Bool
  faketcp : Bool
  a2ServerName : String
  hubPublic : String
  deriving DecidableEq

structure Process where
  users : Table UserID User
  links : Table String Link
  routes : Table UserID String
  dials : List ReverseDial

/-- A management call, with what the caller notes when it succeeds: the links whose users go, the
accepts whose keys are added, the map of a route table. -/
inductive Rpc
  | removeUsers (links : List (String × UserID))
  | addUsers (accepts : List Accept)
  | clearLinkRoutes
  | removeLinks (ids : List String)
  | addLinks (links : List Link)
  | setLinkRoutes (table : List (UserID × String)) (routes : Table UserID String)
  | setReverseDials (dials : List ReverseDial)

structure Admitted where
  key : List UInt8
  userID : UserID
  deriving DecidableEq

/-- The variables of `serve` over one process, and the process. -/
structure Session where
  first : Bool
  admitted : Table String Admitted
  links : Table String Link
  routes : Table UserID String
  set : Bool
  dials : List ReverseDial
  process : Process

def Session.fresh : Session := ⟨true, ∅, ∅, ∅, false, [], ⟨∅, ∅, ∅, []⟩⟩

def Session.exec (userID : List UInt8 → UserID) (s : Session) : Rpc → Session
  | .removeUsers links => { s with
      admitted := links.foldl (fun t x ↦ t.erase x.1) s.admitted
      process := { s.process with users := links.foldl (fun t x ↦ t.erase x.2) s.process.users } }
  | .addUsers accepts => { s with
      admitted := accepts.foldl
        (fun t a ↦ t.insert a.linkID ⟨a.linkKey, userID a.linkKey⟩) s.admitted
      process := { s.process with
        users := accepts.foldl
          (fun t a ↦ t.insert (userID a.linkKey) ⟨a.linkKey, a.linkID⟩) s.process.users } }
  | .clearLinkRoutes => { s with set := false, process := { s.process with routes := ∅ } }
  | .removeLinks ids => { s with
      links := ids.foldl (fun t id ↦ t.erase id) s.links
      process := { s.process with links := ids.foldl (fun t id ↦ t.erase id) s.process.links } }
  | .addLinks links => { s with
      links := links.foldl (fun t l ↦ t.insert l.linkId l) s.links
      process := { s.process with
        links := links.foldl (fun t l ↦ t.insert l.linkId l) s.process.links } }
  | .setLinkRoutes table routes => { s with
      routes := routes
      set := true
      process := { s.process with routes := index (·.1) (·.2) table } }
  | .setReverseDials dials => { s with dials := dials, process := { s.process with dials := dials } }

def Session.keeps (s : Session) (a : Accept) : Bool :=
  (s.admitted.lookup a.linkID).any fun have_ ↦ have_.key = a.linkKey

def Session.removing (s : Session) (wanted : List Accept) : List (String × UserID) :=
  (s.admitted.entries.filter (·.1 ∉ (wanted.filter s.keeps).map (·.linkID))).map
    fun e ↦ (e.1, e.2.userID)

def Session.adding (s : Session) (wanted : List Accept) : List Accept :=
  wanted.filter (!s.keeps ·)

/-- `admit`: the calls that make the process admit exactly the wanted links. A new process is asked
even when there is nothing to add. -/
def Session.admitLinks (s : Session) (wanted : List Accept) : List Rpc :=
  (if s.removing wanted = [] then [] else [.removeUsers (s.removing wanted)]) ++
    if s.adding wanted = [] ∧ s.first = false then [] else [.addUsers (s.adding wanted)]

def relayed (wanted : List Accept) : List (Accept × Link) :=
  wanted.filterMap fun a ↦ a.next.map (a, ·)

/-- The links that the accepts are relayed into: of two with one id, the first. -/
def wantedLinks (wanted : List Accept) : Table String Link :=
  (relayed wanted).foldl
    (fun t x ↦ if (t.lookup x.2.linkId).isSome then t else t.insert x.2.linkId x.2) ∅

def Session.routeTable (s : Session) (wanted : List Accept) : List (UserID × String) :=
  (relayed wanted).filterMap fun x ↦
    (s.admitted.lookup x.1.linkID).map fun have_ ↦ (have_.userID, x.2.linkId)

def Session.goingLinks (s : Session) (wanted : List Accept) : List String :=
  (stale s.links (wantedLinks wanted)).insertionSort (· ≤ ·)

def Session.comingLinks (s : Session) (wanted : List Accept) : List Link :=
  ((Lib.Reconcile.fresh s.links (wantedLinks wanted)).map (·.2)).insertionSort
    fun l l' ↦ l.linkId ≤ l'.linkId

def Session.relays (s : Session) (wanted : List Accept) : Bool :=
  let routes := index (·.1) (·.2) (s.routeTable wanted)
  s.goingLinks wanted = [] ∧ s.comingLinks wanted = [] ∧ sameEntries routes s.routes ∧
    (s.set ∨ routes.keys = [])

/-- The calls of `relay`: no route may name a link that goes, so they are cleared first. -/
def Session.relayCalls (s : Session) (wanted : List Accept) : List Rpc :=
  (if s.goingLinks wanted = [] then []
    else [.clearLinkRoutes, .removeLinks (s.goingLinks wanted)]) ++
  ((if s.comingLinks wanted = [] then [] else [.addLinks (s.comingLinks wanted)]) ++
  [.setLinkRoutes ((s.routeTable wanted).insertionSort fun x y ↦ x.1 ≤ y.1)
    (index (·.1) (·.2) (s.routeTable wanted))])

def Session.relay (s : Session) (wanted : List Accept) : Except String (List Rpc) :=
  match (relayed wanted).find? fun x ↦ (s.admitted.lookup x.1.linkID).isNone with
  | some (a, _) => .error s!"relay {a.transport}: the link is not admitted"
  | none => .ok (if s.relays wanted then [] else s.relayCalls wanted)

def reverseDial (a : Accept) : Option ReverseDial :=
  if a.reverseDial = "" then none
  else some {
    dialId := a.transport
    addr := a.reverseDial
    linkKey := a.linkKey
    quic := a.reverseQUIC
    faketcp := a.reverseFakeTCP
    a2ServerName := if a.l2 then String.ofList (a.serverName.toList.takeWhile (· ≠ ',')) else ""
    hubPublic := if a.l2 then a.hubPublic else "" }

def wantedDials (wanted : List Accept) : List ReverseDial :=
  (wanted.filterMap reverseDial).insertionSort fun d d' ↦ d.dialId ≤ d'.dialId

def Session.dial (s : Session) (wanted : List Accept) : List Rpc :=
  let dials := wantedDials wanted
  if dials = s.dials then [] else [.setReverseDials dials]

/-- Where `run` is: between two processes, in a step of a round, after a round, or closed. -/
inductive Phase
  | down
  | admitting
  | relaying
  | dialing
  | idle
  | closed
  deriving DecidableEq

/-- A server. `calls` are those of the present step that are still to be made, `errors` those that
`serve` returned; `read` is the list that `admit` read last, and `quiet` is whether no `want` came
since. -/
structure State where
  wanted : List Accept
  wake : Bool
  phase : Phase
  calls : Option (List Rpc)
  session : Session
  errors : List String
  read : List Accept
  quiet : Bool

def init : State := ⟨[], false, .down, none, .fresh, [], [], false⟩

def State.fail (s : State) (err : String) : State :=
  { s with phase := .down, calls := none, session := .fresh, errors := s.errors ++ [err] }

/-- `callFails` is also the end of the wait for a process that never answers; until then `admit`
makes its call to a new process again (`callAgain`). -/
inductive Action
  | want (accepts : List Accept)
  | launch
  | launchFails (err : String)
  | read
  | call
  | callFails (err : String)
  | callAgain
  | next
  | exits (err : String)
  | woken
  | close

def step (userID : List UInt8 → UserID) (s : State) : Action → Option State
  | .want accepts => some { s with wanted := accepts, wake := true, quiet := false }
  | .launch => if s.phase = .down then some { s with phase := .admitting } else none
  | .launchFails err => if s.phase = .down then some (s.fail err) else none
  | .read =>
    if s.calls.isSome then none
    else match s.phase with
      | .admitting => some { s with
          calls := some (s.session.admitLinks s.wanted), read := s.wanted, quiet := true }
      | .relaying =>
        match s.session.relay s.wanted with
        | .ok calls => some { s with calls := some calls }
        | .error err => some (s.fail err)
      | .dialing => some { s with calls := some (s.session.dial s.wanted) }
      | _ => none
  | .call =>
    match s.calls with
    | some (rpc :: calls) => some { s with
        session := s.session.exec userID rpc, calls := some calls }
    | _ => none
  | .callFails err =>
    match s.calls with
    | some (_ :: _) => some (s.fail err)
    | _ => none
  | .callAgain =>
    match s.calls with
    | some (.addUsers _ :: _) => if s.session.first then some s else none
    | _ => none
  | .next =>
    if s.calls.any (·.isEmpty) then
      match s.phase with
      | .admitting => some { s with phase := .relaying, calls := none }
      | .relaying => some { s with phase := .dialing, calls := none }
      | .dialing => some { s with
          phase := .idle, calls := none, session := { s.session with first := false } }
      | _ => none
    else none
  | .exits err =>
    if s.phase = .down ∨ s.phase = .closed then none else some (s.fail err)
  | .woken =>
    if s.phase = .idle ∧ s.wake then some { s with phase := .admitting, wake := false } else none
  | .close =>
    if s.phase = .idle ∨ s.phase = .down then some { s with phase := .closed } else none

end AnixAgent.AnxServer.Machine
