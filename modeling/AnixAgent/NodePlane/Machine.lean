import AnixAgent.Controller.UserSync
import AnixAgent.Users.Machine

namespace AnixAgent.NodePlane.Machine

open Users.Machine
open Controller.UserSync (UserInfo storeAll)

variable {ν : Type} [DecidableEq ν]

/-- A configuration answer: empty or null, one that `ParseNodeInfo` refuses, or the
node configuration it reads. -/
inductive Answer (ν : Type)
  | null
  | invalid
  | valid (info : ν)
  deriving DecidableEq

/-- A `snapshotRuntime`. A type without an entry has no answer; a protocol may have an
entry that is null. -/
structure Runtime (ν : Type) where
  default : Answer ν
  types : String → Answer ν
  protocols : Nat → Option (Answer ν)

structure Document (ν : Type) where
  kind : String
  protocols : List Nat
  runtime : Option (Runtime ν)

/-- A `ConfigSnapshot`, as far as the controllers read it: its document, unless that
does not decode. -/
abbrev Snapshot (ν : Type) := Option (Document ν)

def nodeKindProxy : String := "proxy"

def Answer.info : Answer ν → Option ν
  | .valid info => some info
  | .null | .invalid => none

def nodeInfoFromSnapshot (snapshot : Snapshot ν) (nodeType : String) (protocolID : Nat) :
    Option ν :=
  match snapshot with
  | none => none
  | some document =>
    if document.kind ≠ "" ∧ document.kind ≠ nodeKindProxy then none
    else
      match document.runtime with
      | none => none
      | some runtime =>
        if protocolID ≠ 0 then ((runtime.protocols protocolID).getD .null).info
        else if nodeType ≠ "" then (runtime.types nodeType).info
        else runtime.default.info

def snapshotExtraProtocols : Snapshot ν → Option (List Nat)
  | none => none
  | some document =>
    match document.runtime, document.protocols with
    | some runtime, first :: rest =>
      if (runtime.protocols first).isNone then some []
      else some (rest.filter fun id ↦ (runtime.protocols id).any (· ≠ .null))
    | _, _ => some []

/-- What Control sets for a user. `extra` is what `extra_json` holds, nothing when that
is not a map of strings. -/
structure Settings where
  uuid : String
  speedLimitMbps : Int
  deviceLimit : Int
  extra : List (String × String)
  deriving DecidableEq

def panelUser (user : NodeUser Settings) : UserInfo :=
  let get (key : String) := (user.settings.extra.lookup key).getD ""
  { id := Int.bmod user.userId (2 ^ 64)
    uuid := user.settings.uuid
    speedLimit := user.settings.speedLimitMbps
    deviceLimit := user.settings.deviceLimit
    wireGuardPeerIP := get "wireguard_peer_ip"
    wireGuardPublicKey :=
      if get "wireguard_public_key" = "" then get "wireguard_peer_public_key"
      else get "wireguard_public_key"
    wireGuardPresharedKey := get "wireguard_preshared_key"
    extra := fun key ↦ user.settings.extra.lookup key }

def panelUsers (users : List (NodeUser Settings)) : List UserInfo := users.map panelUser

/-- A `Controller`. `nodeType` is normalized, and `core` has the users that the core runs
under the controller's tag, by their uuids. -/
structure Controller (ν : Type) where
  nodeType : String
  protocolID : Nat
  started : Bool
  nodeAdded : Bool
  info : Option ν
  userList : List UserInfo
  core : String → Option UserInfo

def newController (nodeType : String) (protocolID : Nat) : Controller ν where
  nodeType := nodeType
  protocolID := protocolID
  started := false
  nodeAdded := false
  info := none
  userList := []
  core := fun _ ↦ none

/-- What a node that has just been added runs once the users are added to it. -/
def coreOf (users : List UserInfo) : String → Option UserInfo := storeAll id users fun _ ↦ none

/-- How bringing a node up in the core ends: its rules, certificate or inbound are
refused, or its users fail and the core is left with some of them. Then the node is
removed again or not. -/
inductive CoreOutcome
  | ok
  | refused
  | usersFailed (removed : Bool) (left : String → Option UserInfo)

def CoreOutcome.isOk : CoreOutcome → Bool
  | .ok => true
  | .refused | .usersFailed _ _ => false

def startWith (c : Controller ν) (node : ν) (users : List UserInfo) :
    CoreOutcome → Controller ν × Bool
  | .refused => ({ c with userList := users }, false)
  | .usersFailed _ left => ({ c with userList := users, nodeAdded := true, core := left }, false)
  | .ok =>
    ({ c with
        userList := users
        nodeAdded := true
        core := coreOf users
        info := some node
        started := true }, true)

def startNodeLocked (c : Controller ν) : CoreOutcome → Controller ν × Bool
  | .refused => (c, false)
  | .usersFailed removed left =>
    ({ c with
        nodeAdded := c.nodeAdded || !removed
        core := if removed then coreOf [] else left }, false)
  | .ok => ({ c with nodeAdded := true, core := coreOf c.userList }, true)

/-- How the calls of the core end when a controller applies a snapshot: its start, or
the deletion of the node it runs, the start of the new one and that of the old one. -/
structure ControllerParts where
  start : CoreOutcome
  deleted : Bool
  replaced : CoreOutcome
  restored : CoreOutcome

def replaceNodeLocked (c : Controller ν) (node : ν) (parts : ControllerParts) :
    Controller ν × Bool :=
  if c.nodeAdded && !parts.deleted then (c, false)
  else
    let emptied := if c.nodeAdded then { c with nodeAdded := false, core := coreOf [] } else c
    match startNodeLocked emptied parts.replaced with
    | (started, true) => ({ started with info := some node }, true)
    | (failed, false) =>
      match c.info with
      | none => (failed, false)
      | some _ => ((startNodeLocked failed parts.restored).1, false)

def reconcileLocked (c : Controller ν) (node : ν) (parts : ControllerParts) :
    Controller ν × Bool :=
  if c.nodeAdded = true ∧ c.info = some node then (c, true) else replaceNodeLocked c node parts

/-- `applySnapshot`; `users` is the list a controller of the node starts with. -/
def applySnapshot (c : Controller ν) (snapshot : Snapshot ν) (users : Option (List UserInfo))
    (parts : ControllerParts) : Controller ν × Bool :=
  match nodeInfoFromSnapshot snapshot c.nodeType c.protocolID with
  | none => (c, false)
  | some node =>
    if c.started then reconcileLocked c node parts
    else
      match users with
      | none => (c, false)
      | some users => startWith c node users parts.start

/-- How the calls of the core end when users change. -/
structure DiffParts where
  deleted : Controller.UserSync.Answer
  added : Controller.UserSync.Answer

def applyUserDiffLocked (c : Controller ν) (users : List UserInfo) (parts : DiffParts) :
    Controller ν × Bool :=
  let (state, ok) := Controller.UserSync.applyUserDiffLocked
    ⟨c.core, fun _ ↦ none, fun _ ↦ none, c.userList, []⟩ users parts.deleted parts.added
  ({ c with core := state.core, userList := state.userList }, ok)

def applyStreamUsers (c : Controller ν) (users : List UserInfo) (parts : DiffParts) :
    Controller ν × Bool :=
  if c.started then applyUserDiffLocked c users parts else (c, true)

/-- How a loop over controllers ends: the context may be cancelled between two. -/
inductive Result
  | ok
  | failed
  | cancelled
  deriving DecidableEq

def Result.also (r : Result) (ok : Bool) : Result :=
  match r, ok with
  | .ok, false => .failed
  | r, _ => r

def eachController (apply : Nat → Controller ν → Controller ν × Bool)
    (cancelled : Nat → Bool) : Nat → List (Controller ν) → List (Controller ν) × Result
  | _, [] => ([], .ok)
  | i, c :: rest =>
    if cancelled i then (c :: rest, .cancelled)
    else
      let (others, result) := eachController apply cancelled (i + 1) rest
      ((apply i c).1 :: others, result.also (apply i c).2)

/-- A `nodeDataPlane`: the extra controllers are in protocol order, and `none` stands
for a list that is not set. -/
structure Node (ν : Type) where
  controllers : List (Controller ν)
  extras : List (Controller ν)
  startupUsers : Option (List UserInfo)
  lastUsers : Option (List UserInfo)

def Node.allControllers (n : Node ν) : List (Controller ν) := n.controllers ++ n.extras

def expandingController (n : Node ν) : Option (Controller ν) :=
  match n.controllers with
  | [c] => if c.nodeType = "" then some c else none
  | _ => none

def currentUserList (n : Node ν) : Option (List UserInfo) := n.startupUsers <|> n.lastUsers

def setStartupUsers (n : Node ν) (users : List UserInfo) : Node ν :=
  { n with startupUsers := some users, lastUsers := some users }

def clearStartupUsers (n : Node ν) : Node ν := { n with startupUsers := none }

/-- How the parts of `ApplyConfig` end. The controllers and the wanted protocols are
numbered; `others` is whether the network, the egress, the traffic priorities and the
exit policy all apply. -/
structure ConfigParts where
  forward : Bool
  controller : Nat → ControllerParts
  controllerCancelled : Nat → Bool
  closed : Nat → Bool
  extra : Nat → ControllerParts
  extraCancelled : Nat → Bool
  others : Bool

def startExtra (base : Controller ν) (startupUsers : Option (List UserInfo)) (id : Nat)
    (snapshot : Snapshot ν) (parts : ControllerParts) : Controller ν × Bool :=
  match nodeInfoFromSnapshot snapshot "" id with
  | none => (newController "" id, false)
  | some node => startWith (newController "" id) node (startupUsers.getD base.userList) parts.start

/-- The wanted protocols in turn: one that runs applies the snapshot, a new one starts,
and one that fails to start is not kept. -/
def eachExtra (base : Controller ν) (startupUsers current : Option (List UserInfo))
    (snapshot : Snapshot ν) (parts : Nat → ControllerParts) (cancelled : Nat → Bool) :
    Nat → List Nat → List (Controller ν) → List (Controller ν) × Result
  | _, [], extras => (extras, .ok)
  | i, id :: wanted, extras =>
    if cancelled i then (extras, .cancelled)
    else
      match extras.find? (fun c ↦ c.protocolID = id) with
      | some extra =>
        let (applied, ok) := applySnapshot extra snapshot current (parts i)
        let (extras, result) := eachExtra base startupUsers current snapshot parts cancelled (i + 1)
          wanted (extras.map fun c ↦ if c.protocolID = id then applied else c)
        (extras, result.also ok)
      | none =>
        let (extra, ok) := startExtra base startupUsers id snapshot (parts i)
        let (extras, result) := eachExtra base startupUsers current snapshot parts cancelled (i + 1)
          wanted (if ok then extras.orderedInsert (fun a b ↦ a.protocolID ≤ b.protocolID) extra
            else extras)
        (extras, result.also ok)

def reconcileExtras (n : Node ν) (snapshot : Snapshot ν) (parts : ConfigParts) :
    Node ν × Bool :=
  match expandingController n with
  | none => ({ n with extras := [] }, n.extras.all fun c ↦ parts.closed c.protocolID)
  | some base =>
    match snapshotExtraProtocols snapshot with
    | none => (n, false)
    | some wanted =>
      let kept := n.extras.filter fun c ↦ c.protocolID ∈ wanted
      let gone := n.extras.filter fun c ↦ c.protocolID ∉ wanted
      let (extras, result) := eachExtra base n.startupUsers (currentUserList n) snapshot parts.extra
        parts.extraCancelled 0 wanted kept
      ({ n with extras := extras },
        result = .ok && gone.all fun c ↦ parts.closed c.protocolID)

def applyConfig (n : Node ν) (snapshot : Snapshot ν) (parts : ConfigParts) :
    Node ν × Bool :=
  if !parts.forward then (n, false)
  else
    match eachController
        (fun i c ↦ applySnapshot c snapshot (currentUserList n) (parts.controller i))
        parts.controllerCancelled 0 n.controllers with
    | (controllers, .cancelled) => ({ n with controllers := controllers }, false)
    | (controllers, result) =>
      let (reconciled, ok) := reconcileExtras { n with controllers := controllers } snapshot parts
      (reconciled, result = .ok && ok && parts.others)

/-- How the parts of `ApplyUsers` end; all controllers are numbered. `err` is the text
of the errors. -/
structure UsersParts where
  controller : Nat → DiffParts
  cancelled : Nat → Bool
  err : String

def applyUsers (n : Node ν) (set : UserSet Settings) (parts : UsersParts) : Node ν × Result :=
  let users := panelUsers set.users
  let (all, result) := eachController (fun i c ↦ applyStreamUsers c users (parts.controller i))
    parts.cancelled 0 n.allControllers
  ({ n with
      controllers := all.take n.controllers.length
      extras := all.drop n.controllers.length
      lastUsers := some users }, result)

def allStarted (n : Node ν) : Bool := n.controllers.all (·.started)

/-- Where `start` and `finishStart` stand. `leaving` is after `Activate`, before the
startup users are cleared. -/
inductive Phase
  | starting
  | connecting
  | waiting
  | taken (set : UserSet Settings)
  | restored
  | leaving
  | running
  | stopped
  deriving DecidableEq

structure System (ν : Type) where
  node : Node ν
  users : UsersState Settings
  active : Bool
  clock : Int
  phase : Phase

def initial (nodeTypes : List String) (persisted : Option (UserSet Settings)) (clock : Int) :
    System ν where
  node := ⟨nodeTypes.map fun nodeType ↦ newController nodeType 0, [], none, none⟩
  users := { initialUsers with persisted := persisted }
  active := false
  clock := clock
  phase := .starting

inductive Action (ν : Type)
  | tick (duration : Nat)
  | receive (delta : UserDelta Settings)
  | startStored (snapshot : Snapshot ν) (parts : ConfigParts)
  | startEmpty
  | connect (ok : Bool)
  | takeUsers
  | restoreUsers
  | finish (snapshot : Snapshot ν) (parts : ConfigParts)
  | giveUp
  | leave
  | applyConfig (snapshot : Snapshot ν) (parts : ConfigParts)
  | applyUsers (parts : UsersParts)

def startStored (s : System ν) (set : UserSet Settings) (snapshot : Snapshot ν)
    (parts : ConfigParts) : System ν :=
  match applyConfig (setStartupUsers s.node (panelUsers set.users)) snapshot parts with
  | (node, true) =>
    { s with node := node, users := Users.Machine.restoreUsers s.users set, phase := .connecting }
  | (node, false) =>
    { s with
      node := { node with startupUsers := none, lastUsers := none }
      users := { s.users with persisted := none }
      phase := .connecting }

def applyPending (s : System ν) (parts : UsersParts) : System ν :=
  match applyPendingUsers s.users s.active s.clock with
  | (users, none) => { s with users := users }
  | (users, some (set, version)) =>
    let (node, result) := applyUsers s.node set parts
    { s with
      node := node
      users := appliedUsers users s.clock version (match result with
        | .ok => .applied
        | .failed => .failed parts.err
        | .cancelled => .cancelled) }

def step (s : System ν) : Action ν → Option (System ν)
  | .tick duration => some { s with clock := s.clock + duration }
  | .receive delta => some { s with users := { s.users with queue := s.users.queue ++ [delta] } }
  | .startStored snapshot parts =>
    match s.phase, s.users.persisted with
    | .starting, some set => some (startStored s set snapshot parts)
    | _, _ => none
  | .startEmpty =>
    match s.phase with
    | .starting => some { s with phase := .connecting }
    | _ => none
  | .connect ok =>
    match s.phase with
    | .connecting =>
      if !ok then some { s with node := clearStartupUsers s.node, phase := .stopped }
      else if allStarted s.node then
        some { s with node := clearStartupUsers s.node, active := true, phase := .running }
      else some { s with phase := .waiting }
    | _ => none
  | .takeUsers =>
    match s.phase with
    | .waiting =>
      (Users.Machine.takeUsers s.users).map fun (users, set) ↦
        { s with
          node := setStartupUsers s.node (panelUsers set.users)
          users := users
          phase := .taken set }
    | _ => none
  | .restoreUsers =>
    match s.phase, s.users.persisted with
    | .waiting, some set =>
      some { s with
        node := setStartupUsers s.node (panelUsers set.users)
        users := Users.Machine.restoreUsers s.users set
        phase := .restored }
    | _, _ => none
  | .finish snapshot parts =>
    match s.phase with
    | .taken set =>
      some { s with
        node := (applyConfig s.node snapshot parts).1
        users := usersResult s.users s.clock set none
        active := true
        phase := .leaving }
    | .restored =>
      some { s with
        node := (applyConfig s.node snapshot parts).1
        active := true
        phase := .leaving }
    | _ => none
  | .giveUp =>
    match s.phase with
    | .waiting | .taken _ | .restored =>
      some { s with node := clearStartupUsers s.node, phase := .stopped }
    | _ => none
  | .leave =>
    match s.phase with
    | .leaving => some { s with node := clearStartupUsers s.node, phase := .running }
    | _ => none
  | .applyConfig snapshot parts =>
    if s.active then some { s with node := (applyConfig s.node snapshot parts).1 } else none
  | .applyUsers parts => if s.active then some (applyPending s parts) else none

end AnixAgent.NodePlane.Machine
