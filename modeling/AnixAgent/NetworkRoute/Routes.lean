import AnixAgent.Lib.Results
import AnixAgent.Lib.Tables
import AnixAgent.Network.Plan

namespace AnixAgent.NetworkRoute.Routes

open Lib.Tables Lib.Results Network.Plan

def bitLen (addr : Addr) : Nat := if addr.is4 then 32 else 128

/-- A prefix of one bit or more: ip takes `/0` as no selector. -/
structure Prefix where
  addr : Addr
  len : Nat
  pos : 0 < len
  deriving DecidableEq

theorem bitLen_pos (addr : Addr) : 0 < bitLen addr := by
  unfold bitLen
  split <;> omega

def hostPrefix (addr : Addr) : Prefix := ⟨addr, bitLen addr, bitLen_pos addr⟩

structure Route where
  egress : String
  source : Addr
  interface : String
  gateway : Option Addr
  table : Nat
  priority : Nat
  toPeers : List Prefix
  toPriority : Nat
  deriving DecidableEq

structure Draft where
  routes : List Route
  tables : List Nat
  priorities : List Nat
  shared : Table String Nat
  routeOf : Table String Nat

def gatewayText : Option Addr → String
  | some addr => addr.text
  | none => "invalid IP"

/-- The gateway of an egress: its own, or the one of its line for the family. -/
def gatewayOf (net : Net) (egress : Egress) (line : Line) (source : Addr) :
    Except String (Option Addr) :=
  let gateway :=
    if egress.gateway ≠ "" then egress.gateway
    else if source.is4 then line.gatewayV4 else line.gatewayV6
  if gateway = "" then .ok none
  else match net.parseAddr gateway with
    | .ok addr => .ok (some addr)
    | .error err => .error s!"egress {egress.id}: gateway {gateway.quote}: {err}"

def inRange (first last number : Nat) : Bool := first ≤ number ∧ number ≤ last

def checkNamed (egress : Egress) (first last number : Nat) : Except String Unit :=
  if number ≠ 0 ∧ inRange first last number = false then
    .error s!"egress {egress.id}: table or priority {number} is outside {first}–{last}"
  else .ok ()

/-- A route joins the routes, unless one with the same source, interface and gateway serves it. -/
def addRoute (d : Draft) (route : Route) : Draft :=
  let d := { d with
    tables := if route.table ≠ 0 then route.table :: d.tables else d.tables
    priorities := if route.priority ≠ 0 then route.priority :: d.priorities else d.priorities }
  let key := route.source.text ++ "|" ++ route.interface ++ "|" ++ gatewayText route.gateway
  let appended (d : Draft) : Draft := { d with
    routeOf := d.routeOf.insert route.egress d.routes.length
    routes := d.routes ++ [route] }
  if route.table = 0 ∧ route.priority = 0 then
    match d.shared.lookup key with
    | some i => { d with routeOf := d.routeOf.insert route.egress i }
    | none => appended { d with shared := d.shared.insert key d.routes.length }
  else appended d

def visitEgress (net : Net) (plan : NetworkPlan) (first last : Nat) (d : Draft) (egress : Egress) :
    Except String Draft :=
  if egress.source = "" ∨ egress.source = sourceAuto then .ok d
  else match net.parseAddr egress.source with
    | .error err => .error s!"egress {egress.id}: source {egress.source.quote}: {err}"
    | .ok address =>
      match (plan.lines.reverse.find? (·.id = egress.lineId)).filter (·.interface ≠ "") with
      | none => .error s!"egress {egress.id}: line {egress.lineId.quote} has no interface"
      | some line => do
        let source := net.unmap address
        let gateway ← gatewayOf net egress line source
        checkNamed egress first last egress.table
        checkNamed egress first last egress.rulePriority
        return addRoute d ⟨egress.id, source, line.interface, gateway, egress.table,
          egress.rulePriority, [], 0⟩

/-- The addresses of a host: itself, or what its name resolves to. A name that does not resolve
has none. -/
def addrsOf (net : Net) (host : String) : List Addr :=
  match net.parseAddr host with
  | .ok ip => [ip]
  | .error _ =>
    match net.lookupHost host with
    | .ok addrs => addrs
    | .error _ => []

def visitAddress (net : Net) (transport : Transport) (peers : Table String (List Prefix))
    (address : String) : Except String (Table String (List Prefix)) :=
  if address = "" then .ok peers
  else match net.splitHostPort address with
    | .error err => .error s!"transport {transport.id}: address {address.quote}: {err}"
    | .ok (host, _) =>
      .ok ((addrsOf net host).foldl (fun peers ip ↦
        peers.insert transport.fromEgressId
          ((peers.lookup transport.fromEgressId).getD [] ++ [hostPrefix (net.unmap ip)])) peers)

def transportPeers (net : Net) (plan : NetworkPlan) : Except String (Table String (List Prefix)) :=
  plan.transports.foldlM (fun peers transport ↦
    match transport.anxLine with
    | none => .ok peers
    | some anx =>
      if transport.role ≠ .dial ∨ transport.fromEgressId = "" ∨ anx.reverse then .ok peers
      else [anx.tcpAddr, anx.quicAddr, anx.faketcpAddr].foldlM (visitAddress net transport) peers) ∅

def addPeer (last : Nat) (route : Route) (p : Prefix) : Route :=
  if p.addr.is4 = route.source.is4 ∧ p ∉ route.toPeers then
    { route with toPeers := route.toPeers ++ [p], toPriority := last }
  else route

def addPeers (last : Nat) (routeOf : Table String Nat) (routes : List Route)
    (egress : String) (prefixes : List Prefix) : List Route :=
  match routeOf.lookup egress with
  | none => routes
  | some i => routes.modify i fun route ↦ prefixes.foldl (addPeer last) route

def sortPeers (net : Net) (route : Route) : Route :=
  { route with toPeers := route.toPeers.insertionSort fun p q ↦ net.less q.addr p.addr = false }

def next (first last : Nat) (used : List Nat) : Except String Nat :=
  match (List.range' first (last + 1 - first)).find? (fun n ↦ n ∉ used) with
  | some number => .ok number
  | none => .error s!"the routing range {first}–{last} is full"

def fill (first last number : Nat) (used : List Nat) : Except String (Nat × List Nat) :=
  if number = 0 then do
    let number ← next first last used
    return (number, number :: used)
  else .ok (number, used)

/-- The tables and priorities that the plan did not name, in the order of the egress ids. -/
def allocate (first last : Nat) : List Nat → List Nat → List Route → Except String (List Route)
  | _, _, [] => .ok []
  | tables, priorities, route :: rest => do
    let (table, tables) ← fill first last route.table tables
    let (priority, priorities) ← fill first last route.priority priorities
    let rest ← allocate first last tables priorities rest
    return { route with table := table, priority := priority } :: rest

def routes (net : Net) (plan : NetworkPlan) (first last : Nat) : Except String (List Route) := do
  let d ← plan.egresses.foldlM (visitEgress net plan first last) ⟨[], [], [last], ∅, ∅⟩
  let peers ← transportPeers net plan
  let joined := peers.entries.foldl
    (fun routes entry ↦ addPeers last d.routeOf routes entry.1 entry.2) d.routes
  let sorted := (joined.map (sortPeers net)).insertionSort fun a b ↦ a.egress ≤ b.egress
  allocate first last d.tables d.priorities sorted

structure Route.InRange (first last : Nat) (route : Route) : Prop where
  table : inRange first last route.table
  priority : inRange first last route.priority
  toPriority : route.toPeers ≠ [] → inRange first last route.toPriority

end AnixAgent.NetworkRoute.Routes
