import Mathlib

namespace AnixAgent.Network.Plan

inductive Role
  | dial
  | accept
  | unspecified
  deriving DecidableEq

inductive Audience
  | user
  | hop
  | unspecified
  deriving DecidableEq

/-- The settings of an anx_line transport. A link key is hexadecimal. -/
structure AnxLine where
  linkId : String := ""
  linkKey : String := ""
  serverPublic : String := ""
  tcpAddr : String := ""
  quicAddr : String := ""
  faketcpAddr : String := ""
  egress : String := ""
  serverName : String := ""
  reverse : Bool := false
  reverseDial : String := ""
  reverseListen : String := ""
  carrierOrder : List String := []
  multipath : Bool := false
  fec : Bool := false
  deriving DecidableEq

structure Transport where
  id : String
  kind : String
  role : Role
  fromEgressId : String := ""
  anxLine : Option AnxLine := none
  deriving DecidableEq

def Transport.getAnxLine (transport : Transport) : AnxLine := transport.anxLine.getD {}

structure Line where
  id : String
  interface : String
  gatewayV4 : String := ""
  gatewayV6 : String := ""
  deriving DecidableEq

structure Ingress where
  id : String
  audience : Audience
  port : Int
  deriving DecidableEq

/-- An egress; a table or a rule priority of 0 is one that the plan does not name. -/
structure Egress where
  id : String
  source : String
  lineId : String := ""
  gateway : String := ""
  table : Nat := 0
  rulePriority : Nat := 0
  deriving DecidableEq

structure Forwarding where
  fromTransportId : String
  transportId : String
  egressId : String
  deriving DecidableEq

/-- A port forward or a reverse proxy: what it listens on and serves is in `settings`. -/
structure Forward where
  id : String
  egressId : String
  transportId : String
  settings : String
  deriving DecidableEq

/-- A `NetworkPlan`. A path is known by its transport, and `settings` is everything that is only
passed on. -/
structure NetworkPlan where
  generation : Nat
  hash : String
  deviceRef : String
  lines : List Line := []
  ingresses : List Ingress := []
  egresses : List Egress := []
  paths : List String := []
  transports : List Transport := []
  forwarding : List Forwarding := []
  portForwards : List Forward := []
  reverseProxies : List Forward := []
  kernelForwards : List String := []
  settings : String := ""
  deriving DecidableEq

def transportAnxLine : String := "anx_line"

def sourceAuto : String := "auto"

def relayed (plan : NetworkPlan) (id : String) : Bool :=
  id ≠ "" && plan.forwarding.any (·.transportId == id) && !plan.paths.contains id &&
    !plan.portForwards.any (·.transportId == id) && !plan.reverseProxies.any (·.transportId == id)

def hexDigit (c : Char) : Option UInt8 :=
  if '0' ≤ c ∧ c ≤ '9' then some (c.toNat - 48).toUInt8
  else if 'a' ≤ c ∧ c ≤ 'f' then some (c.toNat - 87).toUInt8
  else if 'A' ≤ c ∧ c ≤ 'F' then some (c.toNat - 55).toUInt8
  else none

def decodeHex : List Char → Option (List UInt8)
  | [] => some []
  | [_] => none
  | a :: b :: rest => do
    let high ← hexDigit a
    let low ← hexDigit b
    let bytes ← decodeHex rest
    return (16 * high + low) :: bytes

structure LinePolicy where
  order : List String
  multipath : Bool
  fec : Bool
  deriving DecidableEq

structure Link where
  linkId : String
  linkKey : List UInt8
  serverPublic : String
  quicAddr : String
  faketcpAddr : String
  tcpAddr : String
  egress : String
  serverName : String
  reverse : Bool
  udpLanes : Nat
  policy : Option LinePolicy
  deriving DecidableEq

def linkKey (transport : Transport) : Except String (List UInt8) :=
  match (decodeHex transport.getAnxLine.linkKey.toList).filter (·.length = 32) with
  | some key => .ok key
  | none => .error s!"transport {transport.id}: the link key is not 32 bytes of hex"

def dialLink (transport : Transport) : Except String Link := do
  let settings := transport.getAnxLine
  let key ← linkKey transport
  return {
    linkId := transport.id
    linkKey := key
    serverPublic := settings.serverPublic
    quicAddr := settings.quicAddr
    faketcpAddr := settings.faketcpAddr
    tcpAddr := settings.tcpAddr
    egress := settings.egress
    serverName := settings.serverName
    reverse := settings.reverse
    udpLanes := 1
    policy :=
      if settings.carrierOrder ≠ [] ∨ settings.multipath ∨ settings.fec then
        some ⟨settings.carrierOrder, settings.multipath, settings.fec⟩
      else none }

def reverseCarriers (order : List String) : Bool × Bool :=
  (order.any fun carrier ↦ carrier = "c2" ∨ carrier = "quic",
    order.any fun carrier ↦ carrier = "c3" ∨ carrier = "faketcp")

def addrChar (c : Char) : Bool := c.isDigit || ('a' ≤ c && c ≤ 'f') || c == '.' || c == ':'

@[ext] structure Addr where
  text : String
  chars : text.toList.all addrChar = true
  nonempty : text ≠ ""
  deriving DecidableEq

def Addr.is4 (addr : Addr) : Bool := !addr.text.toList.contains ':'

/-- The library functions on addresses and host names: `netip.ParseAddr`, `Addr.Unmap`,
`Addr.Less`, `net.SplitHostPort` and `LookupHost`. -/
structure Net where
  parseAddr : String → Except String Addr
  unmap : Addr → Addr
  less : Addr → Addr → Bool
  splitHostPort : String → Except String (String × String)
  lookupHost : String → Except String (List Addr)

structure Accept where
  transport : String
  linkID : String
  linkKey : List UInt8
  tcp : String
  quic : String
  fakeTCP : String
  l2 : Bool
  serverName : String
  sources : List Addr
  next : Option Link
  reverseDial : String
  reverseListen : String
  hubPublic : String
  reverseA2SNI : String
  reverseQUIC : Bool
  reverseFakeTCP : Bool
  deriving DecidableEq

def acceptOf (transport : Transport) (key : List UInt8) : Accept :=
  let settings := transport.getAnxLine
  let l2 := settings.egress == "l2"
  let carriers := reverseCarriers settings.carrierOrder
  { transport := transport.id
    linkID := if settings.linkId = "" then transport.id else settings.linkId
    linkKey := key
    tcp := settings.tcpAddr
    quic := settings.quicAddr
    fakeTCP := settings.faketcpAddr
    l2 := l2
    serverName := settings.serverName
    sources := []
    next := none
    reverseDial := if settings.reverse then settings.reverseDial else ""
    reverseListen := ""
    hubPublic := if settings.reverse && l2 then settings.serverPublic else ""
    reverseA2SNI := ""
    reverseQUIC := settings.reverse && !l2 && carriers.1
    reverseFakeTCP := settings.reverse && !l2 && carriers.2 }

def relayInto (plan : NetworkPlan) (accept : Accept) (next : String) : Except String Accept :=
  -- of two transports with one id the map has the last
  match (plan.transports.reverse.find? (·.id = next)).filter fun into ↦
      into.kind = transportAnxLine ∧ into.role = .dial with
  | none => .error s!"transport {accept.transport}: forwarded into transport {next.quote}, which is not a dialing anx_line transport of the plan"
  | some into => do
    let link ← dialLink into
    let accept := { accept with next := some link }
    if link.reverse = false then return accept
    let accept := { accept with reverseListen := into.getAnxLine.reverseListen }
    if link.egress = "l2" then
      if link.serverName = "" then
        throw s!"transport {accept.transport}: the reverse l2 link {next} needs a server name"
      return { accept with reverseA2SNI := link.serverName }
    else
      let carriers := reverseCarriers into.getAnxLine.carrierOrder
      return { accept with reverseQUIC := carriers.1, reverseFakeTCP := carriers.2 }

def leaveBy (net : Net) (plan : NetworkPlan) (accept : Accept) (id : String) :
    Except String Accept :=
  match plan.egresses.reverse.find? (·.id = id) with
  | none => .error s!"transport {accept.transport}: forwarded to egress {id.quote}, which is not in the plan"
  | some egress =>
    if egress.source = "" ∨ egress.source = sourceAuto then .ok accept
    else match net.parseAddr egress.source with
      | .error err =>
        .error s!"transport {accept.transport}: egress {id} source {egress.source.quote}: {err}"
      | .ok address => .ok { accept with sources := accept.sources ++ [net.unmap address] }

def acceptTransport (net : Net) (plan : NetworkPlan) (transport : Transport) :
    Except String Accept := do
  let key ← linkKey transport
  let accept := acceptOf transport key
  match plan.forwarding.reverse.find? (·.fromTransportId = transport.id) with
  | none => return accept
  | some forwarding =>
    if forwarding.transportId ≠ "" then relayInto plan accept forwarding.transportId
    else leaveBy net plan accept forwarding.egressId

def accepts (net : Net) (plan : NetworkPlan) : Except String (List Accept) := do
  let wanted := plan.transports.filter fun t ↦ t.kind = transportAnxLine ∧ t.role = .accept
  let all ← wanted.mapM (acceptTransport net plan)
  return all.insertionSort fun a b ↦ a.transport ≤ b.transport

def sampleNet : Net where
  parseAddr _ := .error "unable to parse IP"
  unmap addr := addr
  less _ _ := false
  splitHostPort _ := .error "missing port in address"
  lookupHost _ := .error "no such host"

end AnixAgent.Network.Plan
