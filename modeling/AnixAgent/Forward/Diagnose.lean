import Mathlib

namespace AnixAgent.Forward.Diagnose

open List

/-- `raw` stands for the unspecified security too, and `named` for TLS, WSS and gRPC. -/
inductive LinkSecurity
  | raw
  | quic
  | named (text : String)
  deriving DecidableEq

structure Upstream where
  address : String
  port : Nat
  nodeRef : String
  security : LinkSecurity
  deriving DecidableEq

structure NodeHop where
  routeId : String
  hopIndex : Nat
  engine : String
  listenPort : Nat
  allowPrivate : Bool
  upstreams : List Upstream
  deriving DecidableEq

structure DesiredState where
  generation : Nat
  hops : List NodeHop

inductive Check
  | listen
  | portConflict
  | connect
  | udpProbe
  deriving DecidableEq

structure CheckParams where
  routeId : String
  hopIndex : Nat
  generation : Nat
  upstream : String
  allowPrivate : Bool

inductive Verdict
  | ok
  | failed
  | inconclusive
  | skipped
  deriving DecidableEq

structure CheckItem where
  target : String
  protocol : String
  status : Verdict
  code : String
  message : String
  rtt : Nat
  deriving DecidableEq

structure CheckResult where
  generation : Nat
  status : Option Verdict
  code : String
  message : String
  items : List CheckItem

structure Dial where
  host : String
  port : Nat
  udp : Bool
  deriving DecidableEq

inductive Reply
  | unwritten (err : String)
  | refused
  | timeout
  | unread (err : String)
  | reply (rtt : Nat)

inductive Dialed
  | unreachable (err : String) (timeout : Bool)
  | connected (rtt : Nat) (reply : Reply)

/-- The host and the network, which answer as they like, each upstream by its index. Addresses are
of the type `α`; `text` is of an unmapped one, and `refuses` is `CheckTargetAddress`. -/
structure World (α : Type) where
  parseAddr : String → Option α
  text : α → String
  refuses : α → Bool → Option String
  lookup : Nat → String → Except String (List α)
  dial : Nat → Dialed
  hopError : NodeHop → String
  conflicts : NodeHop → List CheckItem

variable {α : Type}

def joinHostPort (host : String) (port : Nat) : String :=
  if ':' ∈ host.toList then s!"[{host}]:{port}" else s!"{host}:{port}"

def maxCheckItems : Nat := 64

def aggregate (items : List CheckItem) : Verdict :=
  if items.any (·.status = .failed) then .failed
  else if items ≠ [] ∧ items.all (·.status = .skipped) then .skipped
  else if items.any (·.status = .inconclusive) then .inconclusive
  else .ok

def targetPolicy (hop : NodeHop) (allowPrivate : Bool) : Bool := allowPrivate && hop.allowPrivate

def World.resolve (w : World α) (i : Nat) (host : String) : Except String (List α) :=
  match w.parseAddr host with
  | some addr => .ok [addr]
  | none =>
    match w.lookup i host with
    | .ok [] => .error s!"{host} has no address"
    | answer => answer

def notProbed (u : Upstream) (udp : Bool) : Option (String × String) :=
  match udp, u.security with
  | false, .quic =>
    some ("link_not_tcp", "the link to the next hop is QUIC: no TCP listener to connect to")
  | true, .named text =>
    some ("link_not_udp", "the link to the next hop is " ++ text ++ ": no UDP listener to probe")
  | _, _ => none

def World.connected (w : World α) (i : Nat) (udp : Bool) (item : CheckItem) : CheckItem :=
  match w.dial i with
  | .unreachable err timeout => { item with
    status := .failed
    code := if timeout then "timeout" else "unreachable"
    message := err }
  | .connected rtt reply =>
    if !udp then { item with
      status := .ok
      code := "reachable"
      rtt := rtt }
    else match reply with
      | .unwritten err => { item with
        status := .failed
        code := "unreachable"
        message := err }
      | .refused => { item with
        status := .failed
        code := "port_unreachable"
        message := "ICMP port unreachable" }
      | .timeout => { item with
        status := .inconclusive
        code := "no_reply"
        message := "no reply within the timeout (a UDP service need not answer)" }
      | .unread err => { item with
        status := .inconclusive
        code := "no_reply"
        message := err }
      | .reply rtt => { item with
        status := .ok
        code := "reply"
        rtt := rtt }

def World.target (w : World α) (i : Nat) (u : Upstream) (policy : Bool) :
    Except (Verdict × String × String) String :=
  match w.resolve i u.address with
  | .error err => .error (.failed, "resolve_failed", err)
  | .ok addrs =>
    match (addrs.filterMap (w.refuses · policy)).getLast? with
    | some refusal => .error (.skipped, "target_not_allowed", "not probed: " ++ refusal)
    | none => .ok ((addrs.head?.map w.text).getD "")

def World.probeUpstream (w : World α) (i : Nat) (u : Upstream) (policy udp : Bool) :
    CheckItem × Option Dial :=
  let item : CheckItem :=
    ⟨joinHostPort u.address u.port, if udp then "udp" else "tcp", .ok, "", "", 0⟩
  let answered (status : Verdict) (code message : String) : CheckItem × Option Dial :=
    ({ item with
      status := status
      code := code
      message := message }, none)
  let dialed (host : String) := (w.connected i udp item, some ⟨host, u.port, udp⟩)
  if u.nodeRef ≠ "" then
    match notProbed u udp with
    | some (code, message) => answered .skipped code message
    | none => dialed u.address
  else match w.target i u policy with
    | .error (status, code, message) => answered status code message
    | .ok host => dialed host

def wantedUpstreams (hop : NodeHop) (p : CheckParams) : List Upstream :=
  hop.upstreams.filter fun u ↦ p.upstream = "" ∨ joinHostPort u.address u.port = p.upstream

def World.probes (w : World α) (hop : NodeHop) (p : CheckParams) (udp : Bool) :
    List (CheckItem × Option Dial) :=
  (wantedUpstreams hop p).mapIdx fun i u ↦
    w.probeUpstream i u (targetPolicy hop p.allowPrivate) udp

def World.checkUpstreams (w : World α) (hop : NodeHop) (p : CheckParams) (udp : Bool)
    (result : CheckResult) : CheckResult × List Dial :=
  if wantedUpstreams hop p = [] then
    ({ result with
      status := some .failed
      code := if p.upstream = "" then "no_upstream" else "unknown_upstream"
      message := if p.upstream = "" then "the hop has no upstream"
        else s!"{p.upstream} is not an upstream of the hop" }, [])
  else
    let items := (w.probes hop p udp).map (·.1)
    let verb := if udp then "answered" else "reachable"
    let count := items.countP (·.status = .ok)
    ({ result with
      items := items
      message := s!"{count} of {items.length} upstreams {verb}" },
      (w.probes hop p udp).filterMap (·.2))

def World.runCheck (w : World α) (hop : NodeHop) (p : CheckParams) (result : CheckResult) :
    Check → CheckResult × List Dial
  | .listen =>
    let message := w.hopError hop
    ({ result with
      status := some .failed
      code := "hop_error"
      message := if message = "" then
        "no driver for engine " ++ hop.engine ++ ": the Agent runs forwarding on the network model"
        else message }, [])
  | .portConflict =>
    let items := w.conflicts hop
    ({ result with
      items := items
      status := if items = [] then some .ok else none
      message := if items = [] then
        s!"no foreign listener or nat rule claims port {hop.listenPort}" else "" }, [])
  | .connect => w.checkUpstreams hop p false result
  | .udpProbe => w.checkUpstreams hop p true result

def World.diagnose (w : World α) (state : DesiredState) (check : Check) (p : CheckParams) :
    CheckResult × List Dial :=
  let result : CheckResult := ⟨state.generation, none, "", "", []⟩
  match state.hops.find? fun h ↦ h.routeId = p.routeId ∧ h.hopIndex = p.hopIndex with
  | none =>
    ({ result with
      status := some .failed
      code := "hop_not_applied"
      message := s!"the node's state (generation {state.generation}) does not hold " ++
        s!"route {p.routeId} hop {p.hopIndex}" },
      [])
  | some hop =>
    let r := w.runCheck hop p result check
    let items := r.1.items.take maxCheckItems
    ({ r.1 with
      items := items
      status := some (r.1.status.getD (aggregate items))
      message := if p.generation ≠ 0 ∧ p.generation ≠ state.generation ∧ r.1.message = "" then
        s!"the node holds generation {state.generation}, Control wants {p.generation}"
        else r.1.message }, r.2)

/-- The address of an upstream that may be connected to: its own when it references a node, and
otherwise one of a resolution all of whose addresses the policy allows. -/
def World.Permits (w : World α) (policy : Bool) (u : Upstream) (d : Dial) : Prop :=
  d.port = u.port ∧
    if u.nodeRef ≠ "" then d.host = u.address
    else ∃ i addrs, w.resolve i u.address = .ok addrs ∧ (∀ a ∈ addrs, w.refuses a policy = none) ∧
      ∃ a ∈ addrs, d.host = w.text a

variable {w : World α} {i : Nat} {u : Upstream} {policy udp : Bool} {host : String} {d : Dial}

theorem resolve_ne_nil {addrs : List α} (h : w.resolve i host = .ok addrs) : addrs ≠ [] := by
  unfold World.resolve at h
  split at h
  · cases h
    exact cons_ne_nil _ _
  split at h
  · cases h
  · next hne =>
    intro hnil
    exact hne (hnil ▸ h)

theorem target_eq_ok (h : w.target i u policy = .ok host) :
    ∃ addrs, w.resolve i u.address = .ok addrs ∧ (∀ a ∈ addrs, w.refuses a policy = none) ∧
      ∃ a ∈ addrs, host = w.text a := by
  unfold World.target at h
  split at h
  · cases h
  next addrs haddrs =>
  split at h
  · cases h
  next hnone =>
  cases h
  obtain ⟨a, rest, rfl⟩ := exists_cons_of_ne_nil (resolve_ne_nil haddrs)
  refine ⟨_, haddrs, ?_, a, mem_cons_self, rfl⟩
  exact filterMap_eq_nil_iff.mp (getLast?_eq_none_iff.mp hnone)

theorem permits_probeUpstream (h : (w.probeUpstream i u policy udp).2 = some d) :
    w.Permits policy u d := by
  unfold World.probeUpstream at h
  simp only at h
  split at h
  · next hnode =>
    split at h
    · cases h
    · cases h
      exact ⟨rfl, by rw [if_pos hnode]⟩
  · next hfree =>
    split at h
    · cases h
    next host hhost =>
    cases h
    refine ⟨rfl, ?_⟩
    rw [if_neg hfree]
    exact ⟨i, target_eq_ok hhost⟩

variable {hop : NodeHop} {p : CheckParams} {result : CheckResult}

theorem permits_checkUpstreams (h : d ∈ (w.checkUpstreams hop p udp result).2) :
    ∃ u ∈ hop.upstreams, w.Permits (targetPolicy hop p.allowPrivate) u d := by
  unfold World.checkUpstreams at h
  simp only at h
  split at h
  · cases h
  · obtain ⟨probe, hprobe, hd⟩ := mem_filterMap.mp h
    obtain ⟨i, hi, rfl⟩ := mem_mapIdx.mp hprobe
    exact ⟨_, mem_of_mem_filter (getElem_mem hi), permits_probeUpstream hd⟩

/-- Each address that `Diagnose` connects to is that of an upstream of the hop that the request
names: its own for one that references a node, and otherwise one of a resolution all of whose
addresses pass the policy. -/
theorem dialed_permitted (w : World α) (state : DesiredState) (check : Check) (p : CheckParams) :
    ∀ d ∈ (w.diagnose state check p).2, ∃ hop ∈ state.hops, hop.routeId = p.routeId ∧
      hop.hopIndex = p.hopIndex ∧ ∃ u ∈ hop.upstreams,
        w.Permits (p.allowPrivate && hop.allowPrivate) u d := by
  intro d hd
  unfold World.diagnose at hd
  split at hd
  · cases hd
  next hop hhop =>
  have hnamed := List.find?_some hhop
  simp only [decide_eq_true_eq] at hnamed
  refine ⟨hop, List.mem_of_find?_eq_some hhop, hnamed.1, hnamed.2, ?_⟩
  cases check with
  | listen | portConflict => cases hd
  | connect | udpProbe => exact permits_checkUpstreams hd

/-- Every lookup is answered by its index. -/
def indexed : World Nat := ⟨fun _ ↦ none, toString, fun _ _ ↦ none, fun i _ ↦ .ok [i],
  fun _ ↦ .connected 1 .timeout, fun _ ↦ "", fun _ ↦ []⟩

theorem dialed_permitted_free : ∃ u, indexed.Permits true u ⟨"0", 81, false⟩ := by
  obtain ⟨hop, hhop, -, -, u, -, h⟩ := dialed_permitted indexed
    ⟨1, [⟨"r", 0, "e", 80, true, [⟨"h", 81, "", .raw⟩]⟩]⟩ .connect ⟨"r", 0, 1, "", true⟩
    ⟨"0", 81, false⟩ (.head _)
  cases List.mem_singleton.mp hhop
  exact ⟨u, h⟩

/-- What the individual checks found. -/
def World.outcomes (w : World α) (hop : NodeHop) (p : CheckParams) : Check → List CheckItem
  | .listen => []
  | .portConflict => w.conflicts hop
  | .connect => (w.probes hop p false).map (·.1)
  | .udpProbe => (w.probes hop p true).map (·.1)

theorem checkUpstreams_items (hstatus : result.status = none) (hitems : result.items = []) :
    (w.checkUpstreams hop p udp result).1.items = (w.probes hop p udp).map (·.1) ∧
      (w.probes hop p udp ≠ [] → (w.checkUpstreams hop p udp result).1.status = none) := by
  unfold World.checkUpstreams
  split
  · next hwanted => simp [World.probes, hwanted, hitems]
  · exact ⟨rfl, fun _ ↦ hstatus⟩

theorem runCheck_items {check : Check} (hstatus : result.status = none)
    (hitems : result.items = []) :
    (w.runCheck hop p result check).1.items = w.outcomes hop p check ∧
      (w.outcomes hop p check ≠ [] → (w.runCheck hop p result check).1.status = none) := by
  cases check with
  | listen => exact ⟨hitems, fun hne ↦ absurd rfl hne⟩
  | portConflict => exact ⟨rfl, fun hne ↦ if_neg hne⟩
  | connect | udpProbe =>
    obtain ⟨hprobes, hnone⟩ := checkUpstreams_items (w := w) hstatus hitems
    exact ⟨hprobes, fun hne ↦ hnone fun hnil ↦ hne (map_eq_nil_iff.mpr hnil)⟩

theorem aggregate_failed {items : List CheckItem} :
    aggregate items = .failed ↔ ∃ item ∈ items, item.status = .failed := by
  unfold aggregate
  split
  · next hany => simpa using hany
  · next hany =>
    have hnone : ¬ ∃ item ∈ items, item.status = .failed := by simpa using hany
    simp only [hnone, iff_false]
    split
    · simp
    · split <;> simp

/-- Failed checks make the verdict failed if and only if one of them is among the items that are
reported. -/
theorem failed_verdict (w : World α) (state : DesiredState) (check : Check) (p : CheckParams)
    (hop : NodeHop)
    (hhop : state.hops.find? (fun h ↦ h.routeId = p.routeId ∧ h.hopIndex = p.hopIndex) =
      some hop) :
    ((∃ item ∈ w.outcomes hop p check, item.status = .failed) →
        (w.diagnose state check p).1.status = some .failed) ↔
      ((∃ item ∈ w.outcomes hop p check, item.status = .failed) →
        ∃ item ∈ (w.outcomes hop p check).take maxCheckItems, item.status = .failed) := by
  refine imp_congr_right fun ⟨item, hitem, _⟩ ↦ ?_
  let result : CheckResult := ⟨state.generation, none, "", "", []⟩
  obtain ⟨hitems, hnone⟩ : (w.runCheck hop p result check).1.items = w.outcomes hop p check ∧
      (w.outcomes hop p check ≠ [] → (w.runCheck hop p result check).1.status = none) :=
    runCheck_items rfl rfl
  rw [← aggregate_failed]
  unfold World.diagnose
  rw [hhop]
  dsimp only
  rw [hnone (ne_nil_of_mem hitem), hitems, Option.getD_none, Option.some_inj]

/-- The upstreams before the index `n` are reached. -/
def upTo (n : Nat) : World Nat :=
  { indexed with dial := fun i ↦ if i < n then .connected 1 .timeout else .unreachable "" false }

def hopOf (n : Nat) : NodeHop := ⟨"r", 0, "e", 80, true, List.replicate n ⟨"h", 81, "", .raw⟩⟩

theorem failed_verdict_second : ((upTo 1).diagnose ⟨1, [hopOf 2]⟩ .connect
    ⟨"r", 0, 1, "", true⟩).1.status = some .failed :=
  (failed_verdict _ _ _ _ _ rfl).mpr (fun _ ↦ by decide)
    ⟨⟨"h:81", "tcp", .failed, "unreachable", "", 0⟩, by decide, rfl⟩

theorem failed_beyond_items :
    (∃ item ∈ (upTo 64).outcomes (hopOf 65) ⟨"r", 0, 1, "", true⟩ .connect,
      item.status = .failed) ∧
    ((upTo 64).diagnose ⟨1, [hopOf 65]⟩ .connect ⟨"r", 0, 1, "", true⟩).1.status = some .ok := by
  decide +kernel

end AnixAgent.Forward.Diagnose
