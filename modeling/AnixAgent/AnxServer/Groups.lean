import AnixAgent.Lib.Claims
import AnixAgent.Lib.Texts
import AnixAgent.Network.Plan

namespace AnixAgent.AnxServer.Groups

open Lib.Claims Lib.Results Lib.Tables Lib.Texts Network.Plan List

/-- What a process is started with: transports that share it share the process. -/
structure Listener where
  tcp : String
  quic : String
  fakeTCP : String
  l2 : Bool
  serverName : String
  sources : String
  reverseListen : String
  reverseA2SNI : String
  reverseQUIC : Bool
  reverseFakeTCP : Bool
  deriving DecidableEq

def listener (a : Accept) : Listener where
  tcp := a.tcp
  quic := a.quic
  fakeTCP := a.fakeTCP
  l2 := a.l2
  serverName := a.serverName
  sources := ",".intercalate ((a.sources.map (·.text)).insertionSort fun s t ↦ s ≤ t)
  reverseListen := a.reverseListen
  reverseA2SNI := a.reverseA2SNI
  reverseQUIC := a.reverseQUIC
  reverseFakeTCP := a.reverseFakeTCP

def defaultServerName : String := "anx-line"

inductive Arg
  | sni (name : String)
  | listen (address dest : String)
  | bareListen (address : String)
  | quicListen (address : String)
  | quicBuffers
  | faketcpListen (address : String)
  | reverseA2Listen (address sni dest : String)
  | reverseListen (address : String)
  | reverseQuic
  | reverseFaketcp
  | egressSource (source : String)
  deriving DecidableEq

def siteOf (names : String) : String :=
  let site := String.ofList (names.toList.takeWhile (· ≠ ','))
  (if site.toList.contains ':' then "[" ++ site ++ "]" else site) ++ ":443"

def serverNameOf (l : Listener) : String :=
  if l.serverName = "" then defaultServerName else l.serverName

def tcpArgs (l : Listener) : List Arg :=
  if l.tcp = "" then []
  else if l.l2 then [.listen l.tcp (siteOf (serverNameOf l))]
  else [.bareListen l.tcp]

def quicArgs (l : Listener) : List Arg :=
  (if l.quic = "" then [] else [.quicListen l.quic]) ++
    if l.quic ≠ "" ∨ l.reverseQUIC then [.quicBuffers] else []

def fakeTCPArgs (l : Listener) : List Arg :=
  if l.fakeTCP = "" then [] else [.faketcpListen l.fakeTCP]

def reverseArgs (l : Listener) : List Arg :=
  if l.reverseListen = "" then []
  else if l.reverseA2SNI ≠ "" then
    [.reverseA2Listen l.reverseListen l.reverseA2SNI (siteOf l.reverseA2SNI)]
  else
    .reverseListen l.reverseListen ::
      ((if l.reverseQUIC then [.reverseQuic] else []) ++
        if l.reverseFakeTCP then [.reverseFaketcp] else [])

def sourceArgs (l : Listener) : List Arg :=
  if l.sources = "" then [] else (l.sources.splitOn ",").map .egressSource

def args (l : Listener) : List Arg :=
  .sni (serverNameOf l) ::
    (tcpArgs l ++ (quicArgs l ++ (fakeTCPArgs l ++ (reverseArgs l ++ sourceArgs l))))

def refusal (net : Net) (a : Accept) : Option String :=
  let listens : Bool := a.tcp ≠ "" ∨ a.quic ≠ "" ∨ a.fakeTCP ≠ ""
  if a.reverseDial ≠ "" ∧ listens then
    some s!"transport {a.transport}: a reverse transport has no listen address"
  else if a.reverseDial ≠ "" ∧ a.l2 ∧ (a.hubPublic = "" ∨ a.serverName = "") then
    some s!"transport {a.transport}: a reverse l2 transport needs the rendezvous's server key and a server name"
  else if a.reverseDial ≠ "" ∧ (net.splitHostPort a.reverseDial).isOk = false then
    some s!"transport {a.transport}: reverse dial {a.reverseDial.quote} is not host:port"
  else if a.reverseDial = "" ∧ listens = false then
    some s!"transport {a.transport}: no listen address"
  else if a.l2 ∧ a.serverName = "" then
    some s!"transport {a.transport}: l2 needs a server name"
  else if 1 < a.sources.countP (·.is4) ∨ 1 < a.sources.countP (!·.is4) then
    some s!"transport {a.transport}: more than one egress source per family"
  else none

abbrev Grouped := Table String String × Table Listener (List Accept)

def takeAccept (net : Net) (g : Grouped) (a : Accept) : Except String Grouped :=
  match refusal net a with
  | some err => .error err
  | none =>
    match g.1.lookup a.linkID with
    | some other => .error s!"transports {other} and {a.transport}: the same link id {a.linkID.quote}"
    | none => .ok (g.1.insert a.linkID a.transport,
        g.2.insert (listener a) ((g.2.lookup (listener a)).getD [] ++ [a]))

def endsInBlank (text : String) : Prop := text.toList.getLast? = some ' '

instance : DecidablePred endsInBlank := fun _ ↦ inferInstanceAs (Decidable (_ = _))

/-- The addresses that the check over the groups looks at. A text that ends in a blank is passed
over: it has no address, or one that ends in a blank itself. -/
def addresses (l : Listener) : List String :=
  (["tcp " ++ l.tcp, "udp " ++ l.quic, "fake-tcp " ++ l.fakeTCP, "tcp " ++ l.reverseListen] ++
    if l.reverseListen ≠ "" ∧ l.reverseQUIC then ["udp " ++ l.reverseListen] else []).filter
      (¬ endsInBlank ·)

def claims (l : Listener) : List (String × Listener) := (addresses l).map (·, l)

structure Iteration where
  order : List Listener → List Listener
  perm : ∀ ls, (order ls).Perm ls

def clash (address : String) : String :=
  s!"listen address {address} is wanted by two anx-server configurations (different carriers, server names or egress sources)"

def group (net : Net) (it : Iteration) (accepts : List Accept) :
    Except String (Table Listener (List Accept)) := do
  let g ← accepts.foldlM (takeAccept net) (∅, ∅)
  let _ ← claimAll clash ∅ ((it.order g.2.keys).flatMap claims)
  return g.2

variable {net : Net}

theorem takeAccept_eq_ok {g g' : Grouped} {a : Accept} :
    takeAccept net g a = .ok g' ↔ refusal net a = none ∧ g.1.lookup a.linkID = none ∧
      g' = (g.1.insert a.linkID a.transport,
        g.2.insert (listener a) ((g.2.lookup (listener a)).getD [] ++ [a])) := by
  unfold takeAccept
  cases refusal net a with
  | some err => simp
  | none =>
    cases g.1.lookup a.linkID with
    | some other => simp
    | none => simp [eq_comm]

variable {accepts : List Accept}

theorem foldlM_takeAccept_isOk {g : Grouped} : (∃ g', accepts.foldlM (takeAccept net) g = .ok g') ↔
      (∀ a ∈ accepts, refusal net a = none) ∧ (accepts.map (·.linkID)).Nodup ∧
        ∀ a ∈ accepts, g.1.lookup a.linkID = none := by
  induction accepts generalizing g with
  | nil => exact iff_of_true ⟨g, rfl⟩ (by simp)
  | cons a accepts ih =>
    have hcons : (∃ g', (a :: accepts).foldlM (takeAccept net) g = .ok g') ↔
        refusal net a = none ∧ g.1.lookup a.linkID = none ∧
          ∃ g', accepts.foldlM (takeAccept net) (g.1.insert a.linkID a.transport,
            g.2.insert (listener a) ((g.2.lookup (listener a)).getD [] ++ [a])) = .ok g' := by
      simp only [foldlM_cons, bind_eq_ok, takeAccept_eq_ok]
      constructor
      · rintro ⟨g', _, ⟨hcheck, hfree, rfl⟩, h⟩
        exact ⟨hcheck, hfree, g', h⟩
      · rintro ⟨hcheck, hfree, g', h⟩
        exact ⟨g', _, ⟨hcheck, hfree, rfl⟩, h⟩
    rw [hcons, ih]
    simp only [forall_mem_cons, map_cons, nodup_cons, mem_map, not_exists, not_and]
    constructor
    · rintro ⟨hcheck, hfree, hchecks, hnodup, hfrees⟩
      have hne (b : Accept) (hb : b ∈ accepts) :
          b.linkID ≠ a.linkID ∧ g.1.lookup b.linkID = none := by
        have h := hfrees b hb
        rw [lookup_insert_ite] at h
        split at h
        · cases h
        · next hne => exact ⟨hne, h⟩
      exact ⟨⟨hcheck, hchecks⟩, ⟨fun b hb ↦ (hne b hb).1, hnodup⟩, hfree, fun b hb ↦ (hne b hb).2⟩
    · rintro ⟨⟨hcheck, hchecks⟩, ⟨hne, hnodup⟩, hfree, hfrees⟩
      refine ⟨hcheck, hfree, hchecks, hnodup, fun b hb ↦ ?_⟩
      rw [lookup_insert_ite, if_neg (hne b hb)]
      exact hfrees b hb

theorem mem_keys_foldlM {g g' : Grouped} (h : accepts.foldlM (takeAccept net) g = .ok g')
    (l : Listener) : l ∈ g'.2 ↔ l ∈ g.2 ∨ l ∈ accepts.map listener := by
  induction accepts generalizing g with
  | nil =>
    cases h
    simp
  | cons a accepts ih =>
    rw [foldlM_cons] at h
    obtain ⟨g₁, hg₁, h⟩ := bind_eq_ok.mp h
    obtain ⟨-, -, rfl⟩ := takeAccept_eq_ok.mp hg₁
    rw [ih h, AList.mem_insert, map_cons, mem_cons]
    tauto

/-- What accepts have to be to be taken. None of it depends on their order. -/
structure Taken (net : Net) (accepts : List Accept) : Prop where
  checked : ∀ a ∈ accepts, refusal net a = none
  links : (accepts.map (·.linkID)).Nodup
  apart : ∀ l ∈ accepts.map listener, ∀ l' ∈ accepts.map listener,
    ∀ address ∈ addresses l, address ∈ addresses l' → l = l'

theorem Taken.perm {accepts' : List Accept} (h : Taken net accepts)
    (hperm : accepts.Perm accepts') : Taken net accepts' where
  checked a ha := h.checked a (hperm.mem_iff.mpr ha)
  links := (hperm.map _).nodup_iff.mp h.links
  apart l hl l' hl' := h.apart l ((hperm.map _).mem_iff.mpr hl) l' ((hperm.map _).mem_iff.mpr hl')

variable {ls : List Listener}

theorem claimAll_listeners : (∃ owners, claimAll clash ∅ (ls.flatMap claims) = .ok owners) ↔
      ∀ l ∈ ls, ∀ l' ∈ ls, ∀ address ∈ addresses l, address ∈ addresses l' → l = l' := by
  rw [claimAll_isOk]
  constructor
  · rintro ⟨-, hpairs⟩ l hl l' hl' address ha ha'
    exact hpairs (address, l) (mem_flatMap.mpr ⟨l, hl, mem_map_of_mem ha⟩)
      (address, l') (mem_flatMap.mpr ⟨l', hl', mem_map_of_mem ha'⟩) rfl
  intro hapart
  refine ⟨fun x _ other h ↦ (by cases h), ?_⟩
  intro x hx y hy hxy
  obtain ⟨l, hl, hx⟩ := mem_flatMap.mp hx
  obtain ⟨l', hl', hy⟩ := mem_flatMap.mp hy
  obtain ⟨address, ha, rfl⟩ := mem_map.mp hx
  obtain ⟨address', ha', rfl⟩ := mem_map.mp hy
  obtain rfl : address = address' := hxy
  exact hapart l hl l' hl' address ha ha'

variable {groups : Table Listener (List Accept)}

theorem taken_of_group {it : Iteration} (h : group net it accepts = .ok groups) :
    Taken net accepts ∧ ∀ l, l ∈ groups ↔ l ∈ accepts.map listener := by
  obtain ⟨g, hg, h⟩ := bind_eq_ok.mp h
  obtain ⟨owners, howners, h⟩ := bind_eq_ok.mp h
  cases h
  obtain ⟨hchecked, hlinks, -⟩ := foldlM_takeAccept_isOk.mp ⟨g, hg⟩
  have hkeys (l : Listener) : l ∈ g.2 ↔ l ∈ accepts.map listener := by
    rw [mem_keys_foldlM hg]
    simp
  have hmem (l : Listener) : l ∈ it.order g.2.keys ↔ l ∈ accepts.map listener := by
    rw [(it.perm _).mem_iff, ← AList.mem_keys, hkeys]
  have hapart := claimAll_listeners.mp ⟨owners, howners⟩
  refine ⟨⟨hchecked, hlinks, fun l hl l' hl' ↦ ?_⟩, hkeys⟩
  exact hapart l ((hmem l).mpr hl) l' ((hmem l').mpr hl')

theorem group_of_taken (it : Iteration)
    (h : Taken net accepts) : ∃ groups, group net it accepts = .ok groups := by
  obtain ⟨g, hg⟩ := foldlM_takeAccept_isOk (g := (∅, ∅)).mpr ⟨h.checked, h.links, fun _ _ ↦ rfl⟩
  have hmem (l : Listener) : l ∈ it.order g.2.keys ↔ l ∈ accepts.map listener := by
    rw [(it.perm _).mem_iff, ← AList.mem_keys, mem_keys_foldlM hg]
    simp
  obtain ⟨owners, howners⟩ :
      ∃ owners, claimAll clash ∅ ((it.order g.2.keys).flatMap claims) = .ok owners :=
    claimAll_listeners.mpr fun l hl l' hl' ↦ h.apart l ((hmem l).mp hl) l' ((hmem l').mp hl')
  exact ⟨g.2, bind_eq_ok.mpr ⟨g, hg, bind_eq_ok.mpr ⟨owners, howners, rfl⟩⟩⟩

variable {l : Listener}

theorem nodup_linkIDs_of_group {it : Iteration} {W : List Accept}
    (h : group net it accepts = .ok groups) (hl : groups.lookup l = some W) :
    (W.map (·.linkID)).Nodup := by
  obtain ⟨g, hg, h⟩ := bind_eq_ok.mp h
  obtain ⟨owners, howners, h⟩ := bind_eq_ok.mp h
  cases h
  -- The links of the groups so far are in the table that is asked for the next link.
  have hinv : ∀ l W, g.2.lookup l = some W →
      (W.map (·.linkID)).Nodup ∧ ∀ a ∈ W, g.1.lookup a.linkID ≠ none := by
    refine foldlM_invariant (I := fun g : Grouped ↦ ∀ l W, g.2.lookup l = some W →
      (W.map (·.linkID)).Nodup ∧ ∀ a ∈ W, g.1.lookup a.linkID ≠ none) hg ?_ ?_
    · intro l W hl
      cases hl
    intro g a g' _ hinv htake l W hl
    obtain ⟨-, hfree, rfl⟩ := takeAccept_eq_ok.mp htake
    have hkept (b : Accept) (hb : g.1.lookup b.linkID ≠ none) :
        (g.1.insert a.linkID a.transport).lookup b.linkID ≠ none := by
      rw [lookup_insert_ite]
      split
      · simp
      · exact hb
    simp only [lookup_insert_ite] at hl
    split at hl
    · cases hl
      have hold : ((((g.2.lookup (listener a)).getD []).map (·.linkID)).Nodup) ∧
          ∀ b ∈ (g.2.lookup (listener a)).getD [], g.1.lookup b.linkID ≠ none := by
        cases hlookup : g.2.lookup (listener a) with
        | none => simp
        | some W => exact hinv _ _ hlookup
      refine ⟨?_, ?_⟩
      · rw [map_append, nodup_append]
        refine ⟨hold.1, by simp, ?_⟩
        intro id hid id' hid' heq
        obtain ⟨b, hb, rfl⟩ := mem_map.mp hid
        rw [map_singleton, mem_singleton] at hid'
        rw [hid'] at heq
        exact hold.2 b hb (heq ▸ hfree)
      · intro b hb
        rcases mem_append.mp hb with hb | hb
        · exact hkept b (hold.2 b hb)
        · rw [mem_singleton.mp hb, lookup_insert_ite, if_pos rfl]
          simp
    · obtain ⟨hnodup, hlinks⟩ := hinv l W hl
      exact ⟨hnodup, fun b hb ↦ hkept b (hlinks b hb)⟩
  exact (hinv l W hl).1

inductive Protocol
  | tcp
  | udp
  | fakeTcp
  deriving DecidableEq

abbrev Socket := Protocol × String

def nextPort (address : String) : Option String :=
  let backwards := address.toList.reverse
  let port := (backwards.takeWhile Char.isDigit).reverse
  let number := Nat.ofDigitChars 10 port 0
  match backwards.dropWhile Char.isDigit with
  | ':' :: host =>
    if port ≠ [] ∧ number < 65535 then
      some (String.ofList host.reverse ++ ":" ++ toString (number + 1))
    else none
  | _ => none

/-- The sockets that an argument opens. The dial-backs of QUIC come to the port of the rendezvous
on UDP, those of fake TCP to the next TCP port. -/
def Arg.opens (rendezvous : String) : Arg → List Socket
  | .listen address _ => [(.tcp, address)]
  | .bareListen address => [(.tcp, address)]
  | .quicListen address => [(.udp, address)]
  | .faketcpListen address => [(.fakeTcp, address)]
  | .reverseA2Listen address _ _ => [(.tcp, address)]
  | .reverseListen address => [(.tcp, address)]
  | .reverseQuic => [(.udp, rendezvous)]
  | .reverseFaketcp => (nextPort rendezvous).toList.map (.fakeTcp, ·)
  | _ => []

def sockets (l : Listener) : List Socket := (args l).flatMap (Arg.opens l.reverseListen)

def quicDialBack (l : Listener) : Option String :=
  if l.reverseListen ≠ "" ∧ l.reverseA2SNI = "" ∧ l.reverseQUIC then some l.reverseListen else none

def fakeDialBack (l : Listener) : Option String :=
  if l.reverseListen ≠ "" ∧ l.reverseA2SNI = "" ∧ l.reverseFakeTCP then nextPort l.reverseListen
  else none

def named (protocol : Protocol) (address : String) : List Socket :=
  if address = "" then [] else [(protocol, address)]

theorem opens_tcpArgs (l : Listener) :
    (tcpArgs l).flatMap (Arg.opens l.reverseListen) = named .tcp l.tcp := by
  unfold tcpArgs named
  split
  · rfl
  · split <;> rfl

theorem opens_quicArgs (l : Listener) :
    (quicArgs l).flatMap (Arg.opens l.reverseListen) = named .udp l.quic := by
  unfold quicArgs named
  rw [flatMap_append]
  split <;> split <;> rfl

theorem opens_fakeTCPArgs (l : Listener) :
    (fakeTCPArgs l).flatMap (Arg.opens l.reverseListen) = named .fakeTcp l.fakeTCP := by
  unfold fakeTCPArgs named
  split <;> rfl

theorem opens_reverseArgs (l : Listener) : (reverseArgs l).flatMap (Arg.opens l.reverseListen) =
      named .tcp l.reverseListen ++ ((quicDialBack l).toList.map (.udp, ·) ++
        (fakeDialBack l).toList.map (.fakeTcp, ·)) := by
  unfold reverseArgs named quicDialBack fakeDialBack
  by_cases hlisten : l.reverseListen = ""
  · simp [hlisten]
  by_cases hsni : l.reverseA2SNI = ""
  · cases l.reverseQUIC <;> cases l.reverseFakeTCP <;> simp [hlisten, hsni, Arg.opens]
  · simp [hlisten, hsni, Arg.opens]

theorem opens_sourceArgs (l : Listener) :
    (sourceArgs l).flatMap (Arg.opens l.reverseListen) = [] := by
  unfold sourceArgs
  split
  · rfl
  · rw [flatMap_map]
    exact flatMap_eq_nil_iff.mpr fun _ _ ↦ rfl

theorem sockets_eq (l : Listener) : sockets l =
    named .tcp l.tcp ++ (named .udp l.quic ++ (named .fakeTcp l.fakeTCP ++
      (named .tcp l.reverseListen ++ ((quicDialBack l).toList.map (.udp, ·) ++
        (fakeDialBack l).toList.map (.fakeTcp, ·))))) := by
  unfold sockets args
  rw [flatMap_cons, flatMap_append, flatMap_append, flatMap_append,
    flatMap_append, opens_tcpArgs, opens_quicArgs, opens_fakeTCPArgs, opens_reverseArgs,
    opens_sourceArgs, append_nil]
  rfl

/-- What the check over the groups does not see: a listener whose rendezvous has its own TCP or QUIC
address, the fake-TCP dial-backs, and an address that ends in a blank. -/
structure Clear (ls : List Listener) : Prop where
  tcp : ∀ l ∈ ls, l.tcp ≠ "" → l.tcp ≠ l.reverseListen
  quic : ∀ l ∈ ls, quicDialBack l ≠ some l.quic
  fakeTCP : ∀ l ∈ ls, ∀ l' ∈ ls, fakeDialBack l ≠ some l'.fakeTCP
  dialBack : ∀ l ∈ ls, ∀ l' ∈ ls, l ≠ l' → ∀ address, fakeDialBack l = some address →
    fakeDialBack l' ≠ some address
  blank : ∀ l ∈ ls, ∀ l' ∈ ls, l ≠ l' → ∀ s ∈ sockets l, s ∈ sockets l' → ¬ endsInBlank s.2

variable {address : String}

theorem mem_named {protocol protocol' : Protocol} {address' : String} :
    (protocol, address) ∈ named protocol' address' ↔
      protocol = protocol' ∧ address = address' ∧ address ≠ "" := by
  unfold named
  split
  · next h => simp [h]
  next h =>
  rw [mem_singleton, Prod.mk.injEq]
  constructor
  · rintro ⟨rfl, rfl⟩
    exact ⟨rfl, rfl, h⟩
  · rintro ⟨rfl, rfl, -⟩
    exact ⟨rfl, rfl⟩

theorem mem_dialBack {protocol : Protocol} {back : Option String} {s : Socket} :
    s ∈ back.toList.map (fun a ↦ (protocol, a)) ↔ s.1 = protocol ∧ back = some s.2 := by
  cases back with
  | none => simp
  | some address =>
    rcases s with ⟨p, a⟩
    simp [eq_comm]

theorem mem_sockets {protocol : Protocol} : (protocol, address) ∈ sockets l ↔
      (protocol = .tcp ∧ address ≠ "" ∧ (address = l.tcp ∨ address = l.reverseListen)) ∨
      (protocol = .udp ∧ (address ≠ "" ∧ address = l.quic ∨ quicDialBack l = some address)) ∨
      (protocol = .fakeTcp ∧
        (address ≠ "" ∧ address = l.fakeTCP ∨ fakeDialBack l = some address)) := by
  rw [sockets_eq]
  simp only [mem_append, mem_named, mem_dialBack]
  grind

theorem reverseListen_of_quicDialBack (h : quicDialBack l = some address) :
    address = l.reverseListen ∧ l.reverseListen ≠ "" ∧ l.reverseQUIC = true := by
  unfold quicDialBack at h
  split at h
  · next hreverse =>
    cases h
    exact ⟨rfl, hreverse.1, hreverse.2.2⟩
  · cases h

theorem ne_empty_of_fakeDialBack (h : fakeDialBack l = some address) : address ≠ "" := by
  unfold fakeDialBack nextPort at h
  split at h
  · dsimp only at h
    split at h
    · obtain ⟨-, rfl⟩ := Option.ite_some_none_eq_some.mp h
      simp
    · cases h
  · cases h

theorem mem_sockets_of_fakeDialBack (h : fakeDialBack l = some address) :
    (.fakeTcp, address) ∈ sockets l :=
  mem_sockets.mpr (.inr (.inr ⟨rfl, .inr h⟩))

/-! The check over the groups sees every socket but those of the fake-TCP dial-backs, unless the
address ends in a blank. -/

theorem endsInBlank_of_append {text : String} (h : endsInBlank (text ++ address))
    (hne : address ≠ "") : endsInBlank address := by
  rcases eq_nil_or_concat address.toList with hnil | ⟨init, last, hlast⟩
  · exact absurd (String.toList_eq_nil_iff.mp hnil) hne
  · unfold endsInBlank at h ⊢
    simpa [hlast] using h

theorem mem_addresses {text : String} (hne : address ≠ "") (hblank : ¬ endsInBlank address)
    (h : text ++ address ∈ ["tcp " ++ l.tcp, "udp " ++ l.quic, "fake-tcp " ++ l.fakeTCP,
      "tcp " ++ l.reverseListen] ++
        if l.reverseListen ≠ "" ∧ l.reverseQUIC then ["udp " ++ l.reverseListen] else []) :
    text ++ address ∈ addresses l :=
  mem_filter.mpr ⟨h, decide_eq_true fun hends ↦ hblank (endsInBlank_of_append hends hne)⟩

theorem tcp_mem_addresses (hne : address ≠ "") (hblank : ¬ endsInBlank address)
    (h : address = l.tcp ∨ address = l.reverseListen) : "tcp " ++ address ∈ addresses l := by
  rcases h with rfl | rfl <;> exact mem_addresses hne hblank (mem_append_left _ (by simp))

theorem udp_mem_addresses (hblank : ¬ endsInBlank address)
    (h : address ≠ "" ∧ address = l.quic ∨ quicDialBack l = some address) :
    "udp " ++ address ∈ addresses l := by
  rcases h with ⟨hne, rfl⟩ | hback
  · exact mem_addresses hne hblank (mem_append_left _ (by simp))
  obtain ⟨rfl, hreverse⟩ := reverseListen_of_quicDialBack hback
  refine mem_addresses hreverse.1 hblank (mem_append_right _ ?_)
  rw [if_pos hreverse]
  exact mem_singleton_self _

theorem fakeTcp_mem_addresses (hne : l.fakeTCP ≠ "") (hblank : ¬ endsInBlank l.fakeTCP) :
    "fake-tcp " ++ l.fakeTCP ∈ addresses l :=
  mem_addresses hne hblank (mem_append_left _ (by simp))

theorem disjoint_sockets (hclear : Clear ls)
    (hapart : ∀ l ∈ ls, ∀ l' ∈ ls, ∀ address ∈ addresses l, address ∈ addresses l' → l = l')
    {l' : Listener} (hl : l ∈ ls) (hl' : l' ∈ ls) (hne : l ≠ l') :
    (sockets l).Disjoint (sockets l') := by
  rintro ⟨protocol, address⟩ hs hs'
  have hblank : ¬ endsInBlank address := hclear.blank l hl l' hl' hne _ hs hs'
  rcases mem_sockets.mp hs with ⟨rfl, hempty, h⟩ | ⟨rfl, h⟩ | ⟨rfl, h⟩
  · rcases mem_sockets.mp hs' with ⟨-, -, h'⟩ | ⟨hp, -⟩ | ⟨hp, -⟩
    · exact hne (hapart l hl l' hl' _ (tcp_mem_addresses hempty hblank h)
        (tcp_mem_addresses hempty hblank h'))
    · cases hp
    · cases hp
  · rcases mem_sockets.mp hs' with ⟨hp, -⟩ | ⟨-, h'⟩ | ⟨hp, -⟩
    · cases hp
    · exact hne (hapart l hl l' hl' _ (udp_mem_addresses hblank h) (udp_mem_addresses hblank h'))
    · cases hp
  · rcases mem_sockets.mp hs' with ⟨hp, -⟩ | ⟨hp, -⟩ | ⟨-, h'⟩
    · cases hp
    · cases hp
    rcases h with ⟨hempty, rfl⟩ | hback
    · rcases h' with ⟨-, heq⟩ | hback'
      · refine hne (hapart l hl l' hl' _ (fakeTcp_mem_addresses hempty hblank) ?_)
        rw [heq] at hempty hblank ⊢
        exact fakeTcp_mem_addresses hempty hblank
      · exact hclear.fakeTCP l' hl' l hl hback'
    · rcases h' with ⟨-, rfl⟩ | hback'
      · exact hclear.fakeTCP l hl l' hl' hback
      · exact hclear.dialBack l hl l' hl' hne address hback hback'

theorem nodup_named (protocol : Protocol) (address : String) : (named protocol address).Nodup := by
  unfold named
  split
  · exact nodup_nil
  · exact nodup_singleton _

theorem nodup_dialBack (protocol : Protocol) (address : Option String) :
    (address.toList.map fun a ↦ (protocol, a)).Nodup := by
  cases address with
  | none => exact nodup_nil
  | some address => exact nodup_singleton _

theorem nodup_sockets : (sockets l).Nodup ↔ (l.tcp ≠ "" → l.tcp ≠ l.reverseListen) ∧
    quicDialBack l ≠ some l.quic ∧ fakeDialBack l ≠ some l.fakeTCP := by
  rw [sockets_eq]
  simp only [nodup_append', nodup_named, nodup_dialBack, true_and]
  constructor
  · rintro ⟨⟨⟨-, hfake⟩, hquic⟩, htcp⟩
    refine ⟨fun hne heq ↦ ?_, fun hback ↦ ?_, fun hback ↦ ?_⟩
    · apply htcp (mem_named.mpr ⟨rfl, rfl, hne⟩)
      simp only [mem_append, mem_named]
      exact .inr (.inr (.inl ⟨trivial, heq, hne⟩))
    · obtain ⟨heq, hne, -⟩ := reverseListen_of_quicDialBack hback
      apply hquic (mem_named.mpr ⟨rfl, rfl, heq ▸ hne⟩)
      simp only [mem_append, mem_dialBack]
      exact .inr (.inr (.inl ⟨trivial, hback⟩))
    · apply hfake (mem_named.mpr ⟨rfl, rfl, ne_empty_of_fakeDialBack hback⟩)
      simp only [mem_append, mem_dialBack]
      exact .inr (.inr ⟨trivial, hback⟩)
  rintro ⟨htcp, hquic, hfake⟩
  refine ⟨⟨⟨⟨?_, ?_⟩, ?_⟩, ?_⟩, ?_⟩
  all_goals
    rintro ⟨protocol, address⟩ h h'
    simp only [mem_append, mem_named, mem_dialBack] at h h'
  · cases h.1.symm.trans h'.1
  · obtain ⟨rfl, -⟩ := h
    rcases h' with ⟨hp, -⟩ | ⟨hp, -⟩ <;> cases hp
  · obtain ⟨rfl, rfl, -⟩ := h
    rcases h' with ⟨hp, -⟩ | ⟨hp, -⟩ | ⟨-, hback⟩
    · cases hp
    · cases hp
    · exact hfake hback
  · obtain ⟨rfl, rfl, -⟩ := h
    rcases h' with ⟨hp, -⟩ | ⟨hp, -⟩ | ⟨-, hback⟩ | ⟨hp, -⟩
    · cases hp
    · cases hp
    · exact hquic hback
    · cases hp
  · obtain ⟨rfl, rfl, hne⟩ := h
    rcases h' with ⟨hp, -⟩ | ⟨hp, -⟩ | ⟨-, heq, -⟩ | ⟨hp, -⟩ | ⟨hp, -⟩
    · cases hp
    · cases hp
    · exact htcp hne heq
    · cases hp
    · cases hp

theorem clear_of_disjoint (hnodup : ∀ l ∈ ls, (sockets l).Nodup)
    (hdisjoint : ∀ l ∈ ls, ∀ l' ∈ ls, l ≠ l' → (sockets l).Disjoint (sockets l')) : Clear ls where
  tcp l hl := (nodup_sockets.mp (hnodup l hl)).1
  quic l hl := (nodup_sockets.mp (hnodup l hl)).2.1
  fakeTCP l hl l' hl' hback := by
    by_cases heq : l = l'
    · subst heq
      exact (nodup_sockets.mp (hnodup l hl)).2.2 hback
    · refine hdisjoint l hl l' hl' heq (mem_sockets_of_fakeDialBack hback) (mem_sockets.mpr ?_)
      exact .inr (.inr ⟨rfl, .inl ⟨ne_empty_of_fakeDialBack hback, rfl⟩⟩)
  dialBack l hl l' hl' hne address hback hback' :=
    hdisjoint l hl l' hl' hne (mem_sockets_of_fakeDialBack hback)
      (mem_sockets_of_fakeDialBack hback')
  blank l hl l' hl' hne s hs hs' := (hdisjoint l hl l' hl' hne hs hs').elim

def sampleIteration : Iteration := ⟨id, fun _ ↦ .refl _⟩

def sampleAccept (transport tcp : String) : Accept where
  transport := transport
  linkID := transport
  linkKey := []
  tcp := tcp
  quic := ""
  fakeTCP := ""
  l2 := false
  serverName := ""
  sources := []
  next := none
  reverseDial := ""
  reverseListen := ""
  hubPublic := ""
  reverseA2SNI := ""
  reverseQUIC := false
  reverseFakeTCP := false

def rendezvousAccept : Accept :=
  { sampleAccept "a" "0.0.0.0:443" with reverseListen := "0.0.0.0:7000", reverseFakeTCP := true }

def sameAddressAccept : Accept :=
  { sampleAccept "a" "0.0.0.0:443" with reverseListen := "0.0.0.0:443" }

def nextPortAccept : Accept := { sampleAccept "b" "" with fakeTCP := "0.0.0.0:7001" }

def blankAccept (id : String) : Accept := { sampleAccept id "0.0.0.0:443 " with serverName := id }

theorem clear_sample :
    Clear ([rendezvousAccept, sampleAccept "b" "0.0.0.0:444"].map listener) where
  tcp := by decide
  quic := by decide
  fakeTCP := by decide
  dialBack := by
    intro l hl l' hl' hne address h
    have hback : ∀ l ∈ [rendezvousAccept, sampleAccept "b" "0.0.0.0:444"].map listener,
        l = listener rendezvousAccept ∨ fakeDialBack l = none := by decide
    rcases hback l hl with rfl | hnone
    · rcases hback l' hl' with rfl | hnone'
      · exact absurd rfl hne
      · rw [hnone']
        simp
    · rw [hnone] at h
      cases h
  blank := by decide

def openedBy (accepts : List Accept) : Option (List Socket) :=
  (group sampleNet sampleIteration accepts).toOption.map fun groups ↦ groups.keys.flatMap sockets

end AnixAgent.AnxServer.Groups
