import AnixAgent.Lib.Texts
import AnixAgent.NetworkRoute.Routes

namespace AnixAgent.NetworkRoute.Rules

open Lib.Results Lib.Texts Network.Plan Routes List

inductive Family
  | v4
  | v6
  deriving DecidableEq

def Prefix.text (p : Prefix) : String := p.addr.text ++ "/" ++ toString p.len

/-- A policy rule of the host. `further` is what `ip` lists of it under names that the manager does
not read: other selectors (`fwmark`, `iif`) and actions other than a table; it is empty for none. -/
structure HostRule where
  priority : Nat
  src : Option Prefix
  dst : Option Prefix
  table : String
  further : String
  deriving DecidableEq

structure DefaultRoute where
  via : Option Addr
  dev : String
  src : Addr
  deriving DecidableEq

structure Contents where
  default : Option DefaultRoute
  others : List String
  deriving DecidableEq

/-- The rules of a family are a set, in the order in which `ip` lists them. -/
structure Host where
  rules : Family → List HostRule
  tables : Family → String → Contents
  nodup : ∀ family, (rules family).Nodup

/-- The commands of `ip` that the manager runs. A selector that is left out is empty. -/
inductive Command
  | ruleShow (family : Family)
  | ruleDelete (family : Family) (priority : Nat) (src dst table : String)
  | routeFlush (family : Family) (table : String)
  | routeReplace (family : Family) (table : String) (route : DefaultRoute)
  | ruleAdd (family : Family) (rule : HostRule)
  deriving DecidableEq

def Command.family : Command → Family
  | .ruleShow family => family
  | .ruleDelete family _ _ _ _ => family
  | .routeFlush family _ => family
  | .routeReplace family _ _ => family
  | .ruleAdd family _ => family

def Command.changes : Command → Option (Family × String)
  | .routeFlush family table => some (family, table)
  | .routeReplace family table _ => some (family, table)
  | _ => none

/-- Whether a selector of a command is met: one that is left out or `all` by every rule, a prefix
by the rule that has it. A host prefix may stand without its length. -/
def selects (text : String) (p : Option Prefix) : Bool :=
  text = "" ∨ text = "all" ∨
    p.any fun p ↦ text = Prefix.text p ∨ p.len = bitLen p.addr ∧ text = p.addr.text

/-- Whether `ip rule delete` takes the rule: what the command does not name, any rule meets. -/
def deletes (priority : Nat) (src dst table : String) (r : HostRule) : Bool :=
  r.priority = priority ∧ selects src r.src ∧ selects dst r.dst ∧ (table = "" ∨ r.table = table)

def Host.setRules (host : Host) (family : Family) (rules : List HostRule) (h : rules.Nodup) :
    Host where
  rules := Function.update host.rules family rules
  tables := host.tables
  nodup := by
    intro f
    by_cases hf : f = family
    · subst hf
      rwa [Function.update_self]
    · rw [Function.update_of_ne hf]
      exact host.nodup f

def Host.setTable (host : Host) (family : Family) (table : String) (contents : Contents) : Host where
  rules := host.rules
  tables := Function.update host.tables family
    (Function.update (host.tables family) table contents)
  nodup := host.nodup

variable {r w : HostRule}

theorem nodup_add {rules : List HostRule} (h : rules.Nodup) (hr : r ∉ rules) :
    (rules ++ [r]).Nodup :=
  nodup_append.mpr ⟨h, nodup_singleton r, by grind⟩

/-- What a command does. A rule is deleted at its first match and added at the end; a rule that
is there is not added again. -/
def Host.exec (host : Host) : Command → Except String Host
  | .ruleShow _ => .ok host
  | .ruleDelete family priority src dst table =>
    if (host.rules family).any (deletes priority src dst table) then
      .ok (host.setRules family ((host.rules family).eraseP (deletes priority src dst table))
        ((host.nodup family).sublist List.eraseP_sublist))
    else .error "RTNETLINK answers: No such file or directory"
  | .routeFlush family table => .ok (host.setTable family table ⟨none, []⟩)
  | .routeReplace family table route =>
    .ok (host.setTable family table { host.tables family table with default := some route })
  | .ruleAdd family rule =>
    if h : rule ∈ host.rules family then .error "RTNETLINK answers: File exists"
    else .ok (host.setRules family (host.rules family ++ [rule]) (nodup_add (host.nodup family) h))

/-- The bounds of the tables and priorities that are the manager's. -/
structure Manager where
  first : Nat
  last : Nat
  last_lt : last < 2 ^ 32

def Manager.owns (m : Manager) (number : Nat) : Bool := inRange m.first m.last number

/-- A rule of `ip -j rule show`, with the fields that are read. -/
structure Rule where
  priority : Nat
  src : String
  srcLen : Nat
  dst : String
  dstLen : Nat
  table : String
  deriving DecidableEq

/-- The length that `ip` lists for a prefix, 0 for none: a host prefix may be listed without. -/
def listedLen (lengths : Prefix → Bool) (p : Prefix) : Nat :=
  if p.len = bitLen p.addr ∧ lengths p = false then 0 else p.len

def listed (lengths : Prefix → Bool) (r : HostRule) : Rule where
  priority := r.priority
  src := (r.src.map (·.addr.text)).getD "all"
  srcLen := (r.src.map (listedLen lengths)).getD 0
  dst := (r.dst.map (·.addr.text)).getD ""
  dstLen := (r.dst.map (listedLen lengths)).getD 0
  table := r.table

def ruleKey (priority : Nat) (src dst table : String) : String :=
  toString priority ++ " " ++ (src ++ " " ++ (dst ++ " " ++ table))

def withLen (text : String) (len : Nat) : String :=
  if text ≠ "" ∧ 0 < len then text ++ "/" ++ toString len else text

def selectors (r : Rule) : String × String :=
  let src := withLen r.src r.srcLen
  let dst := withLen r.dst r.dstLen
  if dst ≠ "" ∧ src = "all" then ("", dst) else (src, dst)

def keyOf (r : Rule) : String :=
  ruleKey r.priority (selectors r).1 (selectors r).2 r.table

def Route.family (route : Route) : Family := if route.source.is4 then .v4 else .v6

def Route.sourceText (route : Route) : String := Prefix.text (hostPrefix route.source)

def tableText (route : Route) : String := toString route.table

def routesOf (family : Family) (routes : List Route) : List Route :=
  routes.filter fun route ↦ Route.family route = family

def wantedKeys (family : Family) (routes : List Route) : List String :=
  (routesOf family routes).flatMap fun route ↦
    ruleKey route.priority (Route.sourceText route) "" (tableText route) ::
      route.toPeers.map fun peer ↦ ruleKey route.toPriority "" (Prefix.text peer) (tableText route)

def wantedTables (family : Family) (routes : List Route) : List String :=
  (routesOf family routes).map tableText

def parseUint (text : String) : Option Nat :=
  let number := Nat.ofDigitChars 10 text.toList 0
  if text ≠ "" ∧ text.toList.all Char.isDigit ∧ number < 2 ^ 32 then some number else none

def Manager.ownsTable (m : Manager) (table : String) : Bool := (parseUint table).any m.owns

structure Progress where
  host : Host
  ran : List Command
  failed : List String

def Progress.after (p : Progress) (host : Host) (commands : List Command) : Progress :=
  { p with host := host, ran := p.ran ++ commands }

def Progress.run (refuses : Nat → Option String) (p : Progress) (command : Command) :
    Progress × Option String :=
  let ran := p.ran ++ [command]
  match refuses p.ran.length with
  | some err => ({ p with ran := ran }, some err)
  | none =>
    match p.host.exec command with
    | .ok host => ({ p with host := host, ran := ran }, none)
    | .error err => ({ p with ran := ran }, some err)

def Progress.keep (refuses : Nat → Option String) (what : String) (p : Progress)
    (command : Command) : Progress :=
  match p.run refuses command with
  | (p, none) => p
  | (p, some err) => { p with failed := p.failed ++ [what ++ err] }

/-- A listed rule that is not wanted is deleted, and its table is flushed when it is one of the
manager's that no wanted route of the family uses. -/
def visitRule (m : Manager) (refuses : Nat → Option String) (family : Family)
    (routes : List Route) (p : Progress) (existing : Rule) : Progress :=
  if keyOf existing ∈ wantedKeys family routes then p
  else
    let p := p.keep refuses "" (.ruleDelete family existing.priority (selectors existing).1
      (selectors existing).2 existing.table)
    if m.ownsTable existing.table ∧ existing.table ∉ wantedTables family routes then
      p.keep refuses "" (.routeFlush family existing.table)
    else p

def sourceRule (route : Route) : HostRule :=
  ⟨route.priority, some (hostPrefix route.source), none, tableText route, ""⟩

def peerRule (route : Route) (peer : Prefix) : HostRule :=
  ⟨route.toPriority, none, some peer, tableText route, ""⟩

def installRoute (refuses : Nat → Option String) (family : Family) (present : List String)
    (p : Progress) (route : Route) : Progress :=
  let what := s!"egress {route.egress}: "
  match p.run refuses (.routeReplace family (tableText route)
      ⟨route.gateway, route.interface, route.source⟩) with
  | (p, some err) => { p with failed := p.failed ++ [what ++ err] }
  | (p, none) =>
    let p :=
      if ruleKey route.priority (Route.sourceText route) "" (tableText route) ∈ present then p
      else p.keep refuses what (.ruleAdd family (sourceRule route))
    route.toPeers.foldl (fun p peer ↦
      if ruleKey route.toPriority "" (Prefix.text peer) (tableText route) ∈ present then p
      else p.keep refuses what (.ruleAdd family (peerRule route peer))) p

def Manager.rules (m : Manager) (lengths : Prefix → Bool) (host : Host) (family : Family) :
    List Rule :=
  ((host.rules family).map (listed lengths)).filter fun r ↦ m.owns r.priority

def Manager.applyFamily (m : Manager) (refuses : Nat → Option String) (lengths : Prefix → Bool)
    (routes : List Route) (p : Progress) (family : Family) : Progress × Option String :=
  match p.run refuses (.ruleShow family) with
  | (p, some err) => (p, some err)
  | (p, none) =>
    let current := m.rules lengths p.host family
    let present := (current.map keyOf).filter (· ∈ wantedKeys family routes)
    let p := current.foldl (visitRule m refuses family routes) p
    ((routesOf family routes).foldl (installRoute refuses family present) p, none)

def joined (failed : List String) : Option String :=
  if failed = [] then none else some ("\n".intercalate failed)

def Manager.apply (m : Manager) (refuses : Nat → Option String) (lengths : Prefix → Bool)
    (routes : List Route) (host : Host) : Progress × Option String :=
  match m.applyFamily refuses lengths routes ⟨host, [], []⟩ .v4 with
  | (p, some err) => (p, some err)
  | (p, none) =>
    match m.applyFamily refuses lengths routes p .v6 with
    | (p, some err) => (p, some err)
    | (p, none) => (p, joined p.failed)

theorem notMem_text {c : Char} (hc : addrChar c = false) (addr : Addr) : c ∉ addr.text.toList := by
  intro h
  have hall := all_eq_true.mp addr.chars c h
  rw [hc] at hall
  cases hall

theorem text_ne_all (addr : Addr) : addr.text ≠ "all" := by
  intro h
  have hl := notMem_text (c := 'l') (by decide) addr
  rw [h] at hl
  exact hl (by decide)

theorem slash_mem_text (p : Prefix) : '/' ∈ (Prefix.text p).toList := by
  simp [Prefix.text]

variable {p q : Prefix}

theorem prefix_text_inj (h : Prefix.text p = Prefix.text q) : p = q := by
  obtain ⟨haddr, hlen⟩ := join_inj (c := '/') rfl (notMem_text (by decide) p.addr)
    (notMem_text (by decide) q.addr) h
  cases p
  cases q
  simp only [Prefix.mk.injEq]
  exact ⟨Addr.ext haddr, Nat.repr_inj.mp hlen⟩

def listedText (lengths : Prefix → Bool) (p : Prefix) : String :=
  withLen p.addr.text (listedLen lengths p)

theorem listedText_cases (lengths : Prefix → Bool) (p : Prefix) :
    listedText lengths p = Prefix.text p ∨
      p.len = bitLen p.addr ∧ listedText lengths p = p.addr.text := by
  unfold listedText listedLen withLen
  split
  · next h => exact .inr ⟨h.1, by simp⟩
  · exact .inl (if_pos ⟨p.addr.nonempty, p.pos⟩)

theorem blank_notMem_text (p : Prefix) : ' ' ∉ (Prefix.text p).toList := by
  have haddr := notMem_text (c := ' ') (by decide) p.addr
  have hlen := notMem_toString (c := ' ') (by decide) p.len
  simp only [Prefix.text, String.toList_append, mem_append, not_or]
  exact ⟨⟨haddr, by decide⟩, hlen⟩

theorem blank_notMem_listedText (lengths : Prefix → Bool) (p : Prefix) :
    ' ' ∉ (listedText lengths p).toList := by
  rcases listedText_cases lengths p with h | ⟨-, h⟩
  · rw [h]
    exact blank_notMem_text p
  · rw [h]
    exact notMem_text (by decide) p.addr

theorem listedText_ne_empty (lengths : Prefix → Bool) (p : Prefix) : listedText lengths p ≠ "" := by
  rcases listedText_cases lengths p with h | ⟨-, h⟩
  · intro hempty
    have hslash := slash_mem_text p
    rw [← h, hempty] at hslash
    cases hslash
  · rw [h]
    exact p.addr.nonempty

theorem listedText_ne_all (lengths : Prefix → Bool) (p : Prefix) :
    listedText lengths p ≠ "all" := by
  rcases listedText_cases lengths p with h | ⟨-, h⟩
  · intro hall
    have hslash := slash_mem_text p
    rw [← h, hall] at hslash
    exact absurd hslash (by decide)
  · rw [h]
    exact text_ne_all p.addr

variable {lengths : Prefix → Bool}

theorem eq_of_listedText (h : listedText lengths p = Prefix.text q) : p = q := by
  rcases listedText_cases lengths p with hp | ⟨-, hp⟩
  · exact prefix_text_inj (hp ▸ h)
  · have hslash := slash_mem_text q
    rw [← h, hp] at hslash
    exact absurd hslash (notMem_text (by decide) p.addr)

def fromText (lengths : Prefix → Bool) (r : HostRule) : String :=
  match r.src with
  | some p => listedText lengths p
  | none => if r.dst.isSome then "" else "all"

def toText (lengths : Prefix → Bool) (r : HostRule) : String :=
  match r.dst with
  | some p => listedText lengths p
  | none => ""

theorem selectors_listed (lengths : Prefix → Bool) (r : HostRule) :
    selectors (listed lengths r) = (fromText lengths r, toText lengths r) := by
  have hne := listedText_ne_empty lengths
  have hall := listedText_ne_all lengths
  rcases r with ⟨priority, src, dst, table, further⟩
  cases src with
  | none =>
    cases dst with
    | none => rfl
    | some q =>
      have hq := hne q
      simp only [listedText] at hq
      simp [selectors, listed, fromText, toText, listedText, withLen]
      simpa [withLen] using hq
  | some p =>
    have hp := hall p
    simp only [listedText] at hp
    cases dst with
    | none => simp [selectors, listed, fromText, toText, listedText, withLen]
    | some q => simp [selectors, listed, fromText, toText, listedText, hp]

def wantedKey (r : HostRule) : String :=
  ruleKey r.priority ((r.src.map Prefix.text).getD "") ((r.dst.map Prefix.text).getD "") r.table

def OneSelector (r : HostRule) : Prop :=
  r.further = "" ∧ ((∃ p, r.src = some p ∧ r.dst = none) ∨ ∃ p, r.src = none ∧ r.dst = some p)

theorem ruleKey_inj {priority priority' : Nat} {src src' dst dst' table table' : String}
    (hsrc : ' ' ∉ src.toList) (hsrc' : ' ' ∉ src'.toList)
    (hdst : ' ' ∉ dst.toList) (hdst' : ' ' ∉ dst'.toList)
    (h : ruleKey priority src dst table = ruleKey priority' src' dst' table') :
    priority = priority' ∧ src = src' ∧ dst = dst' ∧ table = table' := by
  obtain ⟨hpriority, h⟩ := join_inj (c := ' ') rfl (notMem_toString (by decide) _)
    (notMem_toString (by decide) _) h
  obtain ⟨hs, h⟩ := join_inj (c := ' ') rfl hsrc hsrc' h
  obtain ⟨hd, htable⟩ := join_inj (c := ' ') rfl hdst hdst' h
  exact ⟨Nat.repr_inj.mp hpriority, hs, hd, htable⟩

theorem blank_notMem_fromText (lengths : Prefix → Bool) (r : HostRule) :
    ' ' ∉ (fromText lengths r).toList := by
  unfold fromText
  split
  · exact blank_notMem_listedText lengths _
  · split <;> decide

theorem blank_notMem_toText (lengths : Prefix → Bool) (r : HostRule) :
    ' ' ∉ (toText lengths r).toList := by
  unfold toText
  split
  · exact blank_notMem_listedText lengths _
  · decide

theorem blank_notMem_optionText (p : Option Prefix) :
    ' ' ∉ ((p.map Prefix.text).getD "").toList := by
  cases p with
  | none => decide
  | some p => exact blank_notMem_text p

theorem dst_of_toText (h : toText lengths r = Prefix.text q) : r.dst = some q := by
  unfold toText at h
  split at h
  · next p hp => rw [hp, eq_of_listedText h]
  · have hslash := slash_mem_text q
    rw [← h] at hslash
    cases hslash

theorem dst_of_toText_empty (h : toText lengths r = "") : r.dst = none := by
  unfold toText at h
  split at h
  · exact absurd h (listedText_ne_empty lengths _)
  · assumption

theorem src_of_fromText (h : fromText lengths r = Prefix.text q) : r.src = some q := by
  have hslash := slash_mem_text q
  unfold fromText at h
  split at h
  · next p hp => rw [hp, eq_of_listedText h]
  · rw [← h] at hslash
    split at hslash <;> exact absurd hslash (by decide)

theorem src_of_fromText_empty (h : fromText lengths r = "") : r.src = none := by
  unfold fromText at h
  split at h
  · exact absurd h (listedText_ne_empty lengths _)
  · assumption

theorem agree_of_keyOf (hw : OneSelector w) (h : keyOf (listed lengths r) = wantedKey w) :
    r.priority = w.priority ∧ r.src = w.src ∧ r.dst = w.dst ∧ r.table = w.table := by
  unfold keyOf wantedKey at h
  rw [selectors_listed] at h
  obtain ⟨hpriority, hsrc, hdst, htable⟩ := ruleKey_inj (blank_notMem_fromText lengths r)
    (blank_notMem_optionText w.src) (blank_notMem_toText lengths r)
    (blank_notMem_optionText w.dst) h
  refine ⟨hpriority, ?_, ?_, htable⟩
  · rcases hw.2 with ⟨p, hs, -⟩ | ⟨p, hs, -⟩
    · rw [hs] at hsrc ⊢
      exact src_of_fromText hsrc
    · rw [hs] at hsrc ⊢
      exact src_of_fromText_empty hsrc
  · rcases hw.2 with ⟨p, -, hd⟩ | ⟨p, -, hd⟩
    · rw [hd] at hdst ⊢
      exact dst_of_toText_empty hdst
    · rw [hd] at hdst ⊢
      exact dst_of_toText hdst

def routeRules (route : Route) : List HostRule :=
  sourceRule route :: route.toPeers.map (peerRule route)

def wantedRules (family : Family) (routes : List Route) : List HostRule :=
  (routesOf family routes).flatMap routeRules

theorem wantedKeys_eq (family : Family) (routes : List Route) :
    wantedKeys family routes = (wantedRules family routes).map wantedKey := by
  simp only [wantedKeys, wantedRules, map_flatMap, routeRules, map_cons, map_map]
  rfl

theorem oneSelector_of_mem {family : Family} {routes : List Route}
    (hw : w ∈ wantedRules family routes) : OneSelector w := by
  obtain ⟨route, -, hw⟩ := mem_flatMap.mp hw
  rcases mem_cons.mp hw with rfl | hw
  · exact ⟨rfl, .inl ⟨_, rfl, rfl⟩⟩
  · obtain ⟨peer, -, rfl⟩ := mem_map.mp hw
    exact ⟨rfl, .inr ⟨_, rfl, rfl⟩⟩

theorem wanted_of_keyOf {family : Family} {routes : List Route}
    (h : keyOf (listed lengths r) ∈ wantedKeys family routes) :
    { r with further := "" } ∈ wantedRules family routes := by
  rw [wantedKeys_eq] at h
  obtain ⟨w, hw, hkey⟩ := mem_map.mp h
  have hone := oneSelector_of_mem hw
  obtain ⟨hpriority, hsrc, hdst, htable⟩ := agree_of_keyOf hone hkey.symm
  rcases w with ⟨priority, src, dst, table, further⟩
  rcases r with ⟨priority', src', dst', table', further'⟩
  obtain rfl : further = "" := hone.1
  simp only at hpriority hsrc hdst htable
  subst hpriority hsrc hdst htable
  exact hw

end AnixAgent.NetworkRoute.Rules
