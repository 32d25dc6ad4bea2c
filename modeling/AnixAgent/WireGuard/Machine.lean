import AnixAgent.Lib.Runs
import AnixAgent.Lib.Tables

namespace AnixAgent.WireGuard.Machine

open Lib.Runs Lib.Tables Option

def wrap (n : Int) : Int := n.bmod (2 ^ 64)

theorem wrap_of_lt {n : Int} (hlow : 0 ≤ n) (hhigh : n < 2 ^ 63) : wrap n = n := by
  unfold wrap
  rw [Int.bmod_eq_of_le] <;> omega

@[ext] structure TrafficPair where
  upload : Int
  download : Int
  deriving DecidableEq

structure User where
  uuid : String
  id : Int
  publicKey : String
  deriving DecidableEq

structure UserTraffic where
  uid : Int
  upload : Int
  download : Int
  deriving DecidableEq

structure NodeState where
  users : Table String User
  reportMinTrafficBytes : Int
  applying : Bool

/-- `states` are the `nodeState` values that were made, and `nodes` holds their places in it. -/
structure Core where
  states : List NodeState
  nodes : Table String Nat
  traffic : Table String (Table String TrafficPair)

def New : Core := ⟨[], ∅, ∅⟩

def publicKeyToUID (users : Table String User) : Table String Int :=
  index (fun x ↦ x.2.publicKey) (fun x ↦ x.2.id) users.entries

def uidToPublicKey (users : Table String User) : Table Int String :=
  index (fun x ↦ x.2.id) (fun x ↦ x.2.publicKey) users.entries

/-- The window of a peer: what its counters grew since the last one. -/
def window (reset : Bool) (last now : TrafficPair) : TrafficPair :=
  let report := if reset then ⟨wrap (now.upload - last.upload), wrap (now.download - last.download)⟩
    else now
  if report.upload < 0 ∨ report.download < 0 then now else report

/-- One round of the loop of `GetUserTrafficSlice`, over the cursors and the slice. -/
def sampleLine (publicKeyToUID : Table String Int) (reset : Bool) (threshold : Int)
    (acc : Table String TrafficPair × List UserTraffic) (line : Sigma fun _ : String ↦ TrafficPair) :
    Table String TrafficPair × List UserTraffic :=
  let uid := (publicKeyToUID.lookup line.1).getD 0
  if uid = 0 then acc
  else
    let report := window reset ((acc.1.lookup line.1).getD ⟨0, 0⟩) line.2
    let previous := if reset then acc.1.insert line.1 line.2 else acc.1
    if wrap (report.upload + report.download) ≤ threshold then (previous, acc.2)
    else (previous, acc.2 ++ [⟨uid, report.upload, report.download⟩])

def Core.usersOf (c : Core) (state : Nat) : Table String User :=
  (c.states[state]?.map NodeState.users).getD ∅

def Core.threshold (c : Core) (state : Nat) : Int :=
  (c.states[state]?.map NodeState.reportMinTrafficBytes).getD 0

/-- The second section of `GetUserTrafficSlice`; `current` are the counters of the kernel. -/
def Core.sample (c : Core) (tag : String) (state : Nat) (publicKeyToUID : Table String Int)
    (reset : Bool) (current : Table String TrafficPair) : Core × List UserTraffic :=
  let previous := (c.traffic.lookup tag).getD ∅
  let (previous, slice) :=
    current.entries.foldl (sampleLine publicKeyToUID reset (c.threshold state)) (previous, [])
  ({ c with traffic := c.traffic.insert tag previous }, slice)

def backCursor (cursor : TrafficPair) (report : UserTraffic) : TrafficPair :=
  ⟨max 0 (wrap (cursor.upload - report.upload)), max 0 (wrap (cursor.download - report.download))⟩

def rollbackLoop (uidToPublicKey : Table Int String) :
    List UserTraffic → Option (Table String TrafficPair) → Option (Option (Table String TrafficPair))
  | [], previous => some previous
  | report :: traffic, previous =>
    match uidToPublicKey.lookup report.uid, previous with
    | none, _ => rollbackLoop uidToPublicKey traffic previous
    | some _, none => none
    | some key, some cursors =>
      let cursor := (cursors.lookup key).getD ⟨0, 0⟩
      rollbackLoop uidToPublicKey traffic (some (cursors.insert key (backCursor cursor report)))

def Core.setTraffic (c : Core) (tag : String) : Option (Table String TrafficPair) → Core
  | none => c
  | some cursors => { c with traffic := c.traffic.insert tag cursors }

def Core.remove (c : Core) (tag : String) : Core :=
  { c with nodes := c.nodes.erase tag, traffic := c.traffic.erase tag }

def Core.setState (c : Core) (state : Nat) (f : NodeState → NodeState) : Core :=
  { c with states := c.states.modify state f }

/-- The loop of `AddUsers`, with whether each user is valid: it stops at the first who is not. `ρ`
is what the core records of a user. -/
def insertUsers {ρ : Type} (uuid : ρ → String) :
    List (ρ × Bool) → Table String ρ → Table String ρ × Bool
  | [], users => (users, true)
  | (user, valid) :: rest, users =>
    if valid then insertUsers uuid rest (users.insert (uuid user) user) else (users, false)

def deleteUsers (uuids : List String) (users : Table String User) : Table String User :=
  uuids.foldl (fun users uuid ↦ users.erase uuid) users

/-- A call, at the lock section that it comes to next. -/
inductive Thread
  | addNode (tag : String) (reportMinTraffic : Option Int)
  | applying (tag : String)
  | delNode (tag : String)
  | deleting (tag : String) (state : Nat)
  | addUsers (tag : String) (users : List (User × Bool))
  | adding (tag : String) (state : Nat) (users : List (User × Bool))
  | delUsers (tag : String) (uuids : List String)
  | removing (tag : String) (state : Nat) (uuids : List String)
  | applyingUsers (state : Nat) (previous : Table String User)
  | getUserTrafficSlice (tag : String) (reset : Bool)
  | sampling (tag : String) (state : Nat) (reset : Bool) (publicKeyToUID : Table String Int)
  | rollbackUserTrafficSlice (tag : String) (traffic : List UserTraffic)
  | done

def Thread.isCall : Thread → Bool
  | .addNode .. | .delNode _ | .addUsers .. | .delUsers .. | .getUserTrafficSlice ..
  | .rollbackUserTrafficSlice .. => true
  | _ => false

/-- What happened to the cursors of a tag. -/
inductive Event
  | removed (tag : String)
  | sampled (tag : String) (traffic : List UserTraffic)
  | rolledBack (tag : String) (traffic : List UserTraffic)
  deriving DecidableEq

inductive Outcome
  | blocked
  | panics
  | goes (core : Core) (thread : Thread) (event : Option Event)

/-- The lock on the users of a node, and the check that it is still the node of the tag. -/
def Core.locked (c : Core) (tag : String) (state : Nat) (f : NodeState → Outcome) : Outcome :=
  match c.states[state]? with
  | none => .blocked
  | some node =>
    if node.applying then .blocked
    else if c.nodes.lookup tag = some state then f node
    else .goes c .done none

/-- A lock section. `ok` is the answer of the commands that the call ran before it, and `current`
the counters that the kernel gave it. -/
def Core.advance (c : Core) (current : Table String TrafficPair) (ok : Bool) : Thread → Outcome
  | .addNode tag reportMinTraffic =>
    if (c.nodes.lookup tag).isSome then .goes c .done none
    else
      let node := ⟨∅, (reportMinTraffic.map fun n ↦ wrap (n * 1024)).getD 0, false⟩
      .goes { c with states := c.states ++ [node], nodes := c.nodes.insert tag c.states.length }
        (.applying tag) none
  | .applying tag =>
    if ok then .goes c .done none else .goes (c.remove tag) .done (some (.removed tag))
  | .delNode tag =>
    match c.nodes.lookup tag with
    | none => .goes c .done none
    | some state => .goes c (.deleting tag state) none
  | .deleting tag state =>
    c.locked tag state fun _ ↦ .goes (c.remove tag) .done (some (.removed tag))
  | .addUsers tag users =>
    match c.nodes.lookup tag with
    | none => .goes c .done none
    | some state => .goes c (.adding tag state users) none
  | .adding tag state users =>
    c.locked tag state fun node ↦
      let (after, valid) := insertUsers User.uuid users node.users
      if valid then
        .goes (c.setState state fun n ↦ { n with users := after, applying := true })
          (.applyingUsers state node.users) none
      else .goes (c.setState state fun n ↦ { n with users := after }) .done none
  | .delUsers tag uuids =>
    match c.nodes.lookup tag with
    | none => .goes c .done none
    | some state => .goes c (.removing tag state uuids) none
  | .removing tag state uuids =>
    c.locked tag state fun node ↦
      .goes (c.setState state fun n ↦
          { n with users := deleteUsers uuids node.users, applying := true })
        (.applyingUsers state node.users) none
  | .applyingUsers state previous =>
    .goes (c.setState state fun n ↦
      { n with users := if ok then n.users else previous, applying := false }) .done none
  | .getUserTrafficSlice tag reset =>
    match c.nodes.lookup tag with
    | none => .goes c .done none
    | some state =>
      .goes c (.sampling tag state reset (publicKeyToUID (c.usersOf state))) none
  | .sampling tag state reset publicKeyToUID =>
    if ok then
      let (c, slice) := c.sample tag state publicKeyToUID reset current
      .goes c .done (some (.sampled tag slice))
    else .goes c .done none
  | .rollbackUserTrafficSlice tag traffic =>
    match c.nodes.lookup tag with
    | none => .goes c .done none
    | some state =>
      match rollbackLoop (uidToPublicKey (c.usersOf state)) traffic (c.traffic.lookup tag) with
      | none => .panics
      | some previous => .goes (c.setTraffic tag previous) .done (some (.rolledBack tag traffic))
  | .done => .blocked

/-- `counters` are those of the kernel, by tag, and `log` is what happened, the newest first. -/
structure State where
  core : Core
  counters : Table String (Table String TrafficPair)
  threads : List Thread
  log : List Event
  panicked : Bool

def initial : State := ⟨New, ∅, [], [], false⟩

inductive Action
  | call (thread : Thread)
  | advance (i : Nat) (ok : Bool)
  | transfer (tag : String) (current : Table String TrafficPair)

def Thread.tag : Thread → String
  | .addNode tag _ | .applying tag | .delNode tag | .deleting tag _ | .addUsers tag _
  | .adding tag _ _ | .delUsers tag _ | .removing tag _ _ | .getUserTrafficSlice tag _
  | .sampling tag _ _ _ | .rollbackUserTrafficSlice tag _ => tag
  | .applyingUsers .. | .done => ""

def State.counter (s : State) (tag : String) : Table String TrafficPair :=
  (s.counters.lookup tag).getD ∅

def step (s : State) (a : Action) : Option State :=
  if s.panicked then none
  else match a with
    | .call thread =>
      if thread.isCall then some { s with threads := s.threads ++ [thread] } else none
    | .transfer tag current => some { s with counters := s.counters.insert tag current }
    | .advance i ok =>
      match s.threads[i]? with
      | none => none
      | some thread =>
        match s.core.advance (s.counter thread.tag) ok thread with
        | .blocked => none
        | .panics => some { s with panicked := true }
        | .goes core thread event => some { s with
            core := core
            threads := s.threads.set i thread
            log := event.toList ++ s.log }

variable {c : Core} {s t : State} {tag : String}

theorem step_call {thread : Thread} (h : step s (.call thread) = some t) :
    thread.isCall ∧ t = { s with threads := s.threads ++ [thread] } := by
  obtain ⟨-, h⟩ := ite_none_left_eq_some.mp h
  obtain ⟨hcall, h⟩ := ite_none_right_eq_some.mp h
  cases h
  exact ⟨hcall, rfl⟩

theorem step_transfer {current : Table String TrafficPair}
    (h : step s (.transfer tag current) = some t) :
    t = { s with counters := s.counters.insert tag current } := by
  obtain ⟨-, h⟩ := ite_none_left_eq_some.mp h
  cases h
  rfl

theorem step_advance {i : Nat} {ok : Bool} (h : step s (.advance i ok) = some t) :
    ∃ thread, s.threads[i]? = some thread ∧
      (s.core.advance (s.counter thread.tag) ok thread = .panics ∧ t = { s with panicked := true } ∨
      ∃ core next event, s.core.advance (s.counter thread.tag) ok thread = .goes core next event ∧
        t = { s with
          core := core
          threads := s.threads.set i next
          log := event.toList ++ s.log }) := by
  obtain ⟨-, h⟩ := ite_none_left_eq_some.mp h
  dsimp only at h
  split at h
  · cases h
  next thread hthread =>
  refine ⟨thread, hthread, ?_⟩
  split at h
  · cases h
  · next hpanics =>
    cases h
    exact .inl ⟨hpanics, rfl⟩
  · next hgoes =>
    cases h
    exact .inr ⟨_, _, _, hgoes, rfl⟩

/-- The call reads or writes the cursors of the tag. -/
def Thread.reports (tag : String) : Thread → Bool
  | .getUserTrafficSlice tag' _ | .sampling tag' _ _ _ | .rollbackUserTrafficSlice tag' _ =>
    tag' == tag
  | _ => false

inductive Advances (c : Core) (current : Table String TrafficPair) (ok : Bool) :
    Thread → Core → Thread → Option Event → Prop
  | quiet {thread next : Thread} {core : Core} : core.traffic = c.traffic →
      (∀ tag, next.reports tag = false) → Advances c current ok thread core next none
  | begins {tag : String} {reset : Bool} {state : Nat} : c.nodes.lookup tag = some state →
      Advances c current ok (.getUserTrafficSlice tag reset) c
        (.sampling tag state reset (publicKeyToUID (c.usersOf state))) none
  | removes {thread : Thread} (tag : String) :
      Advances c current ok thread (c.remove tag) .done (some (.removed tag))
  | samples {tag : String} {state : Nat} {reset : Bool} {keys : Table String Int} : ok = true →
      Advances c current ok (.sampling tag state reset keys)
        (c.sample tag state keys reset current).1 .done
        (some (.sampled tag (c.sample tag state keys reset current).2))
  | rollsBack {tag : String} {traffic : List UserTraffic} {state : Nat}
      {previous : Option (Table String TrafficPair)} : c.nodes.lookup tag = some state →
      rollbackLoop (uidToPublicKey (c.usersOf state)) traffic (c.traffic.lookup tag) =
        some previous →
      Advances c current ok (.rollbackUserTrafficSlice tag traffic) (c.setTraffic tag previous)
        .done (some (.rolledBack tag traffic))

variable {current : Table String TrafficPair} {ok : Bool} {thread next : Thread} {core : Core}
  {event : Option Event}

theorem advances_of_locked {state : Nat} {f : NodeState → Outcome}
    (h : c.locked tag state f = .goes core next event)
    (hf : ∀ node, f node = .goes core next event → Advances c current ok thread core next event) :
    Advances c current ok thread core next event := by
  unfold Core.locked at h
  split at h
  · cases h
  split at h
  · cases h
  split at h
  · exact hf _ h
  · cases h
    exact .quiet rfl fun _ ↦ rfl

theorem advances_of_advance (h : c.advance current ok thread = .goes core next event) :
    Advances c current ok thread core next event := by
  cases thread with
  | addNode | delNode | addUsers | delUsers =>
    simp only [Core.advance] at h
    split at h <;> (cases h; exact .quiet rfl fun _ ↦ rfl)
  | applying tag =>
    simp only [Core.advance] at h
    split at h
    · cases h
      exact .quiet rfl fun _ ↦ rfl
    · cases h
      exact .removes tag
  | deleting tag state => exact advances_of_locked h fun _ hf ↦ by cases hf; exact .removes tag
  | adding tag state users =>
    refine advances_of_locked h fun node hf ↦ ?_
    dsimp only at hf
    split at hf <;> (cases hf; exact .quiet rfl fun _ ↦ rfl)
  | removing tag state uuids =>
    exact advances_of_locked h fun _ hf ↦ by cases hf; exact .quiet rfl fun _ ↦ rfl
  | applyingUsers state previous =>
    cases h
    exact .quiet rfl fun _ ↦ rfl
  | getUserTrafficSlice tag reset =>
    simp only [Core.advance] at h
    split at h
    · cases h
      exact .quiet rfl fun _ ↦ rfl
    · next hstate =>
      cases h
      exact .begins hstate
  | sampling tag state reset keys =>
    simp only [Core.advance] at h
    split at h
    · next hok =>
      cases h
      exact .samples hok
    · cases h
      exact .quiet rfl fun _ ↦ rfl
  | rollbackUserTrafficSlice tag traffic =>
    simp only [Core.advance] at h
    split at h
    · cases h
      exact .quiet rfl fun _ ↦ rfl
    next hstate =>
    split at h
    · cases h
    · next hloop =>
      cases h
      exact .rollsBack hstate hloop
  | done => cases h

end AnixAgent.WireGuard.Machine
