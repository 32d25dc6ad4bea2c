import AnixAgent.AnxServer.Groups
import AnixAgent.AnxServer.Rounds

namespace AnixAgent.AnxServer.Serving

open Lib.Pending Lib.Runs Lib.Tables Network.Plan Groups Machine Rounds List Option

variable {userID : List UInt8 → UserID} {s t : State} {a : Action}

def failure : Action → Bool
  | .launchFails _ | .callFails _ | .exits _ => true
  | _ => false

inductive Move (userID : List UInt8 → UserID) (s : State) : Action → State → Prop
  | want (accepts : List Accept) :
    Move userID s (.want accepts) { s with wanted := accepts, wake := true, quiet := false }
  | launch (hphase : s.phase = .down) : Move userID s .launch { s with phase := .admitting }
  | fails (a : Action) (err : String) (h : failure a = true) : Move userID s a (s.fail err)
  | readAdmit (hcalls : s.calls = none) (hphase : s.phase = .admitting) :
    Move userID s .read
      { s with calls := some (s.session.admitLinks s.wanted), read := s.wanted, quiet := true }
  | readRelay (calls : List Rpc) (hcalls : s.calls = none) (hphase : s.phase = .relaying)
    (hrelay : s.session.relay s.wanted = .ok calls) :
    Move userID s .read { s with calls := some calls }
  | notAdmitted (err : String) (hcalls : s.calls = none) (hphase : s.phase = .relaying)
    (hrelay : s.session.relay s.wanted = .error err) : Move userID s .read (s.fail err)
  | readDial (hcalls : s.calls = none) (hphase : s.phase = .dialing) :
    Move userID s .read { s with calls := some (s.session.dial s.wanted) }
  | call (rpc : Rpc) (calls : List Rpc) (hcalls : s.calls = some (rpc :: calls)) :
    Move userID s .call { s with session := s.session.exec userID rpc, calls := some calls }
  | callAgain : Move userID s .callAgain s
  | admitted (hcalls : s.calls = some []) (hphase : s.phase = .admitting) :
    Move userID s .next { s with phase := .relaying, calls := none }
  | relayed (hcalls : s.calls = some []) (hphase : s.phase = .relaying) :
    Move userID s .next { s with phase := .dialing, calls := none }
  | dialed (hcalls : s.calls = some []) (hphase : s.phase = .dialing) :
    Move userID s .next
      { s with phase := .idle, calls := none, session := { s.session with first := false } }
  | woken (hphase : s.phase = .idle) :
    Move userID s .woken { s with phase := .admitting, wake := false }
  | close (hphase : s.phase = .idle ∨ s.phase = .down) :
    Move userID s .close { s with phase := .closed }

theorem move_of_step (h : step userID s a = some t) : Move userID s a t := by
  cases a with
  | want accepts =>
    cases h
    exact .want accepts
  | launch =>
    obtain ⟨hphase, rfl⟩ := ite_some_none_eq_some.mp h
    exact .launch hphase
  | launchFails err =>
    obtain ⟨-, rfl⟩ := ite_some_none_eq_some.mp h
    exact .fails _ err rfl
  | read =>
    simp only [step] at h
    split at h
    · cases h
    next hcalls =>
    rw [not_isSome_iff_eq_none] at hcalls
    split at h
    · next hphase =>
      cases h
      exact .readAdmit hcalls hphase
    · next hphase =>
      split at h
      · next calls hrelay =>
        cases h
        exact .readRelay calls hcalls hphase hrelay
      · next err hrelay =>
        cases h
        exact .notAdmitted err hcalls hphase hrelay
    · next hphase =>
      cases h
      exact .readDial hcalls hphase
    · cases h
  | call =>
    simp only [step] at h
    split at h
    · next rpc calls hcalls =>
      cases h
      exact .call rpc calls hcalls
    · cases h
  | callFails err =>
    simp only [step] at h
    split at h
    · cases h
      exact .fails _ err rfl
    · cases h
  | callAgain =>
    simp only [step] at h
    split at h
    · split at h
      · cases h
        exact .callAgain
      · cases h
    · cases h
  | next =>
    simp only [step] at h
    split at h
    · next hany =>
      have hcalls : s.calls = some [] := by
        obtain ⟨calls, hcalls, hempty⟩ := (Option.any_eq_true _ _).mp hany
        rw [hcalls, List.isEmpty_iff.mp hempty]
      split at h
      · next hphase =>
        cases h
        exact .admitted hcalls hphase
      · next hphase =>
        cases h
        exact .relayed hcalls hphase
      · next hphase =>
        cases h
        exact .dialed hcalls hphase
      · cases h
    · cases h
  | exits err =>
    simp only [step] at h
    split at h
    · cases h
    · cases h
      exact .fails _ err rfl
  | woken =>
    obtain ⟨hwoken, rfl⟩ := ite_some_none_eq_some.mp h
    exact .woken hwoken.1
  | close =>
    obtain ⟨hphase, rfl⟩ := ite_some_none_eq_some.mp h
    exact .close hphase

def after (userID : List UInt8 → UserID) (s : State) : Session :=
  (s.calls.getD []).foldl (Session.exec userID) s.session

/-- What the round has done once the calls of the present step are made: admitted the links, set
the routes, set the dials. -/
def stage (s : State) : Nat :=
  match s.phase, s.calls.isSome with
  | .admitting, true => 1
  | .relaying, false => 1
  | .relaying, true => 2
  | .dialing, false => 2
  | .dialing, true => 3
  | .idle, _ => 3
  | _, _ => 0

structure Sound (userID : List UInt8 → UserID) (s : State) : Prop where
  busy : s.calls ≠ none → s.phase = .admitting ∨ s.phase = .relaying ∨ s.phase = .dialing
  safe : Safely (Session.exec userID) Held Removable s.session (s.calls.getD [])

theorem held_fresh : Held .fresh where
  links := rfl
  routes uid id h := by cases h

theorem Sound.calls_eq_none (h : Sound userID s) (hphase : s.phase = .idle ∨ s.phase = .down) :
    s.calls = none := by
  by_contra hcalls
  have hbusy := h.busy hcalls
  rcases hphase with hphase | hphase <;> simp [hphase] at hbusy

theorem sound_move (h : Sound userID s) (hmove : Move userID s a t) : Sound userID t := by
  cases hmove with
  | want accepts => exact ⟨h.busy, h.safe⟩
  | launch | woken => exact ⟨fun _ ↦ .inl rfl, h.safe⟩
  | fails | notAdmitted => exact ⟨fun hne ↦ absurd rfl hne, held_fresh⟩
  | readAdmit hcalls hphase =>
    exact ⟨fun _ ↦ .inl hphase, admitLinks_safely h.safe.now s.wanted⟩
  | readRelay calls hcalls hphase hrelay =>
    exact ⟨fun _ ↦ .inr (.inl hphase), relay_safely h.safe.now hrelay⟩
  | readDial hcalls hphase =>
    exact ⟨fun _ ↦ .inr (.inr hphase), dial_safely h.safe.now s.wanted⟩
  | call rpc calls hcalls =>
    have hsafe := h.safe
    rw [hcalls] at hsafe
    exact ⟨fun _ ↦ h.busy (by simp [hcalls]), hsafe.2.2⟩
  | callAgain => exact h
  | admitted | relayed => exact ⟨fun hne ↦ absurd rfl hne, h.safe.now⟩
  | dialed hcalls hphase =>
    exact ⟨fun hne ↦ absurd rfl hne, ⟨h.safe.now.links, h.safe.now.routes⟩⟩
  | close hphase => exact ⟨fun hne ↦ absurd (h.calls_eq_none hphase) hne, h.safe⟩

theorem sound_of_steps (h : Steps (step userID) init t) : Sound userID t :=
  h.invariant ⟨fun hne ↦ absurd rfl hne, held_fresh⟩
    fun _ _ _ hsound _ hstep ↦ sound_move hsound (move_of_step hstep)

/-- The process runs and does what it is asked; and when `relay` reads the list, the links that are
relayed are those of accepts that `admit` read in the round. -/
def smooth (s : State) : Action → Bool
  | .read => s.phase ≠ .relaying ∨
      ∀ x ∈ Machine.relayed s.wanted, x.1.linkID ∈ s.read.map (·.linkID)
  | a => !failure a

structure Unbroken (userID : List UInt8 → UserID) (s : State) : Prop where
  errors : s.errors = []
  admitted : stage s = 1 → ∀ a ∈ s.read, (after userID s).admitted.lookup a.linkID ≠ none

theorem unbroken_move (hsound : Sound userID s) (h : Unbroken userID s)
    (hsmooth : smooth s a) (hmove : Move userID s a t) : Unbroken userID t := by
  cases hmove with
  | want accepts => exact ⟨h.errors, h.admitted⟩
  | launch hphase =>
    have hcalls := hsound.calls_eq_none (.inr hphase)
    exact ⟨h.errors, fun hstage ↦ (by simp [stage, hcalls] at hstage)⟩
  | fails a err hfailure =>
    cases a <;> simp [failure, smooth] at hfailure hsmooth
  | readAdmit hcalls hphase =>
    exact ⟨h.errors, fun _ a ha ↦ lookup_admitLinks_ne_none ha⟩
  | readRelay calls hcalls hphase | readDial hcalls hphase =>
    exact ⟨h.errors, fun hstage ↦ (by simp [stage, hphase] at hstage)⟩
  | notAdmitted err hcalls hphase hrelay =>
    -- The link that is not admitted would be one that `admit` has read.
    exfalso
    unfold Session.relay at hrelay
    split at hrelay
    · next b link hfind =>
      have hlookup := find?_some hfind
      have hmem : b.linkID ∈ s.read.map (·.linkID) := by
        simp only [smooth, decide_eq_true_eq] at hsmooth
        rcases hsmooth with hne | hall
        · exact absurd hphase hne
        · exact hall _ (mem_of_find?_eq_some hfind)
      obtain ⟨a, ha, heq⟩ := List.mem_map.mp hmem
      have hadmitted := h.admitted (by simp [stage, hphase, hcalls]) a ha
      rw [heq] at hadmitted
      simp only [after, hcalls, getD_none, foldl_nil] at hadmitted
      exact hadmitted (isNone_iff_eq_none.mp hlookup)
    · cases hrelay
  | call rpc calls hcalls =>
    refine ⟨h.errors, fun hstage a ha ↦ ?_⟩
    have hsame : stage s = 1 := by
      rw [← hstage]
      simp [stage, hcalls]
    have hadmitted := h.admitted hsame a ha
    simp only [after, hcalls, getD_some, foldl_cons] at hadmitted
    exact hadmitted
  | callAgain => exact h
  | admitted hcalls hphase =>
    refine ⟨h.errors, fun _ a ha ↦ ?_⟩
    have hadmitted := h.admitted (by simp [stage, hphase, hcalls]) a ha
    simp only [after, hcalls, getD_some] at hadmitted
    exact hadmitted
  | relayed | dialed | close => exact ⟨h.errors, fun hstage ↦ (by simp [stage] at hstage)⟩
  | woken hphase =>
    have hcalls := hsound.calls_eq_none (.inl hphase)
    exact ⟨h.errors, fun hstage ↦ (by simp [stage, hcalls] at hstage)⟩

/-- While the process runs and does what it is asked, a new list makes `serve` return no error,
unless it comes between `admit` and `relay` and relays a link that the list before it did not have.
-/
theorem serve_returns_no_error
    (h : Reach (step userID) (fun s a ↦ smooth s a = true) init t) : t.errors = [] := by
  have hinv : Sound userID t ∧ Unbroken userID t := by
    refine h.invariant (I := fun t ↦ Sound userID t ∧ Unbroken userID t) ?_ ?_
    · exact ⟨⟨fun hne ↦ absurd rfl hne, held_fresh⟩, rfl, nofun⟩
    · rintro s a t ⟨hsound, hunbroken⟩ hsmooth hstep
      have hmove := move_of_step hstep
      exact ⟨sound_move hsound hmove, unbroken_move hsound hunbroken hsmooth hmove⟩
  exact hinv.2.errors

def sampleLink : Link where
  linkId := "next"
  linkKey := []
  serverPublic := ""
  quicAddr := ""
  faketcpAddr := ""
  tcpAddr := ""
  egress := ""
  serverName := ""
  reverse := false
  udpLanes := 1
  policy := none

def sampleHop (transport : String) (key : UInt8) (next : Option Link) : Accept :=
  { sampleAccept transport "0.0.0.0:443" with linkKey := [key], next := next }

def sampleID (key : List UInt8) : UserID := String.ofList (key.map fun b ↦ Char.ofNat b.toNat)

def sampleHops : List Accept :=
  [sampleHop "a" 1 (some sampleLink), sampleHop "b" 2 (some sampleLink)]

def sampleRound (W W' : List Accept) : List Action :=
  [.want W, .launch, .read, .call, .next, .want W', .read, .call, .call, .next, .read, .next]

/-- The list loses an accept between `admit` and `relay`. -/
theorem serve_returns_no_error_shorter_list :
    ∃ t, Reach (step sampleID) (fun s a ↦ smooth s a = true) init t ∧ t.phase = .idle ∧
      t.read.length = 2 ∧ t.wanted.length = 1 ∧ t.errors = [] := by
  have hreach : Reach (step sampleID) (fun s a ↦ smooth s a = true) init _ :=
    reach_after (sampleRound sampleHops [sampleHop "a" 1 (some sampleLink)]) (by decide +kernel)
  exact ⟨_, hreach, by decide +kernel, by decide +kernel, by decide +kernel,
    serve_returns_no_error hreach⟩

/-- The list gets an accept that is relayed between `admit` and `relay`: `relay` does not find its
link among the admitted ones, and the process is stopped. -/
theorem serve_stops_a_process_that_runs :
    ∃ t, Reach (step sampleID) (fun _ a ↦ failure a = false) init t ∧
      t.errors = ["relay b: the link is not admitted"] ∧ t.phase = .down :=
  exists_reach ((sampleRound [sampleHop "a" 1 (some sampleLink)] sampleHops).take 7) _
    (by decide +kernel)

def FromGroup (W : List Accept) : Prop :=
  ∃ net it accepts groups l, group net it accepts = .ok groups ∧ groups.lookup l = some W

/-- Every list comes from `group`, and its links have distinct users. -/
def Separate (userID : List UInt8 → UserID) : Action → Prop
  | .want W => FromGroup W ∧ (W.map fun a ↦ userID a.linkKey).Nodup
  | _ => True

variable {W : List Accept}

theorem Separate.distinct (h : Separate userID (.want W)) : Distinct userID W := by
  obtain ⟨⟨net, it, accepts, groups, l, hgroup, hlookup⟩, husers⟩ := h
  exact ⟨nodup_linkIDs_of_group hgroup hlookup, husers⟩

structure Reached (userID : List UInt8 → UserID) (n : Nat) (W : List Accept) (s : Session) :
    Prop where
  admits : 1 ≤ n → Admits userID W s
  routed : 2 ≤ n → Routed W s
  dials : 3 ≤ n → s.process.dials = wantedDials W

structure Following (userID : List UInt8 → UserID) (s : State) : Prop where
  wanted : Distinct userID s.wanted
  synced : Synced userID (after userID s)
  reached : s.quiet = true → Reached userID (stage s) s.wanted (after userID s)

theorem reached_zero {s : Session} : Reached userID 0 W s :=
  ⟨fun h ↦ (by omega), fun h ↦ (by omega), fun h ↦ (by omega)⟩

theorem after_of_none (h : s.calls = none) : after userID s = s.session := by
  simp only [after, h, getD_none, foldl_nil]

theorem Following.of_same (h : Following userID s) (hwanted : t.wanted = s.wanted)
    (hquiet : t.quiet = s.quiet) (hstage : stage t = stage s)
    (hafter : after userID t = after userID s) : Following userID t := by
  refine ⟨?_, ?_, ?_⟩
  · rw [hwanted]
    exact h.wanted
  · rw [hafter]
    exact h.synced
  · rw [hwanted, hquiet, hstage, hafter]
    exact h.reached

theorem following_readDial (h : Following userID s) (hcalls : s.calls = none)
    (hphase : s.phase = .dialing) :
    Following userID { s with calls := some (s.session.dial s.wanted) } := by
  have hsynced := h.synced
  have hreached := h.reached
  rw [after_of_none hcalls] at hsynced hreached
  obtain ⟨hsynced', hdials, hadmitted, hlinks, hroutes⟩ := dial_spec hsynced s.wanted
  refine ⟨h.wanted, hsynced', fun hquiet ↦ ⟨fun _ ↦ ?_, fun _ ↦ ?_, fun _ ↦ hdials⟩⟩
  · have hadmits := (hreached hquiet).admits (by simp [stage, hphase, hcalls])
    intro link key uid
    simp only [after, getD_some]
    rw [hadmitted]
    exact hadmits link key uid
  · have hrouted := (hreached hquiet).routed (by simp [stage, hphase, hcalls])
    refine ⟨?_, ?_⟩
    · intro id
      simp only [after, getD_some]
      rw [hlinks]
      exact hrouted.links id
    · intro uid id
      simp only [after, getD_some, Session.routeTable]
      rw [hroutes, hadmitted]
      exact hrouted.routes uid id

theorem following_move (hsound : Sound userID s) (h : Following userID s)
    (hseparate : Separate userID a) (hmove : Move userID s a t) : Following userID t := by
  cases hmove with
  | want accepts => exact ⟨hseparate.distinct, h.synced, nofun⟩
  | launch hphase =>
    have hcalls := hsound.calls_eq_none (.inr hphase)
    have hstage : stage { s with phase := .admitting } = 0 := by simp [stage, hcalls]
    refine ⟨h.wanted, h.synced, fun _ ↦ ?_⟩
    rw [hstage]
    exact reached_zero
  | fails | notAdmitted => exact ⟨h.wanted, synced_fresh, fun _ ↦ reached_zero⟩
  | readAdmit hcalls hphase =>
    have hsynced := h.synced
    rw [after_of_none hcalls] at hsynced
    refine ⟨h.wanted, synced_admitLinks hsynced h.wanted,
      fun _ ↦ ⟨fun _ ↦ admits_admitLinks hsynced h.wanted, fun htwo ↦ ?_, fun hthree ↦ ?_⟩⟩
    · simp [stage, hphase] at htwo
    · simp [stage, hphase] at hthree
  | readRelay calls hcalls hphase hrelay =>
    have hsynced := h.synced
    have hreached := h.reached
    rw [after_of_none hcalls] at hsynced hreached
    obtain ⟨hsynced', hrouted, hadmitted⟩ := relay_spec hsound.safe.now hsynced h.wanted hrelay
    refine ⟨h.wanted, hsynced', fun hquiet ↦ ⟨fun _ ↦ ?_, fun _ ↦ hrouted, fun hthree ↦ ?_⟩⟩
    · have hadmits := (hreached hquiet).admits (by simp [stage, hphase, hcalls])
      intro link key uid
      simp only [after, getD_some]
      rw [hadmitted]
      exact hadmits link key uid
    · simp [stage, hphase] at hthree
  | readDial hcalls hphase => exact following_readDial h hcalls hphase
  | call rpc calls hcalls =>
    refine h.of_same rfl rfl (by simp [stage, hcalls]) ?_
    simp only [after, hcalls, getD_some, foldl_cons]
  | callAgain => exact h
  | admitted hcalls hphase | relayed hcalls hphase =>
    exact h.of_same rfl rfl (by simp [stage, hcalls, hphase]) (by simp [after, hcalls])
  | dialed hcalls hphase =>
    have hafter : after userID s = s.session := by simp [after, hcalls]
    have hstage : stage s = 3 := by simp [stage, hcalls, hphase]
    have hsynced := h.synced
    have hreached := h.reached
    rw [hafter] at hsynced hreached
    rw [hstage] at hreached
    refine ⟨h.wanted, { hsynced with }, fun hquiet ↦ ?_⟩
    have hdone := hreached hquiet
    exact ⟨hdone.admits, fun htwo ↦ ⟨(hdone.routed htwo).links, (hdone.routed htwo).routes⟩,
      hdone.dials⟩
  | woken hphase =>
    have hcalls := hsound.calls_eq_none (.inl hphase)
    have hstage : stage { s with phase := .admitting, wake := false } = 0 := by simp [stage, hcalls]
    refine ⟨h.wanted, h.synced, fun _ ↦ ?_⟩
    rw [hstage]
    exact reached_zero
  | close hphase => exact ⟨h.wanted, h.synced, fun _ ↦ reached_zero⟩

structure Exact (userID : List UInt8 → UserID) (W : List Accept) (p : Process) : Prop where
  users : ∀ uid user, p.users.lookup uid = some user ↔
    ∃ a ∈ W, uid = userID a.linkKey ∧ user = ⟨a.linkKey, a.linkID⟩
  links : ∀ id, p.links.lookup id = (wantedLinks W).lookup id
  routes : ∀ uid id, p.routes.lookup uid = some id ↔
    ∃ x ∈ Machine.relayed W, uid = userID x.1.linkKey ∧ id = x.2.linkId
  dials : p.dials = wantedDials W

theorem exact_of_reached {s : Session} (hsynced : Synced userID s)
    (h : Reached userID 3 W s) : Exact userID W s.process where
  users uid user := by
    rw [hsynced.users uid user.key user.externalId, h.admits (by omega)]
    constructor
    · rintro ⟨a, ha, hlink, hkey, hid⟩
      refine ⟨a, ha, ?_, ?_⟩
      · rw [hkey, hid]
      · rw [hlink, hkey]
    · rintro ⟨a, ha, rfl, rfl⟩
      exact ⟨a, ha, rfl, rfl, rfl⟩
  links := (h.routed (by omega)).links
  routes uid id := by
    rw [(h.routed (by omega)).routes, mem_routeTable]
    constructor
    · rintro ⟨x, hx, have_, hlookup, heq⟩
      have hlink := (h.admits (by omega) x.1.linkID _ _).mpr
        ⟨x.1, (mem_relayed.mp hx).1, rfl, rfl, rfl⟩
      rw [hlookup] at hlink
      cases hlink
      cases heq
      exact ⟨x, hx, rfl, rfl⟩
    · rintro ⟨x, hx, rfl, rfl⟩
      refine ⟨x, hx, ⟨x.1.linkKey, userID x.1.linkKey⟩, ?_, rfl⟩
      exact (h.admits (by omega) _ _ _).mpr ⟨x.1, (mem_relayed.mp hx).1, rfl, rfl, rfl⟩
  dials := h.dials (by omega)

theorem following_of_reach (h : Reach (step userID) (fun _ a ↦ Separate userID a) init t) :
    Sound userID t ∧ Following userID t := by
  refine h.invariant (I := fun t ↦ Sound userID t ∧ Following userID t) ?_ ?_
  · refine ⟨⟨fun hne ↦ absurd rfl hne, held_fresh⟩, ?_, synced_fresh, fun _ ↦ reached_zero⟩
    exact ⟨List.nodup_nil, List.nodup_nil⟩
  · rintro s a t ⟨hsound, hfollowing⟩ hseparate hstep
    have hmove := move_of_step hstep
    exact ⟨sound_move hsound hmove, following_move hsound hfollowing hseparate hmove⟩

theorem exact_of_round (hsound : Sound userID t) (h : Following userID t) (hphase : t.phase = .idle)
    (hquiet : t.quiet) : Exact userID t.wanted t.session.process := by
  have hstage : stage t = 3 := by simp [stage, hphase]
  have hsynced := h.synced
  have hreached := h.reached hquiet
  rw [after_of_none (hsound.calls_eq_none (.inl hphase))] at hsynced hreached
  rw [hstage] at hreached
  exact exact_of_reached hsynced hreached

/-- At every call every route of the process names a link it has, and no link is removed that a
route names. After a round without failures the process has exactly what a list of `group` wants. -/
theorem rounds_reconcile :
    (∀ t, Steps (step userID) init t →
      (∀ uid id, t.session.process.routes.lookup uid = some id →
        t.session.process.links.lookup id ≠ none) ∧
      ∀ ids calls, t.calls = some (.removeLinks ids :: calls) →
        ∀ uid id, t.session.process.routes.lookup uid = some id → id ∉ ids) ∧
    ∀ t, Reach (step userID) (fun _ a ↦ Separate userID a) init t → t.phase = .idle →
      t.quiet = true → Exact userID t.wanted t.session.process := by
  refine ⟨?_, ?_⟩
  · intro t h
    have hsafe := (sound_of_steps h).safe
    refine ⟨hsafe.now.routes, ?_⟩
    intro ids calls hcalls
    rw [hcalls] at hsafe
    exact hsafe.2.1
  · intro t h hphase hquiet
    obtain ⟨hsound, hfollowing⟩ := following_of_reach h
    exact exact_of_round hsound hfollowing hphase hquiet

theorem fromGroup_sample (h : ((group sampleNet sampleIteration W).toOption.bind
    fun groups ↦ groups.lookup (listener (sampleHop "a" 1 none))) = some W) : FromGroup W := by
  obtain ⟨groups, hgroups, hlookup⟩ := bind_eq_some_iff.mp h
  refine ⟨sampleNet, sampleIteration, W, groups, _, ?_, hlookup⟩
  cases hgroup : group sampleNet sampleIteration W with
  | error err =>
    rw [hgroup] at hgroups
    cases hgroups
  | ok groups' =>
    rw [hgroup] at hgroups
    cases hgroups
    rfl

def wantsOnly (Ws : List (List Accept)) : Action → Bool
  | .want W => W ∈ Ws
  | _ => true

/-- Two hops that share a link, after their first round. -/
theorem rounds_reconcile_two_hops :
    ∃ t, Reach (step sampleID) (fun _ a ↦ Separate sampleID a) init t ∧ t.wanted = sampleHops ∧
      Exact sampleID t.wanted t.session.process := by
  have hrun : ∃ t, Reach (step sampleID) (fun _ a ↦ wantsOnly [sampleHops] a = true) init t ∧
      t.phase = .idle ∧ t.quiet = true ∧ t.wanted = sampleHops :=
    exists_reach [.want sampleHops, .launch, .read, .call, .next, .read, .call, .call, .next,
      .read, .next] _ (by decide +kernel)
  obtain ⟨t, hreach, hphase, hquiet, hwanted⟩ := hrun
  have hseparate : Reach (step sampleID) (fun _ a ↦ Separate sampleID a) init t := by
    refine hreach.mono ?_
    intro s a ha
    cases a with
    | want W =>
      obtain rfl : W = sampleHops := by simpa [wantsOnly] using ha
      exact ⟨fromGroup_sample (by decide +kernel), by decide +kernel⟩
    | _ => trivial
  exact ⟨t, hseparate, hwanted, rounds_reconcile.2 t hseparate hphase hquiet⟩

/-- Two links with one key are one user of the process. When one of them goes, so does the user, and
the other stays admitted for the caller only. -/
theorem round_drops_a_wanted_user :
    ∃ t, Reach (step sampleID) (fun _ a ↦ ∀ W, a = .want W → FromGroup W) init t ∧
      t.phase = .idle ∧ t.quiet = true ∧ t.wanted = [sampleHop "b" 1 none] ∧
      t.session.process.users.lookup (sampleID [1]) = none := by
  refine ⟨_, (reach_after (C := fun _ a ↦ wantsOnly
      [[sampleHop "a" 1 none, sampleHop "b" 1 none], [sampleHop "b" 1 none]] a = true)
    [.want [sampleHop "a" 1 none, sampleHop "b" 1 none], .launch, .read, .call, .next,
      .read, .next, .read, .next, .want [sampleHop "b" 1 none], .woken, .read, .call, .next, .read,
      .next, .read, .next] (by decide +kernel)).mono ?_, by decide +kernel⟩
  rintro s a ha W rfl
  have hmem : W = [sampleHop "a" 1 none, sampleHop "b" 1 none] ∨ W = [sampleHop "b" 1 none] := by
    simpa [wantsOnly] using ha
  rcases hmem with rfl | rfl <;> exact fromGroup_sample (by decide +kernel)

end AnixAgent.AnxServer.Serving
