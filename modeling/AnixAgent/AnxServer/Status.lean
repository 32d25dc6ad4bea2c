import AnixAgent.AnxServer.Serving

namespace AnixAgent.AnxServer.Status

open Lib.Runs Network.Plan Groups Machine Rounds Serving List Option

variable {userID : List UInt8 → UserID} {id : String}

inductive ComponentState
  | down
  | applied
  deriving DecidableEq

/-- A server with the state that it reports. -/
structure Server where
  state : Machine.State
  ready : Bool

inductive Action
  | server (a : Machine.Action)
  | setState

/-- `serve` waits and `run` starts the next process only when `setState` has returned. -/
def told (s : Server) : Machine.Action → Bool
  | .want _ => true
  | _ => match s.state.phase with
    | .idle => s.ready
    | .down => !s.ready
    | _ => true

def step (userID : List UInt8 → UserID) (s : Server) : Action → Option Server
  | .server a =>
    if told s a then (Machine.step userID s.state a).map ({ s with state := · }) else none
  | .setState => match s.state.phase with
    | .idle => some { s with ready := true }
    | .down => some { s with ready := false }
    | _ => none

def init : Server := ⟨Machine.init, false⟩

def components (state : ComponentState) :
    List String → List Accept → List (String × ComponentState)
  | _, [] => []
  | seen, accept :: wanted =>
    let next := (accept.next.map (·.linkId)).getD ""
    (accept.transport, state) ::
      if next ≠ "" ∧ next ∉ seen then
        (next, state) :: components state (next :: seen) wanted
      else components state seen wanted

def status (s : Server) : List (String × ComponentState) :=
  components (if s.ready then .applied else .down) [] s.state.wanted

/-- The transport of an accept, or the one that it is relayed into. -/
def Names (id : String) (a : Accept) : Prop :=
  a.transport = id ∨ ∃ link, a.next = some link ∧ link.linkId = id

theorem exists_of_mem_components {state st : ComponentState} {seen : List String}
    {W : List Accept} (h : (id, st) ∈ components state seen W) : ∃ a ∈ W, Names id a := by
  induction W generalizing seen with
  | nil => cases h
  | cons a W ih =>
    have hrest {seen : List String} (h : (id, st) ∈ components state seen W) :
        ∃ b ∈ a :: W, Names id b := by
      obtain ⟨b, hb, hnames⟩ := ih h
      exact ⟨b, mem_cons_of_mem a hb, hnames⟩
    rcases mem_cons.mp h with heq | h
    · cases heq
      exact ⟨a, mem_cons_self, .inl rfl⟩
    split at h
    · next hnext =>
      rcases mem_cons.mp h with heq | h
      · cases heq
        cases hlink : a.next with
        | none => simp [hlink] at hnext
        | some link => exact ⟨a, mem_cons_self, .inr ⟨link, hlink, by simp⟩⟩
      · exact hrest h
    · exact hrest h

/-- Every list comes from `group`, and its links have distinct users. -/
def Separates (userID : List UInt8 → UserID) : Action → Prop
  | .server a => Separate userID a
  | .setState => True

theorem reach_server {s : Server} (h : Reach (step userID) (fun _ a ↦ Separates userID a) init s) :
    Reach (Machine.step userID) (fun _ a ↦ Separate userID a) Machine.init s.state := by
  refine h.invariant (I := fun s ↦ Reach _ _ Machine.init s.state) .refl fun s a t hs ha hstep ↦ ?_
  cases a with
  | server a =>
    obtain ⟨-, hmap⟩ := ite_none_right_eq_some.mp hstep
    obtain ⟨u, hu, rfl⟩ := map_eq_some_iff.mp hmap
    exact hs.snoc a ha hu
  | setState =>
    dsimp only [step] at hstep
    split at hstep <;> cases hstep <;> exact hs

/-- When something is reported as applied only while `serve` waits after a round and no list came
since `admit` read one, the process has admitted every link that is reported as applied, and holds
the links that it relays into. -/
theorem applied_admitted {s : Server}
    (h : Reach (step userID) (fun _ a ↦ Separates userID a) init s)
    (hwaits : ∀ id, (id, .applied) ∈ status s → s.state.phase = .idle ∧ s.state.quiet = true)
    {id : String} (hstatus : (id, .applied) ∈ status s) :
    (∃ a ∈ s.state.wanted, Names id a) ∧ ∀ a ∈ s.state.wanted, Names id a →
      s.state.session.process.users.lookup (userID a.linkKey) = some ⟨a.linkKey, a.linkID⟩ ∧
      ∀ link, a.next = some link →
        (s.state.session.process.links.lookup link.linkId).isSome = true := by
  obtain ⟨hsound, hfollowing⟩ := following_of_reach (reach_server h)
  obtain ⟨hidle, hquiet⟩ := hwaits id hstatus
  have hexact := exact_of_round hsound hfollowing hidle hquiet
  refine ⟨exists_of_mem_components hstatus, fun a ha _ ↦ ⟨?_, fun link hlink ↦ ?_⟩⟩
  · exact (hexact.users _ _).mpr ⟨a, ha, rfl, rfl⟩
  · have hroute := (hexact.routes _ _).mpr ⟨(a, link), mem_relayed.mpr ⟨ha, hlink⟩, rfl, rfl⟩
    exact isSome_iff_ne_none.mpr (hsound.safe.now.routes _ _ hroute)

def sampleWant (key : UInt8) : List Accept := [sampleHop "a" key (some sampleLink)]

def wantsSample : Action → Bool
  | .server (.want W) => W = sampleWant 1 ∨ W = sampleWant 2
  | _ => true

def sampleRound : List Action :=
  [.want (sampleWant 1), .launch, .read, .call, .next, .read, .call, .call, .next, .read,
    .next].map .server ++ [.setState]

theorem separates_sample {a : Action} (h : wantsSample a) : Separates sampleID a := by
  cases a with
  | setState => trivial
  | server a =>
    cases a with
    | want W =>
      rcases of_decide_eq_true h with rfl | rfl
      · exact ⟨fromGroup_sample (by decide +kernel), by decide +kernel⟩
      · exact ⟨fromGroup_sample (by decide +kernel), by decide +kernel⟩
    | _ => trivial

theorem applied_admitted_round : ∃ s, Reach (step sampleID) (fun _ a ↦ Separates sampleID a) init s ∧
    s.state.session.process.users.lookup (sampleID [1]) = some ⟨[1], "a"⟩ := by
  obtain ⟨s, hrun, hphase, hquiet, hwanted, hstatus⟩ : ∃ s, Reach (step sampleID)
      (fun _ a ↦ wantsSample a = true) init s ∧ s.state.phase = .idle ∧ s.state.quiet = true ∧
        s.state.wanted = sampleWant 1 ∧ ("a", .applied) ∈ status s :=
    exists_reach sampleRound _ (by decide +kernel)
  have hreach := hrun.mono (D := fun _ a ↦ Separates sampleID a) fun _ _ ↦ separates_sample
  have hserved := (applied_admitted hreach (fun _ _ ↦ ⟨hphase, hquiet⟩) hstatus).2
  rw [hwanted] at hserved
  exact ⟨s, hreach, (hserved _ mem_cons_self (.inl rfl)).1⟩

/-- A new key of a link is reported as applied at once. -/
theorem applied_not_admitted :
    ∃ s, Reach (step sampleID) (fun _ a ↦ Separates sampleID a) init s ∧
      s.state.wanted = sampleWant 2 ∧ ("a", .applied) ∈ status s ∧
      s.state.session.process.users.lookup (sampleID [2]) = none := by
  exact ⟨_, (reach_after (sampleRound ++ [.server (.want (sampleWant 2))]) (by decide +kernel)).mono
    fun _ _ ↦ separates_sample, by decide +kernel⟩

end AnixAgent.AnxServer.Status
