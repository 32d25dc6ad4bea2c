import AnixAgent.Lib.Runs

namespace AnixAgent.Forward.States

open Lib.Runs Option

/-- `content` is the rest of the state: its hops and vantage probes. -/
structure NodeForwardState (γ : Type) where
  nodeRef : String
  generation : Nat
  stateHash : String
  content : γ

structure Codec (γ τ : Type) where
  marshal : NodeForwardState γ → τ
  unmarshal : τ → Option (NodeForwardState γ)
  unmarshal_marshal : ∀ state, unmarshal (marshal state) = some state

structure Persisted (τ : Type) where
  version : Nat
  nodeRef : String
  state : τ

def stateFileVersion : Nat := 1

/-- What the present process holds, the state file, and the state that was accepted last. -/
structure Component (γ τ : Type) where
  desired : Option (NodeForwardState γ)
  file : Option (Persisted τ)
  accepted : Option (NodeForwardState γ)

def init {γ τ : Type} : Component γ τ := ⟨none, none, none⟩

inductive Snapshot (γ : Type)
  | malformed (err : String)
  | notFound
  | found (state : NodeForwardState γ)

inductive Outcome
  | invalidConfig (err : String)
  | ignored
  | taken
  deriving DecidableEq

section

variable {γ τ : Type} (codec : Codec γ τ) (nodeRef : String)

/-- The state of the file, and the file that is left: one that cannot be used is discarded, one
that cannot be read stays. -/
def load (readable : Bool) :
    Option (Persisted τ) → Option (NodeForwardState γ) × Option (Persisted τ)
  | none => (none, none)
  | some file =>
    if !readable then (none, some file)
    else if file.version ≠ stateFileVersion ∨ file.nodeRef ≠ nodeRef then (none, none)
    else match codec.unmarshal file.state with
      | some state => (some state, some file)
      | none => (none, none)

def save (state : NodeForwardState γ) : Persisted τ :=
  ⟨stateFileVersion, nodeRef, codec.marshal state⟩

def apply (c : Component γ τ) (state : NodeForwardState γ) : Component γ τ :=
  { c with desired := some state, file := some (save codec nodeRef state) }

/-- `Start` of the next process. -/
def start (readable : Bool) (c : Component γ τ) : Component γ τ :=
  match load codec nodeRef readable c.file with
  | (some state, file) => apply codec nodeRef { c with file := file } state
  | (none, file) => { c with desired := none, file := file }

def applySnapshot (c : Component γ τ) : Snapshot γ → Outcome × Component γ τ
  | .malformed err => (.invalidConfig err, c)
  | .notFound => (.ignored, c)
  | .found state =>
    if state.nodeRef ≠ "" ∧ state.nodeRef ≠ nodeRef then
      (.invalidConfig s!"the forwarding state is node {state.nodeRef.quote}'s, not {nodeRef.quote}'s",
        c)
    else if state.generation = 0 then (.ignored, c)
    else if c.desired.any fun current ↦ state.generation < current.generation ∨
        state.generation = current.generation ∧ state.stateHash ≠ current.stateHash ∨
        state.generation = current.generation then (.ignored, c)
    else (.taken, apply codec nodeRef { c with accepted := some state } state)

inductive Event (γ : Type)
  | snapshot (snapshot : Snapshot γ)
  | restart (readable : Bool)

def step (c : Component γ τ) : Event γ → Option (Component γ τ)
  | .snapshot snapshot => some (applySnapshot codec nodeRef c snapshot).2
  | .restart readable => some (start codec nodeRef readable c)

end

variable {γ τ : Type} {codec : Codec γ τ} {nodeRef : String} {c d : Component γ τ}

/-- No restart fails to read the file. -/
abbrev Readable (_ : Component γ τ) (event : Event γ) : Prop := event ≠ .restart false

/-- The file has the state that was accepted last, and so has the process if it has one. -/
structure Kept (codec : Codec γ τ) (nodeRef : String) (c : Component γ τ) : Prop where
  desired : c.desired = c.accepted ∨ c.desired = none
  file : c.file = c.accepted.map (save codec nodeRef)

theorem start_of_kept (h : Kept codec nodeRef c) (readable : Bool) :
    start codec nodeRef readable c =
      { c with desired := if readable then c.accepted else none } := by
  obtain ⟨desired, file, accepted⟩ := c
  obtain ⟨-, hfile⟩ := h
  dsimp only at hfile
  subst hfile
  cases accepted with
  | none => cases readable <;> rfl
  | some state =>
    cases readable with
    | false => rfl
    | true => simp [start, load, save, apply, codec.unmarshal_marshal]

theorem applySnapshot_refused {snapshot : Snapshot γ}
    (h : (applySnapshot codec nodeRef c snapshot).1 ≠ .taken) :
    (applySnapshot codec nodeRef c snapshot).2 = c := by
  unfold applySnapshot at h ⊢
  split at h
  · rfl
  · rfl
  split_ifs at h ⊢ with hnode hzero hold
  · rfl
  · rfl
  · rfl
  · exact absurd rfl h

theorem applySnapshot_taken {snapshot : Snapshot γ}
    (h : (applySnapshot codec nodeRef c snapshot).1 = .taken) :
    ∃ state, (applySnapshot codec nodeRef c snapshot).2 =
        apply codec nodeRef { c with accepted := some state } state ∧
      ∀ current, c.desired = some current → current.generation < state.generation := by
  unfold applySnapshot at h ⊢
  split at h
  · cases h
  · cases h
  next state =>
  split_ifs at h ⊢ with hnode hzero hold
  refine ⟨state, rfl, fun current hcurrent ↦ ?_⟩
  simp [hcurrent] at hold
  omega

theorem kept_step {event : Event γ} (h : Kept codec nodeRef c)
    (hstep : step codec nodeRef c event = some d) :
    Kept codec nodeRef d ∧ (Readable c event →
      (c.desired = c.accepted → d.desired = d.accepted) ∧
      ∀ state, c.desired = some state → ∃ state', d.desired = some state' ∧
        (state' = state ∨ state.generation < state'.generation)) := by
  cases event with
  | snapshot snapshot =>
    cases hstep
    by_cases htaken : (applySnapshot codec nodeRef c snapshot).1 = .taken
    · obtain ⟨new, heq, hnewer⟩ := applySnapshot_taken htaken
      rw [heq]
      exact ⟨⟨.inl rfl, rfl⟩, fun _ ↦ ⟨fun _ ↦ rfl,
        fun state hstate ↦ ⟨new, rfl, .inr (hnewer state hstate)⟩⟩⟩
    · rw [applySnapshot_refused htaken]
      exact ⟨h, fun _ ↦ ⟨id, fun state hstate ↦ ⟨state, hstate, .inl rfl⟩⟩⟩
  | restart readable =>
    cases hstep
    rw [start_of_kept h]
    cases readable with
    | false => exact ⟨⟨.inr rfl, h.file⟩, fun hreadable ↦ absurd rfl hreadable⟩
    | true =>
      refine ⟨⟨.inl rfl, h.file⟩, fun _ ↦ ⟨fun _ ↦ rfl, fun state hstate ↦ ?_⟩⟩
      rcases h.desired with hdesired | hnone
      · exact ⟨state, hdesired ▸ hstate, .inl rfl⟩
      · cases hnone.symm.trans hstate

theorem kept_of_steps (hc : Steps (step codec nodeRef) init c) : Kept codec nodeRef c :=
  hc.invariant ⟨.inl rfl, rfl⟩ fun _ _ _ h _ hstep ↦ (kept_step h hstep).1

theorem held_of_reach (h : Kept codec nodeRef c) (hd : Reach (step codec nodeRef) Readable c d) :
    Kept codec nodeRef d ∧ (c.desired = c.accepted → d.desired = d.accepted) ∧
      ∀ state, c.desired = some state → ∃ state', d.desired = some state' ∧
        (state' = state ∨ state.generation < state'.generation) := by
  induction hd with
  | refl => exact ⟨h, id, fun state hstate ↦ ⟨state, hstate, .inl rfl⟩⟩
  | snoc event _ hreadable hstep ih =>
    obtain ⟨hkept, hsame, hheld⟩ := ih
    obtain ⟨hkept', hone⟩ := kept_step hkept hstep
    obtain ⟨hsame', hheld'⟩ := hone hreadable
    refine ⟨hkept', fun hdesired ↦ hsame' (hsame hdesired), fun state hstate ↦ ?_⟩
    obtain ⟨middle, hmiddle, hle⟩ := hheld state hstate
    obtain ⟨last, hlast, hle'⟩ := hheld' middle hmiddle
    refine ⟨last, hlast, ?_⟩
    rcases hle with rfl | hlt
    · exact hle'
    · rcases hle' with rfl | hlt'
      · exact .inr hlt
      · exact .inr (hlt.trans hlt')

def plain : Codec Unit (NodeForwardState Unit) := ⟨id, some, fun _ ↦ rfl⟩

def generation (n : Nat) : Event Unit := .snapshot (.found ⟨"", n, "", ()⟩)

end AnixAgent.Forward.States
