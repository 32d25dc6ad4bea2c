import AnixAgent.Lib.Runs

namespace AnixAgent.AgentState.Store

open Lib.Runs List

/-- Addresses of Controls, with `TrimSpace`, and the empty one. -/
structure Addresses (κ : Type) where
  trim : κ → κ
  empty : κ
  trim_trim : ∀ c, trim (trim c) = trim c
  trim_empty : trim empty = empty

/-- `state.json`. -/
inductive SessionFile (κ : Type)
  | missing
  | unreadable
  | session (control : κ)
  deriving DecidableEq

/-- The files of the directory. What was delivered has with it the Control that the process was
bound to that saved it. -/
structure Dir (κ γ υ : Type) where
  session : SessionFile κ
  config : Option (κ × γ)
  users : Option (κ × υ)
  deriving DecidableEq

inductive FileOp (κ : Type)
  | discardConfig
  | discardUsers
  | removeSession
  | saveSession (control : κ)
  deriving DecidableEq

variable {κ γ υ : Type}

def Dir.run (d : Dir κ γ υ) : FileOp κ → Dir κ γ υ
  | .discardConfig => { d with config := none }
  | .discardUsers => { d with users := none }
  | .removeSession => { d with session := .missing }
  | .saveSession control => { d with session := .session control }

/-- The file operations of `BindControl`; without a state file the Control is the empty one. -/
def bindControl [DecidableEq κ] (A : Addresses κ) (d : Dir κ γ υ) (control : κ) : List (FileOp κ) :=
  let discard (tail : List (FileOp κ)) := .discardConfig :: .discardUsers :: tail
  match d.session with
  | .missing =>
    if A.empty = A.trim control then [] else discard [.saveSession (A.trim control)]
  | .session bound =>
    if bound = A.trim control then [] else discard [.saveSession (A.trim control)]
  | .unreadable => discard [.removeSession, .saveSession (A.trim control)]

/-- A process is started for a Control, and has still to do some operations of `BindControl`. -/
structure Process (κ : Type) where
  control : κ
  todo : List (FileOp κ)
  deriving DecidableEq

structure State (κ γ υ : Type) where
  dir : Dir κ γ υ
  process : Option (Process κ)
  deriving DecidableEq

def init : State κ γ υ := ⟨⟨.missing, none, none⟩, none⟩

/-- `crash` is any end of the process; `spoil` makes the state file unreadable between two. -/
inductive Action (κ γ υ : Type)
  | start (control : κ)
  | bind
  | saveConfig (config : γ)
  | saveUsers (users : υ)
  | discardConfig
  | discardUsers
  | sessionStarted
  | crash
  | spoil

def serve (A : Addresses κ) (control : κ) (d : Dir κ γ υ) : Action κ γ υ → Option (Dir κ γ υ)
  | .saveConfig config => some { d with config := some (A.trim control, config) }
  | .saveUsers users => some { d with users := some (A.trim control, users) }
  | .discardConfig => some { d with config := none }
  | .discardUsers => some { d with users := none }
  -- the address as it was configured
  | .sessionStarted => some { d with session := .session control }
  | _ => none

def step [DecidableEq κ] (A : Addresses κ) (s : State κ γ υ) (a : Action κ γ υ) :
    Option (State κ γ υ) :=
  match a, s.process with
  | .start control, none => some { s with process := some ⟨control, bindControl A s.dir control⟩ }
  | .crash, _ => some { s with process := none }
  | .spoil, none => some { s with dir := { s.dir with session := .unreadable } }
  | .bind, some ⟨control, op :: todo⟩ => some ⟨s.dir.run op, some ⟨control, todo⟩⟩
  | a, some ⟨control, []⟩ => (serve A control s.dir a).map fun d ↦ ⟨d, s.process⟩
  | _, _ => none

def Dir.owners (d : Dir κ γ υ) : List κ :=
  (d.config.map Prod.fst).toList ++ (d.users.map Prod.fst).toList

def Dir.control (A : Addresses κ) (d : Dir κ γ υ) : Option κ :=
  match d.session with
  | .missing => some A.empty
  | .unreadable => none
  | .session control => some control

def Kept (A : Addresses κ) (d : Dir κ γ υ) : Prop :=
  ∀ c, d.control A = some c → ∀ owner ∈ d.owners, owner = A.trim c

structure Bound (A : Addresses κ) (control : κ) (d : Dir κ γ υ) : Prop where
  owners : ∀ owner ∈ d.owners, owner = A.trim control
  named : ∀ c, d.control A = some c → A.trim c = A.trim control

structure Binding (A : Addresses κ) (d : Dir κ γ υ) (p : Process κ) : Prop where
  kept : ∀ done, done <+: p.todo → Kept A (done.foldl Dir.run d)
  bound : Bound A p.control (p.todo.foldl Dir.run d)

section
variable {A : Addresses κ} {d : Dir κ γ υ} {control : κ} {s s' : State κ γ υ} {a : Action κ γ υ}

theorem Bound.kept (h : Bound A control d) : Kept A d :=
  fun c hc owner howner ↦ (h.owners owner howner).trans (h.named c hc).symm

theorem Binding.of_bound (h : Bound A control d) : Binding A d ⟨control, []⟩ :=
  ⟨fun done hdone ↦ by rw [prefix_nil.mp hdone]; exact h.kept, h⟩

theorem Binding.next {op : FileOp κ} {todo : List (FileOp κ)}
    (h : Binding A d ⟨control, op :: todo⟩) : Binding A (d.run op) ⟨control, todo⟩ :=
  ⟨fun done hdone ↦ h.kept (op :: done) (cons_prefix_cons.mpr ⟨rfl, hdone⟩), h.bound⟩

theorem binding_discard (h : Kept A d) {tail : List (FileOp κ)}
    (htail : tail = [.saveSession (A.trim control)] ∨
      tail = [.removeSession, .saveSession (A.trim control)]) :
    Binding A d ⟨control, .discardConfig :: .discardUsers :: tail⟩ := by
  constructor
  · intro done hdone
    simp only [prefix_cons_iff] at hdone
    rcases hdone with rfl | ⟨_, rfl, rfl | ⟨_, rfl, hrest⟩⟩
    · exact h
    · exact fun c hc owner howner ↦ h c hc owner (mem_append_right _ howner)
    -- both are gone, and no later operation brings them back
    have hnone (rest : List (FileOp κ)) (d : Dir κ γ υ) (hd : d.owners = []) :
        (rest.foldl Dir.run d).owners = [] := by
      induction rest generalizing d with
      | nil => exact hd
      | cons op rest ih =>
        refine ih _ ?_
        simp only [Dir.owners, append_eq_nil_iff] at hd ⊢
        cases op <;> simp_all [Dir.run]
    intro c _ owner howner
    rw [foldl_cons, foldl_cons, hnone _ _ rfl] at howner
    cases howner
  · rcases htail with rfl | rfl
    · exact ⟨nofun, fun c hc ↦ by cases hc; exact A.trim_trim control⟩
    · exact ⟨nofun, fun c hc ↦ by cases hc; exact A.trim_trim control⟩

theorem binding_bindControl [DecidableEq κ] (h : Kept A d) (control : κ) :
    Binding A d ⟨control, bindControl A d control⟩ := by
  have hsame (c : κ) (hc : d.control A = some c) (heq : c = A.trim control) :
      Binding A d ⟨control, []⟩ := by
    refine .of_bound ⟨fun owner howner ↦ ?_, fun c' hc' ↦ ?_⟩
    · rw [h c hc owner howner, heq, A.trim_trim]
    · rw [hc] at hc'
      cases hc'
      rw [heq, A.trim_trim]
  unfold bindControl
  simp only
  split
  · next hfile =>
    split
    · next heq => exact hsame A.empty (by rw [Dir.control, hfile]) heq
    · exact binding_discard h (.inl rfl)
  · next bound hfile =>
    split
    · next heq => exact hsame bound (by rw [Dir.control, hfile]) heq
    · exact binding_discard h (.inl rfl)
  · exact binding_discard h (.inr rfl)

theorem bound_serve (h : Bound A control d) {d' : Dir κ γ υ}
    (hserve : serve A control d a = some d') : Bound A control d' := by
  cases a with
  | saveConfig config =>
    cases hserve
    refine ⟨fun owner howner ↦ ?_, h.named⟩
    rcases mem_cons.mp howner with rfl | howner
    · rfl
    · exact h.owners owner (mem_append_right _ howner)
  | saveUsers users =>
    cases hserve
    refine ⟨fun owner howner ↦ ?_, h.named⟩
    rcases mem_append.mp howner with howner | howner
    · exact h.owners owner (mem_append_left _ howner)
    · exact mem_singleton.mp howner
  | discardConfig =>
    cases hserve
    exact ⟨fun owner howner ↦ h.owners owner (mem_append_right _ howner), h.named⟩
  | discardUsers =>
    cases hserve
    refine ⟨fun owner howner ↦ h.owners owner (mem_append_left _ ?_), h.named⟩
    simpa [Dir.owners] using howner
  | sessionStarted =>
    cases hserve
    exact ⟨h.owners, fun c hc ↦ by cases hc; rfl⟩
  | _ => cases hserve

structure Inv (A : Addresses κ) (s : State κ γ υ) : Prop where
  kept : Kept A s.dir
  binding : ∀ p, s.process = some p → Binding A s.dir p

theorem inv_binding {p : Process κ} (h : Binding A d p) : Inv A ⟨d, some p⟩ :=
  ⟨h.kept [] nil_prefix, fun q hq ↦ by cases hq; exact h⟩

def FileOp.trimmed (A : Addresses κ) : FileOp κ → Prop
  | .saveSession control => A.trim control = control
  | _ => True

theorem trimmed_run {op : FileOp κ} (h : ∃ c, d.control A = some c ∧ A.trim c = c)
    (hop : op.trimmed A) : ∃ c, (d.run op).control A = some c ∧ A.trim c = c := by
  cases op with
  | removeSession => exact ⟨A.empty, rfl, A.trim_empty⟩
  | saveSession control => exact ⟨control, rfl, hop⟩
  | _ => exact h

variable [DecidableEq κ]

theorem inv_step (h : Inv A s) (hstep : step A s a = some s') : Inv A s' := by
  unfold step at hstep
  split at hstep
  · cases hstep
    exact inv_binding (binding_bindControl h.kept _)
  · cases hstep
    exact ⟨h.kept, fun p hp ↦ by cases hp⟩
  · next hprocess =>
    cases hstep
    refine ⟨fun c hc ↦ (by cases hc), fun p hp ↦ ?_⟩
    cases hprocess.symm.trans hp
  · next hprocess =>
    cases hstep
    exact inv_binding (h.binding _ hprocess).next
  · next hprocess =>
    obtain ⟨d, hserve, rfl⟩ := Option.map_eq_some_iff.mp hstep
    rw [hprocess]
    exact inv_binding (.of_bound (bound_serve (h.binding _ hprocess).bound hserve))
  · cases hstep

/-- Every Control is configured without surrounding space, and the state file stays readable. -/
def orderly (A : Addresses κ) : Action κ γ υ → Bool
  | .start control => A.trim control = control
  | .spoil => false
  | _ => true

structure Trimmed (A : Addresses κ) (s : State κ γ υ) : Prop where
  named : ∃ c, s.dir.control A = some c ∧ A.trim c = c
  process : ∀ p, s.process = some p → A.trim p.control = p.control ∧
    ∀ op ∈ p.todo, FileOp.trimmed A op

theorem trimmed_bindControl (A : Addresses κ) (d : Dir κ γ υ) (control : κ) :
    ∀ op ∈ bindControl A d control, FileOp.trimmed A op := by
  intro op hop
  unfold bindControl at hop
  simp only at hop
  split at hop
  · split at hop <;> simp at hop
    rcases hop with rfl | rfl | rfl <;> simp [FileOp.trimmed, A.trim_trim]
  · split at hop <;> simp at hop
    rcases hop with rfl | rfl | rfl <;> simp [FileOp.trimmed, A.trim_trim]
  · simp at hop
    rcases hop with rfl | rfl | rfl | rfl <;> simp [FileOp.trimmed, A.trim_trim]

theorem trimmed_step (h : Trimmed A s) (horderly : orderly A a)
    (hstep : step A s a = some s') : Trimmed A s' := by
  unfold step at hstep
  split at hstep
  · cases hstep
    refine ⟨h.named, fun p hp ↦ ?_⟩
    cases hp
    exact ⟨of_decide_eq_true horderly, trimmed_bindControl A _ _⟩
  · cases hstep
    exact ⟨h.named, fun p hp ↦ (by cases hp)⟩
  · cases horderly
  · next hprocess =>
    cases hstep
    obtain ⟨hcontrol, htodo⟩ := h.process _ hprocess
    refine ⟨trimmed_run h.named (htodo _ mem_cons_self), fun p hp ↦ ?_⟩
    cases hp
    exact ⟨hcontrol, fun op hop ↦ htodo op (mem_cons_of_mem _ hop)⟩
  · next a _ _ _ _ hprocess =>
    obtain ⟨d, hserve, rfl⟩ := Option.map_eq_some_iff.mp hstep
    refine ⟨?_, h.process⟩
    cases a with
    | saveConfig | saveUsers | discardConfig | discardUsers => cases hserve; exact h.named
    | sessionStarted => cases hserve; exact ⟨_, rfl, (h.process _ hprocess).1⟩
    | _ => cases hserve
  · cases hstep

end

/-- A process that has bound the directory finds only what was saved by a process bound to the same
Control; and with trimmed Controls and a readable state file `BindControl` discards nothing saved
for its own. -/
theorem loads_own_state [DecidableEq κ] (A : Addresses κ) {s : State κ γ υ}
    (h : Steps (step A) init s) :
    (∀ p, s.process = some p → p.todo = [] → ∀ owner ∈ s.dir.owners, owner = A.trim p.control) ∧
      (Reach (step A) (fun _ a ↦ orderly A a = true) init s → ∀ control,
        A.trim control = control → control ∈ s.dir.owners → bindControl A s.dir control = []) := by
  have hinv : Inv A s := by
    apply h.invariant
    · exact ⟨fun c _ owner howner ↦ (by cases howner), fun p hp ↦ (by cases hp)⟩
    · exact fun _ _ _ hs _ hstep ↦ inv_step hs hstep
  refine ⟨fun p hp htodo owner howner ↦ ?_, fun horderly control hcontrol howner ↦ ?_⟩
  · have hbound := (hinv.binding p hp).bound
    rw [htodo] at hbound
    exact hbound.owners owner howner
  have htrimmed : Trimmed A s := by
    apply horderly.invariant
    · exact ⟨⟨A.empty, rfl, A.trim_empty⟩, fun p hp ↦ (by cases hp)⟩
    · exact fun _ _ _ hs ha hstep ↦ trimmed_step hs ha hstep
  obtain ⟨c, hc, hself⟩ := htrimmed.named
  have hsame : c = A.trim control := by rw [hcontrol, hinv.kept c hc control howner, hself]
  unfold Dir.control at hc
  unfold bindControl
  split at hc <;> simp_all

def sampleAddresses : Addresses (Bool × Nat) := ⟨fun c ↦ (false, c.2), (false, 0), fun _ ↦ rfl, rfl⟩

theorem loads_own_state_moved :
    ∃ s : State (Bool × Nat) Nat Nat, Steps (step sampleAddresses) init s ∧
      s.process.map (·.todo) = some [] ∧ s.dir.owners = [(false, 2)] ∧
      bindControl sampleAddresses s.dir (false, 2) = [] := by
  have hreach : Reach (step sampleAddresses) (fun _ a ↦ orderly sampleAddresses a = true) init _ :=
    reach_after [.start (false, 1), .bind, .bind, .bind, .saveConfig 5, .saveUsers 6,
      .sessionStarted, .crash, .start (false, 2), .bind, .crash, .start (false, 2), .bind, .bind,
      .bind, .saveConfig 7] (by decide +kernel)
  exact ⟨_, hreach.steps, by decide +kernel, by decide +kernel,
    (loads_own_state sampleAddresses hreach.steps).2 hreach (false, 2) rfl (by decide +kernel)⟩

/-- The session of a process that was started for a Control with a space saves the space, so the
next start for the same Control discards its state. -/
theorem own_state_discarded :
    ∃ s : State (Bool × Nat) Nat Nat, Steps (step sampleAddresses) init s ∧ s.process = none ∧
      s.dir.owners = [sampleAddresses.trim (true, 1)] ∧
      .discardConfig ∈ bindControl sampleAddresses s.dir (true, 1) :=
  exists_steps [.start (true, 1), .bind, .bind, .bind, .saveConfig 5, .sessionStarted, .crash] _
    (by decide +kernel)

end AnixAgent.AgentState.Store
