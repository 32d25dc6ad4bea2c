import AnixAgent.Lib.Runs

namespace AnixAgent.Reports.LogHook

open Lib.Runs List

/-- Where `run` is: in its select, in `flush` before it reads `active`, or in the call of the report
function. `last` is the flush after which it returns. -/
inductive Stage
  | waiting
  | flushing (last : Bool)
  | reporting (last : Bool)
  | returned
  deriving DecidableEq

/-- `firing` are the entries of the `Fire` calls that found the hook active, `taken` and `reported`
what was taken from the queue and passed to the report function so far. -/
structure RemoteLogHook (ε : Type) where
  active : Bool
  stop : Bool
  firing : List ε
  queue : List ε
  batch : List ε
  stage : Stage
  taken : List ε
  reported : List (List ε)
  deriving DecidableEq

inductive Action (ε : Type)
  | fire (entry : ε)
  | send (i : Nat)
  | take
  | tick
  | stopped
  | load
  | report
  | clear
  | close

variable {ε : Type}

def newRemoteLogHook : RemoteLogHook ε := ⟨true, false, [], [], [], .waiting, [], []⟩

def after (last : Bool) : Stage := if last then .returned else .waiting

def step (h : RemoteLogHook ε) : Action ε → Option (RemoteLogHook ε)
  | .fire entry => some (if h.active then { h with firing := h.firing ++ [entry] } else h)
  | .send i => h.firing[i]?.map fun entry ↦ { h with
    firing := h.firing.eraseIdx i
    queue := if h.queue.length < 256 then h.queue ++ [entry] else h.queue }
  | .take => match h.stage, h.queue with
    | .waiting, entry :: queue => some { h with
      queue := queue
      taken := h.taken ++ [entry]
      batch := h.batch ++ [entry]
      stage := if h.batch.length + 1 ≥ 20 then .flushing false else .waiting }
    | _, _ => none
  | .tick => if h.stage = .waiting then some { h with stage := .flushing false } else none
  | .stopped =>
    if h.stage = .waiting ∧ h.stop then some { h with stage := .flushing true } else none
  | .load => match h.stage with
    | .flushing last =>
      if h.batch = [] ∨ h.active = false then some { h with batch := [], stage := after last }
      else some { h with stage := .reporting last }
    | _ => none
  | .report => match h.stage with
    | .reporting last => some { h with
      reported := h.reported ++ [h.batch], batch := [], stage := after last }
    | _ => none
  -- `Close`, once: the flag first, then the channel.
  | .clear => if h.active then some { h with active := false } else none
  | .close => if h.active ∨ h.stop then none else some { h with stop := true }

/-- No entry is in a batch that is not being reported. -/
def RemoteLogHook.settled (h : RemoteLogHook ε) : Bool :=
  h.batch.isEmpty || match h.stage with
    | .reporting _ => true
    | _ => false

/-- `Close` clears the flag while no batch is begun, and no entry is taken afterwards. -/
def whole (h : RemoteLogHook ε) : Action ε → Bool
  | .clear => h.settled
  | .take => h.active
  | _ => true

structure Inv (h : RemoteLogHook ε) : Prop where
  flushed : h.reported.flatten ++ h.batch = h.taken
  cleared : h.active = false → h.settled
  returned : h.stage = .returned → h.batch = []

variable {h t : RemoteLogHook ε} {a : Action ε}

theorem inv_step (hi : Inv h) (hwhole : whole h a) (hstep : step h a = some t) : Inv t := by
  obtain ⟨hflushed, hcleared, hreturned⟩ := hi
  cases a with
  | fire entry =>
    cases hstep
    split <;> exact ⟨hflushed, hcleared, hreturned⟩
  | send i =>
    obtain ⟨entry, -, rfl⟩ := Option.map_eq_some_iff.mp hstep
    exact ⟨hflushed, hcleared, hreturned⟩
  | take =>
    simp only [step] at hstep
    split at hstep
    · cases hstep
      refine ⟨by rw [← append_assoc, hflushed], fun hoff ↦ ?_, fun hstage ↦ ?_⟩
      · exact nomatch hoff.symm.trans hwhole
      · split at hstage <;> cases hstage
    · cases hstep
  | tick =>
    obtain ⟨hstage, ⟨⟩⟩ := Option.ite_none_right_eq_some.mp hstep
    exact ⟨hflushed, by simpa [RemoteLogHook.settled, hstage] using hcleared, nofun⟩
  | stopped =>
    obtain ⟨⟨hstage, -⟩, ⟨⟩⟩ := Option.ite_none_right_eq_some.mp hstep
    exact ⟨hflushed, by simpa [RemoteLogHook.settled, hstage] using hcleared, nofun⟩
  | load =>
    simp only [step] at hstep
    split at hstep
    · next last hstage =>
      split at hstep
      · next hdrop =>
        -- A batch is dropped only when it is empty: the flag was cleared while none was begun.
        have hnil : h.batch = [] := hdrop.elim id fun hactive ↦ by
          simpa [RemoteLogHook.settled, hstage] using hcleared hactive
        cases hstep
        exact ⟨by rw [← hflushed, hnil], fun _ ↦ rfl, fun _ ↦ rfl⟩
      · cases hstep
        exact ⟨hflushed, fun _ ↦ by simp [RemoteLogHook.settled], nofun⟩
    · cases hstep
  | report =>
    simp only [step] at hstep
    split at hstep
    · cases hstep
      exact ⟨by simpa using hflushed, fun _ ↦ rfl, fun _ ↦ rfl⟩
    · cases hstep
  | clear =>
    obtain ⟨-, ⟨⟩⟩ := Option.ite_none_right_eq_some.mp hstep
    exact ⟨hflushed, fun _ ↦ hwhole, hreturned⟩
  | close =>
    obtain ⟨-, ⟨⟩⟩ := Option.ite_none_left_eq_some.mp hstep
    exact ⟨hflushed, hcleared, hreturned⟩

/-- The next ticks report what is in the batch. -/
theorem Inv.reports (hi : Inv h) :
    ∃ t, Reach step (whole · ·) h t ∧ t.reported.flatten = h.taken := by
  rw [← hi.flushed]
  by_cases hnil : h.batch = []
  · exact ⟨h, .refl, by rw [hnil, append_nil]⟩
  have hactive (hstage : ∀ last, h.stage ≠ .reporting last) : h.active = true := by
    by_contra hoff
    have := hi.cleared (Bool.not_eq_true _ ▸ hoff)
    grind [RemoteLogHook.settled]
  cases hstage : h.stage with
  | waiting =>
    have hon := hactive (by simp [hstage])
    have hexec : execWhen step (whole · ·) h [.tick, .load, .report] =
        some { h with reported := h.reported ++ [h.batch], batch := [], stage := .waiting } := by
      simp [execWhen, step, whole, hstage, hnil, hon, after]
    exact ⟨_, reach_of_execWhen hexec, by simp⟩
  | flushing last =>
    have hon := hactive (by simp [hstage])
    have hexec : execWhen step (whole · ·) h [.load, .report] =
        some { h with reported := h.reported ++ [h.batch], batch := [], stage := after last } := by
      simp [execWhen, step, whole, hstage, hnil, hon]
    exact ⟨_, reach_of_execWhen hexec, by simp⟩
  | reporting last =>
    exact ⟨{ h with reported := h.reported ++ [h.batch], batch := [], stage := after last },
      .one .report rfl (by simp [step, hstage]), by simp⟩
  | returned => exact absurd (hi.returned hstage) hnil

/-- When `Close` clears the flag while no batch is begun, what was taken is what was reported and
the batch, in order; the hook can always report it all, and has when `run` has returned. -/
theorem entries_reported (hrun : Reach step (whole · ·) newRemoteLogHook h) :
    h.reported.flatten ++ h.batch = h.taken ∧
      (h.stage = .returned → h.reported.flatten = h.taken) ∧
      ∃ t, Reach step (whole · ·) h t ∧ t.reported.flatten = h.taken := by
  have hinv : Inv h := hrun.invariant ⟨rfl, nofun, nofun⟩
    fun _ _ _ hi hwhole hstep ↦ inv_step hi hwhole hstep
  refine ⟨hinv.flushed, fun hreturned ↦ ?_, hinv.reports⟩
  rw [← hinv.flushed, hinv.returned hreturned, append_nil]

theorem entries_reported_ticked : ∃ h : RemoteLogHook Nat, h.stage = .returned ∧
    h.taken = [1, 2] ∧ h.reported.flatten = [1, 2] := by
  have hrun : Reach step (whole · ·) newRemoteLogHook _ :=
    reach_after [.fire 1, .fire 2, .send 0, .send 0, .take, .take, .tick, .load, .report, .clear,
      .close, .stopped, .load] (by decide)
  exact ⟨_, by decide, by decide, ((entries_reported hrun).2.1 (by decide)).trans (by decide)⟩

/-- `Close` clears the flag before `run` flushes the last batch. -/
theorem last_batch_dropped : ∃ h : RemoteLogHook Nat, Steps step newRemoteLogHook h ∧
    h.stage = .returned ∧ h.taken = [1] ∧ h.reported = [] :=
  exists_steps [.fire 1, .send 0, .take, .clear, .close, .stopped, .load] _ (by decide)

end AnixAgent.Reports.LogHook
