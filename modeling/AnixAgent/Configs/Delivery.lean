import AnixAgent.Configs.Machine

namespace AnixAgent.Configs.Delivery

open Machine Lib.Runs List

/-- The call of `flushStatus` that has `statusMu`. A status is its position in the queue: each is a
message of its own, and `flushStatus` compares them by identity. -/
inductive Flush
  | locked
  | sending (status : Nat)
  | clearing (status : Nat)
  deriving DecidableEq

/-- The statuses of the data plane: `queued` lists all of them and `sent` those that were sent
successfully; `waiting` calls want `statusMu`, and `session` has the capability of configurations or
not. -/
structure State where
  queued : List ConfigStatus
  pendingStatus : Option Nat
  session : Bool
  waiting : Nat
  flush : Option Flush
  sent : List Nat
  deriving DecidableEq

def init : State := ⟨[], none, false, 0, none, []⟩

inductive Action
  | queueStatus (status : ConfigStatus)
  | flushStatus
  | session (negotiated : Bool)
  | lock
  | look
  | send (ok : Bool)
  | clear

/-- A step is a lock section or a call of `sendData`, which may fail at any time. -/
def step (s : State) : Action → Option State
  | .queueStatus status => some { s with
      queued := s.queued ++ [status]
      pendingStatus := some s.queued.length
      waiting := s.waiting + 1 }
  | .flushStatus => some { s with waiting := s.waiting + 1 }
  | .session negotiated => some { s with session := negotiated }
  | .lock =>
    if s.flush = none ∧ 0 < s.waiting then
      some { s with waiting := s.waiting - 1, flush := some .locked }
    else none
  | .look =>
    if s.flush = some .locked then
      some { s with flush := if s.session then s.pendingStatus.map .sending else none }
    else none
  | .send ok =>
    match s.flush with
    | some (.sending status) =>
      if ok then some { s with flush := some (.clearing status), sent := s.sent ++ [status] }
      else some { s with flush := none }
    | _ => none
  | .clear =>
    match s.flush with
    | some (.clearing status) => some { s with
        pendingStatus := if s.pendingStatus = some status then none else s.pendingStatus
        flush := none }
    | _ => none

def State.Before (s : State) (status : Nat) : Prop := ∀ i ∈ s.sent, i < status

/-- The pending status is the newest, and newer than what was sent; unless it is the one that was
just sent. -/
structure Inv (s : State) : Prop where
  sorted : s.sent.Pairwise (· < ·)
  queued : s.Before s.queued.length
  newest : ∀ i, s.queued.length = i + 1 → i ∈ s.sent ∨ s.pendingStatus = some i
  pending : ∀ i, s.pendingStatus = some i → i + 1 = s.queued.length ∧
    (s.flush = some (.clearing i) ∨ s.Before i)
  sending : ∀ i, s.flush = some (.sending i) → i < s.queued.length ∧ s.Before i
  clearing : ∀ i, s.flush = some (.clearing i) → i ∈ s.sent

section
variable {s s' : State} {a : Action}

theorem inv_step (h : Inv s) (hstep : step s a = some s') : Inv s' := by
  cases a with
  | queueStatus status =>
    cases hstep
    have hlength : (s.queued ++ [status]).length = s.queued.length + 1 := by simp
    refine ⟨h.sorted, fun i hi ↦ ?_, fun i hi ↦ .inr ?_, fun i hi ↦ ?_, fun i hi ↦ ?_, h.clearing⟩
    · exact hlength ▸ (h.queued i hi).trans (Nat.lt_succ_self _)
    · exact congrArg some (Nat.succ.inj (hlength.symm.trans hi))
    · obtain rfl := Option.some.inj hi
      exact ⟨hlength.symm, .inr h.queued⟩
    · exact ⟨hlength ▸ (h.sending i hi).1.trans (Nat.lt_succ_self _), (h.sending i hi).2⟩
  | flushStatus | session =>
    cases hstep
    exact { h with }
  | lock =>
    obtain ⟨hfree, hs'⟩ := Option.ite_some_none_eq_some.mp hstep
    cases hs'
    refine { h with
      pending := fun i hi ↦ ?_, sending := fun i hi ↦ (by cases hi)
      clearing := fun i hi ↦ (by cases hi) }
    obtain ⟨hnewest, hbefore⟩ := h.pending i hi
    exact ⟨hnewest, .inr (hbefore.resolve_left (by simp [hfree.1]))⟩
  | look =>
    obtain ⟨hlocked, hs'⟩ := Option.ite_some_none_eq_some.mp hstep
    cases hs'
    have hbefore (i : Nat) (hi : s.pendingStatus = some i) : s.Before i :=
      (h.pending i hi).2.resolve_left (by simp [hlocked])
    refine ⟨h.sorted, h.queued, h.newest, fun i hi ↦ ⟨(h.pending i hi).1, .inr (hbefore i hi)⟩,
      fun i hi ↦ ?_, fun i hi ↦ ?_⟩
    · have hpending : s.pendingStatus = some i := by
        split at hi
        · simpa using hi
        · cases hi
      exact ⟨Nat.lt_of_lt_of_eq (Nat.lt_succ_self i) (h.pending i hpending).1, hbefore i hpending⟩
    · split at hi
      · simp at hi
      · cases hi
  | send ok =>
    simp only [step] at hstep
    split at hstep
    · next status hsending =>
      obtain ⟨hlt, hbefore⟩ := h.sending status hsending
      have hpending (i : Nat) (hi : s.pendingStatus = some i) : s.Before i :=
        (h.pending i hi).2.resolve_left (by simp [hsending])
      split at hstep
      · cases hstep
        have hmem {i : Nat} (hi : i ∈ s.sent ++ [status]) : i ∈ s.sent ∨ i = status := by
          simpa using hi
        refine ⟨?_, fun i hi ↦ ?_, fun i hi ↦ ?_, fun i hi ↦ ?_, fun i hi ↦ (by cases hi),
          fun i hi ↦ ?_⟩
        · refine pairwise_append.mpr ⟨h.sorted, pairwise_singleton _ _, fun i hi j hj ↦ ?_⟩
          exact mem_singleton.mp hj ▸ hbefore i hi
        · rcases hmem hi with hi | rfl
          · exact h.queued i hi
          · exact hlt
        · exact (h.newest i hi).imp_left (mem_append_left _)
        · have hnewest := (h.pending i hi).1
          refine ⟨hnewest, ?_⟩
          by_cases heq : status = i
          · exact .inl (heq ▸ rfl)
          refine .inr fun j hj ↦ ?_
          rcases hmem hj with hj | rfl
          · exact hpending i hi j hj
          · omega
        · cases hi
          exact mem_append_right _ mem_cons_self
      · cases hstep
        exact ⟨h.sorted, h.queued, h.newest, fun i hi ↦ ⟨(h.pending i hi).1, .inr (hpending i hi)⟩,
          fun i hi ↦ (by cases hi), fun i hi ↦ (by cases hi)⟩
    · cases hstep
  | clear =>
    simp only [step] at hstep
    split at hstep
    · next status hclearing =>
      cases hstep
      refine ⟨h.sorted, h.queued, fun i hi ↦ ?_, fun i hi ↦ ?_, fun i hi ↦ (by cases hi),
        fun i hi ↦ (by cases hi)⟩
      · by_cases heq : status = i
        · exact .inl (heq ▸ h.clearing status hclearing)
        · refine (h.newest i hi).imp_right fun hpending ↦ ?_
          rw [if_neg (by simpa [hpending] using Ne.symm heq)]
          exact hpending
      · split at hi
        · cases hi
        next hother =>
        obtain ⟨hnewest, hbefore⟩ := h.pending i hi
        refine ⟨hnewest, .inr (hbefore.resolve_left fun hsame ↦ hother ?_)⟩
        rw [hclearing] at hsame
        cases hsame
        exact hi
    · cases hstep

end

/-- The statuses that were sent are some of those that were queued, in this order and none twice,
and the newest one has been sent or is pending. -/
theorem newest_sent_or_pending {s : State} (h : Steps step init s) :
    s.sent.Pairwise (· < ·) ∧ (∀ i ∈ s.sent, i < s.queued.length) ∧
      ∀ i, s.queued.length = i + 1 → i ∈ s.sent ∨ s.pendingStatus = some i := by
  have hinv : Inv s := by
    apply h.invariant
    · exact ⟨List.Pairwise.nil, nofun, nofun,
        nofun, nofun, nofun⟩
    · exact fun _ _ _ hs _ hstep ↦ inv_step hs hstep
  exact ⟨hinv.sorted, hinv.queued, hinv.newest⟩

/-- The second status comes while the first is being sent; the third is never sent. -/
theorem newest_sent_or_pending_replaced :
    ∃ s, Steps step init s ∧ s.queued.length = 3 ∧ s.sent = [0, 1] ∧ s.pendingStatus = some 2 := by
  have hrun : ∃ s, Steps step init s ∧ s.queued.length = 3 ∧ s.sent = [0, 1] :=
    exists_steps [.session true, .queueStatus ⟨1, "a", true, "", ""⟩, .lock, .look,
      .queueStatus ⟨2, "b", true, "", ""⟩, .send true, .clear, .lock, .look, .send true, .clear,
      .session false, .queueStatus ⟨3, "c", true, "", ""⟩, .lock, .look] _ (by decide +kernel)
  obtain ⟨s, hsteps, hlength, hsent⟩ := hrun
  have hnewest := (newest_sent_or_pending hsteps).2.2 2 hlength
  exact ⟨s, hsteps, hlength, hsent, hnewest.resolve_left (by simp [hsent])⟩

end AnixAgent.Configs.Delivery
