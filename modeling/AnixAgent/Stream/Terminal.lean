import AnixAgent.Stream.Cancellation

namespace AnixAgent.Stream.Terminal

open Machine SessionOperations Steps Trace Registers Handled SessionEnd Cancellation Lib.Runs List

/-- The receive loop has a copy of the operation, a cancel of it or a state of
it in hand. A copy whose lookup is still to come meets the cache first, and one
that the queue had no room for is refused. -/
def receiverHolds : Receiver → Option Key
  | .checkDeadline op | .checkStale op | .checkAdmission op | .enqueue op | .push op
  | .lookupCancel op | .requestCancel op
  | .acknowledge _ (.stale op) | .acknowledge _ (.complete op _ _ _) => some (opKey op)
  | .acknowledge _ (.resend observed) | .resend observed => some (stateKey observed)
  | .store terminal _ | .remember terminal _ | .report terminal _ => some (stateKey terminal)
  | _ => none

def workerHolds : Worker → Option Key
  | .begin op | .checkExpired op | .checkDeadline op _ | .checkStale op _ | .sendApplying op _
  | .checkContext op _ | .call op _ | .handling op _ | .finish op _ => some (opKey op)
  | .store terminal _ | .remember terminal _ | .report terminal _ => some (stateKey terminal)
  | _ => none

/-- A SUCCEEDED or FAILED state is remembered only while no other copy of the
operation is queued or in the other loop's hands. -/
def Alone (c : Client) : Option Event → Prop
  | some (.remembered .worker terminal) =>
    terminal.phase = .succeeded ∨ terminal.phase = .failed →
      stateKey terminal ∉ c.operationQueue.map opKey ∧
        receiverHolds c.receiver ≠ some (stateKey terminal)
  | some (.remembered .receiver terminal) =>
    terminal.phase = .succeeded ∨ terminal.phase = .failed →
      stateKey terminal ∉ c.operationQueue.map opKey ∧
        workerHolds c.worker ≠ some (stateKey terminal)
  | _ => True

def Solo (c : Client) (a : Action) : Prop := Alone c (emitted c a)

instance (c : Client) (e : Option Event) : Decidable (Alone c e) := by
  unfold Alone
  split <;> infer_instance

instance (c : Client) (a : Action) : Decidable (Solo c a) :=
  inferInstanceAs (Decidable (Alone c (emitted c a)))

def cancels (k : Key) : Action → Bool
  | .deliver (some op) => op.kind = operationCancelKind && opKey op == k
  | _ => false

def ReceiverRepeats (state : ObservedState) : Receiver → Prop
  | .acknowledge _ (.resend observed) | .resend observed =>
    stateKey observed = stateKey state → observed = state
  | .store terminal _ | .remember terminal _ | .report terminal _ =>
    stateKey terminal = stateKey state → terminal = state
  | r => receiverHolds r ≠ some (stateKey state)

def WorkerRepeats (state : ObservedState) : Worker → Prop
  | .store terminal _ | .remember terminal _ | .report terminal _ =>
    stateKey terminal = stateKey state → terminal = state
  | w => workerHolds w ≠ some (stateKey state)

structure Settled (state : ObservedState) (c : Client) : Prop where
  queue : stateKey state ∉ c.operationQueue.map opKey
  receiver : ReceiverRepeats state c.receiver
  worker : WorkerRepeats state c.worker

variable {state : ObservedState}

theorem ReceiverRepeats.of_not_holds {r : Receiver}
    (h : receiverHolds r ≠ some (stateKey state)) : ReceiverRepeats state r := by
  cases r
  case acknowledge ack after => cases after <;> simp_all [ReceiverRepeats, receiverHolds]
  all_goals simp_all [ReceiverRepeats, receiverHolds]

theorem WorkerRepeats.of_not_holds {w : Worker}
    (h : workerHolds w ≠ some (stateKey state)) : WorkerRepeats state w := by
  cases w <;> simp_all [WorkerRepeats, workerHolds]

variable {c d : Client}

theorem remember_settled {a : Action} {thread : Thread}
    (hs : Solo c a) (he : emitted c a = some (.remembered thread state))
    (hp : state.phase = .succeeded ∨ state.phase = .failed) (h : step c a = some d) :
    Settled state d := by
  rw [Solo, he] at hs
  cases emits he <;> obtain ⟨hq, hother⟩ := hs hp <;> cases h
  · exact ⟨hq, fun _ ↦ rfl, .of_not_holds hother⟩
  · exact ⟨hq, .of_not_holds hother, fun _ ↦ rfl⟩

theorem receive_repeats {env : Env} (hwf : Wf c)
    (hc : c.completed.lookup state.operationId = some state) (hi : ReceiverRepeats state c.receiver)
    (h : Receiving env c d) : ReceiverRepeats state d.receiver := by
  cases h with
  | @completed c op observed hlook =>
    intro hk
    have hid : observed.operationId = state.operationId := congrArg Prod.fst hk
    rw [← (hwf.completed_key _ _ hlook).1, hid] at hlook
    exact Option.some.inj (hlook.symm.trans hc)
  | @unknown c op hlook =>
    intro hk
    have hid : op.operationId = state.operationId := congrArg Prod.fst (Option.some.inj hk)
    cases (hid ▸ hlook).symm.trans hc
  | late | inTime | stale | newer | admits | dropped | queues | ended | seeks | notRunning | repeats
  | stores | remembers => exact hi
  | supersedes | completes => exact fun hk ↦ absurd (congrArg some hk) hi
  | _ => rintro ⟨⟩

theorem receive_keeps_queue {env : Env}
    (hi : ReceiverRepeats state c.receiver) (hq : stateKey state ∉ c.operationQueue.map opKey)
    (h : Receiving env c d) : stateKey state ∉ d.operationQueue.map opKey := by
  cases h with
  | pushes =>
    simp only [map_append, mem_append, not_or]
    exact ⟨hq, fun hk ↦ hi (congrArg some (mem_singleton.mp hk).symm)⟩
  | _ => exact hq

theorem work_repeats {env : Env} (hi : WorkerRepeats state c.worker) (h : Working env c d) :
    WorkerRepeats state d.worker := by
  cases h with
  | findsExpired | findsCancelled | fails | supersedes =>
    exact fun hk ↦ absurd (congrArg some hk) hi
  | ends =>
    intro hk
    rw [stateKey_handlerTerminal] at hk
    exact absurd (congrArg some hk) hi
  | letsGo | reports | clears | clearsExpired | clearsCancelled => rintro ⟨⟩
  | _ => exact hi

theorem step_settled {a : Action} (hwf : Wf c)
    (hc : c.completed.lookup state.operationId = some state)
    (hn : cancels (stateKey state) a = false) (hi : Settled state c) (h : step c a = some d) :
    Settled state d := by
  obtain ⟨hq, hr, hw⟩ := hi
  cases stepping h with
  | receive h =>
    refine ⟨receive_keeps_queue hr hq h, receive_repeats hwf hc hr h, ?_⟩
    rw [(receive_receives h).worker]
    exact hw
  | work h =>
    refine ⟨?_, ?_, work_repeats hw h⟩
    · rw [(work_works h).queue]; exact hq
    · rw [(work_works h).receiver]; exact hr
  | cancel hk => exact ⟨hq, fun he ↦ by simp [cancels, hk, Option.some.inj he] at hn, hw⟩
  | connect => exact ⟨by simp [connect], by rintro ⟨⟩, by rintro ⟨⟩⟩
  | take =>
    rw [map_cons, mem_cons, not_or] at hq
    exact ⟨hq.2, hr, fun he ↦ hq.1 (Option.some.inj he).symm⟩
  | quit => exact ⟨hq, hr, by rintro ⟨⟩⟩
  | stop => exact ⟨hq, hr, hw⟩
  | _ => exact ⟨hq, by rintro ⟨⟩, hw⟩

def Repeats (state : ObservedState) : Event → Prop
  | .sent _ observed | .remembered _ observed => stateKey observed = stateKey state → observed = state
  | _ => True

theorem settled_emitted {a : Action} {e : Event}
    (hi : Settled state c) (he : emitted c a = some e) : Repeats state e := by
  obtain ⟨-, hr, hw⟩ := hi
  cases emits he with
  | resent | remembered | reported => exact hr
  | workRemembered | workReported => exact hw
  | applying => exact fun hk ↦ absurd (congrArg some hk) hw
  | _ => trivial

/-- While a SUCCEEDED or FAILED state stays cached and no cancel of it arrives, it is the only state
sent or remembered for its key, in a run that remembers one only when no other copy of the operation
is under way. -/
theorem remembered_state_stays {c d e : Client} {a : Action} {thread : Thread}
    {state : ObservedState} (hrun : Reach step Solo newClient c) (hs : Solo c a)
    (he : emitted c a = some (.remembered thread state))
    (hp : state.phase = .succeeded ∨ state.phase = .failed) (hcd : step c a = some d)
    (hde : Reach step (fun c a ↦ Solo c a ∧ c.completed.lookup state.operationId = some state ∧
      cancels (stateKey state) a = false) d e) :
    ∀ ev ∈ since d e, Repeats state ev := by
  have hd : Reachable d := hrun.steps.trans (.one a trivial hcd)
  refine (reach_since (I := fun c ↦ Reachable c ∧ Settled state c) hde
    ⟨hd, remember_settled hs he hp hcd⟩ ?_ ?_).2
  · rintro c a d ⟨hr, hi⟩ ⟨-, hc, hn⟩ h
    exact ⟨.snoc a hr trivial h, step_settled (reachable_wf hr) hc hn hi h⟩
  · rintro c a d ev ⟨-, hi⟩ - - he
    exact settled_emitted hi he

def succeededA : ObservedState := observedOf enableA .succeeded "" 0

/-- A copy accepted before the first one is remembered as SUCCEEDED replaces that
state as superseded. -/
theorem duplicate_replaces_remembered :
    ∃ c d e, Reachable c ∧ emitted c (.work calm) = some (.remembered .worker succeededA) ∧
      step c (.work calm) = some d ∧
      Reach step (fun c a ↦ c.completed.lookup "a" = some succeededA ∧
        cancels (stateKey succeededA) a = false) d e ∧
      .remembered .worker (observedOf enableA .superseded becameStaleText 0) ∈ since d e := by
  exact ⟨_, _, _, steps_after (.connect 0 :: delivery enableA ++ delivery enableA ++ execution 9)
      (by decide +kernel), by decide +kernel, step_after (by decide +kernel),
    reach_after (List.replicate 2 (.work calm) ++ execution 5) (by decide +kernel),
    by decide +kernel⟩

/-- A redelivery after the state is remembered is answered with it. -/
theorem remembered_state_stays_redelivered :
    ∃ c d e, Reach step Solo newClient c ∧
      emitted c (.work calm) = some (.remembered .worker succeededA) ∧
      step c (.work calm) = some d ∧ Steps step d e ∧ .sent .receiver succeededA ∈ since d e ∧
      ∀ ev ∈ since d e, Repeats succeededA ev := by
  have hc : Reach step Solo newClient _ :=
    reach_after (.connect 0 :: delivery enableA ++ execution 9) (by decide +kernel)
  exact ⟨_, _, _, hc, by decide +kernel, step_after (by decide +kernel),
    steps_after (.deliver (some enableA) :: List.replicate 3 (.receive calm)) (by decide +kernel),
    by decide +kernel, remembered_state_stays hc (by decide +kernel)
      (show emitted _ _ = some (.remembered .worker _) by decide +kernel) (.inl rfl)
      (step_after (by decide +kernel)) (reach_after _ (by decide +kernel))⟩

end AnixAgent.Stream.Terminal
