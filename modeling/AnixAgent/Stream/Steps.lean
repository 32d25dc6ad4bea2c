import AnixAgent.Stream.Machine

namespace AnixAgent.Stream.Steps

open Machine SessionOperations SessionOperationState Lib.Tables Option

theorem queue_eq (s : SessionOperationState) (op : DesiredOperation) :
    s.queue op = (s, true) ∨ s.queue op =
      ({ s with queued := s.queued.insert op.operationId op.revision }, false) := by
  unfold queue
  split_ifs <;> simp

/-- The client with its receive loop at `r`. -/
abbrev go (c : Client) (r : Receiver) : Client := { c with receiver := r }

/-- The client with its worker at `w`. -/
abbrev run (c : Client) (w : Worker) : Client := { c with worker := w }

/-- The message goes out, or the connection is broken. -/
abbrev told (c : Client) (env : Env) (e : Event) : Client :=
  { c with log := if env.sendOk then e :: c.log else c.log }

theorem ite_emit (c : Client) (env : Env) (e : Event) :
    (if env.sendOk = true then emit c e else c) = told c env e := by
  unfold told
  split <;> rfl

/-- The handler run of the operation is unregistered. -/
abbrev finished (c : Client) (op : DesiredOperation) : Client := { c with
  operations := { c.operations with running := (c.operations.finish op).1.running } }

theorem finish_eq (s : SessionOperationState) (op : DesiredOperation) :
    (s.finish op).1 = { s with running := (s.finish op).1.running } := by
  unfold finish
  split
  · split <;> rfl
  · rfl

theorem lookup_finish {s : SessionOperationState} {op : DesiredOperation} {id : String}
    {r : RunningOperation} (h : (s.finish op).1.running.lookup id = some r) :
    s.running.lookup id = some r ∧ (id = op.operationId → r.revision ≠ op.revision) := by
  unfold finish at h
  split at h
  · next r' hr' =>
    split at h
    · next hrev =>
      refine ⟨h, ?_⟩
      rintro rfl
      cases hr'.symm.trans h
      exact hrev
    · rw [lookup_erase_ite] at h
      split at h
      · cases h
      · next hid => exact ⟨h, fun heq ↦ absurd heq hid⟩
  · next hr' =>
    refine ⟨h, ?_⟩
    rintro rfl
    cases hr'.symm.trans h

theorem lookup_eraseAt_le {t : Table String Nat} {op : DesiredOperation} {id : String} {r : Nat}
    (h : (eraseAt t op).lookup id = some r) : t.lookup id = some r := by
  rw [eraseAt, lookup_eraseIf] at h
  split at h
  · cases h
  · exact h

abbrev answer (c : Client) (op : DesiredOperation) : CancelAnswer :=
  (c.operations.requestCancel op.operationId op.revision).2

/-- What a step of the receive loop does. -/
inductive Receiving (env : Env) : Client → Client → Prop
  | differs {c op reason} :
    Receiving env (go c (.lookup op)) (go c (.acknowledge (ackOf op false reason) .done))
  | completed {c : Client} {op : DesiredOperation} {observed}
    (hc : c.completed.lookup op.operationId = some observed) (hrev : observed.revision = op.revision) :
    Receiving env (go c (.lookup op)) (go c (.acknowledge (ackOf op true "") (.resend observed)))
  | unknown {c : Client} {op : DesiredOperation} (hc : c.completed.lookup op.operationId = none) :
    Receiving env (go c (.lookup op)) (go c (.checkDeadline op))
  | late {c op} (hd : operationDeadlineExceeded op env.now) :
    Receiving env (go c (.checkDeadline op)) (go c (.acknowledge (ackOf op true "")
      (.complete op .failed operationDeadlineText none)))
  | inTime {c op} : Receiving env (go c (.checkDeadline op)) (go c (.checkStale op))
  | stale {c : Client} {op : DesiredOperation} (ho : op.revision ≤ c.observedRevision) :
    Receiving env (go c (.checkStale op)) (go c (.acknowledge (ackOf op true "") (.stale op)))
  | newer {c op} : Receiving env (go c (.checkStale op)) (go c (.checkAdmission op))
  | refuses {c op reason} :
    Receiving env (go c (.checkAdmission op)) (go c (.acknowledge (ackOf op false reason) .done))
  | admits {c op} : Receiving env (go c (.checkAdmission op)) (go c (.enqueue op))
  | dropped {c : Client} {op} (hq : c.operations.queue op = (c.operations, true)) :
    Receiving env (go c (.enqueue op)) (go c (.acknowledge (ackOf op true "")
      (.complete op .superseded operationCancelledText (some op))))
  | queues {c : Client} {op : DesiredOperation} : Receiving env (go c (.enqueue op)) (go { c with
      operations := { c.operations with
        queued := c.operations.queued.insert op.operationId op.revision } } (.push op))
  | pushes {c : Client} {op} : Receiving env (go c (.push op)) (go { c with
      operationQueue := c.operationQueue ++ [op] } (.acknowledge (ackOf op true "") .done))
  | full {c op} : Receiving env (go c (.push op)) (go c (.unqueue op))
  | unqueues {c : Client} {op reason} : Receiving env (go c (.unqueue op)) (go { c with
      operations := c.operations.unqueue op } (.acknowledge (ackOf op false reason) .done))
  | differsCancel {c op reason} :
    Receiving env (go c (.lookupCancel op)) (go c (.acknowledge (ackOf op false reason) .done))
  | ended {c op} : Receiving env (go c (.lookupCancel op)) (go c (.acknowledge (ackOf op true "")
      (.complete op .superseded operationNotRunningText none)))
  | seeks {c op} : Receiving env (go c (.lookupCancel op)) (go c (.requestCancel op))
  | refusesCancel {c op reason} (ha : answer c op = .rejected reason) :
    Receiving env (go c (.requestCancel op)) (go c (.acknowledge (ackOf op false reason) .done))
  | notRunning {c op} (ha : answer c op = .notRunning) :
    Receiving env (go c (.requestCancel op)) (go c (.acknowledge (ackOf op true "")
      (.complete op .superseded operationNotRunningText none)))
  | flags {c : Client} {op : DesiredOperation} {r}
    (hr : c.operations.running.lookup op.operationId = some r) (hrev : r.revision = op.revision) :
    Receiving env (go c (.requestCancel op)) (go { c with
      operations := { c.operations with
        running := c.operations.running.insert op.operationId { r with cancelled := true } } }
      (.cancelContext op r.context))
  | marks {c : Client} {op : DesiredOperation} (ha : answer c op = .recorded) :
    Receiving env (go c (.requestCancel op)) (go { c with
      operations := { c.operations with
        cancelled := c.operations.cancelled.insert op.operationId op.revision } }
      (.acknowledge (ackOf op true "") .done))
  | marked {c : Client} {op : DesiredOperation} (ha : answer c op = .recorded)
    (hm : c.operations.cancelled.lookup op.operationId = some op.revision) :
    Receiving env (go c (.requestCancel op)) (go c (.acknowledge (ackOf op true "") .done))
  | cancels {c : Client} {op n} : Receiving env (go c (.cancelContext op n)) (go { c with
      contexts := Function.update c.contexts n true } (.acknowledge (ackOf op true "") .done))
  | acks {c ack} (hok : env.sendOk) :
    Receiving env (go c (.acknowledge ack .done)) (go (emit c (.acked ack)) .idle)
  | repeats {c ack observed} (hok : env.sendOk) :
    Receiving env (go c (.acknowledge ack (.resend observed)))
      (go (emit c (.acked ack)) (.resend observed))
  | supersedes {c ack op} (hok : env.sendOk) :
    Receiving env (go c (.acknowledge ack (.stale op)))
      (go (emit c (.acked ack)) (.resend (observedOf op .superseded staleText env.now)))
  | completes {c ack op phase message unmark} (hok : env.sendOk) :
    Receiving env (go c (.acknowledge ack (.complete op phase message unmark)))
      (go (emit c (.acked ack)) (.store (observedOf op phase message env.now) unmark))
  | breaks {c ack after} (hok : ¬env.sendOk) :
    Receiving env (go c (.acknowledge ack after)) (go c .close)
  | resends {c t} (hok : env.sendOk) :
    Receiving env (go c (.resend t)) (go (emit c (.sent .receiver t)) .idle)
  | breaksResend {c t} (hok : ¬env.sendOk) : Receiving env (go c (.resend t)) (go c .close)
  | stores {c} {t : ObservedState} {unmark} : Receiving env (go c (.store t unmark))
      (go (emit (storeObservedRevision c t.revision) (.stored .receiver t)) (.remember t unmark))
  | remembers {c t unmark} : Receiving env (go c (.remember t unmark))
      (go (emit (rememberCompleted c t) (.remembered .receiver t)) (.report t unmark))
  | reportsLast {c t} (hok : env.sendOk) :
    Receiving env (go c (.report t none)) (go (emit c (.sent .receiver t)) .idle)
  | breaksReport {c t} (hok : ¬env.sendOk) :
    Receiving env (go c (.report t none)) (go c .close)
  | reports {c t op} : Receiving env (go c (.report t (some op)))
      (go (told c env (.sent .receiver t)) (.unmark op (!env.sendOk)))
  | unmarks {c : Client} {op} : Receiving env (go c (.unmark op false)) (go { c with
      operations := c.operations.finishCancellation op } .idle)
  | unmarksLast {c : Client} {op} : Receiving env (go c (.unmark op true)) (go { c with
      operations := c.operations.finishCancellation op } .close)
  | closes {c : Client} : Receiving env (go c .close) (go { c with
      operations := { newSessionOperationState with closed := true } }
        (.cancelContexts (c.operations.running.entries.map fun r ↦ r.2.context)))
  | closesAgain {c : Client} (hc : c.operations.closed) :
    Receiving env (go c .close) (go c (.cancelContexts []))
  | cancelsNext {c : Client} {n contexts} : Receiving env (go c (.cancelContexts (n :: contexts)))
      (go { c with contexts := Function.update c.contexts n true }
        (.cancelContexts contexts))
  | cancelsAll {c} : Receiving env (go c (.cancelContexts [])) (go c .cancelSession)
  | cancelsSession {c : Client} : Receiving env (go c .cancelSession)
      (go { c with sessionCancelled := true } .waitWorker)
  | leaves {c} : Receiving env (go c .waitWorker) (go c .offline)

/-- What a step of the worker does. -/
inductive Working (env : Env) : Client → Client → Prop
  | closed {c : Client} {op} (hc : c.operations.closed) :
    Working env (run c (.begin op)) (run c (.checkExpired op))
  | cancelled {c : Client} {op : DesiredOperation}
    (hm : c.operations.cancelled.lookup op.operationId = some op.revision) :
    Working env (run c (.begin op)) (run { c with
      operations := c.operations.unqueue op } (.checkExpired op))
  | expired {c : Client} {op : DesiredOperation} (hd : operationDeadlineExceeded op env.now) :
    Working env (run c (.begin op)) (run { c with
      operations := { c.operations.unqueue op with
        expired := c.operations.expired.insert op.operationId op.revision } } (.checkExpired op))
  | registered {c : Client} {op : DesiredOperation}
    (hm : c.operations.cancelled.lookup op.operationId ≠ some op.revision) :
    Working env (run c (.begin op)) (run { c with
      operations := { c.operations.unqueue op with
        running := c.operations.running.insert op.operationId
          ⟨op.revision, c.nextContext, false⟩ }
      nextContext := c.nextContext + 1 } (.checkDeadline op c.nextContext))
  | findsExpired {c : Client} {op} (hx : c.operations.wasExpired op) :
    Working env (run c (.checkExpired op)) (run c
      (.store (observedOf op .failed operationDeadlineText env.now) (.finishExpired op)))
  | findsCancelled {c : Client} {op} (hx : ¬c.operations.wasExpired op) :
    Working env (run c (.checkExpired op)) (run c
      (.store (observedOf op .superseded operationCancelledText env.now) (.finishCancellation op)))
  | late {c op n} (hd : operationDeadlineExceeded op env.now) :
    Working env (run c (.checkDeadline op n)) (run c (.finish op (.failed operationDeadlineText)))
  | inTime {c op n} : Working env (run c (.checkDeadline op n)) (run c (.checkStale op n))
  | stale {c : Client} {op : DesiredOperation} {n} (ho : op.revision ≤ c.observedRevision) :
    Working env (run c (.checkStale op n)) (run c (.finish op .stale))
  | newer {c : Client} {op : DesiredOperation} {n} (ho : ¬op.revision ≤ c.observedRevision) :
    Working env (run c (.checkStale op n)) (run c (.sendApplying op n))
  | applies {c op n} (hok : env.sendOk) : Working env (run c (.sendApplying op n))
      (run (emit c (.sent .worker (observedOf op .applying "" env.now))) (.checkContext op n))
  | abandons {c op n} (hok : ¬env.sendOk) :
    Working env (run c (.sendApplying op n)) (run c (.finish op .abandoned))
  | live {c op n} : Working env (run c (.checkContext op n)) (run c (.call op n))
  | dead {c : Client} {op n err} (he : contextErr c op n env = some err) :
    Working env (run c (.checkContext op n)) (run c (.finish op (.failed
      (if err = .deadlineExceeded ∨ operationDeadlineExceeded op env.now then
        operationDeadlineText else "context canceled"))))
  | calls {c op n} : Working env (run c (.call op n))
      (run (emit c (.handled op)) (.handling op n))
  | returns {c op n} : Working env (run c (.handling op n))
      (run c (.finish op (.result env.state env.err)))
  | fails {c : Client} {op message} : Working env (run c (.finish op (.failed message)))
      (run (finished c op) (.store (observedOf op .failed message env.now) .done))
  | supersedes {c : Client} {op} : Working env (run c (.finish op .stale))
      (run (finished c op) (.remember (observedOf op .superseded becameStaleText env.now) .done))
  | letsGo {c : Client} {op} : Working env (run c (.finish op .abandoned))
      (run (finished c op) .idle)
  | ends {c : Client} {op state err} : Working env (run c (.finish op (.result state err)))
      (run (finished c op) (.store (handlerTerminal op (c.operations.finish op).2 state err env) .done))
  | stores {c} {t : ObservedState} {after} : Working env (run c (.store t after))
      (run (emit (storeObservedRevision c t.revision) (.stored .worker t)) (.remember t after))
  | remembers {c t after} : Working env (run c (.remember t after))
      (run (emit (rememberCompleted c t) (.remembered .worker t)) (.report t after))
  | reports {c t after} : Working env (run c (.report t after))
      (run (told c env (.sent .worker t)) (.clear after))
  | clears {c} : Working env (run c (.clear .done)) (run c .idle)
  | clearsExpired {c : Client} {op} : Working env (run c (.clear (.finishExpired op)))
      (run { c with operations := c.operations.finishExpired op } .idle)
  | clearsCancelled {c : Client} {op} : Working env (run c (.clear (.finishCancellation op)))
      (run { c with operations := c.operations.finishCancellation op } .idle)

abbrev desires (c : Client) (op : DesiredOperation) : Client :=
  { c with desiredRevision := storeMax c.desiredRevision op.revision }

/-- What a step of the client does. -/
inductive Stepping : Client → Action → Client → Prop
  | connect {c : Client} {n} (hr : c.receiver = .offline) (hw : c.worker = .stopped) :
    Stepping c (.connect n) (connect c n)
  | malformed {c} : Stepping (go c .idle) (.deliver none)
      (go c (.acknowledge ⟨"", 0, false, "invalid desired operation"⟩ .done))
  | refusesCancel {c} {op : DesiredOperation} {reason} (hk : op.kind = operationCancelKind) :
    Stepping (go c .idle) (.deliver (some op))
      (go (emit c (.cancelArrived op)) (.acknowledge (ackOf op false reason) .done))
  | cancel {c} {op : DesiredOperation} (hk : op.kind = operationCancelKind) :
    Stepping (go c .idle) (.deliver (some op)) (go (emit c (.cancelArrived op)) (.lookupCancel op))
  | refuses {c} {op : DesiredOperation} {reason} (hk : op.kind ≠ operationCancelKind) :
    Stepping (go c .idle) (.deliver (some op))
      (go (emit (desires c op) (.arrived op)) (.acknowledge (ackOf op false reason) .done))
  | arrive {c} {op : DesiredOperation} (hk : op.kind ≠ operationCancelKind)
    (hop : ¬(op.operationId = "" ∨ op.kind = "" ∨ op.revision = 0)) :
    Stepping (go c .idle) (.deliver (some op)) (go (emit (desires c op) (.arrived op)) (.lookup op))
  | receive {c env d} (h : Receiving env c d) : Stepping c (.receive env) d
  | leave {c} : Stepping (go c .idle) .leave (go c .close)
  | take {c : Client} {op queue} : Stepping (run { c with operationQueue := op :: queue } .idle) .take
      (run { c with operationQueue := queue } (.begin op))
  | quit {c : Client} (h : c.sessionCancelled = true ∨ c.cancelled = true) :
    Stepping (run c .idle) .quit (run c .stopped)
  | work {c env d} (h : Working env c d) : Stepping c (.work env) d
  | stop {c : Client} : Stepping c .stop { c with cancelled := true }

variable {c d : Client} {env : Env}

theorem receiving (h : receiveStep c env = some d) : Receiving env c d := by
  obtain ⟨r, c, rfl⟩ : ∃ r c', c = go c' r := ⟨c.receiver, c, rfl⟩
  cases r <;> simp only [receiveStep, reduceCtorEq, ne_eq, ite_not] at h
  case enqueue op =>
    rcases queue_eq c.operations op with hq | hq <;> simp only [hq] at h <;> cases h
    · exact .dropped hq
    · exact .queues
  case requestCancel op =>
    generalize hq : c.operations.requestCancel op.operationId op.revision = q at h
    have ha : answer c op = q.2 := congrArg Prod.snd hq
    unfold requestCancel at hq
    split at hq
    · cases hq; cases h; exact .refusesCancel ha
    split at hq
    · next r hr =>
      split at hq <;> cases hq <;> cases h
      · exact .refusesCancel ha
      · next hrev => exact .flags hr (not_not.mp hrev)
    split at hq
    · split at hq <;> cases hq <;> cases h
      · exact .refusesCancel ha
      · exact .marks ha
    split at hq
    · next r hm =>
      split at hq <;> cases hq <;> cases h
      · exact .refusesCancel ha
      · next hrev => exact .marked ha (hm.trans (congrArg some (not_not.mp hrev)))
    · cases hq; cases h; exact .notRunning ha
  case acknowledge ack after =>
    split at h
    · cases after <;> cases h <;> constructor <;> assumption
    · cases h; constructor; assumption
  case report t unmark =>
    cases unmark with
    | none =>
      cases hok : env.sendOk <;> simp only [hok] at h <;> cases h <;> constructor <;> simp [hok]
    | some op => rw [ite_emit] at h; cases h; constructor
  case unmark op failed => cases failed <;> cases h <;> constructor
  case close =>
    unfold close at h
    split at h <;> cases h <;> constructor
    assumption
  case cancelContexts contexts => cases contexts <;> cases h <;> constructor
  all_goals
    repeat' split at h
    all_goals cases h <;> constructor <;> assumption

theorem working (h : workStep c env = some d) : Working env c d := by
  obtain ⟨w, c, rfl⟩ : ∃ w c', c = run c' w := ⟨c.worker, c, rfl⟩
  cases w <;> simp only [workStep, reduceCtorEq] at h
  case begin op =>
    unfold SessionOperationState.begin at h
    by_cases hc : c.operations.closed
    · simp only [if_pos hc] at h
      cases h
      exact .closed hc
    by_cases hm : c.operations.cancelled.lookup op.operationId = some op.revision
    · simp only [if_neg hc, if_pos hm] at h
      cases h
      exact .cancelled hm
    by_cases hd : operationDeadlineExceeded op env.now
    · simp only [if_neg hc, if_neg hm, if_pos hd] at h
      cases h
      exact .expired hd
    · simp only [if_neg hc, if_neg hm, if_neg hd] at h
      cases h
      exact .registered hm
  case finish op exit => rw [finish_eq] at h; cases exit <;> cases h <;> constructor
  case report t after => rw [ite_emit] at h; cases h; constructor
  case clear after => cases after <;> cases h <;> constructor
  all_goals
    try split at h
    all_goals
      cases h
      constructor <;> assumption

theorem stepping {a : Action} (h : step c a = some d) : Stepping c a d := by
  cases a with
  | connect n =>
    obtain ⟨⟨hr, hw, -⟩, rfl⟩ := ite_some_none_eq_some.mp h
    exact .connect hr hw
  | deliver op =>
    obtain ⟨hr, rfl⟩ := ite_some_none_eq_some.mp h
    rw [show c = go c .idle by rw [← hr]]
    cases op with
    | none => exact .malformed
    | some op =>
      simp only [deliver]
      split_ifs with hk hop hop
      · exact .refusesCancel hk
      · exact .cancel hk
      · exact .refuses hk
      · exact .arrive hk hop
  | receive env => exact .receive (receiving h)
  | leave =>
    obtain ⟨hr, rfl⟩ := ite_some_none_eq_some.mp h
    rw [show c = go c .idle by rw [← hr]]
    exact .leave
  | take =>
    simp only [step] at h
    split at h <;> cases h
    next op queue hw hq =>
    rw [show c = run { c with operationQueue := op :: queue } .idle by rw [← hw, ← hq]]
    exact .take
  | quit =>
    obtain ⟨⟨hw, hquit⟩, rfl⟩ := ite_some_none_eq_some.mp h
    rw [show c = run c .idle by rw [← hw]]
    exact .quit hquit
  | work env => exact .work (working h)
  | stop => cases h; exact .stop

end AnixAgent.Stream.Steps
