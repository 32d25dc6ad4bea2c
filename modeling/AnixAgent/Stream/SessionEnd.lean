import AnixAgent.Stream.Handled

namespace AnixAgent.Stream.SessionEnd

open Machine SessionOperations SessionOperationState Steps Trace Registers Handled
open Lib.Runs Lib.Tables

def unstarted : Worker → Option DesiredOperation
  | .begin op | .checkDeadline op _ | .checkStale op _ | .sendApplying op _
  | .checkContext op _ | .call op _ => some op
  | _ => none

def ending : Worker → Option Key
  | .checkExpired op | .handling op _ => some (opKey op)
  | .finish _ .abandoned => none
  | .finish op _ => some (opKey op)
  | .store terminal _ | .remember terminal _ | .report terminal _ => some (stateKey terminal)
  | _ => none

def Waiting (c : Client) (op : DesiredOperation) : Prop :=
  (op ∈ c.operationQueue ∨ unstarted c.worker = some op) ∧ ending c.worker ≠ some (opKey op)

instance (c : Client) (op : DesiredOperation) : Decidable (Waiting c op) :=
  inferInstanceAs (Decidable (_ ∧ _))

def named (log : List Event) (k : Key) : Bool :=
  log.any fun
    | .cancelArrived op => opKey op == k
    | _ => false

def recorded : Event → Option ObservedState
  | .remembered _ terminal | .stored _ terminal => some terminal
  | _ => none

/-- The worker's next step ends an operation that has not started because its
session ended: `begin` answers cancelled, or the operation's context is. -/
def endsWithSession (c : Client) (env : Env) : Bool :=
  match c.worker with
  | .begin _ => true
  | .checkContext op context =>
    contextErr c op context env == some .canceled && !operationDeadlineExceeded op env.now
  | _ => false

/-- In a closed session the worker takes no operation up that has not started,
and fails none for its cancelled context, unless an operation.cancel names it. -/
def Spares (c : Client) : Action → Prop
  | .work env => c.operations.closed = true → endsWithSession c env = true →
      (unstarted c.worker).all (fun op ↦ named c.log (opKey op)) = true
  | _ => True

instance (c : Client) (a : Action) : Decidable (Spares c a) := by
  unfold Spares
  split <;> infer_instance

def Closing (c : Client) : Prop :=
  c.operations.closed = true ∧
    match c.receiver with
    | .cancelContexts _ | .cancelSession | .waitWorker | .offline => True
    | _ => False

def reconnects : Action → Bool
  | .connect _ => true
  | _ => false

variable {c d : Client} {env : Env} {a : Action}

theorem step_closing (hc : Closing c) (ha : reconnects a = false)
    (h : step c a = some d) : Closing d := by
  obtain ⟨hclosed, hr⟩ := hc
  cases stepping h with
  | work h =>
    refine ⟨(work_works h).closed.trans hclosed, ?_⟩
    rw [(work_works h).receiver]
    exact hr
  | receive h =>
    cases h with
    | cancelsNext | cancelsAll | cancelsSession | leaves => exact ⟨hclosed, trivial⟩
    | _ => exact hr.elim
  | connect => cases ha
  | take | quit | stop => exact ⟨hclosed, hr⟩
  | _ => exact hr.elim

theorem closing_emitted {e : Event} (hc : Closing c)
    (h : step c a = some d) (he : emitted c a = some e) : ∃ env, a = .work env := by
  obtain ⟨-, hr⟩ := hc
  cases stepping h with
  | work => exact ⟨_, rfl⟩
  | receive h =>
    cases h with
    | cancelsNext | cancelsAll | cancelsSession | leaves => cases he
    | _ => exact hr.elim
  | connect | take | quit | stop => cases he
  | _ => exact hr.elim

def Handles (k : Key) (events : List Event) : Prop := ∃ op, opKey op = k ∧ .handled op ∈ events

def OwnEnd (k : Key) (events : List Event) (terminal : ObservedState) : Prop :=
  terminal.message = operationDeadlineText ∨ terminal.message = becameStaleText ∨ Handles k events

variable {k : Key} {events events' : List Event}

theorem Handles.mono (h : Handles k events) (hsub : events ⊆ events') : Handles k events' := by
  obtain ⟨op, hop, hmem⟩ := h
  exact ⟨op, hop, hsub hmem⟩

theorem OwnEnd.mono {terminal : ObservedState}
    (h : OwnEnd k events terminal) (hsub : events ⊆ events') : OwnEnd k events' terminal :=
  h.imp_right (Or.imp_right fun hh ↦ hh.mono hsub)

def Owned (k : Key) (events : List Event) : Worker → Prop
  | .checkExpired op => opKey op ≠ k
  | .handling op _ | .finish op (.result _ _) => opKey op = k → Handles k events
  | .finish op (.failed message) => opKey op = k → message = operationDeadlineText
  | .store terminal _ | .remember terminal _ | .report terminal _ =>
    stateKey terminal = k → OwnEnd k events terminal
  | _ => True

theorem Owned.mono {w : Worker} (h : Owned k events w)
    (hsub : events ⊆ events') : Owned k events' w := by
  cases w
  case finish op exit => cases exit <;> first | exact h | exact fun hk ↦ (h hk).mono hsub
  all_goals first | exact h | exact fun hk ↦ (h hk).mono hsub

/-- `s` is the state right after `close`: since then the worker ended the
operation only for reasons of its own. -/
structure Spared (k : Key) (s c : Client) : Prop where
  closing : Closing c
  unnamed : named c.log k = false
  log : c.log = since s c ++ s.log
  worker : Owned k (since s c) c.worker
  events : ∀ e ∈ since s c, ∀ terminal, recorded e = some terminal → stateKey terminal = k →
    OwnEnd k (since s c) terminal

theorem Owned.of_not_ending {w : Worker} (h : ending w ≠ some k) : Owned k events w := by
  cases w with
  | checkExpired => exact fun hk ↦ h (congrArg some hk)
  | finish op exit =>
    cases exit with
    | failed | result => exact fun hk ↦ absurd (congrArg some hk) h
    | stale | abandoned => trivial
  | handling | store | remember | report => exact fun hk ↦ absurd (congrArg some hk) h
  | _ => trivial

theorem work_owned (hclosed : c.operations.closed = true) (hn : named c.log k = false)
    (hi : Owned k events c.worker) (hs : Spares c (.work env)) (h : Working env c d) :
    Owned k ((emitted c (.work env)).toList ++ events) d.worker := by
  have hs' : endsWithSession c env = true → ∀ op, unstarted c.worker = some op → opKey op ≠ k := by
    rintro he op hop rfl
    have hall := hs hclosed he
    rw [hop, Option.all_some, hn] at hall
    cases hall
  cases h with
  | closed | cancelled | expired => exact hs' rfl _ rfl
  | findsExpired | findsCancelled => exact fun hk ↦ absurd hk hi
  | late => exact fun _ ↦ rfl
  | @dead _ _ _ err he =>
    intro hk
    split
    · rfl
    next hlive =>
    obtain ⟨herr, hd⟩ := not_or.mp hlive
    refine absurd hk (hs' ?_ _ rfl)
    cases err with
    | canceled => exact Bool.and_eq_true_iff.mpr ⟨beq_iff_eq.mpr he, by simpa using hd⟩
    | deadlineExceeded => exact absurd rfl herr
  | calls => exact fun hk ↦ ⟨_, hk, List.mem_cons_self⟩
  | returns => exact hi
  | fails => exact fun hk ↦ .inl (hi hk)
  | supersedes => exact fun _ ↦ .inr (.inl rfl)
  | ends => exact fun hk ↦ .inr (.inr (hi (by simpa using hk)))
  | stores | remembers => exact fun hk ↦ (hi hk).mono (List.subset_append_right _ _)
  | _ => trivial

theorem named_work (h : Working env c d) : named d.log k = named c.log k := by
  cases h with
  | reports => dsimp only; split <;> rfl
  | _ => rfl

theorem recorded_work {e : Event} {terminal : ObservedState} (hi : Owned k events c.worker)
    (he : emitted c (.work env) = some e) (hr : recorded e = some terminal)
    (hk : stateKey terminal = k) : OwnEnd k events terminal := by
  cases emits he with
  | workStored | workRemembered => cases hr; exact hi hk
  | _ => cases hr

theorem step_spared {s : Client} (hi : Spared k s c)
    (hs : Spares c a) (ha : reconnects a = false) (h : step c a = some d) : Spared k s d := by
  have hnew : since s d = (emitted c a).toList ++ since s c :=
    since_eq (by rw [step_log h, List.append_assoc, ← hi.log])
  have hsub : since s c ⊆ since s d := hnew ▸ List.subset_append_right _ _
  refine ⟨step_closing hi.closing ha h, ?_, ?_, ?_, ?_⟩
  · cases he : emitted c a with
    | none =>
      rw [step_log h, he]
      exact hi.unnamed
    | some e =>
      obtain ⟨env, rfl⟩ := closing_emitted hi.closing h he
      rw [named_work (working h)]
      exact hi.unnamed
  · rw [hnew, List.append_assoc, ← hi.log]
    exact step_log h
  · cases stepping h with
    | work h =>
      rw [hnew]
      exact work_owned hi.closing.1 hi.unnamed hi.worker hs h
    | receive h =>
      rw [(receive_receives h).worker]
      exact hi.worker.mono hsub
    | connect => cases ha
    | take | quit => trivial
    | _ => exact hi.worker.mono hsub
  · intro e he terminal hr hk
    rw [hnew, List.mem_append, Option.mem_toList] at he
    rcases he with he | he
    · obtain ⟨env, rfl⟩ := closing_emitted hi.closing h he
      exact (recorded_work hi.worker he hr hk).mono hsub
    · exact (hi.events e he terminal hr hk).mono hsub

variable {op : DesiredOperation}

theorem close_spared (hclose : c.receiver = .close) (h : step c (.receive env) = some d)
    (hw : Waiting c op) (hn : named c.log (opKey op) = false) : Spared (opKey op) d d := by
  simp only [step, receiveStep, hclose] at h
  cases h
  refine ⟨⟨?_, trivial⟩, hn, ?_, ?_, ?_⟩
  · unfold close
    cases hc : c.operations.closed <;> simp [hc]
  · simp [since_self]
  · exact .of_not_ending hw.2
  · simp [since_self]

structure Deliverable (op : DesiredOperation) : Prop where
  kind_ne_cancel : op.kind ≠ operationCancelKind
  operationId_ne : op.operationId ≠ ""
  kind_ne : op.kind ≠ ""
  revision_ne : op.revision ≠ 0

def accepting : Receiver → Option DesiredOperation
  | .lookup op | .checkDeadline op | .checkStale op | .checkAdmission op | .enqueue op
  | .push op => some op
  | _ => none

structure Carries (P : DesiredOperation → Prop) (c : Client) : Prop where
  receiver : ∀ op, accepting c.receiver = some op → P op
  queue : ∀ op ∈ c.operationQueue, P op
  worker : ∀ op, unstarted c.worker = some op → P op

theorem receive_carries {P : DesiredOperation → Prop} (hi : Carries P c) (h : Receiving env c d) :
    Carries P d := by
  obtain ⟨h1, h2, h3⟩ := hi
  cases h with
  | unknown | inTime | newer | admits | queues => exact ⟨h1, h2, h3⟩
  | pushes =>
    refine ⟨by rintro _ ⟨⟩, fun op hop ↦ ?_, h3⟩
    rcases List.mem_append.mp hop with hop | hop
    · exact h2 op hop
    · exact h1 op (congrArg some (List.mem_singleton.mp hop).symm)
  | _ => exact ⟨by rintro _ ⟨⟩, h2, h3⟩

theorem work_unstarted (h : Working env c d) (hop : unstarted d.worker = some op) :
    unstarted c.worker = some op := by
  cases h with
  | registered | inTime | newer | applies | live => exact hop
  | _ => cases hop

theorem step_carries {P : DesiredOperation → Prop} (hi : Carries P c) (h : step c a = some d)
    (hd : ∀ op, a = .deliver (some op) → Deliverable op → P op) : Carries P d := by
  cases stepping h with
  | receive h => exact receive_carries hi h
  | work h =>
    refine ⟨?_, ?_, fun op hop ↦ hi.worker op (work_unstarted h hop)⟩
    · rw [(work_works h).receiver]; exact hi.receiver
    · rw [(work_works h).queue]; exact hi.queue
  | arrive hk hop =>
    push Not at hop
    refine ⟨?_, hi.queue, hi.worker⟩
    rintro _ ⟨⟩
    exact hd _ rfl ⟨hk, hop.1, hop.2.1, hop.2.2⟩
  | connect => exact ⟨by rintro _ ⟨⟩, by simp [connect], by rintro _ ⟨⟩⟩
  | take =>
    refine ⟨hi.receiver, fun op hop ↦ hi.queue op (List.mem_cons_of_mem _ hop), ?_⟩
    rintro _ ⟨⟩
    exact hi.queue _ List.mem_cons_self
  | quit | stop => exact ⟨hi.receiver, hi.queue, hi.worker⟩
  | _ => exact ⟨by rintro _ ⟨⟩, hi.queue, hi.worker⟩

theorem reachable_checked (h : Reachable c) : Carries Deliverable c :=
  h.invariant ⟨nofun, nofun, nofun⟩ fun _ _ _ hi _ hs ↦ step_carries hi hs fun _ _ ↦ id

theorem calm_deadline (op : DesiredOperation) : operationDeadlineExceeded op calm.now = false := by
  simp only [operationDeadlineExceeded, Bool.and_eq_false_iff, decide_eq_false_iff_not]
  have hnow : calm.now = 0 := rfl
  omega

abbrev admitted (c : Client) (op : DesiredOperation) : Client := { c with
  desiredRevision := storeMax c.desiredRevision op.revision
  operations := { newSessionOperationState with
    queued := (∅ : Table String Nat).insert op.operationId op.revision }
  operationQueue := [op]
  log := .acked (ackOf op true "") :: .arrived op :: c.log }

theorem calm_accepts (hop : Deliverable op) (hr : c.receiver = .idle)
    (hops : c.operations = newSessionOperationState) (hq : c.operationQueue = [])
    (ho : c.observedRevision < op.revision) (hc : c.completed.lookup op.operationId = none) :
    exec step c (delivery op) = some (admitted c op) := by
  have hd := calm_deadline op
  simp only [calm] at hd
  have hstale : ¬ op.revision ≤ c.observedRevision := by omega
  simp only [admitted, delivery, List.replicate, calm, exec, step, hr, ↓reduceIte, deliver,
    hop.kind_ne_cancel, hop.operationId_ne, hop.kind_ne, hop.revision_ne, or_self, emit, hops,
    newSessionOperationState, hq, receiveStep, ne_eq, ite_not, queue,
    operationQueueSize, afterAck, Bool.not_true, Option.bind_fun_some, Option.bind_some, hc, hd,
    Bool.false_eq_true, hstale, AList.lookup_empty, reduceCtorEq, AList.insert_empty,
    List.length_nil, Nat.zero_lt_succ, List.nil_append]

theorem calm_handles (hw : c.worker = .idle) (hq : c.operationQueue = [op])
    (hclosed : c.operations.closed = false) (hmark : c.operations.cancelled = ∅)
    (ho : c.observedRevision < op.revision) (hfresh : c.contexts c.nextContext = false)
    (hsession : c.sessionCancelled = false) (hcancelled : c.cancelled = false) :
    ∃ d, exec step c (execution 6) = some d ∧
      d.log = .handled op :: .sent .worker (observedOf op .applying "" 0) :: c.log := by
  have hd := calm_deadline op
  simp only [calm] at hd
  have hstale : ¬ op.revision ≤ c.observedRevision := by omega
  simp only [execution, List.replicate, calm, exec, step, hw, hq, hcancelled, hsession, workStep,
    begin, ↓reduceIte, emit, contextErr, Bool.and_false, Bool.false_eq_true,
    Bool.or_eq_true, Option.bind_fun_some, Option.bind_some, hclosed, hmark, AList.lookup_empty,
    reduceCtorEq, hd, hstale, hfresh, or_self, Option.some.injEq, exists_eq_left']

theorem redelivery_handles (hop : Deliverable op)
    (hr : c.receiver = .offline) (hw : c.worker = .stopped) (hcancelled : c.cancelled = false)
    (hfresh : c.contexts c.nextContext = false) (ho : c.observedRevision < op.revision)
    (hc : c.completed.lookup op.operationId = none) :
    ∃ d, Steps step c d ∧ .handled op ∈ since c d := by
  have hconnect : step c (.connect 0) = some (connect c 0) := if_pos ⟨hr, hw, hcancelled⟩
  have haccept := calm_accepts (c := connect c 0) hop rfl rfl rfl ho hc
  obtain ⟨d, hd, hlog⟩ := calm_handles (c := admitted (connect c 0) op) rfl rfl rfl rfl ho hfresh
    rfl hcancelled
  refine ⟨d, ((Reach.one _ trivial hconnect).trans (steps_of_exec haccept)).trans
    (steps_of_exec hd), ?_⟩
  have hnew : d.log = [.handled op, .sent .worker (observedOf op .applying "" 0),
      .acked (ackOf op true ""), .arrived op] ++ c.log := hlog
  rw [since_eq hnew]
  exact List.mem_cons_self

theorem unstarted_or_queued_deliverable (h : Reachable c) (hw : Waiting c op) : Deliverable op := by
  have hc := reachable_checked h
  rcases hw.1 with hq | hu
  · exact hc.queue op hq
  · exact hc.worker op hu

end AnixAgent.Stream.SessionEnd
