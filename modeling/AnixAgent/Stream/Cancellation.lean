import AnixAgent.Stream.SessionEnd

namespace AnixAgent.Stream.Cancellation

open Machine SessionOperations SessionOperationState Steps Trace Registers Handled SessionEnd
open Lib.Runs Lib.Tables Option

def Clears (observed : Nat) : Worker → Prop
  | .store terminal (.finishCancellation op) => terminal.revision = op.revision
  | .remember _ (.finishCancellation op) | .report _ (.finishCancellation op)
  | .clear (.finishCancellation op) => op.revision ≤ observed
  | _ => True

def Unmarks (observed : Nat) : Receiver → Prop
  | .acknowledge _ (.complete op _ _ (some op')) => op.revision = op'.revision
  | .store terminal (some op) => terminal.revision = op.revision
  | .remember _ (some op) | .report _ (some op) | .unmark op _ => op.revision ≤ observed
  | _ => True

structure Marked (c : Client) : Prop where
  worker : Clears c.observedRevision c.worker
  receiver : Unmarks c.observedRevision c.receiver

theorem Clears.mono {n m : Nat} {w : Worker} (h : Clears n w) (hnm : n ≤ m) : Clears m w := by
  cases w
  case store t after | remember t after | report t after | clear after =>
    cases after <;> first | exact h | exact le_trans h hnm
  all_goals exact h

theorem Unmarks.mono {n m : Nat} {r : Receiver} (h : Unmarks n r) (hnm : n ≤ m) : Unmarks m r := by
  cases r
  case acknowledge ack after =>
    cases after
    case complete op phase message unmark => cases unmark <;> exact h
    all_goals exact h
  case store t unmark | remember t unmark | report t unmark =>
    cases unmark <;> first | exact h | exact le_trans h hnm
  case unmark op failed => exact le_trans h hnm
  all_goals exact h

variable {c d : Client} {env : Env}

theorem work_clears (hi : Clears c.observedRevision c.worker) (h : Working env c d) :
    Clears d.observedRevision d.worker := by
  cases h with
  | findsCancelled => rfl
  | @stores _ t after =>
    cases after with
    | finishCancellation op => exact hi.ge.trans (Nat.le_max_right _ _)
    | _ => trivial
  | @remembers _ _ after | @reports _ _ after => cases after <;> exact hi
  | _ => trivial

theorem receive_unmarks (hi : Unmarks c.observedRevision c.receiver) (h : Receiving env c d) :
    Unmarks d.observedRevision d.receiver := by
  cases h with
  | dropped => rfl
  | @completes _ _ _ _ _ unmark | @remembers _ _ unmark => cases unmark <;> exact hi
  | @stores _ t unmark =>
    cases unmark with
    | none => trivial
    | some op => exact hi.ge.trans (Nat.le_max_right _ _)
  | reports => exact hi
  | _ => trivial

theorem step_marked {a : Action} (hi : Marked c) (h : step c a = some d) : Marked d := by
  have ho := step_observedRevision h
  cases stepping h with
  | receive h =>
    refine ⟨?_, receive_unmarks hi.receiver h⟩
    rw [(receive_receives h).worker]
    exact hi.worker.mono ho
  | work h =>
    refine ⟨work_clears hi.worker h, ?_⟩
    rw [(work_works h).receiver]
    exact hi.receiver.mono ho
  | connect => exact ⟨trivial, trivial⟩
  | take | quit => exact ⟨trivial, hi.receiver⟩
  | stop => exact ⟨hi.worker, hi.receiver⟩
  | _ => exact ⟨hi.worker, trivial⟩

/-- The session's context and the client's are live and `close` has not run. -/
def Open (c : Client) : Prop :=
  c.operations.closed = false ∧ c.sessionCancelled = false ∧ c.cancelled = false

/-- The key of the operation.cancel that the next step of the receive loop
accepts: its target is already completed, running, queued or unknown. -/
def acceptsCancel (c : Client) : Option Key :=
  match c.receiver with
  | .lookupCancel op =>
    match c.completed.lookup op.operationId with
    | some completed => if completed.revision = op.revision then some (opKey op) else none
    | none => none
  | .requestCancel op =>
    match (c.operations.requestCancel op.operationId op.revision).2 with
    | .rejected _ => none
    | _ => some (opKey op)
  | _ => none

def taken : Worker → Option Key
  | .begin op => some (opKey op)
  | _ => none

def Pending (k : Key) (c : Client) : Prop :=
  k ∈ c.operationQueue.map opKey ∨ taken c.worker = some k ∨
    c.operations.queued.lookup k.1 = some k.2 ∨
    (c.operations.running.lookup k.1).map (·.revision) = some k.2

/-- The worker is before its stale check, or in the handler, or it holds a
superseded state for the key, or none. -/
def workerYields (k : Key) (c : Client) : Bool :=
  match c.worker with
  | .checkDeadline op _ | .checkStale op _ | .finish op .abandoned =>
    opKey op != k || decide (k.2 ≤ c.observedRevision)
  | .sendApplying op _ | .checkContext op _ | .call op _ | .finish op (.failed _) => opKey op != k
  | .store terminal _ | .remember terminal _ | .report terminal _ =>
    stateKey terminal != k || terminal.phase == .superseded
  | _ => true

def cacheYields (k : Key) (c : Client) : Bool :=
  (c.completed.lookup k.1).all fun completed ↦
    completed.revision != k.2 || completed.phase == .superseded

/-- A cancel of the key that is accepted now reaches every copy of the
operation. The handler's context is only cancelled by `requestCancel`, which a
completed state in the cache keeps from being called. -/
def cancelReaches (k : Key) (c : Client) : Bool :=
  workerYields k c &&
    match c.receiver with
    | .requestCancel op => cacheYields k c &&
      ((c.operations.requestCancel op.operationId op.revision).2 != .notRunning ||
        decide (k.2 ≤ c.observedRevision))
    | _ => match c.worker with
      | .handling op _ | .finish op (.result _ _) => opKey op != k
      | _ => true

def keepsCancel (c : Client) : Bool :=
  match c.receiver with
  | .requestCancel op =>
    (c.operations.requestCancel op.operationId op.revision).2 != .recorded ||
      (c.operations.cancelled.lookup op.operationId).all fun revision ↦
        revision == op.revision || decide (revision ≤ c.observedRevision)
  | _ => true

/-- Each accepted operation.cancel of a pending operation whose deadline has not
passed reaches it, and replaces no other cancel. -/
def CancelSafe (c : Client) : Action → Prop
  | .receive _ => keepsCancel c = true ∧ ∀ k ∈ acceptsCancel c, Pending k c →
      c.operations.expired.lookup k.1 ≠ some k.2 → cancelReaches k c = true
  | _ => True

instance (c : Client) : Decidable (Open c) := inferInstanceAs (Decidable (_ ∧ _))

instance (k : Key) (c : Client) : Decidable (Pending k c) :=
  inferInstanceAs (Decidable (_ ∨ _))

instance (c : Client) (a : Action) : Decidable (CancelSafe c a) := by
  unfold CancelSafe
  split <;> infer_instance

def timely (k : Key) (c : Client) : Action → Bool
  | .receive env => match c.receiver with
    | .checkDeadline op => opKey op != k || !operationDeadlineExceeded op env.now
    | _ => true
  | .work env => match c.worker with
    | .begin op | .checkDeadline op _ => opKey op != k || !operationDeadlineExceeded op env.now
    | _ => true
  | _ => true

def willStore (k : Key) : Worker → Bool
  | .checkExpired op | .handling op _ | .finish op (.result _ _) => opKey op == k
  | .store terminal _ => stateKey terminal == k
  | _ => false

def Flagged (k : Key) (c : Client) : Prop :=
  ∃ r, c.operations.running.lookup k.1 = some r ∧ r.revision = k.2 ∧ r.cancelled = true

def WorkerCancelled (k : Key) (c : Client) : Prop :=
  match c.worker with
  | .checkExpired op => opKey op = k → c.operations.expired.lookup k.1 ≠ some k.2
  | .checkDeadline op _ | .checkStale op _ => opKey op = k → k.2 ≤ c.observedRevision
  | .sendApplying op _ | .checkContext op _ | .call op _ | .finish op (.failed _) => opKey op ≠ k
  | .handling op _ | .finish op (.result _ _) => opKey op = k → Flagged k c
  | .store terminal _ | .remember terminal _ | .report terminal _ =>
    stateKey terminal = k → terminal.phase = .superseded
  | _ => True

def ReceiverCancelled (k : Key) : Receiver → Prop
  | .acknowledge _ (.resend observed) | .resend observed =>
    stateKey observed = k → observed.phase = .superseded
  | .acknowledge _ (.complete op phase _ _) => opKey op = k → phase = .superseded
  | .store terminal _ | .remember terminal _ | .report terminal _ =>
    stateKey terminal = k → terminal.phase = .superseded
  | _ => True

def replaces (k : Key) : Receiver → Bool
  | .acknowledge _ (.complete op _ _ _) => opKey op == k
  | .store terminal _ | .remember terminal _ => stateKey terminal == k
  | .close => true
  | _ => false

structure Cancelled (k : Key) (c : Client) : Prop where
  worker : WorkerCancelled k c
  receiver : ReceiverCancelled k c.receiver
  marked : k.2 ≤ c.observedRevision ∨ c.operations.cancelled.lookup k.1 = some k.2 ∨
    willStore k c.worker = true
  cache : ∀ completed, c.completed.lookup k.1 = some completed → completed.revision = k.2 →
    completed.phase = .superseded ∨ replaces k c.receiver = true

variable {k : Key} {op : DesiredOperation}

theorem finish_flagged (hk : opKey op = k) (h : Flagged k c) : (c.operations.finish op).2 := by
  obtain ⟨r, hr, hrev, hflag⟩ := h
  subst hk
  simp only [opKey] at hr hrev
  simp [finish, hr, hrev, hflag]

theorem work_worker_cancelled (hwf : Wf c) (hopen : Open c) (ht : timely k c (.work env))
    (hi : Cancelled k c) (h : Working env c d) : WorkerCancelled k d := by
  obtain ⟨hw, -, hm, -⟩ := hi
  cases h with
  | closed hc => cases hc.symm.trans hopen.1
  | cancelled =>
    intro _ hx
    obtain ⟨_, ⟨⟩, -⟩ := hwf.expired_expiring _ _ hx
  | expired hd | late hd =>
    intro hk
    simp [timely, hk, hd] at ht
  | registered hne =>
    intro hk
    subst hk
    exact hm.resolve_right fun hm ↦ hm.elim hne (by rintro ⟨⟩)
  | findsExpired hx =>
    intro hk
    subst hk
    exact absurd (of_decide_eq_true hx) (hw rfl)
  | newer ho =>
    intro hk
    subst hk
    exact ho (hw rfl)
  | calls | fails => exact fun hk ↦ absurd hk hw
  | findsCancelled | supersedes => exact fun _ ↦ rfl
  | @ends c op =>
    intro hk
    have hop : opKey op = k := by simpa using hk
    have hflag : (c.operations.finish op).2 := finish_flagged hop (hw hop)
    rw [hflag]
    rfl
  | inTime | applies | live | dead | returns | stores | remembers => exact hw
  | _ => trivial

theorem lookup_eraseAt {t : Table String Nat} (h : t.lookup k.1 = some k.2) :
    (eraseAt t op).lookup k.1 = some k.2 ∨ k.2 = op.revision := by
  rw [eraseAt, lookup_eraseIf]
  split
  · next he => exact .inr (Option.some.inj (h.symm.trans (he.1 ▸ he.2)))
  · exact .inl h

theorem work_marked (hmarked : Marked c) (hi : Cancelled k c) (h : Working env c d) :
    k.2 ≤ d.observedRevision ∨ d.operations.cancelled.lookup k.1 = some k.2 ∨
      willStore k d.worker := by
  obtain ⟨-, -, hm, -⟩ := hi
  have hcl := hmarked.worker
  cases h with
  | findsExpired | findsCancelled | returns => exact hm
  | ends => simpa [willStore] using hm
  | stores =>
    rcases hm with ho | hm | hw
    · exact .inl (ho.trans (Nat.le_max_left _ _))
    · exact .inr (.inl hm)
    · exact .inl ((congrArg Prod.snd (beq_iff_eq.mp hw)).ge.trans (Nat.le_max_right _ _))
  | clearsCancelled =>
    rcases hm with ho | hm | hw
    · exact .inl ho
    · exact (lookup_eraseAt hm).symm.imp (fun he ↦ he.trans_le hcl) .inl
    · cases hw
  | _ => exact hm.imp_right fun hm ↦ .inl (hm.resolve_right (by rintro ⟨⟩))

theorem work_cache (hi : Cancelled k c) (h : Working env c d) {completed : ObservedState}
    (hd : d.completed.lookup k.1 = some completed) (hk : completed.revision = k.2) :
    completed.phase = .superseded ∨ replaces k d.receiver := by
  rw [(work_works h).receiver]
  rcases work_completed h hd with hc | ⟨after, hw, hid⟩
  · exact hi.cache completed hc hk
  · have hheld := hi.worker
    simp only [WorkerCancelled, hw] at hheld
    exact .inl (hheld (by simp [stateKey, hid, hk]))

theorem receive_flagged (hd : d.operations.closed = false) (h : Receiving env c d)
    (hf : Flagged k c) : Flagged k d := by
  obtain ⟨r, hr, hrev, hflag⟩ := hf
  cases h with
  | @flags c op r' hr' =>
    by_cases hid : k.1 = op.operationId
    · cases (hid ▸ hr').symm.trans hr
      exact ⟨{ r with cancelled := true }, by simp [lookup_insert_ite, hid], hrev, rfl⟩
    · exact ⟨r, by simpa [lookup_insert_ite, hid] using hr, hrev, hflag⟩
  | closes => cases hd
  | _ => exact ⟨r, hr, hrev, hflag⟩

theorem receive_worker_cancelled (hd : d.operations.closed = false) (hi : WorkerCancelled k c)
    (h : Receiving env c d) : WorkerCancelled k d := by
  have he := receive_receives h
  have hf : Flagged k c → Flagged k d := receive_flagged hd h
  have hx := he.expired k.1 k.2
  have ho := he.observed
  simp only [WorkerCancelled, he.worker] at hi ⊢
  split at hi
  · exact fun hk hd ↦ hi hk (hx hd)
  · exact fun hk ↦ (hi hk).trans ho
  · exact fun hk ↦ (hi hk).trans ho
  all_goals first | exact hi | exact fun hk ↦ hf (hi hk)

theorem receive_receiver_cancelled (hwf : Wf c) (ht : timely k c (.receive env))
    (hi : Cancelled k c) (h : Receiving env c d) : ReceiverCancelled k d.receiver := by
  obtain ⟨-, hr, -, hc⟩ := hi
  cases h with
  | completed hlook =>
    intro hk
    subst hk
    rw [← (hwf.completed_key _ _ hlook).1] at hlook
    exact (hc _ hlook rfl).resolve_right (by rintro ⟨⟩)
  | late hd =>
    intro hk
    simp [timely, hk, hd] at ht
  | dropped | ended | notRunning | supersedes => exact fun _ ↦ rfl
  | repeats | completes | stores | remembers => exact hr
  | _ => trivial

theorem receive_marked (hmarked : Marked c) (hd : d.operations.closed = false)
    (hs : CancelSafe c (.receive env)) (hi : Cancelled k c) (h : Receiving env c d) :
    k.2 ≤ d.observedRevision ∨ d.operations.cancelled.lookup k.1 = some k.2 ∨
      willStore k d.worker := by
  have he := receive_receives h
  have hun := hmarked.receiver
  have hkeep := hs.1
  rcases hi.marked with ho | hm | hw
  · exact .inl (ho.trans he.observed)
  · cases h with
    | @marks c op ha =>
      simp only [lookup_insert_ite]
      split
      · next hid =>
        have hm : c.operations.cancelled.lookup op.operationId = some k.2 := hid ▸ hm
        simp only [keepsCancel, ha, hm, all_some, bne_self_eq_false, Bool.false_or, Bool.or_eq_true,
          beq_iff_eq, decide_eq_true_eq] at hkeep
        exact hkeep.symm.imp id fun hrev ↦ .inl (by rw [hrev])
      · exact .inr (.inl hm)
    | unmarks | unmarksLast => exact (lookup_eraseAt hm).symm.imp (fun he ↦ he.trans_le hun) .inl
    | closes => cases hd
    | _ => exact .inr (.inl hm)
  · rw [he.worker]
    exact .inr (.inr hw)

theorem receive_cache (hd : d.operations.closed = false)
    (hi : Cancelled k c) (h : Receiving env c d) {completed : ObservedState}
    (hcd : d.completed.lookup k.1 = some completed) (hk : completed.revision = k.2) :
    completed.phase = .superseded ∨ replaces k d.receiver := by
  obtain ⟨-, hr, -, hc⟩ := hi
  cases h with
  | remembers =>
    rcases lookup_rememberCompleted hcd with ⟨hid, rfl⟩ | ⟨hid, hold⟩
    · exact .inl (hr (by simp [stateKey, ← hid, hk]))
    refine .inl ((hc completed hold hk).resolve_right ?_)
    simp only [replaces, stateKey, beq_iff_eq]
    rintro rfl
    exact hid rfl
  | closes => cases hd
  | closesAgain hclosed => cases hclosed.symm.trans hd
  | completes | stores => exact hc completed hcd hk
  | breaks | breaksResend | breaksReport | unmarksLast => exact .inr rfl
  | _ => exact .inl ((hc completed hcd hk).resolve_right (by rintro ⟨⟩))

theorem Cancelled.of_frame (hi : Cancelled k c) (hw : d.worker = c.worker)
    (ho : d.observedRevision = c.observedRevision) (hops : d.operations = c.operations)
    (hc : d.completed = c.completed) (hr : ReceiverCancelled k d.receiver)
    (hidle : replaces k c.receiver = false ∨ replaces k d.receiver) : Cancelled k d where
  worker := by
    have h := hi.worker
    simp only [WorkerCancelled, Flagged] at h ⊢
    rwa [hw, ho, hops]
  receiver := hr
  marked := by rw [hw, ho, hops]; exact hi.marked
  cache completed hlook hk := by
    rw [hc] at hlook
    rcases hidle with hidle | hidle
    · exact .inl ((hi.cache completed hlook hk).resolve_right (by simp [hidle]))
    · exact .inr hidle

theorem step_cancelled {a : Action} (hwf : Wf c) (hmarked : Marked c)
    (hopen : Open c) (hd : Open d) (hs : CancelSafe c a) (ht : timely k c a)
    (ha : reconnects a = false) (hi : Cancelled k c) (h : step c a = some d) : Cancelled k d := by
  cases stepping h with
  | receive h =>
    exact ⟨receive_worker_cancelled hd.1 hi.worker h, receive_receiver_cancelled hwf ht hi h,
      receive_marked hmarked hd.1 hs hi h, fun _ hcd hk ↦ receive_cache hd.1 hi h hcd hk⟩
  | work h =>
    refine ⟨work_worker_cancelled hwf hopen ht hi h, ?_, work_marked hmarked hi h,
      fun _ hcd hk ↦ work_cache hi h hcd hk⟩
    rw [(work_works h).receiver]
    exact hi.receiver
  | connect => cases ha
  | leave => exact hi.of_frame rfl rfl rfl rfl trivial (.inr rfl)
  | take | quit =>
    exact ⟨trivial, hi.receiver,
      hi.marked.imp_right fun hm ↦ .inl (hm.resolve_right (by rintro ⟨⟩)), hi.cache⟩
  | stop => exact { hi with }
  | _ => exact hi.of_frame rfl rfl rfl rfl trivial (.inl rfl)

theorem requestCancel_registered {op' : DesiredOperation} (hwf : Wf c)
    (hopen : c.operations.closed = false) (hreg : registered c.worker = some op')
    (hk : opKey op' = opKey op) : ∃ n, answer c op = .running n := by
  obtain ⟨r, hr, hrev, -⟩ := hwf.registered_running hopen op' hreg
  have hid : op'.operationId = op.operationId := congrArg Prod.fst hk
  have hrevision : op'.revision = op.revision := congrArg Prod.snd hk
  rw [hid] at hr
  rw [hrevision] at hrev
  exact ⟨r.context, by simp [answer, requestCancel, hopen, hr, hrev]⟩

theorem registered_marked (hwf : Wf c)
    (hy : workerYields k c) (hreg : registered c.worker = some op) (hk : opKey op = k) :
    k.2 ≤ c.observedRevision ∨ willStore k c.worker := by
  have hs := hwf.settled
  subst hk
  simp only [workerYields] at hy
  cases hw : c.worker <;> rw [hw] at hy hreg hs <;> cases hreg
  case finish exit =>
    cases exit
    case stale => exact .inl (hs op.revision rfl)
    all_goals simp_all [willStore]
  all_goals simp_all [willStore]

/-- A worker that yields to the key is cancelled by a marked handler run. -/
theorem cancelled_of_yields (hy : workerYields k c)
    (hexp : c.operations.expired.lookup k.1 ≠ some k.2)
    (hhandling : ∀ op n, c.worker = .handling op n → opKey op = k → Flagged k c)
    (hresult : ∀ op state err, c.worker = .finish op (.result state err) → opKey op = k →
      Flagged k c) : WorkerCancelled k c := by
  simp only [workerYields] at hy
  simp only [WorkerCancelled]
  cases hw : c.worker <;> simp only [hw] at hy ⊢
  case checkExpired => exact fun _ ↦ hexp
  case handling op n => exact hhandling op n hw
  case finish op exit =>
    cases exit with
    | result state err => exact hresult op state err hw
    | failed => exact bne_iff_ne.mp hy
    | _ => trivial
  case store | remember | report | checkDeadline | checkStale =>
    intro hk
    simpa [hk] using hy
  case sendApplying | checkContext | call => exact bne_iff_ne.mp hy

theorem requestCancel_cancelled (hwf : Wf c) (hopen : Open c)
    (hr : c.receiver = .requestCancel op) (ha : acceptsCancel c = some (opKey op))
    (hexp : c.operations.expired.lookup op.operationId ≠ some op.revision)
    (hreach : cancelReaches (opKey op) c) (h : Receiving env c d) : Cancelled (opKey op) d := by
  simp only [cancelReaches, hr, Bool.and_eq_true] at hreach
  obtain ⟨hy, hcache, hunknown⟩ := hreach
  have hcached (p : Prop) (completed) (hlook : c.completed.lookup op.operationId = some completed)
      (hk : completed.revision = op.revision) : completed.phase = .superseded ∨ p := by
    simp only [cacheYields, opKey, hlook] at hcache
    exact .inl (by simpa [hk] using hcache)
  have hworker (hne : ∀ n, answer c op ≠ .running n) : WorkerCancelled (opKey op) c := by
    have hidle : ∀ op', registered c.worker = some op' → opKey op' ≠ opKey op := fun op' hreg hk ↦
      (requestCancel_registered hwf hopen.1 hreg hk).elim hne
    exact cancelled_of_yields hy hexp (fun op' _ hw hk ↦ absurd hk (hidle op' (by rw [hw]; rfl)))
      fun op' _ _ hw hk ↦ absurd hk (hidle op' (by rw [hw]; rfl))
  cases h <;> cases hr
  case refusesCancel hans => simp [acceptsCancel, hans] at ha
  case flags hlook hrev =>
    obtain ⟨op', hop', hk⟩ := hwf.running_registered _ _ hlook
    exact ⟨cancelled_of_yields hy hexp (fun _ _ _ _ ↦ ⟨_, AList.lookup_insert _, hrev, rfl⟩)
        fun _ _ _ _ _ ↦ ⟨_, AList.lookup_insert _, hrev, rfl⟩, trivial,
      (registered_marked hwf hy hop' (hk.trans (by rw [hrev]; rfl))).imp_right .inr, hcached _⟩
  case marks hans =>
    exact ⟨hworker (by simp [hans]), trivial, .inr (.inl (AList.lookup_insert _)), hcached _⟩
  case marked hans hm => exact ⟨hworker (by simp [hans]), trivial, .inr (.inl hm), hcached _⟩
  case notRunning hans =>
    exact ⟨hworker (by simp [hans]), fun _ ↦ rfl, .inl (by simpa [hans] using hunknown), hcached _⟩

theorem lookupCancel_cancelled {completed : ObservedState} (hwf : Wf c)
    (hr : c.receiver = .lookupCancel op) (hlook : c.completed.lookup op.operationId = some completed)
    (hrev : completed.revision = op.revision)
    (hexp : c.operations.expired.lookup op.operationId ≠ some op.revision)
    (hreach : cancelReaches (opKey op) c) (h : step c (.receive env) = some d) :
    Cancelled (opKey op) d := by
  simp only [cancelReaches, hr, Bool.and_eq_true] at hreach
  obtain ⟨hy, hhandling⟩ := hreach
  have ho := (hwf.completed_key _ _ hlook).2
  rw [hrev] at ho
  simp only [step, receiveStep, hr, hlook, hrev, ne_eq, not_true_eq_false, if_false] at h
  cases h
  refine ⟨cancelled_of_yields hy hexp (fun op' n hw hk ↦ ?_) (fun op' state err hw hk ↦ ?_),
    fun _ ↦ rfl, .inl ho, fun _ _ _ ↦ .inr (by simp [replaces])⟩
  · simp [show c.worker = _ from hw, hk] at hhandling
  · simp [show c.worker = _ from hw, hk] at hhandling

theorem accept_cancelled (hwf : Wf c) (hopen : Open c) (ha : acceptsCancel c = some k)
    (hp : Pending k c) (hexp : c.operations.expired.lookup k.1 ≠ some k.2)
    (hs : CancelSafe c (.receive env)) (h : step c (.receive env) = some d) : Cancelled k d := by
  have hreach := hs.2 k ha hp hexp
  have hkey := ha
  unfold acceptsCancel at hkey
  split at hkey
  · next op hr =>
    split at hkey
    · next completed hlook =>
      split at hkey <;> cases hkey
      next hrev => exact lookupCancel_cancelled hwf hr hlook hrev hexp hreach h
    · cases hkey
  · next op hr =>
    split at hkey <;> cases hkey
    cases stepping h with
    | receive h => exact requestCancel_cancelled hwf hopen hr ha hexp hreach h
  · cases hkey

/-- The event reports or remembers the key as superseded, if it is about it at
all, and starts no handler for it. -/
def Supersedes (k : Key) : Event → Prop
  | .sent _ observed | .remembered _ observed => stateKey observed = k → observed.phase = .superseded
  | .handled op => opKey op ≠ k
  | _ => True

theorem cancelled_emitted {a : Action} {e : Event} (hi : Cancelled k c)
    (he : emitted c a = some e) : Supersedes k e := by
  obtain ⟨hw, hr, -, -⟩ := hi
  cases emits he with
  | resent | remembered | reported => exact hr
  | applying => exact fun hk ↦ absurd hk hw
  | handled | workRemembered | workReported => exact hw
  | _ => trivial

/-- From the moment a cancel of a pending operation is accepted, while the session stays open and
the deadline does not pass, the operation is only ever reported as superseded, and its handler is
not started. -/
theorem accepted_cancel_supersedes {c d e : Client} {env : Env} {k : Key}
    (hrun : Reach step CancelSafe newClient c) (hopen : Open c) (ha : acceptsCancel c = some k)
    (hp : Pending k c) (hexp : c.operations.expired.lookup k.1 ≠ some k.2)
    (hs : CancelSafe c (.receive env)) (hcd : step c (.receive env) = some d)
    (hde : Reach step (fun c a ↦ CancelSafe c a ∧ Open c ∧ timely k c a = true ∧
      reconnects a = false) d e) :
    ∀ ev ∈ since d e, Supersedes k ev := by
  have hc := hrun.steps
  have hd := accept_cancelled (reachable_wf hc) hopen ha hp hexp hs hcd
  have hdr : Reachable d := hc.trans (.one (.receive env) trivial hcd)
  refine (reach_since (I := fun c ↦ Reachable c ∧ (Open c → Cancelled k c)) hde
    ⟨hdr, fun _ ↦ hd⟩ ?_ ?_).2
  · rintro c a d ⟨hr, hi⟩ ⟨hs, ho, ht, ha⟩ h
    refine ⟨.snoc a hr trivial h, fun hd ↦ ?_⟩
    exact step_cancelled (reachable_wf hr) (hr.invariant ⟨trivial, trivial⟩
    fun _ _ _ hi _ hs ↦ step_marked hi hs) ho hd hs ht ha (hi ho) h
  · rintro c a d ev ⟨-, hi⟩ ⟨-, ho, -⟩ - he
    exact cancelled_emitted (hi ho) he

def cancelA : DesiredOperation := ⟨"a", operationCancelKind, 5, 0⟩

/-- The cancel lands after `begin` and before the worker's look at the context:
the operation is reported as failed. -/
theorem accepted_cancel_reports_failed :
    ∃ c d e, Reachable c ∧ Open c ∧ acceptsCancel c = some (opKey enableA) ∧
      Pending (opKey enableA) c ∧ c.operations.expired.lookup "a" = none ∧
      step c (.receive calm) = some d ∧
      Reach step (fun c a ↦ Open c ∧ timely (opKey enableA) c a = true ∧ reconnects a = false) d e ∧
      .acked (ackOf cancelA true "") ∈ since d e ∧
      .sent .worker (observedOf enableA .failed "context canceled" 0) ∈ since d e := by
  exact ⟨_, _, _, steps_after (.connect 0 :: delivery enableA ++ execution 4 ++
      [.deliver (some cancelA), .receive calm]) (by decide), by decide, by decide, by decide,
    by decide, step_after (by decide),
    reach_after (List.replicate 2 (.receive calm) ++ List.replicate 5 (.work calm)) (by decide),
    by decide, by decide⟩

/-- The cancel lands while the handler runs. -/
theorem accepted_cancel_supersedes_running :
    ∃ c d e, Reach step CancelSafe newClient c ∧ Open c ∧
      acceptsCancel c = some (opKey enableA) ∧ step c (.receive calm) = some d ∧
      Steps step d e ∧ (∀ ev ∈ since d e, Supersedes (opKey enableA) ev) ∧
      .sent .worker (observedOf enableA .superseded operationCancelledText 0) ∈ since d e := by
  have hc : Reach step CancelSafe newClient _ :=
    reach_after (.connect 0 :: delivery enableA ++ execution 6 ++
      [.deliver (some cancelA), .receive calm]) (by decide)
  exact ⟨_, _, _, hc, by decide, by decide, step_after (by decide),
    steps_after (List.replicate 2 (.receive calm) ++ List.replicate 6 (.work calm)) (by decide),
    accepted_cancel_supersedes hc (by decide) (by decide) (by decide) (by decide) (by decide)
      (step_after (by decide)) (reach_after _ (by decide)), by decide⟩

end AnixAgent.Stream.Cancellation
