import AnixAgent.Stream.Trace

namespace AnixAgent.Stream.Registers

open Machine SessionOperations SessionOperationState Steps Trace Lib.Runs Lib.Tables Option

def registered : Worker → Option DesiredOperation
  | .checkDeadline op _ | .checkStale op _ | .sendApplying op _ | .checkContext op _
  | .call op _ | .handling op _ | .finish op _ => some op
  | _ => none

def contextOf : Worker → Option Nat
  | .checkDeadline _ n | .checkStale _ n | .sendApplying _ n | .checkContext _ n
  | .call _ n | .handling _ n => some n
  | _ => none

def expiring : Worker → Option DesiredOperation
  | .checkExpired op | .store _ (.finishExpired op) | .remember _ (.finishExpired op)
  | .report _ (.finishExpired op) | .clear (.finishExpired op) => some op
  | _ => none

variable {id : String} {observed : ObservedState}

theorem lookup_evictCompleted {order : List String} {t : Table String ObservedState}
    (h : (evictCompleted order t).2.lookup id = some observed) : t.lookup id = some observed := by
  induction order generalizing t with
  | nil => exact h
  | cons oldest order ih =>
    simp only [evictCompleted] at h
    split at h
    · exact lookup_erase_le (ih h)
    · exact h

variable {c d : Client}

theorem lookup_rememberCompleted {terminal : ObservedState}
    (h : (rememberCompleted c terminal).completed.lookup id = some observed) :
    (id = terminal.operationId ∧ observed = terminal) ∨
      (id ≠ terminal.operationId ∧ c.completed.lookup id = some observed) := by
  have ht := lookup_evictCompleted h
  rw [lookup_insert_ite] at ht
  split at ht
  · next hid => exact .inl ⟨hid, (Option.some.inj ht).symm⟩
  · next hid => exact .inr ⟨hid, ht⟩

def settling : Worker → Option Nat
  | .remember terminal _ | .report terminal _ => some terminal.revision
  | .finish op .stale => some op.revision
  | _ => none

def receiverSettling : Receiver → Option Nat
  | .remember terminal _ | .report terminal _ => some terminal.revision
  | _ => none

structure Wf (c : Client) : Prop where
  registered_running : c.operations.closed = false → ∀ op, registered c.worker = some op →
    ∃ r, c.operations.running.lookup op.operationId = some r ∧ r.revision = op.revision ∧
      ∀ n, contextOf c.worker = some n → r.context = n
  running_registered : ∀ id r, c.operations.running.lookup id = some r →
    ∃ op, registered c.worker = some op ∧ opKey op = (id, r.revision)
  expired_expiring : ∀ id r, c.operations.expired.lookup id = some r →
    ∃ op, expiring c.worker = some op ∧ opKey op = (id, r)
  settled : ∀ r, settling c.worker = some r → r ≤ c.observedRevision
  receiver_settled : ∀ r, receiverSettling c.receiver = some r → r ≤ c.observedRevision
  completed_key : ∀ id observed, c.completed.lookup id = some observed →
    observed.operationId = id ∧ observed.revision ≤ c.observedRevision

/-- What a step of the receive loop leaves of the registers the worker relies
on: handler runs stay registered unless the session is closed, and expiry
markers are never added. -/
structure Receives (c d : Client) : Prop where
  worker : d.worker = c.worker
  nextContext : d.nextContext = c.nextContext
  observed : c.observedRevision ≤ d.observedRevision
  closed : d.operations.closed = false → c.operations.closed = false
  running : ∀ id r, d.operations.running.lookup id = some r →
    ∃ r', c.operations.running.lookup id = some r' ∧ r'.revision = r.revision ∧
      r'.context = r.context
  keeps : d.operations.closed = false → ∀ id r, c.operations.running.lookup id = some r →
    ∃ r', d.operations.running.lookup id = some r' ∧ r'.revision = r.revision ∧
      r'.context = r.context
  expired : ∀ id r, d.operations.expired.lookup id = some r →
    c.operations.expired.lookup id = some r
  completed : ∀ id observed, d.completed.lookup id = some observed →
    c.completed.lookup id = some observed ∨
      ∃ unmark, c.receiver = .remember observed unmark ∧ observed.operationId = id

theorem receives_of_same (hw : d.worker = c.worker) (hn : d.nextContext = c.nextContext)
    (ho : c.observedRevision ≤ d.observedRevision)
    (hrun : d.operations.running = c.operations.running)
    (hclosed : d.operations.closed = c.operations.closed)
    (hexp : ∀ id r, d.operations.expired.lookup id = some r →
      c.operations.expired.lookup id = some r)
    (hc : d.completed = c.completed) : Receives c d where
  worker := hw
  nextContext := hn
  observed := ho
  closed h := hclosed ▸ h
  running _ r h := ⟨r, hrun ▸ h, rfl, rfl⟩
  keeps _ _ r h := ⟨r, hrun ▸ h, rfl, rfl⟩
  expired := hexp
  completed _ _ h := .inl (hc ▸ h)

variable {env : Env}

theorem receive_receives (h : Receiving env c d) : Receives c d := by
  cases h with
  | stores => exact receives_of_same rfl rfl (Nat.le_max_left _ _) rfl rfl (fun _ _ ↦ id) rfl
  | remembers =>
    refine ⟨rfl, rfl, le_rfl, id, fun _ r h ↦ ⟨r, h, rfl, rfl⟩, fun _ _ r h ↦ ⟨r, h, rfl, rfl⟩,
      fun _ _ ↦ id, fun id observed h ↦ ?_⟩
    rcases lookup_rememberCompleted h with ⟨hid, rfl⟩ | ⟨-, hc⟩
    · exact .inr ⟨_, rfl, hid.symm⟩
    · exact .inl hc
  | flags hr =>
    refine ⟨rfl, rfl, le_rfl, id, fun id r' h ↦ ?_, fun _ id r' h ↦ ?_, fun _ _ ↦ id,
      fun _ _ ↦ .inl⟩ <;> simp only [lookup_insert_ite] at h ⊢
    · split at h
      · next hid => subst hid; cases h; exact ⟨_, hr, rfl, rfl⟩
      · exact ⟨r', h, rfl, rfl⟩
    · split
      · next hid => cases (hid ▸ hr).symm.trans h; exact ⟨_, rfl, rfl, rfl⟩
      · exact ⟨r', h, rfl, rfl⟩
  | closes =>
    refine ⟨rfl, rfl, le_rfl, ?_, ?_, ?_, ?_, fun _ _ ↦ .inl⟩ <;> simp [newSessionOperationState]
  | unmarks | unmarksLast =>
    exact receives_of_same rfl rfl le_rfl rfl rfl (fun _ _ ↦ lookup_eraseAt_le) rfl
  | _ => exact receives_of_same rfl rfl le_rfl rfl rfl (fun _ _ ↦ id) rfl

theorem receive_wf (hi : Wf c) (h : Receiving env c d) : Wf d := by
  have he := receive_receives h
  constructor
  · intro hd op hop
    rw [he.worker] at hop ⊢
    obtain ⟨r, hr, hrev, hctx⟩ := hi.registered_running (he.closed hd) op hop
    obtain ⟨r', hr', hrev', hctx'⟩ := he.keeps hd _ r hr
    exact ⟨r', hr', hrev'.trans hrev, fun n hn ↦ hctx'.trans (hctx n hn)⟩
  · intro id r hr
    obtain ⟨r', hr', hrev, -⟩ := he.running id r hr
    rw [he.worker, ← hrev]
    exact hi.running_registered id r' hr'
  · intro id r hr
    rw [he.worker]
    exact hi.expired_expiring id r (he.expired id r hr)
  · intro r hr
    rw [he.worker] at hr
    exact (hi.settled r hr).trans he.observed
  · intro r hr
    cases h with
    | stores => cases hr; exact Nat.le_max_right _ _
    | remembers => exact hi.receiver_settled r hr
    | _ => cases hr
  · intro id observed hc
    rcases he.completed id observed hc with hc | ⟨unmark, hrem, hid⟩
    · obtain ⟨hid, hle⟩ := hi.completed_key id observed hc
      exact ⟨hid, hle.trans he.observed⟩
    · exact ⟨hid, (hi.receiver_settled _ (by rw [hrem]; rfl)).trans he.observed⟩

/-- What a step of the worker leaves of the rest of the client. -/
structure Works (c d : Client) : Prop where
  receiver : d.receiver = c.receiver
  queue : d.operationQueue = c.operationQueue
  closed : d.operations.closed = c.operations.closed
  session : d.sessionCancelled = c.sessionCancelled ∧ d.cancelled = c.cancelled
  observed : c.observedRevision ≤ d.observedRevision
  contexts : d.contexts = c.contexts
  nextContext : c.nextContext ≤ d.nextContext
  working : d.worker ≠ .stopped

theorem work_works (h : Working env c d) : Works c d := by
  cases h with
  | stores => exact ⟨rfl, rfl, rfl, ⟨rfl, rfl⟩, Nat.le_max_left _ _, rfl, le_rfl, by simp⟩
  | registered => exact ⟨rfl, rfl, rfl, ⟨rfl, rfl⟩, le_rfl, rfl, Nat.le_succ _, by simp⟩
  | _ => exact ⟨rfl, rfl, rfl, ⟨rfl, rfl⟩, le_rfl, rfl, le_rfl, by simp⟩

theorem work_completed (h : Working env c d) (hd : d.completed.lookup id = some observed) :
    c.completed.lookup id = some observed ∨
      ∃ after, c.worker = .remember observed after ∧ observed.operationId = id := by
  cases h with
  | remembers =>
    rcases lookup_rememberCompleted hd with ⟨hid, rfl⟩ | ⟨-, hc⟩
    · exact .inr ⟨_, rfl, hid.symm⟩
    · exact .inl hc
  | _ => exact .inl hd

theorem work_registered (hi : Wf c) (h : Working env c d) (hd : d.operations.closed = false)
    (op : DesiredOperation) (hop : registered d.worker = some op) :
    ∃ r, d.operations.running.lookup op.operationId = some r ∧ r.revision = op.revision ∧
      ∀ n, contextOf d.worker = some n → r.context = n := by
  cases h with
  | registered => cases hop; exact ⟨_, AList.lookup_insert _, rfl, fun n ↦ Option.some.inj⟩
  | inTime | newer | applies | live | calls => exact hi.registered_running hd op hop
  | late | stale | abandons | dead | returns =>
    obtain ⟨r, hr, hrev, -⟩ := hi.registered_running hd op hop
    exact ⟨r, hr, hrev, by simp [contextOf]⟩
  | _ => cases hop

theorem work_running (hi : Wf c) (h : Working env c d)
    (id : String) (r : RunningOperation) (hr : d.operations.running.lookup id = some r) :
    ∃ op, registered d.worker = some op ∧ opKey op = (id, r.revision) := by
  have h2 := hi.running_registered id r
  cases h with
  | registered =>
    simp only [lookup_insert_ite] at hr
    split at hr
    · next hid => cases hr; exact ⟨_, rfl, by rw [opKey, hid]⟩
    · obtain ⟨_, hop, -⟩ := h2 hr
      cases hop
  | inTime | newer | applies | live | calls | late | stale | abandons | dead | returns =>
    exact h2 hr
  | fails | supersedes | letsGo | ends =>
    obtain ⟨hr, hne⟩ := lookup_finish hr
    obtain ⟨_, ⟨⟩, hk⟩ := h2 hr
    exact absurd (congrArg Prod.snd hk).symm (hne (congrArg Prod.fst hk).symm)
  | _ =>
    obtain ⟨_, hop, -⟩ := h2 hr
    cases hop

theorem work_expired (hi : Wf c) (h : Working env c d)
    (id : String) (r : Nat) (hr : d.operations.expired.lookup id = some r) :
    ∃ op, expiring d.worker = some op ∧ opKey op = (id, r) := by
  have h3 := hi.expired_expiring id r
  cases h with
  | expired =>
    simp only [lookup_insert_ite] at hr
    split at hr
    · next hid => cases hr; exact ⟨_, rfl, by rw [opKey, hid]⟩
    · obtain ⟨_, hop, -⟩ := h3 hr
      cases hop
  | findsExpired => exact h3 hr
  | findsCancelled hx =>
    obtain ⟨_, ⟨⟩, ⟨⟩⟩ := h3 hr
    simp [wasExpired, hr] at hx
  | @stores _ _ after | @remembers _ _ after | @reports _ _ after => cases after <;> exact h3 hr
  | clearsExpired =>
    obtain ⟨_, ⟨⟩, ⟨⟩⟩ := h3 (lookup_eraseAt_le hr)
    simp [finishExpired, eraseAt, lookup_eraseIf, lookup_eraseAt_le hr] at hr
  | clearsCancelled =>
    obtain ⟨_, hop, -⟩ := h3 (lookup_eraseAt_le hr)
    cases hop
  | _ =>
    obtain ⟨_, hop, -⟩ := h3 hr
    cases hop

theorem work_settled (hi : Wf c) (h : Working env c d)
    (r : Nat) (hr : settling d.worker = some r) : r ≤ d.observedRevision := by
  cases h with
  | stale ho => cases hr; exact ho
  | stores => cases hr; exact Nat.le_max_right _ _
  | supersedes | remembers => exact hi.settled r hr
  | _ => cases hr

def cancelling : Receiver → List Nat
  | .cancelContext _ n => [n]
  | .cancelContexts l => l
  | _ => []

theorem Wf.of_idle {w : Worker} (hi : Wf c) (hw : c.worker = .idle)
    (hreg : registered w = none) (hset : settling w = none) (queue : List DesiredOperation) :
    Wf { c with operationQueue := queue, worker := w } where
  registered_running _ op hop := by
    rw [hreg] at hop
    cases hop
  running_registered id r hr := by
    obtain ⟨op, hop, -⟩ := hi.running_registered id r hr
    rw [hw] at hop
    cases hop
  expired_expiring id r hr := by
    obtain ⟨op, hop, -⟩ := hi.expired_expiring id r hr
    rw [hw] at hop
    cases hop
  settled r hr := by
    rw [hset] at hr
    cases hr
  receiver_settled := hi.receiver_settled
  completed_key := hi.completed_key

theorem step_wf {a : Action} (hi : Wf c) (h : step c a = some d) : Wf d := by
  cases stepping h with
  | receive h => exact receive_wf hi h
  | work h =>
    have ho := (work_works h).observed
    refine ⟨work_registered hi h, work_running hi h, work_expired hi h, work_settled hi h,
      fun r hr ↦ ?_, fun id observed hd ↦ ?_⟩
    · rw [(work_works h).receiver] at hr
      exact (hi.receiver_settled r hr).trans ho
    · rcases work_completed h hd with hc | ⟨after, hw, hid⟩
      · obtain ⟨hid, hle⟩ := hi.completed_key id observed hc
        exact ⟨hid, hle.trans ho⟩
      · exact ⟨hid, (hi.settled _ (by rw [hw]; rfl)).trans ho⟩
  | connect =>
    exact ⟨by rintro _ _ ⟨⟩, by simp [connect, newSessionOperationState],
      by simp [connect, newSessionOperationState], by rintro _ ⟨⟩, by rintro _ ⟨⟩,
      hi.completed_key⟩
  | take => exact hi.of_idle rfl rfl rfl _
  | quit => exact hi.of_idle rfl rfl rfl _
  | stop => exact { hi with }
  | _ => exact { hi with receiver_settled := by rintro _ ⟨⟩ }

theorem reachable_wf (h : Reachable c) : Wf c :=
  h.invariant ⟨nofun, fun _ _ h ↦ by simp [newClient, newSessionOperationState] at h,
    fun _ _ h ↦ by simp [newClient, newSessionOperationState] at h, nofun, nofun,
    fun _ _ h ↦ by simp [newClient] at h⟩ fun _ _ _ hi _ hs ↦ step_wf hi hs

structure Fresh (c : Client) : Prop where
  cancelled_lt : ∀ n, c.contexts n = true → n < c.nextContext
  running_lt : ∀ id r, c.operations.running.lookup id = some r → r.context < c.nextContext
  receiver_lt : ∀ n ∈ cancelling c.receiver, n < c.nextContext

theorem receive_cancelling (h : Receiving env c d) {n : Nat} (hn : n ∈ cancelling d.receiver) :
    n ∈ cancelling c.receiver ∨ ∃ id r, c.operations.running.lookup id = some r ∧ r.context = n := by
  cases h with
  | flags hr => exact .inr ⟨_, _, hr, (List.mem_singleton.mp hn).symm⟩
  | closes =>
    obtain ⟨⟨id, r⟩, hmem, rfl⟩ := List.mem_map.mp hn
    exact .inr ⟨id, r, AList.mem_lookup_iff.mpr hmem, rfl⟩
  | cancelsNext => exact .inl (List.mem_cons_of_mem _ hn)
  | _ => cases hn

theorem receive_contexts (h : Receiving env c d) {n : Nat} (hn : d.contexts n) :
    c.contexts n ∨ n ∈ cancelling c.receiver := by
  cases h with
  | cancels | cancelsNext =>
    simp only [Function.update_apply] at hn
    split at hn
    · next hm => exact .inr (hm ▸ List.mem_cons_self)
    · exact .inl hn
  | _ => exact .inl hn

theorem work_running_lt (hi : Fresh c) (h : Working env c d)
    (id : String) (r : RunningOperation) (hr : d.operations.running.lookup id = some r) :
    r.context < d.nextContext := by
  have h2 := hi.running_lt id r
  cases h with
  | registered =>
    simp only [lookup_insert_ite] at hr
    split at hr
    · cases hr; exact Nat.lt_succ_self _
    · exact (h2 hr).trans (Nat.lt_succ_self _)
  | fails | supersedes | letsGo | ends => exact h2 (lookup_finish hr).1
  | _ => exact h2 hr

theorem step_fresh {a : Action} (hi : Fresh c) (h : step c a = some d) : Fresh d := by
  cases stepping h with
  | receive h =>
    have he := receive_receives h
    constructor
    · intro n hn
      rw [he.nextContext]
      rcases receive_contexts h hn with hn | hn
      · exact hi.cancelled_lt n hn
      · exact hi.receiver_lt n hn
    · intro id r hr
      obtain ⟨r', hr', -, hctx⟩ := he.running id r hr
      rw [he.nextContext, ← hctx]
      exact hi.running_lt id r' hr'
    · intro n hn
      rw [he.nextContext]
      rcases receive_cancelling h hn with hn | ⟨id, r, hr, rfl⟩
      · exact hi.receiver_lt n hn
      · exact hi.running_lt id r hr
  | work h =>
    have hle := (work_works h).nextContext
    refine ⟨fun n hn ↦ ?_, work_running_lt hi h, fun n hn ↦ ?_⟩
    · rw [(work_works h).contexts] at hn
      exact (hi.cancelled_lt n hn).trans_le hle
    · rw [(work_works h).receiver] at hn
      exact (hi.receiver_lt n hn).trans_le hle
  | connect =>
    exact ⟨hi.cancelled_lt, by simp [connect, newSessionOperationState], by simp [connect, cancelling]⟩
  | take | quit | stop => exact ⟨hi.cancelled_lt, hi.running_lt, hi.receiver_lt⟩
  | _ => exact ⟨hi.cancelled_lt, hi.running_lt, by simp [cancelling]⟩

theorem reachable_fresh (h : Reachable c) : Fresh c := by
  refine h.invariant ⟨?_, ?_, ?_⟩ fun _ _ _ hi _ hs ↦ step_fresh hi hs
  · exact fun n hn ↦ Bool.noConfusion hn
  · intro id r hr
    simp [newClient, newSessionOperationState] at hr
  · exact fun n hn ↦ by cases hn

end AnixAgent.Stream.Registers
