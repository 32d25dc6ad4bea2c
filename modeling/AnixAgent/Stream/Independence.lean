import AnixAgent.Stream.Pipeline

namespace AnixAgent.Stream.Independence

open Machine SessionOperations SessionOperationState Steps Trace Registers Handled SessionEnd
open Cancellation Pipeline List Option Lib.Runs Lib.Tables

def onTime (k : Key) (c : Client) (a : Action) : Bool :=
  timely k c a &&
    match a, c.worker with
    | .work env, .checkContext op _ =>
      opKey op != k || !(decide (0 < op.deadlineUnixMs) && env.timer)
    | _, _ => true

def receiverTouches : Receiver → Option Key
  | .lookupCancel op | .requestCancel op | .cancelContext op _
  | .acknowledge _ (.stale op) | .acknowledge _ (.complete op _ _ _) => some (opKey op)
  | .acknowledge _ (.resend observed) | .resend observed => some (stateKey observed)
  | .store terminal _ | .remember terminal _ | .report terminal _ => some (stateKey terminal)
  | _ => none

def WorkerServes (k : Key) : Worker → Prop
  | .checkExpired op | .finish op (.failed _) | .finish op .stale | .finish op .abandoned =>
    opKey op ≠ k
  | .store terminal _ | .remember terminal _ | .report terminal _ =>
    stateKey terminal = k → terminal.phase ≠ .superseded
  | _ => True

def ackKey (ack : OperationAck) : Option Key :=
  if ack.accepted then some (ack.operationId, ack.revision) else none

def acknowledges : Receiver → Option Key
  | .acknowledge ack _ => ackKey ack
  | _ => none

def Accepted (s : Client) (k : Key) (c : Client) : Prop :=
  (∃ ack, .acked ack ∈ since s c ∧ ackKey ack = some k) ∨ acknowledges c.receiver = some k

def NotSuperseded (k : Key) : Event → Prop
  | .sent _ observed | .remembered _ observed => stateKey observed = k → observed.phase ≠ .superseded
  | _ => True

structure Served (s : Client) (k : Key) (c : Client) : Prop where
  receiver : receiverTouches c.receiver ≠ some k
  stored : ∀ t, .stored .receiver t ∈ since s c → stateKey t ≠ k
  unmarked : c.operations.cancelled.lookup k.1 ≠ some k.2
  unexpired : c.operations.expired.lookup k.1 ≠ some k.2
  unflagged : ∀ r, c.operations.running.lookup k.1 = some r → r.revision = k.2 →
    r.cancelled = false
  contexts : ∀ op n, registered c.worker = some op → opKey op = k →
    contextOf c.worker = some n → c.contexts n = false ∧ n ∉ cancelling c.receiver
  worker : WorkerServes k c.worker
  accepted : Accepted s k c → ∃ op, opKey op = k ∧
    (.handled op ∈ since s c ∨ op ∈ c.operationQueue ∨ unstarted c.worker = some op)
  events : ∀ e ∈ since s c, NotSuperseded k e

/-- No cancel names the key, and the receive loop completed no other operation
of a revision as high. -/
structure Undisturbed (s : Client) (k : Key) (c : Client) : Prop where
  unnamed : named (since s c) k = false
  below : ∀ t, .stored .receiver t ∈ since s c → stateKey t ≠ k → t.revision < k.2

variable {op : DesiredOperation} {n : Nat} {a : Action}

section

variable {s c d : Client} {env : Env} {k : Key}

theorem served_fresh (hs : Session s c) (hu : Undisturbed s k c) (hi : Served s k c)
    (hk : k ∈ behind c ∨ ∃ op, unstarted c.worker = some op ∧ opKey op = k) :
    c.observedRevision < k.2 :=
  hs.fresh hk fun t ht ↦ hu.below t ht (hi.stored t ht)

theorem work_advances (hs : Session s c) (hu : Undisturbed s k c) (hi : Served s k c)
    (ht : onTime k c (.work env)) (hsend : env.sendOk)
    (hop : unstarted c.worker = some op) (hk : opKey op = k) (h : Working env c d) :
    unstarted d.worker = some op ∨
      (emitted c (.work env) = some (.handled op) ∧ ∃ n, d.worker = .handling op n) := by
  have hfresh := served_fresh hs hu hi (.inr ⟨op, hop, hk⟩)
  obtain ⟨hclosed, hsession, hcancelled⟩ := hs.isOpen
  subst hk
  cases h with
  | closed hc => cases hc.symm.trans hclosed
  | cancelled hm => cases hop; exact absurd hm hi.unmarked
  | expired hd | late hd => cases hop; simp [onTime, timely, hd] at ht
  | stale ho => cases hop; exact absurd ho (Nat.not_le.mpr hfresh)
  | abandons hok => exact absurd hsend hok
  | dead he =>
    cases hop
    have htimer : (decide (0 < op.deadlineUnixMs) && env.timer) = false := by
      simpa only [onTime, timely, Bool.true_and, bne_self_eq_false, Bool.false_or,
        Bool.not_eq_true'] using ht
    have hctx := (hi.contexts op _ rfl rfl rfl).1
    dsimp only at hctx hsession hcancelled
    simp [contextErr, htimer, hctx, hsession, hcancelled] at he
  | registered | inTime | newer | applies | live => exact .inl hop
  | calls => cases hop; exact .inr ⟨rfl, _, rfl⟩
  | _ => cases hop

theorem finish_unflagged (hi : Served s k c) (hk : opKey op = k) :
    (c.operations.finish op).2 = false := by
  subst hk
  have hf := hi.unflagged
  simp only [opKey] at hf
  unfold finish
  cases hr : c.operations.running.lookup op.operationId with
  | none => rfl
  | some r =>
    by_cases hrev : r.revision = op.revision
    · simp [hrev, hf r hr hrev]
    · simp [hrev]

theorem work_serves (hs : Session s c) (hu : Undisturbed s k c) (hi : Served s k c)
    (ht : onTime k c (.work env)) (hsend : env.sendOk)
    (h : Working env c d) : WorkerServes k d.worker := by
  by_cases hun : ∃ op, unstarted c.worker = some op ∧ opKey op = k
  · obtain ⟨op, hop, hk⟩ := hun
    rcases work_advances hs hu hi ht hsend hop hk h with hd | ⟨-, n, hd⟩
    · cases hw : d.worker <;> rw [hw] at hd <;> cases hd <;> trivial
    · rw [hd]; trivial
  have hw := hi.worker
  cases h with
  | closed | cancelled | expired | late | stale | abandons | dead =>
    exact fun hk ↦ hun ⟨_, rfl, hk⟩
  | findsExpired | findsCancelled | fails | supersedes => exact fun hk ↦ absurd hk hw
  | @ends c op state err =>
    intro hk
    have hflag := finish_unflagged hi (show opKey op = k by simpa using hk)
    dsimp only at hflag
    simp only [hflag, handlerTerminal, Bool.false_eq_true, if_false]
    split
    · rintro ⟨⟩
    · cases err <;> rintro ⟨⟩
  | stores | remembers => exact hw
  | _ => trivial

theorem receive_untouched (hwf : Wf c) (hs : Session s c) (hu : Undisturbed s k c)
    (hi : Served s k c) (ht : onTime k c (.receive env))
    (h : Receiving env c d) : receiverTouches d.receiver ≠ some k := by
  have hr := hi.receiver
  have hfresh : ∀ {op}, accepting c.receiver = some op → opKey op = k →
      c.observedRevision < k.2 := fun hop hk ↦
    served_fresh hs hu hi (.inl (by simp [behind, hop, hk]))
  cases h with
  | completed hlook hrev =>
    obtain ⟨hid, hle⟩ := hwf.completed_key _ _ hlook
    rintro ⟨⟩
    exact absurd hle (Nat.not_le.mpr (hfresh rfl (Prod.ext hid.symm hrev.symm)))
  | late hd =>
    rintro ⟨⟩
    simp [onTime, timely, hd] at ht
  | stale ho =>
    rintro ⟨⟩
    exact absurd ho (Nat.not_le.mpr (hfresh rfl rfl))
  | @dropped c op hq =>
    rintro ⟨⟩
    have hm : c.operations.cancelled.lookup op.operationId ≠ some op.revision := hi.unmarked
    have hx : c.operations.expired.lookup op.operationId ≠ some op.revision := hi.unexpired
    have hclosed : c.operations.closed = false := hs.isOpen.1
    simp [queue, hclosed, hm, hx] at hq
  | ended | seeks | notRunning | flags | repeats | supersedes | completes | stores | remembers =>
    exact hr
  | _ => rintro ⟨⟩

theorem receive_unmarked (hi : Served s k c) (h : Receiving env c d) :
    d.operations.cancelled.lookup k.1 ≠ some k.2 ∧
      ∀ r, d.operations.running.lookup k.1 = some r → r.revision = k.2 → r.cancelled = false := by
  have hr := hi.receiver
  have hm := hi.unmarked
  have hf := hi.unflagged
  cases h with
  | flags _ hop =>
    refine ⟨hm, fun r hlook hrev ↦ ?_⟩
    simp only [lookup_insert_ite] at hlook
    split at hlook
    · next hid =>
      cases hlook
      exact absurd (congrArg some (Prod.ext hid.symm (hop.symm.trans hrev))) hr
    · exact hf r hlook hrev
  | marks =>
    refine ⟨?_, hf⟩
    simp only [lookup_insert_ite]
    split
    · next hid => exact fun he ↦ hr (congrArg some (Prod.ext hid.symm (Option.some.inj he)))
    · exact hm
  | unmarks | unmarksLast => exact ⟨fun he ↦ hm (lookup_eraseAt_le he), hf⟩
  | closes => constructor <;> simp [newSessionOperationState]
  | _ => exact ⟨hm, hf⟩

theorem receive_contexts_served (hwf : Wf c) (hs : Session s c) (hi : Served s k c)
    (h : Receiving env c d) (hreg : registered d.worker = some op) (hk : opKey op = k)
    (hn : contextOf d.worker = some n) : d.contexts n = false ∧ n ∉ cancelling d.receiver := by
  rw [(receive_receives h).worker] at hreg hn
  obtain ⟨hctx, hnot⟩ := hi.contexts op n hreg hk hn
  constructor
  · by_contra hd
    rcases receive_contexts h (by simpa using hd) with hc | hc
    · rw [hctx] at hc; cases hc
    · exact hnot hc
  · intro hd
    have hserving := hs.serving
    cases h with
    | flags hlook hrev =>
      obtain ⟨op', hop', hk'⟩ := hwf.running_registered _ _ hlook
      cases hreg.symm.trans hop'
      rw [hrev] at hk'
      exact hi.receiver (congrArg some (hk'.symm.trans hk))
    | closes | cancelsNext => cases hserving
    | _ => cases hd

theorem work_unmarked (hi : Served s k c) (ht : onTime k c (.work env))
    (h : Working env c d) : d.operations.cancelled.lookup k.1 ≠ some k.2 ∧
      d.operations.expired.lookup k.1 ≠ some k.2 ∧
      ∀ r, d.operations.running.lookup k.1 = some r → r.revision = k.2 → r.cancelled = false := by
  have hm := hi.unmarked
  have hx := hi.unexpired
  have hf := hi.unflagged
  cases h with
  | @expired c op hd =>
    refine ⟨hm, ?_, hf⟩
    simp only [lookup_insert_ite]
    split
    · next hid =>
      intro hrev
      have hk : opKey op = k := Prod.ext hid.symm (Option.some.inj hrev)
      simp [onTime, timely, hd, hk] at ht
    · exact hx
  | registered =>
    refine ⟨hm, hx, fun r hr ↦ ?_⟩
    simp only [lookup_insert_ite] at hr
    split at hr
    · cases hr; exact fun _ ↦ rfl
    · exact hf r hr
  | fails | supersedes | letsGo | ends => exact ⟨hm, hx, fun r hr ↦ hf r (lookup_finish hr).1⟩
  | clearsExpired => exact ⟨hm, fun he ↦ hx (lookup_eraseAt_le he), hf⟩
  | clearsCancelled =>
    exact ⟨fun he ↦ hm (lookup_eraseAt_le he), fun he ↦ hx (lookup_eraseAt_le he), hf⟩
  | _ => exact ⟨hm, hx, hf⟩

theorem work_contexts_served (hfresh : Fresh c) (hi : Served s k c) (h : Working env c d)
    (hreg : registered d.worker = some op) (hk : opKey op = k) (hn : contextOf d.worker = some n) :
    d.contexts n = false ∧ n ∉ cancelling d.receiver := by
  rw [(work_works h).contexts, (work_works h).receiver]
  cases h with
  | registered =>
    cases hn
    refine ⟨?_, fun hmem ↦ absurd (hfresh.receiver_lt _ hmem) (lt_irrefl _)⟩
    by_contra hctx
    exact absurd (hfresh.cancelled_lt _ (by simpa using hctx)) (lt_irrefl _)
  | inTime | newer | applies | live | calls => exact hi.contexts op n hreg hk hn
  | _ => cases hn

theorem served_emitted {e : Event} (hi : Served s k c) (he : emitted c a = some e) :
    NotSuperseded k e := by
  cases emits he with
  | resent | remembered | reported => exact fun hk ↦ absurd (congrArg some hk) hi.receiver
  | applying => rintro - ⟨⟩
  | workRemembered | workReported => exact hi.worker
  | _ => trivial

theorem receive_queue (h : Receiving env c d) : c.operationQueue ⊆ d.operationQueue := by
  cases h with
  | pushes => exact subset_append_left _ _
  | _ => exact Subset.refl _

theorem queued_kept (ha : keepsOpen a) (hop : op ∈ c.operationQueue) (h : step c a = some d) :
    op ∈ d.operationQueue ∨ unstarted d.worker = some op := by
  cases stepping h with
  | receive h => exact .inl (receive_queue h hop)
  | work h => rw [(work_works h).queue]; exact .inl hop
  | take =>
    rcases mem_cons.mp hop with rfl | hop
    · exact .inr rfl
    · exact .inl hop
  | connect => cases ha
  | _ => exact .inl hop

theorem unstarted_kept (ha : keepsOpen a) (hs : Session s c) (hu : Undisturbed s k c)
    (hi : Served s k c) (ht : onTime k c a) (hop : unstarted c.worker = some op)
    (hk : opKey op = k) (h : step c a = some d) :
    unstarted d.worker = some op ∨ emitted c a = some (.handled op) := by
  cases stepping h with
  | receive h => rw [(receive_receives h).worker]; exact .inl hop
  | work h => exact (work_advances hs hu hi ht ha hop hk h).imp_right And.left
  | take | quit => cases hop
  | connect => cases ha
  | _ => exact .inl hop

theorem step_acknowledges (ha : keepsOpen a) (hwf : Wf c) (hs : Session s c)
    (hu : Undisturbed s k c) (hi : Served s k c) (ht : onTime k c a)
    (h : step c a = some d) (hd : acknowledges d.receiver = some k) :
    acknowledges c.receiver = some k ∨ ∃ op, opKey op = k ∧ op ∈ d.operationQueue := by
  cases stepping h with
  | receive h =>
    have huntouched := receive_untouched hwf hs hu hi ht h
    cases h with
    | pushes => exact .inr ⟨_, Option.some.inj hd, mem_append_right _ mem_cons_self⟩
    | completed hlook hrev =>
      have hkey : stateKey _ = opKey _ := Prod.ext (hwf.completed_key _ _ hlook).1 hrev
      exact absurd ((congrArg some hkey).trans hd) huntouched
    | late | stale | dropped => exact absurd hd huntouched
    | ended | notRunning | marks | marked | cancels => exact absurd hd hi.receiver
    | _ => cases hd
  | work h => rw [(work_works h).receiver] at hd; exact .inl hd
  | take | quit => exact .inl hd
  | connect | stop => cases ha
  | _ => cases hd

theorem step_accepted (ha : keepsOpen a) (hwf : Wf c) (hs : Session s c)
    (hu : Undisturbed s k c) (hi : Served s k c) (ht : onTime k c a)
    (hnew : since s d = (emitted c a).toList ++ since s c) (h : step c a = some d)
    (hd : Accepted s k d) : ∃ op, opKey op = k ∧
      (.handled op ∈ since s d ∨ op ∈ d.operationQueue ∨ unstarted d.worker = some op) := by
  have hold : Accepted s k c ∨ ∃ op, opKey op = k ∧ op ∈ d.operationQueue := by
    rcases hd with ⟨ack, hack, hkey⟩ | hack
    · rw [hnew, mem_append, mem_toList] at hack
      rcases hack with hack | hack
      · exact .inl (.inr (by cases emits hack; exact hkey))
      · exact .inl (.inl ⟨ack, hack, hkey⟩)
    · exact (step_acknowledges ha hwf hs hu hi ht h hack).imp_left .inr
  rcases hold with hold | ⟨op, hk, hop⟩
  · obtain ⟨op, hk, hop⟩ := hi.accepted hold
    refine ⟨op, hk, ?_⟩
    rw [hnew]
    rcases hop with hop | hop | hop
    · exact .inl (mem_append_right _ hop)
    · exact .inr (queued_kept ha hop h)
    · rcases unstarted_kept ha hs hu hi ht hop hk h with hop | hop
      · exact .inr (.inr hop)
      · exact .inl (mem_append_left _ (by simp [hop]))
  · exact ⟨op, hk, .inr (.inl hop)⟩

theorem Undisturbed.before {events : List Event} (hnew : since s d = events ++ since s c)
    (hu : Undisturbed s k d) : Undisturbed s k c := by
  refine ⟨?_, fun t ht ↦ hu.below t (by rw [hnew]; exact mem_append_right _ ht)⟩
  have hn := hu.unnamed
  rw [hnew, named, any_append, Bool.or_eq_false_iff] at hn
  exact hn.2

theorem step_registers (ha : keepsOpen a) (hwf : Wf c) (hfresh : Fresh c)
    (hs : Session s c) (hu : Undisturbed s k c) (hi : Served s k c) (ht : onTime k c a)
    (h : step c a = some d) :
    d.operations.cancelled.lookup k.1 ≠ some k.2 ∧ d.operations.expired.lookup k.1 ≠ some k.2 ∧
      (∀ r, d.operations.running.lookup k.1 = some r → r.revision = k.2 → r.cancelled = false) ∧
      (∀ op n, registered d.worker = some op → opKey op = k → contextOf d.worker = some n →
        d.contexts n = false ∧ n ∉ cancelling d.receiver) ∧
      WorkerServes k d.worker := by
  cases stepping h with
  | receive h =>
    refine ⟨(receive_unmarked hi h).1, ?_, (receive_unmarked hi h).2,
      fun op n ↦ receive_contexts_served hwf hs hi h, ?_⟩
    · exact fun hx ↦ hi.unexpired ((receive_receives h).expired _ _ hx)
    · rw [(receive_receives h).worker]; exact hi.worker
  | work h =>
    obtain ⟨hm, hx, hf⟩ := work_unmarked hi ht h
    exact ⟨hm, hx, hf,
      fun op n ↦ work_contexts_served hfresh hi h, work_serves hs hu hi ht ha h⟩
  | take | quit =>
    exact ⟨hi.unmarked, hi.unexpired, hi.unflagged, by rintro _ _ ⟨⟩, trivial⟩
  | connect | stop => cases ha
  | _ =>
    refine ⟨hi.unmarked, hi.unexpired, hi.unflagged, fun op n hreg hk hn ↦ ?_, hi.worker⟩
    exact ⟨(hi.contexts op n hreg hk hn).1, by rintro ⟨⟩⟩

theorem step_untouched (ha : keepsOpen a) (hwf : Wf c) (hs : Session s c)
    (hu : Undisturbed s k c) (hi : Served s k c) (ht : onTime k c a)
    (hn : named (emitted c a).toList k = false) (h : step c a = some d) :
    receiverTouches d.receiver ≠ some k := by
  cases stepping h with
  | receive h => exact receive_untouched hwf hs hu hi ht h
  | work h => rw [(work_works h).receiver]; exact hi.receiver
  | cancel hk =>
    intro he
    simp [emitted, hk, named, Option.some.inj he] at hn
  | take | quit => exact hi.receiver
  | connect | stop => cases ha
  | _ => rintro ⟨⟩

theorem step_served (ha : keepsOpen a) (hwf : Wf c) (hfresh : Fresh c)
    (hs : Session s c) (hd : Undisturbed s k d) (hi : Served s k c) (ht : onTime k c a)
    (h : step c a = some d) : Served s k d := by
  obtain ⟨hnew, -⟩ := arrived_or hs.log h
  have hu := hd.before hnew
  have hn : named (emitted c a).toList k = false := by
    have hn := hd.unnamed
    rw [hnew, named, any_append, Bool.or_eq_false_iff] at hn
    exact hn.1
  obtain ⟨hm, hx, hf, hctx, hw⟩ := step_registers ha hwf hfresh hs hu hi ht h
  refine ⟨step_untouched ha hwf hs hu hi ht hn h, ?_, hm, hx, hf, hctx, hw,
    step_accepted ha hwf hs hu hi ht hnew h, ?_⟩
  · intro t hmem
    rw [hnew, mem_append, mem_toList] at hmem
    rcases hmem with he | hmem
    · cases emits he; exact fun hk ↦ hi.receiver (congrArg some hk)
    · exact hi.stored t hmem
  · intro e hmem
    rw [hnew, mem_append, mem_toList] at hmem
    rcases hmem with he | hmem
    · exact served_emitted hi he
    · exact hi.events e hmem

end

/-- One step of an open session with ascending deliveries in which the deadline
of the operation does not pass. -/
def InOrder (s : Client) (k : Key) (c : Client) (a : Action) : Prop :=
  keepsOpen a = true ∧ Ascending s c a ∧ onTime k c a = true

variable {b s c d : Client}

theorem connect_served (k : Key) (h : step b (.connect n) = some s) : Served s k s := by
  obtain ⟨-, rfl⟩ := ite_some_none_eq_some.mp h
  constructor <;> simp [since_self, connect, newSessionOperationState, receiverTouches,
    registered, WorkerServes, Accepted, acknowledges]

theorem inOrder_served {k : Key} (hb : Reachable b)
    (hstart : step b (.connect n) = some s) (hrun : Reach step (InOrder s k) s c) :
    Reachable c ∧ Session s c ∧ (Undisturbed s k c → Served s k c) := by
  have hs : Reachable s := hb.trans (.one (.connect n) trivial hstart)
  refine hrun.invariant (I := fun c ↦ Reachable c ∧ Session s c ∧ (Undisturbed s k c → Served s k c))
    ⟨hs, connect_session hstart, fun _ ↦ connect_served k hstart⟩ ?_
  rintro c a d ⟨hr, hses, hi⟩ ⟨ha, hasc, ht⟩ h
  refine ⟨.snoc a hr trivial h, step_session ha hasc hses h, fun hd ↦ ?_⟩
  have hu := hd.before (arrived_or hses.log h).1
  exact step_served ha (reachable_wf hr) (reachable_fresh hr) hses hd (hi hu) ht h

structure Origin (s c : Client) : Prop where
  carries : Carries (· ∈ arrivals (since s c)) c
  handled : ∀ op, .handled op ∈ since s c → op ∈ arrivals (since s c)

theorem step_origin (hlog : c.log = since s c ++ s.log)
    (hi : Origin s c) (h : step c a = some d) : Origin s d := by
  obtain ⟨hnew, harr⟩ := arrived_or hlog h
  have hold : ∀ {op}, op ∈ arrivals (since s c) → op ∈ arrivals (since s d) := fun hop ↦ by
    rw [harr]
    exact mem_append_right _ hop
  obtain ⟨h1, h2, h3⟩ := hi.carries
  refine ⟨step_carries ⟨fun op hop ↦ hold (h1 op hop), fun op hop ↦ hold (h2 op hop),
    fun op hop ↦ hold (h3 op hop)⟩ h ?_, ?_⟩
  · rintro op rfl hop
    rw [harr]
    exact mem_append_left _ (by simp [arrives, hop.1])
  intro op hop
  rw [hnew, mem_append, mem_toList] at hop
  rcases hop with hop | hop
  · cases emits hop; exact hold (h3 op rfl)
  · exact hold (hi.handled op hop)

def workerRank : Worker → Nat
  | .stopped | .idle => 0
  | .clear _ => 1
  | .report _ _ => 2
  | .remember _ _ => 3
  | .store _ _ => 4
  | .finish _ _ | .checkExpired _ => 5
  | .handling _ _ => 6
  | .call _ _ => 7
  | .checkContext _ _ => 8
  | .sendApplying _ _ => 9
  | .checkStale _ _ => 10
  | .checkDeadline _ _ => 11
  | .begin _ => 12

theorem work_rank (env : Env) (hw : workerRank c.worker ≠ 0) :
    ∃ d, workStep c env = some d ∧ workerRank d.worker < workerRank c.worker := by
  cases h : workStep c env with
  | none =>
    cases hcw : c.worker <;> rw [hcw] at hw <;> simp only [workStep, hcw] at h
    case stopped | idle => exact absurd rfl hw
    case finish op exit => cases exit <;> cases h
    case clear after => cases after <;> cases h
    all_goals first | cases h | (split at h <;> cases h)
  | some d => exact ⟨d, rfl, by cases working h <;> simp [workerRank]⟩

def WorkerOnly (_ : Client) (a : Action) : Prop := a = .take ∨ a = .work calm

theorem drains (hc : c.worker ≠ .stopped) :
    ∃ d, Reach step WorkerOnly c d ∧ d.worker = .idle ∧ d.operationQueue = [] := by
  induction hm : 13 * c.operationQueue.length + workerRank c.worker using Nat.strong_induction_on
    generalizing c with
  | _ m ih =>
    by_cases hrank : workerRank c.worker = 0
    · have hidle : c.worker = .idle := by
        cases hw : c.worker <;> rw [hw] at hrank hc <;> first | rfl | exact absurd rfl hc | cases hrank
      cases hq : c.operationQueue with
      | nil => exact ⟨c, .refl, hidle, hq⟩
      | cons op queue =>
        have hstep : step c .take = some { c with operationQueue := queue, worker := .begin op } := by
          simp only [step, hidle, hq]
        obtain ⟨d, hd, hdone⟩ := ih _ (by simp [← hm, hq, workerRank, hidle]; omega) (c := { c with
          operationQueue := queue, worker := .begin op }) (by simp) rfl
        exact ⟨d, (Reach.one .take (.inl rfl) hstep).trans hd, hdone⟩
    · obtain ⟨e, he, hlt⟩ := work_rank calm hrank
      have hworks := work_works (working he)
      obtain ⟨d, hd, hdone⟩ := ih _ (by rw [← hm, hworks.queue]; omega) hworks.working rfl
      exact ⟨d, (Reach.one (.work calm) (.inr rfl) he).trans hd, hdone⟩

theorem workerOnly_inOrder {k : Key} (ha : WorkerOnly c a) : InOrder s k c a := by
  rcases ha with rfl | rfl
  · exact ⟨rfl, nofun, rfl⟩
  refine ⟨rfl, nofun, ?_⟩
  have hd := calm_deadline
  simp only [onTime, timely]
  cases c.worker <;> simp_all [calm]

theorem workerOnly_undisturbed {k : Key} (hlog : c.log = since s c ++ s.log) (ha : WorkerOnly c a)
    (h : step c a = some d) (hu : Undisturbed s k c) : Undisturbed s k d := by
  have hnew := (arrived_or hlog h).1
  obtain ⟨hn, hb⟩ := hu
  constructor
  · rw [hnew]
    cases he : emitted c a with
    | none => exact hn
    | some e => rcases ha with rfl | rfl <;> cases emits he <;> exact hn
  · intro t ht
    rw [hnew, mem_append, mem_toList] at ht
    rcases ht with ht | ht
    · rcases ha with rfl | rfl <;> cases emits ht
    · exact hb t ht

theorem inOrder_origin {k : Key} (hstart : step b (.connect n) = some s)
    (hd : Reach step (InOrder s k) s d) : Session s d ∧ Origin s d := by
  have hs := connect_session hstart
  have horigin : Origin s s := by
    obtain ⟨-, rfl⟩ := ite_some_none_eq_some.mp hstart
    exact ⟨⟨nofun, nofun, nofun⟩, by simp [since_self]⟩
  refine hd.invariant (I := fun c ↦ Session s c ∧ Origin s c) ⟨hs, horigin⟩ ?_
  rintro c a d ⟨hs, ho⟩ ⟨ha, hasc, -⟩ h
  exact ⟨step_session ha hasc hs h, step_origin hs.log ho h⟩

/-- Ascending deliveries leave one operation with the revision: it is the accepted one that is
handled, queued or with the worker. -/
theorem Served.accepted_arrival (hi : Served s (opKey op) c) (hs : Session s c) (ho : Origin s c)
    (harr : op ∈ arrivals (since s c)) (hack : .acked (ackOf op true "") ∈ since s c) :
    .handled op ∈ since s c ∨ op ∈ c.operationQueue ∨ unstarted c.worker = some op := by
  obtain ⟨op', hk, hop⟩ := hi.accepted (.inl ⟨_, hack, rfl⟩)
  have hop' : op' ∈ arrivals (since s c) := by
    rcases hop with hop | hop | hop
    · exact ho.handled op' hop
    · exact ho.carries.queue op' hop
    · exact ho.carries.worker op' hop
  obtain rfl := hs.arrived_unique op' hop' op harr (congrArg Prod.snd hk)
  exact hop

theorem workerOnly_keeps (hcd : Reach step WorkerOnly c d)
    (hs : Session s c) (hu : Undisturbed s (opKey op) c) (harr : op ∈ arrivals (since s c))
    (hack : .acked (ackOf op true "") ∈ since s c) :
    Undisturbed s (opKey op) d ∧ op ∈ arrivals (since s d) ∧
      .acked (ackOf op true "") ∈ since s d := by
  refine (hcd.invariant (I := fun d ↦ Session s d ∧ Undisturbed s (opKey op) d ∧
    op ∈ arrivals (since s d) ∧ .acked (ackOf op true "") ∈ since s d) ⟨hs, hu, harr, hack⟩ ?_).2
  rintro c a d ⟨hs, hu, harr, hack⟩ ha h
  obtain ⟨hopen, hasc, -⟩ : InOrder s (opKey op) c a := workerOnly_inOrder ha
  obtain ⟨hnew, hnews⟩ := arrived_or hs.log h
  refine ⟨step_session hopen hasc hs h, workerOnly_undisturbed hs.log ha h hu, ?_, ?_⟩
  · rw [hnews]
    exact mem_append_right _ harr
  · rw [hnew]
    exact mem_append_right _ hack

/-- An accepted operation that no cancel names and whose deadline does not pass reaches its handler
and is never superseded, unless the receive loop itself completes another operation of a revision as
high. -/
theorem accepted_operation_handled {b s c : Client} {n : Nat} {op : DesiredOperation}
    (hb : Reachable b) (hstart : step b (.connect n) = some s)
    (hrun : Reach step (InOrder s (opKey op)) s c) (harr : op ∈ arrivals (since s c))
    (hack : .acked (ackOf op true "") ∈ since s c) (hu : Undisturbed s (opKey op) c) :
    (.handled op ∈ since s c ∨ op ∈ c.operationQueue ∨ unstarted c.worker = some op) ∧
      (∃ d, Reach step (InOrder s (opKey op)) c d ∧ .handled op ∈ since s d) ∧
      ∀ e ∈ since s c, NotSuperseded (opKey op) e := by
  obtain ⟨-, hs, hserved⟩ := inOrder_served hb hstart hrun
  have hi := hserved hu
  obtain ⟨d, hcd, hidle, hempty⟩ := drains hs.working
  have hcd' : Reach step (InOrder s (opKey op)) c d := hcd.mono fun _ _ ↦ workerOnly_inOrder
  obtain ⟨hu', harr', hack'⟩ := workerOnly_keeps hcd hs hu harr hack
  refine ⟨hi.accepted_arrival hs (inOrder_origin hstart hrun).2 harr hack, ⟨d, hcd', ?_⟩, hi.events⟩
  -- Once the worker has drained the queue there is nowhere else for the operation to be.
  have hrun' := hrun.trans hcd'
  obtain ⟨hs', ho'⟩ := inOrder_origin hstart hrun'
  have hi' := (inOrder_served hb hstart hrun').2.2 hu'
  have hplaces := hi'.accepted_arrival hs' ho' harr' hack'
  rw [hempty, hidle] at hplaces
  exact hplaces.resolve_right (by simp [unstarted])

instance (s c : Client) (a : Action) : Decidable (Ascending s c a) :=
  inferInstanceAs (Decidable (∀ op ∈ arrives a, _))

instance (s : Client) (k : Key) (c : Client) (a : Action) : Decidable (InOrder s k c a) :=
  inferInstanceAs (Decidable (_ ∧ _))

def expiringB : DesiredOperation := ⟨"b", "plugin.enable", 7, 1⟩

/-- An operation that expires on arrival makes the lower revision in the queue
stale. -/
theorem expired_arrival_supersedes_queued :
    ∃ s c, step newClient (.connect 0) = some s ∧ Reach step (InOrder s (opKey enableA)) s c ∧
      enableA ∈ arrivals (since s c) ∧ .acked (ackOf enableA true "") ∈ since s c ∧
      named (since s c) (opKey enableA) = false ∧ c.worker = .idle ∧ c.operationQueue = [] ∧
      handled c.log = [] ∧
      .sent .worker (observedOf enableA .superseded becameStaleText 0) ∈ since s c := by
  exact ⟨connect newClient 0, _, rfl, reach_after (delivery enableA ++ .deliver (some expiringB) ::
      List.replicate 6 (.receive { calm with now := 1 }) ++ execution 7) (by decide), by decide⟩

def cancelX : DesiredOperation := ⟨"x", operationCancelKind, 3, 0⟩

/-- A cancel of an unknown lower revision leaves the queued operation alone. -/
theorem accepted_operation_handled_beside_cancel :
    ∃ s c d, step newClient (.connect 0) = some s ∧ Reach step (InOrder s (opKey enableA)) s c ∧
      named (since s c) (opKey cancelX) = true ∧ Reach step (InOrder s (opKey enableA)) c d ∧
      .handled enableA ∈ since s d := by
  have hc : Reach step (InOrder (connect newClient 0) (opKey enableA)) (connect newClient 0) _ :=
    reach_after (delivery enableA ++ .deliver (some cancelX) :: List.replicate 6 (.receive calm))
      (by decide)
  obtain ⟨-, ⟨d, hd, hhandled⟩, -⟩ := accepted_operation_handled .refl rfl hc (by decide) (by decide)
    ⟨by decide, fun t ht _ ↦ (show ∀ e ∈ since _ _, ∀ t ∈ recorded e, t.revision < 5 by decide) _ ht t rfl⟩
  exact ⟨_, _, d, rfl, hc, by decide, hd, hhandled⟩

end AnixAgent.Stream.Independence
