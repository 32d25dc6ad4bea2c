import AnixAgent.Stream.Terminal

namespace AnixAgent.Stream.Pipeline

open Machine SessionOperations Steps Trace Registers Handled SessionEnd
open Cancellation Terminal List Option

def behind (c : Client) : List Key :=
  c.operationQueue.map opKey ++ ((accepting c.receiver).map opKey).toList

def pipe (c : Client) : List Key := (workerHolds c.worker).toList ++ behind c

def arrives : Action → Option DesiredOperation
  | .deliver (some op) => if op.kind = operationCancelKind then none else some op
  | _ => none

variable {c d s : Client} {env : Env}

theorem receive_behind (h : Receiving env c d) : (behind d).Sublist (behind c) := by
  cases h with
  | pushes => simp [behind, accepting]
  | unknown | inTime | newer | admits | queues => exact .refl _
  | _ => exact (Sublist.refl _).append (nil_sublist _)

theorem work_holds (h : Working env c d) :
    workerHolds d.worker = workerHolds c.worker ∨ workerHolds d.worker = none := by
  cases h with
  | ends => exact .inl (congrArg some (stateKey_handlerTerminal ..))
  | letsGo | reports | clears | clearsExpired | clearsCancelled => exact .inr rfl
  | _ => exact .inl rfl

theorem work_behind (h : Working env c d) : behind d = behind c := by
  rw [behind, behind, (work_works h).queue, (work_works h).receiver]

variable {a : Action}

theorem step_behind (h : step c a = some d) :
    (behind d).Sublist (behind c ++ ((arrives a).map opKey).toList) := by
  cases stepping h with
  | receive h => exact (receive_behind h).trans (sublist_append_left _ _)
  | work h => rw [work_behind h]; exact sublist_append_left _ _
  | arrive hk => simp [behind, accepting, arrives, emit, hk]
  | connect => simp [behind, connect, accepting]
  | take => simp [behind]
  | quit | stop => exact sublist_append_left _ _
  | _ => simp [behind, accepting, emit]

theorem step_pipe (h : step c a = some d) :
    (pipe d).Sublist (pipe c ++ ((arrives a).map opKey).toList) := by
  have hb := step_behind h
  simp only [pipe, append_assoc]
  cases stepping h with
  | receive h =>
    rw [(receive_receives h).worker]
    exact (Sublist.refl _).append hb
  | work h =>
    rcases work_holds h with hw | hw <;> rw [hw]
    · exact (Sublist.refl _).append hb
    · exact (nil_sublist _).append hb
  | take => simp [behind, workerHolds]
  | connect | quit => exact (nil_sublist _).append hb
  | _ => exact (Sublist.refl _).append hb

def arrivals (log : List Event) : List DesiredOperation :=
  log.filterMap fun
    | .arrived op => some op
    | _ => none

/-- Only actions of a session that stays open: sends go through, and nothing
ends the session or the client. -/
def keepsOpen : Action → Bool
  | .receive env | .work env => env.sendOk
  | .leave | .stop | .connect _ => false
  | .deliver _ | .take | .quit => true

/-- Operations are delivered in increasing order of their revisions, all above
`observedRevision` at the start `s` of the session. -/
def Ascending (s c : Client) (a : Action) : Prop :=
  ∀ op ∈ arrives a, s.observedRevision < op.revision ∧
    ∀ op' ∈ arrivals (since s c), op'.revision < op.revision

def shutsDown : Receiver → Bool
  | .offline | .close | .cancelContexts _ | .cancelSession | .waitWorker => true
  | .unmark _ failed => failed
  | _ => false

structure Session (s c : Client) : Prop where
  log : c.log = since s c ++ s.log
  isOpen : Open c
  serving : shutsDown c.receiver = false
  working : c.worker ≠ .stopped
  arrived_gt : ∀ op ∈ arrivals (since s c), s.observedRevision < op.revision
  arrived_unique : ∀ op ∈ arrivals (since s c), ∀ op' ∈ arrivals (since s c),
    op.revision = op'.revision → op = op'
  sorted : (pipe c).Pairwise fun k k' ↦ k.2 < k'.2
  pipe_arrived : ∀ k ∈ pipe c, ∃ op ∈ arrivals (since s c), opKey op = k
  stored_arrived : ∀ t, .stored .worker t ∈ since s c →
    ∃ op ∈ arrivals (since s c), op.revision = t.revision
  stored_behind : ∀ t, .stored .worker t ∈ since s c → ∀ k ∈ behind c, t.revision < k.2
  stored_unstarted : ∀ t, .stored .worker t ∈ since s c → ∀ op, unstarted c.worker = some op →
    t.revision < op.revision
  observed : c.observedRevision = s.observedRevision ∨
    ∃ thread t, .stored thread t ∈ since s c ∧ t.revision = c.observedRevision

theorem arrivals_emitted (c : Client) (a : Action) :
    arrivals (emitted c a).toList = (arrives a).toList := by
  cases a with
  | deliver op =>
    cases op with
    | none => rfl
    | some op => by_cases hk : op.kind = operationCancelKind <;> simp [emitted, arrives, arrivals, hk]
  | receive env | work env =>
    generalize he : emitted c _ = e
    cases e with
    | none => rfl
    | some e => cases emits he <;> rfl
  | connect | leave | take | quit | stop => rfl

theorem step_observed (h : step c a = some d) :
    d.observedRevision = c.observedRevision ∨ ∃ thread t, emitted c a = some (.stored thread t) ∧
      d.observedRevision = max c.observedRevision t.revision := by
  cases stepping h with
  | receive h =>
    cases h with
    | stores => exact .inr ⟨.receiver, _, rfl, rfl⟩
    | _ => exact .inl rfl
  | work h =>
    cases h with
    | stores => exact .inr ⟨.worker, _, rfl, rfl⟩
    | _ => exact .inl rfl
  | _ => exact .inl rfl

theorem stored_worker {t : ObservedState} (h : step c a = some d)
    (he : emitted c a = some (.stored .worker t)) :
    workerHolds c.worker = some (stateKey t) ∧ unstarted d.worker = none ∧ behind d = behind c := by
  cases emits he
  cases h
  exact ⟨rfl, rfl, rfl⟩

theorem receive_serving (ho : env.sendOk) (hs : shutsDown c.receiver = false)
    (h : Receiving env c d) : shutsDown d.receiver = false := by
  cases h with
  | breaks hok | breaksResend hok | breaksReport hok => exact absurd ho hok
  | reports => simp [shutsDown, ho]
  | unmarksLast | closes | closesAgain | cancelsNext | cancelsAll | cancelsSession | leaves => cases hs
  | _ => rfl

theorem receive_open (hs : shutsDown c.receiver = false) (hc : Open c)
    (h : Receiving env c d) : Open d := by
  cases h with
  | closes | cancelsSession => cases hs
  | _ => exact hc

theorem work_open (hc : Open c) (h : Working env c d) : Open d := by
  obtain ⟨hclosed, hsession, hcancelled⟩ := hc
  have hworks := work_works h
  exact ⟨hworks.closed.trans hclosed, hworks.session.1.trans hsession,
    hworks.session.2.trans hcancelled⟩

theorem step_serving (ha : keepsOpen a) (hc : Open c)
    (hs : shutsDown c.receiver = false) (hw : c.worker ≠ .stopped) (h : step c a = some d) :
    Open d ∧ shutsDown d.receiver = false ∧ d.worker ≠ .stopped := by
  cases stepping h with
  | receive h =>
    refine ⟨receive_open hs hc h, receive_serving ha hs h, ?_⟩
    rw [(receive_receives h).worker]
    exact hw
  | work h =>
    refine ⟨work_open hc h, ?_, (work_works h).working⟩
    rw [(work_works h).receiver]
    exact hs
  | take => exact ⟨hc, hs, by simp⟩
  | quit hq =>
    rcases hq with hq | hq
    · cases hq.symm.trans hc.2.1
    · cases hq.symm.trans hc.2.2
  | connect | leave | stop => cases ha
  | _ => exact ⟨hc, rfl, hw⟩

theorem arrived_or (hlog : c.log = since s c ++ s.log) (h : step c a = some d) :
    since s d = (emitted c a).toList ++ since s c ∧
      arrivals (since s d) = (arrives a).toList ++ arrivals (since s c) := by
  have hnew : since s d = (emitted c a).toList ++ since s c :=
    since_eq (by rw [step_log h, append_assoc, ← hlog])
  refine ⟨hnew, ?_⟩
  rw [hnew, ← arrivals_emitted c a]
  exact filterMap_append

theorem step_unstarted (h : step c a = some d) {op : DesiredOperation}
    (hop : unstarted d.worker = some op) : unstarted c.worker = some op ∨ opKey op ∈ behind c := by
  cases stepping h with
  | receive h => rw [(receive_receives h).worker] at hop; exact .inl hop
  | work h => exact .inl (work_unstarted h hop)
  | take => cases hop; exact .inr mem_cons_self
  | connect | quit => cases hop
  | _ => exact .inl hop

section

variable {s c d : Client} {a : Action}

theorem session_sorted (hasc : Ascending s c a) (hi : Session s c) (h : step c a = some d) :
    (pipe d).Pairwise fun k k' ↦ k.2 < k'.2 := by
  refine List.Pairwise.sublist (step_pipe h) (pairwise_append.mpr ⟨hi.sorted, ?_, ?_⟩)
  · cases arrives a <;> simp
  intro k hk k' hk'
  obtain ⟨op, hop, rfl⟩ := hi.pipe_arrived k hk
  simp only [mem_toList, map_eq_some_iff] at hk'
  obtain ⟨op', hop', rfl⟩ := hk'
  exact (hasc op' hop').2 op hop

theorem session_pipe_arrived
    (harr : arrivals (since s d) = (arrives a).toList ++ arrivals (since s c)) (hi : Session s c)
    (h : step c a = some d) : ∀ k ∈ pipe d, ∃ op ∈ arrivals (since s d), opKey op = k := by
  intro k hk
  rw [harr]
  rcases mem_append.mp ((step_pipe h).subset hk) with hk | hk
  · obtain ⟨op, hop, rfl⟩ := hi.pipe_arrived k hk
    exact ⟨op, mem_append_right _ hop, rfl⟩
  · simp only [mem_toList, map_eq_some_iff] at hk
    obtain ⟨op, hop, rfl⟩ := hk
    exact ⟨op, mem_append_left _ (mem_toList.mpr hop), rfl⟩

theorem session_stored_behind (hasc : Ascending s c a) (hi : Session s c) (h : step c a = some d)
    {t : ObservedState}
    (ht : emitted c a = some (.stored .worker t) ∨ .stored .worker t ∈ since s c) {k : Key}
    (hk : k ∈ behind d) : t.revision < k.2 := by
  rcases ht with ht | ht
  · obtain ⟨hholds, -, hb⟩ := stored_worker h ht
    have hsorted := hi.sorted
    rw [pipe, hholds, ← hb] at hsorted
    exact (pairwise_cons.mp hsorted).1 k hk
  · rcases mem_append.mp ((step_behind h).subset hk) with hk | hk
    · exact hi.stored_behind t ht k hk
    · simp only [mem_toList, map_eq_some_iff] at hk
      obtain ⟨op, hop, rfl⟩ := hk
      obtain ⟨op', hop', hrev⟩ := hi.stored_arrived t ht
      rw [← hrev]
      exact (hasc op hop).2 op' hop'

theorem step_session (ha : keepsOpen a) (hasc : Ascending s c a) (hi : Session s c)
    (h : step c a = some d) : Session s d := by
  obtain ⟨hnew, harr⟩ := arrived_or hi.log h
  obtain ⟨hopen, hserving, hworking⟩ := step_serving ha hi.isOpen hi.serving hi.working h
  have hmem : ∀ t, .stored .worker t ∈ since s d →
      emitted c a = some (.stored .worker t) ∨ .stored .worker t ∈ since s c := by
    intro t ht
    rwa [hnew, mem_append, mem_toList] at ht
  refine ⟨?_, hopen, hserving, hworking, ?_, ?_, session_sorted hasc hi h,
    session_pipe_arrived harr hi h, ?_, ?_, ?_, ?_⟩
  · rw [hnew, append_assoc, ← hi.log]
    exact step_log h
  · intro op hop
    rw [harr, mem_append, mem_toList] at hop
    rcases hop with hop | hop
    · exact (hasc op hop).1
    · exact hi.arrived_gt op hop
  · intro op hop op' hop' hrev
    rw [harr, mem_append, mem_toList] at hop hop'
    rcases hop with hop | hop <;> rcases hop' with hop' | hop'
    · exact Option.some.inj (hop.symm.trans hop')
    · exact absurd hrev.symm ((hasc op hop).2 op' hop').ne
    · exact absurd hrev ((hasc op' hop').2 op hop).ne
    · exact hi.arrived_unique op hop op' hop' hrev
  · intro t ht
    rw [harr]
    rcases hmem t ht with ht | ht
    · obtain ⟨hholds, -, -⟩ := stored_worker h ht
      obtain ⟨op, hop, hk⟩ := hi.pipe_arrived (stateKey t) (by simp [pipe, hholds])
      exact ⟨op, mem_append_right _ hop, congrArg Prod.snd hk⟩
    · obtain ⟨op, hop, hrev⟩ := hi.stored_arrived t ht
      exact ⟨op, mem_append_right _ hop, hrev⟩
  · exact fun t ht k hk ↦ session_stored_behind hasc hi h (hmem t ht) hk
  · intro t ht op hop
    rcases hmem t ht with ht' | ht'
    · rw [(stored_worker h ht').2.1] at hop
      cases hop
    · rcases step_unstarted h hop with hop | hop
      · exact hi.stored_unstarted t ht' op hop
      · exact hi.stored_behind t ht' _ hop
  · have hold : c.observedRevision = s.observedRevision ∨
        ∃ thread t, .stored thread t ∈ since s d ∧ t.revision = c.observedRevision := by
      refine hi.observed.imp_right fun ⟨thread, t, ht, hrev⟩ ↦ ⟨thread, t, ?_, hrev⟩
      rw [hnew]
      exact mem_append_right _ ht
    rcases step_observed h with ho | ⟨thread, t, he, ho⟩
    · rw [ho]
      exact hold
    rcases le_total t.revision c.observedRevision with hle | hle
    · rw [ho, max_eq_left hle]
      exact hold
    · rw [ho, max_eq_right hle]
      exact .inr ⟨thread, t, by rw [hnew, he]; exact mem_cons_self, rfl⟩

end

/-- An operation still before its stale check is above everything the worker
stored: only the receive loop can make it stale. -/
theorem Session.fresh (hi : Session s c) {k : Key}
    (hk : k ∈ behind c ∨ ∃ op, unstarted c.worker = some op ∧ opKey op = k)
    (hx : ∀ t, .stored .receiver t ∈ since s c → t.revision < k.2) : c.observedRevision < k.2 := by
  have hpipe : k ∈ pipe c := by
    rcases hk with hk | ⟨op, hop, rfl⟩
    · exact mem_append_right _ hk
    · refine mem_append_left _ ?_
      cases hw : c.worker <;> rw [hw] at hop <;> cases hop <;> simp [workerHolds]
  rcases hi.observed with ho | ⟨thread, t, ht, hrev⟩
  · obtain ⟨op, hop, rfl⟩ := hi.pipe_arrived k hpipe
    rw [ho]
    exact hi.arrived_gt op hop
  rw [← hrev]
  cases thread with
  | receiver => exact hx t ht
  | worker =>
    rcases hk with hk | ⟨op, hop, rfl⟩
    · exact hi.stored_behind t ht k hk
    · exact hi.stored_unstarted t ht op hop

theorem connect_session {b : Client} {n : Nat} (h : step b (.connect n) = some s) :
    Session s s := by
  obtain ⟨hb, rfl⟩ := ite_some_none_eq_some.mp h
  constructor <;> simp [since_self, connect, Open, newSessionOperationState, shutsDown, pipe,
    behind, workerHolds, accepting, arrivals, hb]

end AnixAgent.Stream.Pipeline
