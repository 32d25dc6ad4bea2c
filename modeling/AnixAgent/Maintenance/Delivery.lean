import AnixAgent.Maintenance.Machine

namespace AnixAgent.Maintenance.Delivery

open Machine Lib.Runs List

def Answers (id : String) (result : MaintenanceEventResult) : Prop :=
  result.eventId = "" ∨ result.eventId = id

def TooLarge (size : Nat) (result : MaintenanceEventResult) : Prop :=
  result.persisted = false ∧ result.errorCode = maintenanceErrorCodeBatchTooLarge ∧ 1 < size

def Removes (size : Nat) (id : String) (result : MaintenanceEventResult) : Prop :=
  Answers id result ∧ (result.persisted = true ∨ refused result = true ∧ ¬TooLarge size result)

variable {id : String} {result : MaintenanceEventResult} {results : List MaintenanceEventResult}
  {index size : Nat}

section Acknowledgements

variable {now : Int} {size : Nat} {acc : Applied}

theorem remove_applyResult {result : Option MaintenanceEventResult} {id' : String}
    (h : id' ∈ (applyResult now size acc id result).remove) :
    id' ∈ acc.remove ∨ id' = id ∧ ∃ r, result = some r ∧ Removes size id r := by
  cases result with
  | none => exact .inl h
  | some r =>
    unfold applyResult at h
    dsimp only at h
    split at h
    · exact .inl h
    next hplace =>
    have hanswers : Answers id r := by
      unfold Answers
      by_contra hno
      rw [not_or] at hno
      exact hplace hno
    split at h
    · next hpersisted =>
      rcases mem_append.mp h with h | h
      · exact .inl h
      · exact .inr ⟨mem_singleton.mp h, r, rfl, hanswers, .inl hpersisted⟩
    split at h
    · exact .inl h
    next hrefused =>
    split at h
    · exact .inl h
    next hlarge =>
    rcases mem_append.mp h with h | h
    · exact .inl h
    · refine .inr ⟨mem_singleton.mp h, r, rfl, hanswers, .inr ⟨?_, fun hr ↦ hlarge hr.2⟩⟩
      simpa using hrefused

theorem remove_applyResults {ids : List String}
    (h : id ∈ (applyResults now size acc ids results).remove) :
    id ∈ acc.remove ∨ ∃ (index : Nat) (result : MaintenanceEventResult),
      ids[index]? = some id ∧ results[index]? = some result ∧ Removes size id result := by
  induction ids generalizing acc results with
  | nil => exact .inl h
  | cons first ids ih =>
    rcases ih h with h | ⟨index, result, hid, hresult, hremoves⟩
    · rcases remove_applyResult h with h | ⟨rfl, result, hresult, hremoves⟩
      · exact .inl h
      · refine .inr ⟨0, result, rfl, ?_, hremoves⟩
        rwa [← head?_eq_getElem?]
    · refine .inr ⟨index + 1, result, hid, ?_, hremoves⟩
      rwa [← getElem?_tail]

theorem applyResult_frame (now : Int) (size : Nat) (acc : Applied) (id : String)
    (result : Option MaintenanceEventResult) :
    (applyResult now size acc id result).state.limit = acc.state.limit ∧
      (applyResult now size acc id result).state.inflight = acc.state.inflight ∧
      (acc.tooLarge → (applyResult now size acc id result).tooLarge) := by
  cases result with
  | none => exact ⟨rfl, rfl, fun h ↦ h⟩
  | some r =>
    unfold applyResult
    dsimp only
    split
    · exact ⟨rfl, rfl, fun h ↦ h⟩
    split
    · exact ⟨rfl, rfl, fun h ↦ h⟩
    split
    · exact ⟨rfl, rfl, fun h ↦ h⟩
    split
    · exact ⟨rfl, rfl, fun _ ↦ rfl⟩
    · exact ⟨rfl, rfl, fun h ↦ h⟩

theorem applyResults_frame (now : Int) (size : Nat) (acc : Applied) (ids : List String)
    (results : List MaintenanceEventResult) :
    (applyResults now size acc ids results).state.limit = acc.state.limit ∧
      (applyResults now size acc ids results).state.inflight = acc.state.inflight ∧
      (acc.tooLarge → (applyResults now size acc ids results).tooLarge) := by
  induction ids generalizing acc results with
  | nil => exact ⟨rfl, rfl, fun h ↦ h⟩
  | cons id ids ih =>
    obtain ⟨hlimit, hinflight, hlarge⟩ := applyResult_frame now size acc id results.head?
    obtain ⟨hlimit', hinflight', hlarge'⟩ :=
      ih (applyResult now size acc id results.head?) results.tail
    exact ⟨hlimit'.trans hlimit, hinflight'.trans hinflight, fun h ↦ hlarge' (hlarge h)⟩

theorem tooLarge_applyResult (hanswers : Answers id result) (hlarge : TooLarge size result) :
    (applyResult now size acc id (some result)).tooLarge := by
  obtain ⟨hpersisted, hcode, hsize⟩ := hlarge
  have hplace : ¬(result.eventId ≠ "" ∧ result.eventId ≠ id) := by
    rintro ⟨hempty, hother⟩
    exact hanswers.elim hempty hother
  have hrefused : refused result := by
    have hcodes : (decide (maintenanceErrorCodeBatchTooLarge ≠ "") &&
        decide (maintenanceErrorCodeBatchTooLarge ≠ maintenanceErrorCodeUnavailable)) := by
      decide
    unfold refused
    rw [hcode, hcodes, Bool.or_true]
  unfold applyResult
  dsimp only
  rw [if_neg hplace, if_neg (by rw [hpersisted]; exact Bool.false_ne_true),
    if_neg (by rw [hrefused]; decide), if_pos ⟨hcode, hsize⟩]

theorem tooLarge_applyResults {ids : List String} (hid : ids[index]? = some id)
    (hresult : results[index]? = some result) (hanswers : Answers id result)
    (hlarge : TooLarge size result) : (applyResults now size acc ids results).tooLarge := by
  induction ids generalizing acc results index with
  | nil => cases hid
  | cons first ids ih =>
    cases index with
    | zero =>
      cases hid
      refine (applyResults_frame now size _ ids results.tail).2.2 ?_
      rw [head?_eq_getElem?, hresult]
      exact tooLarge_applyResult hanswers hlarge
    | succ index =>
      refine ih hid ?_
      rwa [getElem?_tail]

variable {state : MaintenanceState} {batch : MaintenanceBatch}
  {results : List MaintenanceEventResult}

theorem inflight_applyMaintenanceAck :
    (applyMaintenanceAck state now batch results).1.inflight = state.inflight :=
  (applyResults_frame now batch.events.length
    ⟨state, [], false, results.length = batch.events.length⟩ batch.events results).2.1

end Acknowledgements

section Batches

theorem length_chooseBatch (notBefore : Lib.Tables.Table String Int) (now : Int) (limit count : Nat)
    (size : Nat) (events : List Event) (hcount : count ≤ limit) :
    count + (chooseBatch notBefore now limit count size events).length ≤ limit := by
  induction events generalizing count size with
  | nil => exact hcount
  | cons e rest ih =>
    unfold chooseBatch
    split
    · exact ih count size hcount
    split
    · exact hcount
    next hroom =>
    rw [not_or] at hroom
    have h := ih (count + 1) (size + e.size) (by omega)
    rw [length_cons]
    omega

theorem chooseBatch_sublist (notBefore : Lib.Tables.Table String Int) (now : Int)
    (limit count size : Nat) (events : List Event) :
    (chooseBatch notBefore now limit count size events).Sublist events := by
  induction events generalizing count size with
  | nil => exact .slnil
  | cons e rest ih =>
    unfold chooseBatch
    split
    · exact (ih count size).cons e
    split
    · exact nil_sublist _
    · exact (ih (count + 1) (size + e.size)).cons_cons e

theorem fitting_sublist (size index : Nat) (events : List Event) :
    (fitting size index events).Sublist events := by
  induction events generalizing size index with
  | nil => exact .slnil
  | cons e rest ih =>
    unfold fitting
    dsimp only
    generalize size + e.size + (if index > 0 then 1 else 0) = nextSize
    split
    · exact nil_sublist _
    · exact (ih _ _).cons_cons e

theorem nodup_pending {store : Store} {limit : Nat} {events : List Event}
    (h : store.pending limit = some events) : (events.map (·.eventID)).Nodup := by
  have hsorted : ((store.events.insertionSort fun a b ↦ older a b).map (·.eventID)).Nodup :=
    ((perm_insertionSort _ store.events).map _).nodup_iff.mpr store.unique
  unfold Store.pending at h
  dsimp only at h
  generalize hlimit : (if limit = 0 ∨ maxBatchSize < limit then maxBatchSize else limit) = n at h
  have htake : (((store.events.insertionSort fun a b ↦ older a b).take n).map
      (·.eventID)).Nodup := hsorted.sublist ((take_sublist n _).map _)
  split at h
  · cases h
    exact nodup_nil
  next first rest hfirst =>
  split at h
  · cases h
  · cases h
    rw [hfirst] at htake
    exact htake.sublist ((fitting_sublist _ _ _).map _)

end Batches

def inFlight (s : System) : List MaintenanceBatch :=
  s.sent.filter fun batch ↦ batch.session = s.session.id ∧ batch.requestID ∉ s.answered ∧
    s.clock - batch.sentAt < maintenanceAckTimeout

structure Known (sessions : Nat) (session : Session) : Prop where
  le : session.id ≤ sessions
  ne_zero : session.maintenance = true → session.id ≠ 0

structure Sending (s : System) : Prop where
  limit : 1 ≤ s.state.limit ∧ s.state.limit ≤ maxMaintenanceBatchEvents
  inflight : ∀ batch, s.state.inflight = some batch →
    batch.events.length ≤ maxMaintenanceBatchEvents ∧ batch.events.Nodup
  session : Known s.sessions s.session
  worker : ∀ session answers, s.worker = .acking session answers → Known s.sessions session
  sent : ∀ batch ∈ s.sent, batch.requestID ≤ s.requests ∧ batch.session ≤ s.sessions ∧
    batch.session ≠ 0
  unique : (s.sent.map (·.requestID)).Nodup
  settled : ∀ batch ∈ s.sent, s.state.inflight = some batch ∨ batch.requestID ∈ s.answered ∨
    maintenanceAckTimeout ≤ s.clock - batch.sentAt ∨ batch.session ≠ s.session.id

theorem Sending.inFlight_le {s : System} (h : Sending s) : (inFlight s).length ≤ 1 := by
  have hall : ∀ batch ∈ inFlight s, s.state.inflight = some batch := by
    intro batch hbatch
    obtain ⟨hsent, hwaits⟩ := mem_filter.mp hbatch
    obtain ⟨hsession, hopen, hyoung⟩ := of_decide_eq_true hwaits
    rcases h.settled batch hsent with hin | hanswered | hold | hother
    · exact hin
    · exact absurd hanswered hopen
    · omega
    · exact absurd hsession hother
  have hnodup : (inFlight s).Nodup := h.unique.of_map.filter _
  match hlist : inFlight s with
  | [] => exact Nat.zero_le _
  | [_] => exact le_rfl
  | a :: b :: rest =>
    have ha := hall a (hlist ▸ mem_cons_self)
    have hb := hall b (hlist ▸ mem_cons_of_mem _ mem_cons_self)
    have heq : a = b := Option.some.inj (ha.symm.trans hb)
    rw [hlist, heq] at hnodup
    exact absurd mem_cons_self (nodup_cons.mp hnodup).1

def Matching (s : System) (answer : MaintenanceAnswer) (batch : MaintenanceBatch) : Prop :=
  (∃ session answers, s.worker = .acking session (answer :: answers)) ∧
    s.state.inflight = some batch ∧ batch.requestID = answer.requestID ∧
    batch.session = answer.session

inductive Handled (s : System) (answer : MaintenanceAnswer) (removed : Bool) : System → Prop
  | ignored (h : ∀ batch, s.state.inflight = some batch →
      batch.requestID ≠ answer.requestID ∨ batch.session ≠ answer.session) :
      Handled s answer removed s
  | applied {batch : MaintenanceBatch} (hinflight : s.state.inflight = some batch)
      (hrequest : batch.requestID = answer.requestID) (hsession : batch.session = answer.session) :
      Handled s answer removed { s with
        store := if removed then s.store.remove
          (applyMaintenanceAck { s.state with inflight := none } s.clock batch answer.results).2
          else s.store
        state := (applyMaintenanceAck { s.state with inflight := none } s.clock batch
          answer.results).1
        answered := s.answered ++ [answer.requestID] }

theorem handled_applyAnswer (s : System) (answer : MaintenanceAnswer) (removed : Bool) :
    Handled s answer removed (applyAnswer s answer removed) := by
  unfold applyAnswer
  split
  · next hnone =>
    refine .ignored fun batch hbatch ↦ ?_
    rw [hnone] at hbatch
    cases hbatch
  · next batch hbatch =>
    split
    · next hother =>
      refine .ignored fun batch' hbatch' ↦ ?_
      rw [hbatch, Option.some.injEq] at hbatch'
      exact hbatch' ▸ hother
    · next hsame =>
      rw [not_or, not_not, not_not] at hsame
      exact .applied hbatch hsame.1 hsame.2

inductive Sent (s : System) (session : Session) : System → Prop
  | waiting : Sent s session s
  | nothing {state : MaintenanceState} (hlimit : state.limit = s.state.limit)
      (hinflight : state.inflight = none)
      (hold : ∀ batch, s.state.inflight = some batch →
        maintenanceAckTimeout ≤ s.clock - batch.sentAt) :
      Sent s session { s with state := state }
  | sent {state : MaintenanceState} {ids : List String} (hlimit : state.limit = s.state.limit)
      (hinflight : state.inflight = some ⟨s.requests + 1, session.id, ids, s.clock⟩)
      (hold : ∀ batch, s.state.inflight = some batch →
        maintenanceAckTimeout ≤ s.clock - batch.sentAt)
      (hids : ids.length ≤ s.state.limit) (hnodup : ids.Nodup)
      (hsession : session.maintenance = true) (hcurrent : session.id = s.session.id) :
      Sent s session { s with
        state := state
        requests := s.requests + 1
        sent := s.sent ++ [⟨s.requests + 1, session.id, ids, s.clock⟩] }

theorem sent_sendMaintenance (s : System) (session : Session) (readable delivered : Bool) :
    Sent s session (sendMaintenance s session readable delivered) := by
  unfold sendMaintenance
  split
  · exact .waiting
  next hmaintenance =>
  split
  · exact .waiting
  next hyoung =>
  have hold : ∀ batch, s.state.inflight = some batch →
      maintenanceAckTimeout ≤ s.clock - batch.sentAt := by
    intro batch hbatch
    rw [hbatch] at hyoung
    simpa using hyoung
  dsimp only
  split
  · exact .nothing rfl rfl hold
  next events hevents =>
  split
  · exact .nothing rfl rfl hold
  next hsend =>
  have hpending : s.store.pending maxMaintenanceBatchEvents = some events := by
    split at hevents
    · exact hevents
    · cases hevents
  rw [not_or, not_or, not_not] at hsend
  refine .sent rfl rfl hold ?_ ?_ (by simpa using hmaintenance) hsend.2.2
  · rw [length_map]
    have h := length_chooseBatch s.state.notBefore s.clock s.state.limit 0 0 events (Nat.zero_le _)
    omega
  · exact (nodup_pending hpending).sublist ((chooseBatch_sublist _ _ _ _ _ _).map _)

variable {s t : System}

variable {session : Session}

theorem Sending.newSession (h : Sending s) {sessions : Nat} (hsessions : s.sessions ≤ sessions)
    (hknown : Known sessions session) (hnew : ∀ batch ∈ s.sent, batch.session ≠ session.id) :
    Sending { s with session := session, sessions := sessions } where
  limit := h.limit
  inflight := h.inflight
  session := hknown
  worker seen answers hworker :=
    have hseen := h.worker seen answers hworker
    ⟨hseen.le.trans hsessions, hseen.ne_zero⟩
  sent batch hbatch :=
    have ⟨hrequest, hsession, hne⟩ := h.sent batch hbatch
    ⟨hrequest, hsession.trans hsessions, hne⟩
  unique := h.unique
  settled batch hbatch := .inr (.inr (.inr (hnew batch hbatch)))

theorem Sending.answer (h : Sending s) {answers : List MaintenanceAnswer}
    {answer : MaintenanceAnswer} {removed : Bool} {u : System}
    (hworker : s.worker = .acking session (answer :: answers)) (hu : Handled s answer removed u) :
    Sending { u with worker := .acking session answers } := by
  have hseen := h.worker session _ hworker
  have hknown : ∀ session' answers', Worker.acking session answers = .acking session' answers' →
      Known s.sessions session' := by
    rintro _ _ ⟨⟩
    exact hseen
  cases hu with
  | ignored => exact { h with worker := hknown }
  | @applied batch hinflight hrequest hsession =>
    obtain ⟨hlength, -⟩ := h.inflight batch hinflight
    have hnone : (applyMaintenanceAck { s.state with inflight := none } s.clock batch
        answer.results).1.inflight = none := inflight_applyMaintenanceAck
    refine ⟨?_, ?_, h.session, hknown, h.sent, h.unique, ?_⟩
    · have hlimit := h.limit
      have hsame := (applyResults_frame s.clock batch.events.length ⟨{ s.state with inflight := none },
        [], false, answer.results.length = batch.events.length⟩ batch.events answer.results).1
      have hpos : 1 ≤ maxMaintenanceBatchEvents := by decide
      unfold applyMaintenanceAck
      dsimp only at hsame ⊢
      rw [hsame]
      split
      · omega
      · split <;> omega
    · intro batch' hbatch'
      exact nomatch hnone.symm.trans hbatch'
    · intro batch' hbatch'
      right
      rcases h.settled batch' hbatch' with hin | hanswered | hrest
      · left
        rw [hinflight, Option.some.injEq] at hin
        rw [← hin, hrequest]
        exact mem_append_right _ (mem_singleton_self _)
      · exact .inl (mem_append_left _ hanswered)
      · exact .inr hrest

theorem Sending.send (h : Sending s) {u : System} (hworker : s.worker = .acking session [])
    (hu : Sent s session u) : Sending { u with worker := .idle } := by
  have hseen := h.worker session [] hworker
  cases hu with
  | waiting => exact { h with worker := nofun }
  | @nothing state hlimit hinflight hold =>
    refine ⟨?_, ?_, h.session, nofun, h.sent, h.unique, ?_⟩
    · dsimp only
      rw [hlimit]
      exact h.limit
    · intro batch hbatch
      exact nomatch hinflight.symm.trans hbatch
    intro batch hbatch
    rcases h.settled batch hbatch with hin | hrest
    · exact .inr (.inr (.inl (hold batch hin)))
    · exact .inr hrest
  | @sent state ids hlimit hinflight hold hids hnodup hmaintenance hcurrent =>
    refine ⟨?_, ?_, h.session, nofun, ?_, ?_, ?_⟩
    · dsimp only
      rw [hlimit]
      exact h.limit
    · intro batch hbatch
      have heq := Option.some.inj (hinflight.symm.trans hbatch)
      rw [← heq]
      exact ⟨hids.trans h.limit.2, hnodup⟩
    · intro batch hbatch
      rcases mem_append.mp hbatch with hbatch | hbatch
      · obtain ⟨hrequest, hrest⟩ := h.sent batch hbatch
        exact ⟨hrequest.trans (Nat.le_succ _), hrest⟩
      · rw [mem_singleton.mp hbatch]
        exact ⟨le_rfl, hseen.le, hseen.ne_zero hmaintenance⟩
    · dsimp only
      rw [map_append, map_singleton]
      refine h.unique.append (nodup_singleton _) fun id hid hnew ↦ ?_
      obtain ⟨batch, hbatch, rfl⟩ := mem_map.mp hid
      have hle := (h.sent batch hbatch).1
      have heq : batch.requestID = s.requests + 1 := mem_singleton.mp hnew
      omega
    · intro batch hbatch
      rcases mem_append.mp hbatch with hbatch | hbatch
      · rcases h.settled batch hbatch with hin | hrest
        · exact .inr (.inr (.inl (hold batch hin)))
        · exact .inr hrest
      · left
        rw [mem_singleton.mp hbatch]
        exact hinflight

variable {a : Action}

theorem Sending.step (h : Sending s) (hstep : Machine.step s a = some t) : Sending t := by
  cases a with
  | tick duration =>
    cases hstep
    refine { h with settled := fun batch hbatch ↦ ?_ }
    rcases h.settled batch hbatch with hin | hanswered | hold | hother
    · exact .inl hin
    · exact .inr (.inl hanswered)
    · refine .inr (.inr (.inl ?_))
      dsimp only
      omega
    · exact .inr (.inr (.inr hother))
  | queue | receive =>
    cases hstep
    exact { h with }
  | sessionStarted maintenance =>
    cases hstep
    refine h.newSession (Nat.le_succ _) ⟨le_rfl, fun _ ↦ Nat.succ_ne_zero _⟩ fun batch hbatch ↦ ?_
    have hle := (h.sent batch hbatch).2.1
    dsimp only
    omega
  | sessionEnded =>
    cases hstep
    exact h.newSession le_rfl ⟨Nat.zero_le _, nofun⟩ fun batch hbatch ↦ (h.sent batch hbatch).2.2
  | wake =>
    dsimp only [Machine.step] at hstep
    split at hstep
    · cases hstep
      refine ⟨h.limit, ?_, h.session, ?_, h.sent, h.unique, fun batch hbatch ↦ ?_⟩
      · intro batch hbatch
        exact h.inflight batch (Option.filter_eq_some_iff.mp hbatch).1
      · rintro _ _ ⟨⟩
        exact h.session
      rcases h.settled batch hbatch with hin | hrest
      · by_cases hsession : batch.session = s.session.id
        · exact .inl (Option.filter_eq_some_iff.mpr ⟨hin, decide_eq_true hsession⟩)
        · exact .inr (.inr (.inr hsession))
      · exact .inr hrest
    · cases hstep
  | answer removed =>
    dsimp only [Machine.step] at hstep
    split at hstep
    · next hworker =>
      cases hstep
      exact h.answer hworker (handled_applyAnswer s _ removed)
    · cases hstep
  | send readable delivered =>
    dsimp only [Machine.step] at hstep
    split at hstep
    · next session hworker =>
      cases hstep
      exact h.send hworker (sent_sendMaintenance s session readable delivered)
    · cases hstep

theorem left_outbox (hstep : Machine.step s a = some t) {e : Event}
    (he : e ∈ s.store.events) (hleft : e ∉ t.store.events) :
    ∃ removed answer batch, a = .answer removed ∧ Matching s answer batch ∧
      ∃ (index : Nat) (result : MaintenanceEventResult), batch.events[index]? = some e.eventID ∧
        answer.results[index]? = some result ∧
        Removes batch.events.length e.eventID result := by
  cases a with
  | tick | sessionStarted | sessionEnded | receive =>
    cases hstep
    exact absurd he hleft
  | queue eventID occurredAt size =>
    cases hstep
    refine absurd ?_ hleft
    dsimp only
    unfold Store.queue
    split
    · exact he
    split
    · exact he
    · exact mem_append_left _ he
  | wake =>
    dsimp only [Machine.step] at hstep
    split at hstep
    · cases hstep
      exact absurd he hleft
    · cases hstep
  | answer removed =>
    dsimp only [Machine.step] at hstep
    split at hstep
    · next session answer answers hworker =>
      cases hstep
      have hhandled := handled_applyAnswer s answer removed
      dsimp only at hleft
      generalize applyAnswer s answer removed = u at hhandled hleft
      cases hhandled with
      | ignored => exact absurd he hleft
      | @applied batch hinflight hrequest hsession =>
        refine ⟨removed, answer, batch, rfl,
          ⟨⟨session, answers, hworker⟩, hinflight, hrequest, hsession⟩, ?_⟩
        cases removed with
        | false => exact absurd he hleft
        | true =>
          have hremove : e.eventID ∈ (applyMaintenanceAck { s.state with inflight := none } s.clock
              batch answer.results).2 := by
            by_contra hkept
            exact hleft (mem_filter.mpr ⟨he, decide_eq_true hkept⟩)
          exact (remove_applyResults hremove).resolve_left not_mem_nil
    · cases hstep
  | send readable delivered =>
    dsimp only [Machine.step] at hstep
    split at hstep
    · next session hworker =>
      cases hstep
      have hsent := sent_sendMaintenance s session readable delivered
      dsimp only at hleft
      generalize sendMaintenance s session readable delivered = u at hsent hleft
      cases hsent <;> exact absurd he hleft
    · cases hstep

variable {batch : MaintenanceBatch}

theorem Sending.kept (h : Sending s) (hstep : Machine.step s a = some t)
    {answer : MaintenanceAnswer} (hmatching : Matching s answer batch)
    (hid : batch.events[index]? = some id)
    (hkeeps : ∀ result, answer.results[index]? = some result → ¬Removes batch.events.length id result) :
    ∀ e ∈ s.store.events, e.eventID = id → e ∈ t.store.events := by
  rintro e he rfl
  by_contra hleft
  obtain ⟨removed, answer', batch', -, hmatching', index', result, hid', hresult, hremoves⟩ :=
    left_outbox hstep he hleft
  obtain ⟨⟨_, _, hworker⟩, hinflight, -⟩ := hmatching
  obtain ⟨⟨_, _, hworker'⟩, hinflight', -⟩ := hmatching'
  have hbatch : batch = batch' := Option.some.inj (hinflight.symm.trans hinflight')
  have hanswer : answer = answer' := by
    have heq := hworker.symm.trans hworker'
    injection heq with _ heq
    exact (List.cons.inj heq).1
  subst hbatch hanswer
  have hindex : index = index' := by
    obtain ⟨hlt, -⟩ := List.getElem?_eq_some_iff.mp hid
    exact (getElem?_inj hlt (h.inflight batch hinflight).2).mp (hid.trans hid'.symm)
  exact hkeeps result (hindex ▸ hresult) hremoves

theorem sent_step (hstep : Machine.step s a = some t) : t.sent = s.sent ∧ (s.state.inflight = none →
        t.state.inflight = none ∧ t.state.limit = s.state.limit) ∨
      ∃ batch, t.sent = s.sent ++ [batch] ∧ batch.events.length ≤ s.state.limit := by
  cases a with
  | tick | queue | sessionStarted | sessionEnded | receive =>
    cases hstep
    exact .inl ⟨rfl, fun hnone ↦ ⟨hnone, rfl⟩⟩
  | wake =>
    dsimp only [Machine.step] at hstep
    split at hstep
    · cases hstep
      refine .inl ⟨rfl, fun hnone ↦ ⟨?_, rfl⟩⟩
      dsimp only
      rw [hnone]
      rfl
    · cases hstep
  | answer removed =>
    dsimp only [Machine.step] at hstep
    split at hstep
    · next session answer answers hworker =>
      cases hstep
      have hhandled := handled_applyAnswer s answer removed
      dsimp only
      generalize applyAnswer s answer removed = u at hhandled ⊢
      cases hhandled with
      | ignored => exact .inl ⟨rfl, fun hnone ↦ ⟨hnone, rfl⟩⟩
      | applied hinflight =>
        refine .inl ⟨rfl, fun hnone ↦ ?_⟩
        exact nomatch hnone.symm.trans hinflight
    · cases hstep
  | send readable delivered =>
    dsimp only [Machine.step] at hstep
    split at hstep
    · next session hworker =>
      cases hstep
      have hsent := sent_sendMaintenance s session readable delivered
      dsimp only
      generalize sendMaintenance s session readable delivered = u at hsent ⊢
      cases hsent with
      | waiting => exact .inl ⟨rfl, fun hnone ↦ ⟨hnone, rfl⟩⟩
      | nothing hlimit hinflight => exact .inl ⟨rfl, fun _ ↦ ⟨hinflight, hlimit⟩⟩
      | sent _ _ _ hids => exact .inr ⟨_, rfl, hids⟩
    · cases hstep

theorem next_batch_le {u v : System} (hnone : s.state.inflight = none)
    (hrun : Steps Machine.step s u) (hsent : u.sent = s.sent) (hstep : Machine.step u a = some v)
    (hbatch : v.sent = u.sent ++ [batch]) : batch.events.length ≤ s.state.limit := by
  have hstill : s.sent.length ≤ u.sent.length ∧ (u.sent.length = s.sent.length →
      u.state.inflight = none ∧ u.state.limit = s.state.limit) := by
    refine hrun.invariant (I := fun u ↦ s.sent.length ≤ u.sent.length ∧
      (u.sent.length = s.sent.length → u.state.inflight = none ∧ u.state.limit = s.state.limit))
      ⟨le_rfl, fun _ ↦ ⟨hnone, rfl⟩⟩ ?_
    rintro x b y ⟨hle, hsame⟩ - hxy
    rcases sent_step hxy with ⟨heq, hkeeps⟩ | ⟨_, heq, -⟩
    · rw [heq]
      refine ⟨hle, fun hlength ↦ ?_⟩
      obtain ⟨hinflight, hlimit⟩ := hsame hlength
      obtain ⟨hinflight', hlimit'⟩ := hkeeps hinflight
      exact ⟨hinflight', hlimit'.trans hlimit⟩
    · rw [heq, length_append, length_singleton]
      exact ⟨by omega, fun hlength ↦ by omega⟩
  obtain ⟨-, hlimit⟩ := hstill.2 (congrArg List.length hsent)
  rcases sent_step hstep with ⟨heq, -⟩ | ⟨batch', heq, hle⟩
  · have hlength := congrArg List.length (heq.symm.trans hbatch)
    rw [length_append, length_singleton] at hlength
    omega
  have hsame : batch' = batch := by
    have happend := append_cancel_left (heq.symm.trans hbatch)
    exact (List.cons.inj happend).1
  rw [← hsame, ← hlimit]
  exact hle

def Leaves (id : String) : Option MaintenanceEventResult → Prop
  | none => True
  | some result => ¬Answers id result ∨ result.persisted = false ∧ refused result = false

theorem Leaves.not_removes {answer : Option MaintenanceEventResult}
    (h : Leaves id answer) : ∀ result, answer = some result → ¬Removes size id result := by
  rintro result rfl ⟨hanswers, hremoves⟩
  rcases h with hother | ⟨hpersisted, hrefused⟩
  · exact hother hanswers
  · rcases hremoves with htrue | ⟨htrue, -⟩
    · exact nomatch hpersisted.symm.trans htrue
    · exact nomatch hrefused.symm.trans htrue

theorem TooLarge.not_removes (h : TooLarge size result) : ¬Removes size id result := by
  rintro ⟨-, htrue | ⟨-, hnot⟩⟩
  · exact nomatch h.1.symm.trans htrue
  · exact hnot h

theorem Matching.step {removed : Bool} {answer : MaintenanceAnswer}
    (h : Matching s answer batch) (hstep : Machine.step s (.answer removed) = some t) :
    t.state = (applyMaintenanceAck { s.state with inflight := none } s.clock batch
        answer.results).1 ∧
      (t.store = s.store ∨ t.store = s.store.remove (applyMaintenanceAck
        { s.state with inflight := none } s.clock batch answer.results).2) := by
  obtain ⟨⟨session, answers, hworker⟩, hinflight, hrequest, hsession⟩ := h
  simp only [Machine.step, hworker, applyAnswer, hinflight, hrequest, hsession, ne_eq,
    not_true_eq_false, or_self, if_false, Option.some.injEq] at hstep
  cases hstep
  refine ⟨rfl, ?_⟩
  cases removed
  · exact .inl rfl
  · exact .inr rfl

/-- The sender's contract with the outbox. -/
theorem maintenance_contract {store : Store} {clock : Int}
    (hrun : Steps Machine.step (initial store clock) s) :
    (1 ≤ s.state.limit ∧ s.state.limit ≤ maxMaintenanceBatchEvents) ∧ (inFlight s).length ≤ 1 ∧
    ∀ a t, Machine.step s a = some t →
      (∀ e ∈ s.store.events, e ∉ t.store.events → ∃ removed answer batch, a = .answer removed ∧
        Matching s answer batch ∧ ∃ (index : Nat) (result : MaintenanceEventResult),
          batch.events[index]? = some e.eventID ∧ answer.results[index]? = some result ∧
          Answers e.eventID result ∧ (result.persisted = true ∨ refused result = true)) ∧
      ∀ removed answer batch, a = .answer removed → Matching s answer batch →
        (∀ (index : Nat) id, batch.events[index]? = some id → Leaves id answer.results[index]? →
          ∀ e ∈ s.store.events, e.eventID = id → e ∈ t.store.events) ∧
        ((∀ result ∈ answer.results, TooLarge batch.events.length result) →
          t.store.events = s.store.events) ∧
        ∀ (index : Nat) id result, batch.events[index]? = some id →
          answer.results[index]? = some result → Answers id result →
          TooLarge batch.events.length result →
            (∀ e ∈ s.store.events, e.eventID = id → e ∈ t.store.events) ∧
            ∀ u c v next, Steps Machine.step t u → u.sent = t.sent → Machine.step u c = some v →
              v.sent = u.sent ++ [next] → next.events.length < batch.events.length := by
  have h : Sending s := hrun.invariant
    ⟨⟨show 1 ≤ maxMaintenanceBatchEvents by decide, le_rfl⟩, nofun, ⟨le_rfl, nofun⟩, nofun, nofun,
      nodup_nil, nofun⟩
    fun _ _ _ hs _ hstep ↦ hs.step hstep
  refine ⟨h.limit, h.inFlight_le, fun a t hstep ↦ ⟨fun e he hleft ↦ ?_, ?_⟩⟩
  · obtain ⟨removed, answer, batch, ha, hmatching, index, result, hid, hresult, hanswers, hremoves⟩ :=
      left_outbox hstep he hleft
    exact ⟨removed, answer, batch, ha, hmatching, index, result, hid, hresult, hanswers,
      hremoves.imp_right And.left⟩
  rintro removed answer batch rfl hmatching
  obtain ⟨hstate, hstore⟩ := hmatching.step hstep
  refine ⟨?_, fun hlarge ↦ ?_, ?_⟩
  · intro index id hid hleaves
    exact h.kept hstep hmatching hid hleaves.not_removes
  · rcases hstore with hstore | hstore
    · rw [hstore]
    rw [hstore]
    refine List.filter_eq_self.mpr fun e he ↦ decide_eq_true fun hremove ↦ ?_
    rcases remove_applyResults hremove with hnil | ⟨_, result, -, hresult, hremoves⟩
    · cases hnil
    · exact (hlarge result (List.mem_of_getElem? hresult)).not_removes hremoves
  · intro index id result hid hresult hanswers hlarge
    refine ⟨h.kept hstep hmatching hid fun result' hresult' ↦ ?_, ?_⟩
    · rw [hresult, Option.some.injEq] at hresult'
      exact hresult' ▸ hlarge.not_removes
    intro u c v next hu hsent hv hnext
    have hnone : t.state.inflight = none := by
      rw [hstate]
      exact inflight_applyMaintenanceAck
    refine (next_batch_le hnone hu hsent hv hnext).trans_lt ?_
    have hsize := hlarge.2.2
    rw [hstate]
    unfold applyMaintenanceAck
    dsimp only
    rw [if_pos (tooLarge_applyResults hid hresult hanswers hlarge)]
    omega

def sampleStore : Store := ⟨[⟨"a", 0, 1, 10⟩, ⟨"b", 1, 2, 10⟩, ⟨"c", 2, 3, 10⟩], 3, by decide⟩

/-- An acknowledgement of the first batch: the first event is refused with an error and
the code of a passing failure, for the second the batch is too large, and the third is
stored. -/
def mixedAnswer : MaintenanceAnswer :=
  ⟨1, 1, [⟨"a", false, "not stored", maintenanceErrorCodeUnavailable, 0⟩,
    ⟨"b", false, "", maintenanceErrorCodeBatchTooLarge, 0⟩, ⟨"c", true, "", "", 0⟩]⟩

def answering (answer : MaintenanceAnswer) : List Action :=
  [.sessionStarted true, .wake, .send true true, .receive answer, .wake]

def tooLargeAnswer : MaintenanceAnswer :=
  ⟨1, 1, [⟨"a", false, "too large", maintenanceErrorCodeBatchTooLarge, 0⟩,
    ⟨"b", false, "too large", maintenanceErrorCodeBatchTooLarge, 0⟩,
    ⟨"c", false, "too large", maintenanceErrorCodeBatchTooLarge, 0⟩]⟩

theorem maintenance_contract_too_large :
    ∃ s t, Steps Machine.step (initial sampleStore 0) s ∧
      Machine.step s (.answer true) = some t ∧ t.state.limit = 1 ∧
      t.store.events = s.store.events ∧ (inFlight s).length ≤ 1 := by
  have hrun : Steps Machine.step (initial sampleStore 0) _ :=
    steps_after (answering tooLargeAnswer) (by decide +kernel)
  obtain ⟨-, hone, hsteps⟩ := maintenance_contract hrun
  obtain ⟨-, hstore, -⟩ := (hsteps (.answer true) _ (step_after (by decide +kernel))).2 true
    tooLargeAnswer ⟨1, 1, ["a", "b", "c"], 0⟩ rfl
    ⟨⟨⟨1, true⟩, [], by decide +kernel⟩, by decide +kernel, rfl, rfl⟩
  exact ⟨_, _, hrun, step_after (by decide +kernel), by decide +kernel,
    hstore (by simp [tooLargeAnswer, TooLarge]), hone⟩

/-- An answer with the code of a passing failure removes its event when it has an error,
and an acknowledgement that finds the batch too large removes the events it says so of. -/
theorem mixed_answer_removes :
    ∃ s, Steps Machine.step (initial sampleStore 0) s ∧
      s.worker = .acking ⟨1, true⟩ [mixedAnswer] ∧
      s.state.inflight = some ⟨1, 1, ["a", "b", "c"], 0⟩ ∧
      s.store.events.map (·.eventID) = ["a", "b", "c"] ∧
      (Machine.step s (.answer true)).map (fun t ↦ t.store.events.map (·.eventID)) = some ["b"] :=
  exists_steps (answering mixedAnswer) _ (by decide +kernel)

end AnixAgent.Maintenance.Delivery
