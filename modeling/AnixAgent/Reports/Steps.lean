import AnixAgent.Reports.Machine

namespace AnixAgent.Reports.Steps

open ReportSpool.Machine Machine Lib.Tables Option

structure Moves (l l' : Loop) : Prop where
  replay : l'.replay = l.replay ∨ l' = .waiting
  committed : l'.committed = none ∨ l'.committed = l.committed
  recorded : l.unrecorded = none
  inside : l.replay.isSome

variable {l l' : Loop}

theorem session_of_replay {pass : Pass} (h : l.replay = some pass) :
    l.session = some pass.session := by
  cases l <;> first | exact congrArg (Option.map Pass.session) h | cases h

theorem pass_of_replay {pass : Pass} (h : l.replay = some pass) : l.pass = some pass := by
  cases l <;> first | exact h | cases h

theorem Moves.session (h : Moves l l') : l'.session = l.session ∨ l' = .waiting := by
  rcases h.replay with hreplay | hwaiting
  · obtain ⟨pass, hpass⟩ := isSome_iff_exists.mp h.inside
    rw [hpass] at hreplay
    exact .inl ((session_of_replay hreplay).trans (session_of_replay hpass).symm)
  · exact .inr hwaiting

theorem Moves.pass (h : Moves l l') {pass : Pass} (hpass : l'.pass = some pass) :
    l.pass = some pass := by
  rcases h.replay with hreplay | hwaiting
  · obtain ⟨pass', hpass'⟩ := isSome_iff_exists.mp h.inside
    rw [hpass'] at hreplay
    rw [pass_of_replay hreplay] at hpass
    rw [pass_of_replay hpass', hpass]
  · rw [hwaiting] at hpass
    cases hpass

theorem Moves.decided (h : Moves l l') {cursor : Cursor}
    (hcursor : l'.committed = some cursor) : l.committed = some cursor := by
  rcases h.committed with hnone | hsame
  · rw [hnone] at hcursor
    cases hcursor
  · rw [← hsame]
    exact hcursor

theorem checkBatch_loop (s : System) (cursor : Cursor) :
    (checkBatch s cursor).loop = cursor.next ∨ (checkBatch s cursor).loop = .waiting ∨
      (checkBatch s cursor).loop = .checked cursor := by
  simp only [checkBatch, Cursor.next]
  split
  · exact .inl rfl
  · split
    · exact .inr (.inl rfl)
    · exact .inr (.inr rfl)

theorem checkBatch_reports (s : System) (cursor : Cursor) :
    (checkBatch s cursor).reports.session = s.reports.session ∧
      (checkBatch s cursor).reports.inflight = s.reports.inflight := by
  simp only [checkBatch]
  split <;> exact ⟨rfl, rfl⟩

theorem checkBatch_notBefore (s : System) (cursor : Cursor) {id : String} {due : Int}
    (h : s.reports.notBefore.lookup id = some due) :
    (checkBatch s cursor).reports.notBefore.lookup id = some due ∨ due ≤ cursor.pass.now := by
  simp only [checkBatch]
  split
  · exact .inl h
  next hdeferred =>
  by_cases hid : id = cursor.entry.batchId
  · subst hid
    right
    simpa [h] using hdeferred
  left
  show (s.reports.notBefore.erase cursor.entry.batchId).lookup id = some due
  rw [lookup_erase_ite, if_neg hid]
  exact h

variable {s t : System}

theorem checkBatch_checked {cursor : Cursor} (h : (checkBatch s cursor).loop = .checked cursor) :
    (∀ due, s.reports.notBefore.lookup cursor.entry.batchId = some due → due ≤ cursor.pass.now) ∧
      recent s.reports.inflight cursor.pass.now < reportWindow := by
  simp only [checkBatch] at h
  split at h
  · cases h
  next hready =>
  split at h
  · cases h
  next hroom =>
  refine ⟨fun due hdue ↦ ?_, not_le.mp hroom⟩
  rw [hdue] at hready
  simp only [any_some, decide_eq_true_eq, not_or] at hready
  omega

inductive Effect (s : System) : Action → System → Prop
  | quiet {a : Action} {spools : Kind → Option State} {submitting : List (Kind × AgentToControl)}
      {seq : Nat} {clock : Int} (hclock : s.clock ≤ clock) :
      Effect s a { s with spools := spools, submitting := submitting, seq := seq, clock := clock }
  | wake {a : Action} (hloop : s.loop = .waiting) :
      Effect s a { s with loop := .woken s.dataSession }
  | readClock {a : Action} {session : Session} (hloop : s.loop = .woken session) :
      Effect s a { s with loop := .started ⟨session, s.clock⟩ }
  | take {a : Action} {pass : Pass} (hloop : s.loop = .started pass) :
      Effect s a (takeSession s pass)
  | move {a : Action} {spools : Kind → Option State} {l : Loop} (hmoves : Moves s.loop l) :
      Effect s a { s with spools := spools, loop := l }
  | check {a : Action} {pass : Pass} {kind : Kind} {entry : Entry} {entries : List Entry}
      {rest : List Kind} (hloop : s.loop = .batches pass kind (entry :: entries) rest) :
      Effect s a (checkBatch s ⟨pass, kind, entry, entries, rest⟩)
  | send {env : Env} {ok : Bool} {cursor : Cursor} (hloop : s.loop = .streaming cursor)
      (hstream : s.stream = some cursor.pass.session.id) :
      Effect s (.loop env ok) (streamSend s cursor)
  | record {a : Action} {cursor : Cursor} (hloop : s.loop = .sent cursor) :
      Effect s a { s with
        reports := { s.reports with
          inflight := s.reports.inflight.insert cursor.entry.batchId cursor.pass.now }
        loop := cursor.next }
  | connect {a : Action} {session : Session} (hreceiver : s.receiver = .offline)
      (hid : session.id = s.sessions + 1) :
      Effect s a (s.connect session)
  | start {a : Action} {session : Session} (hreceiver : s.receiver = .connected session) :
      Effect s a { s with dataSession := session, receiver := .running session }
  | defer {ack : ReportAck} {session : Session} (hreceiver : s.receiver = .running session)
      (hack : ack.unavailable = true) :
      Effect s (.receive ack) (s.putOff ack)
  | accept {a : Action} {ack : ReportAck} {session : Session} {kinds : List Kind}
      (hreceiver : s.receiver = .running session) (hack : ack.unavailable = false) :
      Effect s a { s with receiver := .removing session ack kinds }
  | remove {a : Action} {ack : ReportAck} {session : Session} {kinds : List Kind}
      {spools : Kind → Option State} {receiver : Receiver}
      (hreceiver : s.receiver = .removing session ack kinds)
      (hnext : (∃ kinds, receiver = .removing session ack kinds) ∨
        receiver = .forgetting session ack) :
      Effect s a { s with spools := spools, receiver := receiver }
  | forget {a : Action} {ack : ReportAck} {session : Session} {acked duplicates refused : Nat}
      (hreceiver : s.receiver = .forgetting session ack) :
      Effect s a { s with
        reports := { s.reports with
          inflight := s.reports.inflight.erase ack.batchId
          notBefore := s.reports.notBefore.erase ack.batchId
          acked := acked
          duplicates := duplicates
          refused := refused }
        receiver := .running session
        awaiting := s.awaiting.erase ack.batchId
        retryAt := s.retryAt.erase ack.batchId }
  | close {a : Action} {session : Session} (hreceiver : s.receiver = .running session) :
      Effect s a { s with receiver := .closing session, stream := none }
  | finish {a : Action} {session : Session} (hreceiver : s.receiver = .closing session) :
      Effect s a { s with receiver := .ended, dataSession := noSession }
  | disconnect {a : Action} (hreceiver : s.receiver = .ended) :
      Effect s a { s with receiver := .offline, connected := none }

theorem loopStep_effect (codec : Codec) (env : Env) (ok : Bool) (s : System) :
    Effect s (.loop env ok) (loopStep codec env ok s) := by
  cases hloop : s.loop with
  | waiting =>
    simp only [loopStep, hloop]
    exact .wake hloop
  | woken session =>
    simp only [loopStep, hloop]
    exact .readClock hloop
  | started pass =>
    simp only [loopStep, hloop]
    exact .take hloop
  | replaying pass kinds =>
    cases kinds with
    | nil =>
      simp only [loopStep, hloop]
      exact .move (hloop ▸ ⟨.inr rfl, .inl rfl, rfl, rfl⟩)
    | cons kind rest =>
      cases hspool : s.spools kind with
      | none =>
        simp only [loopStep, hloop, hspool]
        exact .move (hloop ▸ ⟨.inl rfl, .inl rfl, rfl, rfl⟩)
      | some spool =>
        simp only [loopStep, hloop, hspool]
        split <;> exact .move (hloop ▸ ⟨.inl rfl, .inl rfl, rfl, rfl⟩)
  | batches pass kind entries rest =>
    cases entries with
    | nil =>
      simp only [loopStep, hloop]
      exact .move (hloop ▸ ⟨.inl rfl, .inl rfl, rfl, rfl⟩)
    | cons entry entries =>
      simp only [loopStep, hloop]
      exact .check hloop
  | checked cursor =>
    simp only [loopStep, hloop]
    split
    · exact .move (hloop ▸ ⟨.inl rfl, .inl rfl, rfl, rfl⟩)
    split
    · exact .move (hloop ▸ ⟨.inl rfl, .inl rfl, rfl, rfl⟩)
    · exact .move (hloop ▸ ⟨.inl rfl, .inl rfl, rfl, rfl⟩)
    · exact .move (hloop ▸ ⟨.inl rfl, .inr rfl, rfl, rfl⟩)
  | unreadable cursor err =>
    simp only [loopStep, hloop]
    split <;> exact .move (hloop ▸ ⟨.inl rfl, .inl rfl, rfl, rfl⟩)
  | sending cursor =>
    simp only [loopStep, hloop]
    split
    · exact .move (hloop ▸ ⟨.inl rfl, .inr rfl, rfl, rfl⟩)
    · exact .move (hloop ▸ ⟨.inr rfl, .inl rfl, rfl, rfl⟩)
  | streaming cursor =>
    simp only [loopStep, hloop]
    split
    · next h => exact .send hloop h.2
    · exact .move (hloop ▸ ⟨.inr rfl, .inl rfl, rfl, rfl⟩)
  | sent cursor =>
    simp only [loopStep, hloop]
    exact .record hloop

theorem handleStep_effect {env : Env} (a : Action) (h : handleStep env s = some t) :
    Effect s a t := by
  unfold handleStep at h
  split at h
  · next session ack hreceiver =>
    cases h
    exact .remove hreceiver (.inr rfl)
  · next session ack kind rest hreceiver =>
    split at h
    · cases h
      exact .remove hreceiver (.inl ⟨_, rfl⟩)
    cases h
    refine .remove hreceiver ?_
    split
    · exact .inr rfl
    · exact .inl ⟨_, rfl⟩
  · next session ack hreceiver =>
    cases h
    exact .forget hreceiver
  · cases h

theorem step_effect {config : Config} {codec : Codec} {a : Action}
    (h : step config codec s a = some t) : Effect s a t := by
  cases a with
  | tick duration =>
    cases h
    exact .quiet (by omega)
  | loop env ok =>
    cases h
    exact loopStep_effect codec env ok s
  | submit kind content =>
    obtain ⟨-, rfl⟩ := ite_some_none_eq_some.mp h
    exact .quiet le_rfl
  | append kind message sentAtUnixMs env =>
    simp only [step] at h
    split at h
    · cases h
    split at h
    · cases h
      exact .quiet le_rfl
    · cases h
  | connect reports destinations =>
    simp only [step] at h
    split at h
    · next hreceiver =>
      cases h
      exact .connect hreceiver rfl
    · cases h
  | start | close | finish | disconnect =>
    simp only [step] at h
    split at h
    · next hreceiver =>
      cases h
      first
        | exact .start hreceiver
        | exact .close hreceiver
        | exact .finish hreceiver
        | exact .disconnect hreceiver
    · cases h
  | receive ack =>
    simp only [step] at h
    split at h
    · next hreceiver =>
      cases h
      split
      · unfold receiveReportAck
        split
        · exact .quiet le_rfl
        · split
          · next hack => exact .defer hreceiver hack
          · next hack => exact .accept hreceiver (by simpa using hack)
      · exact .quiet le_rfl
    · cases h
  | handle env => exact handleStep_effect _ h

end AnixAgent.Reports.Steps
