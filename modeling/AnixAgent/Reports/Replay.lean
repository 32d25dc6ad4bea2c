import AnixAgent.Reports.SessionTracking

namespace AnixAgent.Reports.Replay

open ReportSpool.Machine ReportSpool.Accounting Machine Steps Departures SessionTracking
open Lib.Runs Lib.Tables

/-- A `report_unavailable` is taken in time when the loop has taken up the session and is
not about to send that batch; its duration fits. And a batch is sent in time when the
batches sent since the timeout that await their answer are recent for the pass too. -/
def Timely (s : System) : Action → Prop
  | .receive ack =>
    match s.receiver with
    | .running session => ack.unavailable = true → s.reports.session = session.id ∧
        s.loop.committed.all (fun cursor ↦ cursor.entry.batchId ≠ ack.batchId) = true ∧
        -2 ^ 63 ≤ ack.retryAfterMs * 10 ^ 6 ∧ ack.retryAfterMs * 10 ^ 6 < 2 ^ 63
    | _ => True
  | .loop _ _ =>
    match s.loop with
    | .streaming cursor => ∀ x ∈ s.awaiting.entries, s.clock - x.2 < reportAckTimeout →
        (s.reports.inflight.lookup x.1).all
          (fun recorded ↦ cursor.pass.now - recorded < reportAckTimeout) = true
    | _ => True
  | _ => True

instance (s : System) (a : Action) : Decidable (Timely s a) := by
  unfold Timely
  repeat' split
  all_goals infer_instance

theorem retry_eq_stated {ack : ReportAck} (hlow : -2 ^ 63 ≤ ack.retryAfterMs * 10 ^ 6)
    (hhigh : ack.retryAfterMs * 10 ^ 6 < 2 ^ 63) : ack.retry = ack.stated := by
  have hfits : Int.bmod (ack.retryAfterMs * 10 ^ 6) (2 ^ 64) = ack.retryAfterMs * 10 ^ 6 := by
    rw [Int.bmod_eq_of_le] <;> omega
  simp only [ReportAck.retry, ReportAck.stated, hfits]
  split <;> split <;> omega

/-- While the stream is open, a retry time that Control stated is in `notBefore`, or
it is over; and the loop is never about to send a batch before it. -/
structure Deferred (s : System) : Prop where
  clock : ∀ pass, s.loop.pass = some pass → pass.now ≤ s.clock
  stated : ∀ n, s.stream = some n → ∀ id due, s.retryAt.lookup id = some due →
    s.reports.session = n ∧ (s.reports.notBefore.lookup id = some due ∨
      due ≤ s.clock ∧ ∀ pass, s.loop.pass = some pass → due ≤ pass.now)
  decided : ∀ n, s.stream = some n → ∀ cursor, s.loop.committed = some cursor → ∀ due,
    s.retryAt.lookup cursor.entry.batchId = some due → due ≤ cursor.pass.now

/-- While the stream is open, the batches that await their answer are in `inflight`, though
perhaps with an earlier time, but for the one that was just sent; and the loop is only
about to send a batch when there is room in the window. -/
structure Windowed (s : System) : Prop where
  room : ∀ cursor, s.loop.committed = some cursor →
    recent s.reports.inflight cursor.pass.now < reportWindow
  covered : ∀ n, s.stream = some n → ∀ id sentAt, s.awaiting.lookup id = some sentAt →
    s.reports.session = n ∧ ((∃ recorded, s.reports.inflight.lookup id = some recorded) ∨
      ∃ cursor, s.loop.unrecorded = some cursor ∧ cursor.entry.batchId = id)

variable {s t : System}

theorem session_eq_of_started (h : Sessions s) {pass : Pass} (hloop : s.loop = .started pass)
    (hstream : s.stream = some s.reports.session) : s.reports.session = pass.session.id := by
  have hseen : s.loop.session = some pass.session := by
    rw [hloop]
    rfl
  rw [h.stream] at hstream
  cases hreceiver : s.receiver with
  | connected session =>
    rw [hreceiver] at hstream
    exact absurd (Option.some.inj hstream).symm (h.fresh session hreceiver).2.1
  | running session | removing session ack kinds | forgetting session ack =>
    rw [hreceiver] at hstream
    have heq : s.reports.session = session.id := (Option.some.inj hstream).symm
    rw [heq, h.current session (by rw [hreceiver]; rfl) heq _ hseen]
  | offline | closing session | ended =>
    rw [hreceiver] at hstream
    cases hstream

theorem Deferred.of_eq (h : Deferred s) (hclock : t.clock = s.clock)
    (hloop : t.loop = s.loop) (hstream : t.stream = s.stream ∨ t.stream = none)
    (hsession : t.reports.session = s.reports.session)
    (hbefore : t.reports.notBefore = s.reports.notBefore) (hretry : t.retryAt = s.retryAt) :
    Deferred t := by
  have hopen : ∀ n, t.stream = some n → s.stream = some n := by
    intro n hn
    rcases hstream with hstream | hstream
    · rw [← hstream]
      exact hn
    · rw [hstream] at hn
      cases hn
  constructor
  · rw [hloop, hclock]
    exact h.clock
  · rw [hretry, hsession, hbefore, hclock, hloop]
    exact fun n hn ↦ h.stated n (hopen n hn)
  · rw [hloop, hretry]
    exact fun n hn ↦ h.decided n (hopen n hn)

theorem Deferred.of_loop (h : Deferred s) (hclock : t.clock = s.clock)
    (hstream : t.stream = s.stream) (hsession : t.reports.session = s.reports.session)
    (hbefore : t.reports.notBefore = s.reports.notBefore) (hretry : t.retryAt = s.retryAt)
    (hpass : ∀ pass, t.loop.pass = some pass → s.loop.pass = some pass)
    (hcommitted : ∀ cursor, t.loop.committed = some cursor → s.loop.committed = some cursor) :
    Deferred t := by
  constructor
  · rw [hclock]
    exact fun pass hp ↦ h.clock pass (hpass pass hp)
  · rw [hstream, hretry, hsession, hbefore, hclock]
    intro n hn id due hdue
    obtain ⟨heq, hcases⟩ := h.stated n hn id due hdue
    exact ⟨heq, hcases.imp_right fun hover ↦ ⟨hover.1, fun pass hp ↦ hover.2 pass (hpass pass hp)⟩⟩
  · rw [hstream, hretry]
    exact fun n hn cursor hc ↦ h.decided n hn cursor (hcommitted cursor hc)

variable {cursor : Cursor}

theorem Deferred.check (h : Deferred s)
    (hpass : s.loop.pass = some cursor.pass) : Deferred (checkBatch s cursor) := by
  have hsession := (checkBatch_reports s cursor).1
  have hpass' : ∀ pass, (checkBatch s cursor).loop.pass = some pass → pass = cursor.pass := by
    intro pass hp
    rcases checkBatch_loop s cursor with hl | hl | hl <;> rw [hl] at hp <;> cases hp <;> rfl
  have hclock := h.clock cursor.pass hpass
  constructor
  · intro pass hp
    rw [hpass' pass hp]
    exact hclock
  · intro n hn id due hdue
    obtain ⟨heq, hcases⟩ := h.stated n hn id due hdue
    refine ⟨hsession.trans heq, ?_⟩
    rcases hcases with hbefore | ⟨hover, hnow⟩
    · refine (checkBatch_notBefore s cursor hbefore).imp_right fun hle ↦ ?_
      exact ⟨hle.trans hclock, fun pass hp ↦ by rw [hpass' pass hp]; exact hle⟩
    · exact .inr ⟨hover, fun pass hp ↦ by rw [hpass' pass hp]; exact hnow _ hpass⟩
  · intro n hn cursor' hcommitted due hdue
    have hchecked : (checkBatch s cursor).loop = .checked cursor ∧ cursor' = cursor := by
      rcases checkBatch_loop s cursor with hl | hl | hl <;> rw [hl] at hcommitted <;>
        cases hcommitted
      exact ⟨hl, rfl⟩
    rw [hchecked.2] at hdue ⊢
    obtain ⟨-, hcases⟩ := h.stated n hn _ due hdue
    rcases hcases with hbefore | ⟨-, hnow⟩
    · exact (checkBatch_checked hchecked.1).1 due hbefore
    · exact hnow _ hpass

theorem Deferred.take (h : Deferred s) (hs : Sessions s) {pass : Pass}
    (hloop : s.loop = .started pass) : Deferred (takeSession s pass) := by
  have hpass : ∀ pass', (takeSession s pass).loop.pass = some pass' → s.loop.pass = some pass' := by
    intro pass' hp
    rw [hloop]
    simp only [takeSession] at hp
    split at hp
    · exact hp
    · cases hp
  constructor
  · exact fun pass' hp ↦ h.clock pass' (hpass pass' hp)
  · intro n hn id due hdue
    obtain ⟨heq, hcases⟩ := h.stated n hn id due hdue
    have hsame := session_eq_of_started hs hloop (hn.trans (by rw [heq]))
    have hreports : (takeSession s pass).reports = s.reports := if_pos hsame
    rw [hreports]
    exact ⟨heq, hcases.imp_right fun hover ↦
      ⟨hover.1, fun pass' hp ↦ hover.2 pass' (hpass pass' hp)⟩⟩
  · intro n hn cursor hcommitted
    simp only [takeSession] at hcommitted
    split at hcommitted <;> cases hcommitted

theorem Deferred.defer (h : Deferred s) (hs : Sessions s) {ack : ReportAck}
    {session : Session} (hreceiver : s.receiver = .running session)
    (hack : ack.unavailable) (htimely : Timely s (.receive ack)) :
    Deferred (s.putOff ack) := by
  simp only [Timely, hreceiver] at htimely
  obtain ⟨hsession, hfree, hlow, hhigh⟩ := htimely hack
  rw [System.putOff, retry_eq_stated hlow hhigh]
  refine ⟨h.clock, fun n hn id due hdue ↦ ?_, fun n hn cursor hcommitted due hdue ↦ ?_⟩
  · dsimp only at hdue ⊢
    rw [lookup_insert_ite] at hdue ⊢
    by_cases hid : id = ack.batchId
    · rw [if_pos hid] at hdue ⊢
      have hstream := hs.stream
      rw [hreceiver] at hstream
      exact ⟨hsession.trans (Option.some.inj (hstream.symm.trans hn)), .inl hdue⟩
    · rw [if_neg hid] at hdue ⊢
      exact h.stated n hn id due hdue
  · dsimp only at hdue hcommitted
    rw [hcommitted] at hfree
    have hne : cursor.entry.batchId ≠ ack.batchId := by simpa using hfree
    rw [lookup_insert_ite, if_neg hne] at hdue
    exact h.decided n hn cursor hcommitted due hdue

variable {a : Action}

theorem Deferred.effect (h : Deferred s) (hs : Sessions s)
    (htimely : Timely s a) (heffect : Effect s a t) : Deferred t := by
  cases heffect with
  | quiet hclock =>
    refine ⟨fun pass hp ↦ (h.clock pass hp).trans hclock, fun n hn id due hdue ↦ ?_, h.decided⟩
    obtain ⟨heq, hcases⟩ := h.stated n hn id due hdue
    exact ⟨heq, hcases.imp_right fun hover ↦ ⟨hover.1.trans hclock, hover.2⟩⟩
  | wake => exact h.of_loop rfl rfl rfl rfl rfl nofun nofun
  | readClock hloop =>
    refine ⟨?_, fun n hn id due hdue ↦ ?_, fun _ _ _ hc ↦ nomatch hc⟩
    · rintro _ ⟨⟩
      exact le_rfl
    obtain ⟨heq, hcases⟩ := h.stated n hn id due hdue
    refine ⟨heq, hcases.imp_right fun hover ↦ ⟨hover.1, ?_⟩⟩
    rintro _ ⟨⟩
    exact hover.1
  | take hloop => exact h.take hs hloop
  | move hmoves =>
    exact h.of_loop rfl rfl rfl rfl rfl (fun _ hp ↦ hmoves.pass hp) fun _ hc ↦ hmoves.decided hc
  | check hloop => exact h.check (by rw [hloop]; rfl)
  | send hloop | record hloop =>
    exact h.of_loop rfl rfl rfl rfl rfl (fun pass hp ↦ by rw [hloop]; exact hp) nofun
  | connect =>
    refine ⟨h.clock, fun _ _ _ _ hdue ↦ ?_, fun _ _ _ _ _ hdue ↦ ?_⟩
    · cases hdue
    · cases hdue
  | defer hreceiver hack => exact h.defer hs hreceiver hack htimely
  | @forget _ ack =>
    refine ⟨h.clock, fun n hn id due hdue ↦ ?_, fun n hn cursor hc due hdue ↦ ?_⟩
    · dsimp only at hdue ⊢
      rw [lookup_erase_ite] at hdue ⊢
      by_cases hid : id = ack.batchId
      · rw [if_pos hid] at hdue
        cases hdue
      · rw [if_neg hid] at hdue ⊢
        exact h.stated n hn id due hdue
    · exact h.decided n hn cursor hc due (lookup_erase_le hdue)
  | close => exact h.of_eq rfl rfl (.inr rfl) rfl rfl rfl
  | start | accept | remove | finish | disconnect => exact h.of_eq rfl rfl (.inl rfl) rfl rfl rfl

section

variable (h : Windowed s)
include h

theorem Windowed.of_eq (hloop : t.loop = s.loop) (hstream : t.stream = s.stream ∨ t.stream = none)
    (hsession : t.reports.session = s.reports.session)
    (hinflight : t.reports.inflight = s.reports.inflight) (hawaiting : t.awaiting = s.awaiting) :
    Windowed t := by
  constructor
  · rw [hloop, hinflight]
    exact h.room
  · rw [hloop, hinflight, hsession, hawaiting]
    intro n hn
    apply h.covered n
    rcases hstream with hstream | hstream
    · rw [← hstream]
      exact hn
    · rw [hstream] at hn
      cases hn

theorem Windowed.of_loop (hstream : t.stream = s.stream)
    (hsession : t.stream = some s.reports.session → t.reports.session = s.reports.session)
    (hinflight : t.stream = some s.reports.session → t.reports.inflight = s.reports.inflight)
    (hawaiting : t.awaiting = s.awaiting) (hrecorded : s.loop.unrecorded = none)
    (hroom : ∀ cursor, t.loop.committed = some cursor →
      recent t.reports.inflight cursor.pass.now < reportWindow) : Windowed t := by
  refine ⟨hroom, fun n hn id sentAt hsent ↦ ?_⟩
  rw [hawaiting] at hsent
  obtain ⟨heq, hin | ⟨cursor, hc, -⟩⟩ := h.covered n (hstream ▸ hn) id sentAt hsent
  · rw [← heq] at hn
    rw [hsession hn, hinflight hn]
    exact ⟨heq, .inl hin⟩
  · rw [hrecorded] at hc
    cases hc

theorem Windowed.answer (id : String) (hloop : t.loop = s.loop)
    (hstream : t.stream = s.stream) (hsession : t.reports.session = s.reports.session)
    (hinflight : t.reports.inflight = s.reports.inflight.erase id)
    (hawaiting : t.awaiting = s.awaiting.erase id) : Windowed t := by
  constructor
  · rw [hloop, hinflight]
    exact fun cursor hc ↦ (count_erase_le _ _ _).trans_lt (h.room cursor hc)
  · rw [hloop, hstream, hsession, hinflight, hawaiting]
    intro n hn id' sentAt hsent
    rw [lookup_erase_ite] at hsent ⊢
    by_cases hid : id' = id
    · rw [if_pos hid] at hsent
      cases hsent
    · rw [if_neg hid] at hsent ⊢
      exact h.covered n hn id' sentAt hsent

theorem Windowed.send (hs : Sessions s) (hloop : s.loop = .streaming cursor)
    (hstream : s.stream = some cursor.pass.session.id) : Windowed (streamSend s cursor) := by
  refine ⟨fun _ hc ↦ ?_, fun n hn id sentAt hsent ↦ ?_⟩
  · cases hc
  have hsession : s.reports.session = n :=
    (hs.taken cursor.pass (by rw [hloop]; rfl)).trans (Option.some.inj (hstream.symm.trans hn))
  refine ⟨hsession, ?_⟩
  simp only [streamSend, lookup_insert_ite] at hsent
  split at hsent
  · next hid => exact .inr ⟨cursor, rfl, hid.symm⟩
  obtain ⟨-, hin | ⟨cursor', hc, -⟩⟩ := h.covered n hn id sentAt hsent
  · exact .inl hin
  · rw [hloop] at hc
    cases hc

theorem Windowed.record (hloop : s.loop = .sent cursor) (hloop' : t.loop = cursor.next)
    (hstream : t.stream = s.stream) (hsession : t.reports.session = s.reports.session)
    (hinflight : t.reports.inflight = s.reports.inflight.insert cursor.entry.batchId cursor.pass.now)
    (hawaiting : t.awaiting = s.awaiting) : Windowed t := by
  have hunrecorded : s.loop.unrecorded = some cursor := by
    rw [hloop]
    rfl
  refine ⟨fun _ hc ↦ ?_, fun n hn id sentAt hsent ↦ ?_⟩
  · rw [hloop'] at hc
    cases hc
  rw [hstream] at hn
  rw [hawaiting] at hsent
  obtain ⟨heq, hcases⟩ := h.covered n hn id sentAt hsent
  refine ⟨hsession.trans heq, .inl ?_⟩
  rw [hinflight, lookup_insert_ite]
  by_cases hid : id = cursor.entry.batchId
  · rw [if_pos hid]
    exact ⟨_, rfl⟩
  rw [if_neg hid]
  rcases hcases with hin | ⟨cursor', hc, hid'⟩
  · exact hin
  · cases hunrecorded.symm.trans hc
    exact absurd hid'.symm hid

theorem Windowed.effect (hs : Sessions s) (heffect : Effect s a t) : Windowed t := by
  cases heffect with
  | quiet | start | accept | remove | finish | disconnect =>
    exact h.of_eq rfl (.inl rfl) rfl rfl rfl
  | wake hloop | readClock hloop =>
    refine h.of_loop rfl (fun _ ↦ rfl) (fun _ ↦ rfl) rfl (by rw [hloop]; rfl) fun _ hc ↦ ?_
    cases hc
  | @take _ pass hloop =>
    have hreports : s.stream = some s.reports.session → (takeSession s pass).reports = s.reports :=
      fun hn ↦ if_pos (session_eq_of_started hs hloop hn)
    refine h.of_loop rfl (fun hn ↦ by rw [hreports hn]) (fun hn ↦ by rw [hreports hn]) rfl
      (by rw [hloop]; rfl) fun cursor hc ↦ ?_
    simp only [takeSession] at hc
    split at hc <;> cases hc
  | move hmoves =>
    exact h.of_loop rfl (fun _ ↦ rfl) (fun _ ↦ rfl) rfl hmoves.recorded
      fun cursor hc ↦ h.room cursor (hmoves.decided hc)
  | @check _ pass kind entry entries rest hloop =>
    obtain ⟨hsession, hinflight⟩ := checkBatch_reports s ⟨pass, kind, entry, entries, rest⟩
    refine h.of_loop rfl (fun _ ↦ hsession) (fun _ ↦ hinflight) rfl (by rw [hloop]; rfl)
      fun cursor hc ↦ ?_
    rw [hinflight]
    rcases checkBatch_loop s ⟨pass, kind, entry, entries, rest⟩ with hl | hl | hl <;>
      rw [hl] at hc <;> cases hc
    exact (checkBatch_checked hl).2
  | send hloop hstream => exact h.send hs hloop hstream
  | record hloop => exact h.record hloop rfl rfl rfl rfl rfl
  | connect =>
    refine ⟨h.room, fun _ _ _ _ hsent ↦ ?_⟩
    cases hsent
  | @defer ack | @forget _ ack => exact h.answer ack.batchId rfl rfl rfl rfl rfl
  | close => exact h.of_eq rfl (.inr rfl) rfl rfl rfl

theorem Windowed.outstanding_le {env : Env} {ok : Bool} (htimely : Timely s (.loop env ok))
    (hloop : s.loop = .streaming cursor) (hstream : s.stream = some cursor.pass.session.id) :
    recent (s.awaiting.insert cursor.entry.batchId s.clock) s.clock ≤ reportWindow := by
  have hroom := h.room cursor (by rw [hloop]; rfl)
  simp only [Timely, hloop] at htimely
  have hcovered : recent s.awaiting s.clock ≤ recent s.reports.inflight cursor.pass.now := by
    apply count_mono
    intro id sentAt hsent hrecent
    obtain ⟨-, ⟨recorded, hin⟩ | ⟨cursor', hc, -⟩⟩ := h.covered _ hstream id sentAt hsent
    · have hpass := htimely ⟨id, sentAt⟩ (AList.mem_lookup_iff.mp hsent) (by simpa using hrecent)
      exact ⟨recorded, hin, by simpa [hin] using hpass⟩
    · rw [hloop] at hc
      cases hc
  have hinsert : recent (s.awaiting.insert cursor.entry.batchId s.clock) s.clock ≤
      recent s.awaiting s.clock + 1 := count_insert_le _ _ _ _
  omega

end

/-- What holds of the messages sent holds after a step when it holds of the one it sends. -/
theorem log_of_effect {P : Sent → Prop} (heffect : Effect s a t) (h : ∀ sent ∈ s.log, P sent)
    (hsend : ∀ env ok cursor, a = .loop env ok → s.loop = .streaming cursor →
      s.stream = some cursor.pass.session.id → ∀ sent ∈ (streamSend s cursor).log.head?, P sent) :
    ∀ sent ∈ t.log, P sent := by
  cases heffect with
  | @send env ok cursor hloop hstream =>
    exact List.forall_mem_cons.mpr ⟨hsend env ok cursor rfl hloop hstream _ rfl, h⟩
  | quiet | wake | readClock | take | move | check | record | connect | start | defer | accept
  | remove | forget | close | finish | disconnect => exact h

theorem spooled_initial {codec : Codec} {spools : Kind → Option State} {clock : Int}
    (hopen : ∀ kind spool, spools kind = some spool → ∃ env dir limits access disk,
      openSpool codec env dir limits access disk = .ok spool) : Spooled (initial spools clock) := by
  refine ⟨fun kind spool hspool ↦ ?_, fun _ _ _ hreceiver ↦ ?_⟩
  · obtain ⟨env, dir, limits, access, disk, hok⟩ := hopen kind spool hspool
    obtain ⟨limits, -, -, rfl⟩ := ReportSpool.Indexing.openSpool_eq hok
    have hfresh := ReportSpool.Indexing.index_fresh codec env limits disk
    refine ⟨hfresh.indexed, ?_⟩
    rw [hfresh.lost, hfresh.drops]
    rfl
  · cases hreceiver

/-- A batch is sent after the retry time that was stated for it, and there is room for it. -/
structure Sent.Allowed (sent : Sent) : Prop where
  onTime : ∀ due, sent.retryAt = some due → due ≤ sent.sentAt
  window : sent.outstanding ≤ reportWindow

structure Paced (s : System) : Prop where
  sessions : Sessions s
  windowed : Windowed s
  deferred : Deferred s
  log : ∀ sent ∈ s.log, Sent.Allowed sent

theorem paced_initial (spools : Kind → Option State) (clock : Int) :
    Paced (initial spools clock) where
  sessions := ⟨rfl, nofun, nofun, ⟨le_rfl, le_rfl⟩, nofun, nofun, nofun, nofun⟩
  windowed := ⟨nofun, nofun⟩
  deferred := ⟨nofun, nofun, nofun⟩
  log := nofun

theorem Paced.step {config : Config} {codec : Codec} (h : Paced s) (htimely : Timely s a)
    (hstep : Machine.step config codec s a = some t) : Paced t := by
  have heffect := step_effect hstep
  refine ⟨h.sessions.effect heffect, h.windowed.effect h.sessions heffect,
    h.deferred.effect h.sessions htimely heffect, log_of_effect heffect h.log ?_⟩
  rintro env ok cursor rfl hloop hstream _ ⟨⟩
  refine ⟨fun due hdue ↦ ?_, h.windowed.outstanding_le htimely hloop hstream⟩
  have hpass : due ≤ cursor.pass.now :=
    h.deferred.decided _ hstream cursor (by rw [hloop]; rfl) due hdue
  exact hpass.trans (h.deferred.clock cursor.pass (by rw [hloop]; rfl))

/-- A batch leaves its spool for a final answer, a counted drop or an unreadable file, and a
`report_unavailable` keeps it. When answers are taken and batches are sent in time, none is sent
before its retry time, and the window bounds those that await their answer. -/
theorem replay_contract {config : Config} {codec : Codec} {spools : Kind → Option State}
    {clock : Int} (hopen : ∀ kind spool, spools kind = some spool →
      ∃ env dir limits access disk, openSpool codec env dir limits access disk = .ok spool) :
    (∀ s, Steps (step config codec) (initial spools clock) s →
      (∀ a t kind spool, step config codec s a = some t → s.spools kind = some spool →
        ∃ spool', t.spools kind = some spool' ∧ ∀ entry ∈ spool.spool.entries,
          entry ∉ spool'.spool.entries → Departs s a entry spool spool') ∧
      ∀ ack t, ack.unavailable = true → step config codec s (.receive ack) = some t →
        t.spools = s.spools ∧ t.receiver = s.receiver) ∧
    ∀ s, Reach (step config codec) Timely (initial spools clock) s →
      ∀ sent ∈ s.log, Sent.Allowed sent := by
  refine ⟨fun s hrun ↦ ?_, fun s hrun ↦ ?_⟩
  · have hspooled : Spooled s :=
      hrun.invariant (spooled_initial hopen) fun _ _ _ hs _ hstep ↦ hs.step hstep
    refine ⟨fun a t kind spool hstep hspool ↦ hspooled.departs hstep hspool,
      fun ack t hack hstep ↦ ?_⟩
    simp only [step, receiveReportAck, hack, if_true] at hstep
    split at hstep
    · next hreceiver =>
      cases hstep
      split
      · split
        · exact ⟨rfl, rfl⟩
        · exact ⟨rfl, rfl⟩
      · exact ⟨rfl, rfl⟩
    · cases hstep
  · exact (hrun.invariant (paced_initial spools clock)
      fun _ _ _ hs htimely hstep ↦ hs.step htimely hstep).log

open ReportSpool.FileNames ReportSpool.History

def oneBatchDisk : Table FileName File :=
  (∅ : Table FileName File).insert (fileName 1) ⟨true, [1, 1]⟩

def oneBatchSpool : State :=
  (index sampleCodec quiet ⟨newSpool ⟨10, 10 ^ 9, 5⟩, oneBatchDisk, []⟩).state

theorem open_oneBatchDisk :
    openSpool sampleCodec quiet "/spool" ⟨10, 10 ^ 9, 5⟩ none oneBatchDisk = .ok oneBatchSpool :=
  rfl

def oneBatchSpools : Kind → Option State
  | .traffic => some oneBatchSpool
  | _ => none

def sampleConfig : Config := ⟨"proxy", 1, "boot"⟩

def patience : ReportAck := ⟨"a", false, "", "report_unavailable", 60000⟩

def passes (n : Nat) : List Action := List.replicate n (.loop quiet true)

def patientRun : List Action :=
  [.connect true true, .start] ++ passes 14 ++ [.receive patience, .tick (60 * 10 ^ 9)] ++ passes 8

theorem replay_contract_patient :
    (∀ kind spool, oneBatchSpools kind = some spool →
      ∃ env dir limits access disk, openSpool sampleCodec env dir limits access disk = .ok spool) ∧
    ∃ s, Reach (step sampleConfig sampleCodec) Timely (initial oneBatchSpools 0) s ∧
      s.log.map (·.retryAt) = [some (60 * 10 ^ 9), none] ∧
      ∀ sent ∈ s.log, Sent.Allowed sent := by
  have hopen : ∀ kind spool, oneBatchSpools kind = some spool →
      ∃ env dir limits access disk, openSpool sampleCodec env dir limits access disk = .ok spool := by
    intro kind spool hspool
    cases kind <;> cases hspool
    exact ⟨_, _, _, _, _, open_oneBatchDisk⟩
  have hrun : Reach (step sampleConfig sampleCodec) Timely (initial oneBatchSpools 0) _ :=
    reach_after patientRun (by decide +kernel)
  exact ⟨hopen, _, hrun, by decide +kernel, (replay_contract hopen).2 _ hrun⟩

def lateAnswerRun : List Action :=
  [.connect true true, .start] ++ passes 14 ++ [.tick (30 * 10 ^ 9)] ++ passes 5 ++
    [.receive patience] ++ passes 3

/-- A codec for the batches 0 to 16. -/
def numberCodec : Codec where
  marshal message :=
    match (List.range 17).find? fun n ↦ message = batch (toString n) with
    | some n => .ok [UInt8.ofNat n]
    | none => .error "unknown message"
  unmarshal data :=
    match data with
    | [n] => .ok (batch (toString n.toNat))
    | _ => .error "not a batch"
  unmarshal_marshal message data h := by
    split at h
    · next n hfind =>
      cases h
      have hbound : n < 17 := List.mem_range.mp (List.mem_of_find?_eq_some hfind)
      have hmessage : message = batch (toString n) := by simpa using List.find?_some hfind
      have hn : (UInt8.ofNat n).toNat = n := Nat.mod_eq_of_lt (by omega)
      show Except.ok (batch (toString (UInt8.ofNat n).toNat)) = Except.ok message
      rw [hn, hmessage]
    · cases h

def numberDisk (numbers : List Nat) : Table FileName File :=
  numbers.foldl (fun disk n ↦ disk.insert (fileName n) ⟨true, [UInt8.ofNat n]⟩) ∅

def numberSpool (numbers : List Nat) : State :=
  (index numberCodec quiet ⟨newSpool ⟨20, 10 ^ 9, 20⟩, numberDisk numbers, []⟩).state

def numberSpools : Kind → Option State
  | .traffic => some (numberSpool [0])
  | .logs => some (numberSpool ((List.range 17).drop 1))
  | .destinations => none

def blockedRun : List Action :=
  [.connect true true, .start] ++ passes 9 ++
    [.receive ⟨"0", false, "", "report_unavailable", 30500⟩, .tick (29500 * 10 ^ 6)] ++ passes 85 ++
    [.tick (10 ^ 9)] ++ passes 8

/-- A batch is sent before its retry time, because the answer comes between the check and the
sending. And 17 batches await their answer: 16 of them were sent a second ago, in a pass that began
30.5 seconds ago. -/
theorem late_answer_overtaken :
    (openSpool sampleCodec quiet "/spool" ⟨10, 10 ^ 9, 5⟩ none oneBatchDisk = .ok oneBatchSpool ∧
      ∃ s, Steps (step sampleConfig sampleCodec) (initial oneBatchSpools 0) s ∧
        ∃ sent ∈ s.log, ∃ due, sent.retryAt = some due ∧ sent.sentAt < due) ∧
    (∀ numbers, openSpool numberCodec quiet "/spool" ⟨20, 10 ^ 9, 20⟩ none (numberDisk numbers) =
        .ok (numberSpool numbers)) ∧
      ∃ s, Steps (step sampleConfig numberCodec) (initial numberSpools 0) s ∧
        ∃ sent ∈ s.log, reportWindow < sent.outstanding := by
  refine ⟨⟨open_oneBatchDisk, ?_⟩, fun _ ↦ rfl, exists_steps blockedRun _ (by decide +kernel)⟩
  have hreach : ∃ s, Steps (step sampleConfig sampleCodec) (initial oneBatchSpools 0) s ∧
      (s.log.any fun sent ↦ sent.retryAt.any (sent.sentAt < ·)) = true :=
    exists_steps lateAnswerRun _ (by decide +kernel)
  obtain ⟨s, hrun, hlog⟩ := hreach
  obtain ⟨sent, hsent, hearly⟩ := List.any_eq_true.mp hlog
  obtain ⟨due, hdue, hlt⟩ := (Option.any_eq_true _ _).mp hearly
  exact ⟨s, hrun, sent, hsent, due, hdue, of_decide_eq_true hlt⟩

end AnixAgent.Reports.Replay
