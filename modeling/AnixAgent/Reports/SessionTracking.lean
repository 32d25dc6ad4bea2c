import AnixAgent.Reports.Departures

namespace AnixAgent.Reports.SessionTracking

open ReportSpool.Machine Machine Steps Departures Lib.Runs Lib.Tables

/-- What the loop and the receive loop know of the sessions. A session is new to
the loop until the loop takes it up, and from then on the loop sees no other one
while its stream is open. -/
structure Sessions (s : System) : Prop where
  stream : s.stream = s.receiver.session.map (·.id)
  known : ∀ session, s.receiver.session = some session → session.id ≤ s.sessions
  live : ∀ session, s.receiver.live = some session → s.dataSession = session
  bound : s.dataSession.id ≤ s.sessions ∧ s.reports.session ≤ s.sessions
  seen : ∀ session, s.loop.session = some session → session.id ≤ s.sessions
  fresh : ∀ session, s.receiver = .connected session → s.dataSession.id ≠ session.id ∧
    s.reports.session ≠ session.id ∧ ∀ seen, s.loop.session = some seen → seen.id ≠ session.id
  current : ∀ session, s.receiver.live = some session → s.reports.session = session.id →
    ∀ seen, s.loop.session = some seen → seen.id = session.id
  taken : ∀ pass, s.loop.replay = some pass → s.reports.session = pass.session.id

variable {s t : System}

theorem Sessions.of_loop (h : Sessions s) (hstream : t.stream = s.stream)
    (hreceiver : t.receiver = s.receiver) (hdata : t.dataSession = s.dataSession)
    (hsessions : t.sessions = s.sessions) (hreports : t.reports.session = s.reports.session)
    (hseen : t.loop.session = s.loop.session ∨ t.loop.session = none)
    (hreplay : ∀ pass, t.loop.replay = some pass → t.reports.session = pass.session.id) :
    Sessions t := by
  have hseen' : ∀ session, t.loop.session = some session → s.loop.session = some session := by
    intro session hsession
    rcases hseen with hseen | hseen
    · rw [← hseen]
      exact hsession
    · rw [hseen] at hsession
      cases hsession
  constructor
  · rw [hstream, hreceiver]
    exact h.stream
  · rw [hreceiver, hsessions]
    exact h.known
  · rw [hreceiver, hdata]
    exact h.live
  · rw [hdata, hsessions, hreports]
    exact h.bound
  · rw [hsessions]
    exact fun session hsession ↦ h.seen session (hseen' session hsession)
  · rw [hreceiver, hdata, hreports]
    intro session hsession
    obtain ⟨hdataId, hreportsId, hloop⟩ := h.fresh session hsession
    exact ⟨hdataId, hreportsId, fun seen hs ↦ hloop seen (hseen' seen hs)⟩
  · rw [hreceiver, hreports]
    exact fun session hlive heq seen hs ↦ h.current session hlive heq seen (hseen' seen hs)
  · exact hreplay

variable {session : Session}

section

variable (h : Sessions s)
include h

theorem Sessions.of_receiver (hlive : s.receiver.live = some session)
    (hlive' : t.receiver.live = some session) (hstream : t.stream = s.stream)
    (hdata : t.dataSession = s.dataSession) (hsessions : t.sessions = s.sessions)
    (hreports : t.reports.session = s.reports.session) (hloop : t.loop = s.loop) : Sessions t := by
  have hopen : ∀ {r : Receiver}, r.live = some session → r.session = some session := by
    intro r hr
    cases r <;> first | exact hr | cases hr
  constructor
  · rw [hstream, h.stream, hopen hlive, hopen hlive']
  · rw [hopen hlive', hsessions]
    rintro _ ⟨⟩
    exact h.known session (hopen hlive)
  · rw [hlive', hdata]
    rintro _ ⟨⟩
    exact h.live session hlive
  · rw [hdata, hsessions, hreports]
    exact h.bound
  · rw [hloop, hsessions]
    exact h.seen
  · intro other hother
    rw [hother] at hlive'
    cases hlive'
  · rw [hlive', hreports, hloop]
    rintro _ ⟨⟩
    exact h.current session hlive
  · rw [hloop, hreports]
    exact h.taken

theorem Sessions.take {pass : Pass} (hloop : s.loop = .started pass) :
    Sessions (takeSession s pass) := by
  have hseen : s.loop.session = some pass.session := by rw [hloop]; rfl
  have hreports : (takeSession s pass).reports.session = pass.session.id := by
    simp only [takeSession]
    split
    · assumption
    · rfl
  have hseen' : ∀ session, (takeSession s pass).loop.session = some session →
      session = pass.session := by
    intro session hsession
    simp only [takeSession] at hsession
    split at hsession <;> cases hsession
    rfl
  refine ⟨h.stream, h.known, h.live, ⟨h.bound.1, ?_⟩, ?_, ?_, ?_, ?_⟩
  · rw [hreports]
    exact h.seen _ hseen
  · intro session hsession
    rw [hseen' session hsession]
    exact h.seen _ hseen
  · intro session hsession
    obtain ⟨hdata, -, hfresh⟩ := h.fresh session hsession
    refine ⟨hdata, ?_, fun seen hs ↦ ?_⟩
    · rw [hreports]
      exact hfresh _ hseen
    · rw [hseen' seen hs]
      exact hfresh _ hseen
  · intro session _ heq seen hs
    rw [hseen' seen hs, ← hreports]
    exact heq
  · intro pass' hpass
    rw [hreports, ← hseen' _ (session_of_replay hpass)]

theorem Sessions.wake :
    Sessions { s with loop := .woken s.dataSession } where
  stream := h.stream
  known := h.known
  live := h.live
  bound := h.bound
  seen := by
    rintro session ⟨⟩
    exact h.bound.1
  fresh session hsession := by
    obtain ⟨hdata, hreports, -⟩ := h.fresh session hsession
    refine ⟨hdata, hreports, ?_⟩
    rintro seen ⟨⟩
    exact hdata
  current session hlive _ := by
    rintro seen ⟨⟩
    rw [h.live session hlive]
  taken := nofun

theorem Sessions.connect (hid : session.id = s.sessions + 1) : Sessions (s.connect session) where
  stream := rfl
  known := by
    rintro _ ⟨⟩
    exact hid.le
  live := nofun
  bound := ⟨h.bound.1.trans (Nat.le_succ _), h.bound.2.trans (Nat.le_succ _)⟩
  seen other hother := (h.seen other hother).trans (Nat.le_succ _)
  fresh := by
    rintro _ ⟨⟩
    have hdata := h.bound.1
    have hreports := h.bound.2
    refine ⟨?_, ?_, fun seen hseen ↦ ?_⟩
    · show s.dataSession.id ≠ session.id
      omega
    · show s.reports.session ≠ session.id
      omega
    · have hle := h.seen seen hseen
      omega
  current := nofun
  taken := h.taken

theorem Sessions.start (hreceiver : s.receiver = .connected session) :
    Sessions { s with dataSession := session, receiver := .running session } where
  stream := by
    have hstream := h.stream
    rw [hreceiver] at hstream
    exact hstream
  known := by
    rintro _ ⟨⟩
    exact h.known session (by rw [hreceiver]; rfl)
  live := by
    rintro _ ⟨⟩
    rfl
  bound := ⟨h.known session (by rw [hreceiver]; rfl), h.bound.2⟩
  seen := h.seen
  fresh := nofun
  current := by
    rintro _ ⟨⟩ heq
    exact absurd heq (h.fresh session hreceiver).2.1
  taken := h.taken

theorem Sessions.leave (hsession : t.receiver.session = none)
    (hlive : t.receiver.live = none) (hstream : t.stream = none)
    (hdata : t.dataSession.id ≤ s.sessions) (hsessions : t.sessions = s.sessions)
    (hreports : t.reports = s.reports) (hloop : t.loop = s.loop) : Sessions t := by
  constructor
  · rw [hstream, hsession]
    rfl
  · rw [hsession]
    exact nofun
  · rw [hlive]
    exact nofun
  · rw [hsessions, hreports]
    exact ⟨hdata, h.bound.2⟩
  · rw [hloop, hsessions]
    exact h.seen
  · intro session hconnected
    rw [hconnected] at hsession
    cases hsession
  · rw [hlive]
    exact nofun
  · rw [hloop, hreports]
    exact h.taken

theorem Sessions.effect {a : Action} (heffect : Effect s a t) : Sessions t := by
  cases heffect with
  | quiet => exact { h with }
  | wake => exact h.wake
  | readClock hloop =>
    refine h.of_loop rfl rfl rfl rfl rfl (.inl ?_) nofun
    rw [hloop]
    rfl
  | take hloop => exact h.take hloop
  | @move _ spools l hmoves =>
    refine h.of_loop rfl rfl rfl rfl rfl ?_ fun pass hpass ↦ ?_
    · rcases hmoves.session with hsession | hwaiting
      · exact .inl hsession
      · exact .inr (by rw [hwaiting]; rfl)
    rcases hmoves.replay with hreplay | hwaiting
    · exact h.taken pass (hreplay.symm.trans hpass)
    · rw [show l = _ from hwaiting] at hpass
      cases hpass
  | @check _ pass kind entry entries rest hloop =>
    have hreports := (checkBatch_reports s ⟨pass, kind, entry, entries, rest⟩).1
    have htaken := h.taken pass (by rw [hloop]; rfl)
    refine h.of_loop rfl rfl rfl rfl hreports ?_ fun pass' hpass ↦ ?_
    · rw [hloop]
      rcases checkBatch_loop s ⟨pass, kind, entry, entries, rest⟩ with hl | hl | hl <;> rw [hl]
      · exact .inl rfl
      · exact .inr rfl
      · exact .inl rfl
    · rw [hreports, htaken]
      rcases checkBatch_loop s ⟨pass, kind, entry, entries, rest⟩ with hl | hl | hl <;>
        rw [hl] at hpass <;> cases hpass <;> rfl
  | @send _ _ cursor hloop | @record _ cursor hloop =>
    refine h.of_loop rfl rfl rfl rfl rfl (.inl ?_) ?_
    · rw [hloop]
      rfl
    · rintro _ ⟨⟩
      exact h.taken cursor.pass (by rw [hloop]; rfl)
  | connect _ hid => exact h.connect hid
  | start hreceiver => exact h.start hreceiver
  | defer hreceiver =>
    exact h.of_receiver (by rw [hreceiver]; rfl) (by rw [hreceiver]; rfl) rfl rfl rfl rfl rfl
  | accept hreceiver | forget hreceiver =>
    exact h.of_receiver (by rw [hreceiver]; rfl) rfl rfl rfl rfl rfl rfl
  | remove hreceiver hnext =>
    refine h.of_receiver (by rw [hreceiver]; rfl) ?_ rfl rfl rfl rfl rfl
    rcases hnext with ⟨kinds, rfl⟩ | rfl <;> rfl
  | close => exact h.leave rfl rfl rfl h.bound.1 rfl rfl rfl
  | finish hreceiver =>
    refine h.leave rfl rfl ?_ (Nat.zero_le _) rfl rfl rfl
    have hstream := h.stream
    rw [hreceiver] at hstream
    exact hstream
  | disconnect hreceiver =>
    refine h.leave rfl rfl ?_ h.bound.1 rfl rfl rfl
    have hstream := h.stream
    rw [hreceiver] at hstream
    exact hstream

end

end AnixAgent.Reports.SessionTracking
