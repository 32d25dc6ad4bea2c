import AnixAgent.Lib.Runs

namespace AnixAgent.Forward.Sessions

open Lib.Runs Option

/-- Where `sendReport` is: before it reads the session, at the stream of one, or on its way to
record that it is gone. -/
inductive Send
  | reading
  | sending (id : Nat)
  | gone
  deriving DecidableEq

/-- The session that is connected, with whether it negotiated `forward.v1`; `told` is whether its
`ForwardSession` returned. -/
structure State where
  sessions : Nat
  session : Option (Nat × Bool)
  told : Bool
  negotiated : Bool
  reportPending : Bool
  send : Option Send
  deriving DecidableEq

def init : State := ⟨0, none, false, false, false, none⟩

inductive Action
  | start (negotiated : Bool)
  | forwardSession
  | finish
  | report
  | read
  | sent
  | record
  deriving DecidableEq

def step (s : State) : Action → Option State
  | .start negotiated =>
    if s.session = none then
      some { s with
        sessions := s.sessions + 1
        session := some (s.sessions, negotiated)
        told := false }
    else none
  | .forwardSession =>
    if s.told then none
    else s.session.map fun x ↦ { s with
      told := true
      negotiated := x.2
      reportPending := x.2 || s.reportPending }
  | .finish => if s.told then some { s with session := none } else none
  | .report =>
    if s.negotiated ∧ s.send = none then
      some { s with reportPending := false, send := some .reading }
    else none
  | .read =>
    if s.send = some .reading then
      some { s with send := match s.session with
        | some (id, true) => some (.sending id)
        | _ => some .gone }
    else none
  | .sent =>
    match s.send with
    | some (.sending id) =>
      some { s with send := if s.session.any (·.1 = id) then none else some .gone }
    | _ => none
  | .record =>
    if s.send = some .gone then
      some { s with negotiated := false, reportPending := true, send := none }
    else none

/-- A session's `ForwardSession` does not come while a report is sent. -/
def Apart (s : State) (a : Action) : Prop := a = .forwardSession → s.send = none

instance (s : State) (a : Action) : Decidable (Apart s a) :=
  inferInstanceAs (Decidable (_ → _))

def Inv (s : State) : Prop :=
  ∀ id, s.session = some (id, true) → s.told = true → s.negotiated = true ∧
    ∀ x ∈ s.send, x = .reading ∨ x = .sending id

theorem inv_step {s t : State} {a : Action} (h : Inv s) (ha : Apart s a) (hstep : step s a = some t) :
    Inv t := by
  cases a with
  | start negotiated =>
    obtain ⟨-, rfl⟩ := ite_some_none_eq_some.mp hstep
    exact fun id _ htold ↦ Bool.noConfusion htold
  | forwardSession =>
    obtain ⟨-, hmap⟩ := ite_none_left_eq_some.mp hstep
    obtain ⟨x, hx, rfl⟩ := map_eq_some_iff.mp hmap
    intro id hid _
    cases hx.symm.trans hid
    refine ⟨rfl, fun y hy ↦ ?_⟩
    rw [ha rfl] at hy
    cases hy
  | finish =>
    obtain ⟨-, rfl⟩ := ite_some_none_eq_some.mp hstep
    exact fun id hid ↦ (by cases hid)
  | report =>
    obtain ⟨-, rfl⟩ := ite_some_none_eq_some.mp hstep
    exact fun id hid htold ↦ ⟨(h id hid htold).1, fun x hx ↦ .inl (some.inj hx).symm⟩
  | read =>
    obtain ⟨-, rfl⟩ := ite_some_none_eq_some.mp hstep
    intro id hid htold
    dsimp only at hid
    exact ⟨(h id hid htold).1, by simp [hid]⟩
  | sent =>
    dsimp only [step] at hstep
    split at hstep
    · next id hsend =>
      cases hstep
      intro id' hid htold
      obtain ⟨hnegotiated, hto⟩ := h id' hid htold
      have heq : id' = id := by simpa [hsend, eq_comm] using hto
      dsimp only at hid
      exact ⟨hnegotiated, by simp [hid, heq]⟩
    · cases hstep
  | record =>
    obtain ⟨hgone, rfl⟩ := ite_some_none_eq_some.mp hstep
    intro id hid htold
    have hto := (h id hid htold).2 .gone hgone
    simp at hto

/-- When no `ForwardSession` comes while a report is sent, the component counts itself as
negotiated in a session that is. -/
theorem negotiated_in_session {s : State} (hrun : Reach step Apart init s) {id : Nat}
    (hsession : s.session = some (id, true)) (htold : s.told = true) : s.negotiated = true :=
  (hrun.invariant (I := Inv) nofun
    (fun _ _ _ h ha hstep ↦ inv_step h ha hstep) id hsession htold).1

theorem negotiated_in_session_second : ∃ s, Reach step Apart init s ∧ s.session = some (1, true) ∧
    s.negotiated = true := by
  obtain ⟨s, hrun, hsession, htold⟩ : ∃ s, Reach step Apart init s ∧ s.session = some (1, true) ∧
      s.told = true :=
    exists_reach [.start true, .forwardSession, .report, .read, .finish, .sent, .record,
      .start true, .forwardSession] _ (by decide)
  exact ⟨s, hrun, hsession, negotiated_in_session hrun hsession htold⟩

/-- The error of a send to the session before. -/
theorem late_error_suppresses_reports : ∃ s, Steps step init s ∧ s.session = some (1, true) ∧
    s.told = true ∧ s.send = none ∧ s.negotiated = false :=
  exists_steps [.start true, .forwardSession, .report, .read, .finish, .start true,
    .forwardSession, .sent, .record] _ (by decide)

end AnixAgent.Forward.Sessions
