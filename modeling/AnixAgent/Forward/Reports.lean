import AnixAgent.Lib.Runs

namespace AnixAgent.Forward.Reports

open Lib.Runs Option

/-- Where `sendReport` is: `Report` has read the forwarding state, it is built, or the mark of the
pending report is cleared. -/
inductive Stage (φ : Type)
  | idle
  | read (forwarding : φ)
  | built
  | sending
  deriving DecidableEq

/-- `forwarding` is the generation, the hash and the hop errors, `vantage` the judged probes;
`marking` counts the probes that changed their state and have not set the mark yet. -/
structure State (φ ν : Type) where
  forwarding : φ
  vantage : ν
  marking : Nat
  reportPending : Bool
  stage : Stage φ
  last : Option (φ × ν)
  deriving DecidableEq

inductive Action (φ ν : Type)
  | apply (forwarding : φ)
  | probed (vantage : ν)
  | mark
  | forget (vantage : ν)
  | session
  | report
  | readVantage
  | clear
  | sent (gone : Bool)

variable {φ ν : Type}

def init (forwarding : φ) (vantage : ν) : State φ ν :=
  ⟨forwarding, vantage, 0, false, .idle, none⟩

def step (s : State φ ν) : Action φ ν → Option (State φ ν)
  | .apply forwarding => some { s with forwarding := forwarding, reportPending := true }
  | .probed vantage => some { s with vantage := vantage, marking := s.marking + 1 }
  | .mark =>
    if s.marking = 0 then none
    else some { s with marking := s.marking - 1, reportPending := true }
  | .forget vantage => some { s with vantage := vantage }
  | .session => some { s with reportPending := true }
  | .report => match s.stage with
    | .idle => some { s with stage := .read s.forwarding }
    | _ => none
  | .readVantage => match s.stage with
    | .read forwarding => some { s with stage := .built, last := some (forwarding, s.vantage) }
    | _ => none
  | .clear => match s.stage with
    | .built => some { s with stage := .sending, reportPending := false }
    | _ => none
  | .sent gone => match s.stage with
    | .sending => some { s with stage := .idle, reportPending := gone || s.reportPending }
    | _ => none

def State.builds (s : State φ ν) : Bool :=
  match s.stage with
  | .read _ | .built => true
  | _ => false

/-- Nothing changes while a report is built, and a probe that was judged is forgotten only while
one is pending. -/
def apart (s : State φ ν) : Action φ ν → Bool
  | .apply _ | .probed _ => !s.builds
  | .forget _ => !s.builds && s.reportPending
  | _ => true

def Inv (s : State φ ν) : Prop :=
  match s.stage with
  | .read forwarding => forwarding = s.forwarding
  | .built => s.last = some (s.forwarding, s.vantage)
  | _ => s.reportPending = false → s.marking = 0 → ∀ r ∈ s.last, r = (s.forwarding, s.vantage)

theorem inv_of_not_builds {s : State φ ν} (hbuilds : s.builds = false)
    (hlast : s.reportPending = false → s.marking = 0 →
      ∀ r ∈ s.last, r = (s.forwarding, s.vantage)) : Inv s := by
  unfold Inv
  cases hstage : s.stage with
  | idle | sending => exact hlast
  | read | built => simp [State.builds, hstage] at hbuilds

/-- A mark asks nothing of a report that was sent. -/
theorem Inv.marked {s : State φ ν} (h : Inv s) (marking : Nat) :
    Inv { s with marking := marking, reportPending := true } := by
  unfold Inv at h ⊢
  cases hstage : s.stage with
  | idle | sending => exact fun hpending ↦ by cases hpending
  | read forwarding =>
    rw [hstage] at h
    exact h
  | built =>
    rw [hstage] at h
    exact h

theorem inv_step {s t : State φ ν} {a : Action φ ν} (h : Inv s) (ha : apart s a)
    (hstep : step s a = some t) : Inv t := by
  cases a with
  | apply forwarding =>
    cases hstep
    have hbuilds : s.builds = false := by simpa [apart] using ha
    exact inv_of_not_builds hbuilds fun hpending ↦ by cases hpending
  | probed vantage =>
    cases hstep
    have hbuilds : s.builds = false := by simpa [apart] using ha
    exact inv_of_not_builds hbuilds fun _ hmarked ↦ by cases hmarked
  | mark =>
    obtain ⟨-, heq⟩ := ite_none_left_eq_some.mp hstep
    cases heq
    exact h.marked _
  | forget vantage =>
    cases hstep
    obtain ⟨hbuilds, hmark⟩ : s.builds = false ∧ s.reportPending = true := by
      simpa [apart] using ha
    refine inv_of_not_builds hbuilds fun hpending ↦ ?_
    rw [hmark] at hpending
    cases hpending
  | session =>
    cases hstep
    exact h.marked _
  | report =>
    simp only [step] at hstep
    split at hstep <;> cases hstep
    rfl
  | readVantage =>
    simp only [step] at hstep
    split at hstep <;> cases hstep
    rename_i hstage
    unfold Inv at h
    rw [hstage] at h
    cases h
    rfl
  | clear =>
    simp only [step] at hstep
    split at hstep <;> cases hstep
    rename_i hstage
    unfold Inv at h
    rw [hstage] at h
    -- The report that was built says what is held.
    intro _ _ r hr
    rw [h] at hr
    exact (some.inj hr).symm
  | sent gone =>
    simp only [step] at hstep
    split at hstep <;> cases hstep
    rename_i hstage
    unfold Inv at h
    rw [hstage] at h
    exact fun hpending hmarked ↦ h (Bool.or_eq_false_iff.mp hpending).2 hmarked

/-- When no change comes while a report is built, a report that is sent while none is pending and no
probe is about to mark one says what the component holds. -/
theorem last_report_current {forwarding : φ} {vantage : ν} {s : State φ ν}
    (hrun : Reach step (fun s a ↦ apart s a = true) (init forwarding vantage) s)
    (hidle : s.stage = .idle) (hpending : s.reportPending = false) (hmarked : s.marking = 0) :
    ∀ r ∈ s.last, r = (s.forwarding, s.vantage) := by
  have hinv : Inv s := hrun.invariant (fun _ _ r hr ↦ (by cases hr))
    fun _ _ _ h ha hstep ↦ inv_step h ha hstep
  unfold Inv at hinv
  rw [hidle] at hinv
  exact hinv hpending hmarked

theorem last_report_current_applied : ∃ s : State Nat Nat, Steps step (init 0 0) s ∧
    s.last = some (1, 2) ∧ (1, 2) = (s.forwarding, s.vantage) := by
  have hrun : Reach step (fun s a ↦ apart s a = true) (init 0 0) _ :=
    reach_after [.apply 1, .probed 2, .mark, .report, .readVantage, .clear, .sent false] (by decide)
  exact ⟨_, hrun.steps, by decide, last_report_current hrun (by decide) (by decide) (by decide) _
    (by decide)⟩

/-- A state that is applied between the building of a report and the clearing of the mark. -/
theorem last_report_behind : ∃ s : State Nat Nat, Steps step (init 0 0) s ∧ s.stage = .idle ∧
    s.reportPending = false ∧ s.marking = 0 ∧ s.last = some (0, 0) ∧ s.forwarding = 1 :=
  exists_steps [.report, .readVantage, .apply 1, .clear, .sent false] _ (by decide)

end AnixAgent.Forward.Reports
