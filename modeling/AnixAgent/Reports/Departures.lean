import AnixAgent.ReportSpool.Accounting
import AnixAgent.Reports.Steps

namespace AnixAgent.Reports.Departures

open ReportSpool.Machine ReportSpool.History ReportSpool.Accounting Machine Steps Lib.Runs

variable {config : Config} {codec : Codec}

theorem loopStep_spools (codec : Codec) (env : Env) (ok : Bool) (s : System) :
    (loopStep codec env ok s).spools = s.spools ∨
    (∃ kind spool, s.spools kind = some spool ∧ (loopStep codec env ok s).spools =
      Function.update s.spools kind (some (pending env spool).state)) ∨
    ∃ cursor err spool, s.loop = .unreadable cursor err ∧ s.spools cursor.kind = some spool ∧
      (loopStep codec env ok s).spools =
        Function.update s.spools cursor.kind (some (remove env cursor.entry.batchId spool).state) := by
  cases hloop : s.loop with
  | replaying pass kinds =>
    cases kinds with
    | nil =>
      left
      simp only [loopStep, hloop]
    | cons kind rest =>
      cases hspool : s.spools kind with
      | none =>
        left
        simp only [loopStep, hloop, hspool]
      | some spool =>
        simp only [loopStep, hloop, hspool]
        split
        · exact .inr (.inl ⟨kind, spool, hspool, rfl⟩)
        · exact .inl rfl
  | unreadable cursor err =>
    cases hspool : s.spools cursor.kind with
    | none =>
      left
      simp only [loopStep, hloop, hspool]
    | some spool =>
      simp only [loopStep, hloop, hspool]
      exact .inr (.inr ⟨cursor, err, spool, rfl, hspool, rfl⟩)
  | batches pass kind entries rest =>
    left
    simp only [loopStep, hloop]
    cases entries <;> rfl
  | checked cursor =>
    left
    simp only [loopStep, hloop]
    split
    · rfl
    · split <;> rfl
  | sending | streaming =>
    left
    simp only [loopStep, hloop]
    split <;> rfl
  | waiting | woken session | started pass | sent cursor =>
    left
    simp only [loopStep, hloop, takeSession]

/-- The spools that a step can change: at most one, by one call. A `Remove` is for
the batch of the answer being taken, or for one whose file could not be read. -/
theorem step_spools {s t : System} {a : Action} (h : step config codec s a = some t) :
    t.spools = s.spools ∨ ∃ kind spool env call, s.spools kind = some spool ∧
      t.spools = Function.update s.spools kind (some (perform codec env call spool).state) ∧
      ∀ id, call = .remove id →
        (∃ session ack rest, a = .handle env ∧ s.receiver = .removing session ack rest ∧
          ack.batchId = id) ∨
        ∃ cursor err ok, a = .loop env ok ∧ s.loop = .unreadable cursor err ∧
          cursor.entry.batchId = id := by
  cases a with
  | tick duration => cases h; exact .inl rfl
  | loop env ok =>
    cases h
    rcases loopStep_spools codec env ok s with hsame | ⟨kind, spool, hspool, hpending⟩ |
      ⟨cursor, err, spool, hloop, hspool, hremove⟩
    · exact .inl hsame
    · exact .inr ⟨kind, spool, env, .pending, hspool, hpending, by simp⟩
    · refine .inr ⟨cursor.kind, spool, env, .remove cursor.entry.batchId, hspool, hremove, ?_⟩
      rintro id ⟨⟩
      exact .inr ⟨cursor, err, ok, rfl, hloop, rfl⟩
  | submit | connect | start | close | finish | disconnect =>
    simp only [step] at h
    split at h
    · cases h; exact .inl rfl
    · cases h
  | append kind message sentAtUnixMs env =>
    simp only [step] at h
    split at h
    · cases h
    next spool hspool =>
    split at h
    · cases h
      exact .inr ⟨kind, spool, env, .append _, hspool, rfl, by simp⟩
    · cases h
  | receive ack =>
    simp only [step, receiveReportAck] at h
    split at h
    · cases h
      left
      split
      · split
        · rfl
        · split <;> rfl
      · rfl
    · cases h
  | handle env =>
    simp only [step, handleStep] at h
    split at h
    · cases h; exact .inl rfl
    · next session ack kind rest hreceiver =>
      split at h
      · cases h; exact .inl rfl
      next spool hspool =>
      cases h
      refine .inr ⟨kind, spool, env, .remove ack.batchId, hspool, rfl, ?_⟩
      rintro id ⟨⟩
      exact .inl ⟨session, ack, _, rfl, hreceiver, rfl⟩
    · cases h; exact .inl rfl
    · cases h

/-- Why a batch can leave its spool in the step `a`: a final answer for it is being
taken, a bound dropped it and it is counted, or its file could not be read. -/
def Departs (s : System) (a : Action) (entry : Entry) (spool spool' : State) : Prop :=
  (∃ env session ack rest, a = .handle env ∧ s.receiver = .removing session ack rest ∧
    ack.batchId = entry.batchId ∧ ack.unavailable = false) ∨
  ((spool.lost.map (·.2)).count entry < (spool'.lost.map (·.2)).count entry ∧
    spool'.spool.drops = tally spool'.lost) ∨
  ∃ env ok cursor err, a = .loop env ok ∧ s.loop = .unreadable cursor err ∧
    cursor.entry.batchId = entry.batchId

structure Spooled (s : System) : Prop where
  sound : ∀ kind spool, s.spools kind = some spool → Sound spool
  final : ∀ session ack rest, s.receiver = .removing session ack rest → ack.unavailable = false

theorem Spooled.step {s t : System} {a : Action} (hs : Spooled s)
    (h : step config codec s a = some t) : Spooled t := by
  constructor
  · intro kind spool hspool
    rcases step_spools h with hsame | ⟨kind', spool', env, call, hspool', hupdate, -⟩
    · rw [hsame] at hspool
      exact hs.sound kind spool hspool
    rw [hupdate, Function.update_apply] at hspool
    split at hspool
    · cases hspool
      exact (hs.sound kind' spool' hspool').performed codec env call
    · exact hs.sound kind spool hspool
  · intro session ack rest hremoving
    have heffect := step_effect h
    cases heffect with
    | accept _ hack =>
      cases hremoving
      exact hack
    | remove hreceiver hnext =>
      rcases hnext with ⟨kinds, rfl⟩ | rfl
      · cases hremoving
        exact hs.final _ _ _ hreceiver
      · cases hremoving
    | connect | start | forget | close | finish | disconnect => cases hremoving
    | quiet | wake | readClock | take | move | check | send | record | defer =>
      exact hs.final session ack rest hremoving

theorem takenOut_batchId {s : State} (h : Sound s) {call : Call} {answer : Answer} {entry : Entry}
    (hentry : entry ∈ takenOut call answer s) : call = .remove entry.batchId := by
  unfold takenOut at hentry
  split at hentry
  · next id =>
    have hlookup : s.spool.byBatch.lookup id = some entry := by simpa using hentry
    rw [((h.indexed.byBatch id entry).mp hlookup).2]
  · exact (List.not_mem_nil hentry).elim

theorem Spooled.departs {s t : System} {a : Action} (hs : Spooled s)
    (h : Machine.step config codec s a = some t) {kind : Kind} {spool : State}
    (hspool : s.spools kind = some spool) :
    ∃ spool', t.spools kind = some spool' ∧ ∀ entry ∈ spool.spool.entries,
      entry ∉ spool'.spool.entries → Departs s a entry spool spool' := by
  rcases step_spools h with hsame | ⟨kind', spool', env, call, hspool', hupdate, hremove⟩
  · exact ⟨spool, hsame ▸ hspool, fun entry hin hout ↦ absurd hin hout⟩
  by_cases hkind : kind = kind'
  · subst hkind
    cases hspool.symm.trans hspool'
    refine ⟨_, by rw [hupdate, Function.update_self], fun entry hin hout ↦ ?_⟩
    have hsound := hs.sound kind spool hspool
    rcases hsound.leaves codec env call hin hout with htaken | hlost
    · rcases hremove _ (takenOut_batchId hsound htaken) with
        ⟨session, ack, rest, rfl, hreceiver, hid⟩ | ⟨cursor, err, ok, rfl, hloop, hid⟩
      · exact .inl ⟨env, session, ack, rest, rfl, hreceiver, hid,
          hs.final session ack rest hreceiver⟩
      · exact .inr (.inr ⟨env, ok, cursor, err, rfl, hloop, hid⟩)
    · exact .inr (.inl ⟨hlost, (hsound.performed codec env call).drops⟩)
  · refine ⟨spool, ?_, fun entry hin hout ↦ absurd hin hout⟩
    rw [hupdate, Function.update_of_ne hkind, hspool]

end AnixAgent.Reports.Departures
