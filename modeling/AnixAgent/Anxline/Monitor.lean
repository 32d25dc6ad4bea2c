import AnixAgent.Lib.Runs

namespace AnixAgent.Anxline.Monitor

open Lib.Runs List Option

/-- The settings of a link; `backup` is the action that marks an endpoint backup instead of deleting
it. -/
structure Multipath where
  failAfter : Nat
  recoverAfter : Nat
  backup : Bool
  failAfter_pos : 0 < failAfter
  recoverAfter_pos : 0 < recoverAfter

/-- A watched path; `backup` is that flag of its endpoint. `log` are its probe results, the newest
first, and `age` counts those since it was last taken out. -/
structure PathState where
  backup : Bool
  healthy : Bool
  demoted : Bool
  failures : Nat
  successes : Nat
  log : List Bool
  age : Nat
  deriving DecidableEq

def newPath (backup : Bool) : PathState := ⟨backup, true, false, 0, 0, [], 0⟩

def PathState.probed (m : Multipath) (p : PathState) (ok : Bool) : PathState :=
  let p := { p with
    log := ok :: p.log
    age := p.age + 1 }
  if ok then { p with
    failures := 0
    successes := p.successes + 1
    healthy := p.healthy || m.recoverAfter ≤ p.successes + 1 }
  else { p with
    successes := 0
    failures := p.failures + 1
    healthy := p.healthy && !(m.failAfter ≤ p.failures + 1 : Bool) }

def usable (p : PathState) : Bool := p.healthy && !p.demoted

def otherUsable (paths : List PathState) (i : Nat) : Bool := (paths.eraseIdx i).any usable

def demote (m : Multipath) (ok : Bool) (p : PathState) : PathState :=
  if m.backup && p.backup || !ok then p
  else { p with
    demoted := true
    age := 0 }

def restore (ok : Bool) (p : PathState) : PathState := { p with demoted := p.demoted && !ok }

def visit (m : Multipath) (paths : List PathState) (i : Nat) (ok : Bool) : List PathState :=
  paths.modify i fun p ↦
    if !p.healthy && !p.demoted then if otherUsable paths i then demote m ok p else p
    else if p.healthy && p.demoted then restore ok p
    else p

inductive Phase
  | idle
  | checking (todo : List Nat)
  | closing (todo : List Nat)
  deriving DecidableEq

structure State where
  paths : List PathState
  phase : Phase
  deriving DecidableEq

def newMonitor (backups : List Bool) : State := ⟨backups.map newPath, .idle⟩

inductive Action
  | probe (results : List Bool)
  | visit (ok : Bool)
  | close
  | restore (ok : Bool)
  deriving DecidableEq

/-- `close` waits for a check that runs; no check begins after it. -/
def step (m : Multipath) (s : State) : Action → Option State
  | .probe results =>
    if s.phase = .idle ∧ results.length = s.paths.length then
      some ⟨List.zipWith (·.probed m) s.paths results, .checking (List.range s.paths.length)⟩
    else none
  | .visit ok =>
    match s.phase with
    | .checking [] => some { s with phase := .idle }
    | .checking (i :: todo) => some ⟨visit m s.paths i ok, .checking todo⟩
    | _ => none
  | .close => if s.phase = .idle then some { s with phase := .closing (List.range s.paths.length) }
    else none
  | .restore ok =>
    match s.phase with
    | .closing (i :: todo) => some ⟨s.paths.modify i (restore ok), .closing todo⟩
    | _ => none

def streak (ok : Bool) (log : List Bool) : Nat := (log.takeWhile (· == ok)).length

/-- At some time `failAfter` rounds in a row had failed, and never since had `recoverAfter` in a row
succeeded. -/
def Failed (m : Multipath) (log : List Bool) : Prop :=
  ∃ new old, log = new ++ old ∧ m.failAfter ≤ streak false old ∧
    ∀ recent, recent <:+ new → recent ≠ [] → streak true (recent ++ old) < m.recoverAfter

/-- At some time since the path was taken out `recoverAfter` rounds in a row had succeeded, and
never since had `failAfter` in a row failed. -/
def Recovered (m : Multipath) (p : PathState) : Prop :=
  ∃ new old, p.log = new ++ old ∧ new.length < p.age ∧ m.recoverAfter ≤ streak true old ∧
    ∀ recent, recent <:+ new → recent ≠ [] → streak false (recent ++ old) < m.failAfter

structure Sound (m : Multipath) (p : PathState) : Prop where
  failures : p.failures = streak false p.log
  successes : p.successes = streak true p.log
  failed : p.healthy = false → Failed m p.log
  recovered : p.demoted = true → p.healthy = true → Recovered m p

variable {m : Multipath} {s s' : State} {p : PathState}

theorem Failed.cons {log : List Bool} {ok : Bool} (h : Failed m log)
    (hfew : streak true (ok :: log) < m.recoverAfter) : Failed m (ok :: log) := by
  obtain ⟨new, old, rfl, hfails, hsince⟩ := h
  refine ⟨ok :: new, old, rfl, hfails, fun recent hrecent hne ↦ ?_⟩
  rcases suffix_cons_iff.mp hrecent with rfl | hrecent
  · exact hfew
  · exact hsince recent hrecent hne

theorem Recovered.cons {ok : Bool} (h : Recovered m p)
    (hfew : streak false (ok :: p.log) < m.failAfter) : Recovered m { p with
    log := ok :: p.log
    age := p.age + 1 } := by
  obtain ⟨new, old, hlog, hage, hstreak, hsince⟩ := h
  refine ⟨ok :: new, old, by simp [hlog], by simpa using hage, hstreak, fun recent hrecent hne ↦ ?_⟩
  rcases suffix_cons_iff.mp hrecent with rfl | hrecent
  · rwa [hlog] at hfew
  · exact hsince recent hrecent hne

theorem sound_probed (h : Sound m p) (ok : Bool) : Sound m (p.probed m ok) := by
  obtain ⟨hfailures, hsuccesses, hfailed, hrecovered⟩ := h
  cases ok with
  | true =>
    have hstreak : p.successes + 1 = streak true (true :: p.log) := by simp [streak, hsuccesses]
    refine ⟨rfl, hstreak, fun hsick ↦ ?_, fun hdemoted hwell ↦ ?_⟩
    · simp only [PathState.probed, if_true, Bool.or_eq_false_iff, decide_eq_false_iff_not] at hsick
      exact (hfailed hsick.1).cons (by omega)
    cases hbefore : p.healthy with
    | true => exact (hrecovered hdemoted hbefore).cons m.failAfter_pos
    | false =>
      simp only [PathState.probed, if_true, hbefore, Bool.false_or, decide_eq_true_eq] at hwell
      refine ⟨[], _, rfl, Nat.succ_pos _, hstreak ▸ hwell, fun recent hrecent hne ↦ ?_⟩
      exact absurd (suffix_nil.mp hrecent) hne
  | false =>
    have hstreak : p.failures + 1 = streak false (false :: p.log) := by simp [streak, hfailures]
    refine ⟨hstreak, rfl, fun hsick ↦ ?_, fun hdemoted hwell ↦ ?_⟩
    · cases hbefore : p.healthy with
      | true =>
        simp only [PathState.probed, hbefore, Bool.false_eq_true, if_false, Bool.true_and,
          Bool.not_eq_false', decide_eq_true_eq] at hsick
        refine ⟨[], _, rfl, hstreak ▸ hsick, fun recent hrecent hne ↦ ?_⟩
        exact absurd (suffix_nil.mp hrecent) hne
      | false => exact (hfailed hbefore).cons m.recoverAfter_pos
    · simp only [PathState.probed, Bool.false_eq_true, if_false, Bool.and_eq_true,
        Bool.not_eq_true', decide_eq_false_iff_not] at hwell
      exact (hrecovered hdemoted hwell.1).cons (by omega)

theorem sound_restore (h : Sound m p) (ok : Bool) : Sound m (restore ok p) :=
  ⟨h.failures, h.successes, h.failed, fun hdemoted ↦ h.recovered (Bool.and_elim_left hdemoted)⟩

inductive Changes (m : Multipath) (paths : List PathState) (j : Nat) (p : PathState) :
    Action → PathState → Prop
  | probed (results : List Bool) (ok : Bool) : Changes m paths j p (.probe results) (p.probed m ok)
  | same (a : Action) : Changes m paths j p a p
  | demoted (ok : Bool) (hsick : p.healthy = false) (hother : otherUsable paths j = true) :
    Changes m paths j p (.visit ok) (demote m ok p)
  | restored (ok : Bool) (hwell : p.healthy = true) : Changes m paths j p (.visit ok) (restore ok p)
  | closed (ok : Bool) : Changes m paths j p (.restore ok) (restore ok p)

theorem changes_visit (paths : List PathState) (i j : Nat) (ok : Bool) {p' : PathState}
    (h : (visit m paths i ok)[j]? = some p') :
    ∃ p, paths[j]? = some p ∧ Changes m paths j p (.visit ok) p' := by
  rw [visit, getElem?_modify] at h
  obtain ⟨p, hp, rfl⟩ := map_eq_some_iff.mp h
  refine ⟨p, hp, ?_⟩
  split
  · next hij =>
    subst hij
    split
    · next hsick =>
      simp only [Bool.and_eq_true, Bool.not_eq_true'] at hsick
      split
      · next hother => exact .demoted ok hsick.1 hother
      · exact .same _
    · split
      · next hwell => exact .restored ok (Bool.and_elim_left hwell)
      · exact .same _
  · exact .same _

variable {a : Action} {j : Nat}

theorem changes_step (h : step m s a = some s') {p' : PathState} (hp' : s'.paths[j]? = some p') :
    ∃ p, s.paths[j]? = some p ∧ Changes m s.paths j p a p' := by
  cases a with
  | probe results =>
    obtain ⟨-, rfl⟩ := ite_some_none_eq_some.mp h
    rw [getElem?_zipWith] at hp'
    split at hp'
    · next p ok hp hok =>
      cases hp'
      exact ⟨p, hp, .probed results ok⟩
    · cases hp'
  | visit ok =>
    simp only [step] at h
    split at h
    · cases h
      exact ⟨p', hp', .same _⟩
    · cases h
      exact changes_visit s.paths _ j ok hp'
    · cases h
  | close =>
    obtain ⟨-, rfl⟩ := ite_some_none_eq_some.mp h
    exact ⟨p', hp', .same _⟩
  | restore ok =>
    simp only [step] at h
    split at h
    · cases h
      rw [getElem?_modify] at hp'
      obtain ⟨p, hp, rfl⟩ := map_eq_some_iff.mp hp'
      refine ⟨p, hp, ?_⟩
      split
      · exact .closed ok
      · exact .same _
    · cases h

theorem Sound.changes {paths : List PathState} {p' : PathState}
    (h : Sound m p) (hchanges : Changes m paths j p a p') : Sound m p' := by
  cases hchanges with
  | probed _ ok => exact sound_probed h ok
  | same => exact h
  | demoted ok hsick _ =>
    unfold demote
    split
    · exact h
    refine ⟨h.failures, h.successes, h.failed, fun _ hwell ↦ ?_⟩
    rw [hsick] at hwell
    cases hwell
  | restored ok | closed ok => exact sound_restore h ok

theorem length_step (h : step m s a = some s') : s'.paths.length = s.paths.length := by
  cases a with
  | probe results =>
    obtain ⟨hresults, rfl⟩ := ite_some_none_eq_some.mp h
    simp [hresults.2]
  | visit ok =>
    simp only [step] at h
    split at h <;> cases h <;> simp [visit]
  | close =>
    obtain ⟨-, rfl⟩ := ite_some_none_eq_some.mp h
    rfl
  | restore ok =>
    simp only [step] at h
    split at h <;> cases h
    simp

theorem changes_of_getElem? (h : step m s a = some s')
    (hp : s.paths[j]? = some p) : ∃ p', s'.paths[j]? = some p' ∧ Changes m s.paths j p a p' := by
  obtain ⟨hj, -⟩ := List.getElem?_eq_some_iff.mp hp
  rw [← length_step h] at hj
  obtain ⟨q, hq, hchanges⟩ := changes_step h (getElem?_eq_getElem hj)
  rw [hp] at hq
  cases hq
  exact ⟨_, getElem?_eq_getElem hj, hchanges⟩

theorem exists_usable {paths : List PathState} (h : otherUsable paths j) :
    ∃ (k : Nat) (q : PathState), k ≠ j ∧ paths[k]? = some q ∧ usable q := by
  obtain ⟨q, hq, husable⟩ := List.any_eq_true.mp h
  obtain ⟨k, hk⟩ := mem_iff_getElem?.mp hq
  rw [getElem?_eraseIdx] at hk
  split at hk
  · next hlt => exact ⟨k, q, Nat.ne_of_lt hlt, hk, husable⟩
  · next hge => exact ⟨k + 1, q, by omega, hk, husable⟩

theorem undemoted_step (h : step m s a = some s')
    (hp : s.paths[j]? = some p) (hin : p.demoted = false) :
    ∃ k : Nat, ∃ q : PathState, s'.paths[k]? = some q ∧ q.demoted = false := by
  obtain ⟨p', hp', hchanges⟩ := changes_of_getElem? h hp
  cases hchanges with
  | probed _ ok => exact ⟨j, _, hp', by cases ok <;> exact hin⟩
  | same => exact ⟨j, _, hp', hin⟩
  | demoted ok _ hother =>
    -- the other path is healthy, so the visit does not take it out as well
    obtain ⟨k, q, -, hq, husable⟩ := exists_usable hother
    simp only [usable, Bool.and_eq_true, Bool.not_eq_true'] at husable
    obtain ⟨q', hq', hchanges⟩ := changes_of_getElem? h hq
    cases hchanges with
    | same => exact ⟨k, _, hq', husable.2⟩
    | demoted ok hsick _ => simp [hsick] at husable
    | restored ok _ => exact ⟨k, _, hq', by simp [restore, husable.2]⟩
  | restored | closed => exact ⟨j, _, hp', by simp [restore, hin]⟩

def Closing (s : State) : Prop :=
  ∀ todo, s.phase = .closing todo → ∀ (j : Nat) (p : PathState),
    s.paths[j]? = some p → p.demoted = true → j ∈ todo

theorem closing_step (hs : Closing s) (ha : a ≠ .restore false)
    (h : step m s a = some s') : Closing s' := by
  intro todo htodo j p hp hdemoted
  cases a with
  | probe results =>
    obtain ⟨-, rfl⟩ := ite_some_none_eq_some.mp h
    cases htodo
  | visit ok =>
    simp only [step] at h
    split at h <;> cases h <;> cases htodo
  | close =>
    obtain ⟨-, rfl⟩ := ite_some_none_eq_some.mp h
    cases htodo
    exact mem_range.mpr (List.getElem?_eq_some_iff.mp hp).1
  | restore ok =>
    simp only [step] at h
    split at h
    · next i rest hphase =>
      cases h
      cases htodo
      rw [getElem?_modify] at hp
      obtain ⟨q, hq, rfl⟩ := map_eq_some_iff.mp hp
      split at hdemoted
      · simp only [restore, Bool.and_eq_true, Bool.not_eq_true'] at hdemoted
        exact absurd (congrArg Action.restore hdemoted.2) ha
      · next hne =>
        exact (mem_cons.mp (hs _ hphase j q hq hdemoted)).resolve_left (Ne.symm hne)
    · cases h

theorem sound_of_steps {backups : List Bool} (h : Steps (step m) (newMonitor backups) s)
    (hp : s.paths[j]? = some p) : Sound m p := by
  have hsound : ∀ (j : Nat) p, s.paths[j]? = some p → Sound m p := by
    apply h.invariant (I := fun s ↦ ∀ (j : Nat) p, s.paths[j]? = some p → Sound m p)
    · intro j p hp
      obtain ⟨backup, -, rfl⟩ := List.mem_map.mp (mem_of_getElem? hp)
      exact ⟨rfl, rfl, nofun, nofun⟩
    · intro s a s' hs _ hstep j p' hp'
      obtain ⟨p, hp, hchanges⟩ := changes_step hstep hp'
      exact (hs j p hp).changes hchanges
  exact hsound j p hp

/-- Some path is in at every moment; one is taken out only when it has failed and not recovered
since, and another one is healthy, and restored by a check only when it has recovered since then and
not failed again; none is out after a close whose commands succeed. -/
theorem paths_watched {backups : List Bool} (hne : backups ≠ [])
    (h : Steps (step m) (newMonitor backups) s) :
    (∃ p ∈ s.paths, p.demoted = false) ∧
    (∀ a s' (j : Nat) (p p' : PathState), step m s a = some s' → s.paths[j]? = some p →
      s'.paths[j]? = some p' →
      (p.demoted = false → p'.demoted = true → Failed m p.log ∧
        ∃ (k : Nat) (q : PathState), k ≠ j ∧ s.paths[k]? = some q ∧ usable q = true) ∧
      (p.demoted = true → p'.demoted = false → (∃ ok, a = .restore ok) ∨ Recovered m p)) ∧
    (Reach (step m) (fun _ a ↦ a ≠ .restore false) (newMonitor backups) s →
      s.phase = .closing [] → ∀ p ∈ s.paths, p.demoted = false) := by
  refine ⟨?_, fun a s' j p p' hstep hp hp' ↦ ?_, fun hclose hphase p hp ↦ ?_⟩
  · have hin : ∃ j : Nat, ∃ p : PathState, s.paths[j]? = some p ∧ p.demoted = false := by
      apply h.invariant
        (I := fun s ↦ ∃ j : Nat, ∃ p : PathState, s.paths[j]? = some p ∧ p.demoted = false)
      · obtain ⟨backup, rest, rfl⟩ := List.exists_cons_of_ne_nil hne
        exact ⟨0, newPath backup, rfl, rfl⟩
      · intro s a s' hs _ hstep
        obtain ⟨j, p, hp, hin⟩ := hs
        exact undemoted_step hstep hp hin
    obtain ⟨j, p, hp, hin⟩ := hin
    exact ⟨p, List.mem_of_getElem? hp, hin⟩
  · have hsound := sound_of_steps h hp
    obtain ⟨p'', hp'', hchanges⟩ := changes_of_getElem? hstep hp
    rw [hp'] at hp''
    cases hp''
    refine ⟨fun hin hout ↦ ?_, fun hout hin ↦ ?_⟩
    · cases hchanges with
      | probed _ ok => cases ok <;> exact nomatch hin.symm.trans hout
      | same => exact nomatch hin.symm.trans hout
      | demoted ok hsick hother => exact ⟨hsound.failed hsick, exists_usable hother⟩
      | restored | closed => simp [restore, hin] at hout
    · cases hchanges with
      | probed _ ok => cases ok <;> exact nomatch hin.symm.trans hout
      | same => exact nomatch hin.symm.trans hout
      | demoted ok hsick hother =>
        unfold demote at hin
        split at hin
        · exact nomatch hin.symm.trans hout
        · cases hin
      | restored ok hwell => exact .inr (hsound.recovered hout hwell)
      | closed ok => exact .inl ⟨ok, rfl⟩
  · have hclosing : Closing s := by
      apply hclose.invariant (I := Closing)
      · intro todo htodo
        cases htodo
      · exact fun _ _ _ hs ha hstep ↦ closing_step hs ha hstep
    obtain ⟨j, hj⟩ := List.mem_iff_getElem?.mp hp
    by_contra hout
    exact List.not_mem_nil (hclosing [] hphase j p hj (Bool.eq_true_of_not_eq_false hout))

def sampleLink : Multipath := ⟨2, 2, false, by decide, by decide⟩

theorem paths_watched_closed :
    ∃ s, Steps (step sampleLink) (newMonitor [false, false]) s ∧ s.phase = .closing [] ∧
      s.paths.map (·.age) = [0, 2] ∧ ∀ p ∈ s.paths, p.demoted = false := by
  have hreach : Reach (step sampleLink) (fun _ a ↦ a ≠ .restore false) (newMonitor [false, false]) _ :=
    reach_after [.probe [false, true], .visit true, .visit true, .visit true,
      .probe [false, true], .visit true, .visit true, .visit true, .close, .restore true,
      .restore true] (by decide +kernel)
  have hwatched := paths_watched (List.cons_ne_nil _ _) hreach.steps
  exact ⟨_, hreach.steps, by decide +kernel, by decide +kernel,
    hwatched.2.2 hreach (by decide +kernel)⟩

def visited (s : State) (j : Nat) : Option (PathState × PathState) := do
  let s' ← step sampleLink s (.visit true)
  return (← s.paths[j]?, ← s'.paths[j]?)

/-- The first path is taken out after a successful round of its own, when the second one comes back;
and after a restoration that failed it is restored right after a failed round. -/
theorem paths_turned_late :
    (∃ s, Steps (step sampleLink) (newMonitor [false, false]) s ∧
      (visited s 0).any fun (p, p') ↦
        !p.demoted && p'.demoted && p.log = [true, false, false, false]) ∧
    ∃ s, Steps (step sampleLink) (newMonitor [false, false]) s ∧
      (visited s 0).any fun (p, p') ↦
        p.demoted && !p'.demoted && p.log = [false, true, true, false, false] := by
  let round (results : List Bool) (ok : Bool) : List Action :=
    [.probe results, .visit ok, .visit true, .visit true]
  refine ⟨exists_steps (round [false, false] true ++ round [false, false] true ++
    round [false, true] true ++ [.probe [true, true]]) _ (by decide +kernel), ?_⟩
  exact exists_steps (round [false, true] true ++ round [false, true] true ++
    round [true, true] true ++ round [true, true] false ++ [.probe [false, true]]) _
    (by decide +kernel)

end AnixAgent.Anxline.Monitor
