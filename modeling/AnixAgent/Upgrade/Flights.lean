import AnixAgent.Upgrade.HandOffs

namespace AnixAgent.Upgrade.Flights

open Lib.Runs HandOffs

/-- How far a call of `Handle` is from the end of its flight, lexicographically. -/
def left : Handler → Nat ×ₗ Nat
  | .idle | .waiting _ | .admitting | .dropping => toLex (0, 0)
  | .checking _ => toLex (9, 0)
  | .removing _ => toLex (8, 0)
  | .starting _ => toLex (7, 0)
  | .cleaning _ names => toLex (6, names.length)
  | .staging _ => toLex (5, 0)
  | .stagingKernel _ _ => toLex (4, 0)
  | .writing _ _ => toLex (3, 0)
  | .handing _ _ => toLex (2, 0)
  | .discarding names => toLex (1, names.length)

variable {ι : Type} [DecidableEq ι] {same : String → String → Bool} {s t : State ι} {i : ι}
  {h : Handler} {m : Move}

inductive Flies (s : State ι) (i : ι) (h : Handler) (t : State ι) : Prop
  | keeps (hflight : t.flight = s.flight) (hbusy : (t.handlers i).busy = h.busy)
    (hleft : h.busy = true → left (t.handlers i) < left h)
    (hstaged : h.busy = false → t.staged = s.staged)
  | begins (r : Request) (hfree : s.flight = none) (hh : h = .waiting r)
    (hflight : t.flight = some (r.target, r.action)) (hbusy : (t.handlers i).busy = true)
  | ends (hbusy : h.busy = true) (hflight : t.flight = none) (hidle : t.handlers i = .idle)

theorem Flies.outside {u : State ι} {h' : Handler} (hh : h.busy = false)
    (hflight : u.flight = s.flight) (hstaged : u.staged = s.staged) (hbusy : h'.busy = false) :
    Flies s i h (u.put i h') := by
  refine .keeps hflight ?_ (fun hbusy' ↦ ?_) fun _ ↦ hstaged
  · rw [put_handlers, if_pos rfl, hbusy, hh]
  · exact Bool.noConfusion (hh.symm.trans hbusy')

theorem Flies.inside {u : State ι} {h' : Handler} (hh : h.busy)
    (hflight : u.flight = s.flight) (hbusy : h'.busy) (hleft : left h' < left h) :
    Flies s i h (u.put i h') := by
  refine .keeps hflight ?_ (fun _ ↦ ?_) fun hidle ↦ ?_
  · rw [put_handlers, if_pos rfl, hbusy, hh]
  · rw [put_handlers, if_pos rfl]
    exact hleft
  · exact Bool.noConfusion (hidle.symm.trans hh)

omit [DecidableEq ι] in
theorem Flies.stays (hh : s.handlers i = h) (hidle : h.busy = false) : Flies s i h s :=
  .keeps rfl (by rw [hh]) (fun hbusy ↦ Bool.noConfusion (hidle.symm.trans hbusy)) fun _ ↦ rfl

theorem lt_of_phase {a b : Nat} (hab : a < b) (x y : Nat) : toLex (a, x) < toLex (b, y) :=
  Prod.Lex.toLex_lt_toLex.mpr (.inl hab)

theorem lt_of_names {a x y : Nat} (hxy : x < y) : toLex (a, x) < toLex (a, y) :=
  Prod.Lex.toLex_lt_toLex.mpr (.inr ⟨rfl, hxy⟩)

theorem handle_flies (hh : s.handlers i = h) (ht : handle same s i h m = some t) :
    Flies s i h t := by
  unfold handle at ht
  split at ht
  case h_2 r cancelled =>
    split at ht
    · next hfree =>
      cases ht
      exact .begins r hfree rfl rfl (by simp [Handler.busy])
    · split at ht <;> cases ht
      exact .outside rfl rfl rfl rfl
  -- every other move goes to a later phase, drops a name, ends the flight or is none of a flight
  all_goals repeat' split at ht
  all_goals cases ht
  all_goals first
    | exact .stays hh rfl
    | exact .outside rfl rfl rfl rfl
    | exact .inside rfl rfl rfl (lt_of_phase (by decide) _ _)
    | exact .inside rfl rfl rfl (lt_of_names (Nat.lt_succ_self _))
    | exact .ends rfl rfl (by simp)

theorem exists_move (hbusy : h.busy) : ∃ m, (handle same s i h m).isSome := by
  cases h with
  | idle | waiting | admitting | dropping => cases hbusy
  | checking r => exact ⟨.check true, by cases hr : s.request <;> simp [handle, hr]⟩
  | removing r => exact ⟨.remove, rfl⟩
  | starting r => exact ⟨.launch true true, by cases hr : r.action <;> simp [handle, hr]⟩
  | cleaning r names => exact ⟨.clean, by cases names <;> rfl⟩
  | staging r =>
    refine ⟨.stage false, ?_⟩
    simp only [handle]
    split
    · rfl
    · cases r.artifact <;> rfl
  | stagingKernel r staged =>
    exact ⟨.stageKernel false, by cases hr : r.kernel <;> simp [handle, hr]⟩
  | writing r files => exact ⟨.write true, rfl⟩
  | handing r files => exact ⟨.finish true, rfl⟩
  | discarding names => exact ⟨.discard, by cases names <;> rfl⟩

def Manned (s : State ι) : Prop := s.flight ≠ none → ∃ i, (s.handlers i).busy = true

theorem Manned.step {a : Act ι} (hs : Manned s) (ha : a ≠ .restart)
    (h : step same s a = some t) : Manned t := by
  cases hagent : a.ofAgent with
  | false =>
    obtain ⟨hhandlers, hflight, -⟩ := updater_step hagent h
    unfold Manned
    rw [hhandlers, hflight]
    exact hs
  | true =>
    cases a with
    | run i m =>
      intro hflight
      cases handle_flies rfl h with
      | keeps hsame hbusy _ _ =>
        obtain ⟨j, hj⟩ := hs (hsame ▸ hflight)
        refine ⟨j, ?_⟩
        by_cases hne : j = i
        · rw [hne, hbusy, ← hne]
          exact hj
        · have hother : t.handlers j = s.handlers j := by cases handle_does h <;> simp [hne]
          rw [hother]
          exact hj
      | begins r _ _ _ hbusy => exact ⟨i, hbusy⟩
      | ends _ hnone _ => exact absurd hnone hflight
    | restart => exact absurd rfl ha
    | _ => cases hagent

/-- In one process at most one call of `Handle` is in flight, and a flight is that of one call. It
begins while there is none; each move of its call comes nearer to the end, where the call is idle,
and there is always one; and no other call stages anything meanwhile. -/
theorem one_flight (same : String → String → Bool) (s₀ : State ι) (h₀ : Started s₀) (s : State ι)
    (hs : Reach (step same) (fun _ a ↦ a ≠ .restart) s₀ s) :
    (∀ i j, (s.handlers i).busy = true → (s.handlers j).busy = true → i = j) ∧
    (s.flight ≠ none ↔ ∃ i, (s.handlers i).busy = true) ∧
    (∀ a t, a.ofAgent = false → step same s a = some t →
      t.flight = s.flight ∧ t.handlers = s.handlers) ∧
    (∀ i m t, step same s (.run i m) = some t → Flies s i (s.handlers i) t) ∧
    (∀ i, (s.handlers i).busy = true → ∃ m, (step same s (.run i m)).isSome = true) ∧
    ∀ i m t, s.flight ≠ none → (s.handlers i).busy = false → step same s (.run i m) = some t →
      (t.handlers i).busy = false ∧ t.staged = s.staged ∧ t.flight = s.flight := by
  have hlone : Lone s := hs.invariant h₀.lone fun _ _ _ hs _ h ↦ hs.step h
  have hmanned : Manned s :=
    hs.invariant (fun hflight ↦ absurd h₀.1 hflight) fun _ _ _ hs ha h ↦ hs.step ha h
  refine ⟨hlone.one, ⟨hmanned, fun ⟨i, hi⟩ ↦ hlone.claimed i hi⟩, fun a t ha h ↦ ?_,
    fun i m t h ↦ handle_flies rfl h, fun i hi ↦ exists_move hi, fun i m t hflight hidle h ↦ ?_⟩
  · exact ⟨(updater_step ha h).2.1, (updater_step ha h).1⟩
  cases handle_flies rfl h with
  | keeps hsame hbusy _ hstaged => exact ⟨hbusy.trans hidle, hstaged hidle, hsame⟩
  | begins r hfree => exact absurd hfree hflight
  | ends hbusy => exact Bool.noConfusion (hidle.symm.trans hbusy)

theorem one_flight_installed : ∃ s : State Bool,
    (s.handlers false).busy = true ∧ (s.handlers true).busy = false ∧
    ∀ m t, step sameVersion s (.run true m) = some t → t.staged = s.staged := by
  have hs : Reach (step sameVersion) (fun _ a ↦ a ≠ .restart) installed _ :=
    reach_after (handOff.take 6) (by decide +kernel)
  obtain ⟨-, hflight, -, -, -, hwaits⟩ := one_flight sameVersion installed started_installed _ hs
  exact ⟨_, by decide +kernel, by decide +kernel, fun m t h ↦
    (hwaits true m t (hflight.mpr ⟨false, by decide +kernel⟩) (by decide +kernel) h).2.1⟩

end AnixAgent.Upgrade.Flights
