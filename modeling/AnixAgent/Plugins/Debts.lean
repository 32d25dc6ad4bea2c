import AnixAgent.Plugins.Lifecycle

namespace AnixAgent.Plugins.Debts

open Lib.Answers Lifecycle List
open Journal (Write)

abbrev Now := World Plugin Query

/-- No `Stop` fails in `Close`, and no rollback of a `configure` starts a process after a restart
that left a pending cleanup. -/
def Gentle (asked : List (Query × Bool)) : Prop :=
  ((.stop, .close), false) ∉ asked ∧ ((.health, .rollback .owing), true) ∉ asked

instance (asked : List (Query × Bool)) : Decidable (Gentle asked) := by
  unfold Gentle
  infer_instance

theorem Gentle.of_append {l l' : List (Query × Bool)} (h : Gentle (l ++ l')) : Gentle l :=
  ⟨fun hmem ↦ h.1 (mem_append_left l' hmem), fun hmem ↦ h.2 (mem_append_left l' hmem)⟩

def recovers : Query → Bool
  | (.cleanup, site) | (.socket, site) => site.recovers
  | _ => false

def Recovering (asked : List (Query × Bool)) : Prop := ∃ x ∈ asked.getLast?, recovers x.1 = true

/-- What a deed means for the cleanup of a version: whether it is recorded as pending and no
signed cleanup has returned success since, and whether the file says so. -/
def dueStep (version : String) (due : Bool × Bool) : Deed → Bool × Bool
  | .owed v => if v = version then (true, due.2) else due
  | .cleaned v => if v = version then (false, false) else due
  | .saved => (due.1, due.1)
  | .loaded v => (v = some version, v = some version)
  | .lost => (false, due.2)
  | _ => due

def due (version : String) (log : List Deed) : Bool × Bool :=
  log.foldl (dueStep version) (false, false)

def recorded (version : String) (log : List Deed) : Bool := (due version log).1

def written (version : String) (log : List Deed) : Bool := (due version log).2

def debtOf (state : Option PluginState) : Option String := state.bind PluginState.debt

structure Kept (capable : String → Bool) (p : Plugin) : Prop where
  memory : ∀ v, capable v = true → recorded v p.log = true → debtOf p.state = some v
  disk : ∀ v, capable v = true → written v p.log = true → debtOf p.disk = some v
  both : ∀ v, capable v = true → written v p.log = true → recorded v p.log = true

def Free (capable : String → Bool) (p : Plugin) : Prop :=
  ∀ v, capable v = true → recorded v p.log = false

structure Records (p q : Plugin) : Prop where
  log : p.log <+: q.log
  debt : ∀ v, debtOf q.state = some v → debtOf p.state = some v ∨ recorded v q.log = true

variable {capable : String → Bool} {p q : Plugin} {st : PluginState} {w t : Now} {v : String}

theorem due_concat (version : String) (log : List Deed) (d : Deed) :
    due version (log ++ [d]) = dueStep version (due version log) d := by
  simp [due]

theorem debt_of_pending (h : st.cleanupPending) : st.debt = some st.owes := by
  rw [PluginState.debt, if_pos h]

theorem debt_of_clear (h : st.cleanupPending = false) : st.debt = none := by
  rw [PluginState.debt, h, if_neg Bool.false_ne_true]

theorem Records.of_state (hstate : q.state = p.state) (hlog : p.log <+: q.log) : Records p q :=
  ⟨hlog, fun _ hv ↦ .inl (hstate ▸ hv)⟩

theorem Records.refl (p : Plugin) : Records p p := .of_state rfl (prefix_refl _)

theorem recorded_persist (p : Plugin) (w : Write) (v : String) :
    recorded v (p.persist w).log = recorded v p.log := by
  unfold Plugin.persist
  split
  · simp [Plugin.did, recorded, due_concat, dueStep]
  · rfl

theorem Records.persist (h : Records p q) (w : Write) : Records p (q.persist w) where
  log := by
    unfold Plugin.persist
    split
    · exact h.log.trans (prefix_append _ _)
    · exact h.log
  debt := fun v hv ↦ by
    rw [recorded_persist]
    refine h.debt v ?_
    unfold Plugin.persist at hv
    split at hv <;> exact hv

def Deed.neutral : Deed → Bool
  | .cleaned _ | .wrote _ | .secrets .. | .started _ => true
  | _ => false

structure Keeps (p q : Plugin) : Prop where
  state : q.state = p.state
  disk : q.disk = p.disk
  registered : q.registered = p.registered ∨ q.registered = none
  log : q.log = p.log ∨ ∃ d, Deed.neutral d = true ∧ q.log = p.log ++ [d]

theorem Keeps.records (h : Keeps p q) : Records p q := by
  rcases h.log with hsame | ⟨d, -, hlog⟩
  · exact .of_state h.state (hsame ▸ prefix_refl _)
  · exact .of_state h.state (hlog ▸ prefix_append _ _)

theorem Keeps.due (h : Keeps p q) (v : String) :
    due v q.log = due v p.log ∨ due v q.log = (false, false) := by
  rcases h.log with hsame | ⟨d, hd, hlog⟩
  · exact .inl (by rw [hsame])
  rw [hlog, due_concat]
  cases d with
  | cleaned u =>
    simp only [dueStep]
    split
    · exact .inr rfl
    · exact .inl rfl
  | wrote | secrets | started => exact .inl rfl
  | owed | saved | loaded | lost => cases hd

theorem Kept.keeps (h : Kept capable p) (hq : Keeps p q) : Kept capable q := by
  refine ⟨fun v hv hrec ↦ ?_, fun v hv hwr ↦ ?_, fun v hv hwr ↦ ?_⟩
  · rcases hq.due v with hsame | hnone
    · exact hq.state ▸ h.memory v hv (by rw [recorded, ← hsame]; exact hrec)
    · rw [recorded, hnone] at hrec
      cases hrec
  · rcases hq.due v with hsame | hnone
    · exact hq.disk ▸ h.disk v hv (by rw [written, ← hsame]; exact hwr)
    · rw [written, hnone] at hwr
      cases hwr
  · rcases hq.due v with hsame | hnone
    · rw [recorded, hsame]
      exact h.both v hv (by rw [written, ← hsame]; exact hwr)
    · rw [written, hnone] at hwr
      cases hwr

theorem Free.persist (h : Free capable p) (w : Write) : Free capable (p.persist w) :=
  fun v hv ↦ (recorded_persist p w v).trans (h v hv)

theorem Kept.persist (h : Kept capable p) (w : Write) : Kept capable (p.persist w) := by
  unfold Plugin.persist
  split
  · have hdue (v : String) : due v (p.log ++ [.saved]) = (recorded v p.log, recorded v p.log) :=
      due_concat v p.log .saved
    refine ⟨fun v hv hrec ↦ h.memory v hv ?_, fun v hv hwr ↦ h.memory v hv ?_, fun v _ hwr ↦ ?_⟩
    · simpa only [recorded, Plugin.did, hdue] using hrec
    · simpa only [written, Plugin.did, hdue] using hwr
    · simpa only [written, recorded, Plugin.did, hdue] using hwr
  · exact h

def Surviving (capable : String → Bool) (p : Plugin) : Prop :=
  ∀ v, capable v = true → written v p.log = true → debtOf p.disk = some v

theorem Kept.load (p : Plugin) : Kept capable p.load := by
  have hdue (v : String) :
      due v p.load.log = (decide (debtOf p.disk = some v), decide (debtOf p.disk = some v)) :=
    due_concat v p.log (.loaded (debtOf p.disk))
  refine ⟨fun v _ hrec ↦ ?_, fun v _ hwr ↦ ?_, fun v _ hwr ↦ ?_⟩
  · rw [recorded, hdue] at hrec
    exact of_decide_eq_true hrec
  · rw [written, hdue] at hwr
    exact of_decide_eq_true hwr
  · rw [written, hdue] at hwr
    rw [recorded, hdue]
    exact hwr

theorem written_dead (p : Plugin) (v : String) : written v p.dead.log = written v p.log := by
  simp [Plugin.dead, written, due_concat, dueStep]

theorem Kept.dead (h : Kept capable p) (saved : Bool) :
    Surviving capable (if saved then { p with disk := p.state } else p).dead := by
  intro v hv hwr
  rw [written_dead] at hwr
  cases saved with
  | true => exact h.memory v hv (h.both v hv hwr)
  | false => exact h.disk v hv hwr

theorem Kept.free_of_cleaned (h : Kept capable p) (hdebt : ∀ u, debtOf p.state = some u → u = v)
    (hcleaned : capable v → recorded v p.log = false) : Free capable p := by
  intro u hu
  refine Bool.eq_false_iff.mpr fun hrec ↦ ?_
  have heq := hdebt u (h.memory u hu hrec)
  rw [heq] at hu hrec
  rw [hcleaned hu] at hrec
  cases hrec

inductive Renews (capable : String → Bool) (p q : Plugin) (st : PluginState) : Prop
  | same (hlog : q.log = p.log) (h : st.debt = debtOf p.state)
  | free (hlog : q.log = p.log) (hfree : Free capable p)
    (h : ∀ v, st.debt = some v → debtOf p.state = some v)
  | owed (v : String) (hlog : q.log = p.log ++ [.owed v]) (h : st.debt = some v)
    (hold : ∀ u, debtOf p.state = some u → u = v)

theorem Renews.records (h : Renews capable p q st) (hst : q.state = some st) : Records p q := by
  have hdebt : debtOf q.state = st.debt := by
    rw [hst]
    rfl
  cases h with
  | same hlog hsame =>
    exact ⟨hlog ▸ prefix_refl _, fun v hv ↦ .inl (by rw [← hsame, ← hdebt, hv])⟩
  | free hlog hfree hold =>
    exact ⟨hlog ▸ prefix_refl _, fun v hv ↦ .inl (hold v (hdebt.symm.trans hv))⟩
  | owed u hlog hu hold =>
    refine ⟨hlog ▸ prefix_append _ _, fun v hv ↦ .inr ?_⟩
    rw [hdebt, hu] at hv
    cases hv
    rw [hlog, recorded, due_concat]
    simp [dueStep]

theorem Kept.of_free (h : Kept capable p) (hfree : Free capable p) (hdisk : q.disk = p.disk)
    (hlog : q.log = p.log) : Kept capable q := by
  refine ⟨fun v hv hrec ↦ ?_, ?_, ?_⟩
  · rw [hlog, hfree v hv] at hrec
    cases hrec
  · rw [hlog, hdisk]
    exact h.disk
  · rw [hlog]
    exact h.both

theorem Kept.renew (h : Kept capable p) (hst : q.state = some st) (hdisk : q.disk = p.disk)
    (hq : Renews capable p q st) : Kept capable q := by
  have hdebt : debtOf q.state = st.debt := by
    rw [hst]
    rfl
  cases hq with
  | same hlog hsame =>
    refine ⟨?_, ?_, ?_⟩
    · rw [hlog, hdebt, hsame]
      exact h.memory
    · rw [hlog, hdisk]
      exact h.disk
    · rw [hlog]
      exact h.both
  | free hlog hfree _ => exact h.of_free hfree hdisk hlog
  | owed u hlog hu hold =>
    have hstep (v : String) :
        due v q.log = if u = v then (true, written v p.log) else due v p.log := by
      rw [hlog, due_concat]
      rfl
    have hwritten (v : String) : written v q.log = written v p.log := by
      rw [written, hstep]
      split
      · rfl
      · rfl
    refine ⟨fun v hv hrec ↦ ?_, fun v hv hwr ↦ ?_, fun v hv hwr ↦ ?_⟩
    · rw [recorded, hstep] at hrec
      split at hrec
      · next heq => rw [hdebt, hu, heq]
      · next hne => exact absurd (hold v (h.memory v hv hrec)).symm hne
    · rw [hdisk]
      exact h.disk v hv (hwritten v ▸ hwr)
    · rw [recorded, hstep]
      split
      · rfl
      · exact h.both v hv (hwritten v ▸ hwr)

def Clear (w : Now) : Prop := ∀ st ∈ w.now.state, st.cleanupPending = false

theorem Clear.debt (h : Clear w) : debtOf w.now.state = none := by
  cases hst : w.now.state with
  | none => rfl
  | some st => exact debt_of_clear (h st hst)

/-- What holds at every moment of a Supervisor: the debt is kept, and in a gentle environment a
plugin with a registered process has none, and its recovery does not touch the process. -/
structure Moment (capable : String → Bool) (w : Now) : Prop where
  kept : Kept capable w.now
  calm : Gentle w.asked → w.now.registered.isSome = true → Clear w
  idle : Gentle w.asked → Recovering w.asked → w.now.registered = none

theorem not_recovering {q : Query} {b : Bool} {l : List (Query × Bool)} (hq : recovers q = false)
    (hasked : w.asked = l ++ [(q, b)]) : ¬ Recovering w.asked := by
  rintro ⟨x, hx, hrec⟩
  rw [hasked, getLast?_concat, Option.mem_some_iff] at hx
  subst hx
  rw [hq] at hrec
  cases hrec

theorem gentle_of_asked {l : List (Query × Bool)} (hasked : t.asked = w.asked ++ l)
    (h : Gentle t.asked) : Gentle w.asked := by
  rw [hasked] at h
  exact h.of_append

theorem Moment.ask {x : Query × Bool} (h : Moment capable w) (hnow : t.now = w.now)
    (hasked : t.asked = w.asked ++ [x])
    (hx : recovers x.1 → Gentle w.asked → w.now.registered = none) : Moment capable t where
  kept := hnow ▸ h.kept
  calm := fun hgentle hreg st hst ↦
    h.calm (gentle_of_asked hasked hgentle) (hnow ▸ hreg) st (hnow ▸ hst)
  idle := fun hgentle hrec ↦ by
    obtain ⟨y, hy, hyrec⟩ := hrec
    rw [hasked, getLast?_concat, Option.mem_some_iff] at hy
    subst hy
    rw [hnow]
    exact hx hyrec (gentle_of_asked hasked hgentle)

theorem Moment.keeps (h : Moment capable w) (hkeeps : Keeps w.now t.now)
    (hasked : t.asked = w.asked) : Moment capable t where
  kept := h.kept.keeps hkeeps
  calm := fun hgentle hreg st hst ↦ by
    rw [hasked] at hgentle
    rw [hkeeps.state] at hst
    rcases hkeeps.registered with hsame | hnone
    · exact h.calm hgentle (hsame ▸ hreg) st hst
    · rw [hnone] at hreg
      cases hreg
  idle := fun hgentle hrec ↦ by
    rw [hasked] at hgentle hrec
    rcases hkeeps.registered with hsame | hnone
    · exact hsame.trans (h.idle hgentle hrec)
    · exact hnone

end AnixAgent.Plugins.Debts
