import AnixAgent.Stream.Registers

namespace AnixAgent.Stream.Handled

open Machine SessionOperations Steps Trace Registers Lib.Runs

def handled (log : List Event) : List DesiredOperation :=
  log.filterMap fun
    | .handled op => some op
    | _ => none

@[simp] theorem handled_handled (op : DesiredOperation) (log : List Event) :
    handled (.handled op :: log) = op :: handled log := rfl

def handledRevisions (c : Client) : List Nat := (handled c.log).reverse.map (·.revision)

def handledKeys (c : Client) : List (String × Nat) :=
  (handled c.log).reverse.map fun op ↦ (op.operationId, op.revision)

def ready : Worker → Option Nat
  | .sendApplying op _ | .checkContext op _ | .call op _ => some op.revision
  | _ => none

def unsettled : Worker → Option Nat
  | .handling op _ | .finish op (.result _ _) => some op.revision
  | .store terminal _ => some terminal.revision
  | _ => none

variable {c d : Client}

theorem receive_handled {env : Env} (h : Receiving env c d) : handled d.log = handled c.log := by
  cases h with
  | reports => dsimp only; split <;> rfl
  | _ => rfl

theorem step_observedRevision {a : Action} (h : step c a = some d) :
    c.observedRevision ≤ d.observedRevision := by
  cases stepping h with
  | receive h => exact (receive_receives h).observed
  | work h => exact (work_works h).observed
  | _ => exact le_rfl

/-- Every handled revision is stored or about to be, and an operation that got
past the stale check is above all of them. -/
structure Inv (c : Client) : Prop where
  sorted : (handled c.log).Pairwise fun newer older ↦ older.revision < newer.revision
  settled : ∀ op ∈ handled c.log,
    op.revision ≤ c.observedRevision ∨ unsettled c.worker = some op.revision
  fresh : ∀ r, ready c.worker = some r → ∀ op ∈ handled c.log, op.revision < r

theorem Inv.of_frame (h : Inv c) (hw : d.worker = c.worker)
    (hl : handled d.log = handled c.log) (ho : c.observedRevision ≤ d.observedRevision) :
    Inv d where
  sorted := hl ▸ h.sorted
  settled op hop := by
    rw [hl] at hop
    rw [hw]
    exact (h.settled op hop).imp_left fun hle ↦ hle.trans ho
  fresh r hr op hop := by
    rw [hw] at hr
    rw [hl] at hop
    exact h.fresh r hr op hop

theorem Inv.of_quiet (h : Inv c) (hl : handled d.log = handled c.log)
    (hsettled : ∀ r, unsettled c.worker = some r →
      r ≤ d.observedRevision ∨ unsettled d.worker = some r)
    (ho : c.observedRevision ≤ d.observedRevision)
    (hready : ∀ r, ready d.worker = some r → ready c.worker = some r ∨
      unsettled c.worker = none ∧ c.observedRevision < r) : Inv d where
  sorted := hl ▸ h.sorted
  settled op hop := by
    rw [hl] at hop
    rcases h.settled op hop with hle | hu
    · exact .inl (hle.trans ho)
    · exact hsettled _ hu
  fresh r hr op hop := by
    rw [hl] at hop
    rcases hready r hr with hc | ⟨hu, hlt⟩
    · exact h.fresh r hc op hop
    · rcases h.settled op hop with hle | hs
      · exact hle.trans_lt hlt
      · rw [hu] at hs; cases hs

theorem Inv.call {op : DesiredOperation} {context : Nat} (h : Inv c)
    (hw : c.worker = .call op context) :
    Inv { emit c (.handled op) with worker := .handling op context } where
  sorted := by
    have hf := h.fresh op.revision (by rw [hw]; rfl)
    exact List.pairwise_cons.mpr ⟨hf, h.sorted⟩
  settled op' hop := by
    simp only [emit, handled_handled, List.mem_cons] at hop
    rcases hop with rfl | hop
    · exact .inr rfl
    · rcases h.settled op' hop with hle | hu
      · exact .inl hle
      · rw [hw] at hu; cases hu
  fresh r hr := by cases hr

theorem work_inv {env : Env} (hi : Inv c) (h : Working env c d) : Inv d := by
  have ho := (work_works h).observed
  cases h with
  | calls => exact hi.call rfl
  | newer ho' =>
    refine hi.of_quiet rfl (by rintro _ ⟨⟩) ho fun r hr ↦ ?_
    cases hr
    exact .inr ⟨rfl, not_le.mp ho'⟩
  | applies | live => exact hi.of_quiet rfl (by rintro _ ⟨⟩) ho fun _ ↦ .inl
  | returns => exact hi.of_quiet rfl (fun _ ↦ .inr) ho (by rintro _ ⟨⟩)
  | ends =>
    refine hi.of_quiet rfl (fun r hr ↦ .inr (.trans ?_ hr)) ho (by rintro _ ⟨⟩)
    exact congrArg (fun k ↦ some k.2) (stateKey_handlerTerminal ..)
  | stores =>
    refine hi.of_quiet rfl (fun r hr ↦ ?_) ho (by rintro _ ⟨⟩)
    cases hr
    exact .inl (Nat.le_max_right _ _)
  | reports =>
    refine hi.of_quiet ?_ (by rintro _ ⟨⟩) ho (by rintro _ ⟨⟩)
    dsimp only
    split <;> rfl
  | _ => exact hi.of_quiet rfl (by rintro _ ⟨⟩) ho (by rintro _ ⟨⟩)

theorem step_inv {a : Action} (hi : Inv c) (h : step c a = some d) : Inv d := by
  cases stepping h with
  | receive h =>
    have he := receive_receives h
    exact hi.of_frame he.worker (receive_handled h) he.observed
  | work h => exact work_inv hi h
  | connect _ hw => exact hi.of_quiet rfl (by rw [hw]; rintro _ ⟨⟩) le_rfl (by rintro _ ⟨⟩)
  | take | quit => exact hi.of_quiet rfl (by rintro _ ⟨⟩) le_rfl (by rintro _ ⟨⟩)
  | _ => exact hi.of_frame rfl rfl le_rfl

theorem reachable_inv (h : Reachable c) : Inv c :=
  h.invariant ⟨.nil, nofun, nofun⟩ fun _ _ _ hi _ hs ↦ step_inv hi hs

/-- In every run the handler is invoked for strictly increasing revisions, so
never twice for one operation, and `observedRevision` never decreases. -/
theorem handlers_strictly_increasing {c : Client} (h : Reachable c) :
    (handledRevisions c).Pairwise (· < ·) ∧ (handledKeys c).Nodup ∧
      ∀ d, Steps step c d → c.observedRevision ≤ d.observedRevision := by
  have hs := (reachable_inv h).sorted
  have hr : (handledRevisions c).Pairwise (· < ·) := by
    simpa [handledRevisions, List.pairwise_map, List.pairwise_reverse] using hs
  refine ⟨hr, ?_, fun d hd ↦ ?_⟩
  · have hn : ((handledKeys c).map Prod.snd).Nodup := by
      have he : (handledKeys c).map Prod.snd = handledRevisions c := by
        simp [handledKeys, handledRevisions]
      rw [he]
      exact hr.imp Nat.ne_of_lt
    exact hn.of_map _
  · exact hd.related (R := fun c d ↦ c.observedRevision ≤ d.observedRevision)
      (fun _ ↦ le_rfl) (fun _ _ _ ↦ le_trans) fun _ _ _ _ hs ↦ step_observedRevision hs

def calm : Env := ⟨0, false, true, none, [], none⟩

def delivery (op : DesiredOperation) : List Action :=
  .deliver (some op) :: List.replicate 7 (.receive calm)

def execution (n : Nat) : List Action := .take :: List.replicate n (.work calm)

def enableA : DesiredOperation := ⟨"a", "plugin.enable", 5, 0⟩
def enableB : DesiredOperation := ⟨"b", "plugin.enable", 7, 0⟩

theorem handlers_strictly_increasing_five_seven :
    ∃ c, Reachable c ∧ handledRevisions c = [5, 7] ∧ (handledRevisions c).Pairwise (· < ·) ∧
      (handledKeys c).Nodup ∧ ∀ d, Steps step c d → c.observedRevision ≤ d.observedRevision := by
  obtain ⟨c, hc, hr⟩ : ∃ c, Reachable c ∧ handledRevisions c = [5, 7] :=
    exists_steps (.connect 0 :: delivery enableA ++ execution 12 ++ delivery enableB ++ execution 12)
      _ (by decide)
  exact ⟨c, hc, hr, handlers_strictly_increasing hc⟩

end AnixAgent.Stream.Handled
