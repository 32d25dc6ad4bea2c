import AnixAgent.Stream.Steps

namespace AnixAgent.Stream.Trace

open Machine SessionOperations Steps Lib.Runs List

abbrev Key := String × Nat

def opKey (op : DesiredOperation) : Key := (op.operationId, op.revision)
def stateKey (observed : ObservedState) : Key := (observed.operationId, observed.revision)

def emitted (c : Client) : Action → Option Event
  | .deliver (some op) =>
    if op.kind = operationCancelKind then some (.cancelArrived op) else some (.arrived op)
  | .receive env =>
    match c.receiver with
    | .acknowledge ack _ => if env.sendOk then some (.acked ack) else none
    | .resend observed => if env.sendOk then some (.sent .receiver observed) else none
    | .store terminal _ => some (.stored .receiver terminal)
    | .remember terminal _ => some (.remembered .receiver terminal)
    | .report terminal _ => if env.sendOk then some (.sent .receiver terminal) else none
    | _ => none
  | .work env =>
    match c.worker with
    | .sendApplying op _ =>
      if env.sendOk then some (.sent .worker (observedOf op .applying "" env.now)) else none
    | .call op _ => some (.handled op)
    | .store terminal _ => some (.stored .worker terminal)
    | .remember terminal _ => some (.remembered .worker terminal)
    | .report terminal _ => if env.sendOk then some (.sent .worker terminal) else none
    | _ => none
  | _ => none

@[simp] theorem stateKey_handlerTerminal (op : DesiredOperation) (wasCancelled : Bool)
    (state : List UInt8) (err : Option String) (env : Env) :
    stateKey (handlerTerminal op wasCancelled state err env) = opKey op := by
  cases err <;> simp only [handlerTerminal] <;> split_ifs <;> rfl

/-- The events of a step. -/
inductive Emits : Client → Action → Event → Prop
  | arrived {c} {op : DesiredOperation} (hk : op.kind ≠ operationCancelKind) :
    Emits c (.deliver (some op)) (.arrived op)
  | cancelArrived {c op} : Emits c (.deliver (some op)) (.cancelArrived op)
  | acked {c ack after env} : Emits (go c (.acknowledge ack after)) (.receive env) (.acked ack)
  | resent {c t env} : Emits (go c (.resend t)) (.receive env) (.sent .receiver t)
  | stored {c t unmark env} : Emits (go c (.store t unmark)) (.receive env) (.stored .receiver t)
  | remembered {c t unmark env} :
    Emits (go c (.remember t unmark)) (.receive env) (.remembered .receiver t)
  | reported {c t unmark env} : Emits (go c (.report t unmark)) (.receive env) (.sent .receiver t)
  | applying {c op n} {env : Env} : Emits (run c (.sendApplying op n)) (.work env)
      (.sent .worker (observedOf op .applying "" env.now))
  | handled {c op n env} : Emits (run c (.call op n)) (.work env) (.handled op)
  | workStored {c t after env} : Emits (run c (.store t after)) (.work env) (.stored .worker t)
  | workRemembered {c t after env} :
    Emits (run c (.remember t after)) (.work env) (.remembered .worker t)
  | workReported {c t after env} : Emits (run c (.report t after)) (.work env) (.sent .worker t)

variable {c d : Client}

theorem emits {a : Action} {e : Event} (he : emitted c a = some e) : Emits c a e := by
  cases a with
  | deliver op =>
    cases op with
    | none => cases he
    | some op =>
      simp only [emitted] at he
      split at he <;> cases he
      · exact .cancelArrived
      · next hk => exact .arrived hk
  | receive env =>
    obtain ⟨r, c, rfl⟩ : ∃ r c', c = go c' r := ⟨c.receiver, c, rfl⟩
    cases r <;> simp only [emitted, reduceCtorEq] at he <;> try split at he
    all_goals cases he <;> constructor
  | work env =>
    obtain ⟨w, c, rfl⟩ : ∃ w c', c = run c' w := ⟨c.worker, c, rfl⟩
    cases w <;> simp only [emitted, reduceCtorEq] at he <;> try split at he
    all_goals cases he <;> constructor
  | connect | leave | take | quit | stop => cases he

theorem receive_log {env : Env} (h : Receiving env c d) :
    d.log = (emitted c (.receive env)).toList ++ c.log := by
  cases h with
  | acks hok | repeats hok | supersedes hok | completes hok | resends hok | reportsLast hok =>
    simp [emitted, emit, hok]
  | breaks hok | breaksResend hok | breaksReport hok => simp [emitted, hok]
  | reports => simp only [emitted]; split <;> simp [*]
  | _ => rfl

theorem work_log {env : Env} (h : Working env c d) :
    d.log = (emitted c (.work env)).toList ++ c.log := by
  cases h with
  | applies hok => simp [emitted, emit, hok]
  | abandons hok => simp [emitted, hok]
  | reports => simp only [emitted]; split <;> simp [*]
  | _ => rfl

theorem step_log {a : Action} (h : step c a = some d) : d.log = (emitted c a).toList ++ c.log := by
  cases stepping h with
  | receive h => exact receive_log h
  | work h => exact work_log h
  | refusesCancel hk | cancel hk | refuses hk | arrive hk => simp [emitted, emit, hk]
  | _ => rfl

def since (c d : Client) : List Event := d.log.take (d.log.length - c.log.length)

theorem since_eq {new : List Event} (h : d.log = new ++ c.log) : since c d = new := by
  simp [since, h]

theorem since_self (c : Client) : since c c = [] := since_eq (nil_append _).symm

variable {C : Client → Action → Prop}

theorem reach_log (h : Reach step C c d) : d.log = since c d ++ c.log := by
  induction h with
  | refl => rw [since_self]; rfl
  | @snoc d e a _ _ hs ih =>
    have hl : e.log = ((emitted d a).toList ++ since c d) ++ c.log := by
      rw [step_log hs, append_assoc, ← ih]
    rw [since_eq hl, hl]

theorem since_snoc {e : Client} {a : Action} (h : Reach step C c d) (hs : step d a = some e) :
    since c e = (emitted d a).toList ++ since c d := by
  apply since_eq
  rw [step_log hs, append_assoc, ← reach_log h]

theorem reach_since {I : Client → Prop} {P : Event → Prop} (h : Reach step C c d) (hc : I c)
    (hstep : ∀ c a d, I c → C c a → step c a = some d → I d)
    (hevent : ∀ c a d e, I c → C c a → step c a = some d → emitted c a = some e → P e) :
    I d ∧ ∀ e ∈ since c d, P e := by
  induction h with
  | refl => exact ⟨hc, by simp [since_self]⟩
  | @snoc d e a h hca hs ih =>
    refine ⟨hstep _ a _ ih.1 hca hs, fun ev hev ↦ ?_⟩
    rw [since_snoc h hs, mem_append, Option.mem_toList] at hev
    rcases hev with hev | hev
    · exact hevent _ a _ ev ih.1 hca hs hev
    · exact ih.2 ev hev

end AnixAgent.Stream.Trace
