import AnixAgent.Lib.Answers

namespace AnixAgent.Lib.Failing

open Crash Crash.Proc Answers

variable {σ ι ε α β : Type}

abbrev Attempt (σ ι ε α : Type) := ExceptT ε (Asking σ ι) α

def need (q : ι) (e : ε) : Attempt σ ι ε Unit := ExceptT.mk do
  if ← ask q then pure (.ok ()) else pure (.error e)

def change (f : σ → σ) : Attempt σ ι ε Unit := ExceptT.lift (doing f)

def read (f : σ → α) : Attempt σ ι ε α := ExceptT.lift (seeing f)

def ends (Q : α → World σ ι → Prop) (E : ε → World σ ι → Prop) :
    Except ε α → World σ ι → Prop
  | .ok a, w => Q a w
  | .error e, w => E e w

variable {w : World σ ι} {G : World σ ι → World σ ι → Prop} {E : ε → World σ ι → Prop}

/-- Every action of the program is a step of `G`; it ends with `Q`, or fails with `E`. -/
abbrev Tries (p : Attempt σ ι ε α) (w : World σ ι) (G : World σ ι → World σ ι → Prop)
    (Q : α → World σ ι → Prop) (E : ε → World σ ι → Prop) : Prop :=
  Goes p.run w G (ends Q E)

variable {Q : α → World σ ι → Prop}

theorem tries_pure {a : α} (h : Q a w) : Tries (pure a) w G Q E :=
  Goes.pure h

theorem tries_throw {e : ε} (h : E e w) : Tries (throw e) w G Q E :=
  Goes.pure h

theorem tries_bind {p : Attempt σ ι ε α} {f : α → Attempt σ ι ε β} {Q : β → World σ ι → Prop}
    (h : Tries p w G (fun a t ↦ Tries (f a) t G Q E) E) : Tries (p >>= f) w G Q E := by
  refine Goes.bind (h.imp fun r t ht ↦ ?_)
  cases r with
  | ok a => exact ht
  | error e => exact Goes.pure ht

variable {H : σ → σ → Prop}

theorem tries_need {q : ι} {e : ε} {Q : Unit → World σ ι → Prop}
    (hH : H w.now w.now) (hQ : ∀ t, t.now = w.now → t.asked = w.asked ++ [(q, true)] → Q () t)
    (hE : ∀ t, t.now = w.now → t.asked = w.asked ++ [(q, false)] → E e t) :
    Tries (need q e) w (Within H) Q E := by
  refine Goes.bind (goes_ask hH fun b t hnow hasked ↦ ?_)
  cases b with
  | true => exact Goes.pure (hQ t hnow hasked)
  | false => exact Goes.pure (hE t hnow hasked)

theorem tries_change {f : σ → σ} {Q : Unit → World σ ι → Prop} (hH : H w.now (f w.now))
    (hQ : ∀ t, t.now = f w.now → t.asked = w.asked → Q () t) : Tries (change f) w (Within H) Q E :=
  Goes.bind (goes_doing hH fun t hnow hasked ↦ Goes.pure (hQ t hnow hasked))

theorem tries_read {f : σ → α} (hQ : Q (f w.now) w) : Tries (read f) w (Within H) Q E :=
  Goes.bind (goes_seeing (Goes.pure hQ))

def Yields (p : Attempt σ ι ε α) (a : α) : Prop := ∃ w, (p.run w).value = .ok a

/-- In every environment the error of the program, if there is one, has `E`. -/
def Raises (p : Attempt σ ι ε α) (E : ε → Prop) : Prop :=
  ∀ w e, (p.run w).value = .error e → E e

section

variable {p : Attempt σ ι ε α} {f : α → Attempt σ ι ε β} {E : ε → Prop} {a a' : α} {b : β} {e : ε}

theorem Yields.of_pure (h : Yields (Pure.pure a : Attempt σ ι ε α) a') : a' = a := by
  obtain ⟨w, hw⟩ := h
  cases hw
  rfl

theorem Yields.not_throw : ¬ Yields (throw e : Attempt σ ι ε α) a :=
  fun ⟨_, hw⟩ ↦ nomatch hw

theorem Yields.of_bind (h : Yields (p >>= f) b) : ∃ a, Yields p a ∧ Yields (f a) b := by
  obtain ⟨w, hw⟩ := h
  change (ExceptT.bindCont f (p.run w).value (p.run w).state).value = .ok b at hw
  cases hvalue : (p.run w).value with
  | ok a =>
    rw [hvalue] at hw
    exact ⟨a, ⟨w, hvalue⟩, _, hw⟩
  | error e =>
    rw [hvalue] at hw
    cases hw

theorem Raises.pure : Raises (Pure.pure a : Attempt σ ι ε α) E :=
  fun _ _ h ↦ nomatch h

theorem Raises.throw (h : E e) : Raises (throw e : Attempt σ ι ε α) E := by
  intro w e' he
  cases he
  exact h

theorem Raises.bind (hp : Raises p E) (hf : ∀ a, Yields p a → Raises (f a) E) :
    Raises (p >>= f) E := by
  intro w e he
  change (ExceptT.bindCont f (p.run w).value (p.run w).state).value = .error e at he
  cases hvalue : (p.run w).value with
  | ok a =>
    rw [hvalue] at he
    exact hf a ⟨w, hvalue⟩ _ e he
  | error e' =>
    rw [hvalue] at he
    cases he
    exact hp w _ hvalue

theorem Raises.lift {q : Asking σ ι α} : Raises (ExceptT.lift q : Attempt σ ι ε α) E :=
  fun _ _ h ↦ nomatch h

theorem Raises.need {q : ι} (h : E e) : Raises (need q e : Attempt σ ι ε Unit) E := by
  have hraises (b : Bool) (w : World σ ι) (e' : ε)
      (he : ((if b then Pure.pure (.ok ()) else Pure.pure (.error e) : Asking σ ι (Except ε Unit))
        w).value = .error e') : E e' := by
    cases b with
    | true => cases he
    | false =>
      cases he
      exact h
  exact fun w e' he ↦ hraises _ _ e' he

end

/-- With these answers to come the program returns `a` and leaves the answers `rest`. -/
def Passes (p : Attempt σ ι ε α) (script rest : List Bool) (a : α) : Prop :=
  ∀ w, w.script = script → (p.run w).value = .ok a ∧ (p.run w).state.script = rest

def Breaks (p : Attempt σ ι ε α) (script : List Bool) (e : ε) : Prop :=
  ∀ w, w.script = script → (p.run w).value = .error e

section

variable {p : Attempt σ ι ε α} {f : α → Attempt σ ι ε β} {script rest left : List Bool} {q : ι}
  {a : α} {b : β} {e : ε}

theorem Passes.pure : Passes (Pure.pure a : Attempt σ ι ε α) script script a :=
  fun _ h ↦ ⟨rfl, h⟩

theorem Passes.need (h : script.headD true = true) :
    Passes (need q e : Attempt σ ι ε Unit) script script.tail () := by
  intro w hw
  have hrun (c : Bool) (hc : c = true) (t : World σ ι) :
      ((if c then Pure.pure (.ok ()) else Pure.pure (.error e) : Asking σ ι (Except ε Unit)) t) =
        ⟨[], .ok (), t⟩ := by
    rw [hc]
    rfl
  have hasked := hrun (w.script.headD true) (by rw [hw]; exact h)
    { w with script := w.script.tail, asked := w.asked ++ [(q, w.script.headD true)] }
  exact ⟨congrArg Outcome.value hasked,
    (congrArg (fun o ↦ o.state.script) hasked).trans (congrArg List.tail hw)⟩

theorem Passes.ask :
    Passes (ExceptT.lift (ask q) : Attempt σ ι ε Bool) script script.tail (script.headD true) := by
  rintro w rfl
  exact ⟨rfl, rfl⟩

theorem Passes.change {g : σ → σ} :
    Passes (change g : Attempt σ ι ε Unit) script script () :=
  fun _ h ↦ ⟨rfl, h⟩

theorem Passes.bind (hp : Passes p script rest a) (hf : Passes (f a) rest left b) :
    Passes (p >>= f) script left b := by
  intro w hw
  obtain ⟨hvalue, hscript⟩ := hp w hw
  change (ExceptT.bindCont f (p.run w).value (p.run w).state).value = .ok b ∧
    (ExceptT.bindCont f (p.run w).value (p.run w).state).state.script = left
  rw [hvalue]
  exact hf _ hscript

theorem Passes.breaks (hp : Passes p script rest a) (hf : Breaks (f a) rest e) :
    Breaks (p >>= f) script e := by
  intro w hw
  obtain ⟨hvalue, hscript⟩ := hp w hw
  change (ExceptT.bindCont f (p.run w).value (p.run w).state).value = .error e
  rw [hvalue]
  exact hf _ hscript

theorem Breaks.throw : Breaks (throw e : Attempt σ ι ε α) script e :=
  fun _ _ ↦ rfl

theorem Breaks.bind (hp : Breaks p script e) : Breaks (p >>= f) script e := by
  intro w hw
  change (ExceptT.bindCont f (p.run w).value (p.run w).state).value = .error e
  rw [hp w hw]
  rfl

theorem Breaks.read {g : σ → α} (hf : ∀ a, Breaks (f a) script e) :
    Breaks (read g >>= f) script e :=
  fun w hw ↦ hf (g w.now) w hw

end

end AnixAgent.Lib.Failing
