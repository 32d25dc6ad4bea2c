import AnixAgent.Lib.Crash

namespace AnixAgent.Lib.Answers

open Crash Crash.Proc List

variable {σ ι α β : Type}

/-- A state among an environment that answers questions: `script` holds the answers to come,
`asked` the questions so far with their answers. -/
structure World (σ ι : Type) where
  now : σ
  script : List Bool
  asked : List (ι × Bool)

abbrev Asking (σ ι α : Type) := Proc (World σ ι) α

def ask (q : ι) : Asking σ ι Bool := do
  let answer ← look fun w ↦ w.script.headD true
  act fun w ↦ { w with script := w.script.tail, asked := w.asked ++ [(q, answer)] }
  pure answer

def doing (f : σ → σ) : Asking σ ι Unit := act fun w ↦ { w with now := f w.now }

def seeing (f : σ → α) : Asking σ ι α := look fun w ↦ f w.now

abbrev Within (G : σ → σ → Prop) : World σ ι → World σ ι → Prop := fun w t ↦ G w.now t.now

variable {w : World σ ι} {G : σ → σ → Prop} {H : World σ ι → World σ ι → Prop}

instance [Trans G G G] : Trans (Within G (ι := ι)) (Within G (ι := ι)) (Within G (ι := ι)) :=
  ⟨fun h h' ↦ Trans.trans (r := G) (s := G) h h'⟩

variable {Q : Bool → World σ ι → Prop}

theorem goes_asking {q : ι}
    (hQ : ∀ b t, t.now = w.now → t.asked = w.asked ++ [(q, b)] → H w t ∧ Q b t) :
    Goes (ask q) w H Q := by
  obtain ⟨hstep, hend⟩ := hQ (w.script.headD true)
    { w with script := w.script.tail, asked := w.asked ++ [(q, w.script.headD true)] } rfl rfl
  exact .bind (.look (.bind (.act hstep (.pure hend))))

variable {f : σ → σ}

theorem goes_acting {Q : Unit → World σ ι → Prop}
    (hQ : ∀ t, t.now = f w.now → t.asked = w.asked → H w t ∧ Q () t) : Goes (doing f) w H Q :=
  .act (hQ { w with now := f w.now } rfl rfl).1 (hQ { w with now := f w.now } rfl rfl).2

theorem goes_seeing {f : σ → α} {Q : α → World σ ι → Prop} (hQ : Q (f w.now) w) :
    Goes (seeing f) w H Q :=
  .look hQ

variable {C : World σ ι → Prop}

theorem sat_asking {q : ι}
    (hQ : ∀ b t, t.now = w.now → t.asked = w.asked ++ [(q, b)] → C t ∧ Q b t) :
    Sat (ask q) w C Q := by
  obtain ⟨hstep, hend⟩ := hQ (w.script.headD true)
    { w with script := w.script.tail, asked := w.asked ++ [(q, w.script.headD true)] } rfl rfl
  exact .bind (.look (.bind (.act hstep (.pure hend))))

theorem sat_acting {Q : Unit → World σ ι → Prop}
    (hQ : ∀ t, t.now = f w.now → t.asked = w.asked → C t ∧ Q () t) : Sat (doing f) w C Q :=
  .act (hQ { w with now := f w.now } rfl rfl).1 (hQ { w with now := f w.now } rfl rfl).2

theorem sat_seeing {f : σ → α} {Q : α → World σ ι → Prop} (hQ : Q (f w.now) w) :
    Sat (seeing f) w C Q :=
  .look hQ

theorem goes_ask {q : ι} (hG : G w.now w.now)
    (hQ : ∀ b t, t.now = w.now → t.asked = w.asked ++ [(q, b)] → Q b t) :
    Goes (ask q) w (Within G) Q :=
  goes_asking fun b t hnow hasked ↦ ⟨by rw [Within, hnow]; exact hG, hQ b t hnow hasked⟩

theorem goes_doing {Q : Unit → World σ ι → Prop} (hG : G w.now (f w.now))
    (hQ : ∀ t, t.now = f w.now → t.asked = w.asked → Q () t) : Goes (doing f) w (Within G) Q :=
  goes_acting fun t hnow hasked ↦ ⟨by rw [Within, hnow]; exact hG, hQ t hnow hasked⟩

abbrev Holds (I : σ → Prop) (p : Asking σ ι α) (w : World σ ι) (Q : α → World σ ι → Prop) : Prop :=
  Sat p w (fun t ↦ I t.now) fun a t ↦ I t.now ∧ Q a t

variable {I : σ → Prop}

theorem holds_ask (h : I w.now) (q : ι) :
    Holds I (ask q) w fun b t ↦ t.now = w.now ∧ t.asked = w.asked ++ [(q, b)] :=
  sat_asking fun _ _ hnow hasked ↦ ⟨hnow ▸ h, hnow ▸ h, hnow, hasked⟩

theorem holds_doing (h : I (f w.now)) :
    Holds I (doing f) w fun _ t ↦ t.now = f w.now ∧ t.asked = w.asked :=
  sat_acting fun _ hnow hasked ↦ ⟨hnow ▸ h, hnow ▸ h, hnow, hasked⟩

def Grows (p : Asking σ ι α) : Prop :=
  ∀ w, Sat p w (fun t ↦ w.asked <+: t.asked) fun _ t ↦ w.asked <+: t.asked

theorem Grows.pure (a : α) : Grows (Pure.pure a : Asking σ ι α) :=
  fun w ↦ .pure (prefix_refl w.asked)

theorem Grows.bind {p : Asking σ ι α} {f : α → Asking σ ι β} (hp : Grows p)
    (hf : ∀ a, Grows (f a)) : Grows (p >>= f) :=
  fun w ↦ .seq (hp w) fun a t ht ↦ (hf a t).mono (fun _ ↦ ht.trans) fun _ _ ↦ ht.trans

theorem Grows.ite {c : Prop} [Decidable c] {p p' : Asking σ ι α} (hp : Grows p)
    (hp' : Grows p') : Grows (if c then p else p') := by
  split
  · exact hp
  · exact hp'

theorem grows_ask (q : ι) : Grows (ask q : Asking σ ι Bool) :=
  fun _ ↦ sat_asking fun _ _ _ hasked ↦ by
    rw [hasked]
    exact ⟨prefix_append _ _, prefix_append _ _⟩

theorem grows_doing (f : σ → σ) : Grows (doing f : Asking σ ι Unit) :=
  fun _ ↦ sat_acting fun _ _ hasked ↦ by
    rw [hasked]
    exact ⟨prefix_refl _, prefix_refl _⟩

theorem grows_seeing (f : σ → α) : Grows (seeing f : Asking σ ι α) :=
  fun w ↦ sat_seeing (prefix_refl w.asked)

end AnixAgent.Lib.Answers
