import Mathlib

namespace AnixAgent.Lib.Crash

open List

variable {σ α β : Type}

/-- How a program ended, with the states it passed through. -/
structure Outcome (σ α : Type) where
  points : List σ
  value : α
  state : σ

/-- A program made of atomic actions on a state. It can be interrupted after
each of them. -/
def Proc (σ α : Type) : Type := σ → Outcome σ α

variable {f : α → Proc σ β}

namespace Proc

instance : Monad (Proc σ) where
  pure a := fun s ↦ ⟨[], a, s⟩
  bind p f := fun s ↦
    let first := p s
    let second := f first.value first.state
    ⟨first.points ++ second.points, second.value, second.state⟩

def act (f : σ → σ) : Proc σ Unit := fun s ↦ ⟨[f s], (), f s⟩

def look (f : σ → α) : Proc σ α := fun s ↦ ⟨[], f s, s⟩

/-- From `s` the program passes only through states with `C` and ends with `Q`. -/
structure Sat (p : Proc σ α) (s : σ) (C : σ → Prop) (Q : α → σ → Prop) : Prop where
  points : ∀ t ∈ (p s).points, C t
  ends : Q (p s).value (p s).state

variable {s : σ} {C D : σ → Prop} {p : Proc σ α} {Q R : α → σ → Prop}

theorem Sat.pure {a : α} (h : Q a s) : Sat (Pure.pure a) s C Q :=
  ⟨fun _ ht ↦ (not_mem_nil ht).elim, h⟩

theorem Sat.bind {Q : β → σ → Prop}
    (h : Sat p s C fun a t ↦ Sat (f a) t C Q) : Sat (p >>= f) s C Q := by
  refine ⟨fun t ht ↦ ?_, h.ends.ends⟩
  rcases mem_append.mp ht with ht | ht
  · exact h.points t ht
  · exact h.ends.points t ht

theorem Sat.act {f : σ → σ} {Q : Unit → σ → Prop} (hC : C (f s)) (hQ : Q () (f s)) :
    Sat (Proc.act f) s C Q := by
  refine ⟨fun t ht ↦ ?_, hQ⟩
  obtain rfl : t = f s := by simpa [Proc.act] using ht
  exact hC

theorem Sat.look {f : σ → α} (h : Q (f s) s) : Sat (Proc.look f) s C Q :=
  ⟨fun _ ht ↦ (not_mem_nil ht).elim, h⟩

theorem Sat.mono (h : Sat p s C Q) (hC : ∀ t, C t → D t) (hQ : ∀ a t, Q a t → R a t) :
    Sat p s D R :=
  ⟨fun t ht ↦ hC t (h.points t ht), hQ _ _ h.ends⟩

theorem Sat.seq {R : β → σ → Prop} (h : Sat p s C Q)
    (hf : ∀ a t, Q a t → Sat (f a) t C R) : Sat (p >>= f) s C R :=
  .bind (h.mono (fun _ hc ↦ hc) hf)

theorem Sat.returns {R : σ → Prop} {g : α → β} (h : Sat p s C fun _ ↦ R) :
    Sat (p >>= fun a ↦ Pure.pure (g a)) s C fun _ ↦ R :=
  h.seq fun _ _ ht ↦ .pure ht

theorem Sat.and (h : Sat p s C Q) (h' : Sat p s D R) :
    Sat p s (fun t ↦ C t ∧ D t) fun a t ↦ Q a t ∧ R a t :=
  ⟨fun t ht ↦ ⟨h.points t ht, h'.points t ht⟩, h.ends, h'.ends⟩

theorem Sat.forM {f : β → Proc σ PUnit} {l : List β} {I : List β → σ → Prop}
    (hround : ∀ x rest s, I (x :: rest) s → Sat (f x) s C fun _ t ↦ I rest t) (h : I l s) :
    Sat (l.forM f) s C fun _ t ↦ I [] t := by
  induction l generalizing s with
  | nil => exact .pure h
  | cons x rest ih => exact .bind ((hround x rest s h).mono (fun _ hc ↦ hc) fun _ _ ht ↦ ih ht)

/-- From `s` every action of the program is a step of `G`, and it ends with `Q`. -/
structure Goes (p : Proc σ α) (s : σ) (G : σ → σ → Prop) (Q : α → σ → Prop) : Prop where
  chain : (s :: (p s).points).IsChain G
  last : (p s).state = (p s).points.getLast?.getD s
  ends : Q (p s).value (p s).state

variable {G H : σ → σ → Prop}

theorem Goes.pure {a : α} (h : Q a s) : Goes (Pure.pure a) s G Q :=
  ⟨.singleton s, rfl, h⟩

theorem Goes.bind {Q : β → σ → Prop}
    (h : Goes p s G fun a t ↦ Goes (f a) t G Q) : Goes (p >>= f) s G Q := by
  obtain ⟨hhead, htail⟩ := isChain_cons.mp h.ends.chain
  refine ⟨?_, ?_, h.ends.ends⟩
  · refine h.chain.append htail fun x hx y hy ↦ ?_
    rw [getLast?_cons, Option.mem_some_iff, ← h.last] at hx
    exact hx ▸ hhead y hy
  have hlast := h.ends.last
  rw [h.last, ← Option.getD_or, ← getLast?_append] at hlast
  rw [← h.last] at hlast
  exact hlast

theorem Goes.act {f : σ → σ} {Q : Unit → σ → Prop} (hG : G s (f s)) (hQ : Q () (f s)) :
    Goes (Proc.act f) s G Q :=
  ⟨.cons_cons hG (.singleton _), rfl, hQ⟩

theorem Goes.look {f : σ → α} (h : Q (f s) s) : Goes (Proc.look f) s G Q :=
  ⟨.singleton s, rfl, h⟩

theorem Goes.mono (h : Goes p s G Q) (hG : ∀ s t, G s t → H s t) (hQ : ∀ a t, Q a t → R a t) :
    Goes p s H R :=
  ⟨h.chain.imp hG, h.last, hQ _ _ h.ends⟩

theorem Goes.imp (h : Goes p s G Q) (hQ : ∀ a t, Q a t → R a t) : Goes p s G R :=
  h.mono (fun _ _ hg ↦ hg) hQ

theorem Goes.seq {R : β → σ → Prop} (h : Goes p s G Q)
    (hf : ∀ a t, Q a t → Goes (f a) t G R) : Goes (p >>= f) s G R :=
  .bind (h.imp hf)

theorem Goes.returns {R : σ → Prop} {g : α → β} (h : Goes p s G fun _ ↦ R) :
    Goes (p >>= fun a ↦ Pure.pure (g a)) s G fun _ ↦ R :=
  h.seq fun _ _ ht ↦ .pure ht

theorem Goes.and (h : Goes p s G Q) (hR : R (p s).value (p s).state) :
    Goes p s G fun a t ↦ Q a t ∧ R a t :=
  ⟨h.chain, h.last, h.ends, hR⟩

theorem forall_mem_of_isChain {l : List σ} (h : (s :: l).IsChain G) (hC : ∀ s t, G s t → C t) :
    ∀ t ∈ l, C t := by
  induction l generalizing s with
  | nil => simp
  | cons x l ih =>
    obtain ⟨hx, hrest⟩ := isChain_cons_cons.mp h
    exact forall_mem_cons.mpr ⟨hC s x hx, ih hrest⟩

theorem Goes.related {R : σ → σ → Prop} [Trans R R R] (h : Goes p s G Q) (hrefl : R s s)
    (hG : ∀ s t, G s t → R s t) : R s (p s).state := by
  rw [h.last]
  cases hlast : (p s).points.getLast? with
  | none => exact hrefl
  | some t => exact (h.chain.imp hG).rel_cons (mem_of_getLast? hlast)

end Proc

end AnixAgent.Lib.Crash
