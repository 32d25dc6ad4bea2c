import AnixAgent.Upgrade.Effects

namespace AnixAgent.Upgrade.Guarantees

open Lib.Crash Lib.Crash.Proc Lib.Answers Lib.Failing Versions Updater Effects List

variable {tools : Tools} {installed : String} {staging : Staging} {polls : List Poll} {clock : Int}
  {before : Lib} {h : HandOff} {w t : Now}

def PutBack (asked : List (Step × Bool)) : Prop := ∀ x ∈ asked, x.1.putsBack = true → x.2 = true

theorem PutBack.of_subset {l l' : List (Step × Bool)} (hback : PutBack l') (hsub : l ⊆ l') :
    PutBack l :=
  fun x hx ↦ hback x (hsub hx)

theorem PutBack.not_failed {l : List (Step × Bool)} (hback : PutBack l) {q : Step}
    (hq : q.putsBack) : (q, false) ∉ l :=
  fun hmem ↦ Bool.false_ne_true (hback _ hmem hq)

structure RemovedKernel (w t : Now) : Prop where
  agent : t.now.lib.agent = w.now.lib.agent
  prev : t.now.lib.prev = w.now.lib.prev
  asked : w.asked ⊆ t.asked
  back : PutBack t.asked → t.now.lib.kernelRecord = none ∧
    t.now.lib.kernel = w.now.lib.kernelPrev ∧ t.now.lib.server = w.now.lib.serverPrev

variable {Q : Unit → Now → Prop} {E : Failure → Now → Prop}

section

variable {G : Host → Host → Prop} (hG : ∀ p q : Host, q.lib.agent = p.lib.agent → G p q)

include hG

theorem goes_trying {q : Step} {f : Lib → Lib} (hf : ∀ lib, (f lib).agent = lib.agent)
    (hQ : ∀ t, w.asked ⊆ t.asked →
      (t.now.lib = f w.now.lib ∨ t.now.lib = w.now.lib ∧ (q, false) ∈ t.asked) → Q () t) :
    Goes (trying q f) w (Within G) Q := by
  refine .bind (goes_ask (hG _ _ rfl) fun b t hnow hasked ↦ ?_)
  have hquiet := quiet_of_asked hnow hasked
  cases b with
  | true =>
    rw [if_pos rfl]
    refine goes_doing (hG _ _ ?_) fun t₁ hnow₁ hasked₁ ↦ hQ t₁ ?_ (.inl ?_)
    · exact hf _
    · exact hasked₁ ▸ hquiet.asked
    · rw [hnow₁, hnow]
  | false => exact .pure (hQ t hquiet.asked (.inr ⟨by rw [hnow], by simp [hasked]⟩))

theorem goes_reinstate {place drop : Step} {kept : Option Bytes} {put : Bytes → Lib → Lib}
    {clear : Lib → Lib} (P : Lib → Prop) (f : Lib → Option Bytes) (hplace : place.putsBack)
    (hdrop : drop.putsBack)
    (hput : ∀ content lib, (put content lib).agent = lib.agent ∧ f (put content lib) = some content)
    (hclear : ∀ lib, (clear lib).agent = lib.agent ∧ f (clear lib) = none)
    (hPput : ∀ content, P (put content w.now.lib)) (hPclear : P (clear w.now.lib))
    (hP : P w.now.lib)
    (hQ : ∀ t, w.asked ⊆ t.asked → P t.now.lib ∧ (PutBack t.asked → f t.now.lib = kept) → Q () t) :
    Goes (reinstate place drop kept put clear) w (Within G) Q := by
  unfold reinstate
  split
  · refine goes_trying hG (fun lib ↦ (hclear lib).1) fun t hasked hlib ↦ hQ t hasked ?_
    rcases hlib with hlib | ⟨hlib, hmem⟩
    · rw [hlib]
      exact ⟨hPclear, fun _ ↦ (hclear _).2⟩
    · rw [hlib]
      exact ⟨hP, fun hback ↦ absurd hmem (hback.not_failed hdrop)⟩
  next content =>
  refine .bind (goes_ask (hG _ _ rfl) fun b t hnow hasked ↦ ?_)
  have hquiet := quiet_of_asked hnow hasked
  cases b with
  | true =>
    rw [if_pos rfl]
    refine goes_doing (hG _ _ (hput _ _).1) fun t₁ hnow₁ hasked₁ ↦ hQ t₁ ?_ ?_
    · exact hasked₁ ▸ hquiet.asked
    · rw [hnow₁, hnow]
      exact ⟨hPput content, fun _ ↦ (hput _ _).2⟩
  | false =>
    have hmem : (place, false) ∈ t.asked := by simp [hasked]
    refine goes_trying hG (fun lib ↦ (hclear lib).1) fun t₁ hasked₁ hlib₁ ↦
      hQ t₁ (Subset.trans hquiet.asked hasked₁) ⟨?_, fun hback ↦ ?_⟩
    · rw [hnow] at hlib₁
      rcases hlib₁ with hlib | ⟨hlib, -⟩
      · rw [hlib]
        exact hPclear
      · rw [hlib]
        exact hP
    · exact absurd (hasked₁ hmem) (hback.not_failed hplace)

theorem tries_removeKernel (hQ : ∀ t, RemovedKernel w t → Q () t) :
    Tries (ExceptT.lift removeKernel) w (Within G) Q E := by
  refine .bind (.bind (goes_trying hG (fun _ ↦ rfl) fun t₁ hasked₁ hlib₁ ↦ ?_))
  refine .bind (goes_seeing (.bind (goes_reinstate hG
    (fun lib ↦ lib = { t₁.now.lib with kernel := lib.kernel, kernelPrev := lib.kernelPrev })
    (·.kernel) rfl rfl (fun _ _ ↦ ⟨rfl, rfl⟩) (fun _ ↦ ⟨rfl, rfl⟩) (fun _ ↦ rfl) rfl rfl
    fun t₂ hasked₂ h₂ ↦ ?_)))
  refine .bind (goes_seeing (goes_reinstate hG
    (fun lib ↦ lib = { t₂.now.lib with server := lib.server, serverPrev := lib.serverPrev })
    (·.server) rfl rfl (fun _ _ ↦ ⟨rfl, rfl⟩) (fun _ ↦ ⟨rfl, rfl⟩) (fun _ ↦ rfl) rfl rfl
    fun t₃ hasked₃ h₃ ↦ .pure (hQ t₃ ?_)))
  have h₁ : t₁.now.lib = { w.now.lib with kernelRecord := t₁.now.lib.kernelRecord } ∧
      (PutBack t₁.asked → t₁.now.lib.kernelRecord = none) := by
    rcases hlib₁ with hlib | ⟨hlib, hmem⟩
    · exact ⟨by rw [hlib], fun _ ↦ by rw [hlib]⟩
    · exact ⟨by rw [hlib], fun hback ↦ absurd hmem (hback.not_failed rfl)⟩
  have hsub := Subset.trans hasked₂ hasked₃
  refine ⟨?_, ?_, Subset.trans hasked₁ hsub, fun hback ↦ ⟨?_, ?_, ?_⟩⟩
  · rw [h₃.1, h₂.1, h₁.1]
  · rw [h₃.1, h₂.1, h₁.1]
  · rw [h₃.1, h₂.1]
    exact h₁.2 (hback.of_subset hsub)
  · rw [h₃.1]
    exact (h₂.2 (hback.of_subset hasked₃)).trans (by rw [h₁.1])
  · exact (h₃.2 hback).trans (by rw [h₂.1, h₁.1])

theorem tries_restore {e : Failure} (hprev : ∀ p q : Host, q.lib.agent = w.now.lib.prev → G p q)
    (hshort : ∃ content, w.now.lib.prev = some content ∧ content.length ≤ maxBinaryBytes)
    (hQ : ∀ t, t.now.lib = { w.now.lib with agent := w.now.lib.prev } → w.asked ⊆ t.asked → Q () t)
    (hE : ∀ t, w.asked ⊆ t.asked → ¬PutBack t.asked → E e t) :
    Tries (restore e) w (Within G) Q E := by
  obtain ⟨content, hcontent, hshort⟩ := hshort
  have hfailed {q : Step} {t : Now} (hq : q.putsBack) (hmem : (q, false) ∈ t.asked) :
      ¬PutBack t.asked :=
    fun hback ↦ hback.not_failed hq hmem
  refine tries_bind (tries_read ?_)
  refine tries_bind (tries_copyFile hG (fun temp t₁ htemp _ ht₁ ↦ ?_) fun t₁ ht₁ hmem ↦
    hE t₁ ht₁.asked (hfailed rfl (hmem content hcontent hshort)))
  refine tries_bind (tries_needed hG (fun t₂ ht₂ _ ↦ ?_) fun t₂ ht₂ hmem ↦
    hE t₂ (ht₁.trans ht₂).asked (hfailed rfl hmem))
  refine tries_bind (tries_change (hprev _ _ htemp.symm) fun t₃ hnow₃ hasked₃ ↦ ?_)
  have hsub : w.asked ⊆ t₃.asked := hasked₃ ▸ (ht₁.trans ht₂).asked
  refine tries_needed hG (fun t₄ ht₄ _ ↦ hQ t₄ ?_ (Subset.trans hsub ht₄.asked))
    fun t₄ ht₄ hmem ↦ hE t₄ (Subset.trans hsub ht₄.asked) (hfailed rfl hmem)
  rw [ht₄.now, hnow₃, ht₂.now, ht₁.now, htemp]

end

/-- What the undoing of a kernel finds as it needs it: nothing of an earlier kernel that it would
lose, and nothing that fails after the kernel is in place and before the Agent is restarted. -/
structure Undoable (tools : Tools) (installed : String) (staging : Staging) (before : Lib)
    (h : HandOff) (kernel : KernelHandOff) (asked : List (Step × Bool)) : Prop where
  record : before.kernelRecord = none
  kernelPrev : before.kernel = none → before.kernelPrev = none
  serverPrev : if (packageServer tools staging kernel).isSome
    then before.server = none → before.serverPrev = none
    else before.serverPrev = before.server
  agent : tools.sameAgentVersion installed h.targetVersion = false →
    ∃ content, before.agent = some content ∧ content.length ≤ maxBinaryBytes
  calls : ∀ q ∈ [Step.placeServer, .recordKernel, .copyAgent, .hashKept, .placePrev, .recordPrev,
    .placeAgent], (q, false) ∉ asked

def CanUndo (tools : Tools) (installed : String) (staging : Staging) (before : Lib) (h : HandOff)
    (asked : List (Step × Bool)) : Prop :=
  ∀ kernel, h.kernel = some kernel → (Step.placeKernel, true) ∈ asked →
    Undoable tools installed staging before h kernel asked

variable (tools installed staging before h) in
def Undone (t : Now) : Prop :=
  PutBack t.asked → CanUndo tools installed staging before h t.asked → SameFiles before t.now.lib

variable (tools staging before) in
def Holds (w : Now) : Option KernelHandOff → Prop
  | none => w.now.lib.kernel = before.kernel ∧ w.now.lib.server = before.server ∧
      w.now.lib.kernelRecord = before.kernelRecord
  | some kernel => (Step.placeKernel, true) ∈ w.asked ∧
      w.now.lib.kernelPrev = before.kernel.or before.kernelPrev ∧
      w.now.lib.serverPrev = if (packageServer tools staging kernel).isSome
        then before.server.or before.serverPrev else before.serverPrev

theorem Holds.keep {kernel : Option KernelHandOff} (hholds : Holds tools staging before w kernel)
    (hkept : KeptAgent w t) : Holds tools staging before t kernel := by
  cases kernel with
  | none =>
    exact ⟨hkept.kernel.trans hholds.1, hkept.server.trans hholds.2.1,
      hkept.kernelRecord.trans hholds.2.2⟩
  | some kernel =>
    exact ⟨hkept.asked hholds.1, hkept.kernelPrev.trans hholds.2.1,
      hkept.serverPrev.trans hholds.2.2⟩

theorem undone_of_quiet (hlib : w.now.lib = before) (ht : Quiet w t) :
    Undone tools installed staging before h t := by
  intro _ _
  rw [ht.now, hlib]
  exact ⟨rfl, rfl, rfl, rfl⟩

theorem undone_of_same (hholds : Holds tools staging before w h.kernel)
    (hagent : w.now.lib.agent = before.agent) (hsame : SameFiles w.now.lib t.now.lib)
    (hasked : w.asked ⊆ t.asked)
    (hversion : tools.sameAgentVersion installed h.targetVersion = false)
    (hfailed : ∀ content, before.agent = some content → content.length ≤ maxBinaryBytes →
      ∃ q ∈ [Step.copyAgent, .hashKept, .placePrev, .recordPrev, .placeAgent],
        (q, false) ∈ t.asked) :
    Undone tools installed staging before h t := by
  intro _ hcan
  cases hkernel : h.kernel with
  | none =>
    rw [hkernel] at hholds
    exact ⟨hsame.agent.trans hagent, hsame.kernel.trans hholds.1,
      hsame.server.trans hholds.2.1, hsame.kernelRecord.trans hholds.2.2⟩
  | some kernel =>
    rw [hkernel] at hholds
    have hundo := hcan kernel hkernel (hasked hholds.1)
    obtain ⟨content, hcontent, hshort⟩ := hundo.agent hversion
    obtain ⟨q, hq, hmem⟩ := hfailed content hcontent hshort
    exact absurd hmem (hundo.calls q (mem_cons_of_mem _ (mem_cons_of_mem _ hq)))

variable {kernel : KernelHandOff}

theorem undone_of_install (hkernel : h.kernel = some kernel) (hlib : w.now.lib = before)
    (hend : SameFiles w.now.lib t.now.lib ∨ (Step.placeKernel, true) ∈ t.asked ∧
      ∃ q ∈ [Step.placeServer, .recordKernel], (q, false) ∈ t.asked) :
    Undone tools installed staging before h t := by
  intro _ hcan
  rcases hend with hsame | ⟨hplaced, q, hq, hmem⟩
  · exact hlib ▸ hsame
  · refine absurd hmem ((hcan kernel hkernel hplaced).calls q ?_)
    exact mem_append_left [Step.copyAgent, .hashKept, .placePrev, .recordPrev, .placeAgent] hq

theorem Undoable.back {asked : List (Step × Bool)}
    (hundo : Undoable tools installed staging before h kernel asked)
    (hholds : Holds tools staging before w (some kernel)) :
    w.now.lib.kernelPrev = before.kernel ∧ w.now.lib.serverPrev = before.server := by
  obtain ⟨-, hkernel, hserver⟩ := hholds
  refine ⟨?_, ?_⟩
  · rw [hkernel]
    cases hinstalled : before.kernel with
    | none => exact hundo.kernelPrev hinstalled
    | some content => rfl
  · rw [hserver]
    have hfits := hundo.serverPrev
    split
    · next hsome =>
      rw [if_pos hsome] at hfits
      cases hinstalled : before.server with
      | none => exact hfits hinstalled
      | some content => rfl
    · next hnone =>
      rwa [if_neg hnone] at hfits

section

variable (tools installed before h) in
abbrev Safely : Now → Now → Prop := Within (Swaps tools installed before h)

variable (tools installed staging before h) in
/-- Up to a failure that has been undone. -/
abbrev Undoes (p : Updating Unit) (w : Now) (Q : Unit → Now → Prop) : Prop :=
  Tries p w (Safely tools installed before h) Q fun _ ↦ Undone tools installed staging before h

theorem swaps_of_same (p q : Host) (hsame : q.lib.agent = p.lib.agent) :
    Swaps tools installed before h p q :=
  .inl hsame

theorem swaps_of_before (p q : Host) (hsame : q.lib.agent = before.agent) :
    Swaps tools installed before h p q :=
  .inr (hsame ▸ .before)

theorem tries_installStaged (hlib : w.now.lib = before)
    (hQ : ∀ t, Holds tools staging before t h.kernel → t.now.lib.agent = before.agent → Q () t) :
    Undoes tools installed staging before h (installStaged tools staging clock h) w Q := by
  unfold installStaged
  split
  · next hnone =>
    refine tries_pure (hQ w ?_ (by rw [hlib]))
    rw [hnone, ← hlib]
    exact ⟨rfl, rfl, rfl⟩
  next kernel hkernel =>
  refine tries_bind (tries_installKernel swaps_of_same (fun t ht ↦ ?_) fun e t hagent hasked hend ↦ ?_)
  · refine tries_note swaps_of_same fun t₁ hlib₁ hasked₁ ↦ hQ t₁ ?_ ?_
    · rw [hkernel, Holds, hlib₁, hasked₁, ← hlib]
      exact ⟨ht.placed, ht.kernelPrev, ht.serverPrev⟩
    · rw [hlib₁, ht.agent, hlib]
  · exact undone_of_install hkernel hlib hend

theorem tries_reinstated {e e' : Failure} (hprev : w.now.lib.prev = before.agent)
    (hshort : ∃ content, before.agent = some content ∧ content.length ≤ maxBinaryBytes)
    (hfiles : ∀ asked, w.asked ⊆ asked → PutBack asked →
      CanUndo tools installed staging before h asked → w.now.lib.kernel = before.kernel ∧
        w.now.lib.server = before.server ∧ w.now.lib.kernelRecord = before.kernelRecord) :
    Undoes tools installed staging before h (do restore e; throw e') w Q := by
  refine tries_bind (tries_restore swaps_of_same (hprev ▸ swaps_of_before) (hprev ▸ hshort)
    (fun t hlib hasked ↦ tries_throw fun hback hcan ↦ ?_)
    fun t _ hfailed hback ↦ absurd hback hfailed)
  obtain ⟨hkernel, hserver, hrecord⟩ := hfiles t.asked hasked hback hcan
  rw [hlib]
  exact ⟨hprev, hkernel, hserver, hrecord⟩

theorem tries_undoUpgrade (hprev : w.now.lib.prev = before.agent)
    (hshort : ∃ content, before.agent = some content ∧ content.length ≤ maxBinaryBytes)
    (hholds : Holds tools staging before w h.kernel) :
    Undoes tools installed staging before h (undoUpgrade h) w Q := by
  refine tries_bind (tries_note swaps_of_same fun t hlib hasked ↦ ?_)
  cases hkernel : h.kernel with
  | none =>
    rw [hkernel] at hholds
    exact tries_reinstated (hlib ▸ hprev) hshort fun _ _ _ _ ↦ hlib ▸ hholds
  | some kernel =>
    rw [hkernel] at hholds
    refine tries_bind (tries_removeKernel swaps_of_same fun t₁ ht₁ ↦ ?_)
    refine tries_bind (tries_note swaps_of_same fun t₂ hlib₂ hasked₂ ↦ ?_)
    refine tries_reinstated ?_ hshort fun asked hsub hback hcan ↦ ?_
    · rw [hlib₂, ht₁.prev, hlib, hprev]
    have hsub₁ : t₁.asked ⊆ asked := hasked₂ ▸ hsub
    have hplaced := hsub₁ (ht₁.asked (hasked ▸ hholds.1))
    have hundo := hcan kernel hkernel hplaced
    obtain ⟨hrecord, hback, hserver⟩ := ht₁.back (hback.of_subset hsub₁)
    obtain ⟨hkernelPrev, hserverPrev⟩ := hundo.back hholds
    rw [hlib₂, hrecord, hback, hserver, hlib, hkernelPrev, hserverPrev, hundo.record]
    exact ⟨rfl, rfl, rfl⟩

theorem tries_restartAndWatch {Q : Bool → Now → Prop} (hQ : ∀ b t, Quiet w t → Q b t) :
    Tries (ExceptT.lift (restartAndWatch polls)) w (Safely tools installed before h) Q E := by
  refine .bind (.bind (goes_ask (.inl rfl) fun b t hnow hasked ↦ ?_))
  have hquiet := quiet_of_asked hnow hasked
  cases b with
  | true | false => exact .pure (.pure (hQ _ t hquiet))

theorem tries_swapIn {binary : Bytes} (hlib : w.now.lib = before)
    (hversion : tools.sameAgentVersion installed h.targetVersion = false)
    (htrusted : Trusted tools installed before h (some binary)) :
    Undoes tools installed staging before h (swapIn tools installed staging polls clock h binary) w
      fun _ _ ↦ True := by
  refine tries_bind (tries_installStaged hlib fun t₁ hholds₁ hagent₁ ↦ ?_)
  refine tries_bind (tries_keep swaps_of_same (fun t₂ hkept ↦ ?_) fun e t₂ hsame hasked hfailed ↦ ?_)
  swap
  · refine undone_of_same hholds₁ hagent₁ hsame hasked hversion fun content hcontent hshort ↦ ?_
    obtain ⟨q, hq, hmem⟩ := hfailed content (hagent₁.trans hcontent) hshort
    exact ⟨q, mem_append_left [Step.placeAgent] hq, hmem⟩
  have hholds₂ := hholds₁.keep hkept
  have hagent₂ := hkept.agent.trans hagent₁
  refine tries_bind (tries_needed swaps_of_same (fun t₃ ht₃ _ ↦ ?_) fun t₃ ht₃ hmem ↦ ?_)
  swap
  · refine undone_of_same hholds₂ hagent₂ ?_ ht₃.asked hversion fun _ _ _ ↦ ⟨_, by simp, hmem⟩
    rw [ht₃.now]
    exact ⟨rfl, rfl, rfl, rfl⟩
  refine tries_bind (tries_change (.inr htrusted) fun t₄ hnow₄ hasked₄ ↦ ?_)
  refine tries_bind (tries_restartAndWatch fun up t₅ ht₅ ↦ ?_)
  have hlib₅ : t₅.now.lib = { t₂.now.lib with agent := some binary } := by
    rw [ht₅.now, hnow₄, ht₃.now]
  cases up with
  | true => exact if_pos rfl ▸ tries_note swaps_of_same fun _ _ _ ↦ trivial
  | false =>
    refine tries_undoUpgrade ?_ (hagent₁ ▸ hkept.short) ?_
    · rw [hlib₅]
      exact hkept.prev.trans hagent₁
    have hasked₅ : t₂.asked ⊆ t₅.asked :=
      Subset.trans ht₃.asked (hasked₄ ▸ ht₅.asked)
    cases hkernel : h.kernel with
    | none =>
      rw [hkernel] at hholds₂
      rw [Holds, hlib₅]
      exact hholds₂
    | some kernel =>
      rw [hkernel] at hholds₂
      rw [Holds, hlib₅]
      exact ⟨hasked₅ hholds₂.1, hholds₂.2⟩

theorem tries_upgrade (hlib : w.now.lib = before)
    (hversion : tools.sameAgentVersion installed h.targetVersion = false)
    (hnotBelow : NotBelow h.targetVersion installed) :
    Undoes tools installed staging before h (upgrade tools installed staging polls clock h) w
      fun _ _ ↦ True := by
  refine tries_bind (tries_verifiedBinary swaps_of_same
    (fun archive signature binary t hsigned hmember ht ↦ ?_) fun _ _ ht ↦ undone_of_quiet hlib ht)
  refine tries_bind (tries_checkVersion swaps_of_same (fun t₁ hprints ht₁ ↦ ?_) fun _ _ ht₁ ↦
    undone_of_quiet hlib (ht.trans ht₁))
  refine tries_swapIn ?_ hversion (.release archive signature binary hsigned hmember hprints hnotBelow)
  rw [ht₁.now, ht.now, hlib]

theorem tries_undoKernel (hkernel : h.kernel = some kernel)
    (hholds : Holds tools staging before w (some kernel))
    (hagent : w.now.lib.agent = before.agent) :
    Undoes tools installed staging before h undoKernel w Q := by
  refine tries_bind (tries_note swaps_of_same fun t₁ hlib₁ hasked₁ ↦ ?_)
  refine tries_bind (tries_removeKernel swaps_of_same fun t₂ ht₂ ↦ ?_)
  refine tries_bind (tries_needed swaps_of_same (fun t₃ ht₃ _ ↦ ?_) fun t₃ _ hmem hback ↦
    absurd hmem (hback.not_failed rfl))
  refine tries_throw fun hback hcan ↦ ?_
  have hplaced := ht₃.asked (ht₂.asked (hasked₁ ▸ hholds.1))
  have hundo := hcan kernel hkernel hplaced
  obtain ⟨hrecord, hback, hserver⟩ := ht₂.back (hback.of_subset ht₃.asked)
  obtain ⟨hkernelPrev, hserverPrev⟩ := hundo.back hholds
  rw [hlib₁] at hback hserver
  rw [ht₃.now]
  exact ⟨ht₂.agent.trans (hlib₁ ▸ hagent), hback.trans hkernelPrev, hserver.trans hserverPrev,
    hrecord.trans hundo.record.symm⟩

theorem tries_kernelOnly (hkernel : h.kernel = some kernel) (hlib : w.now.lib = before) :
    Undoes tools installed staging before h (kernelOnly tools staging polls clock kernel) w
      fun _ _ ↦ True := by
  refine tries_bind (tries_asked swaps_of_same fun readable t₁ ht₁ ↦ ?_)
  refine tries_bind (tries_read ?_)
  split
  · exact tries_note swaps_of_same fun _ _ _ ↦ trivial
  have hlib₁ : t₁.now.lib = before := by rw [ht₁.now, hlib]
  refine tries_bind (tries_installKernel swaps_of_same (fun t₂ ht₂ ↦ ?_)
    fun e t₂ hagent hasked hend ↦ ?_)
  · refine tries_bind (tries_restartAndWatch fun up t₃ ht₃ ↦ ?_)
    cases up with
    | true => exact if_pos rfl ▸ tries_note swaps_of_same fun _ _ _ ↦ trivial
    | false =>
      refine tries_undoKernel hkernel ?_ ?_
      · rw [Holds, ht₃.now, ← hlib₁]
        exact ⟨ht₃.asked ht₂.placed, ht₂.kernelPrev, ht₂.serverPrev⟩
      · rw [ht₃.now, ht₂.agent, hlib₁]
  · exact undone_of_install hkernel hlib₁ hend

theorem tries_swapBack {staged : Bytes} (hlib : w.now.lib = before)
    (htrusted : Trusted tools installed before h (some staged)) :
    Undoes tools installed staging before h (swapBack tools installed polls clock h staged) w
      fun _ _ ↦ True := by
  refine tries_bind (tries_keep swaps_of_same (fun t₁ hkept ↦ ?_) fun e t₁ hsame _ _ _ _ ↦
    hlib ▸ hsame)
  have hfiles : t₁.now.lib.kernel = before.kernel ∧ t₁.now.lib.server = before.server ∧
      t₁.now.lib.kernelRecord = before.kernelRecord := by
    rw [← hlib]
    exact ⟨hkept.kernel, hkept.server, hkept.kernelRecord⟩
  refine tries_bind (tries_needed swaps_of_same (fun t₂ ht₂ _ ↦ ?_) fun t₂ ht₂ _ _ _ ↦ ?_)
  swap
  · rw [ht₂.now]
    exact ⟨hkept.agent.trans (by rw [hlib]), hfiles.1, hfiles.2.1, hfiles.2.2⟩
  refine tries_bind (tries_change (.inr htrusted) fun t₃ hnow₃ hasked₃ ↦ ?_)
  refine tries_bind (tries_restartAndWatch fun up t₄ ht₄ ↦ ?_)
  have hlib₄ : t₄.now.lib = { t₁.now.lib with agent := some staged } := by
    rw [ht₄.now, hnow₃, ht₂.now]
  cases up with
  | true => exact if_pos rfl ▸ tries_note swaps_of_same fun _ _ _ ↦ trivial
  | false =>
    refine tries_bind (tries_note swaps_of_same fun t₅ hlib₅ _ ↦ ?_)
    refine tries_reinstated ?_ (hlib ▸ hkept.short) fun _ _ _ _ ↦ ?_
    · rw [hlib₅, hlib₄, ← hlib]
      exact hkept.prev
    · rw [hlib₅, hlib₄]
      exact hfiles

theorem tries_keptBinary {record : PrevRecordFile}
    (hrecord : readPrevRecord tools before = some record) {Q : Bytes → Now → Prop}
    (hQ : ∀ staged t, Trusted tools installed before h (some staged) → Quiet w t → Q staged t)
    (hE : ∀ e t, Quiet w t → E e t) :
    Tries (keptBinary tools h before record) w (Safely tools installed before h) Q E := by
  unfold keptBinary
  split
  · exact tries_throw (hE _ _ (.refl w))
  next hversion =>
  split
  · exact tries_throw (hE _ _ (.refl w))
  next prev hprev =>
  refine tries_bind (tries_needed swaps_of_same (fun t₁ ht₁ _ ↦ ?_) fun t₁ ht₁ _ ↦ hE _ _ ht₁)
  split
  · exact tries_throw (hE _ _ ht₁)
  next hsum =>
  refine tries_copyFile swaps_of_same (fun staged t₂ hstaged _ ht₂ ↦ hQ staged t₂ ?_ (ht₁.trans ht₂))
    fun t₂ ht₂ _ ↦ hE _ _ (ht₁.trans ht₂)
  cases hstaged
  exact .kept record prev hrecord hprev (not_not.mp hsum) (by simpa using hversion)

theorem tries_rollback (hlib : w.now.lib = before) :
    Undoes tools installed staging before h (rollback tools installed polls clock h) w
      fun _ _ ↦ True := by
  refine tries_bind (tries_needed swaps_of_same (fun t₁ ht₁ _ ↦ ?_) fun t₁ ht₁ _ ↦ undone_of_quiet hlib ht₁)
  refine tries_bind (tries_read ?_)
  rw [show t₁.now.lib = before by rw [ht₁.now, hlib]]
  split
  · exact tries_throw (undone_of_quiet hlib ht₁)
  next record hrecord =>
  refine tries_bind (tries_keptBinary hrecord (fun staged t₂ htrusted ht₂ ↦ ?_) fun _ t₂ ht₂ ↦
    undone_of_quiet hlib (ht₁.trans ht₂))
  refine tries_bind (tries_checkVersion swaps_of_same (fun t₃ _ ht₃ ↦ ?_) fun _ t₃ ht₃ ↦
    undone_of_quiet hlib ((ht₁.trans ht₂).trans ht₃))
  refine tries_swapBack ?_ htrusted
  rw [ht₃.now, ht₂.now, ht₁.now, hlib]

theorem tries_apply (hlib : w.now.lib = before) :
    Undoes tools installed staging before h (apply tools installed staging polls clock h) w
      fun _ _ ↦ True := by
  have hrefused : Undone tools installed staging before h w := undone_of_quiet hlib (.refl w)
  unfold apply
  split
  · split
    · next kernel hkernel =>
      split
      · exact tries_kernelOnly hkernel hlib
      · exact tries_note swaps_of_same fun _ _ _ ↦ trivial
    · exact tries_note swaps_of_same fun _ _ _ ↦ trivial
  next hversion =>
  split
  · exact tries_rollback hlib
  split
  · exact tries_throw hrefused
  split
  · exact tries_throw hrefused
  next order horder =>
  split
  · exact tries_throw hrefused
  next hnotBelow =>
  exact tries_upgrade hlib (by simpa using hversion)
    (notBelow_of_compareVersions horder (Int.not_lt.mp hnotBelow))

end

/-- A step of `Apply` keeps the installed binary, or puts one in its place that the request it
found allows. -/
def Applies (tools : Tools) (installed : String) (staging : Staging) (before : Lib)
    (p q : Host) : Prop :=
  q.lib.agent = p.lib.agent ∨
    ∃ h, parseHandOff tools staging = .ok h ∧ Trusted tools installed before h q.lib.agent

variable (tools installed staging before) in
def Restored (t : Now) : Prop :=
  PutBack t.asked → (∀ h, parseHandOff tools staging = .ok h →
    CanUndo tools installed staging before h t.asked) → SameFiles before t.now.lib

theorem restored_of_eq (hlib : t.now.lib = before) : Restored tools installed staging before t := by
  intro _ _
  rw [hlib]
  exact ⟨rfl, rfl, rfl, rfl⟩

theorem applies_of_same (p q : Host) (hsame : q.lib.agent = p.lib.agent) :
    Applies tools installed staging before p q :=
  .inl hsame

theorem tries_handle (hlib : w.now.lib = before) :
    Tries (handle tools installed staging polls clock) w
      (Within (Applies tools installed staging before)) (fun _ _ ↦ True)
      fun _ ↦ Restored tools installed staging before := by
  refine tries_bind (tries_bind (tries_needed applies_of_same (fun t₁ ht₁ _ ↦ ?_) fun t₁ ht₁ _ ↦
    restored_of_eq (by rw [ht₁.now, hlib])))
  have hlib₁ : t₁.now.lib = before := by rw [ht₁.now, hlib]
  split
  · exact tries_throw (restored_of_eq hlib₁)
  next h hparse =>
  refine tries_pure (tries_bind (tries_note applies_of_same fun t₂ hlib₂ _ ↦ ?_))
  refine (tries_apply (hlib₂.trans hlib₁)).mono ?_ fun r t ht ↦ ?_
  · intro p q hswap
    exact hswap.imp_right fun htrusted ↦ ⟨h, hparse, htrusted⟩
  · cases r with
    | ok _ => trivial
    | error _ => exact fun hback hcan ↦ ht hback (hcan h hparse)

theorem goes_Apply (hlib : w.now.lib = before) : Goes (Apply tools installed staging polls clock) w
      (Within (Applies tools installed staging before))
      fun r t ↦ r.isSome → Restored tools installed staging before t := by
  refine .bind (goes_ask (.inl rfl) fun b t hnow hasked ↦ ?_)
  have hlib₁ : t.now.lib = before := by rw [hnow, hlib]
  cases b with
  | true =>
    rw [if_pos rfl]
    refine .bind (goes_doing (.inl rfl) fun t₂ hnow₂ hasked₂ ↦ ?_)
    refine .bind ((tries_handle (by rw [hnow₂, hlib₁])).imp fun r t₃ ht₃ ↦ ?_)
    cases r with
    | ok _ => exact .pure nofun
    | error err =>
      refine .bind (goes_doing (.inl rfl) fun t₄ hnow₄ hasked₄ ↦ .pure fun _ hback hcan ↦ ?_)
      rw [hnow₄]
      rw [hasked₄] at hback hcan
      exact ht₃ hback hcan
  | false => exact .pure fun _ ↦ restored_of_eq hlib₁

instance : Trans (Applies tools installed staging before) (Applies tools installed staging before)
    (Applies tools installed staging before) where
  trans hpq hqr := hqr.elim (fun hsame ↦ hpq.imp hsame.trans fun ⟨h, hparse, htrusted⟩ ↦
    ⟨h, hparse, hsame ▸ htrusted⟩) .inr

/-- Whatever is staged, the installed binary is at every moment the one from before or one that
the request allows. -/
theorem installed_binary_trusted (tools : Tools) (installed : String) (staging : Staging)
    (polls : List Poll) (clock : Int) (w : Now) :
    ∀ t ∈ (Apply tools installed staging polls clock w).points,
      t.now.lib.agent = w.now.lib.agent ∨ ∃ h, parseHandOff tools staging = .ok h ∧
        Trusted tools installed w.now.lib h t.now.lib.agent :=
  fun _ ht ↦ (goes_Apply rfl).chain.rel_cons ht

/-- A request that fails leaves the files as they were, when every step of putting things back
succeeded and a kernel that was put in place could be undone. -/
theorem failed_apply_undone (tools : Tools) (installed : String) (staging : Staging)
    (polls : List Poll) (clock : Int) (before : Host) (script : List Bool)
    (hfailed : (Apply tools installed staging polls clock ⟨before, script, []⟩).value.isSome)
    (hback : PutBack (Apply tools installed staging polls clock ⟨before, script, []⟩).state.asked)
    (hcan : ∀ h, parseHandOff tools staging = .ok h → CanUndo tools installed staging before.lib h
      (Apply tools installed staging polls clock ⟨before, script, []⟩).state.asked) :
    SameFiles before.lib
      (Apply tools installed staging polls clock ⟨before, script, []⟩).state.now.lib :=
  (goes_Apply rfl).ends hfailed hback hcan

def digest : String := "0000000000000000000000000000000000000000000000000000000000000000"

def kernelRequest : HandOff where
  schema := handOffSchema
  operationID := "op"
  campaignID := ""
  action := upgradeAction
  targetVersion := "v1.2.3"
  previousVersion := ""
  file := ""
  size := 0
  sha256 := ""
  signature := ""
  kernel := some
    { name := kernelBinary
      version := "1.0"
      asset := "anx-node-1.0-x-linux-musl.tar.gz"
      file := "anx-node-1.0-x-linux-musl.tar.gz"
      size := 1
      sha256 := digest
      sums := "sums"
      sumsSignature := "-----BEGIN SSH SIGNATURE----------END SSH SIGNATURE-----" }

def kernelTools : Tools where
  sha256 := fun _ ↦ digest
  releaseKey := []
  ed25519Verify := fun _ _ _ ↦ false
  decodeBase64 := fun _ ↦ some []
  unmarshalHandOff := fun _ ↦ some kernelRequest
  unmarshalPrevRecord := fun _ ↦ none
  marshalPrevRecord := fun _ ↦ []
  unmarshalKernelRecord := fun _ ↦ none
  marshalKernelRecord := fun _ ↦ [9]
  zip := fun _ ↦ none
  tarGz := fun _ ↦ some ([⟨"anx-node-1.0-x-linux-musl/anx-node", true, 1, [5]⟩], true)
  output := fun _ ↦ "anx-node 1.0"
  sameAgentVersion := fun a b ↦ a = b
  kernelVersionPattern := fun _ ↦ true
  kernelSum := fun _ _ ↦ some digest
  sshVerify := fun _ _ ↦ none
  maxUpgradeArtifactBytes := 1024
  maxUpgradeKernelBytes := 1024

def kernelStaging : Staging := ⟨some ⟨1, [0]⟩, none, some ⟨1, [0]⟩⟩

def failingPolls : List Poll := [⟨none, false, false⟩]

def hostWith (kernel server record : Option Bytes) : Host where
  lib := ⟨some [1], none, none, kernel, none, server, none, record⟩
  result := ⟨"", "", "", "", "", "", .unset, none, ""⟩

theorem failed_apply_undone_first_kernel :
    SameFiles (hostWith none none none).lib
      (Apply kernelTools "v1.2.3" kernelStaging failingPolls 0
        ⟨hostWith none none none, [], []⟩).state.now.lib := by
  refine failed_apply_undone _ _ _ _ _ _ _ (by decide) (by unfold PutBack; decide) ?_
  rintro h hparse kernel hkernel -
  obtain rfl : kernelRequest = h :=
    Except.ok.inj ((by decide : parseHandOff kernelTools kernelStaging = .ok kernelRequest).symm.trans
      hparse)
  cases hkernel
  exact ⟨rfl, fun _ ↦ rfl, by decide, nofun, by decide⟩

/-- A package without the server: the installed one is removed, and so is the record. -/
theorem failed_kernel_drops_server :
    let before := hostWith (some [2]) (some [3]) (some [4])
    let r := Apply kernelTools "v1.2.3" kernelStaging failingPolls 0 ⟨before, [], []⟩
    r.value = some (.coded .startFailed "%v; the kernel was taken out again") ∧
      PutBack r.state.asked ∧ ¬SameFiles before.lib r.state.now.lib ∧
      r.state.now.lib.server = none ∧ r.state.now.lib.kernelRecord = none := by
  refine ⟨by decide, by unfold PutBack; decide, fun hsame ↦ ?_, by decide, by decide⟩
  exact absurd hsame.server (by decide)

def releaseRequest : HandOff where
  schema := handOffSchema
  operationID := "op"
  campaignID := ""
  action := upgradeAction
  targetVersion := "v1.3.0"
  previousVersion := ""
  file := "anix-agent-linux-64.zip"
  size := 1
  sha256 := digest
  signature := ""
  kernel := none

def releaseTools : Tools :=
  { kernelTools with
    releaseKey := List.replicate 32 0
    ed25519Verify := fun _ _ _ ↦ true
    decodeBase64 := fun _ ↦ some (List.replicate 64 0)
    unmarshalHandOff := fun _ ↦ some releaseRequest
    zip := fun _ ↦ some [⟨"anix-agent", true, 1, some [7]⟩]
    output := fun _ ↦ "anix-agent v1.3.0" }

theorem installed_binary_trusted_release :
    ∃ t ∈ (Apply releaseTools "v1.2.3" ⟨some ⟨1, [0]⟩, some ⟨1, [0]⟩, none⟩ [] 0
      ⟨hostWith none none none, [], []⟩).points, t.now.lib.agent = some [7] ∧
      ∃ h, parseHandOff releaseTools ⟨some ⟨1, [0]⟩, some ⟨1, [0]⟩, none⟩ = .ok h ∧
        Trusted releaseTools "v1.2.3" (hostWith none none none).lib h t.now.lib.agent := by
  have hinstalled : ∃ t ∈ (Apply releaseTools "v1.2.3" ⟨some ⟨1, [0]⟩, some ⟨1, [0]⟩, none⟩ [] 0
      ⟨hostWith none none none, [], []⟩).points, t.now.lib.agent = some [7] := by
    decide +kernel
  obtain ⟨t, ht, hagent⟩ := hinstalled
  refine ⟨t, ht, hagent, ?_⟩
  rcases installed_binary_trusted _ _ _ _ _ _ t ht with hsame | htrusted
  · exact absurd (hagent.symm.trans hsame) (by decide)
  · exact htrusted

end AnixAgent.Upgrade.Guarantees
