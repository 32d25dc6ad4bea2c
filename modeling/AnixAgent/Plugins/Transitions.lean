import AnixAgent.Plugins.Upkeep

namespace AnixAgent.Plugins.Transitions

open Lib.Crash Lib.Crash.Proc Lib.Answers Lifecycle Debts Upkeep List
open Journal (Write)

/-- What an operation has changed of the entry before it ends: at most whether the plugin is
enabled, its health and the pending cleanup. -/
structure Like (original cur : PluginState) : Prop where
  desiredRevision : cur.desiredRevision = original.desiredRevision
  observedRevision : cur.observedRevision = original.observedRevision
  desiredVersion : cur.desiredVersion = original.desiredVersion
  observedVersion : cur.observedVersion = original.observedVersion
  enabled : cur.enabled = true → original.enabled = true

theorem Like.refl (st : PluginState) : Like st st := ⟨rfl, rfl, rfl, rfl, id⟩

variable {cur back : PluginState}

theorem Like.wellKept {original : PluginState} (h : Like original cur)
    (hkept : WellKept original) : WellKept cur where
  revision := by
    rw [h.observedRevision, h.desiredRevision]
    exact hkept.revision
  version := fun henabled ↦ by
    rw [h.observedVersion, h.desiredVersion]
    exact hkept.version (h.enabled henabled)

variable {p p' : Plugin} {f : Plugin → Plugin} {l : List (Query × Bool)} {Q : Bool → Now → Prop}
  {undo : Plugin → Plugin → Plugin} {i : Nat}

section

variable (capable : String → Bool)

inductive Known
  | nothing
  | entry (st : PluginState)
  | clear
  | clean
  | settled

def Settled (w : Now) : Prop :=
  Tidy capable w.asked →
    (∃ st ∈ w.now.state, st.cleanupPending = true) ∨ ∀ q ∈ w.now.processes, q.fate = .cleaned

def Known.Holds : Known → Now → Prop
  | .nothing, _ => True
  | .entry st, w => w.now.state = some st
  | .clear, w => Clear w
  | .clean, w => Clear w ∧ Cleaned capable w
  | .settled, w => Settled capable w

/-- Within an operation that found the entry `original`: `hand` is the process it works on,
`reg` the registered one and `v` the version whose processes may wait for a cleanup. -/
structure Mid (original : PluginState) (hand reg : Option Nat) (v : String) (k : Known)
    (w : Now) : Prop where
  kept : WellKept original
  state : ∃ cur, w.now.state = some cur ∧ Like original cur ∧
    (cur.cleanupPending = true → cur.owes = v)
  registered : w.now.registered = reg
  process : ∀ i ∈ reg, ∃ q, w.now.processes[i]? = some q ∧ q.version = original.desiredVersion
  disk : ∀ st ∈ w.now.disk, WellKept st
  ledger : Ledger capable hand v w
  known : k.Holds capable w
  moment : Moment capable w

structure Inv (w : Now) : Prop where
  state : ∀ st ∈ w.now.state, WellKept st
  disk : ∀ st ∈ w.now.disk, WellKept st
  registered : ∀ i ∈ w.now.registered, ∃ st q, w.now.state = some st ∧
    w.now.processes[i]? = some q ∧ st.enabled = true ∧ q.version = st.desiredVersion ∧
    st.desiredVersion ≠ "" ∧ (st.cleanupPending = true → st.owes = st.desiredVersion)
  ledger : Ledger capable w.now.registered (owed w.now.state) w
  debt : Tidy capable w.asked → w.now.registered.isSome = true ∨
    (∃ st ∈ w.now.state, st.cleanupPending = true) ∨ ∀ q ∈ w.now.processes, q.fate = .cleaned
  moment : Moment capable w

/-- The invariant holds again when the procedure returns, and each step climbs. -/
abbrev Upholds {α : Type} (p : Proc Now α) (w : Now) : Prop :=
  Goes p w (Climbs capable) fun _ t ↦ Inv capable t

variable {capable} {original st : PluginState} {hand reg : Option Nat}
  {v version : String} {k : Known} {w t : Now} {site : Site}

section

variable (h : Mid capable original hand reg v k w)
include h

theorem Mid.point : Point capable w := by
  obtain ⟨cur, hcur, hlike, -⟩ := h.state
  refine ⟨fun st hst ↦ ?_, h.disk, h.moment⟩
  rw [hcur] at hst
  cases hst
  exact hlike.wellKept h.kept

theorem Mid.rises (hst : p.state = some st)
    (hrevision : original.desiredRevision ≤ st.desiredRevision) : Rises w.now p := by
  intro cur hcur
  obtain ⟨cur', hcur', hlike, -⟩ := h.state
  rw [hcur'] at hcur
  cases hcur
  exact ⟨st, hst, hlike.desiredRevision.trans_le hrevision⟩

theorem Mid.debt : ∀ u, debtOf w.now.state = some u → u = v := by
  obtain ⟨cur, hcur, -, howes⟩ := h.state
  intro u hu
  rw [hcur] at hu
  cases hpending : cur.cleanupPending with
  | true =>
    have hsome : some cur.owes = some u := (debt_of_pending hpending).symm.trans hu
    exact (Option.some.inj hsome).symm.trans (howes hpending)
  | false =>
    have hnone : none = some u := (debt_of_clear hpending).symm.trans hu
    cases hnone

end

theorem Known.Holds.moved {f : List Process → List Process} (h : k.Holds capable w)
    (hstate : t.now.state = w.now.state) (ht : Moved f w t)
    (hcleaned : Cleaned capable w → Cleaned capable t) : k.Holds capable t := by
  cases k with
  | nothing => trivial
  | entry => exact hstate.trans h
  | clear => exact fun st hst ↦ h st (hstate ▸ hst)
  | clean => exact ⟨fun st hst ↦ h.1 st (hstate ▸ hst), hcleaned h.2⟩
  | settled =>
    intro htidy
    rcases h (ht.tidy htidy) with hpending | hall
    · exact .inl (by rw [hstate]; exact hpending)
    · exact .inr (hcleaned (fun _ ↦ hall) htidy)

theorem Known.Holds.told (h : k.Holds capable w) (hstate : t.now.state = w.now.state)
    (ht : Told w t) : k.Holds capable t :=
  h.moved hstate ht fun hc ↦ hc.told ht

theorem Mid.known_as (h : Mid capable original hand reg v k w) (k' : Known)
    (hk : k'.Holds capable w) : Mid capable original hand reg v k' w :=
  { h with known := hk }

theorem Cleaned.settled (h : Cleaned capable w) : Settled capable w := fun htidy ↦ .inr (h htidy)

theorem Mid.clean_settled (h : Mid capable original hand reg v .clean w) :
    Mid capable original hand reg v .settled w :=
  h.known_as .settled (Cleaned.settled h.known.2)

theorem Mid.clean_clear (h : Mid capable original hand reg v .clean w) :
    Mid capable original hand reg v .clear w :=
  h.known_as .clear h.known.1

structure Still (capable : String → Bool) (w t : Now) : Prop where
  told : Told w t
  state : t.now.state = w.now.state
  registered : t.now.registered = w.now.registered
  disk : t.now.disk = w.now.disk
  moment : Moment capable t

theorem still_of_eq (hnow : t.now = w.now)
    (hasked : t.asked = w.asked ++ l) (ht : Moment capable t) : Still capable w t :=
  ⟨⟨by rw [hnow, id], by rw [hnow], _, hasked⟩, by rw [hnow], by rw [hnow], by rw [hnow], ht⟩

theorem Still.trans {u : Now} (h : Still capable w t) (h' : Still capable t u) :
    Still capable w u := by
  obtain ⟨l, hl⟩ := h.told.asked
  obtain ⟨l', hl'⟩ := h'.told.asked
  exact ⟨⟨h'.told.same.trans h.told.same, h'.told.overlap.trans h.told.overlap, l ++ l',
    by rw [hl', hl, append_assoc]⟩, h'.state.trans h.state,
    h'.registered.trans h.registered, h'.disk.trans h.disk, h'.moment⟩

theorem Mid.still (h : Mid capable original hand reg v k w) (ht : Still capable w t) :
    Mid capable original hand reg v k t where
  kept := h.kept
  state := ht.state ▸ h.state
  registered := ht.registered.trans h.registered
  process := ht.told.same ▸ h.process
  disk := ht.disk ▸ h.disk
  ledger := h.ledger.told ht.told
  known := h.known.told ht.state ht.told
  moment := ht.moment

theorem goes_recovery {q : Query} (hw : Point capable w)
    (hq : recovers q → Gentle w.asked → w.now.registered = none)
    (hQ : ∀ b t, t.now = w.now → t.asked = w.asked ++ [(q, b)] → Still capable w t → Q b t) :
    Goes (ask q) w (Climbs capable) Q := by
  refine goes_asking fun b t hnow hasked ↦ ?_
  have hmoment : Moment capable t := hw.moment.ask hnow hasked hq
  exact ⟨hw.stay hnow hmoment, hQ b t hnow hasked (still_of_eq hnow hasked hmoment)⟩

theorem goes_question {q : Query} (hw : Point capable w) (hq : recovers q = false)
    (hQ : ∀ b t, t.now = w.now → t.asked = w.asked ++ [(q, b)] → Still capable w t → Q b t) :
    Goes (ask q) w (Climbs capable) Q :=
  goes_recovery hw (fun htrue ↦ nomatch hq.symm.trans htrue) hQ

theorem Mid.ask (h : Mid capable original hand reg v k w) (q : Query) (hq : recovers q = false) :
    Goes (ask q) w (Climbs capable) fun b t ↦
      Mid capable original hand reg v k t ∧ (q, b) ∈ t.asked := by
  refine goes_question h.point hq fun b t _ hasked hstill ↦ ⟨h.still hstill, ?_⟩
  rw [hasked]
  exact mem_append_right _ (mem_singleton_self _)

theorem goes_writes {call : Call} {Q : Write → Now → Prop} (hw : Point capable w)
    (hcall : recovers (call, site) = false)
    (hQ : ∀ r t l, t.now = w.now →
      t.asked = w.asked ++ ((call, site), decide (r = .done)) :: l → ¬ Recovering t.asked →
      Still capable w t → Q r t) :
    Goes (writes call site) w (Climbs capable) Q := by
  refine .bind (goes_question hw hcall fun b t hnow hasked hstill ↦ ?_)
  cases b with
  | true => exact .pure (hQ .done t [] hnow hasked (not_recovering hcall hasked) hstill)
  | false =>
    have ht : Point capable t := (hw.stay hnow hstill.moment).point
    refine .bind (goes_question ht rfl fun b u hnow' hasked' hstill' ↦ ?_)
    have hnot := not_recovering rfl hasked'
    rw [hasked, append_assoc] at hasked'
    cases b with
    | true =>
      exact .pure (hQ .unsynced u _ (hnow'.trans hnow) hasked' hnot (hstill.trans hstill'))
    | false =>
      exact .pure (hQ .refused u _ (hnow'.trans hnow) hasked' hnot (hstill.trans hstill'))

theorem goes_locked (hw : Point capable w) (hf : Changes capable w (f w.now))
    (hQ : ∀ r t l, t.now = (f w.now).persist r →
      t.asked = w.asked ++ ((.persist, site), decide (r = .done)) :: l → Point capable t →
      Q (decide (r = .done)) t) : Goes (locked site f) w (Climbs capable) Q := by
  refine .bind (goes_writes hw rfl fun r t l hnow hasked hnot _ ↦ ?_)
  refine .bind (goes_acting fun u hu hasked' ↦ ?_)
  rw [hnow] at hu
  have hclimbs := (hf.persist r).climbs hnow hasked (fun _ hrec ↦ absurd hrec hnot) hu hasked'
  exact ⟨hclimbs, .pure (hQ r u l hu (hasked'.trans hasked) hclimbs.point)⟩

theorem goes_lockedOr (hw : Point capable w) (hf : Changes capable w (f w.now))
    (hundo : ∀ r, Changes capable w (undo w.now ((f w.now).persist r)))
    (hdone : ∀ t l, t.now = (f w.now).persist .done →
      t.asked = w.asked ++ ((.persist, site), true) :: l → Point capable t → Q true t)
    (hfail : ∀ r t l, t.now = undo w.now ((f w.now).persist r) →
      t.asked = w.asked ++ ((.persist, site), false) :: l → Point capable t → Q false t) :
    Goes (lockedOr site f undo) w (Climbs capable) Q := by
  refine .bind (goes_writes hw rfl fun r t l hnow hasked hnot _ ↦ ?_)
  have hidle {p : Plugin} : Gentle w.asked → Recovering t.asked → p.registered = none :=
    fun _ hrec ↦ absurd hrec hnot
  by_cases hr : r = .done
  · subst hr
    refine .bind (goes_acting fun u hu hasked' ↦ ?_)
    rw [hnow, if_pos rfl] at hu
    have hclimbs := (hf.persist .done).climbs hnow hasked hidle hu hasked'
    exact ⟨hclimbs, .pure (hdone u l hu (hasked'.trans hasked) hclimbs.point)⟩
  · rw [decide_eq_false hr] at hasked ⊢
    refine .bind (goes_acting fun u hu hasked' ↦ ?_)
    rw [hnow, if_neg hr] at hu
    have hclimbs := (hundo r).climbs hnow hasked hidle hu hasked'
    exact ⟨hclimbs, .pure (hfail r u l hu (hasked'.trans hasked) hclimbs.point)⟩

section

variable (hw : Point capable w)
include hw

theorem goes_file {call : Call} (hcall : recovers (call, site) = false)
    (version : String) (content : Option String) :
    Goes (do
      let r ← writes call site
      doing fun p ↦ if r.reaches then p.setConfig version content else p
      pure (decide (r = .done))) w (Climbs capable) fun ok t ↦
      Still capable w t ∧ ((call, site), ok) ∈ t.asked := by
  refine .bind (goes_writes hw hcall fun r t l hnow hasked _ hstill ↦ ?_)
  have hmem : ((call, site), decide (r = .done)) ∈ t.asked := by
    rw [hasked]
    exact mem_append_right _ mem_cons_self
  refine .bind (goes_acting fun u hu hasked' ↦ ?_)
  have hkeeps : Keeps t.now u.now := by
    rw [hu]
    split
    · exact ⟨rfl, rfl, .inl rfl, .inr ⟨.wrote version, rfl, rfl⟩⟩
    · exact ⟨rfl, rfl, .inl rfl, .inl rfl⟩
  have hclimbs := (hw.stay hnow hstill.moment).point.keeps hkeeps hasked'
  have htold : Told t u := by
    refine ⟨?_, ?_, [], by rw [hasked', append_nil]⟩ <;>
      · rw [hu]
        split <;> rfl
  have hreg : u.now.registered = t.now.registered := by
    rw [hu]
    split <;> rfl
  refine ⟨hclimbs, .pure ⟨hstill.trans ?_, hasked'.symm ▸ hmem⟩⟩
  exact ⟨htold, hkeeps.state, hreg, hkeeps.disk, hclimbs.point.moment⟩

theorem goes_writeConfig (site : Site) (version content : String) :
    Goes (writeConfig site version content) w (Climbs capable) fun ok t ↦
      Still capable w t ∧ ((.writeConfig, site), ok) ∈ t.asked :=
  goes_file hw rfl version (some content)

theorem goes_restoreConfig (site : Site) (version : String) (content : Option String) :
    Goes (restoreConfig site version content) w (Climbs capable) fun ok t ↦
      Still capable w t ∧ ((.restoreConfig, site), ok) ∈ t.asked :=
  goes_file hw rfl version content

theorem goes_verify (site : Site) (version : String) :
    Goes (verifyInstalledVersion site version) w (Climbs capable) fun ok t ↦
      Still capable w t ∧ (ok → version ≠ "") ∧
        (version ≠ "" → ((.verify, site), ok) ∈ t.asked) := by
  unfold verifyInstalledVersion
  split
  · next hempty =>
    exact .pure ⟨⟨⟨rfl, rfl, [], by simp⟩, rfl, rfl, rfl, hw.moment⟩,
      nofun, fun hne ↦ absurd hempty hne⟩
  next hne =>
  refine goes_question hw rfl fun b t _ hasked hstill ↦ ⟨hstill, fun _ ↦ hne, fun _ ↦ ?_⟩
  rw [hasked]
  exact mem_append_right _ (mem_singleton_self _)

end

section

variable (h : Mid capable original hand reg v k w)
include h

theorem Mid.writeConfig (site : Site) (version content : String) :
    Goes (writeConfig site version content) w (Climbs capable) fun ok t ↦
      Mid capable original hand reg v k t ∧ ((.writeConfig, site), ok) ∈ t.asked :=
  (goes_writeConfig h.point site version content).imp fun _ _ ht ↦ ⟨h.still ht.1, ht.2⟩

theorem Mid.restoreConfig (site : Site) (version : String) (content : Option String) :
    Goes (restoreConfig site version content) w (Climbs capable) fun ok t ↦
      Mid capable original hand reg v k t ∧ ((.restoreConfig, site), ok) ∈ t.asked :=
  (goes_restoreConfig h.point site version content).imp fun _ _ ht ↦ ⟨h.still ht.1, ht.2⟩

theorem Mid.verify (site : Site) (version : String) :
    Goes (verifyInstalledVersion site version) w (Climbs capable) fun ok t ↦
      Mid capable original hand reg v k t ∧ (ok → version ≠ "") ∧
        (version ≠ "" → ((.verify, site), ok) ∈ t.asked) :=
  (goes_verify h.point site version).imp fun _ _ ht ↦ ⟨h.still ht.1, ht.2⟩

theorem Mid.moved {f : List Process → List Process} {hand' : Option Nat} (ht : Moved f w t)
    (hkeeps : Keeps w.now t.now) (hreg : t.now.registered = w.now.registered)
    (hasked : t.asked = w.asked)
    (hf : ∀ (i : Nat) q, w.now.processes[i]? = some q → ∃ q', (f w.now.processes)[i]? = some q' ∧ q'.version = q.version)
    (hledger : Ledger capable hand' v t) (hcleaned : Cleaned capable w → Cleaned capable t) :
    Mid capable original hand' reg v k t where
  kept := h.kept
  state := by rw [hkeeps.state]; exact h.state
  registered := hreg.trans h.registered
  process := fun i hi ↦ by
    obtain ⟨q, hq, hversion⟩ := h.process i hi
    obtain ⟨q', hq', hsame⟩ := hf i q hq
    exact ⟨q', by rw [ht.processes]; exact hq', hsame.trans hversion⟩
  disk := by rw [hkeeps.disk]; exact h.disk
  ledger := hledger
  known := h.known.moved hkeeps.state ht hcleaned
  moment := h.moment.keeps hkeeps hasked

end

theorem leave_places (l : List Process) (j : Nat) : ∀ (i : Nat) q, l[i]? = some q →
      ∃ q', (l.modify j Process.leave)[i]? = some q' ∧ q'.version = q.version := by
  intro i q hq
  rw [getElem?_modify, hq]
  by_cases hij : j = i
  · exact ⟨q.leave, by simp [hij], version_leave q⟩
  · exact ⟨q, by simp [hij], rfl⟩

theorem Mid.leave (h : Mid capable original (some i) reg v k w) :
    Goes (doing fun p : Plugin ↦ p.leave i) w (Climbs capable) fun _ t ↦
      Mid capable original none reg v k t := by
  refine goes_acting fun t hnow hasked ↦ ?_
  have hkeeps : Keeps w.now t.now := by
    rw [hnow]
    exact ⟨rfl, rfl, .inl rfl, .inl rfl⟩
  have hleft : Left i w t := ⟨by rw [hnow]; rfl, by rw [hnow]; rfl, [], by simp [hasked]⟩
  refine ⟨h.point.keeps hkeeps hasked, ?_⟩
  exact h.moved hleft hkeeps (by rw [hnow]; rfl) hasked (leave_places _ i)
    (h.ledger.left_hand hleft) fun hc ↦ hc.left hleft

theorem Mid.stop (h : Mid capable original hand reg v k w) (hsite : site ≠ .close) :
    Goes (stopProcess site hand) w (Climbs capable) fun _ t ↦
      Mid capable original none reg v k t := by
  cases hand with
  | none => exact .pure h
  | some i =>
    refine .seq (h.ask _ (by rfl)) ?_
    rintro b t ⟨ht, -⟩
    cases b with
    | true => exact .seq ht.leave fun _ u hu ↦ .pure hu
    | false =>
      refine .seq (ht.ask _ (by rfl)) ?_
      rintro b u ⟨hu, hb⟩
      cases b with
      | true => exact .seq hu.leave fun _ u' hu' ↦ .pure hu'
      | false =>
        have hnot : ¬ Orderly u.asked := fun ho ↦ by cases ho _ hb rfl hsite
        have hmid : Mid capable original none reg v k u :=
          { hu with ledger := ⟨fun ho ↦ absurd ho hnot, fun ho ↦ absurd ho hnot,
          fun ht ↦ absurd ht.orderly hnot⟩ }
        exact .pure hmid

structure Cleanup (capable : String → Bool) (version : String) (t : Now) : Prop where
  processes : Tidy capable t.asked → ∀ q ∈ t.now.processes, q.fate = .cleaned ∨ q.fate = .alive
  recorded : capable version = true → recorded version t.now.log = false

theorem Cleanup.still (h : Cleanup capable v w) (hnow : t.now = w.now) (ht : Told w t) :
    Cleanup capable v t where
  processes := fun htidy ↦ by
    rw [hnow]
    exact h.processes (ht.tidy htidy)
  recorded := by
    rw [hnow]
    exact h.recorded

theorem Mid.cleanup (h : Mid capable original hand reg v k w)
    (hsite : site.recovers → Gentle w.asked → reg = none) :
    Goes (cleanupInstalledVersion capable site v) w (Climbs capable) fun ok t ↦
      Mid capable original hand reg v k t ∧ (ok → Cleanup capable v t) ∧
        (ok = false → capable v) := by
  unfold cleanupInstalledVersion
  cases hcapable : capable v with
  | false =>
    refine .pure ⟨h, fun _ ↦ ⟨fun htidy ↦ ?_, fun htrue ↦ ?_⟩,
      fun hok ↦ absurd hok Bool.false_ne_true.symm⟩
    · rw [htidy.capable v] at hcapable
      cases hcapable
    · rw [hcapable] at htrue
      cases htrue
  | true =>
    refine .bind (goes_recovery h.point
      (fun hrec hgentle ↦ h.registered.trans (hsite hrec hgentle)) fun b t hnow hasked hstill ↦ ?_)
    have ht := h.still hstill
    cases b with
    | false => exact .pure ⟨ht, nofun, fun _ ↦ rfl⟩
    | true =>
      refine .bind (goes_acting fun u hu hasked' ↦ ?_)
      have hkeeps : Keeps t.now u.now := by
        rw [hu]
        exact ⟨rfl, rfl, .inl rfl, .inr ⟨.cleaned v, rfl, rfl⟩⟩
      have hclean : CleanedUp v t u :=
        ⟨by rw [hu]; rfl, by rw [hu]; rfl, [], by simp [hasked']⟩
      refine ⟨ht.point.keeps hkeeps hasked', .pure ⟨?_, fun _ ↦ ⟨fun htidy ↦ ?_, fun _ ↦ ?_⟩,
        fun _ ↦ rfl⟩⟩
      · exact ht.moved hclean hkeeps (by rw [hu]; rfl) hasked'
          (fun i q hq ↦ ⟨q.clean v, by rw [getElem?_map, hq]; rfl, (clean_cases v q).1⟩)
          (ht.ledger.cleanedUp hclean) fun hc ↦ hc.cleanedUp hclean
      · intro q hq
        rw [hclean.processes] at hq
        obtain ⟨q', hq', rfl⟩ := mem_map.mp hq
        obtain ⟨-, halive, hcleaned, hgone⟩ := clean_cases v q'
        rcases ht.ledger.owed (hclean.tidy htidy) q' hq' with hc | hversion
        · exact .inl (hcleaned hc)
        · by_cases ha : q'.fate = .alive
          · exact .inr (halive.mpr ha)
          · exact .inl (hgone hversion ha)
      · rw [hu]
        simp [Plugin.clean, recorded, due_concat, dueStep]

theorem Mid.not_alive (h : Mid capable original none reg v k w) (ho : Orderly w.asked) :
    ∀ q ∈ w.now.processes, q.fate ≠ .alive := by
  intro q hq ha
  obtain ⟨j, hj⟩ := mem_iff_getElem?.mp hq
  cases h.ledger.alive ho j q hj ha

theorem Mid.cleaned_of (h : Mid capable original none reg v k w) (hc : Cleanup capable version w) :
    Cleaned capable w :=
  fun htidy q hq ↦ (hc.processes htidy q hq).resolve_right (h.not_alive htidy.orderly q hq)

theorem not_recovers (hsite : site.recovers = false) {P : Prop} : site.recovers → P :=
  fun htrue ↦ nomatch hsite.symm.trans htrue

theorem Mid.stopAndCleanup (h : Mid capable original hand reg v k w)
    (hsite : site ≠ .close) (hrec : site.recovers = false) :
    Goes (stopAndCleanupInstalledVersion capable site v hand) w (Climbs capable) fun r t ↦
      Mid capable original none reg v k t ∧ (r.1 = false → Cleaned capable t) ∧
        (r.2 → r.1 = false) := by
  refine .seq (h.stop hsite) fun stopped t ht ↦ .seq (ht.cleanup (not_recovers hrec)) ?_
  rintro cleaned u ⟨hu, hclean, hcapable⟩
  refine .pure ⟨hu, fun hpending ↦ ?_, fun hok ↦ ?_⟩
  · cases cleaned with
    | true => exact hu.cleaned_of (hclean rfl)
    | false => simp [hcapable rfl] at hpending
  · simp only [Bool.and_eq_true] at hok
    simp [hok.2]

structure Sets (p p' : Plugin) (st : PluginState) (reg : Option Nat) : Prop where
  state : p'.state = some st
  registered : p'.registered = reg
  processes : p'.processes = p.processes
  overlap : p'.overlap = p.overlap
  disk : p'.disk = p.disk

structure Leads (capable : String → Bool) (w t : Now) (st : PluginState) (reg : Option Nat) :
    Prop where
  state : t.now.state = some st
  registered : t.now.registered = reg
  told : Told w t
  disk : ∀ st ∈ t.now.disk, WellKept st
  moment : Moment capable t

theorem Mid.changes {reg' : Option Nat} (h : Mid capable original hand reg v k w)
    (hf : Sets w.now p' st reg') (hnew : Renews capable w.now p' st) (hkept : WellKept st)
    (hrevision : original.desiredRevision ≤ st.desiredRevision)
    (hcalm : Gentle w.asked → reg'.isSome → st.cleanupPending = false) :
    Changes capable w p' where
  revision := h.rises hf.state hrevision
  records := hnew.records hf.state
  state := fun st' hst' ↦ by
    rw [hf.state] at hst'
    cases hst'
    exact hkept
  disk := hf.disk ▸ h.disk
  kept := h.moment.kept.renew hf.state hf.disk hnew
  calm := fun hgentle hreg st' hst' ↦ by
    rw [hf.state] at hst'
    cases hst'
    exact hcalm hgentle (hf.registered ▸ hreg)

theorem Sets.leads {r : Write} (h : Sets w.now p' st reg)
    (hnow : t.now = p'.persist r) (hasked : t.asked = w.asked ++ l) (ht : Point capable t) :
    Leads capable w t st reg where
  state := by simp [hnow, h.state]
  registered := by simp [hnow, h.registered]
  told := ⟨by simp [hnow, h.processes], by simp [hnow, h.overlap], l, hasked⟩
  disk := ht.disk
  moment := ht.moment

theorem Mid.lockPending (h : Mid capable original hand reg v k w) (site : Site) (hv : v ≠ "")
    (hcur : w.now.state = some cur)
    (hf : f w.now = { w.now with
      state := some (pendingCleanup v cur)
      registered := none
      log := w.now.log ++ [.owed v] }) :
    Goes (locked site f) w (Climbs capable) fun _ t ↦
      Mid capable original hand none v (.entry (pendingCleanup v cur)) t := by
  have hlike : Like original cur := by
    obtain ⟨cur', hcur', hlike, -⟩ := h.state
    rw [hcur] at hcur'
    cases hcur'
    exact hlike
  have hlike' : Like original (pendingCleanup v cur) :=
    ⟨hlike.desiredRevision, hlike.observedRevision, hlike.desiredVersion, hlike.observedVersion,
      nofun⟩
  have howes : (pendingCleanup v cur).owes = v := by simp [PluginState.owes, pendingCleanup, hv]
  have hsets : Sets w.now (f w.now) (pendingCleanup v cur) none := by
    rw [hf]
    exact ⟨rfl, rfl, rfl, rfl, rfl⟩
  have hnew : Renews capable w.now (f w.now) (pendingCleanup v cur) :=
    .owed v (by rw [hf]) ((debt_of_pending rfl).trans (by rw [howes])) h.debt
  refine goes_locked h.point (h.changes hsets hnew (hlike'.wellKept h.kept)
    hlike'.desiredRevision.ge nofun) fun r t l hnow hasked ht ↦ ?_
  have hleads := hsets.leads hnow hasked ht
  exact ⟨h.kept, ⟨_, hleads.state, hlike', fun _ ↦ howes⟩, hleads.registered,
    fun i hi ↦ (nomatch hi), hleads.disk, h.ledger.told hleads.told, hleads.state, hleads.moment⟩

theorem Mid.mark (h : Mid capable original hand reg v k w) (site : Site) (hv : v ≠ "") :
    Goes (markCleanupPending site v) w (Climbs capable) fun _ t ↦
      Mid capable original hand none v .settled t := by
  obtain ⟨cur, hcur, -, -⟩ := h.state
  exact .seq (h.lockPending site hv hcur (by rw [hcur]; rfl)) fun _ _ ht ↦
    .pure (ht.known_as .settled fun _ ↦ .inl ⟨_, ht.known, rfl⟩)

def Runs (version : String) (i : Nat) (w : Now) : Prop :=
  version ≠ "" ∧ ∃ q, w.now.processes[i]? = some q ∧ q.version = version

/-- What an operation has after `startVersion` at `w`: a healthy process and the same entry, or
no process and the debt settled. -/
def Started (capable : String → Bool) (original : PluginState) (version : String) (site : Site)
    (w : Now) : Option Nat → Now → Prop
  | some i, t => Mid capable original (some i) none version .nothing t ∧ Runs version i t ∧
      t.now.state = w.now.state ∧ ∃ l, t.asked = l ++ [((.health, site), true)]
  | none, t => Mid capable original none none version .settled t

theorem Mid.as_version (h : Mid capable original none reg v k w)
    (hv : v = version ∨ k = .clean) : Mid capable original none reg version k w := by
  rcases hv with rfl | rfl
  · exact h
  obtain ⟨cur, hcur, hlike, -⟩ := h.state
  refine { h with
    state := ⟨cur, hcur, hlike, fun hpending ↦ ?_⟩
    ledger := h.ledger.of_cleaned h.known.2 version }
  rw [h.known.1 cur hcur] at hpending
  cases hpending

theorem Mid.refused (h : Mid capable original hand reg v k w) {q : Query}
    (hneeded : Needed q) (hq : (q, false) ∈ w.asked) :
    Mid capable original hand reg v .settled w :=
  h.known_as .settled fun htidy ↦ by cases htidy.needed _ hq hneeded

theorem Mid.launch (h : Mid capable original none none version k w) :
    Goes (doing fun p : Plugin ↦ p.launch version) w (Climbs capable) fun _ t ↦
      Mid capable original (some w.now.processes.length) none version .nothing t ∧
        t.now.state = w.now.state ∧
        ∃ q, t.now.processes[w.now.processes.length]? = some q ∧ q.version = version := by
  refine goes_acting fun t hnow hasked ↦ ?_
  have hkeeps : Keeps w.now t.now := by
    rw [hnow]
    exact ⟨rfl, rfl, .inl rfl, .inr ⟨.started version, rfl, rfl⟩⟩
  refine ⟨h.point.keeps hkeeps hasked, ?_, hkeeps.state, ?_⟩
  · refine ⟨h.kept, by rw [hnow]; exact h.state, by rw [hnow]; exact h.registered,
      fun i hi ↦ (nomatch hi), by rw [hnow]; exact h.disk, ?_, trivial,
      h.moment.keeps hkeeps hasked⟩
    exact h.ledger.launch (.inl rfl) (by rw [hnow]) (by rw [hnow]) hasked
  · exact ⟨⟨version, .alive, w.now.log.length⟩, by simp [hnow, Plugin.launch], rfl⟩

theorem Mid.unhealthy (h : Mid capable original (some i) none version k w)
    (hsite : site ≠ .close) (hrec : site.recovers = false) (hversion : version ≠ "") :
    Goes (do
      let stopped ← stopProcess site (some i)
      let cleaned ← cleanupInstalledVersion capable site version
      if capable version && !(stopped && cleaned) then markCleanupPending site version
      pure none) w (Climbs capable) (Started capable original version site t) := by
  refine .seq (h.stop hsite) fun stopped u hu ↦ .seq (hu.cleanup (not_recovers hrec)) ?_
  rintro cleaned u₁ ⟨hu₁, hclean, hcapable⟩
  cases hmark : capable version && !(stopped && cleaned) with
  | true => exact .seq (hu₁.mark site hversion) fun _ u₂ hu₂ ↦ .pure hu₂
  | false =>
    have hdone : Cleanup capable version u₁ := by
      cases cleaned with
      | true => exact hclean rfl
      | false => simp [hcapable rfl] at hmark
    exact .pure (hu₁.known_as .settled (Cleaned.settled (hu₁.cleaned_of hdone)))

theorem Mid.start (h : Mid capable original none none v k w) (hsite : site ≠ .close)
    (hrec : site.recovers = false) (hv : v = version ∨ k = .clean)
    (hk : k = .clean ∨ k = .settled ∨
      version ≠ "" ∧ Needed (.verify, site) ∧ Needed (.launch, site)) :
    Goes (startVersion capable site version) w (Climbs capable)
      (Started capable original version site w) := by
  refine .seq (goes_verify h.point site version) ?_
  rintro b t ⟨hstill, hversion, hb⟩
  have ht := (h.as_version hv).still hstill
  cases b with
  | false =>
    rcases hk with rfl | rfl | ⟨hne, hverify, -⟩
    · exact .pure ht.clean_settled
    · exact .pure ht
    · exact .pure (ht.refused hverify (hb hne))
  | true =>
    refine .bind (goes_question ht.point rfl fun b u hnow hasked hstill' ↦ ?_)
    have hu := ht.still hstill'
    cases b with
    | false =>
      rcases hk with rfl | rfl | ⟨-, -, hlaunch⟩
      · exact .pure hu.clean_settled
      · exact .pure hu
      · refine .pure (hu.refused hlaunch ?_)
        rw [hasked]
        exact mem_append_right _ (mem_singleton_self _)
    | true =>
      refine .bind (goes_seeing (.seq hu.launch ?_))
      rintro - u₁ ⟨hu₁, hstate, hproc⟩
      refine .bind (goes_question hu₁.point rfl fun b u₂ hnow₂ hasked₂ hstill₂ ↦ ?_)
      have hu₂ := hu₁.still hstill₂
      cases b with
      | true =>
        refine .pure ⟨hu₂, ⟨hversion rfl, by rw [hnow₂]; exact hproc⟩, ?_, _, hasked₂⟩
        rw [hnow₂, hstate, hstill'.state, hstill.state]
      | false => exact hu₂.unhealthy hsite hrec (hversion rfl)

theorem Inv.point (h : Inv capable w) : Point capable w := ⟨h.state, h.disk, h.moment⟩

theorem Mid.down (h : Mid capable original none reg v k w) (ht : Leads capable w t st none)
    (hkept : WellKept st)
    (hdebt : Tidy capable w.asked → st.cleanupPending ∧ st.owes = v ∨
      ∀ q ∈ w.now.processes, q.fate = .cleaned) : Inv capable t where
  state := fun st' hst' ↦ by
    rw [ht.state] at hst'
    cases hst'
    exact hkept
  disk := ht.disk
  registered := fun i hi ↦ by
    rw [ht.registered] at hi
    cases hi
  ledger := by
    have hledger := h.ledger.told ht.told
    rw [ht.registered, ht.state]
    refine ⟨hledger.alive, hledger.single, fun htidy q hq ↦ ?_⟩
    rcases hdebt (ht.told.tidy htidy) with ⟨hpending, howes⟩ | hall
    · simp only [owed, hpending, if_true, howes]
      exact hledger.owed htidy q hq
    · exact .inl (hall q (ht.told.same ▸ hq))
  debt := fun htidy ↦ by
    rcases hdebt (ht.told.tidy htidy) with ⟨hpending, -⟩ | hall
    · exact .inr (.inl ⟨st, ht.state, hpending⟩)
    · exact .inr (.inr (ht.told.same ▸ hall))
  moment := ht.moment

theorem Mid.up (h : Mid capable original (some i) reg v k w)
    (hprocess : Runs v i w) (ht : Leads capable w t st (some i))
    (hkept : WellKept st)
    (henabled : st.enabled) (hversion : st.desiredVersion = v)
    (hdebt : st.cleanupPending → st.owes = v) : Inv capable t where
  state := fun st' hst' ↦ by
    rw [ht.state] at hst'
    cases hst'
    exact hkept
  disk := ht.disk
  registered := fun j hj ↦ by
    rw [ht.registered] at hj
    cases hj
    obtain ⟨hne, q, hq, hqv⟩ := hprocess
    refine ⟨st, q, ht.state, ht.told.same ▸ hq, henabled, hqv.trans hversion.symm,
      hversion ▸ hne, ?_⟩
    exact fun hpending ↦ (hdebt hpending).trans hversion.symm
  ledger := by
    have howed : owed (some st) = v := by
      unfold owed
      simp only []
      split
      · next hpending => exact hdebt hpending
      · exact hversion
    rw [ht.registered, ht.state, howed]
    exact h.ledger.told ht.told
  debt := fun _ ↦ .inl (by rw [ht.registered]; rfl)
  moment := ht.moment

theorem Mid.settled_debt (h : Mid capable original hand reg v .settled w)
    (hst : ∀ cur, w.now.state = some cur → cur.cleanupPending → Like original cur →
      st.cleanupPending ∧ st.owes = cur.owes) (htidy : Tidy capable w.asked) :
    st.cleanupPending ∧ st.owes = v ∨ ∀ q ∈ w.now.processes, q.fate = .cleaned := by
  rcases h.known htidy with ⟨cur, hcur, hpending⟩ | hall
  · obtain ⟨cur', hcur', hlike, howes⟩ := h.state
    rw [hcur'] at hcur
    cases hcur
    obtain ⟨hst, heq⟩ := hst _ hcur' hpending hlike
    exact .inl ⟨hst, heq.trans (howes hpending)⟩
  · exact .inr hall

theorem Mid.lockDown (h : Mid capable original none reg v k w)
    (hf : Sets w.now (f w.now) st none) (hnew : Renews capable w.now (f w.now) st)
    (hkept : WellKept st) (hrevision : original.desiredRevision ≤ st.desiredRevision)
    (hdebt : Tidy capable w.asked → st.cleanupPending ∧ st.owes = v ∨
      ∀ q ∈ w.now.processes, q.fate = .cleaned) :
    Upholds capable (locked site f) w := by
  have hchanges := h.changes hf hnew hkept hrevision nofun
  refine goes_locked h.point hchanges fun r t l hnow hasked ht ↦ ?_
  exact h.down (hf.leads hnow hasked ht) hkept hdebt

theorem Mid.lockUp (h : Mid capable original (some i) reg v k w) (hprocess : Runs v i w)
    (hf : Sets w.now (f w.now) st (some i)) (hnew : Renews capable w.now (f w.now) st)
    (hkept : WellKept st) (hrevision : original.desiredRevision ≤ st.desiredRevision)
    (henabled : st.enabled) (hversion : st.desiredVersion = v)
    (hdebt : st.cleanupPending → st.owes = v)
    (hcalm : Gentle w.asked → st.cleanupPending = false) : Upholds capable (locked site f) w := by
  have hchanges := h.changes hf hnew hkept hrevision fun hgentle _ ↦ hcalm hgentle
  refine goes_locked h.point hchanges fun r t l hnow hasked ht ↦ ?_
  exact h.up hprocess (hf.leads hnow hasked ht) hkept henabled hversion hdebt

theorem Mid.undone {r : Write} (h : Mid capable original hand reg v k w) (hp : Changes capable w p)
    (hclear : debtOf p.state = none) (hundo : Sets (p.persist r) p' back none)
    (hlog : p'.log = (p.persist r).log) (hback : Like original back)
    (hbackclear : back.cleanupPending = false) : Changes capable w p' := by
  have hpr := hp.persist r
  have hdebt : back.debt = debtOf (p.persist r).state := by
    rw [persist_state, hclear, debt_of_clear hbackclear]
  refine ⟨h.rises hundo.state hback.desiredRevision.ge, ?_, fun st hst ↦ ?_, hundo.disk ▸ hpr.disk,
    hpr.kept.renew hundo.state hundo.disk (.same hlog hdebt), fun _ hreg ↦ ?_⟩
  · refine ⟨hlog ▸ hpr.records.log, fun u hu ↦ ?_⟩
    have hnone : debtOf p'.state = none := by
      rw [hundo.state]
      exact debt_of_clear hbackclear
    rw [hnone] at hu
    cases hu
  · rw [hundo.state] at hst
    cases hst
    exact hback.wellKept h.kept
  · rw [hundo.registered] at hreg
    cases hreg

theorem Mid.lockUpOr (h : Mid capable original (some i) none v k w)
    (hprocess : Runs v i w) (hf : Sets w.now (f w.now) st (some i))
    (hlog : (f w.now).log = w.now.log) (hwas : Clear w) (hkept : WellKept st)
    (hrevision : original.desiredRevision ≤ st.desiredRevision) (henabled : st.enabled)
    (hversion : st.desiredVersion = v) (hclear : st.cleanupPending = false)
    (hundo : ∀ p', Sets p' (undo w.now p') back none ∧ (undo w.now p').log = p'.log)
    (hback : Like original back) (hbackclear : back.cleanupPending = false) :
    Goes (lockedOr site f undo) w (Climbs capable) fun ok t ↦
      if ok then Inv capable t
      else Mid capable original (some i) none v (.entry back) t ∧
        ((.persist, site), false) ∈ t.asked := by
  have hpending {st : PluginState} (hst : st.cleanupPending = false) {P : Prop} :
      st.cleanupPending → P :=
    fun htrue ↦ nomatch hst.symm.trans htrue
  have hnew : Renews capable w.now (f w.now) st :=
    .same hlog ((debt_of_clear hclear).trans hwas.debt.symm)
  have hchanges := h.changes hf hnew hkept hrevision fun _ _ ↦ hclear
  have hnone : debtOf (f w.now).state = none := by
    rw [hf.state]
    exact debt_of_clear hclear
  refine goes_lockedOr h.point hchanges (fun r ↦ h.undone hchanges hnone (hundo _).1 (hundo _).2
    hback hbackclear) (fun t l hnow hasked ht ↦ ?_) fun r t l hnow hasked ht ↦ ⟨?_, ?_⟩
  · rw [if_pos rfl]
    exact h.up hprocess (hf.leads hnow hasked ht) hkept henabled hversion (hpending hclear)
  · have hsets := (hundo ((f w.now).persist r)).1
    have htold : Told w t := ⟨by simp [hnow, hsets.processes, hf.processes],
      by simp [hnow, hsets.overlap, hf.overlap], _, hasked⟩
    exact ⟨h.kept, ⟨back, by rw [hnow]; exact hsets.state, hback, hpending hbackclear⟩,
      by rw [hnow]; exact hsets.registered, fun i hi ↦ (nomatch hi), ht.disk, h.ledger.told htold,
      by rw [Known.Holds, hnow]; exact hsets.state, ht.moment⟩
  · rw [hasked]
    exact mem_append_right _ mem_cons_self

theorem Inv.mid (h : Inv capable w) (hst : w.now.state = some st) :
    Mid capable st w.now.registered w.now.registered (owed (some st)) .nothing w where
  kept := h.state st hst
  state := ⟨st, hst, .refl st, fun hpending ↦ by simp [owed, hpending]⟩
  registered := rfl
  process := fun i hi ↦ by
    obtain ⟨st', q, hst', hq, -, hversion, -, -⟩ := h.registered i hi
    rw [hst] at hst'
    cases hst'
    exact ⟨q, hq, hversion⟩
  disk := h.disk
  ledger := hst ▸ h.ledger
  known := trivial
  moment := h.moment

theorem Inv.mid_clear (h : Inv capable w) (hst : w.now.state = some st)
    (hclear : st.cleanupPending = false) :
    Mid capable st w.now.registered w.now.registered st.desiredVersion .clear w := by
  have hmid := h.mid hst
  rw [show owed (some st) = st.desiredVersion by simp [owed, hclear]] at hmid
  refine hmid.known_as .clear fun st' hst' ↦ ?_
  rw [hst] at hst'
  cases hst'
  exact hclear

theorem Inv.mid_clean (h : Inv capable w) (hst : w.now.state = some st)
    (hclear : st.cleanupPending = false) (hreg : w.now.registered = none) :
    Mid capable st none none st.desiredVersion .clean w := by
  have hmid := h.mid_clear hst hclear
  rw [hreg] at hmid
  refine hmid.known_as .clean ⟨hmid.known, fun htidy ↦ ?_⟩
  rcases h.debt htidy with hsome | ⟨st', hst', hpending⟩ | hall
  · rw [hreg] at hsome
    cases hsome
  · rw [hmid.known st' hst'] at hpending
    cases hpending
  · exact hall

theorem Mid.removeProcess (h : Mid capable original hand reg v k w) :
    Goes (doing Plugin.removeProcess) w (Climbs capable) fun _ t ↦
      Mid capable original hand none v k t := by
  refine goes_acting fun t hnow hasked ↦ ?_
  have hkeeps : Keeps w.now t.now := by
    rw [hnow]
    exact ⟨rfl, rfl, .inr rfl, .inl rfl⟩
  have htold : Told w t := ⟨by rw [hnow]; rfl, by rw [hnow]; rfl, [], by simp [hasked]⟩
  exact ⟨h.point.keeps hkeeps hasked, h.kept, hkeeps.state ▸ h.state, by rw [hnow]; rfl,
    fun i hi ↦ (nomatch hi), hkeeps.disk ▸ h.disk, h.ledger.told htold,
    h.known.told hkeeps.state htold, h.moment.keeps hkeeps hasked⟩

theorem Mid.cleanupIf (h : Mid capable original hand reg v k w) (verified : Bool)
    (hsite : site.recovers → Gentle w.asked → reg = none) :
    Goes (cleanupIf capable site verified v) w (Climbs capable) fun ok t ↦
      Mid capable original hand reg v k t ∧ (verified → ok → Cleanup capable v t) := by
  cases verified with
  | false => exact .pure ⟨h, nofun⟩
  | true => exact (h.cleanup hsite).imp fun ok t ht ↦ ⟨ht.1, fun _ ↦ ht.2.1⟩

theorem owes_recovered_false (st : PluginState) : (recovered st.owes false st).owes = st.owes := by
  unfold recovered PluginState.owes
  by_cases hempty : st.cleanupVersion = "" <;> simp [hempty]

theorem debt_recovered_false (h : st.cleanupPending) :
    (recovered st.owes false st).debt = st.debt := by
  rw [debt_of_pending h, debt_of_pending rfl, owes_recovered_false]

structure Recovered (capable : String → Bool) (cur : PluginState) (ok : Bool) (t : Now) :
    Prop where
  clear : ok = true → Clear t
  enabled : ∃ cur', t.now.state = some cur' ∧ cur'.enabled = cur.enabled
  debt : Tidy capable t.asked → (∃ st ∈ t.now.state, st.cleanupPending = true) ∨
    ∀ q ∈ t.now.processes, q.fate = .cleaned ∨ q.fate = .alive

section

variable (h : Mid capable original hand reg v (.entry cur) w)
include h

theorem Mid.idle (hpending : cur.cleanupPending) (hgentle : Gentle w.asked) : reg = none := by
  cases reg with
  | none => rfl
  | some i =>
    have hclear := h.moment.calm hgentle (by rw [h.registered]; rfl) cur h.known
    rw [hpending] at hclear
    cases hclear

theorem renews_recovered {ok : Bool} (hpending : cur.cleanupPending) (hclean : ok → Cleanup capable v w) :
    Renews capable w.now { w.now with state := w.now.state.map (recovered v ok) }
      (recovered v ok cur) := by
  have hdebt : debtOf w.now.state = some cur.owes := by
    rw [h.known]
    exact debt_of_pending hpending
  have hv : cur.owes = v := h.debt cur.owes hdebt
  cases ok with
  | true => exact .free rfl (h.moment.kept.free_of_cleaned h.debt (hclean rfl).recorded) nofun
  | false =>
    refine .same rfl ?_
    rw [hdebt, ← hv, debt_recovered_false hpending, debt_of_pending hpending]

theorem changes_unrecovered {ok : Bool} {r : Write} (hp : p = { w.now with state := w.now.state.map (recovered v ok) })
    (hchanges : Changes capable w p) (hpending : cur.cleanupPending)
    (hclean : ok → Cleanup capable v w) :
    Changes capable w { p.persist r with state := w.now.state } := by
  have hpr := hchanges.persist r
  have hkept : Kept capable { p.persist r with state := w.now.state } := by
    cases hok : ok with
    | true =>
      have hfree : Free capable p := by
        rw [hp]
        exact h.moment.kept.free_of_cleaned h.debt (hclean hok).recorded
      exact hpr.kept.of_free (hfree.persist r) rfl rfl
    | false =>
      refine hpr.kept.renew h.known rfl (.same rfl ?_)
      have hdebt : debtOf w.now.state = some cur.owes := by
        rw [h.known]
        exact debt_of_pending hpending
      rw [persist_state, hp, hok, h.known, ← h.debt cur.owes hdebt]
      exact (debt_recovered_false hpending).symm
  refine ⟨.of_state rfl, .of_state rfl hpr.records.log, h.point.state, hpr.disk, hkept,
    fun hgentle hreg ↦ ?_⟩
  have hsame : (p.persist r).registered = w.now.registered := by rw [persist_registered, hp]
  exact h.moment.calm hgentle (hsame ▸ hreg)

end

theorem Mid.recoverPending (h : Mid capable original hand reg v k w)
    (hcur : w.now.state = some cur) (hpending : cur.cleanupPending) :
    Goes (recoverPending capable site cur) w (Climbs capable) fun ok t ↦
      Mid capable original hand reg v .nothing t ∧ Recovered capable cur ok t := by
  obtain ⟨hlike, hv⟩ : Like original cur ∧ cur.owes = v := by
    obtain ⟨cur', hcur', hlike, howes⟩ := h.state
    rw [hcur] at hcur'
    cases hcur'
    exact ⟨hlike, howes hpending⟩
  unfold Lifecycle.recoverPending
  rw [hv]
  refine .seq ((h.known_as (.entry cur) hcur).verify site v) ?_
  rintro verified t₁ ⟨h₁, -, -⟩
  refine .seq (h₁.cleanupIf verified fun _ ↦ h₁.idle hpending) ?_
  rintro cleaned t₂ ⟨h₂, hclean⟩
  refine .bind (goes_recovery h₂.point (fun _ hgentle ↦ h₂.registered.trans (h₂.idle hpending
    hgentle)) fun removed t₃ hnow₃ hasked₃ hstill₃ ↦ ?_)
  have h₃ := h₂.still hstill₃
  have hcur₃ : t₃.now.state = some cur := h₃.known
  have hclean₃ : verified && cleaned && removed → Cleanup capable v t₃ := by
    intro hok
    simp only [Bool.and_eq_true] at hok
    exact (hclean hok.1.1 hok.1.2).still hnow₃ hstill₃.told
  generalize (verified && cleaned && removed) = ok at hclean₃ ⊢
  have hlike' : Like original (recovered v ok cur) := by cases ok <;> exact { hlike with }
  have hsets : Sets t₃.now { t₃.now with state := t₃.now.state.map (recovered v ok) }
      (recovered v ok cur) reg := ⟨by simp [hcur₃], h₃.registered, rfl, rfl, rfl⟩
  have hchanges : Changes capable t₃ { t₃.now with state := t₃.now.state.map (recovered v ok) } := by
    refine h₃.changes hsets (renews_recovered h₃ hpending hclean₃) (hlike'.wellKept h.kept)
      hlike'.desiredRevision.ge fun hgentle hreg ↦ ?_
    rw [h₃.idle hpending hgentle] at hreg
    cases hreg
  refine .bind (goes_lockedOr h₃.point hchanges
    (fun r ↦ changes_unrecovered h₃ rfl hchanges hpending hclean₃)
    (fun t l hnow hasked ht ↦ .pure ?_) fun r t l hnow hasked ht ↦ .pure ?_)
  · have hleads := hsets.leads hnow hasked ht
    refine ⟨⟨h.kept, ⟨_, hleads.state, hlike', fun hstill ↦ ?_⟩, hleads.registered,
      hleads.told.same ▸ h₃.process, hleads.disk, h₃.ledger.told hleads.told, trivial,
      hleads.moment⟩, fun hok st hst ↦ ?_, ⟨_, hleads.state, by cases ok <;> rfl⟩,
      fun htidy ↦ ?_⟩
    · cases ok with
      | true => cases hstill
      | false => exact hv ▸ owes_recovered_false cur
    · rw [hleads.state] at hst
      cases hst
      simp only [Bool.and_true] at hok
      rw [hok]
      rfl
    · cases ok with
      | true =>
        exact .inr (hleads.told.same ▸ (hclean₃ rfl).processes (hleads.told.tidy htidy))
      | false => exact .inl ⟨_, hleads.state, rfl⟩
  · have hstate : t.now.state = some cur := by rw [hnow]; exact hcur₃
    have htold : Told t₃ t := ⟨by simp [hnow], by simp [hnow], _, hasked⟩
    refine ⟨⟨h.kept, ⟨cur, hstate, hlike, fun _ ↦ hv⟩, ?_, htold.same ▸ h₃.process, ht.disk,
      h₃.ledger.told htold, trivial, ht.moment⟩, fun hok ↦ ?_, ⟨cur, hstate, rfl⟩,
      fun _ ↦ .inl ⟨cur, hstate, hpending⟩⟩
    · rw [hnow]
      simpa using h₃.registered
    · simp at hok

theorem Mid.between {ok : Bool}
    (h : Mid capable cur w.now.registered w.now.registered cur.owes .nothing t)
    (hinv : Inv capable w) (hcur : w.now.state = some cur) (hpending : cur.cleanupPending)
    (hrec : Recovered capable cur ok t) : Inv capable t := by
  obtain ⟨cur', hcur', henabled⟩ := hrec.enabled
  obtain ⟨hlike, howes⟩ : Like cur cur' ∧ (cur'.cleanupPending → cur'.owes = cur.owes) := by
    obtain ⟨cur₁, hcur₁, hlike, howes⟩ := h.state
    rw [hcur'] at hcur₁
    cases hcur₁
    exact ⟨hlike, howes⟩
  have halive (ho : Orderly t.asked) {j : Nat} {q : Process} (hq : t.now.processes[j]? = some q)
      (ha : q.fate = .alive) :
      t.now.registered = some j ∧ q.version = cur.desiredVersion := by
    have hreg := h.ledger.alive ho j q hq ha
    obtain ⟨q', hq', hversion⟩ := h.process j hreg
    rw [hq] at hq'
    cases hq'
    exact ⟨h.registered.trans hreg, hversion⟩
  refine ⟨fun st hst ↦ ?_, h.disk, fun i hi ↦ ?_, ⟨?_, h.ledger.single, fun htidy q hq ↦ ?_⟩,
    fun htidy ↦ ?_, h.moment⟩
  · rw [hcur'] at hst
    cases hst
    exact hlike.wellKept h.kept
  · rw [h.registered] at hi
    obtain ⟨st, -, hst, -, hon, -, hne, hdebt⟩ := hinv.registered i hi
    rw [hcur] at hst
    cases hst
    obtain ⟨q, hq, hversion⟩ := h.process i hi
    refine ⟨cur', q, hcur', hq, henabled.trans hon, hversion.trans hlike.desiredVersion.symm,
      hlike.desiredVersion.symm ▸ hne, ?_⟩
    intro hpending'
    rw [howes hpending', hdebt hpending, hlike.desiredVersion]
  · rw [h.registered]
    exact h.ledger.alive
  · rw [hcur']
    cases hpending' : cur'.cleanupPending with
    | true =>
      simp only [owed, hpending', if_true, howes hpending']
      exact h.ledger.owed htidy q hq
    | false =>
      rcases hrec.debt htidy with ⟨st, hst, hstill⟩ | hall
      · rw [hcur'] at hst
        cases hst
        rw [hpending'] at hstill
        cases hstill
      · refine (hall q hq).imp_right fun ha ↦ ?_
        obtain ⟨j, hj⟩ := mem_iff_getElem?.mp hq
        simp only [owed, hpending', hlike.desiredVersion]
        exact (halive htidy.orderly hj ha).2
  · cases hreg : t.now.registered with
    | some i => exact .inl rfl
    | none =>
      refine .inr ((hrec.debt htidy).imp_right fun hall q hq ↦ ?_)
      refine (hall q hq).resolve_right fun ha ↦ ?_
      obtain ⟨j, hj⟩ := mem_iff_getElem?.mp hq
      rw [hreg] at halive
      cases (halive htidy.orderly hj ha).1

theorem Inv.recover (h : Inv capable w) (site : Site) :
    Goes (recoverPluginCleanup capable site) w (Climbs capable) fun ok t ↦
      Inv capable t ∧ (ok → Clear t) := by
  refine .bind (goes_seeing ?_)
  cases hst : w.now.state with
  | none =>
    refine .pure ⟨h, fun _ st hst' ↦ ?_⟩
    rw [hst] at hst'
    cases hst'
  | some cur =>
    cases hpending : cur.cleanupPending with
    | false =>
      simp only [hpending]
      refine .pure ⟨h, fun _ st hst' ↦ ?_⟩
      rw [hst] at hst'
      cases hst'
      exact hpending
    | true =>
      simp only [hpending, if_true]
      have hmid := h.mid hst
      rw [show owed (some cur) = cur.owes by simp [owed, hpending]] at hmid
      refine (hmid.recoverPending hst hpending).imp ?_
      rintro ok t ⟨ht, hrec⟩
      exact ⟨ht.between h hst hpending hrec, hrec.clear⟩

theorem Mid.recover (h : Mid capable original none reg v .settled w) (site : Site) :
    Goes (recoverPluginCleanup capable site) w (Climbs capable) fun _ t ↦
      Mid capable original none reg v .settled t := by
  obtain ⟨cur, hcur, -, -⟩ := h.state
  refine .bind (goes_seeing ?_)
  rw [hcur]
  cases hpending : cur.cleanupPending with
  | false =>
    simp only [hpending]
    exact .pure h
  | true =>
    simp only [hpending, if_true]
    refine (h.recoverPending hcur hpending).imp ?_
    rintro ok t ⟨ht, hrec⟩
    refine ht.known_as .settled fun htidy ↦ (hrec.debt htidy).imp_right fun hall q hq ↦ ?_
    exact (hall q hq).resolve_right (ht.not_alive htidy.orderly q hq)

end

end AnixAgent.Plugins.Transitions
