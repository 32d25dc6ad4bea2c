import AnixAgent.Plugins.Debts

namespace AnixAgent.Plugins.Upkeep

open Lib.Crash Lib.Crash.Proc Lib.Answers Lifecycle Debts List
open Journal (Write)

/-- Outside `Close`, a process whose `Stop` fails has exited. -/
def Orderly (asked : List (Query × Bool)) : Prop :=
  ∀ x ∈ asked, x.1.1 = .exited → x.1.2 ≠ .close → x.2 = true

instance (asked : List (Query × Bool)) : Decidable (Orderly asked) := by
  unfold Orderly
  infer_instance

/-- The calls whose failure leaves a process behind that nobody cleans up: the verification in
a `disable` of a running plugin, the last write of an `enable` and of a maintenance restart, and
the new start after a `configure` that was not written. -/
def Needed : Query → Bool
  | (.verify, .disable true) | (.persist, .enabled) | (.persist, .restarted)
  | (.restoreConfig, .rollback .persist) | (.verify, .rollback .persist)
  | (.launch, .rollback .persist) => true
  | _ => false

/-- As `Orderly`, for a plugin all of whose versions can clean up, with all needed calls
succeeding. -/
structure Tidy (capable : String → Bool) (asked : List (Query × Bool)) : Prop where
  orderly : Orderly asked
  needed : ∀ x ∈ asked, Needed x.1 = true → x.2 = true
  capable : ∀ v, capable v = true

variable {l l' : List (Query × Bool)}

theorem Orderly.of_append (h : Orderly (l ++ l')) : Orderly l :=
  fun x hx ↦ h x (mem_append_left l' hx)

theorem Tidy.of_append {capable : String → Bool} (h : Tidy capable (l ++ l')) : Tidy capable l where
  orderly := h.orderly.of_append
  needed := fun x hx ↦ h.needed x (mem_append_left l' hx)
  capable := h.capable

structure WellKept (st : PluginState) : Prop where
  revision : st.observedRevision ≤ st.desiredRevision
  version : st.enabled = true → st.observedVersion = st.desiredVersion

def Rises (p q : Plugin) : Prop :=
  ∀ st ∈ p.state, ∃ st' ∈ q.state, st.desiredRevision ≤ st'.desiredRevision

theorem Rises.refl (p : Plugin) : Rises p p := fun st hst ↦ ⟨st, hst, le_rfl⟩

theorem Rises.trans {p q r : Plugin} (h : Rises p q) (h' : Rises q r) : Rises p r := by
  intro st hst
  obtain ⟨st', hst', hle⟩ := h st hst
  obtain ⟨st'', hst'', hle'⟩ := h' st' hst'
  exact ⟨st'', hst'', hle.trans hle'⟩

instance : Trans Rises Rises Rises := ⟨Rises.trans⟩

theorem Rises.of_state {p q : Plugin} (hstate : q.state = p.state) : Rises p q :=
  fun st hst ↦ ⟨st, hstate ▸ hst, le_rfl⟩

@[simp] theorem persist_state (p : Plugin) (w : Write) : (p.persist w).state = p.state := by
  unfold Plugin.persist
  split <;> rfl

@[simp] theorem persist_registered (p : Plugin) (w : Write) :
    (p.persist w).registered = p.registered := by
  unfold Plugin.persist
  split <;> rfl

@[simp] theorem persist_processes (p : Plugin) (w : Write) :
    (p.persist w).processes = p.processes := by
  unfold Plugin.persist
  split <;> rfl

@[simp] theorem persist_overlap (p : Plugin) (w : Write) : (p.persist w).overlap = p.overlap := by
  unfold Plugin.persist
  split <;> rfl

section

variable (capable : String → Bool)

structure Point (w : Now) : Prop where
  state : ∀ st ∈ w.now.state, WellKept st
  disk : ∀ st ∈ w.now.disk, WellKept st
  moment : Moment capable w

structure Climbs (w t : Now) : Prop where
  revision : Rises w.now t.now
  records : Records w.now t.now
  point : Point capable t

structure Changes (w : Now) (p : Plugin) : Prop where
  revision : Rises w.now p
  records : Records w.now p
  state : ∀ st ∈ p.state, WellKept st
  disk : ∀ st ∈ p.disk, WellKept st
  kept : Kept capable p
  calm : Gentle w.asked → p.registered.isSome = true → ∀ st ∈ p.state, st.cleanupPending = false

variable {capable} {w t u : Now} {p : Plugin}

theorem Point.stay (h : Point capable w) (hnow : t.now = w.now) (ht : Moment capable t) :
    Climbs capable w t where
  revision := by rw [hnow]; exact .refl _
  records := by rw [hnow]; exact .refl _
  point := ⟨hnow ▸ h.state, hnow ▸ h.disk, ht⟩

theorem Point.keeps (h : Point capable w) (hkeeps : Keeps w.now t.now)
    (hasked : t.asked = w.asked) : Climbs capable w t where
  revision := .of_state hkeeps.state
  records := hkeeps.records
  point := ⟨hkeeps.state ▸ h.state, hkeeps.disk ▸ h.disk, h.moment.keeps hkeeps hasked⟩

theorem Changes.persist (h : Changes capable w p) (r : Write) :
    Changes capable w (p.persist r) where
  revision := by simpa [Rises] using h.revision
  records := h.records.persist r
  state := by simpa using h.state
  disk := by
    unfold Plugin.persist
    split
    · exact h.state
    · exact h.disk
  kept := h.kept.persist r
  calm := by simpa using h.calm

theorem Changes.climbs (h : Changes capable w p) (hnow : u.now = w.now)
    (hasked : u.asked = w.asked ++ l)
    (hidle : Gentle w.asked → Recovering u.asked → p.registered = none) (ht : t.now = p)
    (hasked' : t.asked = u.asked) : Climbs capable u t where
  revision := by rw [hnow, ht]; exact h.revision
  records := by rw [hnow, ht]; exact h.records
  point := by
    have hgentle : Gentle t.asked → Gentle w.asked := fun hg ↦ gentle_of_asked hasked (hasked' ▸ hg)
    refine ⟨ht ▸ h.state, ht ▸ h.disk, ht ▸ h.kept, fun hg hreg ↦ ?_, fun hg hrec ↦ ?_⟩
    · rw [Clear, ht]
      exact h.calm (hgentle hg) (ht ▸ hreg)
    · rw [ht]
      exact hidle (hgentle hg) (hasked' ▸ hrec)

end

def owed : Option PluginState → String
  | none => ""
  | some st => if st.cleanupPending then st.owes else st.desiredVersion

variable {f : List Process → List Process}

section

variable (capable : String → Bool)

/-- At most the process in `hand` is alive, no two were alive at once, and only processes of
one version wait for a cleanup. -/
structure Ledger (hand : Option Nat) (version : String) (w : Now) : Prop where
  alive : Orderly w.asked → ∀ i q, w.now.processes[i]? = some q → q.fate = .alive → hand = some i
  single : Orderly w.asked → w.now.overlap = false
  owed : Tidy capable w.asked → ∀ q ∈ w.now.processes, q.fate = .cleaned ∨ q.version = version

def Cleaned (w : Now) : Prop :=
  Tidy capable w.asked → ∀ q ∈ w.now.processes, q.fate = .cleaned

variable {capable} {hand : Option Nat} {version : String} {w t : Now}

structure Moved (f : List Process → List Process) (w t : Now) : Prop where
  processes : t.now.processes = f w.now.processes
  overlap : t.now.overlap = w.now.overlap
  asked : ∃ l, t.asked = w.asked ++ l

theorem Moved.orderly (h : Moved f w t) (ht : Orderly t.asked) : Orderly w.asked := by
  obtain ⟨l, hl⟩ := h.asked
  rw [hl] at ht
  exact ht.of_append

theorem Moved.tidy (h : Moved f w t) (ht : Tidy capable t.asked) : Tidy capable w.asked := by
  obtain ⟨l, hl⟩ := h.asked
  rw [hl] at ht
  exact ht.of_append

abbrev Told : Now → Now → Prop := Moved id

abbrev Left (i : Nat) : Now → Now → Prop := Moved fun l ↦ l.modify i Process.leave

abbrev CleanedUp (u : String) : Now → Now → Prop := Moved fun l ↦ l.map (Process.clean u)

theorem Moved.same (h : Told w t) : t.now.processes = w.now.processes := h.processes

theorem Ledger.told (h : Ledger capable hand version w) (ht : Told w t) :
    Ledger capable hand version t where
  alive := fun ho i q hq ↦ h.alive (ht.orderly ho) i q (ht.same ▸ hq)
  single := fun ho ↦ ht.overlap.trans (h.single (ht.orderly ho))
  owed := fun htidy q hq ↦ h.owed (ht.tidy htidy) q (ht.same ▸ hq)

theorem Cleaned.told (h : Cleaned capable w) (ht : Told w t) : Cleaned capable t :=
  fun htidy q hq ↦ h (ht.tidy htidy) q (ht.same ▸ hq)

theorem Ledger.of_cleaned (h : Ledger capable hand version w) (hc : Cleaned capable w)
    (version' : String) : Ledger capable hand version' w :=
  ⟨h.alive, h.single, fun htidy q hq ↦ .inl (hc htidy q hq)⟩

theorem fate_leave (q : Process) : q.leave.fate ≠ .alive := by
  unfold Process.leave
  split
  · exact nofun
  · assumption

theorem version_leave (q : Process) : q.leave.version = q.version := by
  unfold Process.leave
  split <;> rfl

theorem cleaned_leave {q : Process} (h : q.fate = .cleaned) : q.leave = q := by
  unfold Process.leave
  rw [if_neg (by simp [h])]

theorem getElem?_leave {l : List Process} {i j : Nat} {q : Process}
    (h : (l.modify i Process.leave)[j]? = some q) :
    ∃ q', l[j]? = some q' ∧ q.version = q'.version ∧
      (q.fate = .alive → q'.fate = .alive ∧ j ≠ i) ∧ (q'.fate = .cleaned → q.fate = .cleaned) := by
  rw [getElem?_modify] at h
  obtain ⟨q', hq', heq⟩ := Option.map_eq_some_iff.mp h
  refine ⟨q', hq', ?_⟩
  by_cases hij : i = j
  · rw [if_pos hij] at heq
    subst heq
    exact ⟨version_leave q', fun ha ↦ absurd ha (fate_leave q'),
      fun hc ↦ (cleaned_leave hc).symm ▸ hc⟩
  · rw [if_neg hij] at heq
    cases heq
    exact ⟨rfl, fun ha ↦ ⟨ha, fun heq ↦ hij heq.symm⟩, id⟩

theorem mem_leave {l : List Process} {i : Nat} {q : Process} (h : q ∈ l.modify i Process.leave) :
    ∃ q' ∈ l, q.version = q'.version ∧ (q'.fate = .cleaned → q.fate = .cleaned) := by
  obtain ⟨j, hj⟩ := mem_iff_getElem?.mp h
  obtain ⟨q', hq', hversion, -, hcleaned⟩ := getElem?_leave hj
  exact ⟨q', mem_of_getElem? hq', hversion, hcleaned⟩

theorem Ledger.left {i : Nat} (h : Ledger capable hand version w) (ht : Left i w t) :
    Ledger capable hand version t where
  alive := fun ho j q hq ha ↦ by
    rw [ht.processes] at hq
    obtain ⟨q', hq', -, halive, -⟩ := getElem?_leave hq
    exact h.alive (ht.orderly ho) j q' hq' (halive ha).1
  single := fun ho ↦ ht.overlap.trans (h.single (ht.orderly ho))
  owed := fun htidy q hq ↦ by
    rw [ht.processes] at hq
    obtain ⟨q', hq', hversion, hcleaned⟩ := mem_leave hq
    exact (h.owed (ht.tidy htidy) q' hq').imp hcleaned hversion.trans

theorem Ledger.left_hand {i : Nat} (h : Ledger capable (some i) version w) (ht : Left i w t) :
    Ledger capable none version t where
  alive := fun ho j q hq ha ↦ by
    rw [ht.processes] at hq
    obtain ⟨q', hq', -, halive, -⟩ := getElem?_leave hq
    obtain ⟨ha', hne⟩ := halive ha
    exact absurd (Option.some.inj (h.alive (ht.orderly ho) j q' hq' ha')).symm hne
  single := (h.left ht).single
  owed := (h.left ht).owed

theorem Cleaned.left {i : Nat} (h : Cleaned capable w) (ht : Left i w t) : Cleaned capable t := by
  intro htidy q hq
  rw [ht.processes] at hq
  obtain ⟨q', hq', -, hcleaned⟩ := mem_leave hq
  exact hcleaned (h (ht.tidy htidy) q' hq')

theorem clean_cases (u : String) (q : Process) :
    (q.clean u).version = q.version ∧ ((q.clean u).fate = .alive ↔ q.fate = .alive) ∧
      (q.fate = .cleaned → (q.clean u).fate = .cleaned) ∧
      (q.version = u → q.fate ≠ .alive → (q.clean u).fate = .cleaned) := by
  unfold Process.clean
  split
  · next h => simp [h.2]
  next h =>
  refine ⟨rfl, Iff.rfl, id, fun hversion halive ↦ ?_⟩
  cases hfate : q.fate with
  | alive => exact absurd hfate halive
  | gone => exact absurd ⟨hversion, hfate⟩ h
  | cleaned => rfl

theorem Ledger.cleanedUp {u : String} (h : Ledger capable hand version w)
    (ht : CleanedUp u w t) : Ledger capable hand version t where
  alive := fun ho j q hq ha ↦ by
    rw [ht.processes, getElem?_map] at hq
    obtain ⟨q', hq', rfl⟩ := Option.map_eq_some_iff.mp hq
    exact h.alive (ht.orderly ho) j q' hq' ((clean_cases u q').2.1.mp ha)
  single := fun ho ↦ ht.overlap.trans (h.single (ht.orderly ho))
  owed := fun htidy q hq ↦ by
    rw [ht.processes] at hq
    obtain ⟨q', hq', rfl⟩ := mem_map.mp hq
    obtain ⟨hversion, -, hcleaned, -⟩ := clean_cases u q'
    exact (h.owed (ht.tidy htidy) q' hq').imp hcleaned hversion.trans

theorem Cleaned.cleanedUp {u : String} (h : Cleaned capable w) (ht : CleanedUp u w t) :
    Cleaned capable t := by
  intro htidy q hq
  rw [ht.processes] at hq
  obtain ⟨q', hq', rfl⟩ := mem_map.mp hq
  exact (clean_cases u q').2.2.1 (h (ht.tidy htidy) q' hq')

theorem Ledger.launch {v : String} (h : Ledger capable none v w)
    (hv : v = version ∨ Cleaned capable w)
    (hprocesses : t.now.processes = (w.now.launch version).processes)
    (hoverlap : t.now.overlap = (w.now.launch version).overlap) (hasked : t.asked = w.asked) :
    Ledger capable (some w.now.processes.length) version t where
  alive := by
    intro ho j q hq ha
    rw [hprocesses] at hq
    simp only [Plugin.launch, getElem?_append] at hq
    split at hq
    · exact absurd (h.alive (hasked ▸ ho) j q hq ha) (by simp)
    next hge =>
    obtain ⟨hlt, -⟩ := List.getElem?_eq_some_iff.mp hq
    simp only [length_singleton] at hlt
    rw [show j = w.now.processes.length by omega]
  single := by
    intro ho
    rw [hasked] at ho
    have hnone : (w.now.processes.any fun q ↦ q.fate = .alive) = false := by
      refine any_eq_false.mpr fun q hq ha ↦ ?_
      obtain ⟨j, hj⟩ := mem_iff_getElem?.mp hq
      cases h.alive ho j q hj (of_decide_eq_true ha)
    rw [hoverlap]
    simp only [Plugin.launch, h.single ho, hnone, Bool.or_self]
  owed := by
    intro htidy q hq
    rw [hasked] at htidy
    rw [hprocesses] at hq
    rcases mem_append.mp hq with hold | hnew
    · rcases hv with rfl | hc
      · exact h.owed htidy q hold
      · exact .inl (hc htidy q hold)
    · exact .inr (by rw [mem_singleton.mp hnew])

end

end AnixAgent.Plugins.Upkeep
