import AnixAgent.Controller.Reloads

namespace AnixAgent.Controller.Starts

open Lib.Runs Reloads

variable {ν : Type} (c : Setup ν)

def tagOf (node : ν) : String := c.name.getD (c.buildNodeTag node)

/-- The first start of a node. Its log hook is added first, and it tries to add the node once. -/
def startWith (s : State ν) (node : ν) (tries : Tries) : State ν × Bool :=
  let tag := tagOf c node
  let s := { s with tag := tag, hooks := s.hooks ++ [tag] }
  if tries.rules = false then (s, false)
  else if c.tls node = true ∧ tries.cert = false then (s, false)
  else if addNode c.refuses s.running tag (tries.adds.head?.getD .refused) ≠ .ok then (s, false)
  else
    let s := { s with running := s.running.insert tag, nodeAdded := true }
    if tries.users = false then (s, false)
    else ({ s with info := some node, started := true }, true)

/-- A configuration for the controller: its entry of the snapshot, if that can be read, whether the
stream has delivered users, and the answers of the steps. -/
structure Snapshot (ν : Type) where
  node : Option ν
  hasUsers : Bool
  delFails : Bool
  tries : Tries
  restore : Tries

def applySnapshot [DecidableEq ν] (s : State ν) (snapshot : Snapshot ν) : State ν × Bool :=
  match snapshot.node with
  | none => (s, false)
  | some node =>
    if s.started = false then
      if snapshot.hasUsers = false then (s, false) else startWith c s node snapshot.tries
    else if s.nodeAdded = true ∧ s.info = some node then (s, true)
    else replaceNodeLocked c s node snapshot.delFails snapshot.tries snapshot.restore

def failure [DecidableEq ν] (s : State ν) (snapshot : Snapshot ν) : Option (State ν) :=
  let (s, ok) := applySnapshot c s snapshot
  if ok then none else some s

def fresh : State ν := ⟨none, "", false, false, [], []⟩

/-- The configuration comes to a start, which adds a log hook. -/
def reaches (snapshot : Snapshot ν) : Bool := snapshot.node.isSome && snapshot.hasUsers

/-- The steps of a start up to the core's answer, on a core without the node. -/
def Addable (node : ν) (tries : Tries) : Prop :=
  tries.rules = true ∧ (c.tls node = true → tries.cert = true) ∧ tries.adds.head? = some .ok

/-- Every step of the configuration would succeed on a core without the node. -/
def Startable (snapshot : Snapshot ν) (node : ν) : Prop :=
  snapshot.node = some node ∧ snapshot.hasUsers = true ∧ Addable c node snapshot.tries ∧
    snapshot.tries.users = true

/-- The start of a node with the tag fails with the users: the node is in the core then. -/
def Abandons (tag : String) (snapshot : Snapshot ν) : Prop :=
  ∃ node, snapshot.node = some node ∧ snapshot.hasUsers = true ∧ tagOf c node = tag ∧
    Addable c node snapshot.tries ∧ snapshot.tries.users = false

variable {c} {s t : State ν} {snapshot : Snapshot ν} {node : ν} {tries : Tries} {tag : String}

theorem addNode_eq_ok_iff {refuses : Bool} {running : List String} {adds : List AddResult} :
    addNode refuses running tag (adds.head?.getD .refused) = .ok ↔
      adds.head? = some .ok ∧ ¬ (refuses ∧ tag ∈ running) := by
  unfold addNode
  split
  · next h => simp [h]
  · next h => cases adds.head? <;> simp [h]

theorem startWith_of_not_added
    (h : ¬ (Addable c node tries ∧ ¬ (c.refuses ∧ tagOf c node ∈ s.running))) :
    startWith c s node tries =
      ({ s with tag := tagOf c node, hooks := s.hooks ++ [tagOf c node] }, false) := by
  unfold startWith
  dsimp only
  split
  · rfl
  split
  · rfl
  split
  · rfl
  next hrules hcert hadd =>
    obtain ⟨hok, hfree⟩ := addNode_eq_ok_iff.mp (not_not.mp hadd)
    refine absurd ⟨⟨by simpa using hrules, fun htls ↦ ?_, hok⟩, hfree⟩ h
    by_contra hnot
    exact hcert ⟨htls, by simpa using hnot⟩

theorem startWith_of_added (h : Addable c node tries)
    (hfree : ¬ (c.refuses ∧ tagOf c node ∈ s.running)) :
    startWith c s node tries =
      let s := { s with
        tag := tagOf c node
        hooks := s.hooks ++ [tagOf c node]
        running := s.running.insert (tagOf c node)
        nodeAdded := true }
      if tries.users = false then (s, false)
      else ({ s with info := some node, started := true }, true) := by
  obtain ⟨hrules, hcert, hadd⟩ := h
  have hcert' : ¬ (c.tls node ∧ tries.cert = false) :=
    fun h ↦ Bool.noConfusion (h.2.symm.trans (hcert h.1))
  have hok := addNode_eq_ok_iff.mpr ⟨hadd, hfree⟩
  unfold startWith
  dsimp only
  rw [if_neg (by simp [hrules]), if_neg hcert', if_neg (not_not.mpr hok)]

theorem failure_leaves [DecidableEq ν] (tag : String) (hs : s.started = false)
    (h : failure c s snapshot = some t) :
    t.started = false ∧ (tag ∈ t.running ↔ tag ∈ s.running ∨ Abandons c tag snapshot) ∧
      t.hooks.length = s.hooks.length + if reaches snapshot then 1 else 0 := by
  have hkept (hreaches : reaches snapshot = false) (ht : t = s) :
      t.started = false ∧ (tag ∈ t.running ↔ tag ∈ s.running ∨ Abandons c tag snapshot) ∧
        t.hooks.length = s.hooks.length + if reaches snapshot then 1 else 0 := by
    have hnot : ¬ Abandons c tag snapshot := by
      rintro ⟨node, hnode, husers, -⟩
      simp [reaches, hnode, husers] at hreaches
    subst ht
    simp [hs, hnot, hreaches]
  cases hnode : snapshot.node with
  | none =>
    refine hkept (by simp [reaches, hnode]) ?_
    simpa [failure, applySnapshot, hnode] using h.symm
  | some node =>
    cases husers : snapshot.hasUsers with
    | false =>
      refine hkept (by simp [reaches, husers]) ?_
      simpa [failure, applySnapshot, hnode, hs, husers] using h.symm
    | true =>
      have hreaches : reaches snapshot := by simp [reaches, hnode, husers]
      have habandons : Abandons c tag snapshot ↔ tagOf c node = tag ∧
          Addable c node snapshot.tries ∧ snapshot.tries.users = false := by
        simp [Abandons, hnode, husers]
      have hstart : (startWith c s node snapshot.tries).2 = false ∧
          (startWith c s node snapshot.tries).1 = t := by
        simpa [failure, applySnapshot, hnode, hs, husers] using h
      rw [habandons, if_pos hreaches]
      by_cases hadded : Addable c node snapshot.tries ∧ ¬ (c.refuses ∧ tagOf c node ∈ s.running)
      · rw [startWith_of_added hadded.1 hadded.2] at hstart
        cases hfails : snapshot.tries.users with
        | false =>
          obtain rfl := by simpa [hfails] using hstart
          simp [hs, hadded.1, or_comm, eq_comm]
        | true => simp [hfails] at hstart
      · rw [startWith_of_not_added hadded] at hstart
        obtain ⟨-, rfl⟩ := hstart
        refine ⟨hs, ⟨.inl, ?_⟩, by simp⟩
        rintro (hmem | ⟨rfl, haddable, -⟩)
        · exact hmem
        · by_contra hnot
          exact hadded ⟨haddable, fun h ↦ hnot h.2⟩

theorem failures_leave [DecidableEq ν] (tag : String) {snapshots : List (Snapshot ν)}
    (hs : s.started = false) (h : exec (failure c) s snapshots = some t) :
    t.started = false ∧
      (tag ∈ t.running ↔ tag ∈ s.running ∨ ∃ snapshot ∈ snapshots, Abandons c tag snapshot) ∧
      t.hooks.length = s.hooks.length + snapshots.countP reaches := by
  induction snapshots generalizing s with
  | nil =>
    cases h
    simp [hs]
  | cons snapshot snapshots ih =>
    obtain ⟨u, hu, hrest⟩ := Option.bind_eq_some_iff.mp h
    obtain ⟨hstarted, hrunning, hhooks⟩ := failure_leaves tag hs hu
    obtain ⟨hstarted', hrunning', hhooks'⟩ := ih hstarted hrest
    refine ⟨hstarted', ?_, ?_⟩
    · simp [hrunning', hrunning, or_assoc]
    · rw [hhooks', hhooks, List.countP_cons]
      omega

/-- After failed configurations, one that would succeed on a core without the node starts it
exactly where no start with its tag failed with the users, and its log hook is the only one
exactly where none of them came to a start. -/
theorem start_after_failures [DecidableEq ν] (c : Setup ν) (hc : c.refuses = true)
    (snapshots : List (Snapshot ν)) (s : State ν) (h : exec (failure c) fresh snapshots = some s)
    (snapshot : Snapshot ν) (node : ν) (hnode : Startable c snapshot node) :
    (((applySnapshot c s snapshot).2 = true ∧ (applySnapshot c s snapshot).1.started = true ∧
        tagOf c node ∈ (applySnapshot c s snapshot).1.running) ↔
      ∀ failed ∈ snapshots, ¬ Abandons c (tagOf c node) failed) ∧
    ((applySnapshot c s snapshot).1.hooks.length = 1 ↔
      ∀ failed ∈ snapshots, reaches failed = false) := by
  obtain ⟨hstarted, hrunning, hhooks⟩ := failures_leave (tagOf c node) rfl h
  obtain ⟨hsome, husers, haddable, hready⟩ := hnode
  have happly : applySnapshot c s snapshot = startWith c s node snapshot.tries := by
    simp [applySnapshot, hsome, hstarted, husers]
  have hnone : (∀ failed ∈ snapshots, ¬ Abandons c (tagOf c node) failed) ↔
      tagOf c node ∉ s.running := by
    simp [hrunning, fresh]
  have hcount : (∀ failed ∈ snapshots, reaches failed = false) ↔ s.hooks.length = 0 := by
    simp [hhooks, fresh, List.countP_eq_zero]
  rw [happly, hnone, hcount]
  by_cases hruns : tagOf c node ∈ s.running
  · rw [startWith_of_not_added fun h ↦ h.2 ⟨hc, hruns⟩]
    simp [hruns]
  · rw [startWith_of_added haddable fun h ↦ hruns h.2]
    simp [hready, hruns]

def arriving (tries : Tries) : Snapshot String := ⟨some "a", true, false, tries, successful⟩

/-- A document that cannot be read and one that comes before the users. -/
theorem start_after_failures_unread :
    (applySnapshot plain fresh (arriving successful)).2 = true ∧
      (applySnapshot plain fresh (arriving successful)).1.hooks.length = 1 := by
  have h := start_after_failures plain rfl
    [⟨none, true, false, successful, successful⟩, ⟨some "a", false, false, successful, successful⟩]
    fresh rfl (arriving successful) "a"
    ⟨rfl, rfl, ⟨rfl, fun _ ↦ rfl, rfl⟩, rfl⟩
  have hunread : ∀ failed ∈ [⟨none, true, false, successful, successful⟩,
      (⟨some "a", false, false, successful, successful⟩ : Snapshot String)],
      reaches failed = false := by
    simp [reaches]
  refine ⟨(h.1.mpr fun failed hmem ↦ ?_).1, h.2.mpr hunread⟩
  rintro ⟨node, hnode, husers, -⟩
  simpa [reaches, hnode, husers] using hunread failed hmem

/-- After a start that failed with its users the core refuses the node; after one whose node the
core refused the controller has two log hooks. -/
theorem start_after_failures_left :
    (∃ s, exec (failure plain) fresh [arriving { successful with users := false }] = some s ∧
      (applySnapshot plain s (arriving successful)).2 = false) ∧
    ∃ s, exec (failure plain) fresh [arriving { successful with adds := [.refused] }] = some s ∧
      (applySnapshot plain s (arriving successful)).2 = true ∧
      (applySnapshot plain s (arriving successful)).1.hooks = ["a", "a"] :=
  ⟨⟨_, rfl, by decide⟩, ⟨_, rfl, by decide⟩⟩

end AnixAgent.Controller.Starts
