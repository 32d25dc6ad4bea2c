import AnixAgent.Lib.Runs

namespace AnixAgent.Controller.Reloads

open Lib.Runs List

inductive AddResult
  | ok
  | addressInUse
  | refused
  deriving DecidableEq

inductive DelResult
  | ok
  | notFound
  | failed
  deriving DecidableEq

/-- The answers of the steps of a start. `adds` are those of the core to the attempts to add the
node, and `delFails` is for the node that is removed again. -/
structure Tries where
  rules : Bool
  cert : Bool
  adds : List AddResult
  users : Bool
  delFails : Bool
  deriving DecidableEq

/-- A node is removed unless the call fails; for a tag that does not run the answer says so. -/
def delNode (running : List String) (tag : String) (fails : Bool) : List String × DelResult :=
  if fails then (running, .failed)
  else if tag ∈ running then (running.erase tag, .ok) else (running, .notFound)

/-- A core that `refuses` does not add a tag that it runs. -/
def addNode (refuses : Bool) (running : List String) (tag : String) (answer : AddResult) :
    AddResult :=
  if refuses = true ∧ tag ∈ running then .refused else answer

def addCoreNode (refuses : Bool) (running : List String) (tag : String) :
    Nat → List AddResult → Bool
  | _, [] => false
  | 0, answer :: _ => addNode refuses running tag answer = .ok
  | delays + 1, answer :: answers =>
    match addNode refuses running tag answer with
    | .ok => true
    | .refused => false
    | .addressInUse => addCoreNode refuses running tag delays answers

def nodeAddRetryDelays : Nat := 3

variable {ν : Type}

/-- What a controller is made with: the core's way with tags that it runs, the name of the options
with the suffix of the protocol, the tag of a configuration, and whether it needs a certificate. -/
structure Setup (ν : Type) where
  refuses : Bool
  name : Option String
  buildNodeTag : ν → String
  tls : ν → Bool

/-- A controller with the tags of it that the core runs and the tags of its active log hooks. -/
structure State (ν : Type) where
  info : Option ν
  tag : String
  nodeAdded : Bool
  started : Bool
  running : List String
  hooks : List String
  deriving DecidableEq

variable (c : Setup ν)

def startNodeLocked (s : State ν) (info : ν) (tries : Tries) : State ν × Bool :=
  let s := if c.name = none then { s with tag := c.buildNodeTag info } else s
  if tries.rules = false then (s, false)
  else if c.tls info = true ∧ tries.cert = false then (s, false)
  else if addCoreNode c.refuses s.running s.tag nodeAddRetryDelays tries.adds = false then
    (s, false)
  else
    let s := { s with running := s.running.insert s.tag }
    if tries.users then ({ s with nodeAdded := true }, true)
    else
      match delNode s.running s.tag tries.delFails with
      | (running, .failed) => ({ s with running := running, nodeAdded := true }, false)
      | (running, _) => ({ s with running := running }, false)

/-- `delFails` is for the node that runs, `tries` for the new one and `restore` for the previous
one. -/
def replaceNodeLocked (s : State ν) (newN : ν) (delFails : Bool) (tries restore : Tries) :
    State ν × Bool :=
  let oldInfo := s.info
  let (running, answer) := delNode s.running s.tag delFails
  if s.nodeAdded = true ∧ answer = .failed then (s, false)
  else
    let s := if s.nodeAdded then { s with nodeAdded := false, running := running } else s
    let (s, ok) := startNodeLocked c s newN tries
    if ok then ({ s with info := some newN }, true)
    else
      match oldInfo with
      | none => (s, false)
      | some oldInfo =>
        let (s, restored) := startNodeLocked c s oldInfo restore
        (if restored then { s with info := some oldInfo } else s, false)

variable {c} {s t : State ν} {info newN : ν} {tries restore : Tries} {delFails : Bool}

def Consistent (s : State ν) : Prop := s.running = if s.nodeAdded then [s.tag] else []

def retagged (c : Setup ν) (s : State ν) (info : ν) : State ν :=
  if c.name = none then { s with tag := c.buildNodeTag info } else s

/-- On a core that runs `running` the node is added under `tag`. -/
def Accepted (c : Setup ν) (running : List String) (tag : String) (info : ν) (tries : Tries) :
    Prop :=
  tries.rules = true ∧ (c.tls info = true → tries.cert = true) ∧
    addCoreNode c.refuses running tag nodeAddRetryDelays tries.adds = true

def Undone (c : Setup ν) (running : List String) (tag : String) (info : ν) (tries : Tries) : Prop :=
  Accepted c running tag info tries ∧ tries.users = false ∧ tries.delFails = false

def Left (c : Setup ν) (running : List String) (tag : String) (info : ν) (tries : Tries) : Prop :=
  Accepted c running tag info tries ∧ tries.users = false ∧ tries.delFails = true

theorem retagged_frame (c : Setup ν) (s : State ν) (info : ν) :
    (retagged c s info).running = s.running ∧ (retagged c s info).nodeAdded = s.nodeAdded ∧
      (retagged c s info).info = s.info := by
  unfold retagged
  split <;> exact ⟨rfl, rfl, rfl⟩

inductive Starts (c : Setup ν) (s : State ν) (info : ν) (tries : Tries) : State ν × Bool → Prop
  | early : ¬ Accepted c s.running (retagged c s info).tag info tries → Starts c s info tries (retagged c s info, false)
  | starts : Accepted c s.running (retagged c s info).tag info tries → tries.users = true →
      Starts c s info tries ({ retagged c s info with
        running := s.running.insert (retagged c s info).tag
        nodeAdded := true }, true)
  | undone : Undone c s.running (retagged c s info).tag info tries →
      Starts c s info tries ({ retagged c s info with
        running := (s.running.insert (retagged c s info).tag).erase (retagged c s info).tag },
        false)
  | left : Left c s.running (retagged c s info).tag info tries →
      Starts c s info tries ({ retagged c s info with
        running := s.running.insert (retagged c s info).tag
        nodeAdded := true }, false)

theorem startNodeLocked_starts (c : Setup ν) (s : State ν) (info : ν) (tries : Tries) :
    Starts c s info tries (startNodeLocked c s info tries) := by
  have hrunning := (retagged_frame c s info).1
  have hretagged : (if c.name = none then { s with tag := c.buildNodeTag info } else s) =
      retagged c s info := rfl
  simp only [startNodeLocked, hretagged]
  rw [hrunning]
  split
  · next hrules => exact .early fun haccepted ↦ Bool.noConfusion (hrules.symm.trans haccepted.1)
  next hrules =>
  split
  · next hcert =>
    exact .early fun haccepted ↦ Bool.noConfusion (hcert.2.symm.trans (haccepted.2.1 hcert.1))
  next hcert =>
  split
  · next hadd =>
    exact .early fun haccepted ↦ Bool.noConfusion (hadd.symm.trans haccepted.2.2)
  next hadd =>
  have haccepted : Accepted c s.running (retagged c s info).tag info tries := by
    refine ⟨by simpa using hrules, fun htls ↦ ?_, by simpa using hadd⟩
    by_contra hnot
    exact hcert ⟨htls, by simpa using hnot⟩
  split
  · next husers => exact .starts haccepted husers
  next husers =>
  have hfailed : tries.users = false := by simpa using husers
  unfold delNode
  cases hdel : tries.delFails with
  | true => exact .left ⟨haccepted, hfailed, hdel⟩
  | false =>
    have hmem : (retagged c s info).tag ∈ s.running.insert (retagged c s info).tag :=
      mem_insert_self
    simp only [Bool.false_eq_true, if_false, if_pos hmem]
    exact .undone ⟨haccepted, hfailed, hdel⟩

theorem insert_eq_singleton_iff {a tag : String} : [a].insert tag = [tag] ↔ tag = a := by
  constructor
  · intro h
    by_contra hne
    rw [insert_of_not_mem (by simpa using hne)] at h
    cases h
  · rintro rfl
    exact insert_of_mem (mem_singleton.mpr rfl)

theorem erase_insert_ne_singleton {a tag : String} : ([a].insert tag).erase tag ≠ [tag] := by
  by_cases h : tag = a
  · subst h
    simp
  · rw [insert_of_not_mem (by simpa using h), erase_cons_head]
    simpa using Ne.symm h

/-- On a core without nodes of the controller a start leaves a consistent state; unless the node
cannot be removed, a start that fails leaves nothing. -/
theorem startNodeLocked_empty (c : Setup ν) (info : ν) (tries : Tries) (hrunning : s.running = [])
    (hadded : s.nodeAdded = false) :
    Consistent (startNodeLocked c s info tries).1 ∧
      ((startNodeLocked c s info tries).2 = false → ¬ Left c [] (retagged c s info).tag info tries →
        (startNodeLocked c s info tries).1.running = [] ∧
          (startNodeLocked c s info tries).1.nodeAdded = false) := by
  obtain ⟨hrunning', hadded', -⟩ := retagged_frame c s info
  rw [hrunning] at hrunning'
  rw [hadded] at hadded'
  have hstarts := startNodeLocked_starts c s info tries
  generalize startNodeLocked c s info tries = r at hstarts ⊢
  cases hstarts with
  | early _ =>
    refine ⟨?_, fun _ _ ↦ ⟨hrunning', hadded'⟩⟩
    show (retagged c s info).running = _
    rw [hrunning', hadded']
    rfl
  | starts _ _ =>
    refine ⟨?_, nofun⟩
    simp [Consistent, hrunning]
  | undone _ =>
    refine ⟨?_, fun _ _ ↦ ⟨?_, hadded'⟩⟩
    · simp [Consistent, hrunning, hadded']
    · simp [hrunning]
  | left h =>
    refine ⟨?_, fun _ hnot ↦ absurd (hrunning ▸ h) hnot⟩
    simp [Consistent, hrunning]

theorem startNodeLocked_running {a : String} (c : Setup ν) (info : ν) (tries : Tries)
    (hrunning : s.running = [a]) (hadded : s.nodeAdded) :
    Consistent (startNodeLocked c s info tries).1 ↔
      (retagged c s info).tag = a ∧ ¬ Undone c [a] (retagged c s info).tag info tries := by
  obtain ⟨hrunning', hadded', -⟩ := retagged_frame c s info
  rw [hrunning] at hrunning'
  rw [hadded] at hadded'
  have hstarts := startNodeLocked_starts c s info tries
  generalize startNodeLocked c s info tries = r at hstarts ⊢
  cases hstarts with
  | early hnot =>
    have hundone : ¬ Undone c [a] (retagged c s info).tag info tries :=
      fun h ↦ hnot (hrunning ▸ h.1)
    simp [Consistent, hrunning', hadded', hundone, eq_comm]
  | starts _ husers =>
    have hundone : ¬ Undone c [a] (retagged c s info).tag info tries :=
      fun h ↦ Bool.noConfusion (husers.symm.trans h.2.1)
    simp only [Consistent, hrunning, if_true, insert_eq_singleton_iff, hundone, not_false_eq_true,
      and_true]
  | undone hundone =>
    rw [hrunning] at hundone
    simp only [Consistent, hrunning, hadded', if_true, erase_insert_ne_singleton, hundone,
      not_true_eq_false, and_false]
  | left hleft =>
    have hundone : ¬ Undone c [a] (retagged c s info).tag info tries :=
      fun h ↦ Bool.noConfusion (hleft.2.2.symm.trans h.2.2)
    simp only [Consistent, hrunning, if_true, insert_eq_singleton_iff, hundone, not_false_eq_true,
      and_true]

theorem Left.running (h : Left c [] (retagged c s info).tag info tries)
    (hrunning : s.running = []) :
    (startNodeLocked c s info tries).1.running = [(retagged c s info).tag] ∧
      (startNodeLocked c s info tries).1.nodeAdded ∧
      (startNodeLocked c s info tries).1.tag = (retagged c s info).tag ∧
      (startNodeLocked c s info tries).2 = false := by
  have hstarts := startNodeLocked_starts c s info tries
  generalize startNodeLocked c s info tries = r at hstarts ⊢
  cases hstarts with
  | early hnot => exact absurd (hrunning ▸ h.1) hnot
  | starts _ husers => exact absurd (husers.symm.trans h.2.1) (by decide)
  | undone hundone => exact absurd (h.2.2.symm.trans hundone.2.2) (by decide)
  | left _ => exact ⟨by simp [hrunning], rfl, rfl, rfl⟩

def emptied (s : State ν) : State ν := { s with nodeAdded := false, running := [] }

/-- The reload does not meet a node that it cannot remove. -/
def Removable (c : Setup ν) (s : State ν) (newN : ν) (delFails : Bool) (tries restore : Tries) :
    Prop :=
  let tag := (retagged c s newN).tag
  (s.nodeAdded = true ∧ delFails = true) ∨ ¬ Left c [] tag newN tries ∨
    ∀ oldInfo, s.info = some oldInfo →
      (retagged c s oldInfo).tag = tag ∧ ¬ Undone c [tag] (retagged c s oldInfo).tag oldInfo restore

def renew (c : Setup ν) (s : State ν) (newN : ν) (tries restore : Tries) : State ν × Bool :=
  let r := startNodeLocked c s newN tries
  if r.2 then ({ r.1 with info := some newN }, true)
  else
    match s.info with
    | none => (r.1, false)
    | some oldInfo =>
      let r := startNodeLocked c r.1 oldInfo restore
      (if r.2 then { r.1 with info := some oldInfo } else r.1, false)

theorem replaceNodeLocked_eq (hs : Consistent s) :
    replaceNodeLocked c s newN delFails tries restore =
      if s.nodeAdded ∧ delFails = true then (s, false)
      else renew c (emptied s) newN tries restore := by
  obtain ⟨info, tag, nodeAdded, started, running, hooks⟩ := s
  obtain rfl : running = if nodeAdded then [tag] else [] := hs
  cases nodeAdded <;> cases delFails <;> cases info <;>
    simp [replaceNodeLocked, delNode, emptied, renew] <;> rfl

theorem startNodeLocked_info (c : Setup ν) (s : State ν) (info : ν) (tries : Tries) :
    (startNodeLocked c s info tries).1.info = s.info ∧
      (c.name ≠ none → (startNodeLocked c s info tries).1.tag = s.tag) := by
  have hinfo := (retagged_frame c s info).2.2
  have htag (hname : c.name ≠ none) : (retagged c s info).tag = s.tag := by
    rw [retagged, if_neg hname]
  have hstarts := startNodeLocked_starts c s info tries
  generalize startNodeLocked c s info tries = r at hstarts ⊢
  cases hstarts <;> exact ⟨hinfo, htag⟩

theorem retagged_startNodeLocked (c : Setup ν) (s : State ν) (info newN : ν) (tries : Tries) :
    (retagged c (startNodeLocked c s newN tries).1 info).tag = (retagged c s info).tag := by
  unfold retagged
  split
  · rfl
  · next hname => exact (startNodeLocked_info c s newN tries).2 hname

theorem retagged_emptied (c : Setup ν) (s : State ν) (info : ν) :
    (retagged c (emptied s) info).tag = (retagged c s info).tag := by
  unfold retagged
  split <;> rfl

theorem renew_consistent (hrunning : s.running = []) (hadded : s.nodeAdded = false) :
    Consistent (renew c s newN tries restore).1 ↔ ¬ Left c [] (retagged c s newN).tag newN tries ∨
      ∀ oldInfo, s.info = some oldInfo → (retagged c s oldInfo).tag = (retagged c s newN).tag ∧
        ¬ Undone c [(retagged c s newN).tag] (retagged c s oldInfo).tag oldInfo restore := by
  obtain ⟨hnew, hfailed⟩ := startNodeLocked_empty c newN tries hrunning hadded
  unfold renew
  by_cases hleft : Left c [] (retagged c s newN).tag newN tries
  · obtain ⟨hleftRunning, hleftAdded, -, hleftFailed⟩ := hleft.running hrunning
    cases hinfo : s.info with
    | none => simpa [hleftFailed, hleft, Consistent] using hnew
    | some oldInfo =>
      have hrestore := startNodeLocked_running c oldInfo restore hleftRunning hleftAdded
      rw [retagged_startNodeLocked] at hrestore
      simp only [hleftFailed, Bool.false_eq_true, if_false, hleft, not_true_eq_false, false_or,
        Option.some.injEq, forall_eq']
      rw [← hrestore]
      split <;> rfl
  · simp only [hleft, not_false_eq_true, true_or, iff_true]
    cases hok : (startNodeLocked c s newN tries).2 with
    | true => exact hnew
    | false =>
      obtain ⟨hempty, hnone⟩ := hfailed hok hleft
      cases hinfo : s.info with
      | none => exact hnew
      | some oldInfo =>
        have hrestore := (startNodeLocked_empty c oldInfo restore hempty hnone).1
        simp only [Bool.false_eq_true, if_false]
        split <;> exact hrestore

/-- The tags that the core runs are the controller's after a reload, as they were before it,
exactly where the reload does not meet a node that it cannot remove. -/
theorem replace_node_consistent (c : Setup ν) (s : State ν) (newN : ν) (delFails : Bool)
    (tries restore : Tries) (hs : Consistent s) :
    Consistent (replaceNodeLocked c s newN delFails tries restore).1 ↔
      Removable c s newN delFails tries restore := by
  rw [replaceNodeLocked_eq hs, Removable]
  split
  · next hkept => simp only [hkept, and_self, true_or, hs]
  next hkept =>
  rw [renew_consistent rfl rfl]
  simp only [hkept, false_or, retagged_emptied]
  rfl

instance : Decidable (Consistent s) := inferInstanceAs (Decidable (_ = _))

def plain : Setup String := ⟨true, none, id, fun _ ↦ false⟩

def serving : State String := ⟨some "a", "a", true, true, ["a"], ["a"]⟩

def successful : Tries := ⟨true, true, [.ok], true, false⟩

/-- The users of the new node fail, it is removed, and the previous one is put back. -/
theorem replace_node_consistent_restored :
    Consistent serving ∧ Consistent (replaceNodeLocked plain serving "b" false
      { successful with users := false } successful).1 :=
  ⟨by decide, (replace_node_consistent plain serving "b" false { successful with users := false }
    successful (by decide)).mpr (.inr (.inl fun h ↦ Bool.noConfusion h.2.2))⟩

/-- The new node cannot be removed: the core runs it and the previous one. -/
theorem replace_node_both_running :
    Consistent serving ∧ ¬ Consistent (replaceNodeLocked plain serving "b" false
      { successful with users := false, delFails := true } successful).1 := by
  decide

end AnixAgent.Controller.Reloads
