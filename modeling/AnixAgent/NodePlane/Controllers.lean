import AnixAgent.NodePlane.Machine

namespace AnixAgent.NodePlane.Controllers

open Machine Users.Machine Lib.Runs List
open Controller.UserSync (UserInfo Distinct Determined diffUuids named storeAll_deleteAll
  storeAll_of_mem storeAll_of_not_mem named_of_mem named_eq_none applyUserDiffLocked_cases)

variable {ν : Type}

def Serves (users : List UserInfo) (c : Controller ν) : Prop :=
  c.started = true → c.nodeAdded = true ∧ c.core = coreOf users ∧ c.userList = users

def Informed (c : Controller ν) : Prop := c.started = true → c.info.isSome = true

/-- A reload leaves a node up: the old one is not deleted, or the new one starts, or
the old one starts again. -/
def Restores (parts : ControllerParts) : Prop :=
  parts.deleted = false ∨ parts.replaced.isOk = true ∨ parts.restored.isOk = true

variable {c c' base : Controller ν} {set users : List UserInfo}

theorem serves_of_not_started (h : c.started = false) :
    Serves set c := fun hstarted ↦ nomatch h.symm.trans hstarted

variable {outcome : CoreOutcome} {parts : ControllerParts} {snapshot : Snapshot ν}

section Controllers

theorem startWith_started {node : ν} (hc : c.started = false) :
    Informed (startWith c node users outcome).1 ∧ Serves users (startWith c node users outcome).1 := by
  cases outcome with
  | ok => exact ⟨fun _ ↦ rfl, fun _ ↦ ⟨rfl, rfl, rfl⟩⟩
  | refused | usersFailed =>
    have hstopped (hstarted : c.started = true) : False :=
      Bool.false_ne_true (hc.symm.trans hstarted)
    exact ⟨fun hstarted ↦ (hstopped hstarted).elim, fun hstarted ↦ (hstopped hstarted).elim⟩

structure Unmoved (c c' : Controller ν) : Prop where
  nodeType : c'.nodeType = c.nodeType
  started : c'.started = c.started
  info : c.info.isSome = true → c'.info.isSome = true
  userList : c'.userList = c.userList

theorem Unmoved.refl (c : Controller ν) : Unmoved c c := ⟨rfl, rfl, id, rfl⟩

theorem startNodeLocked_unmoved (c : Controller ν) (outcome : CoreOutcome) :
    Unmoved c (startNodeLocked c outcome).1 := by
  cases outcome <;> exact ⟨rfl, rfl, id, rfl⟩

theorem Unmoved.trans {c'' : Controller ν} (h : Unmoved c c') (h' : Unmoved c' c'') :
    Unmoved c c'' :=
  ⟨h'.nodeType.trans h.nodeType, h'.started.trans h.started, h'.info ∘ h.info,
    h'.userList.trans h.userList⟩

theorem unmoved_emptied (c : Controller ν) :
    Unmoved c (if c.nodeAdded then { c with nodeAdded := false, core := coreOf [] } else c) := by
  split <;> exact ⟨rfl, rfl, id, rfl⟩

theorem replaceNodeLocked_unmoved (c : Controller ν) (node : ν) (parts : ControllerParts) :
    Unmoved c (replaceNodeLocked c node parts).1 := by
  unfold replaceNodeLocked
  have hemptied := unmoved_emptied c
  have hfirst := startNodeLocked_unmoved
    (if c.nodeAdded then { c with nodeAdded := false, core := coreOf [] } else c) parts.replaced
  split
  · exact .refl c
  dsimp only
  split
  · next hok =>
    rw [hok] at hfirst
    have h := hemptied.trans hfirst
    exact ⟨h.nodeType, h.started, fun _ ↦ rfl, h.userList⟩
  · next hfailed =>
    rw [hfailed] at hfirst
    have h := hemptied.trans hfirst
    split
    · exact h
    · exact h.trans (startNodeLocked_unmoved _ _)

theorem startNodeLocked_ok (c : Controller ν) :
    startNodeLocked c .ok = ({ c with nodeAdded := true, core := coreOf c.userList }, true) := rfl

theorem startNodeLocked_failed (h : startNodeLocked c outcome = (c', false)) :
    outcome.isOk = false := by
  cases outcome with
  | ok => cases h
  | refused | usersFailed => rfl

theorem CoreOutcome.eq_ok (h : outcome.isOk) : outcome = .ok := by
  cases outcome with
  | ok => rfl
  | refused | usersFailed => cases h

theorem replaceNodeLocked_up {node : ν}
    (hup : c.nodeAdded) (hinfo : c.info.isSome) (hparts : Restores parts) :
    (replaceNodeLocked c node parts).1.nodeAdded ∧
      ((replaceNodeLocked c node parts).1.core = c.core ∨
        (replaceNodeLocked c node parts).1.core = coreOf c.userList) := by
  unfold replaceNodeLocked
  rw [hup]
  split
  · exact ⟨hup, .inl rfl⟩
  next hdeleted =>
  dsimp only
  rw [if_pos rfl]
  split
  · next started hok =>
    cases hreplaced : parts.replaced with
    | ok =>
      rw [hreplaced, startNodeLocked_ok] at hok
      cases hok
      exact ⟨rfl, .inr rfl⟩
    | refused | usersFailed =>
      rw [hreplaced] at hok
      cases hok
  · next failed hfailed =>
    have hrestored : parts.restored = .ok := by
      rcases hparts with hkept | hok | hok
      · simp [hkept] at hdeleted
      · exact absurd hok (Bool.not_eq_true _ ▸ startNodeLocked_failed hfailed)
      · exact CoreOutcome.eq_ok hok
    have hlist : failed.userList = c.userList := by
      have h := startNodeLocked_unmoved { c with nodeAdded := false, core := coreOf [] } parts.replaced
      rw [hfailed] at h
      exact h.userList
    split
    · next hnone => simp [hnone] at hinfo
    · rw [hrestored, startNodeLocked_ok]
      exact ⟨rfl, .inr (congrArg coreOf hlist)⟩

variable [DecidableEq ν]

theorem reconcileLocked_unmoved (c : Controller ν) (node : ν) (parts : ControllerParts) :
    Unmoved c (reconcileLocked c node parts).1 := by
  unfold reconcileLocked
  split
  · exact .refl c
  · exact replaceNodeLocked_unmoved c node parts

theorem reconcileLocked_serves {node : ν} (hc : Serves set c) (hinfo : Informed c)
    (hparts : Restores parts) : Serves set (reconcileLocked c node parts).1 := by
  intro hstarted
  have hunmoved := reconcileLocked_unmoved c node parts
  have hbefore : c.started := hunmoved.started ▸ hstarted
  obtain ⟨hup, hcore, hlist⟩ := hc hbefore
  rw [hunmoved.userList]
  unfold reconcileLocked
  split
  · exact ⟨hup, hcore, hlist⟩
  have hreload : (replaceNodeLocked c node parts).1.nodeAdded ∧
      ((replaceNodeLocked c node parts).1.core = c.core ∨
        (replaceNodeLocked c node parts).1.core = coreOf c.userList) :=
    replaceNodeLocked_up hup (hinfo hbefore) hparts
  refine ⟨hreload.1, ?_, hlist⟩
  rcases hreload.2 with hsame | hfresh
  · rwa [hsame]
  · rw [hfresh, hlist]

theorem applySnapshot_unmoved (c : Controller ν) (snapshot : Snapshot ν)
    (users : Option (List UserInfo)) (parts : ControllerParts) :
    (applySnapshot c snapshot users parts).1.nodeType = c.nodeType ∧
      (Informed c → Informed (applySnapshot c snapshot users parts).1) := by
  unfold applySnapshot
  split
  · exact ⟨rfl, id⟩
  next node _ =>
  split
  · have h := reconcileLocked_unmoved c node parts
    exact ⟨h.nodeType, fun hc hstarted ↦ h.info (hc (h.started ▸ hstarted))⟩
  next hstarted =>
  split
  · exact ⟨rfl, id⟩
  · refine ⟨?_, fun _ ↦ (startWith_started (Bool.not_eq_true _ ▸ hstarted)).1⟩
    unfold startWith
    split <;> rfl

theorem applySnapshot_serves {users : Option (List UserInfo)} (hc : Serves set c) (hinfo : Informed c)
    (husers : ∀ l, users = some l → l = set) (hparts : Restores parts) :
    Serves set (applySnapshot c snapshot users parts).1 := by
  unfold applySnapshot
  split
  · exact hc
  split
  · exact reconcileLocked_serves hc hinfo hparts
  next hstarted =>
  split
  · exact hc
  · rw [husers _ rfl]
    exact (startWith_started (Bool.not_eq_true _ ▸ hstarted)).2

theorem applySnapshot_userList {users : Option (List UserInfo)} (hc : Serves set c)
    (husers : users = some set) (hbase : c.started ∨
      (nodeInfoFromSnapshot snapshot c.nodeType c.protocolID).isSome) :
    (applySnapshot c snapshot users parts).1.userList = set := by
  unfold applySnapshot
  split
  · next hnone =>
    rcases hbase with hstarted | hsome
    · exact (hc hstarted).2.2
    · simp [hnone] at hsome
  next node _ =>
  split
  · next hstarted =>
    rw [(reconcileLocked_unmoved c node parts).userList]
    exact (hc hstarted).2.2
  · subst husers
    cases parts.start <;> rfl

end Controllers

section Diffs

/-- The lists tell their users apart, and the core has the users of the controller's list
wherever the diff does not change it. -/
structure Covered (users : List UserInfo) (c : Controller ν) : Prop where
  distinct : Distinct c.userList
  distinct_new : Distinct users
  determined : Determined c.userList users
  core : ∀ uuid ∉ diffUuids c.userList users, c.core uuid = named c.userList uuid

theorem coreOf_apply (h : Distinct users) (uuid : String) : coreOf users uuid = named users uuid := by
  by_cases hmem : ∃ user ∈ users, user.uuid = uuid
  · obtain ⟨user, huser, rfl⟩ := hmem
    rw [named_of_mem h huser]
    exact storeAll_of_mem huser fun _ hv heq ↦ h.eq_of_uuid hv huser heq
  · have hnone : ∀ user ∈ users, user.uuid ≠ uuid := fun user huser heq ↦ hmem ⟨user, huser, heq⟩
    rw [named_eq_none hnone]
    exact storeAll_of_not_mem hnone

theorem applyStreamUsers_frame (c : Controller ν) (users : List UserInfo) (parts : DiffParts) :
    (applyStreamUsers c users parts).1.started = c.started ∧
      (applyStreamUsers c users parts).1.nodeAdded = c.nodeAdded ∧
      (applyStreamUsers c users parts).1.info = c.info := by
  unfold applyStreamUsers
  split <;> exact ⟨rfl, rfl, rfl⟩

theorem applyStreamUsers_serves {parts : DiffParts}
    (hc : c.started → c.nodeAdded ∧ Covered users c)
    (hok : (applyStreamUsers c users parts).2) :
    Serves users (applyStreamUsers c users parts).1 := by
  intro hstarted
  rw [(applyStreamUsers_frame c users parts).1] at hstarted
  obtain ⟨hup, hcovered⟩ := hc hstarted
  rw [(applyStreamUsers_frame c users parts).2.1]
  refine ⟨hup, ?_⟩
  unfold applyStreamUsers applyUserDiffLocked at hok ⊢
  rw [if_pos hstarted] at hok ⊢
  dsimp only at hok ⊢
  rcases applyUserDiffLocked_cases ⟨c.core, fun _ ↦ none, fun _ ↦ none, c.userList, []⟩ users
    parts.deleted parts.added with ⟨-, heq⟩ | ⟨hfailed, -⟩
  · rw [heq]
    refine ⟨funext fun uuid ↦ ?_, rfl⟩
    have hcore : uuid ∉ diffUuids c.userList users →
        c.core uuid = (named c.userList uuid).map id := by
      intro hdiff
      rw [hcovered.core uuid hdiff, Option.map_id_apply]
    have hnew := storeAll_deleteAll hcovered.determined hcovered.distinct hcovered.distinct_new hcore
    rw [Option.map_id_apply] at hnew
    exact hnew.trans (coreOf_apply hcovered.distinct_new uuid).symm
  · rw [hok] at hfailed
    cases hfailed

end Diffs

variable {apply : Nat → Controller ν → Controller ν × Bool} {cancelled : Nat → Bool}
  {controllers : List (Controller ν)} {P : Controller ν → Prop}

section Loops

theorem Result.also_eq_ok {r : Result} {ok : Bool} : r.also ok = .ok ↔ r = .ok ∧ ok := by
  cases r <;> cases ok <;> decide

theorem mem_eachController {i : Nat} (hc : c ∈ (eachController apply cancelled i controllers).1) :
    (∃ j < i + controllers.length, ∃ before ∈ controllers, c = (apply j before).1 ∧
        ((eachController apply cancelled i controllers).2 = .ok → (apply j before).2)) ∨
      c ∈ controllers ∧ (eachController apply cancelled i controllers).2 = .cancelled := by
  induction controllers generalizing i with
  | nil => cases hc
  | cons first rest ih =>
    unfold eachController at hc ⊢
    split at hc
    · next hstop =>
      rw [if_pos hstop]
      exact .inr ⟨hc, rfl⟩
    next hgo =>
    rw [if_neg hgo]
    dsimp only
    rcases mem_cons.mp hc with rfl | hrest
    · refine .inl ⟨i, ?_, first, mem_cons_self, rfl, fun h ↦ (Result.also_eq_ok.mp h).2⟩
      rw [length_cons]
      omega
    rcases ih hrest with ⟨j, hj, before, hbefore, heq, hok⟩ | ⟨hkept, hcancelled⟩
    · refine .inl ⟨j, ?_, before, mem_cons_of_mem _ hbefore, heq,
        fun h ↦ hok (Result.also_eq_ok.mp h).1⟩
      rw [length_cons]
      omega
    · rw [hcancelled]
      exact .inr ⟨mem_cons_of_mem _ hkept, rfl⟩

theorem eachController_forall {i : Nat} (h : ∀ c ∈ controllers, P c)
    (happly : ∀ j < i + controllers.length, ∀ c, P c → P (apply j c).1) :
    ∀ c ∈ (eachController apply cancelled i controllers).1, P c := by
  intro c hc
  rcases mem_eachController hc with ⟨j, hj, before, hbefore, rfl, -⟩ | ⟨hkept, -⟩
  · exact happly j hj before (h before hbefore)
  · exact h c hkept

theorem length_eachController (apply : Nat → Controller ν → Controller ν × Bool)
    (cancelled : Nat → Bool) (i : Nat) (controllers : List (Controller ν)) :
    (eachController apply cancelled i controllers).1.length = controllers.length := by
  induction controllers generalizing i with
  | nil => rfl
  | cons first rest ih =>
    unfold eachController
    split
    · rfl
    · exact congrArg (· + 1) (ih (i + 1))

theorem expandingController_each {n : Node ν}
    (apply : Nat → Controller ν → Controller ν × Bool) (cancelled : Nat → Bool)
    (htype : ∀ c, (apply 0 c).1.nodeType = c.nodeType)
    (hresult : (eachController apply cancelled 0 n.controllers).2 ≠ .cancelled)
    (hbase : expandingController
      { n with controllers := (eachController apply cancelled 0 n.controllers).1 } = some base) :
    ∃ c, expandingController n = some c ∧ base = (apply 0 c).1 := by
  unfold expandingController at hbase ⊢
  have hlength := length_eachController apply cancelled 0 n.controllers
  match hcontrollers : n.controllers with
  | [] =>
    rw [hcontrollers] at hbase
    cases hbase
  | [c] =>
    rw [hcontrollers] at hbase hresult
    simp only [eachController] at hbase hresult
    split at hresult
    · exact absurd rfl hresult
    next hgo =>
    rw [if_neg hgo] at hbase
    dsimp only at hbase ⊢
    rw [htype] at hbase
    split at hbase
    · next hempty =>
      rw [if_pos hempty]
      exact ⟨c, rfl, (Option.some.inj hbase).symm⟩
    · cases hbase
  | _ :: _ :: _ =>
    dsimp only at hbase
    split at hbase
    · next hone =>
      rw [hone, hcontrollers] at hlength
      simp at hlength
    · cases hbase

variable [DecidableEq ν]

theorem eachExtra_forall {startupUsers current : Option (List UserInfo)}
    {parts : Nat → ControllerParts} {i : Nat} {wanted : List Nat}
    {extras : List (Controller ν)} (h : ∀ c ∈ extras, P c)
    (hsnapshot : ∀ j < i + wanted.length, ∀ c, P c → P (applySnapshot c snapshot current (parts j)).1)
    (hstart : ∀ i id, P (startExtra base startupUsers id snapshot (parts i)).1) :
    ∀ c ∈ (eachExtra base startupUsers current snapshot parts cancelled i wanted extras).1,
      P c := by
  induction wanted generalizing i extras with
  | nil => exact h
  | cons id wanted ih =>
    rw [length_cons] at hsnapshot
    have hlater : ∀ j < i + 1 + wanted.length, ∀ c, P c →
        P (applySnapshot c snapshot current (parts j)).1 :=
      fun j hj ↦ hsnapshot j (by omega)
    unfold eachExtra
    split
    · exact h
    split
    · next extra hfind =>
      refine ih (fun c hc ↦ ?_) hlater
      obtain ⟨before, hbefore, rfl⟩ := mem_map.mp hc
      split
      · exact hsnapshot i (by omega) extra (h extra (mem_of_find?_eq_some hfind))
      · exact h before hbefore
    · refine ih (fun c hc ↦ ?_) hlater
      split at hc
      · rcases (mem_orderedInsert _).mp hc with rfl | hold
        · exact hstart i id
        · exact h c hold
      · exact h c hc

theorem applyConfig_forall {n : Node ν} {parts : ConfigParts} (h : ∀ c ∈ n.allControllers, P c)
    (hcontroller : ∀ i < n.controllers.length, ∀ c, P c →
      P (applySnapshot c snapshot (currentUserList n) (parts.controller i)).1)
    (hextra : ∀ wanted ∈ snapshotExtraProtocols snapshot, ∀ i < wanted.length, ∀ c, P c →
      P (applySnapshot c snapshot (currentUserList n) (parts.extra i)).1)
    (hstart : ∀ base, expandingController n = some base → ∀ i id,
      P (startExtra (applySnapshot base snapshot (currentUserList n) (parts.controller 0)).1
        n.startupUsers id snapshot (parts.extra i)).1) :
    ∀ c ∈ (applyConfig n snapshot parts).1.allControllers, P c := by
  have hmain : ∀ c ∈ (eachController
      (fun i c ↦ applySnapshot c snapshot (currentUserList n) (parts.controller i))
      parts.controllerCancelled 0 n.controllers).1, P c :=
    eachController_forall (fun c hc ↦ h c (mem_append_left _ hc))
      fun i hi ↦ hcontroller i (by omega)
  have hold : ∀ c ∈ n.extras, P c := fun c hc ↦ h c (mem_append_right _ hc)
  unfold applyConfig
  split
  · exact h
  split
  · next controllers hcancelled =>
    rw [hcancelled] at hmain
    exact fun c hc ↦ (mem_append.mp hc).elim (hmain c) (hold c)
  next controllers result hresult heach =>
  rw [heach] at hmain
  dsimp only [reconcileExtras]
  split
  · exact fun c hc ↦ (mem_append.mp hc).elim (hmain c) nofun
  next base hbase =>
  split
  · exact fun c hc ↦ (mem_append.mp hc).elim (hmain c) (hold c)
  next wanted hwanted =>
  have hbase' : ∃ c, expandingController n = some c ∧
      base = (applySnapshot c snapshot (currentUserList n) (parts.controller 0)).1 := by
    refine expandingController_each
      (fun i c ↦ applySnapshot c snapshot (currentUserList n) (parts.controller i))
      parts.controllerCancelled (fun c ↦ (applySnapshot_unmoved c _ _ _).1) ?_ ?_
    · rw [heach]
      exact hresult
    · rw [heach]
      exact hbase
  obtain ⟨first, hfirst, rfl⟩ := hbase'
  intro c hc
  rcases mem_append.mp hc with hc | hc
  · exact hmain c hc
  · exact eachExtra_forall (fun c hc ↦ hold c (mem_of_mem_filter hc))
      (fun i hi ↦ hextra wanted hwanted i (by omega)) (hstart first hfirst) c hc

end Loops

end AnixAgent.NodePlane.Controllers
