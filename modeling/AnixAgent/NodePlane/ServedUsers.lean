import AnixAgent.NodePlane.Controllers
import AnixAgent.Users.Steps

namespace AnixAgent.NodePlane.ServedUsers

open Machine Controllers Users.Steps Lib.Runs Lib.Tables List Option
open Users.Machine hiding System Action
open Controller.UserSync (UserInfo)

variable {ν : Type}

/-- The users of a set as `userSet` makes it. -/
def Ordered (users : List (NodeUser Settings)) : Prop := users.Pairwise fun a b ↦ a.userId < b.userId

instance (users : List (NodeUser Settings)) : Decidable (Ordered users) :=
  inferInstanceAs (Decidable (Pairwise _ _))

abbrev StoredSet := { set : UserSet Settings // Ordered set.users }

def Counts (u : UsersState Settings) : Prop := u.has = true ∧ u.applied = u.version

def newest (u : UsersState Settings) : List UserInfo := panelUsers (userSet u).users

def Restoring [DecidableEq ν] (n : Node ν) (snapshot : Snapshot ν) (parts : ConfigParts) : Prop :=
  (∀ i < n.controllers.length, Restores (parts.controller i)) ∧
    ∀ wanted ∈ snapshotExtraProtocols snapshot, ∀ i < wanted.length, Restores (parts.extra i)

/-- The users that a controller started by the snapshot would get are the latest. -/
def UpToDate (n : Node ν) (snapshot : Snapshot ν) : Prop :=
  (∀ startup ∈ n.startupUsers, ∀ latest ∈ n.lastUsers, startup = latest) ∧
    (n.startupUsers = none → ∀ base ∈ expandingController n, base.started = true ∨
      (nodeInfoFromSnapshot snapshot base.nodeType base.protocolID).isSome = true)

section Restore

theorem entries_restored {users : List (NodeUser Settings)} {t : Table Nat (NodeUser Settings)}
    (h : Ordered users) (ht : ∀ user ∈ users, user.userId ∉ t) :
    (users.foldl (fun t user ↦ t.insert user.userId user) t).entries.map (·.2) =
      users.reverse ++ t.entries.map (·.2) := by
  induction users generalizing t with
  | nil => rfl
  | cons first users ih =>
    obtain ⟨hfirst, hrest⟩ := pairwise_cons.mp h
    have hfresh : ∀ user ∈ users, user.userId ∉ t.insert first.userId first := by
      intro user huser hmem
      rcases (AList.mem_insert _).mp hmem with heq | hold
      · exact Nat.ne_of_gt (hfirst user huser) heq
      · exact ht user (mem_cons_of_mem _ huser) hold
    rw [foldl_cons, ih hrest hfresh, AList.entries_insert_of_notMem (ht first mem_cons_self), map_cons,
      reverse_cons, append_assoc]
    rfl

theorem newest_restored (u : UsersState Settings) (set : StoredSet) :
    newest (restoreUsers u set.1) = panelUsers set.1.users := by
  have hentries := entries_restored set.2 (t := ∅) fun _ _ ↦ AList.notMem_empty _
  unfold newest userSet restoreUsers
  dsimp only [Option.getD_some]
  rw [hentries]
  refine congrArg panelUsers (Perm.eq_of_pairwise ?_ (pairwise_insertionSort _ _)
    (set.2.imp Nat.le_of_lt) ?_)
  · intro a b ha hb hab hba
    have hnodup : (set.1.users.map (·.userId)).Nodup :=
      pairwise_map.mpr (set.2.imp fun hlt ↦ Nat.ne_of_lt hlt)
    have ha' : a ∈ set.1.users := by simpa using ha
    exact inj_on_of_nodup_map hnodup ha' hb (Nat.le_antisymm hab hba)
  · refine (perm_insertionSort _ _).trans ?_
    rw [AList.empty_entries, map_nil, append_nil]
    exact reverse_perm _

theorem foldl_fold_version (u : UsersState Settings) (deltas : List (UserDelta Settings))
    (h : u.version.toNat + deltas.length < 2 ^ 64) :
    (deltas.foldl fold u).version.toNat = u.version.toNat + deltas.length ∧
      (deltas.foldl fold u).applied = u.applied := by
  induction deltas generalizing u with
  | nil => exact ⟨rfl, rfl⟩
  | cons delta deltas ih =>
    rw [length_cons] at h ⊢
    have hnext : (fold u delta).version.toNat = u.version.toNat + 1 := by
      show (u.version + 1).toNat = _
      rw [UInt64.toNat_add, Nat.mod_eq_of_lt]
      · rfl
      · show u.version.toNat + 1 < 2 ^ 64
        omega
    obtain ⟨hversion, happlied⟩ := ih (fold u delta) (by omega)
    rw [foldl_cons, hversion, happlied]
    exact ⟨by omega, rfl⟩

end Restore

variable {n : Node ν} {snapshot : Snapshot ν} {parts : ConfigParts}

section Apply

theorem startExtra_informed (base : Controller ν) (startupUsers : Option (List UserInfo)) (id : Nat)
    (snapshot : Snapshot ν) (parts : ControllerParts) :
    Informed (startExtra base startupUsers id snapshot parts).1 := by
  unfold startExtra
  split
  · exact nofun
  · exact (startWith_started rfl).1

variable [DecidableEq ν]

theorem reconcileExtras_lists (n : Node ν) (snapshot : Snapshot ν) (parts : ConfigParts) :
    (reconcileExtras n snapshot parts).1.startupUsers = n.startupUsers ∧
      (reconcileExtras n snapshot parts).1.lastUsers = n.lastUsers := by
  unfold reconcileExtras
  split
  · exact ⟨rfl, rfl⟩
  · split <;> exact ⟨rfl, rfl⟩

theorem applyConfig_lists (n : Node ν) (snapshot : Snapshot ν) (parts : ConfigParts) :
    (applyConfig n snapshot parts).1.startupUsers = n.startupUsers ∧
      (applyConfig n snapshot parts).1.lastUsers = n.lastUsers := by
  unfold applyConfig
  split
  · exact ⟨rfl, rfl⟩
  · split
    · exact ⟨rfl, rfl⟩
    · exact reconcileExtras_lists _ _ _

theorem applyConfig_informed (snapshot : Snapshot ν) (parts : ConfigParts)
    (h : ∀ c ∈ n.allControllers, Informed c) :
    ∀ c ∈ (applyConfig n snapshot parts).1.allControllers, Informed c :=
  applyConfig_forall h (fun _ _ _ ↦ (applySnapshot_unmoved _ _ _ _).2)
    (fun _ _ _ _ _ ↦ (applySnapshot_unmoved _ _ _ _).2) fun _ _ _ _ ↦ startExtra_informed _ _ _ _ _

/-- Controllers that serve a set serve it after a configuration, and those it starts
serve it too, when the lists that the node hands out are that set. -/
theorem applyConfig_serves {set : List UserInfo} (hinformed : ∀ c ∈ n.allControllers, Informed c)
    (h : ∀ c ∈ n.allControllers, Serves set c) (hparts : Restoring n snapshot parts)
    (hlast : n.lastUsers = some set) (hstartup : ∀ l, n.startupUsers = some l → l = set)
    (hbase : n.startupUsers = none → ∀ base ∈ expandingController n, base.started ∨
      (nodeInfoFromSnapshot snapshot base.nodeType base.protocolID).isSome) :
    ∀ c ∈ (applyConfig n snapshot parts).1.allControllers, Serves set c := by
  have hcurrent : currentUserList n = some set := by
    unfold currentUserList
    cases hs : n.startupUsers with
    | none => exact hlast
    | some l => exact congrArg some (hstartup l hs)
  have hgiven : ∀ l, currentUserList n = some l → l = set := by
    intro l hl
    exact Option.some.inj (hl.symm.trans hcurrent)
  have hboth : ∀ c ∈ (applyConfig n snapshot parts).1.allControllers,
      Serves set c ∧ Informed c := by
    apply applyConfig_forall
    · exact fun c hc ↦ ⟨h c hc, hinformed c hc⟩
    · rintro i hindex c ⟨hc, hi⟩
      exact ⟨applySnapshot_serves hc hi hgiven (hparts.1 i hindex),
        (applySnapshot_unmoved _ _ _ _).2 hi⟩
    · rintro wanted hwanted i hindex c ⟨hc, hi⟩
      exact ⟨applySnapshot_serves hc hi hgiven (hparts.2 wanted hwanted i hindex),
        (applySnapshot_unmoved _ _ _ _).2 hi⟩
    intro base hfirst i id
    refine ⟨?_, startExtra_informed _ _ _ _ _⟩
    have hmem : base ∈ n.allControllers := by
      unfold expandingController at hfirst
      split at hfirst
      · next c hone =>
        split at hfirst
        · cases hfirst
          exact mem_append_left _ (hone ▸ mem_singleton_self base)
        · cases hfirst
      · cases hfirst
    unfold startExtra
    split
    · exact nofun
    have hgets : n.startupUsers.getD (applySnapshot base snapshot (currentUserList n)
        (parts.controller 0)).1.userList = set := by
      cases hs : n.startupUsers with
      | none => exact applySnapshot_userList (h base hmem) hcurrent (hbase hs base hfirst)
      | some l => exact hstartup l hs
    rw [hgets]
    exact (startWith_started rfl).2
  exact fun c hc ↦ (hboth c hc).1

end Apply

variable {set : UserSet Settings}

section ApplyUsers

theorem allControllers_applyUsers (n : Node ν) (set : UserSet Settings) (parts : UsersParts) :
    (applyUsers n set parts).1.allControllers =
      (eachController (fun i c ↦ applyStreamUsers c (panelUsers set.users) (parts.controller i))
        parts.cancelled 0 n.allControllers).1 :=
  take_append_drop _ _

theorem applyUsers_informed (set : UserSet Settings) (parts : UsersParts)
    (h : ∀ c ∈ n.allControllers, Informed c) :
    ∀ c ∈ (applyUsers n set parts).1.allControllers, Informed c := by
  rw [allControllers_applyUsers]
  refine eachController_forall h fun i _ c hc ↦ ?_
  obtain ⟨hstarted, -, hinfo⟩ :=
    applyStreamUsers_frame c (panelUsers set.users) (parts.controller i)
  unfold Informed
  rw [hstarted, hinfo]
  exact hc

end ApplyUsers

def Phased (s : System ν) : Phase → Prop
  | .starting => s.active = false ∧ s.users.has = false ∧
      ∀ c ∈ s.node.allControllers, c.started = false
  | .connecting | .waiting => s.active = false ∧
      ∀ set, s.users.persisted = some set →
        ∀ c ∈ s.node.allControllers, Serves (panelUsers set.users) c
  | .taken set => s.active = false ∧ set = userSet s.users ∧
      s.node.startupUsers = some (newest s.users) ∧ s.node.lastUsers = some (newest s.users) ∧
      ∀ c ∈ s.node.allControllers, Serves (newest s.users) c
  | .restored => s.active = false ∧ Counts s.users ∧ s.node.startupUsers = s.node.lastUsers
  | .leaving | .running | .stopped => True

structure Served (s : System ν) : Prop where
  informed : ∀ c ∈ s.node.allControllers, Informed c
  order : s.users.applied.toNat ≤ s.users.version.toNat
  stored : ∀ set, s.users.persisted = some set → Ordered set.users
  last : Counts s.users → s.node.lastUsers = some (newest s.users)
  serves : Counts s.users → ∀ c ∈ s.node.allControllers, Serves (newest s.users) c
  phased : Phased s s.phase

variable {s t : System ν}

theorem Phased.of_eq {s t : System ν} {phase : Phase} (h : Phased s phase)
    (hnode : t.node = s.node) (hactive : t.active = s.active) (hset : t.users.set = s.users.set)
    (hcursor : t.users.cursor = s.users.cursor) (hhas : t.users.has = s.users.has)
    (hversion : t.users.version = s.users.version) (happlied : t.users.applied = s.users.applied)
    (hpersisted : t.users.persisted = s.users.persisted) : Phased t phase := by
  have huserSet : userSet t.users = userSet s.users := by
    unfold userSet
    rw [hset, hcursor]
  cases phase <;>
    simp only [Phased, Counts, newest, hnode, hactive, hhas, hversion, happlied, hpersisted,
      huserSet] at h ⊢ <;> exact h

theorem served_initial (nodeTypes : List String) (stored : Option (StoredSet)) (clock : Int) :
    Served (initial nodeTypes (stored.map Subtype.val) clock : System ν) := by
  have hfresh : ∀ c ∈ (initial nodeTypes (stored.map Subtype.val) clock :
      System ν).node.allControllers, c.started = false := by
    intro c hc
    rcases mem_append.mp hc with hc | hc
    · obtain ⟨_, -, rfl⟩ := List.mem_map.mp hc
      rfl
    · cases hc
  refine ⟨fun c hc hstarted ↦ ?_, le_rfl, ?_, nofun, nofun, rfl, rfl, hfresh⟩
  · exact nomatch (hfresh c hc).symm.trans hstarted
  · intro set hset
    obtain ⟨stored, -, rfl⟩ := map_eq_some_iff.mp hset
    exact stored.2

variable {users u : UsersState Settings}

theorem Served.takeUsers (h : Served s)
    (hphase : s.phase = .waiting) (htake : Users.Machine.takeUsers s.users = some (users, set))
    (hbound : s.users.version.toNat + 1 < 2 ^ 64)
    (hserves : ∀ c ∈ s.node.allControllers, Serves (panelUsers set.users) c) :
    Served { s with
      node := setStartupUsers s.node (panelUsers set.users)
      users := users
      phase := .taken set } := by
  have hphased := h.phased
  rw [hphase] at hphased
  unfold Users.Machine.takeUsers at htake
  split at htake
  · cases htake
  next delta rest _ =>
  cases htake
  have hversion : (s.users.version + 1).toNat = s.users.version.toNat + 1 := by
    rw [UInt64.toNat_add, Nat.mod_eq_of_lt]
    · rfl
    · exact hbound
  have hnot : ¬Counts (fold { s.users with queue := rest } delta) := by
    rintro ⟨-, heq⟩
    have horder := h.order
    have heq' : s.users.applied.toNat = (s.users.version + 1).toNat := congrArg UInt64.toNat heq
    omega
  refine ⟨h.informed, ?_, h.stored, fun hc ↦ absurd hc hnot, fun hc ↦ absurd hc hnot,
    hphased.1, rfl, rfl, rfl, hserves⟩
  show s.users.applied.toNat ≤ (s.users.version + 1).toNat
  have horder := h.order
  omega

theorem Served.restoreUsers (h : Served s) (hphase : s.phase = .waiting)
    (hset : s.users.persisted = some set) :
    Served { s with
      node := setStartupUsers s.node (panelUsers set.users)
      users := Users.Machine.restoreUsers s.users set
      phase := .restored } := by
  have hphased := h.phased
  rw [hphase] at hphased
  have hnewest := newest_restored s.users ⟨set, h.stored set hset⟩
  refine ⟨h.informed, le_rfl, h.stored, fun _ ↦ congrArg some hnewest.symm, fun _ c hc ↦ ?_,
    hphased.1, ⟨rfl, rfl⟩, rfl⟩
  rw [hnewest]
  exact hphased.2 set hset c hc

theorem Phased.of_active {phase : Phase} (h : Phased s phase) (hactive : s.active)
    (t : System ν) : Phased t phase := by
  have hnot : s.active ≠ false := hactive ▸ nofun
  cases phase with
  | leaving | running | stopped => trivial
  | starting | connecting | waiting | taken | restored => exact absurd h.1 hnot

theorem counts_foldAll (horder : u.applied.toNat ≤ u.version.toNat)
    (hbound : u.version.toNat + u.queue.length < 2 ^ 64) (h : Counts (foldAll u)) :
    u.queue = [] := by
  obtain ⟨hversion, happlied⟩ := foldl_fold_version u u.queue hbound
  have heq : (u.queue.foldl fold u).applied.toNat = (u.queue.foldl fold u).version.toNat :=
    congrArg UInt64.toNat h.2
  rw [happlied, hversion] at heq
  exact length_eq_zero_iff.mp (by omega)

section Configurations

variable [DecidableEq ν]

theorem Served.startStored (h : Served s) (hphase : s.phase = .starting)
    (hset : s.users.persisted = some set) (hparts : Restoring s.node snapshot parts) :
    Served (Machine.startStored s set snapshot parts) := by
  have hphased := h.phased
  rw [hphase] at hphased
  obtain ⟨hactive, hhas, hfresh⟩ := hphased
  let node := setStartupUsers s.node (panelUsers set.users)
  have hserves : ∀ c ∈ (applyConfig node snapshot parts).1.allControllers,
      Serves (panelUsers set.users) c := by
    refine applyConfig_serves h.informed (fun c hc ↦ serves_of_not_started (hfresh c hc)) hparts
      rfl ?_ nofun
    rintro _ ⟨⟩
    rfl
  have hinformed := applyConfig_informed snapshot parts (n := node) h.informed
  have hlists := applyConfig_lists node snapshot parts
  unfold Machine.startStored
  split
  · next node' happly =>
    rw [show applyConfig node snapshot parts = (node', true) from happly] at hserves hinformed hlists
    have hnewest := newest_restored s.users ⟨set, h.stored set hset⟩
    refine ⟨hinformed, le_rfl, h.stored, fun _ ↦ ?_, fun _ ↦ ?_, hactive, ?_⟩
    · rw [hnewest]
      exact hlists.2
    · rw [hnewest]
      exact hserves
    · intro set' hset'
      have heq : set = set' := Option.some.inj (hset.symm.trans hset')
      exact heq ▸ hserves
  · next node' happly =>
    rw [show applyConfig node snapshot parts = (node', false) from happly] at hinformed
    have hnone : ¬Counts s.users := fun hcounts ↦
      nomatch hhas.symm.trans hcounts.1
    exact ⟨hinformed, h.order, nofun, fun hc ↦ absurd hc hnone, fun hc ↦ absurd hc hnone, hactive,
      nofun⟩

theorem Served.applyConfig_serves (h : Served s)
    (hparts : Counts s.users → Restoring s.node snapshot parts ∧ UpToDate s.node snapshot)
    (hcounts : Counts s.users) :
    ∀ c ∈ (applyConfig s.node snapshot parts).1.allControllers, Serves (newest s.users) c := by
  obtain ⟨hrestoring, hstartup, hbase⟩ := hparts hcounts
  exact ServedUsers.applyConfig_serves h.informed (h.serves hcounts) hrestoring (h.last hcounts)
    (fun l hl ↦ hstartup l hl _ (h.last hcounts)) hbase

theorem Served.last_applyConfig (h : Served s) (snapshot : Snapshot ν) (parts : ConfigParts)
    (hcounts : Counts s.users) :
    (applyConfig s.node snapshot parts).1.lastUsers = some (newest s.users) := by
  rw [(applyConfig_lists s.node snapshot parts).2]
  exact h.last hcounts

theorem Served.finishTaken (h : Served s) (hphase : s.phase = .taken set)
    (hparts : Restoring s.node snapshot parts) :
    Served { s with
      node := (applyConfig s.node snapshot parts).1
      users := usersResult s.users s.clock set none
      active := true
      phase := .leaving } := by
  have hphased := h.phased
  rw [hphase] at hphased
  obtain ⟨-, hset, hstartup, hlast, hserves⟩ := hphased
  have hcursor : s.users.cursor = set.cursor := by rw [hset]; rfl
  have hresult : usersResult s.users s.clock set none =
      { s.users with applied := s.users.version } := if_pos hcursor
  have hserved : ∀ c ∈ (applyConfig s.node snapshot parts).1.allControllers,
      Serves (newest s.users) c := by
    refine ServedUsers.applyConfig_serves h.informed hserves hparts hlast ?_ ?_
    · intro l hl
      exact Option.some.inj (hl.symm.trans hstartup)
    · intro hnone
      rw [hstartup] at hnone
      cases hnone
  rw [hresult]
  refine ⟨applyConfig_informed snapshot parts h.informed, le_rfl, h.stored, fun _ ↦ ?_,
    fun _ ↦ hserved, trivial⟩
  rw [(applyConfig_lists s.node snapshot parts).2]
  exact hlast

end Configurations

variable [DecidableEq ν]

def Sound (s : System ν) : Action ν → Prop
  | .startStored snapshot parts | .finish snapshot parts => Restoring s.node snapshot parts
  | .takeUsers => ∀ taken ∈ Users.Machine.takeUsers s.users,
      s.users.version.toNat + 1 < 2 ^ 64 ∧
      ∀ c ∈ s.node.allControllers, Serves (panelUsers taken.2.users) c
  | .applyConfig snapshot parts =>
    Counts s.users → Restoring s.node snapshot parts ∧ UpToDate s.node snapshot
  | .applyUsers _ => s.users.version.toNat + s.users.queue.length < 2 ^ 64 ∧
      ∀ due ∈ (applyPendingUsers s.users s.active s.clock).2,
        ∀ c ∈ s.node.allControllers, c.started = true →
          c.nodeAdded = true ∧ Covered (panelUsers due.1.users) c
  | _ => True

instance (u : UsersState Settings) : Decidable (Counts u) := inferInstanceAs (Decidable (_ ∧ _))

omit [DecidableEq ν] in
theorem applyPendingUsers_due {now : Int}
    {due : Option (UserSet Settings × UInt64)} (h : applyPendingUsers u true now = (users, due)) :
    users = foldAll u ∧ ∀ set version, due = some (set, version) → set = userSet users ∧
      version = users.version ∧ users.applied ≠ users.version := by
  unfold applyPendingUsers at h
  rw [if_pos rfl] at h
  dsimp only at h
  split at h
  · next hdue =>
    cases h
    refine ⟨rfl, ?_⟩
    rintro _ _ ⟨⟩
    exact ⟨rfl, rfl, hdue.2.1⟩
  · cases h
    exact ⟨rfl, nofun⟩

omit [DecidableEq ν] in
theorem Served.applyPending (h : Served s) (parts : UsersParts) (hactive : s.active)
    (hbound : s.users.version.toNat + s.users.queue.length < 2 ^ 64)
    (hcovered : ∀ due ∈ (applyPendingUsers s.users s.active s.clock).2,
      ∀ c ∈ s.node.allControllers, c.started → c.nodeAdded ∧ Covered (panelUsers due.1.users) c) :
    Served (Machine.applyPending s parts) := by
  have horder : (foldAll s.users).applied.toNat ≤ (foldAll s.users).version.toNat := by
    have horder := h.order
    obtain ⟨hversion, happlied⟩ := foldl_fold_version s.users s.users.queue hbound
    show (s.users.queue.foldl fold s.users).applied.toNat ≤
      (s.users.queue.foldl fold s.users).version.toNat
    rw [hversion, happlied]
    omega
  have hstored : ∀ set, (foldAll s.users).persisted = some set →
      Ordered set.users := by
    intro set hset
    refine h.stored set ?_
    rw [← hset]
    exact (foldl_fold_frame s.users s.users.queue).1.symm
  unfold Machine.applyPending
  split
  · next users hpending =>
    rw [hactive] at hpending
    obtain ⟨rfl, -⟩ := applyPendingUsers_due hpending
    have hsame : Counts (foldAll s.users) →
        Counts s.users ∧ newest (foldAll s.users) = newest s.users := by
      intro hcounts
      have hempty := counts_foldAll h.order hbound hcounts
      unfold foldAll at hcounts ⊢
      rw [hempty] at hcounts ⊢
      exact ⟨hcounts, rfl⟩
    refine ⟨h.informed, horder, hstored, fun hcounts ↦ ?_, fun hcounts ↦ ?_,
      h.phased.of_active hactive _⟩
    · obtain ⟨hbefore, heq⟩ := hsame hcounts
      rw [heq]
      exact h.last hbefore
    · obtain ⟨hbefore, heq⟩ := hsame hcounts
      rw [heq]
      exact h.serves hbefore
  · next users set version hpending =>
    have hcover := hcovered (set, version) (congrArg Prod.snd hpending)
    rw [hactive] at hpending
    obtain ⟨rfl, hdue⟩ := applyPendingUsers_due hpending
    obtain ⟨rfl, rfl, hne⟩ := hdue set version rfl
    have hinformed := applyUsers_informed (userSet (foldAll s.users)) parts h.informed
    have hphased := h.phased.of_active hactive
    dsimp only
    cases hresult : (applyUsers s.node (userSet (foldAll s.users)) parts).2 with
    | ok =>
      refine ⟨hinformed, ?_, hstored, fun _ ↦ rfl, fun _ ↦ ?_, hphased _⟩
      · show (if (foldAll s.users).version = (foldAll s.users).version then
          (foldAll s.users).version else _).toNat ≤ _
        rw [if_pos rfl]
        exact le_rfl
      · rw [allControllers_applyUsers]
        intro c hc
        rcases mem_eachController hc with ⟨j, -, before, hbefore, rfl, happlied⟩ | ⟨-, hcancelled⟩
        · exact applyStreamUsers_serves (hcover before hbefore) (happlied hresult)
        · cases hcancelled.symm.trans hresult
    | failed | cancelled =>
      exact ⟨hinformed, horder, hstored, fun hcounts ↦ absurd hcounts.2 hne,
        fun hcounts ↦ absurd hcounts.2 hne, hphased _⟩

theorem Served.step (h : Served s) {a : Action ν} (hsound : Sound s a)
    (hstep : Machine.step s a = some t) : Served t := by
  have hkeep : ∀ {node : Node ν} {phase : Phase} {active : Bool},
      node.allControllers = s.node.allControllers → node.lastUsers = s.node.lastUsers →
      Phased { s with node := node, active := active, phase := phase } phase →
      Served { s with node := node, active := active, phase := phase } := by
    intro node phase active hall hlast hphased
    exact ⟨hall ▸ h.informed, h.order, h.stored, hlast ▸ h.last, hall ▸ h.serves, hphased⟩
  cases a with
  | tick | receive =>
    cases hstep
    exact { h with phased := h.phased.of_eq rfl rfl rfl rfl rfl rfl rfl rfl }
  | startStored snapshot parts =>
    dsimp only [Machine.step] at hstep
    split at hstep
    · next hphase hset =>
      cases hstep
      exact h.startStored hphase hset hsound
    · cases hstep
  | startEmpty =>
    dsimp only [Machine.step] at hstep
    split at hstep
    · next hphase =>
      cases hstep
      have hphased := h.phased
      rw [hphase] at hphased
      exact hkeep rfl rfl ⟨hphased.1, fun _ _ c hc ↦ serves_of_not_started (hphased.2.2 c hc)⟩
    · cases hstep
  | connect ok =>
    dsimp only [Machine.step] at hstep
    split at hstep
    · next hphase =>
      have hphased := h.phased
      rw [hphase] at hphased
      split at hstep
      · cases hstep
        exact hkeep rfl rfl trivial
      split at hstep
      · cases hstep
        exact hkeep rfl rfl trivial
      · cases hstep
        exact hkeep rfl rfl hphased
    · cases hstep
  | takeUsers =>
    dsimp only [Machine.step] at hstep
    split at hstep
    · next hphase =>
      obtain ⟨⟨users, set⟩, htake, rfl⟩ := map_eq_some_iff.mp hstep
      obtain ⟨hbound, hserves⟩ := hsound (users, set) htake
      exact h.takeUsers hphase htake hbound hserves
    · cases hstep
  | restoreUsers =>
    dsimp only [Machine.step] at hstep
    split at hstep
    · next hphase hset =>
      cases hstep
      exact h.restoreUsers hphase hset
    · cases hstep
  | finish snapshot parts =>
    dsimp only [Machine.step] at hstep
    split at hstep
    · next hphase =>
      cases hstep
      exact h.finishTaken hphase hsound
    · next hphase =>
      cases hstep
      have hphased := h.phased
      rw [hphase] at hphased
      obtain ⟨-, hcounts, hlists⟩ := hphased
      have hupToDate : Counts s.users → Restoring s.node snapshot parts ∧ UpToDate s.node snapshot := by
        refine fun _ ↦ ⟨hsound, fun l hl l' hl' ↦ ?_, fun hnone ↦ ?_⟩
        · rw [hlists] at hl
          exact Option.some.inj (hl.symm.trans hl')
        · rw [hlists, h.last hcounts] at hnone
          cases hnone
      exact ⟨applyConfig_informed snapshot parts h.informed, h.order, h.stored,
        h.last_applyConfig snapshot parts, h.applyConfig_serves hupToDate, trivial⟩
    · cases hstep
  | giveUp =>
    dsimp only [Machine.step] at hstep
    split at hstep
    all_goals cases hstep
    all_goals exact hkeep rfl rfl trivial
  | leave =>
    dsimp only [Machine.step] at hstep
    split at hstep
    · cases hstep
      exact hkeep rfl rfl trivial
    · cases hstep
  | applyConfig snapshot parts =>
    obtain ⟨hactive, rfl⟩ := ite_some_none_eq_some.mp hstep
    exact ⟨applyConfig_informed snapshot parts h.informed, h.order, h.stored,
      h.last_applyConfig snapshot parts, h.applyConfig_serves hsound,
      h.phased.of_active hactive _⟩
  | applyUsers parts =>
    obtain ⟨hactive, rfl⟩ := ite_some_none_eq_some.mp hstep
    exact h.applyPending parts hactive hsound.1 hsound.2

/-- Whenever the newest set counts as applied, every started controller of the node
runs it in the core. -/
theorem counted_set_served {nodeTypes : List String} {stored : Option StoredSet} {clock : Int}
    (hrun : Reach Machine.step Sound (initial nodeTypes (stored.map Subtype.val) clock) s)
    (hcounts : Counts s.users) :
    ∀ c ∈ s.node.allControllers, c.started = true → c.nodeAdded = true ∧
      ∀ uuid, c.core uuid = coreOf (panelUsers (userSet s.users).users) uuid := by
  have hserved : Served s := hrun.invariant (served_initial nodeTypes stored clock)
    fun _ _ _ hs hsound hstep ↦ hs.step hsound hstep
  intro c hc hstarted
  obtain ⟨hup, hcore, -⟩ := hserved.serves hcounts c hc hstarted
  exact ⟨hup, congrFun hcore⟩

def smooth : ConfigParts where
  forward := true
  controller _ := ⟨.ok, true, .ok, .ok⟩
  controllerCancelled _ := false
  closed _ := true
  extra _ := ⟨.ok, true, .ok, .ok⟩
  extraCancelled _ := false
  others := true

def sampleSnapshot : Snapshot Nat :=
  some ⟨"proxy", [1, 2], some ⟨.valid 1, fun _ ↦ .valid 3, fun id ↦ some (.valid id)⟩⟩

def sampleUser (id : Nat) (uuid : String) : NodeUser Settings := ⟨id, uuid, 0, 0, []⟩

def wholeSet (cursor : Nat) (users : List (NodeUser Settings)) : UserDelta Settings :=
  ⟨cursor, true, true, users, []⟩

/-- The node starts with Control's set, its second protocol too. -/
theorem counted_set_served_two_protocols :
    ∃ s : System Nat, Reach Machine.step Sound (initial [""] none 0) s ∧
      (s.node.extras.length = 1 ∧ Counts s.users ∧ ∀ c ∈ s.node.allControllers,
        c.started = true ∧ (c.core "a").map (·.id) = some 1) ∧
      ∀ c ∈ s.node.allControllers, c.started = true → c.nodeAdded = true ∧
        ∀ uuid, c.core uuid = coreOf (panelUsers (userSet s.users).users) uuid := by
  have hwaiting : Reach Machine.step Sound
      (initial [""] ((none : Option StoredSet).map Subtype.val) 0 : System Nat) _ :=
    ((Reach.one .startEmpty trivial rfl).snoc (.connect true) trivial rfl).snoc
      (.receive (wholeSet 1 [sampleUser 1 "a"])) trivial rfl
  have htaken : Reach Machine.step Sound _ _ := hwaiting.snoc .takeUsers
    (fun _ _ ↦ ⟨by decide, fun c hc ↦ serves_of_not_started (mem_singleton.mp hc ▸ rfl)⟩) rfl
  have hfinish (s : System Nat) : Sound s (.finish sampleSnapshot smooth) :=
    ⟨fun _ _ ↦ .inr (.inl rfl), fun _ _ _ _ ↦ .inr (.inl rfl)⟩
  have hrun : Reach Machine.step Sound _ _ :=
    (htaken.snoc (.finish sampleSnapshot smooth) (hfinish _) rfl).snoc .leave trivial rfl
  exact ⟨_, hrun, by decide, counted_set_served hrun (by decide)⟩

def storedUsers : StoredSet := ⟨⟨1, [sampleUser 1 "a"]⟩, by decide⟩

def halfStored : List (Machine.Action Nat) :=
  [.startStored sampleSnapshot { smooth with
      controller := fun i ↦ ⟨if i = 0 then .ok else .refused, true, .ok, .ok⟩ },
    .connect true, .receive (wholeSet 2 [sampleUser 2 "b"]), .takeUsers,
    .finish sampleSnapshot smooth, .leave]

def idChanged : List (Machine.Action Nat) :=
  [.startEmpty, .connect true, .receive (wholeSet 1 [sampleUser 1 "a"]), .takeUsers,
    .finish sampleSnapshot smooth, .leave, .receive (wholeSet 2 [sampleUser 2 "a"]),
    .applyUsers ⟨fun _ ↦ ⟨.ok, .ok⟩, fun _ ↦ false, ""⟩]

/-- The first controller keeps the stored users while Control's set counts as applied. And a
user whom Control gives another id keeps the old one. -/
theorem stale_stored_users :
    (∃ s : System Nat, Steps Machine.step
        (initial ["vmess", "trojan"] ((some storedUsers).map Subtype.val) 0) s ∧
      s.phase = .running ∧ Counts s.users ∧ (userSet s.users).users = [sampleUser 2 "b"] ∧
      ∃ c ∈ s.node.allControllers, c.started = true ∧ (c.core "a").isSome = true ∧
        (c.core "b").isNone = true) ∧
    ∃ s : System Nat, Steps Machine.step (initial [""] none 0) s ∧
      s.phase = .running ∧ Counts s.users ∧ (userSet s.users).users = [sampleUser 2 "a"] ∧
      ∃ c ∈ s.node.allControllers, c.started = true ∧ (c.core "a").map (·.id) = some 1 :=
  ⟨exists_steps halfStored _ (by decide +kernel), exists_steps idChanged _ (by decide +kernel)⟩

end AnixAgent.NodePlane.ServedUsers
