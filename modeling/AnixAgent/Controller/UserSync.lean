import AnixAgent.Lib.Runs
import AnixAgent.Lib.Tables

namespace AnixAgent.Controller.UserSync

open Lib.Runs Lib.Tables List Option

structure UserInfo where
  id : Int
  uuid : String
  speedLimit : Int
  deviceLimit : Int
  wireGuardPeerIP : String
  wireGuardPublicKey : String
  wireGuardPresharedKey : String
  extra : String → Option String

def userSyncKey (user : UserInfo) : String :=
  user.uuid ++ "\x00" ++ toString user.speedLimit ++ "\x00" ++ toString user.deviceLimit ++ "\x00" ++
    user.wireGuardPeerIP ++ "\x00" ++ user.wireGuardPublicKey ++ "\x00" ++
    user.wireGuardPresharedKey ++ "\x00" ++ (user.extra "ss2022_key").getD ""

def compareLoop (acc : Table String UserInfo × List UserInfo) (user : UserInfo) :
    Table String UserInfo × List UserInfo :=
  if (acc.1.lookup (userSyncKey user)).isSome then (acc.1.erase (userSyncKey user), acc.2)
  else (acc.1, acc.2 ++ [user])

def compareUserList (old new : List UserInfo) : List UserInfo × List UserInfo :=
  let oldMap := index userSyncKey id old
  let (oldMap, added) := new.foldl compareLoop (oldMap, [])
  (oldMap.entries.map (·.2), added)

structure UserLimitInfo where
  uid : Int
  speedLimit : Int
  deviceLimit : Int
  deriving DecidableEq

def UserInfo.limitInfo (user : UserInfo) : UserLimitInfo :=
  ⟨user.id, user.speedLimit, user.deviceLimit⟩

/-- The core, the limiter with its two maps, the users of the controller, and the uuids of those
whom the core has deleted or added since the last call that succeeded. -/
structure State where
  core : String → Option UserInfo
  userLimitInfo : String → Option UserLimitInfo
  uuidToUID : String → Option Int
  userList : List UserInfo
  touched : List String

variable {β : Type}

def deleteAll (users : List UserInfo) (m : String → Option β) : String → Option β :=
  users.foldl (fun m user ↦ Function.update m user.uuid none) m

def storeAll (f : UserInfo → β) (users : List UserInfo) (m : String → Option β) :
    String → Option β :=
  users.foldl (fun m user ↦ Function.update m user.uuid (some (f user))) m

/-- How a call of the core ends. If it fails it may have done some of the users. -/
inductive Answer
  | ok
  | failed (did : String → Bool)

def Answer.succeeds : Answer → Bool
  | .ok => true
  | .failed _ => false

def Answer.done : Answer → List UserInfo → List UserInfo
  | .ok, users => users
  | .failed did, users => users.filter (did ·.uuid)

def applyUserDiffLocked (s : State) (newU : List UserInfo) (del add : Answer) : State × Bool :=
  let (deleted, added) := compareUserList s.userList newU
  let s := { s with
    core := deleteAll (del.done deleted) s.core
    touched := s.touched ++ (del.done deleted).map UserInfo.uuid }
  if deleted ≠ [] ∧ del.succeeds = false then (s, false)
  else
    let s := { s with
      core := storeAll id (add.done added) s.core
      touched := s.touched ++ (add.done added).map UserInfo.uuid }
    if added ≠ [] ∧ add.succeeds = false then (s, false)
    else
      ({ s with
        userLimitInfo := storeAll UserInfo.limitInfo added (deleteAll deleted s.userLimitInfo)
        uuidToUID := storeAll UserInfo.id added (deleteAll deleted s.uuidToUID)
        userList := newU
        touched := [] }, true)

structure Call where
  newU : List UserInfo
  del : Answer
  add : Answer

def step (s : State) (call : Call) : Option State :=
  some (applyUserDiffLocked s call.newU call.del call.add).1

def named (users : List UserInfo) (uuid : String) : Option UserInfo :=
  users.find? (·.uuid == uuid)

def Distinct (users : List UserInfo) : Prop := (users.map UserInfo.uuid).Nodup

structure Exactly (users : List UserInfo) (s : State) : Prop where
  core : ∀ uuid, s.core uuid = named users uuid
  userLimitInfo : ∀ uuid, s.userLimitInfo uuid = (named users uuid).map UserInfo.limitInfo
  uuidToUID : ∀ uuid, s.uuidToUID uuid = (named users uuid).map UserInfo.id

def Determined (old new : List UserInfo) : Prop :=
  ∀ a b, a ∈ old ∨ a ∈ new → b ∈ old ∨ b ∈ new → userSyncKey a = userSyncKey b → a = b

variable {old new users : List UserInfo} {user : UserInfo} {uuid : String} {s t : State}

theorem Distinct.nodup (h : Distinct users) : users.Nodup := Nodup.of_map _ h

theorem foldl_compareLoop (h : Determined old new) (hnodup : users.Nodup)
    (hsub : ∀ user ∈ users, user ∈ new) :
    (∀ key user, (users.foldl compareLoop (index userSyncKey id old, [])).1.lookup key = some user ↔
      (index userSyncKey id old).lookup key = some user ∧ ∀ n ∈ users, userSyncKey n ≠ key) ∧
    ∀ user, user ∈ (users.foldl compareLoop (index userSyncKey id old, [])).2 ↔
      user ∈ users ∧ user ∉ old := by
  induction users using reverseRecOn with
  | nil => simp
  | append_singleton users n ih =>
    obtain ⟨hnodup', hnew⟩ : users.Nodup ∧ n ∉ users := by
      rw [nodup_append] at hnodup
      exact ⟨hnodup.1, fun hmem ↦ hnodup.2.2 n hmem n (mem_singleton_self n) rfl⟩
    have hnmem : n ∈ new := hsub n (by simp)
    obtain ⟨hmap, hadded⟩ := ih hnodup' fun user huser ↦ hsub user (by simp [huser])
    rw [foldl_append, foldl_cons, foldl_nil]
    generalize users.foldl compareLoop (index userSyncKey id old, []) = acc at hmap hadded
    unfold compareLoop
    split
    · next hsome =>
      -- an old user with the same key is the user itself
      obtain ⟨o, ho⟩ := isSome_iff_exists.mp hsome
      obtain ⟨o', ho', hkey, rfl⟩ := exists_of_lookup_index ((hmap _ _).mp ho).1
      obtain rfl : o' = n := h _ _ (.inl ho') (.inr hnmem) hkey
      refine ⟨fun key user ↦ ?_, fun user ↦ ?_⟩
      · rw [lookup_erase_ite]
        simp only [mem_append, mem_singleton, or_imp, forall_and, forall_eq]
        by_cases heq : key = userSyncKey o'
        · simp [heq]
        · simp only [heq, if_false, hmap, Ne.symm heq, ne_eq, not_false_eq_true, and_true]
      · rw [hadded]
        simp only [mem_append, mem_singleton]
        constructor
        · exact fun ⟨hmem, hold⟩ ↦ ⟨.inl hmem, hold⟩
        · rintro ⟨hmem | rfl, hold⟩
          · exact ⟨hmem, hold⟩
          · exact absurd ho' hold
    · next hnone =>
      have hlookup : acc.1.lookup (userSyncKey n) = none := by simpa using hnone
      have hold : n ∉ old := by
        intro hmem
        have hindex : (index userSyncKey id old).lookup (userSyncKey n) = some n :=
          lookup_index_of_unique (f := userSyncKey) (g := id) hmem
            fun y hy hkey ↦ h _ _ (.inl hy) (.inr hnmem) hkey
        have hcontra := (hmap (userSyncKey n) n).mpr ⟨hindex, fun m hm hkey ↦ hnew ?_⟩
        · rw [hlookup] at hcontra
          cases hcontra
        · exact h _ _ (.inr (hsub m (by simp [hm]))) (.inr hnmem) hkey ▸ hm
      refine ⟨fun key user ↦ ?_, fun user ↦ ?_⟩
      · rw [hmap]
        simp only [mem_append, mem_singleton, or_imp, forall_and, forall_eq]
        refine ⟨fun ⟨hindex, hkeys⟩ ↦ ⟨hindex, hkeys, ?_⟩, fun ⟨hindex, hkeys, _⟩ ↦ ⟨hindex, hkeys⟩⟩
        rintro rfl
        rw [(hmap _ _).mpr ⟨hindex, hkeys⟩] at hlookup
        cases hlookup
      · simp only [mem_append, mem_singleton, hadded]
        constructor
        · rintro (⟨hmem, hnot⟩ | rfl)
          · exact ⟨.inl hmem, hnot⟩
          · exact ⟨.inr rfl, hold⟩
        · rintro ⟨hmem | rfl, hnot⟩
          · exact .inl ⟨hmem, hnot⟩
          · exact .inr rfl

theorem mem_added (h : Determined old new) (hnodup : new.Nodup) :
    user ∈ (compareUserList old new).2 ↔ user ∈ new ∧ user ∉ old :=
  (foldl_compareLoop h hnodup fun _ hu ↦ hu).2 user

theorem mem_deleted (h : Determined old new) (hnodup : new.Nodup) :
    user ∈ (compareUserList old new).1 ↔ user ∈ old ∧ user ∉ new := by
  have hmap := (foldl_compareLoop h hnodup fun _ hu ↦ hu).1
  unfold compareUserList
  simp only [List.mem_map]
  constructor
  · rintro ⟨entry, hentry, rfl⟩
    obtain ⟨hindex, hkeys⟩ := (hmap entry.1 entry.2).mp (AList.mem_lookup_iff.mpr hentry)
    obtain ⟨o, ho, hkey, heq⟩ := exists_of_lookup_index hindex
    rw [← heq]
    exact ⟨ho, fun hnew ↦ hkeys o hnew hkey⟩
  · rintro ⟨hold, hnew⟩
    have hindex : (index userSyncKey id old).lookup (userSyncKey user) = some user :=
      lookup_index_of_unique (f := userSyncKey) (g := id) hold
        fun y hy hkey ↦ h _ _ (.inl hy) (.inl hold) hkey
    have hentry := (hmap (userSyncKey user) user).mpr
      ⟨hindex, fun n hn hkey ↦ hnew (h _ _ (.inr hn) (.inl hold) hkey ▸ hn)⟩
    exact ⟨⟨userSyncKey user, user⟩, AList.mem_lookup_iff.mp hentry, rfl⟩

variable {f : UserInfo → β} {m : String → Option β}

theorem deleteAll_apply (users : List UserInfo) (m : String → Option β) (uuid : String) :
    deleteAll users m uuid = if uuid ∈ users.map UserInfo.uuid then none else m uuid := by
  unfold deleteAll
  induction users generalizing m with
  | nil => rfl
  | cons user users ih =>
    rw [foldl_cons, ih, Function.update_apply]
    by_cases heq : uuid = user.uuid
    · simp [heq]
    · simp [heq]

theorem storeAll_of_not_mem (h : ∀ user ∈ users, user.uuid ≠ uuid) :
    storeAll f users m uuid = m uuid := by
  unfold storeAll
  induction users generalizing m with
  | nil => rfl
  | cons user users ih =>
    rw [foldl_cons, ih fun v hv ↦ h v (mem_cons_of_mem _ hv),
      Function.update_of_ne (Ne.symm (h user mem_cons_self))]

theorem storeAll_of_mem (huser : user ∈ users)
    (hunique : ∀ v ∈ users, v.uuid = user.uuid → v = user) :
    storeAll f users m user.uuid = some (f user) := by
  induction users using reverseRecOn with
  | nil => cases huser
  | append_singleton users last ih =>
    rw [storeAll, foldl_append, foldl_cons, foldl_nil, Function.update_apply]
    split
    · next heq => rw [hunique last (by simp) heq.symm]
    next hne =>
    have hmem : user ∈ users := by
      rw [mem_append, mem_singleton] at huser
      exact huser.resolve_right fun heq ↦ hne (heq ▸ rfl)
    exact ih hmem fun v hv ↦ hunique v (by simp [hv])

theorem Distinct.eq_of_uuid (h : Distinct users) {a b : UserInfo} (ha : a ∈ users)
    (hb : b ∈ users) (heq : a.uuid = b.uuid) : a = b :=
  inj_on_of_nodup_map h ha hb heq

theorem named_of_mem (h : Distinct users) (hmem : user ∈ users) :
    named users user.uuid = some user := by
  cases hfind : named users user.uuid with
  | none => exact absurd (find?_eq_none.mp hfind user hmem) (by simp)
  | some found =>
    have huuid : found.uuid = user.uuid := by simpa using find?_some hfind
    rw [h.eq_of_uuid (mem_of_find?_eq_some hfind) hmem huuid]

theorem named_eq_none (h : ∀ user ∈ users, user.uuid ≠ uuid) : named users uuid = none := by
  unfold named
  rw [find?_eq_none]
  intro user huser
  simpa using h user huser

theorem mem_of_named (h : named users uuid = some user) : user ∈ users ∧ user.uuid = uuid :=
  ⟨mem_of_find?_eq_some h, by simpa using find?_some h⟩

def diffUuids (old new : List UserInfo) : List String :=
  (compareUserList old new).1.map UserInfo.uuid ++ (compareUserList old new).2.map UserInfo.uuid

/-- A map that has the old users, except perhaps where the diff changes it, has the new ones once
the deleted users were deleted from it and the added ones stored. -/
theorem storeAll_deleteAll (h : Determined old new) (hold : Distinct old) (hnew : Distinct new)
    (hm : uuid ∉ diffUuids old new → m uuid = (named old uuid).map f) :
    storeAll f (compareUserList old new).2 (deleteAll (compareUserList old new).1 m) uuid =
      (named new uuid).map f := by
  by_cases hadded : ∃ user ∈ (compareUserList old new).2, user.uuid = uuid
  · obtain ⟨user, huser, rfl⟩ := hadded
    have hmem := ((mem_added h hnew.nodup).mp huser).1
    rw [named_of_mem hnew hmem, storeAll_of_mem huser]
    · rfl
    · intro v hv heq
      exact hnew.eq_of_uuid ((mem_added h hnew.nodup).mp hv).1 hmem heq
  · have hkept : ∀ user ∈ new, user.uuid = uuid → user ∈ old := by
      intro user huser heq
      by_contra hnot
      exact hadded ⟨user, (mem_added h hnew.nodup).mpr ⟨huser, hnot⟩, heq⟩
    rw [storeAll_of_not_mem fun user huser heq ↦ hadded ⟨user, huser, heq⟩, deleteAll_apply]
    split
    · next hdeleted =>
      obtain ⟨o, ho, rfl⟩ := List.mem_map.mp hdeleted
      obtain ⟨homem, honew⟩ := (mem_deleted h hnew.nodup).mp ho
      rw [named_eq_none]
      · rfl
      · intro user huser heq
        exact honew (hold.eq_of_uuid (hkept user huser heq) homem heq ▸ huser)
    · next hdeleted =>
      have hdiff : uuid ∉ diffUuids old new := by
        rw [diffUuids, mem_append, List.mem_map]
        exact not_or.mpr ⟨by simpa using hdeleted, by simpa using hadded⟩
      rw [hm hdiff]
      cases hnamed : named old uuid with
      | none =>
        rw [named_eq_none]
        · intro user huser heq
          rw [← heq, named_of_mem hold (hkept user huser heq)] at hnamed
          cases hnamed
      | some o =>
        obtain ⟨homem, rfl⟩ := mem_of_named hnamed
        have honew : o ∈ new := by
          by_contra hnot
          exact hdeleted (List.mem_map_of_mem ((mem_deleted h hnew.nodup).mpr ⟨homem, hnot⟩))
        rw [named_of_mem hnew honew]

/-- A call that succeeds compares lists whose keys tell the users apart, and its diff has every
user whom the core has deleted or added for calls that failed. -/
def Complete (s : State) (call : Call) : Prop :=
  Distinct call.newU ∧ ((applyUserDiffLocked s call.newU call.del call.add).2 = true →
    Determined s.userList call.newU ∧ ∀ uuid ∈ s.touched, uuid ∈ diffUuids s.userList call.newU)

structure Known (s : State) : Prop where
  distinct : Distinct s.userList
  core : ∀ uuid ∉ s.touched, s.core uuid = named s.userList uuid
  userLimitInfo : ∀ uuid, s.userLimitInfo uuid = (named s.userList uuid).map UserInfo.limitInfo
  uuidToUID : ∀ uuid, s.uuidToUID uuid = (named s.userList uuid).map UserInfo.id

theorem done_eq {answer : Answer} (h : ¬ (users ≠ [] ∧ answer.succeeds = false)) :
    answer.done users = users := by
  cases answer with
  | ok => rfl
  | failed did =>
    have hempty : users = [] := by simpa [Answer.succeeds] using h
    rw [hempty]
    rfl

/-- A call succeeds and has made the changes of its diff, or it fails and has changed the core for
some of the users of the diff. -/
theorem applyUserDiffLocked_cases (s : State) (newU : List UserInfo) (del add : Answer) :
    ((applyUserDiffLocked s newU del add).2 ∧ (applyUserDiffLocked s newU del add).1 =
        { core := storeAll id (compareUserList s.userList newU).2
            (deleteAll (compareUserList s.userList newU).1 s.core)
          userLimitInfo := storeAll UserInfo.limitInfo (compareUserList s.userList newU).2
            (deleteAll (compareUserList s.userList newU).1 s.userLimitInfo)
          uuidToUID := storeAll UserInfo.id (compareUserList s.userList newU).2
            (deleteAll (compareUserList s.userList newU).1 s.uuidToUID)
          userList := newU
          touched := [] }) ∨
    ((applyUserDiffLocked s newU del add).2 = false ∧ ∃ core touched,
      (applyUserDiffLocked s newU del add).1 = { s with core := core, touched := touched } ∧
        ∀ uuid ∉ touched, uuid ∉ s.touched ∧ core uuid = s.core uuid) := by
  unfold applyUserDiffLocked
  generalize compareUserList s.userList newU = diff
  obtain ⟨deleted, added⟩ := diff
  dsimp only
  split
  · refine .inr ⟨rfl, _, _, rfl, fun uuid huuid ↦ ?_⟩
    rw [mem_append, not_or] at huuid
    refine ⟨huuid.1, ?_⟩
    rw [deleteAll_apply, if_neg huuid.2]
  · next hdel =>
    split
    · refine .inr ⟨rfl, _, _, rfl, fun uuid huuid ↦ ?_⟩
      rw [mem_append, mem_append, not_or, not_or] at huuid
      refine ⟨huuid.1.1, ?_⟩
      rw [storeAll_of_not_mem, deleteAll_apply, if_neg huuid.1.2]
      rintro user huser rfl
      exact huuid.2 (List.mem_map_of_mem huser)
    · next hadd =>
      rw [done_eq hdel, done_eq hadd]
      exact .inl ⟨rfl, rfl⟩

theorem exactly_of_success (h : Known s) {call : Call} (hcomplete : Complete s call)
    (hok : (applyUserDiffLocked s call.newU call.del call.add).2) :
    Exactly call.newU (applyUserDiffLocked s call.newU call.del call.add).1 := by
  obtain ⟨hdistinct, hdetermined⟩ := hcomplete
  obtain ⟨hdetermined, htouched⟩ := hdetermined hok
  rcases applyUserDiffLocked_cases s call.newU call.del call.add with ⟨-, heq⟩ | ⟨hfail, -⟩
  · rw [heq]
    refine ⟨fun uuid ↦ ?_, fun uuid ↦ ?_, fun uuid ↦ ?_⟩
    · have hcore : uuid ∉ diffUuids s.userList call.newU →
          s.core uuid = (named s.userList uuid).map id := by
        intro hdiff
        rw [h.core uuid fun hmem ↦ hdiff (htouched uuid hmem), map_id_apply]
      have hnew := storeAll_deleteAll hdetermined h.distinct hdistinct hcore
      rw [map_id_apply] at hnew
      exact hnew
    · exact storeAll_deleteAll hdetermined h.distinct hdistinct fun _ ↦ h.userLimitInfo uuid
    · exact storeAll_deleteAll hdetermined h.distinct hdistinct fun _ ↦ h.uuidToUID uuid
  · rw [hok] at hfail
    cases hfail

theorem Known.step {call : Call} (h : Known s) (hcomplete : Complete s call)
    (hstep : step s call = some t) : Known t := by
  cases hstep
  rcases applyUserDiffLocked_cases s call.newU call.del call.add with
    ⟨hok, heq⟩ | ⟨-, core, touched, heq, hcore⟩
  · have hexactly := exactly_of_success h hcomplete hok
    rw [heq] at hexactly ⊢
    exact ⟨hcomplete.1, fun uuid _ ↦ hexactly.core uuid, hexactly.userLimitInfo, hexactly.uuidToUID⟩
  rw [heq]
  refine { h with core := fun uuid huuid ↦ ?_ }
  obtain ⟨hold, hsame⟩ := hcore uuid huuid
  exact hsame.trans (h.core uuid hold)

/-- After any calls, of which some failed, a call that succeeds leaves exactly the users of its
list. -/
theorem user_diff_exact (hdistinct : Distinct s.userList) (hs : Exactly s.userList s)
    (h : Reach step Complete s t) {call : Call} (hcall : Complete t call)
    (hok : (applyUserDiffLocked t call.newU call.del call.add).2 = true) :
    Exactly call.newU (applyUserDiffLocked t call.newU call.del call.add).1 := by
  have hknown : Known s :=
    ⟨hdistinct, fun uuid _ ↦ hs.core uuid, hs.userLimitInfo, hs.uuidToUID⟩
  have hbefore : Known t :=
    h.invariant hknown fun _ _ _ hold hcomplete hstep ↦ hold.step hcomplete hstep
  exact exactly_of_success hbefore hcall hok

def plainUser (uuid : String) (id : Int) : UserInfo := ⟨id, uuid, 0, 0, "", "", "", fun _ ↦ none⟩

def serving (user : UserInfo) : State where
  core := named [user]
  userLimitInfo := fun uuid ↦ (named [user] uuid).map UserInfo.limitInfo
  uuidToUID := fun uuid ↦ (named [user] uuid).map UserInfo.id
  userList := [user]
  touched := []

def refusedCall : Call := ⟨[plainUser "b" 2], .ok, .failed fun _ ↦ false⟩

theorem user_diff_exact_retried : ∃ t, Reach step Complete (serving (plainUser "a" 1)) t ∧
    t.touched = ["a"] ∧ t.userList.map UserInfo.uuid = ["a"] ∧
    Exactly [plainUser "b" 2] (applyUserDiffLocked t [plainUser "b" 2] .ok .ok).1 := by
  have hserving : Exactly [plainUser "a" 1] (serving (plainUser "a" 1)) :=
    ⟨fun _ ↦ rfl, fun _ ↦ rfl, fun _ ↦ rfl⟩
  have hdistinct (uuid : String) (id : Int) : Distinct [plainUser uuid id] :=
    List.nodup_singleton _
  have hrefused : Complete (serving (plainUser "a" 1)) refusedCall :=
    ⟨hdistinct _ _, fun hok ↦ absurd hok (by decide +kernel)⟩
  have hdetermined : Determined [plainUser "a" 1] [plainUser "b" 2] := by
    intro a b ha hb hkey
    simp only [List.mem_singleton] at ha hb
    rcases ha with rfl | rfl <;> rcases hb with rfl | rfl
    · rfl
    · exact absurd hkey (by decide +kernel)
    · exact absurd hkey (by decide +kernel)
    · rfl
  have hreach : Reach step Complete (serving (plainUser "a" 1)) _ := .one refusedCall hrefused rfl
  exact ⟨_, hreach, by decide +kernel, rfl, user_diff_exact (hdistinct _ _) hserving hreach
    (show Complete _ ⟨[plainUser "b" 2], .ok, .ok⟩ from
      ⟨hdistinct _ _, fun _ ↦ ⟨hdetermined, by decide +kernel⟩⟩) (by decide +kernel)⟩

/-- A user whose id changed keeps the old one. And a user who was deleted for a list that failed
is not added again for one that has the user. -/
theorem user_diff_stale :
    ((applyUserDiffLocked (serving (plainUser "a" 1)) [plainUser "a" 2] .ok .ok).2 = true ∧
      ((applyUserDiffLocked (serving (plainUser "a" 1)) [plainUser "a" 2] .ok .ok).1.core "a").map
        UserInfo.id = some 1) ∧
    ∃ t, Steps step (serving (plainUser "a" 1)) t ∧
      (applyUserDiffLocked t [plainUser "a" 1] .ok .ok).2 = true ∧
      ((applyUserDiffLocked t [plainUser "a" 1] .ok .ok).1.core "a").isNone = true := by
  refine ⟨⟨by decide +kernel, by decide +kernel⟩, ?_⟩
  exact exists_steps [refusedCall] _ (by decide +kernel)

end AnixAgent.Controller.UserSync
