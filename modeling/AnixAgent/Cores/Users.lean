import AnixAgent.Controller.UserSync
import AnixAgent.Lib.Merging
import AnixAgent.WireGuard.Machine

namespace AnixAgent.Cores.Users

open Lib.Tables Lib.Merging List Option
open Controller.UserSync (UserInfo)
open WireGuard.Machine (UserTraffic insertUsers)

/-- `WireGuard.AddUsers` under the lock of a node with these users. Each user comes with whether
`validateWireGuardUser` takes it; `applied` is what the first `applyLocked` answers. -/
def addPeers (previous : Table String UserInfo) (users : List (UserInfo × Bool)) (applied : Bool) :
    Table String UserInfo × Option Nat :=
  let (after, valid) := insertUsers UserInfo.uuid users previous
  if valid then
    if applied then (after, some users.length) else (previous, none)
  else (after, none)

/-- A user of the kernel; `ρ` are its other fields. -/
structure ApiUser (ρ : Type) where
  name : String
  record : ρ
  deriving DecidableEq

structure Node (ρ : Type) where
  shadowsocks : Bool
  created : Bool
  users : Table String (ApiUser ρ)

variable {α ρ : Type}

def Node.create (n : Node ρ) (ok : Bool) : Node ρ × Bool :=
  if n.shadowsocks ∧ n.users.entries = [] then (n, true)
  else if ok then ({ n with created := true }, true)
  else (n, false)

def insertAll (users : List (ApiUser ρ)) (t : Table String (ApiUser ρ)) :
    Table String (ApiUser ρ) :=
  users.foldl (fun t user ↦ t.insert user.name user) t

/-- `Core.AddUsers` of a node; `apiUsersFor` converts a user, and `ok` is what the kernel answers. -/
def Node.addUsers (apiUsersFor : α → Option (List (ApiUser ρ))) (n : Node ρ) (params : List α)
    (ok : Bool) : Node ρ × Option Nat :=
  match params.mapM apiUsersFor with
  | none => (n, none)
  | some converted =>
    let users := converted.flatten
    if users.isEmpty then (n, some 0)
    else if n.created then
      if ok then ({ n with users := insertAll users n.users }, some users.length) else (n, none)
    else
      match { n with users := insertAll users n.users }.create ok with
      | (n, true) => (n, some users.length)
      | (n, false) =>
        ({ n with users := (users.map (·.name)).foldl (fun t name ↦ t.erase name) n.users }, none)

/-- What the users before the first invalid one are recorded as: of those with one uuid it is the
last. -/
def leading (users : List (UserInfo × Bool)) : Table String UserInfo :=
  index (·.1.uuid) (·.1) (users.takeWhile (·.2))

theorem insertUsers_eq (users : List (UserInfo × Bool)) (t : Table String UserInfo) :
    insertUsers UserInfo.uuid users t =
      ((users.takeWhile (·.2)).foldl (fun t u ↦ t.insert u.1.uuid u.1) t, users.all (·.2)) := by
  induction users generalizing t with
  | nil => rfl
  | cons user users ih =>
    rw [insertUsers, all_cons]
    split
    · next hvalid => rw [ih, takeWhile_cons_of_pos hvalid, foldl_cons, hvalid, Bool.true_and]
    · next hvalid => simp [hvalid]

theorem lookup_insertAll_erase (users : List (ApiUser ρ)) (t : Table String (ApiUser ρ))
    (name : String) :
    ((users.map (·.name)).foldl (fun t name ↦ t.erase name) (insertAll users t)).lookup name =
      if name ∈ users.map (·.name) then none else t.lookup name := by
  rw [lookup_foldl_erase]
  split
  · rfl
  next hmem =>
  have hnone : (index (·.name) id users).lookup name = none :=
    lookup_index_eq_none.mpr fun u hu hname ↦ hmem (List.mem_map.mpr ⟨u, hu, hname⟩)
  exact (lookup_foldl_insert _ id users t name).trans (by rw [hnone, none_or])

theorem insertAll_entries_ne_nil {users : List (ApiUser ρ)} (hne : users.isEmpty = false)
    (t : Table String (ApiUser ρ)) : (insertAll users t).entries ≠ [] := by
  induction users using reverseRecOn with
  | nil => cases hne
  | append_singleton users user _ =>
    unfold insertAll
    rw [foldl_append, foldl_cons, foldl_nil, AList.entries_insert]
    exact cons_ne_nil _ _

theorem addPeers_kept_iff (previous : Table String UserInfo) (users : List (UserInfo × Bool))
    (applied : Bool) :
    ((addPeers previous users applied).2 = none →
      ∀ uuid, (addPeers previous users applied).1.lookup uuid = previous.lookup uuid) ↔
    users.all (·.2) = true ∨
      ∀ uuid, ∀ user ∈ (leading users).lookup uuid, previous.lookup uuid = some user := by
  unfold addPeers
  rw [insertUsers_eq]
  cases users.all (·.2) with
  | true => cases applied <;> simp
  | false =>
    simp only [Bool.false_eq_true, if_false, false_or, forall_const, lookup_foldl_insert]
    refine forall_congr' fun uuid ↦ ?_
    unfold leading
    cases (index (·.1.uuid) (·.1) (users.takeWhile (·.2))).lookup uuid with
    | none => simp
    | some user => simp [eq_comm]

theorem addUsers_kept_iff (apiUsersFor : α → Option (List (ApiUser ρ))) (n : Node ρ)
    (params : List α) (ok : Bool) :
    ((n.addUsers apiUsersFor params ok).2 = none →
      ∀ name, (n.addUsers apiUsersFor params ok).1.users.lookup name = n.users.lookup name) ↔
    n.created = true ∨ ok = true ∨ ∀ converted ∈ params.mapM apiUsersFor, ∀ user ∈ converted.flatten,
      n.users.lookup user.name = none := by
  unfold Node.addUsers
  cases hconverted : params.mapM apiUsersFor with
  | none => simp
  | some converted =>
  simp only [Option.mem_def, Option.some.injEq, forall_eq']
  generalize converted.flatten = users
  cases hempty : users.isEmpty with
  | true => simp [isEmpty_iff.mp hempty]
  | false =>
  cases hcreated : n.created with
  | true => cases ok <;> simp
  | false =>
  -- a list with a user is not empty once it is recorded, so the kernel is asked
  have hentries := insertAll_entries_ne_nil hempty n.users
  cases ok with
  | true => simp [Node.create, hentries]
  | false =>
    simp only [Node.create, hentries, and_false, Bool.false_eq_true, if_false, forall_const,
      lookup_insertAll_erase, false_or]
    constructor
    · intro h user huser
      rw [← h user.name, if_pos (List.mem_map_of_mem huser)]
    · intro h name
      split
      · next hmem =>
        obtain ⟨user, huser, rfl⟩ := List.mem_map.mp hmem
        exact (h user huser).symm
      · rfl

/-- When a failed `AddUsers` keeps the recorded users: for WireGuard exactly if all users are valid
or those before the first invalid one are recorded as they are, for the kernel exactly if the
inbound exists, or is taken, or no name is recorded. -/
theorem failed_add_keeps_users (previous : Table String UserInfo) (users : List (UserInfo × Bool))
    (apiUsersFor : α → Option (List (ApiUser ρ))) (n : Node ρ) (params : List α) (ok : Bool) :
    (((addPeers previous users ok).2 = none →
        ∀ uuid, (addPeers previous users ok).1.lookup uuid = previous.lookup uuid) ↔
      users.all (·.2) = true ∨
        ∀ uuid, ∀ user ∈ (leading users).lookup uuid, previous.lookup uuid = some user) ∧
    (((n.addUsers apiUsersFor params ok).2 = none →
        ∀ name, (n.addUsers apiUsersFor params ok).1.users.lookup name = n.users.lookup name) ↔
      n.created = true ∨ ok = true ∨ ∀ converted ∈ params.mapM apiUsersFor,
        ∀ user ∈ converted.flatten, n.users.lookup user.name = none) :=
  ⟨addPeers_kept_iff previous users ok, addUsers_kept_iff apiUsersFor n params ok⟩

/-- Two users of a node, and a new record for the first of them, which the kernel refuses. -/
def refusedAdd (created : Bool) : Node String × Option Nat :=
  (⟨true, created, insertAll [⟨"1", "old"⟩, ⟨"2", "old"⟩] ∅⟩ : Node String).addUsers
    (fun u : ApiUser String ↦ some [u]) [⟨"1", "new"⟩] false

theorem failed_add_keeps_users_created :
    (refusedAdd true).1.users.lookup "1" = some ⟨"1", "old"⟩ :=
  ((failed_add_keeps_users ∅ [] _ _ _ _).2.mpr (.inl rfl) rfl "1").trans rfl

def samplePeer (uuid key : String) : UserInfo := ⟨1, uuid, 0, 0, "10.0.0.2", key, "", fun _ ↦ none⟩

/-- A valid user before an invalid one is recorded, in place of an old record; and when the inbound
is not created, the user that had an old record has none. -/
theorem failed_add_changes_users :
    ((addPeers ((∅ : Table String UserInfo).insert "a" (samplePeer "a" "old"))
        [(samplePeer "a" "new", true), (samplePeer "b" "", false)] true).2 = none ∧
      ((addPeers ((∅ : Table String UserInfo).insert "a" (samplePeer "a" "old"))
        [(samplePeer "a" "new", true), (samplePeer "b" "", false)] true).1.lookup "a").map
          (·.wireGuardPublicKey) = some "new") ∧
    (refusedAdd false).2 = none ∧ (refusedAdd false).1.users.lookup "1" = none :=
  ⟨⟨rfl, rfl⟩, rfl, rfl⟩

/-- `strconv.ParseInt` for the base 10 and 32 bits. -/
def parseInt32 (s : List Char) : Option Int :=
  let negative := s.head? = some '-'
  let digits := if negative ∨ s.head? = some '+' then s.tail else s
  let n : Int := digits.foldl (fun n c ↦ 10 * n + (c.toNat - '0'.toNat)) 0
  let n := if negative then -n else n
  if digits ≠ [] ∧ digits.all Char.isDigit ∧ -2 ^ 31 ≤ n ∧ n < 2 ^ 31 then some n else none

def userKeySuffix : List Char := ['.', 'k']

def panelUID (name : String) : Option Int :=
  let s := name.toList
  (parseInt32 (if userKeySuffix.isSuffixOf s then s.dropLast.dropLast else s)).filter (0 < ·)

structure ApiTraffic where
  name : String
  up : Int
  down : Int

def ApiTraffic.key (e : ApiTraffic) : Option Int :=
  if e.up + e.down = 0 then none else panelUID e.name

def ApiTraffic.fresh (e : ApiTraffic) : UserTraffic := ⟨(panelUID e.name).getD 0, e.up, e.down⟩

def ApiTraffic.addTo (e : ApiTraffic) (v : UserTraffic) : UserTraffic :=
  { v with upload := v.upload + e.up, download := v.download + e.down }

/-- The loop of `GetUserTrafficSlice`; the sums are below 2^63. -/
def getUserTrafficSlice (traffic : List ApiTraffic) : List UserTraffic :=
  (merge ApiTraffic.key ApiTraffic.fresh ApiTraffic.addTo traffic).2

structure ApiDestination where
  name : String
  host : String
  protocol : String
  up : Int
  down : Int
  connections : Int

structure Destination where
  uid : Int
  user : String
  domain : String
  protocol : String
  upload : Int
  download : Int
  connections : Int

def ApiDestination.addTo (e : ApiDestination) (v : Destination) : Destination := { v with
  upload := v.upload + max e.up 0
  download := v.download + max e.down 0
  connections := v.connections + max e.connections 0 }

def Destination.key (v : Destination) : Int × String × String := (v.uid, v.domain, v.protocol)

/-- `domain` is `destinations.Name`. -/
def ApiDestination.key (domain : String → String) (e : ApiDestination) :
    Option (Int × String × String) :=
  if e.up = 0 ∧ e.down = 0 ∧ e.connections = 0 then none
  else (panelUID e.name).map (·, domain e.host, e.protocol)

def ApiDestination.fresh (domain : String → String) (e : ApiDestination) : Destination :=
  let uid := (panelUID e.name).getD 0
  e.addTo ⟨uid, toString uid, domain e.host, e.protocol, 0, 0, 0⟩

def foldDestinations (domain : String → String) (entries : List ApiDestination) :
    List Destination :=
  (merge (ApiDestination.key domain) (ApiDestination.fresh domain) ApiDestination.addTo entries).2

theorem ApiTraffic.uid_fresh (e : ApiTraffic) : ∀ k ∈ e.key, e.fresh.uid = k := by
  intro k hk
  have huid := (ite_none_left_eq_some.mp hk).2
  simp [fresh, huid]

theorem ApiTraffic.uid_addTo (e : ApiTraffic) (v : UserTraffic) : (e.addTo v).uid = v.uid := rfl

theorem total_getUserTrafficSlice {f : UserTraffic → Int} {g : ApiTraffic → Int}
    {traffic : List ApiTraffic} (hfresh : ∀ e, f (ApiTraffic.fresh e) = g e)
    (hadd : ∀ (e : ApiTraffic) v, f (e.addTo v) = f v + g e)
    (hzero : ∀ e ∈ traffic, e.up + e.down = 0 → g e = 0) (uid : Int) :
    total (·.uid = uid) f (getUserTrafficSlice traffic) =
      total (panelUID ·.name = some uid) g traffic := by
  apply total_merge ApiTraffic.uid_fresh ApiTraffic.uid_addTo (fun _ _ ↦ .rfl)
  · intro e v hk
    rw [(ite_none_left_eq_some.mp hk).2, Option.some.injEq]
  · intro e he hk huid
    apply hzero e he
    by_contra hne
    rw [ApiTraffic.key, if_neg hne, huid] at hk
    cases hk
  · exact fun e _ ↦ hfresh e
  · exact fun e _ v ↦ hadd e v

theorem ApiDestination.key_fresh (domain : String → String) (e : ApiDestination) :
    ∀ k ∈ e.key domain, (e.fresh domain).key = k := by
  intro k hk
  obtain ⟨uid, huid, rfl⟩ := map_eq_some_iff.mp (ite_none_left_eq_some.mp hk).2
  simp [fresh, addTo, Destination.key, huid]

theorem ApiDestination.key_addTo (e : ApiDestination) (v : Destination) :
    (e.addTo v).key = v.key := rfl

theorem total_foldDestinations {domain : String → String} {f : Destination → Int}
    {g : ApiDestination → Int} {entries : List ApiDestination}
    (hzero : ∀ uid user d p, f ⟨uid, user, d, p, 0, 0, 0⟩ = 0)
    (hadd : ∀ e ∈ entries, ∀ v, f (e.addTo v) = f v + g e)
    (hskip : ∀ e ∈ entries, e.up = 0 ∧ e.down = 0 ∧ e.connections = 0 → g e = 0)
    (uid : Int) (protocol : String) :
    total (fun v ↦ v.uid = uid ∧ v.protocol = protocol) f (foldDestinations domain entries) =
      total (fun e ↦ panelUID e.name = some uid ∧ e.protocol = protocol) g entries := by
  apply total_merge (ApiDestination.key_fresh domain) ApiDestination.key_addTo (fun _ _ ↦ .rfl)
  · intro e v hk
    obtain ⟨uid, huid, hkey⟩ := map_eq_some_iff.mp (ite_none_left_eq_some.mp hk).2
    obtain ⟨rfl, hrest⟩ := Prod.mk.inj hkey
    rw [huid, (Prod.mk.inj hrest).2, Option.some.injEq]
  · intro e he hk huid
    apply hskip e he
    by_contra hne
    rw [ApiDestination.key, if_neg hne, huid.1] at hk
    cases hk
  · intro e he
    rw [ApiDestination.fresh, hadd e he, hzero, Int.zero_add]
  · exact hadd

/-- **Traffic.** A user is reported once, with all the traffic of its names, and the destinations
of a user keep what its entries count. -/
theorem traffic_merged (domain : String → String) (traffic : List ApiTraffic)
    (entries : List ApiDestination) (htraffic : ∀ e ∈ traffic, 0 ≤ e.up ∧ 0 ≤ e.down)
    (hentries : ∀ e ∈ entries, 0 ≤ e.up ∧ 0 ≤ e.down ∧ 0 ≤ e.connections) :
    ((getUserTrafficSlice traffic).map (·.uid)).Nodup ∧
    (∀ uid, total (·.uid = uid) (·.upload) (getUserTrafficSlice traffic) =
        total (panelUID ·.name = some uid) (·.up) traffic ∧
      total (·.uid = uid) (·.download) (getUserTrafficSlice traffic) =
        total (panelUID ·.name = some uid) (·.down) traffic) ∧
    ((foldDestinations domain entries).map Destination.key).Nodup ∧
    ∀ uid protocol, ∀ fg ∈ [(Destination.upload, ApiDestination.up),
        (Destination.download, ApiDestination.down),
        (Destination.connections, ApiDestination.connections)],
      total (fun v ↦ v.uid = uid ∧ v.protocol = protocol) fg.1 (foldDestinations domain entries) =
        total (fun e ↦ panelUID e.name = some uid ∧ e.protocol = protocol) fg.2 entries := by
  have hparts {e : ApiTraffic} (he : e ∈ traffic) (hsum : e.up + e.down = 0) :
      e.up = 0 ∧ e.down = 0 := by
    have := htraffic e he
    omega
  refine ⟨(indexed_merge ApiTraffic.uid_fresh ApiTraffic.uid_addTo traffic).nodup,
    fun uid ↦ ⟨?_, ?_⟩,
    (indexed_merge (ApiDestination.key_fresh domain) ApiDestination.key_addTo entries).nodup,
    fun uid protocol fg hfg ↦ ?_⟩
  · apply total_getUserTrafficSlice (fun _ ↦ rfl) (fun _ _ ↦ rfl)
    exact fun e he hsum ↦ (hparts he hsum).1
  · apply total_getUserTrafficSlice (fun _ ↦ rfl) (fun _ _ ↦ rfl)
    exact fun e he hsum ↦ (hparts he hsum).2
  simp only [List.mem_cons, List.not_mem_nil, or_false] at hfg
  rcases hfg with rfl | rfl | rfl <;>
    refine total_foldDestinations (fun _ _ _ _ ↦ rfl) (fun e he v ↦ ?_)
      (fun e he h ↦ by simp [h]) uid protocol <;>
    simp [ApiDestination.addTo, hentries e he]

theorem traffic_merged_sample :
    total (·.uid = 7) (·.upload) (getUserTrafficSlice [⟨"7", 1, 2⟩, ⟨"8", 5, 0⟩, ⟨"7.k", 3, 0⟩]) =
      4 :=
  ((traffic_merged id [⟨"7", 1, 2⟩, ⟨"8", 5, 0⟩, ⟨"7.k", 3, 0⟩] [] (by simp)
    (by simp)).2.1 7).1.trans (by decide)

end AnixAgent.Cores.Users
