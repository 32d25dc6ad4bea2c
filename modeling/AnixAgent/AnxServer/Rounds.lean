import AnixAgent.AnxServer.Machine
import AnixAgent.Lib.Pending

namespace AnixAgent.AnxServer.Rounds

open Lib.Pending Lib.Reconcile Lib.Runs Lib.Tables Network.Plan Machine List Option

variable {userID : List UInt8 → UserID} {s : Session} {W : List Accept}

structure Held (s : Session) : Prop where
  links : s.process.links = s.links
  routes : ∀ uid id, s.process.routes.lookup uid = some id → s.process.links.lookup id ≠ none

def Removable (s : Session) : Rpc → Prop
  | .removeLinks ids => ∀ uid id, s.process.routes.lookup uid = some id → id ∉ ids
  | _ => True

theorem admitLinks_safely (h : Held s) (W : List Accept) :
    Safely (Session.exec userID) Held Removable s (s.admitLinks W) := by
  have hremove : Safely (Session.exec userID) Held Removable s
      (if s.removing W = [] then [] else [.removeUsers (s.removing W)]) :=
    .unless h fun _ ↦ ⟨h, trivial, h.links, h.routes⟩
  have h' := hremove.done
  exact hremove.append (.unless h' fun _ ↦ ⟨h', trivial, h'.links, h'.routes⟩)

theorem lookup_wantedLinks (W : List Accept) (id : String) :
    (wantedLinks W).lookup id = ((relayed W).find? (·.2.linkId = id)).map (·.2) := by
  rw [wantedLinks, lookup_foldl_insertNew]
  simp

theorem linkId_of_lookup_wantedLinks {id : String} {link : Link}
    (h : (wantedLinks W).lookup id = some link) : link.linkId = id := by
  rw [lookup_wantedLinks, map_eq_some_iff] at h
  obtain ⟨x, hx, rfl⟩ := h
  simpa using find?_some hx

theorem lookup_links_relayed (s : Session) (W : List Accept) (id : String) :
    ((s.comingLinks W).foldl (fun t l ↦ t.insert l.linkId l)
      ((s.goingLinks W).foldl (fun t id ↦ t.erase id) s.links)).lookup id =
        (wantedLinks W).lookup id := by
  refine lookup_reconciled (f := fun l : Link ↦ l.linkId) (g := fun l ↦ l) ?_ ?_ ?_ id
  · intro k
    rw [Session.goingLinks, mem_insertionSort, mem_stale]
  · intro l hl
    rw [Session.comingLinks, mem_insertionSort, List.mem_map] at hl
    obtain ⟨⟨k, b⟩, hmem, rfl⟩ := hl
    have hb := (mem_fresh.mp hmem).1
    rw [linkId_of_lookup_wantedLinks hb]
    exact hb
  · intro k b hb hne
    refine ⟨b, ?_, linkId_of_lookup_wantedLinks hb⟩
    rw [Session.comingLinks, mem_insertionSort, List.mem_map]
    exact ⟨(k, b), mem_fresh.mpr ⟨hb, hne⟩, rfl⟩

theorem mem_routeTable {x : UserID × String} : x ∈ s.routeTable W ↔
    ∃ y ∈ relayed W, ∃ a, s.admitted.lookup y.1.linkID = some a ∧ x = (a.userID, y.2.linkId) := by
  simp only [Session.routeTable, mem_filterMap, map_eq_some_iff]
  constructor
  · rintro ⟨y, hy, a, ha, rfl⟩
    exact ⟨y, hy, a, ha, rfl⟩
  · rintro ⟨y, hy, a, ha, rfl⟩
    exact ⟨y, hy, a, ha, rfl⟩

def linked (s : Session) (W : List Accept) : List Rpc :=
  (if s.goingLinks W = [] then [] else [.clearLinkRoutes, .removeLinks (s.goingLinks W)]) ++
    if s.comingLinks W = [] then [] else [.addLinks (s.comingLinks W)]

theorem relayCalls_eq (s : Session) (W : List Accept) :
    s.relayCalls W = linked s W ++ [.setLinkRoutes
      ((s.routeTable W).insertionSort fun x y ↦ x.1 ≤ y.1)
      (index (·.1) (·.2) (s.routeTable W))] := by
  simp only [Session.relayCalls, linked, append_assoc]

theorem links_linked (userID : List UInt8 → UserID) (s : Session) (W : List Accept) :
    ((linked s W).foldl (Session.exec userID) s).links =
      (s.comingLinks W).foldl (fun t l ↦ t.insert l.linkId l)
        ((s.goingLinks W).foldl (fun t id ↦ t.erase id) s.links) := by
  unfold linked
  rw [foldl_append]
  by_cases hgoing : s.goingLinks W = [] <;> by_cases hcoming : s.comingLinks W = []
  · rw [if_pos hgoing, if_pos hcoming, hgoing, hcoming]
    rfl
  · rw [if_pos hgoing, if_neg hcoming, hgoing]
    rfl
  · rw [if_neg hgoing, if_pos hcoming, hcoming]
    rfl
  · rw [if_neg hgoing, if_neg hcoming]
    rfl

theorem linked_safely (h : Held s) (W : List Accept) :
    Safely (Session.exec userID) Held Removable s (linked s W) := by
  have hgoing : Safely (Session.exec userID) Held Removable s (if s.goingLinks W = [] then []
        else [.clearLinkRoutes, .removeLinks (s.goingLinks W)]) := by
    refine .unless h fun _ ↦ ⟨h, trivial, ⟨h.links, ?_⟩, ?_, ⟨?_, ?_⟩⟩
    · intro uid id hroute
      cases hroute
    · intro uid id hroute
      cases hroute
    · simp only [Session.exec, h.links]
    · intro uid id hroute
      cases hroute
  have h' := hgoing.done
  refine hgoing.append (.unless h' fun _ ↦ ⟨h', trivial, ⟨?_, ?_⟩⟩)
  · simp only [Session.exec, h'.links]
  intro uid id hroute hnone
  refine h'.routes uid id hroute ?_
  simp only [Session.exec, lookup_foldl_insert] at hnone
  exact (or_eq_none_iff.mp hnone).2

theorem relay_safely (h : Held s) {calls : List Rpc} (hcalls : s.relay W = .ok calls) :
    Safely (Session.exec userID) Held Removable s calls := by
  unfold Session.relay at hcalls
  split at hcalls
  · cases hcalls
  cases hcalls
  split
  · exact h
  have hlinked : Safely (Session.exec userID) Held Removable s (linked s W) := linked_safely h W
  have h' := hlinked.done
  rw [relayCalls_eq]
  refine hlinked.append ⟨h', trivial, h'.links, ?_⟩
  intro uid id hroute
  obtain ⟨x, hx, -, rfl⟩ := exists_of_lookup_index hroute
  rw [mem_insertionSort] at hx
  obtain ⟨y, hy, a, -, rfl⟩ := mem_routeTable.mp hx
  change (foldl (Session.exec userID) s (linked s W)).process.links.lookup _ ≠ none
  rw [h'.links, links_linked, lookup_links_relayed, lookup_wantedLinks, Ne, map_eq_none_iff,
    find?_eq_none]
  exact fun h ↦ h y hy (by simp)

theorem dial_safely (h : Held s) (W : List Accept) :
    Safely (Session.exec userID) Held Removable s (s.dial W) := by
  unfold Session.dial
  simp only
  split
  · exact h
  · exact ⟨h, trivial, h.links, h.routes⟩

structure Distinct (userID : List UInt8 → UserID) (W : List Accept) : Prop where
  links : (W.map (·.linkID)).Nodup
  users : (W.map fun a ↦ userID a.linkKey).Nodup

structure Synced (userID : List UInt8 → UserID) (s : Session) : Prop where
  users : ∀ uid key link, s.process.users.lookup uid = some ⟨key, link⟩ ↔
    s.admitted.lookup link = some ⟨key, uid⟩
  ids : ∀ link key uid, s.admitted.lookup link = some ⟨key, uid⟩ → uid = userID key
  routes : ∀ uid, s.process.routes.lookup uid = if s.set then s.routes.lookup uid else none
  dials : s.process.dials = s.dials

def Admits (userID : List UInt8 → UserID) (W : List Accept) (s : Session) : Prop :=
  ∀ link key uid, s.admitted.lookup link = some ⟨key, uid⟩ ↔
    ∃ a ∈ W, a.linkID = link ∧ a.linkKey = key ∧ userID key = uid

variable {a b : Accept}

theorem Distinct.eq_of_linkID (h : Distinct userID W) (ha : a ∈ W) (hb : b ∈ W)
    (heq : a.linkID = b.linkID) : a = b :=
  inj_on_of_nodup_map h.links ha hb heq

theorem Distinct.eq_of_userID (h : Distinct userID W) (ha : a ∈ W) (hb : b ∈ W)
    (heq : userID a.linkKey = userID b.linkKey) : a = b :=
  inj_on_of_nodup_map h.users ha hb heq

theorem synced_fresh : Synced userID .fresh where
  users uid key link := by simp [Session.fresh]
  ids link key uid h := by cases h
  routes uid := by rfl
  dials := rfl

theorem keeps_iff : s.keeps a ↔ ∃ uid, s.admitted.lookup a.linkID = some ⟨a.linkKey, uid⟩ := by
  simp only [Session.keeps, Option.any_eq_true, decide_eq_true_eq]
  constructor
  · rintro ⟨⟨key, uid⟩, hlookup, rfl⟩
    exact ⟨uid, hlookup⟩
  · rintro ⟨uid, hlookup⟩
    exact ⟨_, hlookup, rfl⟩

theorem mem_adding : a ∈ s.adding W ↔ a ∈ W ∧ s.keeps a = false := by
  simp [Session.adding]

theorem mem_removing {link : String} {uid : UserID} : (link, uid) ∈ s.removing W ↔
    (∃ key, s.admitted.lookup link = some ⟨key, uid⟩) ∧ ∀ a ∈ W, s.keeps a → a.linkID ≠ link := by
  simp only [Session.removing, List.mem_map, mem_filter, decide_eq_true_eq, Prod.mk.injEq]
  constructor
  · rintro ⟨⟨l, key, u⟩, ⟨hmem, hnot⟩, rfl, rfl⟩
    refine ⟨⟨key, AList.mem_lookup_iff.mpr hmem⟩, ?_⟩
    intro a ha hkeeps heq
    exact hnot ⟨a, ⟨ha, hkeeps⟩, heq⟩
  · rintro ⟨⟨key, hlookup⟩, hnot⟩
    refine ⟨⟨link, key, uid⟩, ⟨AList.mem_lookup_iff.mp hlookup, ?_⟩, rfl, rfl⟩
    rintro ⟨a, ⟨ha, hkeeps⟩, heq⟩
    exact hnot a ha hkeeps heq

theorem foldl_admitLinks (s : Session) (W : List Accept) :
    (s.admitLinks W).foldl (Session.exec userID) s =
      (s.exec userID (.removeUsers (s.removing W))).exec userID (.addUsers (s.adding W)) := by
  unfold Session.admitLinks
  rw [foldl_append]
  have hremove : foldl (Session.exec userID) s
      (if s.removing W = [] then [] else [.removeUsers (s.removing W)]) =
        s.exec userID (.removeUsers (s.removing W)) := by
    split
    · next hnil =>
      rw [hnil]
      rfl
    · rfl
  rw [hremove]
  split
  · next hnil =>
    rw [hnil.1]
    rfl
  · rfl

theorem lookup_removed (s : Session) (links : List (String × UserID)) (link : String) :
    (s.exec userID (.removeUsers links)).admitted.lookup link =
      if link ∈ links.map (·.1) then none else s.admitted.lookup link := by
  rw [← lookup_foldl_erase, foldl_map]
  rfl

theorem lookup_users_removed (s : Session) (links : List (String × UserID)) (uid : UserID) :
    (s.exec userID (.removeUsers links)).process.users.lookup uid =
      if uid ∈ links.map (·.2) then none else s.process.users.lookup uid := by
  rw [← lookup_foldl_erase, foldl_map]
  rfl

theorem lookup_kept {link : String} {key : List UInt8} {uid : UserID} :
    (s.exec userID (.removeUsers (s.removing W))).admitted.lookup link = some ⟨key, uid⟩ ↔
      s.admitted.lookup link = some ⟨key, uid⟩ ∧ ∃ a ∈ W, a.linkID = link ∧ a.linkKey = key := by
  rw [lookup_removed]
  constructor
  · intro h
    split at h
    · cases h
    next hnot =>
    refine ⟨h, ?_⟩
    by_contra hnone
    refine hnot (List.mem_map.mpr ⟨(link, uid), mem_removing.mpr ⟨⟨key, h⟩, ?_⟩, rfl⟩)
    rintro a ha hkeeps rfl
    obtain ⟨uid', hlookup⟩ := keeps_iff.mp hkeeps
    rw [h] at hlookup
    cases hlookup
    exact hnone ⟨a, ha, rfl, rfl⟩
  · rintro ⟨h, a, ha, rfl, rfl⟩
    rw [if_neg, h]
    intro hmem
    obtain ⟨⟨link, uid'⟩, hremoving, rfl⟩ := List.mem_map.mp hmem
    exact (mem_removing.mp hremoving).2 a ha (keeps_iff.mpr ⟨uid, h⟩) rfl

theorem synced_removed (h : Synced userID s) (W : List Accept) :
    Synced userID (s.exec userID (.removeUsers (s.removing W))) where
  users uid key link := by
    rw [lookup_users_removed, lookup_removed]
    constructor
    · intro huser
      split at huser
      · cases huser
      next hnot =>
      have hlookup := (h.users uid key link).mp huser
      rw [if_neg, hlookup]
      intro hmem
      obtain ⟨⟨link, uid'⟩, hremoving, rfl⟩ := List.mem_map.mp hmem
      obtain ⟨⟨key', hlookup'⟩, -⟩ := mem_removing.mp hremoving
      rw [hlookup] at hlookup'
      cases hlookup'
      exact hnot (List.mem_map.mpr ⟨_, hremoving, rfl⟩)
    · intro hlink
      split at hlink
      · cases hlink
      next hnot =>
      have huser := (h.users uid key link).mpr hlink
      rw [if_neg, huser]
      intro hmem
      obtain ⟨⟨link', uid⟩, hremoving, rfl⟩ := List.mem_map.mp hmem
      obtain ⟨⟨key', hlookup'⟩, -⟩ := mem_removing.mp hremoving
      have huser' := (h.users uid key' link').mpr hlookup'
      rw [huser] at huser'
      cases huser'
      exact hnot (List.mem_map.mpr ⟨_, hremoving, rfl⟩)
  ids link key uid hlookup := h.ids link key uid (lookup_kept.mp hlookup).1
  routes := h.routes
  dials := h.dials

theorem lookup_added (s : Session) (accepts : List Accept) (link : String) :
    (s.exec userID (.addUsers accepts)).admitted.lookup link =
      ((index (·.linkID) (fun a ↦ Admitted.mk a.linkKey (userID a.linkKey)) accepts).lookup link).or
        (s.admitted.lookup link) :=
  lookup_foldl_insert _ _ _ _ _

theorem lookup_users_added (s : Session) (accepts : List Accept) (uid : UserID) :
    (s.exec userID (.addUsers accepts)).process.users.lookup uid =
      ((index (fun a : Accept ↦ userID a.linkKey) (fun a ↦ User.mk a.linkKey a.linkID)
        accepts).lookup uid).or (s.process.users.lookup uid) :=
  lookup_foldl_insert _ _ _ _ _

theorem lookup_admitLinks_ne_none (ha : a ∈ W) :
    ((s.admitLinks W).foldl (Session.exec userID) s).admitted.lookup a.linkID ≠ none := by
  rw [foldl_admitLinks, lookup_added]
  intro hnone
  obtain ⟨hadded, hkept⟩ := or_eq_none_iff.mp hnone
  cases hkeeps : s.keeps a with
  | false => exact lookup_index_ne_none (mem_adding.mpr ⟨ha, hkeeps⟩) hadded
  | true =>
    obtain ⟨uid, hlookup⟩ := keeps_iff.mp hkeeps
    rw [lookup_kept.mpr ⟨hlookup, a, ha, rfl, rfl⟩] at hkept
    cases hkept

theorem kept_iff (hsynced : Synced userID s) {link : String} {key : List UInt8} {uid : UserID} :
    (s.exec userID (.removeUsers (s.removing W))).admitted.lookup link = some ⟨key, uid⟩ ↔
      ∃ a ∈ W, s.keeps a ∧ a.linkID = link ∧ a.linkKey = key ∧ userID key = uid := by
  rw [lookup_kept]
  constructor
  · rintro ⟨hlookup, a, ha, rfl, rfl⟩
    exact ⟨a, ha, keeps_iff.mpr ⟨uid, hlookup⟩, rfl, rfl, (hsynced.ids _ _ _ hlookup).symm⟩
  · rintro ⟨a, ha, hkeeps, rfl, rfl, rfl⟩
    obtain ⟨uid, hlookup⟩ := keeps_iff.mp hkeeps
    obtain rfl := hsynced.ids _ _ _ hlookup
    exact ⟨hlookup, a, ha, rfl, rfl⟩

/-- What is added and what is kept are all that is wanted, under a key that tells it apart. -/
theorem adding_or_kept {κ β : Type} [DecidableEq κ] {f : Accept → κ} {g : Accept → β}
    (hf : ∀ a ∈ W, ∀ b ∈ W, f a = f b → a = b) {k : κ} {x : β} {kept : Option β}
    (hkept : kept = some x ↔ ∃ a ∈ W, s.keeps a ∧ f a = k ∧ g a = x) :
    ((index f g (s.adding W)).lookup k).or kept = some x ↔ ∃ a ∈ W, f a = k ∧ g a = x := by
  rw [or_eq_some_iff, hkept]
  constructor
  · rintro (hadded | ⟨-, a, ha, -, heq⟩)
    · obtain ⟨a, ha, heq⟩ := exists_of_lookup_index hadded
      exact ⟨a, (mem_adding.mp ha).1, heq⟩
    · exact ⟨a, ha, heq⟩
  · rintro ⟨a, ha, rfl, rfl⟩
    cases hkeeps : s.keeps a with
    | false =>
      refine .inl (lookup_index_of_unique (mem_adding.mpr ⟨ha, hkeeps⟩) fun b hb heq ↦ ?_)
      rw [hf b (mem_adding.mp hb).1 a ha heq]
    | true =>
      refine .inr ⟨lookup_index_eq_none.mpr fun b hb heq ↦ ?_, a, ha, hkeeps, rfl, rfl⟩
      obtain ⟨hbW, hbkeeps⟩ := mem_adding.mp hb
      rw [hf b hbW a ha heq, hkeeps] at hbkeeps
      cases hbkeeps

theorem admits_admitLinks (hsynced : Synced userID s) (hW : Distinct userID W) :
    Admits userID W ((s.admitLinks W).foldl (Session.exec userID) s) := by
  intro link key uid
  rw [foldl_admitLinks, lookup_added, adding_or_kept fun a ha b hb ↦ hW.eq_of_linkID ha hb]
  · grind
  · rw [kept_iff hsynced]
    grind

theorem synced_admitLinks (hsynced : Synced userID s) (hW : Distinct userID W) :
    Synced userID ((s.admitLinks W).foldl (Session.exec userID) s) := by
  have hadmits := admits_admitLinks hsynced hW
  refine ⟨?_, ?_, ?_, ?_⟩
  · intro uid key link
    rw [hadmits link key uid, foldl_admitLinks, lookup_users_added,
      adding_or_kept fun a ha b hb ↦ hW.eq_of_userID ha hb]
    · grind
    · rw [(synced_removed hsynced W).users, kept_iff hsynced]
      grind
  · intro link key uid hlookup
    obtain ⟨a, -, -, -, heq⟩ := (hadmits link key uid).mp hlookup
    exact heq.symm
  · rw [foldl_admitLinks]
    exact hsynced.routes
  · rw [foldl_admitLinks]
    exact hsynced.dials

structure Routed (W : List Accept) (s : Session) : Prop where
  links : ∀ id, s.process.links.lookup id = (wantedLinks W).lookup id
  routes : ∀ uid id, s.process.routes.lookup uid = some id ↔ (uid, id) ∈ s.routeTable W

structure SameUsers (s s' : Session) : Prop where
  admitted : s'.admitted = s.admitted
  users : s'.process.users = s.process.users
  dials : s'.dials = s.dials
  processDials : s'.process.dials = s.process.dials

theorem sameUsers_linked (userID : List UInt8 → UserID) (s : Session) (W : List Accept) :
    SameUsers s ((linked s W).foldl (Session.exec userID) s) := by
  unfold linked
  rw [foldl_append]
  split <;> split <;> exact ⟨rfl, rfl, rfl, rfl⟩

theorem mem_relayed {x : Accept × Link} : x ∈ relayed W ↔ x.1 ∈ W ∧ x.1.next = some x.2 := by
  simp only [Machine.relayed, mem_filterMap, map_eq_some_iff]
  constructor
  · rintro ⟨a, ha, link, hlink, rfl⟩
    exact ⟨ha, hlink⟩
  · rintro ⟨ha, hlink⟩
    exact ⟨x.1, ha, x.2, hlink, rfl⟩

theorem routeTable_unique (hsynced : Synced userID s) (hW : Distinct userID W) :
    ∀ x ∈ s.routeTable W, ∀ y ∈ s.routeTable W, x.1 = y.1 → x.2 = y.2 := by
  intro x hx y hy heq
  obtain ⟨⟨a, link⟩, ha, ⟨key, uid⟩, hadmitted, rfl⟩ := mem_routeTable.mp hx
  obtain ⟨⟨b, link'⟩, hb, ⟨key', uid'⟩, hadmitted', rfl⟩ := mem_routeTable.mp hy
  obtain ⟨haW, hnext⟩ := mem_relayed.mp ha
  obtain ⟨hbW, hnext'⟩ := mem_relayed.mp hb
  simp only at heq hadmitted hadmitted' haW hbW hnext hnext' ⊢
  subst heq
  have huser := (hsynced.users _ _ _).mpr hadmitted
  rw [(hsynced.users _ _ _).mpr hadmitted'] at huser
  simp only [Option.some.injEq, User.mk.injEq] at huser
  rw [hW.eq_of_linkID hbW haW huser.2, hnext] at hnext'
  cases hnext'
  rfl

theorem routed_of_relays (hheld : Held s) (hsynced : Synced userID s) (hW : Distinct userID W)
    (h : s.relays W) : Routed W s := by
  simp only [Session.relays, decide_eq_true_eq, sameEntries_iff] at h
  obtain ⟨hgoing, hcoming, hsame, hset⟩ := h
  refine ⟨?_, ?_⟩
  · intro id
    have hlinks := lookup_links_relayed s W id
    rw [hgoing, hcoming] at hlinks
    rw [hheld.links]
    exact hlinks
  · intro uid id
    have hroutes : s.process.routes.lookup uid =
        (index (·.1) (·.2) (s.routeTable W)).lookup uid := by
      rw [hsynced.routes]
      split
      · exact (hsame uid).symm
      next hunset =>
      have hkeys := hset.resolve_left hunset
      symm
      rw [AList.lookup_eq_none, AList.mem_keys, hkeys]
      exact not_mem_nil
    rw [hroutes, lookup_index_iff (routeTable_unique hsynced hW)]
    constructor
    · rintro ⟨x, hx, rfl, rfl⟩
      exact hx
    · intro hx
      exact ⟨_, hx, rfl, rfl⟩

theorem routed_relayCalls (hheld : Held s) (hsynced : Synced userID s) (hW : Distinct userID W) :
    Routed W ((s.relayCalls W).foldl (Session.exec userID) s) := by
  have hlinked : Held ((linked s W).foldl (Session.exec userID) s) := (linked_safely hheld W).done
  have hsame := sameUsers_linked userID s W
  rw [relayCalls_eq, foldl_append]
  refine ⟨?_, ?_⟩
  · intro id
    change ((linked s W).foldl (Session.exec userID) s).process.links.lookup id = _
    rw [hlinked.links, links_linked, lookup_links_relayed]
  intro uid id
  have htable : ((linked s W).foldl (Session.exec userID) s).routeTable W = s.routeTable W := by
    rw [Session.routeTable, hsame.admitted]
    rfl
  change (index (·.1) (·.2) ((s.routeTable W).insertionSort fun x y ↦ x.1 ≤ y.1)).lookup uid =
    some id ↔ (uid, id) ∈ ((linked s W).foldl (Session.exec userID) s).routeTable W
  rw [htable, lookup_index_iff]
  · simp only [mem_insertionSort]
    constructor
    · rintro ⟨x, hx, rfl, rfl⟩
      exact hx
    · intro hx
      exact ⟨_, hx, rfl, rfl⟩
  · intro x hx y hy
    rw [mem_insertionSort] at hx hy
    exact routeTable_unique hsynced hW x hx y hy

theorem synced_relayCalls (hsynced : Synced userID s) (hW : Distinct userID W) :
    Synced userID ((s.relayCalls W).foldl (Session.exec userID) s) := by
  have hsame := sameUsers_linked userID s W
  rw [relayCalls_eq, foldl_append]
  refine ⟨?_, ?_, ?_, ?_⟩
  · intro uid key link
    change ((linked s W).foldl (Session.exec userID) s).process.users.lookup uid = _ ↔
      ((linked s W).foldl (Session.exec userID) s).admitted.lookup link = _
    rw [hsame.users, hsame.admitted]
    exact hsynced.users uid key link
  · intro link key uid
    change ((linked s W).foldl (Session.exec userID) s).admitted.lookup link = _ → _
    rw [hsame.admitted]
    exact hsynced.ids link key uid
  · intro uid
    refine ext fun id ↦ ?_
    have hunique := routeTable_unique hsynced hW
    change (index (·.1) (·.2) ((s.routeTable W).insertionSort fun x y ↦ x.1 ≤ y.1)).lookup uid =
      some id ↔ (index (·.1) (·.2) (s.routeTable W)).lookup uid = some id
    rw [lookup_index_iff hunique, lookup_index_iff]
    · simp only [mem_insertionSort]
    · intro x hx y hy
      rw [mem_insertionSort] at hx hy
      exact hunique x hx y hy
  · change ((linked s W).foldl (Session.exec userID) s).process.dials =
      ((linked s W).foldl (Session.exec userID) s).dials
    rw [hsame.processDials, hsame.dials]
    exact hsynced.dials

theorem relay_spec (hheld : Held s) (hsynced : Synced userID s) (hW : Distinct userID W)
    {calls : List Rpc} (hcalls : s.relay W = .ok calls) :
    Synced userID (calls.foldl (Session.exec userID) s) ∧
      Routed W (calls.foldl (Session.exec userID) s) ∧
      (calls.foldl (Session.exec userID) s).admitted = s.admitted := by
  unfold Session.relay at hcalls
  split at hcalls
  · cases hcalls
  cases hcalls
  split
  · next hrelays => exact ⟨hsynced, routed_of_relays hheld hsynced hW hrelays, rfl⟩
  · refine ⟨synced_relayCalls hsynced hW, routed_relayCalls hheld hsynced hW, ?_⟩
    rw [relayCalls_eq, foldl_append]
    exact (sameUsers_linked userID s W).admitted

theorem dial_spec (hsynced : Synced userID s) (W : List Accept) :
    let s' := (s.dial W).foldl (Session.exec userID) s
    Synced userID s' ∧ s'.process.dials = wantedDials W ∧ s'.admitted = s.admitted ∧
      s'.process.links = s.process.links ∧ s'.process.routes = s.process.routes := by
  simp only [Session.dial]
  split
  · next hsame => exact ⟨hsynced, hsynced.dials.trans hsame.symm, rfl, rfl, rfl⟩
  · exact ⟨⟨hsynced.users, hsynced.ids, hsynced.routes, rfl⟩, rfl, rfl, rfl, rfl⟩

end AnixAgent.AnxServer.Rounds
