import Mathlib

namespace AnixAgent.Kernelfwd.Balancing

open List

/-- An address, of which the rules use the family and the text. -/
structure Addr where
  is6 : Bool
  string : String
  deriving DecidableEq

/-- A target as `Apply` makes it, with a weight of at least one. -/
structure Target where
  port : Nat
  weight : Nat
  priority : Nat
  addrs : List Addr
  unhealthy : Bool
  weight_pos : 0 < weight

structure Backend where
  addr : Addr
  port : Nat
  weight : Nat
  deriving DecidableEq

def Target.backend (v6 : Bool) (t : Target) : Option Backend :=
  (t.addrs.find? (·.is6 = v6)).map fun addr ↦ ⟨addr, t.port, t.weight⟩

def backends (balance : String) (targets : List Target) (v6 : Bool) : List Backend :=
  let up := targets.filter (!·.unhealthy)
  let up := if up.isEmpty then targets else up
  if balance = "failover" then
    ((up.insertionSort (·.priority ≤ ·.priority)).filterMap (·.backend v6)).take 1
  else up.filterMap (·.backend v6)

def maxEntries : Nat := 256

def Backend.entry (b : Backend) : String := s!"{b.addr.string} . {b.port}"

def fill (entry : String) : Nat → List String → List String
  | 0, entries => entries
  | n + 1, entries =>
    fill entry n (if entries.length < maxEntries then entries ++ [entry] else entries)

def entries (backends : List Backend) : List String :=
  backends.foldl (fun entries b ↦ fill b.entry (min b.weight maxEntries) entries) []

def selector (family balance : String) (n : Nat) : String :=
  if balance = "random" then s!"numgen random mod {n}"
  else if balance = "ip_hash" then s!"jhash {family} saddr mod {n}"
  else s!"numgen inc mod {n}"

/-- The map, whose entries are numbered from 0 in their order. -/
def balancing (family balance : String) (entries : List String) : String :=
  "addr . port to " ++ selector family balance entries.length ++ " map \x7b " ++
    ", ".intercalate (entries.zipIdx.map fun e ↦ s!"{e.2} : {e.1}") ++ " \x7d"

def endpoint (family : String) (b : Backend) : String :=
  if family = "ip6" then s!"[{b.addr.string}]:{b.port}" else s!"{b.addr.string}:{b.port}"

def dnatTo (family balance : String) : List Backend → String
  | [b] => "to " ++ endpoint family b
  | backends => balancing family balance (entries backends)

/-- What a map with `room` entries left has for backends of these weights. -/
def shares : Nat → List Nat → List Nat
  | _, [] => []
  | room, w :: ws => min w room :: shares (room - min w room) ws

/-- Entries in which each backend has its share. -/
def shared (backends : List Backend) (shares : List Nat) : List String :=
  (List.zipWith (fun b n ↦ List.replicate n b.entry) backends shares).flatten

theorem fill_eq (entry : String) (n : Nat) : ∀ es : List String,
    fill entry n es = es ++ replicate (min n (maxEntries - es.length)) entry := by
  induction n with
  | zero => simp [fill]
  | succ n ih =>
    intro es
    rw [fill, ih]
    split
    · next h =>
      have hmin : min (n + 1) (maxEntries - es.length) =
          min n (maxEntries - (es.length + 1)) + 1 := by omega
      simp [hmin, replicate_succ]
    · next h =>
      have hmin : maxEntries - es.length = 0 := by omega
      simp [hmin]

theorem foldl_fill (bs : List Backend) : ∀ es : List String,
    bs.foldl (fun es b ↦ fill b.entry (min b.weight maxEntries) es) es =
      es ++ shared bs (shares (maxEntries - es.length) (bs.map (·.weight))) := by
  induction bs with
  | nil => simp [shared]
  | cons b bs ih =>
    intro es
    have hmin : min (min b.weight maxEntries) (maxEntries - es.length) =
        min b.weight (maxEntries - es.length) := by omega
    have hroom (n : Nat) : maxEntries - (es.length + n) = maxEntries - es.length - n := by omega
    rw [foldl_cons, ih, fill_eq, hmin]
    simp [shared, shares, hroom]

theorem entries_eq (bs : List Backend) :
    entries bs = shared bs (shares maxEntries (bs.map (·.weight))) :=
  foldl_fill bs []

theorem length_shares (ws : List Nat) : ∀ room, (shares room ws).length = ws.length := by
  induction ws with
  | nil => simp [shares]
  | cons w ws ih => simp [shares, ih]

theorem sum_shares_le (ws : List Nat) : ∀ room, (shares room ws).sum ≤ room := by
  induction ws with
  | nil => simp [shares]
  | cons w ws ih =>
    intro room
    have := ih (room - min w room)
    simp only [shares, sum_cons]
    omega

theorem length_shared (bs : List Backend) : ∀ ns : List Nat, ns.length = bs.length →
    (shared bs ns).length = ns.sum := by
  induction bs with
  | nil => simp [shared]
  | cons b bs ih =>
    intro ns hns
    cases ns with
    | nil => cases hns
    | cons n ns => simpa [shared] using ih ns (by simpa using hns)

theorem shares_eq (ws : List Nat) : ∀ room, ws.sum ≤ room → shares room ws = ws := by
  induction ws with
  | nil => simp [shares]
  | cons w ws ih =>
    intro room hroom
    rw [sum_cons] at hroom
    have hw : min w room = w := by omega
    rw [shares, hw, ih _ (by omega)]

theorem shares_pos_iff {w : Nat} {ws : List Nat} {room : Nat} (hpos : ∀ u ∈ w :: ws, 1 ≤ u) :
    (∀ n ∈ shares room (w :: ws), 1 ≤ n) ↔ (w :: ws).dropLast.sum < room := by
  induction ws generalizing w room with
  | nil =>
    have hw : 1 ≤ w := hpos w mem_cons_self
    simp only [shares, mem_singleton, forall_eq, dropLast_singleton, sum_nil]
    omega
  | cons v vs ih =>
    have hw : 1 ≤ w := hpos w mem_cons_self
    have hrest := @ih v (room - min w room) fun u hu ↦ hpos u (mem_cons_of_mem _ hu)
    rw [shares, forall_mem_cons, hrest, dropLast_cons_cons, sum_cons]
    omega

theorem dnatTo_eq (family balance : String) {bs : List Backend} (h : 2 ≤ bs.length) :
    dnatTo family balance bs = balancing family balance (entries bs) := by
  rcases bs with _ | ⟨b, _ | ⟨c, bs⟩⟩
  · simp at h
  · simp at h
  · rfl

/-- The entries of the map are the backends' shares of it. Each backend has one if and only if the
weights before the last backend's leave room, and it is the weight if the map has room for all. -/
theorem dnatTo_shared (family balance : String) (targets : List Target) (v6 : Bool)
    (bs : List Backend) (hbs : backends balance targets v6 = bs) (htwo : 2 ≤ bs.length)
    (ns : List Nat) (hns : shares maxEntries (bs.map (·.weight)) = ns) :
    ns.length = bs.length ∧
      dnatTo family balance bs = balancing family balance (shared bs ns) ∧
      (shared bs ns).length ≤ maxEntries ∧
      ((∀ n ∈ ns, 1 ≤ n) ↔ (bs.map (·.weight)).dropLast.sum < maxEntries) ∧
      ((bs.map (·.weight)).sum ≤ maxEntries → ns = bs.map (·.weight)) := by
  have hpos : ∀ w ∈ bs.map (·.weight), 1 ≤ w := by
    intro w hw
    obtain ⟨b, hb, rfl⟩ := List.mem_map.mp hw
    have hmem : ∃ t : Target, t.backend v6 = some b := by
      simp only [← hbs, backends] at hb
      split at hb
      · obtain ⟨t, _, ht⟩ := mem_filterMap.mp (mem_of_mem_take hb)
        exact ⟨t, ht⟩
      · obtain ⟨t, _, ht⟩ := mem_filterMap.mp hb
        exact ⟨t, ht⟩
    obtain ⟨t, ht⟩ := hmem
    obtain ⟨addr, _, rfl⟩ := Option.map_eq_some_iff.mp ht
    exact t.weight_pos
  have hlength : ns.length = bs.length := by rw [← hns, length_shares, List.length_map]
  refine ⟨hlength, ?_, ?_, ?_, fun hsum ↦ ?_⟩
  · rw [dnatTo_eq _ _ htwo, entries_eq, hns]
  · rw [length_shared _ _ hlength, ← hns]
    exact sum_shares_le _ _
  · rw [← hns]
    cases bs with
    | nil => simp at htwo
    | cons b bs => exact shares_pos_iff hpos
  · rw [← hns, shares_eq _ _ hsum]

def pair (v w : Nat) (hv : 0 < v) (hw : 0 < w) : List Target :=
  [⟨80, v, 0, [⟨false, "10.0.0.1"⟩], false, hv⟩, ⟨80, w, 0, [⟨false, "10.0.0.2"⟩], false, hw⟩]

theorem dnatTo_shared_pair : ∃ ns : List Nat, (∀ n ∈ ns, 1 ≤ n) ∧
    dnatTo "ip" "" (backends "" (pair 2 1 (by decide) (by decide)) false) =
      balancing "ip" "" (shared (backends "" (pair 2 1 (by decide) (by decide)) false) ns) := by
  obtain ⟨_, heq, _, hpos, _⟩ :=
    dnatTo_shared "ip" "" (pair 2 1 (by decide) (by decide)) false _ rfl (by decide) _ rfl
  exact ⟨_, hpos.mpr (by decide), heq⟩

/-- The first backend's weight fills the map, and the second has no entry. -/
theorem second_without_entry :
    backends "" (pair 256 1 (by decide) (by decide)) false =
        [⟨⟨false, "10.0.0.1"⟩, 80, 256⟩, ⟨⟨false, "10.0.0.2"⟩, 80, 1⟩] ∧
      dnatTo "ip" "" (backends "" (pair 256 1 (by decide) (by decide)) false) =
        balancing "ip" "" (List.replicate 256 "10.0.0.1 . 80") := by
  have hbs : backends "" (pair 256 1 (by decide) (by decide)) false =
      [⟨⟨false, "10.0.0.1"⟩, 80, 256⟩, ⟨⟨false, "10.0.0.2"⟩, 80, 1⟩] := by decide
  refine ⟨hbs, ?_⟩
  have hshares : shares maxEntries [256, 1] = [256, 0] := by decide
  have hentry : Backend.entry ⟨⟨false, "10.0.0.1"⟩, 80, 256⟩ = "10.0.0.1 . 80" := by decide
  rw [hbs, dnatTo_eq _ _ (by decide), entries_eq, List.map_cons, List.map_singleton, hshares, shared,
    List.zipWith_cons_cons, List.flatten_cons, hentry]
  exact congrArg _ (List.append_nil _)

end AnixAgent.Kernelfwd.Balancing
