import AnixAgent.Maintenance.Incidents
import AnixAgent.Maintenance.Machine

namespace AnixAgent.Maintenance.Outbox

open Lib.Runs Lib.Tables Observations Calls List
open Machine (maxBatchSize maxPayloadBytes)

def bytes (s : String) : List UInt8 := s.toList.flatMap String.utf8EncodeChar

abbrev Encoder : Type := Event → Option (List UInt8)

def encodeBatch (encode : Encoder) (events : List Event) : Option (List UInt8) :=
  (events.mapM encode).map fun texts ↦
    bytes "\x7b\"version\":\"anixops.maintenance/v1\",\"events\":[" ++
      [44].intercalate texts ++ bytes "]\x7d"

/-- An event is before another by the time it occurred, then by its order number, then by its id. -/
def sortKey (order : Table String Nat) (e : Event) : Int ×ₗ Nat ×ₗ String :=
  toLex (e.occurredAt, toLex ((order.lookup e.eventID).getD 0, e.eventID))

def queue (state : DiskState) : List Event :=
  (state.events.entries.map (·.2)).insertionSort fun a b ↦
    sortKey state.order a ≤ sortKey state.order b

def fitting (encode : Encoder) : Nat → Nat → List Event → Except String (List Event)
  | _, _, [] => .ok []
  | size, index, event :: rest =>
    match encode event with
    | none => .error "json: unsupported value"
    | some encoded =>
      let nextSize := size + encoded.length + if 0 < index then 1 else 0
      if maxPayloadBytes < nextSize then
        if index = 0 then .error "queued event exceeds batch payload limit" else .ok []
      else (fitting encode nextSize (index + 1) rest).map (event :: ·)

def batchLimit (limit : Int) : Nat :=
  if limit ≤ 0 ∨ maxBatchSize < limit then maxBatchSize else limit.toNat

def pending (encode : Encoder) (limit : Int) (state : DiskState) : Except String (List Event) :=
  fitting encode (((encodeBatch encode []).map List.length).getD 0) 0
    ((queue state).take (batchLimit limit))

def removed (eventIDs : List String) (state : DiskState) : DiskState := { state with
  events := eventIDs.foldl (fun t id ↦ t.erase id) state.events
  order := eventIDs.foldl (fun t id ↦ t.erase id) state.order }

def drain (encode : Encoder) (limit : Int) : Nat → DiskState → List (List Event) × DiskState
  | 0, state => ([], state)
  | rounds + 1, state =>
    match pending encode limit state with
    | .error _ => ([], state)
    | .ok events =>
      let rest := drain encode limit rounds (removed (events.map (·.eventID)) state)
      (events :: rest.1, rest.2)

variable {events rest : List Event} {state : DiskState}

section
variable {encode : Encoder}

def size (encode : Encoder) (e : Event) : Nat :=
  ((encode e).map List.length).getD 0

def batchSize (encode : Encoder) (events : List Event) : Nat :=
  48 + (events.map (size encode)).sum + (events.length - 1)

theorem length_intercalate (texts : List (List UInt8)) :
    ([44].intercalate texts).length = (texts.map List.length).sum + (texts.length - 1) := by
  induction texts with
  | nil => rfl
  | cons text rest ih =>
    cases rest with
    | nil => simp [intercalate]
    | cons next rest =>
      rw [intercalate, intersperse_cons_cons, flatten_cons, flatten_cons,
        ← intercalate, length_append, length_append, ih]
      simp
      omega

theorem encodeBatch_eq (h : ∀ e ∈ events, (encode e).isSome) :
    ∃ text, encodeBatch encode events = some text ∧ text.length = batchSize encode events := by
  have htexts : ∃ texts, events.mapM encode = some texts ∧
      texts.map List.length = events.map (size encode) := by
    induction events with
    | nil => exact ⟨[], rfl, rfl⟩
    | cons e rest ih =>
      obtain ⟨text, htext⟩ := Option.isSome_iff_exists.mp (h e mem_cons_self)
      obtain ⟨texts, hall, hsizes⟩ := ih fun e he ↦ h e (mem_cons_of_mem _ he)
      exact ⟨text :: texts, by simp [htext, hall], by simp [size, htext, hsizes]⟩
  obtain ⟨texts, hall, hsizes⟩ := htexts
  have hlength : texts.length = events.length := by
    simpa using congrArg List.length hsizes
  refine ⟨_, by rw [encodeBatch, hall]; rfl, ?_⟩
  rw [length_append, length_append, length_intercalate, hsizes, hlength]
  have hhead : (bytes "\x7b\"version\":\"anixops.maintenance/v1\",\"events\":[").length = 46 := rfl
  have htail : (bytes "]\x7d").length = 2 := rfl
  rw [hhead, htail, batchSize]
  omega

theorem batchSize_append (encode : Encoder) (a b : List Event) :
    batchSize encode a ≤ batchSize encode (a ++ b) := by
  simp only [batchSize, map_append, sum_append, length_append]
  omega

theorem batchSize_snoc (encode : Encoder) (done : List Event) (e : Event) :
    batchSize encode (done ++ [e]) = batchSize encode done + size encode e +
      if 0 < done.length then 1 else 0 := by
  simp only [batchSize, map_append, sum_append, length_append, map_cons,
    map_nil, sum_singleton, length_singleton]
  split <;> omega

def Fits (encode : Encoder) (done rest : List Event) : Except String (List Event) → Prop
  | .error _ => done = [] ∧ ∃ e ∈ rest.head?, maxPayloadBytes < batchSize encode [e]
  | .ok events => events <+: rest ∧ batchSize encode (done ++ events) ≤ maxPayloadBytes ∧
    ∀ more, more <+: rest → batchSize encode (done ++ more) ≤ maxPayloadBytes →
      more.length ≤ events.length

theorem fits_fitting {done : List Event} (hdone : batchSize encode done ≤ maxPayloadBytes)
    (h : ∀ e ∈ rest, (encode e).isSome) :
    Fits encode done rest (fitting encode (batchSize encode done) done.length rest) := by
  induction rest generalizing done with
  | nil =>
    refine ⟨List.nil_prefix, by simpa using hdone, fun more hmore _ ↦ ?_⟩
    rw [prefix_nil.mp hmore]
  | cons e rest ih =>
    obtain ⟨text, htext⟩ := Option.isSome_iff_exists.mp (h e mem_cons_self)
    have hsize : size encode e = text.length := by simp [size, htext]
    have hnext := batchSize_snoc encode done e
    rw [hsize] at hnext
    simp only [fitting, htext]
    rw [← hnext]
    split
    · next hlarge =>
      split
      · next hempty =>
        obtain rfl := length_eq_zero_iff.mp hempty
        exact ⟨rfl, e, rfl, hlarge⟩
      refine ⟨List.nil_prefix, by simpa using hdone, fun more hmore hfits ↦ ?_⟩
      cases more with
      | nil => exact le_rfl
      | cons e' more =>
        obtain ⟨rfl, -⟩ := cons_prefix_cons.mp hmore
        have hle := batchSize_append encode (done ++ [e']) more
        rw [append_assoc, singleton_append] at hle
        omega
    · next hroom =>
      have hrest := ih (not_lt.mp hroom) fun e he ↦ h e (mem_cons_of_mem _ he)
      rw [length_append, length_singleton] at hrest
      cases hfitting : fitting encode (batchSize encode (done ++ [e])) (done.length + 1) rest with
      | error err =>
        rw [hfitting] at hrest
        exact absurd hrest.1 (by simp)
      | ok events =>
        rw [hfitting] at hrest
        obtain ⟨hpre, hfits, hlongest⟩ := hrest
        rw [append_assoc, singleton_append] at hfits
        refine ⟨cons_prefix_cons.mpr ⟨rfl, hpre⟩, hfits, fun more hmore hmorefits ↦ ?_⟩
        cases more with
        | nil => exact Nat.zero_le _
        | cons e' more =>
          obtain ⟨rfl, hrest⟩ := cons_prefix_cons.mp hmore
          refine Nat.succ_le_succ (hlongest more hrest ?_)
          rwa [append_assoc, singleton_append]

theorem length_encodeBatch_nil (encode : Encoder) :
    ((encodeBatch encode []).map List.length).getD 0 = batchSize encode [] := by
  obtain ⟨text, htext, hlength⟩ := encodeBatch_eq (fun e he ↦ (not_mem_nil he).elim :
    ∀ e ∈ [], (encode e).isSome)
  simp [htext, hlength]

theorem fits_pending (limit : Int) (h : ∀ e ∈ queue state, (encode e).isSome) :
    Fits encode [] ((queue state).take (batchLimit limit)) (pending encode limit state) := by
  rw [pending, length_encodeBatch_nil]
  exact fits_fitting (by simp [batchSize, maxPayloadBytes]) fun e he ↦ h e (mem_of_mem_take he)

/-- Each event is stored under its id. -/
def Keyed (state : DiskState) : Prop := ∀ id e, state.events.lookup id = some e → e.eventID = id

theorem mem_queue (h : Keyed state) {e : Event} :
    e ∈ queue state ↔ state.events.lookup e.eventID = some e := by
  rw [queue, mem_insertionSort, mem_map]
  constructor
  · rintro ⟨entry, hentry, rfl⟩
    have hlookup := AList.mem_lookup_iff.mpr hentry
    rwa [h _ _ hlookup]
  · intro hlookup
    exact ⟨⟨_, e⟩, AList.mem_lookup_iff.mp hlookup, rfl⟩

theorem nodup_queue (h : Keyed state) : (queue state).Nodup := by
  refine (perm_insertionSort _ _).nodup_iff.mpr ?_
  refine (nodup_map_iff_inj_on (entries_nodup _)).mpr fun a ha b hb hab ↦ ?_
  have ha := h _ _ (AList.mem_lookup_iff.mpr ha)
  have hb := h _ _ (AList.mem_lookup_iff.mpr hb)
  exact Sigma.ext (by rw [← ha, ← hb, hab]) (heq_of_eq hab)

theorem lookup_removed (ids : List String) (state : DiskState) (id : String) :
    (removed ids state).events.lookup id = (if id ∈ ids then none else state.events.lookup id) ∧
      (removed ids state).order.lookup id =
        if id ∈ ids then none else state.order.lookup id :=
  ⟨lookup_foldl_erase ids state.events id, lookup_foldl_erase ids state.order id⟩

theorem keyed_removed (h : Keyed state) (ids : List String) : Keyed (removed ids state) := by
  intro id e he
  rw [(lookup_removed ids state id).1] at he
  split at he
  · cases he
  · exact h id e he

theorem queue_removed (h : Keyed state) (hqueue : queue state = events ++ rest) :
    queue (removed (events.map (·.eventID)) state) = rest := by
  have hkeyed := keyed_removed h (events.map (·.eventID))
  have hnodup := nodup_queue h
  have hsorted : (queue state).Pairwise fun a b ↦ sortKey state.order a ≤ sortKey state.order b :=
    pairwise_insertionSort _ _
  have hlookup (e : Event) : e ∈ events ++ rest ↔ state.events.lookup e.eventID = some e := by
    rw [← hqueue, mem_queue h]
  rw [hqueue, nodup_append'] at hnodup
  have hout (e : Event) (he : e ∈ rest) : e.eventID ∉ events.map (·.eventID) := by
    intro hid
    obtain ⟨e', he', hid⟩ := mem_map.mp hid
    have hfirst := (hlookup e').mp (mem_append_left _ he')
    rw [hid, (hlookup e).mp (mem_append_right _ he)] at hfirst
    exact hnodup.2.2 (Option.some.inj hfirst ▸ he') he
  have hmem (e : Event) : e ∈ queue (removed (events.map (·.eventID)) state) ↔ e ∈ rest := by
    rw [mem_queue hkeyed, (lookup_removed _ _ _).1]
    constructor
    · intro hsome
      split at hsome
      · cases hsome
      · next hid =>
        refine (mem_append.mp ((hlookup e).mpr hsome)).resolve_left fun he ↦ hid ?_
        exact mem_map.mpr ⟨e, he, rfl⟩
    · intro he
      rw [if_neg (hout e he)]
      exact (hlookup e).mp (mem_append_right _ he)
  have hperm : (queue (removed (events.map (·.eventID)) state)).Perm rest :=
    (perm_ext_iff_of_nodup (nodup_queue hkeyed) hnodup.2.1).mpr hmem
  refine hperm.eq_of_pairwise (fun a b ha hb hab hba ↦ ?_) (pairwise_insertionSort _ _) ?_
  · have hid : a.eventID = b.eventID := congrArg (fun k ↦ (ofLex (ofLex k).2).2) (le_antisymm hab hba)
    have hsame := (hlookup a).mp (mem_append_right _ ((hmem a).mp ha))
    rw [hid, (hlookup b).mp (mem_append_right _ hb)] at hsame
    exact (Option.some.inj hsame).symm
  · rw [hqueue, pairwise_append] at hsorted
    refine hsorted.2.1.imp_of_mem fun {a b} ha hb hle ↦ ?_
    simpa only [sortKey, (lookup_removed _ _ _).2, hout a ha, hout b hb, if_false] using hle

theorem drain_spec (limit : Int) (hkeyed : Keyed state)
    (h : ∀ e ∈ queue state, (encode e).isSome ∧ batchSize encode [e] ≤ maxPayloadBytes)
    {rounds : Nat} (hrounds : (queue state).length ≤ rounds) :
    (drain encode limit rounds state).1.flatten = queue state ∧
      queue (drain encode limit rounds state).2 = [] := by
  induction rounds generalizing state with
  | zero =>
    have hnil : queue state = [] := length_eq_zero_iff.mp (Nat.le_zero.mp hrounds)
    exact ⟨hnil.symm, hnil⟩
  | succ rounds ih =>
    have hfits := fits_pending limit fun e he ↦ (h e he).1
    have hpos : 0 < batchLimit limit := by
      unfold batchLimit maxBatchSize
      split <;> omega
    have hhead {e : Event} (he : e ∈ ((queue state).take (batchLimit limit)).head?) :
        e ∈ queue state := mem_of_mem_take (mem_of_mem_head? he)
    unfold drain
    split
    · next herror =>
      rw [herror] at hfits
      obtain ⟨-, e, he, hlarge⟩ := hfits
      exact absurd (h e (hhead he)).2 (not_le.mpr hlarge)
    · next events hok =>
      rw [hok] at hfits
      obtain ⟨hpre, -, hlongest⟩ := hfits
      obtain ⟨rest, hrest⟩ := hpre.trans (List.take_prefix _ _)
      have hqueue := queue_removed hkeyed hrest.symm
      have hlength : rest.length ≤ rounds := by
        cases hstate : queue state with
        | nil => simp_all
        | cons e tail =>
          have hfirst : [e] <+: (queue state).take (batchLimit limit) := by
            obtain ⟨n, hn⟩ := Nat.exists_eq_succ_of_ne_zero hpos.ne'
            rw [hstate, hn, take_succ_cons]
            exact ⟨_, rfl⟩
          have hone := hlongest [e] hfirst (h e (by simp [hstate])).2
          have htotal := congrArg List.length hrest
          rw [length_append] at htotal
          simp at hone
          omega
      obtain ⟨hflatten, hempty⟩ := ih (keyed_removed hkeyed _)
        (fun e he ↦ h e (hrest ▸ mem_append_right _ (hqueue ▸ he))) (hqueue ▸ hlength)
      exact ⟨by rw [flatten_cons, hflatten, hqueue, hrest], hempty⟩

end

/-- An event as its delivery knows it. -/
def seen (encode : Encoder) (state : DiskState) (e : Event) : Machine.Event :=
  ⟨e.eventID, e.occurredAt, (state.order.lookup e.eventID).getD 0, size encode e⟩

/-- The store that is delivered holds the events of the state file. -/
structure Represents (encode : Encoder) (store : Machine.Store) (state : DiskState) : Prop where
  sequence : store.nextSequence = state.nextSequence
  events : store.events.Perm ((queue state).map (seen encode state))

section
variable {encode : Encoder} {store : Machine.Store}

def eventKey (e : Machine.Event) : Int ×ₗ Nat ×ₗ String :=
  toLex (e.occurredAt, toLex (e.order, e.eventID))

theorem older_iff (a b : Machine.Event) : Machine.older a b = true ↔ eventKey a ≤ eventKey b := by
  simp only [Machine.older, eventKey, Prod.Lex.toLex_le_toLex]
  split_ifs with htime horder
  · simp [htime, lt_iff_le_and_ne, horder]
  · simp [htime, not_not.mp horder]
  · simp [htime]

theorem Represents.sorted (h : Represents encode store state) :
    store.events.insertionSort (fun a b ↦ Machine.older a b = true) =
      (queue state).map (seen encode state) := by
  simp only [older_iff]
  refine ((perm_insertionSort _ _).trans h.events).eq_of_pairwise (fun a b ha hb hab hba ↦ ?_)
    (pairwise_insertionSort _ _) (pairwise_map.mpr (pairwise_insertionSort _ _))
  have hid : a.eventID = b.eventID :=
    congrArg (fun k ↦ (ofLex (ofLex k).2).2) (le_antisymm hab hba)
  exact inj_on_of_nodup_map store.unique ((mem_insertionSort _).mp ha) (h.events.mem_iff.mpr hb) hid

theorem fitting_seen (state : DiskState) (h : ∀ e ∈ events, (encode e).isSome) {n index : Nat}
    (hindex : 0 < index) :
    ∃ sent, fitting encode n index events = .ok sent ∧
      sent.map (seen encode state) = Machine.fitting n index (events.map (seen encode state)) := by
  induction events generalizing n index with
  | nil => exact ⟨[], rfl, rfl⟩
  | cons e rest ih =>
    obtain ⟨text, htext⟩ := Option.isSome_iff_exists.mp (h e mem_cons_self)
    have hsize : (seen encode state e).size = text.length := by simp [seen, size, htext]
    obtain ⟨sent, hsent, hmap⟩ := ih (fun e he ↦ h e (mem_cons_of_mem _ he))
      (n := n + text.length + 1) (Nat.succ_pos index)
    simp only [fitting, htext, map_cons, Machine.fitting, hsize, if_pos hindex]
    split
    · exact ⟨[], if_neg hindex.ne', rfl⟩
    · rw [hsent]
      exact ⟨e :: sent, rfl, by rw [map_cons, hmap]⟩

theorem Represents.pending (h : Represents encode store state)
    (hencode : ∀ e ∈ queue state, (encode e).isSome) (limit : Nat) :
    store.pending limit =
      (Outbox.pending encode limit state).toOption.map (·.map (seen encode state)) := by
  have hlimit : (if limit = 0 ∨ maxBatchSize < limit then maxBatchSize else limit) =
      batchLimit limit := by
    unfold batchLimit
    split_ifs <;> omega
  have hqueue : ∀ e ∈ (queue state).take (batchLimit limit), (encode e).isSome :=
    fun e he ↦ hencode e (mem_of_mem_take he)
  simp only [Machine.Store.pending, h.sorted, hlimit, Outbox.pending, length_encodeBatch_nil,
    ← map_take]
  cases htake : (queue state).take (batchLimit limit) with
  | nil => rfl
  | cons e rest =>
    rw [htake] at hqueue
    obtain ⟨text, htext⟩ := Option.isSome_iff_exists.mp (hqueue e mem_cons_self)
    have hsize : (seen encode state e).size = text.length := by simp [seen, size, htext]
    have hoverhead : batchSize encode [] = Machine.batchOverhead := rfl
    obtain ⟨sent, hsent, hmap⟩ := fitting_seen state
      (fun e he ↦ hqueue e (mem_cons_of_mem _ he)) (n := Machine.batchOverhead + text.length)
      Nat.one_pos
    simp only [map_cons, fitting, htext, Machine.fitting, hsize, hoverhead, lt_irrefl, if_false,
      add_zero, hsent]
    split
    · rfl
    · rw [← hmap]
      rfl

theorem mem_events (h : Represents encode store state) (hkeyed : Keyed state) {id : String} :
    id ∈ store.events.map (·.eventID) ↔ (state.events.lookup id).isSome := by
  rw [(h.events.map _).mem_iff, map_map, mem_map]
  constructor
  · rintro ⟨e, he, rfl⟩
    exact Option.isSome_iff_exists.mpr ⟨e, (mem_queue hkeyed).mp he⟩
  · intro hsome
    obtain ⟨e, he⟩ := Option.isSome_iff_exists.mp hsome
    obtain rfl := hkeyed id e he
    exact ⟨e, (mem_queue hkeyed).mpr he, rfl⟩

theorem Represents.append {sizes : Sizes} {s : Store} {clock : Int} {e : Event}
    {state' : DiskState} {new : Option Event} (h : Represents encode store state)
    (hkeyed : Keyed state) (happend : s.append sizes clock e state = .ok (state', new)) :
    Represents encode (store.queue e.eventID e.occurredAt (size encode e)) state' := by
  have hlength : store.events.length = state.events.entries.length := by
    rw [h.events.length_eq, length_map, queue, length_insertionSort, length_map]
  unfold Store.append at happend
  split at happend
  · cases happend
  split at happend
  · cases happend
  unfold Machine.Store.queue
  cases hlookup : state.events.lookup e.eventID with
  | some existing =>
    simp only [hlookup] at happend
    split at happend
    · cases happend
    cases happend
    rwa [dif_pos ((mem_events h hkeyed).mpr (by simp [hlookup]))]
  | none =>
    simp only [hlookup] at happend
    split at happend
    · cases happend
    next hroom =>
    cases happend
    have hnew : e.eventID ∉ store.events.map (·.eventID) := by simp [mem_events h hkeyed, hlookup]
    rw [dif_neg hnew, if_neg (hlength ▸ hroom)]
    refine ⟨congrArg (· + 1) h.sequence, ?_⟩
    have hqueue : (queue (state.add e)).Perm (e :: queue state) := by
      refine (perm_insertionSort _ _).trans ?_
      rw [AList.entries_insert_of_notMem (AList.lookup_eq_none.mp hlookup), map_cons]
      exact (perm_insertionSort _ _).symm.cons e
    have hseen (e' : Event) (he' : e' ∈ queue state) :
        seen encode state e' = seen encode (state.add e) e' := by
      have hne : e'.eventID ≠ e.eventID := by
        intro heq
        rw [mem_queue hkeyed, heq, hlookup] at he'
        cases he'
      simp only [seen, lookup_insert_ite, if_neg hne]
    have hlast : seen encode (state.add e) e =
        ⟨e.eventID, e.occurredAt, store.nextSequence + 1, size encode e⟩ := by
      simp [seen, h.sequence]
    refine (perm_append_singleton _ _).trans (.trans ?_ (hqueue.map _).symm)
    rw [map_cons, hlast, ← map_congr_left hseen]
    exact h.events.cons _

theorem Represents.removed (h : Represents encode store state) (hkeyed : Keyed state)
    (ids : List String) : Represents encode (store.remove ids) (removed ids state) := by
  refine ⟨h.sequence, ?_⟩
  have hqueue : (queue (Outbox.removed ids state)).Perm
      ((queue state).filter fun e ↦ e.eventID ∉ ids) := by
    refine (perm_ext_iff_of_nodup (nodup_queue (keyed_removed hkeyed ids))
      ((nodup_queue hkeyed).filter _)).mpr fun e ↦ ?_
    rw [mem_queue (keyed_removed hkeyed ids), mem_filter, mem_queue hkeyed,
      (lookup_removed ids state _).1]
    by_cases hid : e.eventID ∈ ids <;> simp [hid]
  refine (h.events.filter _).trans (.trans ?_ (hqueue.map _).symm)
  rw [filter_map]
  refine .of_eq (map_congr_left fun e he ↦ ?_)
  have hid : e.eventID ∉ ids := of_decide_eq_true (mem_filter.mp he).2
  simp only [seen, (lookup_removed ids state _).2, if_neg hid]

end

/-- Results of an acknowledgment: an event id, and whether it was persisted. -/
def Store.acknowledge (sizes : Sizes) (s : Store) (ackVersion : String)
    (results : List (String × Bool)) (calls : Calls) (file : Option DiskState) : Outcome :=
  if ackVersion ≠ version ∨ maxBatchSize < results.length then
    ⟨some "invalid maintenance acknowledgment", file, none⟩
  else transaction sizes s calls (Store.removing
    ((results.filter fun r ↦ r.2 && identityPattern r.1).map (·.1))) file

inductive Action
  | call (a : Observations.Action)
  | acknowledge (s : Store) (ackVersion : String) (results : List (String × Bool)) (calls : Calls)

def step (sizes : Sizes) (file : Option DiskState) : Action → Option (Option DiskState)
  | .call a => some (a.outcome sizes file).file
  | .acknowledge s ackVersion results calls =>
    some (Store.acknowledge sizes s ackVersion results calls file).file

structure Sound (state : DiskState) : Prop where
  keyed : Keyed state
  ordered : ∀ id, (state.order.lookup id).isSome = (state.events.lookup id).isSome
  below : ∀ id n, state.order.lookup id = some n → n ≤ state.nextSequence

variable {o : Observation}

section
variable {sizes : Sizes} {s : Store} {calls : Calls} {state : DiskState} {c : Change}
  {file : Option DiskState}

theorem sound_fresh (s : Store) : Sound s.fresh :=
  ⟨fun _ _ h ↦ (by simp [Store.fresh] at h), fun _ ↦ (by simp [Store.fresh]),
    fun _ _ h ↦ (by simp [Store.fresh] at h)⟩

theorem sound_append (h : Sound state) {clock : Int} {e : Event} {state' : DiskState}
    {new : Option Event} (happend : s.append sizes clock e state = .ok (state', new)) :
    Sound state' := by
  have hnew : Sound (state.add e) := by
    refine ⟨fun id e' he ↦ ?_, fun id ↦ ?_, fun id n hn ↦ ?_⟩
    · rw [lookup_insert_ite] at he
      split at he
      · next hid =>
        cases he
        exact hid.symm
      · exact h.keyed id e' he
    · rw [lookup_insert_ite, lookup_insert_ite]
      split
      · rfl
      · exact h.ordered id
    · rw [lookup_insert_ite] at hn
      split at hn
      · cases hn
        exact le_rfl
      · exact (h.below id n hn).trans (Nat.le_succ _)
  unfold Store.append at happend
  grind

theorem sound_removed (h : Sound state) (ids : List String) : Sound (removed ids state) := by
  refine ⟨keyed_removed h.keyed ids, fun id ↦ ?_, fun id n hn ↦ ?_⟩
  · rw [(lookup_removed ids state id).1, (lookup_removed ids state id).2]
    split
    · rfl
    · exact h.ordered id
  · rw [(lookup_removed ids state id).2] at hn
    split at hn
    · cases hn
    · exact h.below id n hn

theorem sound_commit (h : Sound state) (v : Verdict) (key : Key) (new : Option Event) :
    Sound (v.commit key state new).state := ⟨h.keyed, h.ordered, h.below⟩

theorem sound_observing (h : Sound state) {now : Int}
    (hobserving : s.observing sizes o now calls state = .ok c) : Sound c.state := by
  unfold Store.observing Store.conclude at hobserving
  grind [sound_append, sound_commit]

theorem sound_transaction {change : DiskState → Except String Change}
    (h : ∀ state ∈ file, Sound state)
    (hchange : ∀ state c, Sound state → change state = .ok c → Sound c.state) :
    ∀ state ∈ (transaction sizes s calls change file).file, Sound state := by
  intro state hstate
  rcases transaction_cases sizes s calls change file with ⟨hsame, -⟩ | ⟨c, hc, hfile, -⟩
  · exact h state (hsame ▸ hstate)
  rw [hfile] at hstate
  cases hstate
  refine hchange _ c ?_ hc
  cases hread : file with
  | none => exact sound_fresh s
  | some state => exact h state hread

theorem sound_step (h : ∀ state ∈ file, Sound state) {a : Action} {file' : Option DiskState}
    (hstep : step sizes file a = some file') : ∀ state ∈ file', Sound state := by
  have hremoving (ids : List String) (state : DiskState) (c : Change) (hsound : Sound state)
      (hc : Store.removing ids state = .ok c) : Sound c.state := by
    cases hc
    exact sound_removed hsound ids
  cases a with
  | acknowledge s ackVersion results calls =>
    cases hstep
    simp only [Store.acknowledge]
    split
    · exact h
    · exact sound_transaction h (hremoving _)
  | call a =>
    cases hstep
    cases a with
    | openStore s calls =>
      refine sound_transaction h fun state c hsound hc ↦ ?_
      cases hc
      exact ⟨hsound.keyed, hsound.ordered, hsound.below⟩
    | observe s o now calls =>
      simp only [Observations.Action.outcome, Store.observe]
      split
      · exact h
      · exact sound_transaction h fun _ _ hsound hc ↦ sound_observing hsound hc
    | completeRestart s o now failed calls =>
      refine sound_transaction h fun _ _ hsound hc ↦ ?_
      unfold Store.completing at hc
      grind [sound_append]
    | queue s e calls =>
      refine sound_transaction h fun state c hsound hc ↦ ?_
      split at hc
      · cases hc
      · next happend =>
        cases hc
        exact sound_append hsound happend
    | remove s ids calls =>
      simp only [Observations.Action.outcome, Store.remove]
      split
      · exact h
      · exact sound_transaction h (hremoving ids)
    | read s calls =>
      refine sound_transaction h fun state c hsound hc ↦ ?_
      cases hc
      exact hsound

end

def Allowed (encode : Encoder) (limit : Int) (events : List Event) : Prop :=
  events.length ≤ batchLimit limit ∧
    ∃ text, encodeBatch encode events = some text ∧ text.length ≤ maxPayloadBytes

theorem allowed_iff {encode : Encoder} (limit : Int)
    (h : ∀ e ∈ events, (encode e).isSome) : Allowed encode limit events ↔
      events.length ≤ batchLimit limit ∧ batchSize encode events ≤ maxPayloadBytes := by
  obtain ⟨text, htext, hlength⟩ := encodeBatch_eq h
  simp [Allowed, htext, hlength]

/-- `Pending` returns the longest prefix of the queue that is allowed, or fails because not even the
first event is; rounds of `Pending` and `Remove` drain the outbox in order; and exactly the queued
events have an order number. -/
theorem outbox_pending (sizes : Sizes) (encode : Encoder) :
    (∀ state limit, Keyed state → (∀ e ∈ queue state, (encode e).isSome) →
      (∀ err, pending encode limit state = .error err →
        ∃ e ∈ (queue state).head?, ¬ Allowed encode limit [e]) ∧
      (∀ events, pending encode limit state = .ok events →
        (events <+: queue state ∧ Allowed encode limit events) ∧
        ∀ more, more <+: queue state → Allowed encode limit more →
          more.length ≤ events.length) ∧
      ((∀ e ∈ queue state, Allowed encode limit [e]) → ∀ rounds ≥ (queue state).length,
        (drain encode limit rounds state).1.flatten = queue state ∧
          queue (drain encode limit rounds state).2 = [])) ∧
    ∀ file, Steps (step sizes) none file → ∀ state ∈ file, Sound state := by
  refine ⟨fun state limit hkeyed hencode ↦ ⟨fun err herror ↦ ?_, fun events hok ↦ ?_,
    fun hall rounds hrounds ↦ ?_⟩, fun file hsteps ↦ ?_⟩
  · have hfits := fits_pending limit hencode
    rw [herror] at hfits
    obtain ⟨-, e, he, hlarge⟩ := hfits
    rw [List.head?_take] at he
    split at he
    · cases he
    · refine ⟨e, he, fun hallowed ↦ ?_⟩
      have hsize := (allowed_iff limit (by simpa using hencode e (List.mem_of_mem_head? he))).mp hallowed
      exact absurd hsize.2 (not_le.mpr hlarge)
  · have hfits := fits_pending limit hencode
    rw [hok] at hfits
    obtain ⟨hpre, hsize, hlongest⟩ := hfits
    obtain ⟨hpre, hlength⟩ := List.prefix_take_iff.mp hpre
    have hiff {l : List Event} (hl : l <+: queue state) :=
      allowed_iff limit fun e he ↦ hencode e (hl.subset he)
    refine ⟨⟨hpre, (hiff hpre).mpr ⟨hlength, hsize⟩⟩, fun more hmore hallowed ↦ ?_⟩
    obtain ⟨hcount, hfits⟩ := (hiff hmore).mp hallowed
    exact hlongest more (List.prefix_take_iff.mpr ⟨hmore, hcount⟩) hfits
  · refine drain_spec limit hkeyed (fun e he ↦ ⟨hencode e he, ?_⟩) hrounds
    exact ((allowed_iff limit (by simpa using hencode e he)).mp (hall e he)).2
  · refine hsteps.invariant (I := fun file ↦ ∀ state ∈ file, Sound state)
      nofun fun _ _ _ h _ hstep ↦ sound_step h hstep

/-- An encoding of which a batch has room for one event. -/
def wide (_ : Event) : Option (List UInt8) := some (replicate 200000 32)

/-- The events of an incident and its recovery. -/
theorem outbox_pending_recovered :
    ∃ state, Sound state ∧ (queue state).map (·.eventID) = ["a", "g"] ∧
      (∀ events, pending wide 50 state = .ok events → events.length ≤ 1) ∧
      (drain wide 50 2 state).1.flatten = queue state := by
  have hrun : ∃ file, Steps (step Incidents.sampleSizes) none file ∧
      (file.any fun state ↦ (queue state).map (·.eventID) = ["a", "g"]) = true :=
    exists_steps ((Incidents.recovering ++ [Incidents.observes "" "g" 360 .done]).map .call) _
      (by decide +kernel)
  obtain ⟨file, hsteps, hfile⟩ := hrun
  obtain ⟨state, hstate, hids⟩ := (Option.any_eq_true _ _).mp hfile
  have hqueue := of_decide_eq_true hids
  obtain ⟨hpending, hsound⟩ := outbox_pending Incidents.sampleSizes wide
  have hsound := hsound file hsteps state hstate
  obtain ⟨-, hlongest, hdrain⟩ := hpending state 50 hsound.keyed fun _ _ ↦ rfl
  have hsize (events : List Event) : batchSize wide events =
      48 + events.length * 200000 + (events.length - 1) := by
    have hone (e : Event) : size wide e = 200000 := by
      rw [size, wide, Option.map_some, Option.getD_some, length_replicate]
    simp [batchSize, map_congr_left fun e _ ↦ hone e]
  refine ⟨state, hsound, hqueue, fun events hok ↦ ?_, (hdrain (fun e _ ↦ ?_) 2 ?_).1⟩
  · have hfits := ((allowed_iff 50 fun _ _ ↦ rfl).mp (hlongest events hok).1.2).2
    rw [hsize, maxPayloadBytes] at hfits
    omega
  · refine (allowed_iff 50 fun _ _ ↦ rfl).mpr ⟨by simp [batchLimit, maxBatchSize], ?_⟩
    simp [hsize, maxPayloadBytes]
  · simpa using (congrArg List.length hqueue).le

end AnixAgent.Maintenance.Outbox
