import AnixAgent.Lib.Runs
import AnixAgent.Lib.Tables

namespace AnixAgent.Kernelfwd.Counters

open Lib.Runs Lib.Tables Option

abbrev Text := List Char

structure Counter where
  packets : Nat
  bytes : Nat
  deriving DecidableEq

/-- `strings.ReplaceAll(id, "-", "_")`. -/
def plain (id : Text) : Text := id.map fun c ↦ if c = '-' then '_' else c

def counterName (direction : Char) (id : Text) : Text := direction :: '_' :: plain id

def script (ids : List Text) (counters : Table Text Counter) : Table Text Counter :=
  index (fun name ↦ name) (fun name ↦ (counters.lookup name).getD ⟨0, 0⟩)
    (ids.flatMap fun id ↦ [counterName 'u' id, counterName 'd' id])

/-- `table` are the kernel's counters, and `listed` what a `sync` has read before its load. -/
structure State where
  forwards : List Text
  table : Table Text Counter
  listed : Option (List Text × Table Text Counter)

inductive Action
  | apply (ids : List Text)
  | list (ok : Bool)
  | load
  | count (name : Text) (packets bytes : Nat)

def step (s : State) : Action → Option State
  | .apply ids =>
    if ids.Nodup ∧ s.listed.isNone then
      some { s with forwards := ids, table := if ids = [] then ∅ else s.table }
    else none
  | .list ok =>
    if s.forwards ≠ [] ∧ s.listed.isNone then
      some { s with listed := some (s.forwards, if ok then s.table else ∅) }
    else none
  | .load => s.listed.map fun x ↦ { s with table := script x.1 x.2, listed := none }
  | .count name packets bytes => (s.table.lookup name).map fun c ↦
      { s with table := s.table.insert name ⟨c.packets + packets, c.bytes + bytes⟩ }

def bytes (counters : Table Text Counter) (direction : Char) (id : Text) : Nat :=
  ((counters.lookup (counterName direction id)).getD ⟨0, 0⟩).bytes

/-- The up and down bytes of each forward; `ok` is whether the counters are listed. -/
def status (s : State) (ok : Bool) : List (Text × Nat × Nat) :=
  let counters := if ok then s.table else ∅
  s.forwards.map fun id ↦ (id, bytes counters 'u' id, bytes counters 'd' id)

/-- The forward stays, the names of the counters differ, the counters are listed, and nothing is
counted between this and the load. -/
def Steady (id : Text) (s : State) : Action → Prop
  | .apply ids => id ∈ ids ∧ (ids.map plain).Nodup
  | .list ok => ok = true
  | .load => True
  | .count .. => s.listed = none

structure Inv (id : Text) (s : State) : Prop where
  stays : id ∈ s.forwards
  names : (s.forwards.map plain).Nodup
  listed : ∀ x ∈ s.listed, x = (s.forwards, s.table)

variable {id : Text} {s t : State} {a : Action}

theorem bytes_script {ids : List Text} {counters : Table Text Counter} {d : Char} (hid : id ∈ ids)
    (hd : d = 'u' ∨ d = 'd') : bytes (script ids counters) d id = bytes counters d id := by
  have hname : counterName d id ∈ ids.flatMap fun id ↦ [counterName 'u' id, counterName 'd' id] := by
    apply List.mem_flatMap.mpr
    rcases hd with rfl | rfl
    · exact ⟨id, hid, by simp⟩
    · exact ⟨id, hid, by simp⟩
  have hlookup := lookup_index_of_unique (f := fun name ↦ name)
    (g := fun name ↦ (counters.lookup name).getD ⟨0, 0⟩) hname fun y _ hy ↦ (by rw [hy])
  rw [bytes, script, hlookup]
  rfl

theorem inv_step (hs : Inv id s) (ha : Steady id s a) (h : step s a = some t) : Inv id t ∧
    ∀ d, d = 'u' ∨ d = 'd' → bytes s.table d id ≤ bytes t.table d id := by
  cases a with
  | apply ids =>
    obtain ⟨hfree, rfl⟩ := ite_some_none_eq_some.mp h
    have hne : ids ≠ [] := List.ne_nil_of_mem ha.1
    refine ⟨⟨ha.1, ha.2, ?_⟩, fun d _ ↦ by simp [hne]⟩
    simp [isNone_iff_eq_none.mp hfree.2]
  | list ok =>
    obtain ⟨-, rfl⟩ := ite_some_none_eq_some.mp h
    exact ⟨{ hs with listed := by simp [show ok = true from ha] }, fun d _ ↦ le_rfl⟩
  | load =>
    obtain ⟨x, hx, rfl⟩ := map_eq_some_iff.mp h
    cases hs.listed x hx
    exact ⟨{ hs with listed := by simp }, fun d hd ↦ (bytes_script hs.stays hd).ge⟩
  | count name packets n =>
    obtain ⟨c, hc, rfl⟩ := map_eq_some_iff.mp h
    refine ⟨{ hs with listed := by simp [show s.listed = none from ha] }, fun d _ ↦ ?_⟩
    unfold bytes
    dsimp only
    rw [lookup_insert_ite]
    split
    · next hname =>
      rw [hname, hc]
      exact Nat.le_add_right _ _
    · rfl

/-- While the forward stays, in steady runs, its bytes never decrease, and no two forwards share a
counter. -/
theorem bytes_grow (id : Text) (s t : State) (hid : id ∈ s.forwards) (hlisted : s.listed = none)
    (hnames : (s.forwards.map plain).Nodup) (hrun : Reach step (Steady id) s t) :
    (∀ x ∈ status s true, ∀ y ∈ status t true, x.1 = id → y.1 = id →
      x.2.1 ≤ y.2.1 ∧ x.2.2 ≤ y.2.2) ∧
    ∀ i ∈ t.forwards, ∀ j ∈ t.forwards, ∀ d e, counterName d i = counterName e j →
      d = e ∧ i = j := by
  have hgrows := hrun.invariant
    (I := fun t ↦ Inv id t ∧ ∀ d, d = 'u' ∨ d = 'd' → bytes s.table d id ≤ bytes t.table d id)
    ⟨⟨hid, hnames, by simp [hlisted]⟩, fun d _ ↦ le_rfl⟩ (by
    intro u a v hu ha h
    obtain ⟨hv, hle⟩ := inv_step hu.1 ha h
    exact ⟨hv, fun d hd ↦ (hu.2 d hd).trans (hle d hd)⟩)
  refine ⟨fun x hx y hy hxid hyid ↦ ?_, fun i hi j hj d e hname ↦ ?_⟩
  · obtain ⟨i, _, rfl⟩ := List.mem_map.mp hx
    obtain ⟨j, _, rfl⟩ := List.mem_map.mp hy
    cases hxid
    cases hyid
    exact ⟨hgrows.2 'u' (.inl rfl), hgrows.2 'd' (.inr rfl)⟩
  · obtain ⟨hd, hrest⟩ := List.cons.inj hname
    exact ⟨hd, List.inj_on_of_nodup_map hgrows.1.names hi hj (List.cons.inj hrest).2⟩

def counted : State := (exec step ⟨[], ∅, none⟩ [.apply [['a']], .list true, .load,
  .count ['u', '_', 'a'] 1 5]).getD ⟨[], ∅, none⟩

theorem bytes_grow_counted : ∃ t, Reach step (Steady ['a']) counted t ∧
    ∀ y ∈ status t true, y.1 = ['a'] → 5 ≤ y.2.1 := by
  have hrun : Reach step (Steady ['a']) counted _ := .one (.count ['u', '_', 'a'] 1 3) rfl rfl
  exact ⟨_, hrun, fun y hy hid ↦ ((bytes_grow ['a'] counted _ (by decide) rfl (by decide) hrun).1
    (['a'], 5, 0) (by decide) y hy rfl hid).1⟩

/-- The bytes decrease when the counters cannot be listed, by `Status` or before a load, and when
something is counted before the load; and "a-b" and "a_b" share their counters. -/
theorem bytes_decrease :
    status counted true = [(['a'], 5, 0)] ∧ status counted false = [(['a'], 0, 0)] ∧
    (exec step counted [.list false, .load]).map (status · true) = some [(['a'], 0, 0)] ∧
    (exec step counted [.list true, .count ['u', '_', 'a'] 1 3]).map (status · true) =
      some [(['a'], 8, 0)] ∧
    (exec step counted [.list true, .count ['u', '_', 'a'] 1 3, .load]).map (status · true) =
      some [(['a'], 5, 0)] ∧
    counterName 'u' ['a', '-', 'b'] = counterName 'u' ['a', '_', 'b'] := by
  decide

end AnixAgent.Kernelfwd.Counters
