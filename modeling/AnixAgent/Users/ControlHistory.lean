import AnixAgent.Lib.ChangeLog
import AnixAgent.Users.Machine

namespace AnixAgent.Users.ControlHistory

open Machine Lib.ChangeLog Lib.Tables List

variable {γ : Type}

/-- Control's history of user-set changes, numbered by cursor. Every user has an id. -/
structure Control (γ : Type) extends History Nat (NodeUser γ) where
  started : ∀ id user, start id = some user → user.userId = id ∧ id ≠ 0
  changed : ∀ change ∈ changes, ∀ user, change.2 = some user →
    user.userId = change.1 ∧ change.1 ≠ 0

abbrev Control.set (control : Control γ) (cursor : Nat) : Nat → Option (NodeUser γ) :=
  control.toHistory.after cursor

variable {id a : Nat} {user : NodeUser γ}

theorem Control.set_some (control : Control γ) {cursor : Nat}
    (h : control.set cursor id = some user) : user.userId = id ∧ id ≠ 0 :=
  History.after_forall (P := fun id user ↦ user.userId = id ∧ id ≠ 0) control.started
    control.changed cursor h

def Whole (control : Control γ) (delta : UserDelta γ) : Prop :=
  ∀ user, user ∈ delta.upserts ↔ control.set delta.cursor user.userId = some user

/-- The state at the delta's cursor of every user changed after `a`. -/
structure Changes (control : Control γ) (a : Nat) (delta : UserDelta γ) : Prop where
  upserts : ∀ user ∈ delta.upserts, control.set delta.cursor user.userId = some user
  removed : ∀ id ∈ delta.removedUserIds, control.set delta.cursor id = none
  covers : ∀ id, control.toHistory.Changed a delta.cursor id →
    (∃ user ∈ delta.upserts, user.userId = id) ∨ id ∈ delta.removedUserIds

/-- Control's answer to an Agent at the cursor `a`. -/
def Answers (control : Control γ) (a : Nat) (delta : UserDelta γ) : Prop :=
  a ≤ delta.cursor ∧ if delta.full then Whole control delta else Changes control a delta

structure Paged (pages : List (UserDelta γ)) : Prop where
  few : pages.length < maxPendingUserPages
  last : ∃ front page, pages = front ++ [page] ∧ page.lastPage = true ∧
    ∀ other ∈ front, other.lastPage = false

theorem Paged.last_iff {pages rest : List (UserDelta γ)} {page : UserDelta γ}
    (h : Paged (pages ++ page :: rest)) : page.lastPage ↔ rest = [] := by
  obtain ⟨front, last, heq, hlast, hfront⟩ := h.last
  constructor
  · intro hpage
    by_contra hrest
    obtain ⟨init, other, rfl⟩ := eq_nil_or_concat rest |>.resolve_left hrest
    have hsplit : front = pages ++ page :: init := by
      have : pages ++ page :: (init ++ [other]) = (pages ++ page :: init) ++ [other] := by simp
      rw [concat_eq_append, this] at heq
      exact (append_inj_left' heq rfl).symm
    rw [hfront page (by rw [hsplit]; simp)] at hpage
    cases hpage
  · rintro rfl
    have hpage : page = last := by
      have hsingle := append_inj_right' heq rfl
      exact singleton_inj.mp hsingle
    rw [hpage]
    exact hlast

/-- Everything that Control sends answers the Hello, or goes on from there. -/
def Answered (control : Control γ) (s : System γ) : Action γ → Prop
  | .send pages =>
    match s.link with
    | .streaming stream => Paged pages ∧ Answers control stream.base (joined pages)
    | _ => True
  | _ => True

/-- Moreover Control never goes back behind what it has sent, and an Agent that holds
no set is sent the whole one, unless Control's history starts with none. -/
def Steady (control : Control γ) (s : System γ) : Action γ → Prop
  | .send pages =>
    match s.link with
    | .streaming stream =>
      Paged pages ∧ Answers control stream.base (joined pages) ∧
        s.head ≤ (joined pages).cursor ∧
        ((joined pages).full = true ∨ stream.held = true ∨ ∀ id, control.start id = none)
    | _ => True
  | _ => True

/-- A user set with Control's users at its cursor, by ascending id. -/
structure Reflects (control : Control γ) (set : UserSet γ) : Prop where
  users : ∀ user, user ∈ set.users ↔ control.set set.cursor user.userId = some user
  sorted : set.users.Pairwise fun a b ↦ a.userId < b.userId

def lastUpsert (users : List (NodeUser γ)) (id : Nat) : Option (NodeUser γ) :=
  users.reverse.find? fun user ↦ user.userId = id ∧ user.userId ≠ 0

theorem lastUpsert_cons (user : NodeUser γ) (users : List (NodeUser γ)) (id : Nat) :
    lastUpsert (user :: users) id =
      (lastUpsert users id).or (if user.userId = id ∧ user.userId ≠ 0 then some user else none) := by
  unfold lastUpsert
  rw [reverse_cons, find?_append]
  congr 1
  simp only [find?_cons, find?_nil]
  split <;> split <;> simp_all

theorem lastUpsert_some {users : List (NodeUser γ)}
    (h : lastUpsert users id = some user) : user ∈ users ∧ user.userId = id := by
  have hmem := mem_of_find?_eq_some h
  have hid := find?_some h
  exact ⟨mem_reverse.mp hmem, (of_decide_eq_true hid).1⟩

theorem lastUpsert_none {users : List (NodeUser γ)} (h : lastUpsert users id = none)
    (hmem : user ∈ users) (hid : user.userId = id) : id = 0 := by
  have hnot := find?_eq_none.mp h user (mem_reverse.mpr hmem)
  by_contra hne
  exact hnot (decide_eq_true ⟨hid, by rw [hid]; exact hne⟩)

theorem lookup_upsertAll (set : Table Nat (NodeUser γ)) (users : List (NodeUser γ)) (id : Nat) :
    (upsertAll set users).lookup id = (lastUpsert users id).or (set.lookup id) := by
  induction users generalizing set with
  | nil => rfl
  | cons user users ih =>
    have hstep : (upsertAll set (user :: users)) =
        upsertAll (if user.userId = 0 then set else set.insert user.userId user) users := rfl
    rw [hstep, ih, lastUpsert_cons, Option.or_assoc]
    congr 1
    by_cases hzero : user.userId = 0
    · rw [if_pos hzero, if_neg fun h ↦ h.2 hzero]
      rfl
    rw [if_neg hzero, lookup_insert_ite]
    by_cases hid : user.userId = id
    · rw [if_pos hid.symm, if_pos ⟨hid, hzero⟩]
      rfl
    · rw [if_neg (Ne.symm hid), if_neg fun h ↦ hid h.1]
      rfl

theorem lookup_removeAll (set : Table Nat (NodeUser γ)) (ids : List Nat) (id : Nat) :
    (removeAll set ids).lookup id = if id ∈ ids then none else set.lookup id := by
  induction ids generalizing set with
  | nil => rfl
  | cons other ids ih =>
    have hstep : removeAll set (other :: ids) = removeAll (set.erase other) ids := rfl
    rw [hstep, ih, lookup_erase_ite]
    by_cases hin : id ∈ ids
    · rw [if_pos hin, if_pos (mem_cons_of_mem _ hin)]
    rw [if_neg hin]
    by_cases hid : id = other
    · rw [if_pos hid, if_pos (by rw [hid]; exact mem_cons_self)]
    rw [if_neg hid, if_neg]
    intro hmem
    rcases mem_cons.mp hmem with heq | hmem
    · exact hid heq
    · exact hin hmem

/-- A `UserDelta` as a change of the whole set. -/
def view (delta : UserDelta γ) : Delta Nat (NodeUser γ) where
  whole := delta.full
  cursor := delta.cursor
  entry id := match lastUpsert delta.upserts id with
    | some user => some (some user)
    | none => if delta.full = false ∧ id ∈ delta.removedUserIds then some none else none

variable {delta : UserDelta γ}

theorem view_entry_of_some
    (h : lastUpsert delta.upserts id = some user) : (view delta).entry id = some (some user) := by
  simp only [view, h]

theorem view_entry_of_none (h : lastUpsert delta.upserts id = none) : (view delta).entry id =
      if delta.full = false ∧ id ∈ delta.removedUserIds then some none else none := by
  simp only [view, h]

theorem lookup_fold (u : UsersState γ) (delta : UserDelta γ) :
    (fold u delta).lookup = (view delta).apply u.lookup := by
  funext id
  show (upsertAll _ delta.upserts).lookup id = ((view delta).entry id).getD
    (if delta.full then none else u.lookup id)
  rw [lookup_upsertAll]
  cases hlast : lastUpsert delta.upserts id with
  | some user =>
    rw [view_entry_of_some hlast]
    rfl
  | none =>
    rw [view_entry_of_none hlast]
    cases delta.full with
    | true => rfl
    | false =>
      rw [if_neg Bool.false_ne_true, Option.none_or, lookup_removeAll]
      by_cases hin : id ∈ delta.removedUserIds
      · rw [if_pos hin, if_pos ⟨rfl, hin⟩]
        rfl
      · rw [if_neg hin, if_neg fun h ↦ hin h.2]
        show (u.set.getD ∅).lookup id = u.set.bind fun set ↦ set.lookup id
        cases u.set <;> rfl

variable {control : Control γ}

theorem Whole.truth (h : Whole control delta)
    (hfull : delta.full) (id : Nat) (v : Option (NodeUser γ))
    (hv : (view delta).entry id = some v) : control.set delta.cursor id = v := by
  cases hlast : lastUpsert delta.upserts id with
  | some user =>
    obtain ⟨hmem, hid⟩ := lastUpsert_some hlast
    rw [view_entry_of_some hlast] at hv
    cases hv
    rw [← hid]
    exact (h user).mp hmem
  | none =>
    rw [view_entry_of_none hlast, hfull, if_neg fun h ↦ Bool.noConfusion h.1] at hv
    cases hv

theorem Whole.complete (h : Whole control delta)
    (id : Nat) (hnone : (view delta).entry id = none) : control.set delta.cursor id = none := by
  cases hlast : lastUpsert delta.upserts id with
  | some user =>
    rw [view_entry_of_some hlast] at hnone
    cases hnone
  | none =>
    cases hset : control.set delta.cursor id with
    | none => rfl
    | some user =>
      obtain ⟨hid, hne⟩ := control.set_some hset
      have hmem : user ∈ delta.upserts := (h user).mpr (by rw [hid]; exact hset)
      exact absurd (lastUpsert_none hlast hmem hid) hne

theorem Changes.truth (h : Changes control a delta) (id : Nat) (v : Option (NodeUser γ))
    (hv : (view delta).entry id = some v) : control.set delta.cursor id = v := by
  cases hlast : lastUpsert delta.upserts id with
  | some user =>
    obtain ⟨hmem, hid⟩ := lastUpsert_some hlast
    rw [view_entry_of_some hlast] at hv
    cases hv
    rw [← hid]
    exact h.upserts user hmem
  | none =>
    rw [view_entry_of_none hlast] at hv
    split at hv
    · next hremoved =>
      cases hv
      exact h.removed id hremoved.2
    · cases hv

theorem Changes.complete (h : Changes control a delta) (hfull : delta.full = false) (id : Nat)
    (hnone : (view delta).entry id = none) : ¬ control.toHistory.Changed a delta.cursor id := by
  intro hchanged
  cases hlast : lastUpsert delta.upserts id with
  | some user =>
    rw [view_entry_of_some hlast] at hnone
    cases hnone
  | none =>
    rw [view_entry_of_none hlast] at hnone
    rcases h.covers id hchanged with ⟨user, hmem, hid⟩ | hremoved
    · have hset := h.upserts user hmem
      rw [hid] at hset
      exact (control.set_some hset).2 (lastUpsert_none hlast hmem hid)
    · rw [if_pos ⟨hfull, hremoved⟩] at hnone
      cases hnone

def position (u : UsersState γ) : Option Nat := if u.has then some u.cursor else none

def Past (base : Nat) (held : Bool) (place : Option Nat) : Prop :=
  if held then ∃ n, place = some n ∧ base ≤ n else base = 0

theorem Answers.fits {base : Nat} {held : Bool} {place : Option Nat}
    (h : Answers control base delta) (hpast : Past base held place)
    (hforward : ∀ n, place = some n → n ≤ delta.cursor)
    (hheld : delta.full ∨ held ∨ ∀ id, control.start id = none) :
    Fits control.toHistory place (view delta) := by
  obtain ⟨-, hcontent⟩ := h
  cases hfull : delta.full with
  | true =>
    rw [if_pos hfull] at hcontent
    refine ⟨hcontent.truth hfull, hforward, ?_⟩
    rw [if_pos (show (view delta).whole = true from hfull)]
    exact hcontent.complete
  | false =>
    rw [if_neg (by rw [hfull]; exact Bool.false_ne_true)] at hcontent
    refine ⟨hcontent.truth, hforward, ?_⟩
    rw [if_neg (show ¬ (view delta).whole = true by
      show ¬ delta.full
      rw [hfull]
      exact Bool.false_ne_true)]
    refine ⟨base, hcontent.complete hfull, ?_⟩
    unfold Past at hpast
    cases hheld' : held with
    | true =>
      rw [if_pos hheld'] at hpast
      obtain ⟨n, rfl, hle⟩ := hpast
      exact hle
    | false =>
      rw [if_neg (by rw [hheld']; exact Bool.false_ne_true)] at hpast
      subst hpast
      cases place with
      | some n => exact Nat.zero_le n
      | none =>
        rw [hfull, hheld'] at hheld
        refine ⟨rfl, ?_⟩
        rcases hheld with hno | hno | hempty
        · cases hno
        · cases hno
        · exact hempty

end AnixAgent.Users.ControlHistory
