import AnixAgent.Lib.Runs
import AnixAgent.Lib.Tables

namespace AnixAgent.Alive.Lists

open Lib.Runs Lib.Tables List Option

structure AliveEntry where
  userId : Nat
  aliveCount : Nat
  deriving DecidableEq

structure AliveList where
  revision : Nat
  entries : List AliveEntry
  lastPage : Bool
  deriving DecidableEq

/-- `aliveState`: `list` is none until there is one. A session's id is a number, 0 the empty one. -/
structure AliveState where
  pages : Option (Table Nat Nat)
  pagesSession : Nat
  pagesRevision : Nat
  pagesOverflow : Bool
  list : Option (Table Nat Nat)
  revision : Nat
  pending : Bool
  lists : Nat
  deriving DecidableEq

def takeEntries (limit : Nat) (pages : Table Nat Nat) (overflow : Bool) :
    List AliveEntry → Table Nat Nat × Bool
  | [] => (pages, overflow)
  | entry :: rest =>
    if entry.userId = 0 ∨ entry.aliveCount = 0 then takeEntries limit pages overflow rest
    else if limit ≤ pages.keys.length then (pages, true)
    else takeEntries limit (pages.insert entry.userId entry.aliveCount) overflow rest

def AliveState.dropPages (a : AliveState) : AliveState := { a with
  pages := none
  pagesSession := 0
  pagesRevision := 0
  pagesOverflow := false }

/-- The buffer for a page: a half-received list of another session or revision is dropped. -/
def AliveState.held (a : AliveState) (sessionID revision : Nat) : Table Nat Nat × Bool :=
  match a.pages with
  | none => (∅, false)
  | some pages =>
    if a.pagesSession ≠ sessionID ∨ a.pagesRevision ≠ revision then (∅, false)
    else (pages, a.pagesOverflow)

/-- `receiveAlive` of a data plane that takes alive lists; `limit` is `maxAliveEntries`. -/
def receiveAlive (limit : Nat) (a : AliveState) (sessionID : Nat) (page : AliveList) : AliveState :=
  let held := a.held sessionID page.revision
  let taken := takeEntries limit held.1 held.2 page.entries
  if page.lastPage = false then { a with
    pages := some taken.1
    pagesSession := sessionID
    pagesRevision := page.revision
    pagesOverflow := taken.2 }
  else if taken.2 then a.dropPages
  else { a.dropPages with
    list := some taken.1
    revision := page.revision
    pending := true
    lists := a.lists + 1 }

def dropAlivePages (a : AliveState) (sessionID : Nat) : AliveState :=
  if a.pagesSession = sessionID then a.dropPages else a

/-- The data plane and, of the session that is open, the pages of the list that Control is sending
and the revision of its last page; `complete` are the lists that were sent to the end. -/
structure System where
  alive : AliveState
  session : Option Nat
  sent : List AliveList
  before : Option Nat
  complete : List (List AliveList)
  deriving DecidableEq

def init : System := ⟨⟨none, 0, 0, false, none, 0, false, 0⟩, none, [], none, []⟩

/-- Control begins a list with the `first` page. -/
inductive Action
  | sessionStarted (id : Nat)
  | receive (first : Bool) (page : AliveList)
  | sessionEnded
  | applied

def listOf (s : System) (first : Bool) (page : AliveList) : List AliveList :=
  (if first then [] else s.sent) ++ [page]

def step (limit : Nat) (s : System) : Action → Option System
  | .sessionStarted id =>
    if s.session = none then some { s with session := some id, sent := [], before := none }
    else none
  | .receive first page => s.session.map fun id ↦ { s with
      alive := receiveAlive limit s.alive id page
      sent := if page.lastPage then [] else listOf s first page
      before := some page.revision
      complete := if page.lastPage then listOf s first page :: s.complete else s.complete }
  | .sessionEnded => s.session.map fun id ↦
      { s with alive := dropAlivePages s.alive id, session := none, sent := [] }
  | .applied => some { s with alive := { s.alive with pending := false } }

/-- The pages of a list come one after the other with its revision, which is not the one of the list
before it in the session. -/
def orderly (s : System) : Action → Bool
  | .receive first page =>
    if first then s.before ≠ some page.revision else s.sent ≠ [] ∧ s.before = some page.revision
  | _ => true

def union (pages : List AliveList) : Table Nat Nat :=
  index (·.userId) (·.aliveCount)
    ((pages.flatMap (·.entries)).filter fun entry ↦ entry.userId ≠ 0 ∧ entry.aliveCount ≠ 0)

def insertAll (t : Table Nat Nat) (entries : List AliveEntry) : Table Nat Nat :=
  (entries.filter fun entry ↦ entry.userId ≠ 0 ∧ entry.aliveCount ≠ 0).foldl
    (fun t entry ↦ t.insert entry.userId entry.aliveCount) t

theorem union_append (pages : List AliveList) (page : AliveList) :
    union (pages ++ [page]) = insertAll (union pages) page.entries := by
  simp [union, insertAll, index, filter_append]

theorem length_keys_insertAll (entries : List AliveEntry) (t : Table Nat Nat) :
    t.keys.length ≤ (insertAll t entries).keys.length := by
  induction entries generalizing t with
  | nil => exact le_rfl
  | cons entry rest ih =>
    unfold insertAll at ih ⊢
    rw [filter_cons]
    split
    · refine le_trans ?_ (ih (t.insert entry.userId entry.aliveCount))
      rw [AList.keys_insert, length_cons, length_erase]
      split <;> omega
    · exact ih t

/-- Without an overflow every entry was taken, and there is none below the limit. -/
theorem takeEntries_spec (limit : Nat) (entries : List AliveEntry) (t : Table Nat Nat)
    (overflow : Bool) :
    ((takeEntries limit t overflow entries).2 = false →
      overflow = false ∧ (takeEntries limit t overflow entries).1 = insertAll t entries) ∧
    ((takeEntries limit t overflow entries).2 →
      overflow ∨ limit ≤ (insertAll t entries).keys.length) := by
  induction entries generalizing t with
  | nil => exact ⟨fun h ↦ ⟨h, rfl⟩, fun h ↦ .inl h⟩
  | cons entry rest ih =>
    unfold takeEntries
    split
    · next hskip =>
      have hsame : insertAll t (entry :: rest) = insertAll t rest := by
        unfold insertAll
        rw [filter_cons_of_neg (by simp; tauto)]
      rw [hsame]
      exact ih t
    · next htake =>
      split
      · next hfull =>
        refine ⟨nofun, fun _ ↦ .inr (hfull.trans (length_keys_insertAll _ t))⟩
      have hsame : insertAll t (entry :: rest) =
          insertAll (t.insert entry.userId entry.aliveCount) rest := by
        unfold insertAll
        rw [filter_cons_of_pos (by simpa using htake), foldl_cons]
      rw [hsame]
      exact ih _

def Has (limit : Nat) (buffer : Table Nat Nat × Bool) (pages : List AliveList) : Prop :=
  (buffer.2 = false → buffer.1 = union pages) ∧
    (buffer.2 = true → limit ≤ (union pages).keys.length)

structure Buffered (limit : Nat) (s : System) : Prop where
  none : s.sent = [] → s.alive.pages = none
  some : s.sent ≠ [] → s.session = some s.alive.pagesSession ∧
    s.before = some s.alive.pagesRevision ∧
    ∃ pages, s.alive.pages = some pages ∧ Has limit (pages, s.alive.pagesOverflow) s.sent

section
variable {limit : Nat} {s s' : System} {a : Action} {id : Nat} {first : Bool} {page : AliveList}

theorem has_nil : Has limit (∅, false) [] := ⟨fun _ ↦ rfl, nofun⟩

theorem Has.takeEntries {buffer : Table Nat Nat × Bool} {pages : List AliveList}
    (h : Has limit buffer pages) (page : AliveList) :
    Has limit (takeEntries limit buffer.1 buffer.2 page.entries) (pages ++ [page]) := by
  obtain ⟨htaken, hfull⟩ := takeEntries_spec limit page.entries buffer.1 buffer.2
  rw [Has, union_append]
  refine ⟨fun hok ↦ ?_, fun hover ↦ ?_⟩
  · obtain ⟨hbefore, heq⟩ := htaken hok
    rw [heq, h.1 hbefore]
  · cases hbefore : buffer.2 with
    | true => exact (h.2 hbefore).trans (length_keys_insertAll _ _)
    | false => exact h.1 hbefore ▸ (hfull hover).resolve_left (by simp [hbefore])

theorem has_held (h : Buffered limit s) (hsession : s.session = some id)
    (horderly : orderly s (.receive first page)) :
    Has limit (s.alive.held id page.revision) (if first then [] else s.sent) := by
  unfold AliveState.held
  by_cases hnil : s.sent = []
  · cases first with
    | true => simpa [h.none hnil] using has_nil
    | false => simp [orderly, hnil] at horderly
  obtain ⟨hid, hrevision, pages, hpages, hhas⟩ := h.some hnil
  obtain rfl : s.alive.pagesSession = id := Option.some.inj (hid.symm.trans hsession)
  rw [hpages]
  cases first with
  | true =>
    have hne : s.alive.pagesRevision ≠ page.revision := by
      simpa [orderly, hrevision] using horderly
    simpa [hne] using has_nil
  | false =>
    have heq : s.alive.pagesRevision = page.revision := by
      simpa [orderly, hnil, hrevision] using horderly
    simpa [heq] using hhas

theorem buffered_step (h : Buffered limit s) (horderly : orderly s a)
    (hstep : step limit s a = some s') : Buffered limit s' := by
  have hnil (hsent : s'.sent = []) (hpages : s'.alive.pages = none) : Buffered limit s' :=
    ⟨fun _ ↦ hpages, fun hne ↦ absurd hsent hne⟩
  cases a with
  | sessionStarted id =>
    obtain ⟨hsession, hs'⟩ := ite_some_none_eq_some.mp hstep
    cases hs'
    refine hnil rfl (h.none ?_)
    by_contra hne
    exact absurd (hsession.symm.trans (h.some hne).1) (by simp)
  | receive first page =>
    obtain ⟨id, hsession, rfl⟩ := map_eq_some_iff.mp hstep
    have hhas := (has_held h hsession horderly).takeEntries page
    by_cases hlast : page.lastPage
    · refine hnil (if_pos hlast) ?_
      simp only [receiveAlive, hlast, Bool.true_eq_false, if_false]
      split <;> rfl
    have hsent : (if page.lastPage then [] else listOf s first page) = listOf s first page :=
      if_neg hlast
    have halive : receiveAlive limit s.alive id page = _ :=
      if_pos (Bool.eq_false_of_not_eq_true hlast)
    refine ⟨fun hsent' ↦ ?_, fun _ ↦ ?_⟩
    · exact absurd (hsent.symm.trans hsent') (by simp [listOf])
    · rw [halive, hsent]
      exact ⟨hsession, rfl, _, rfl, hhas⟩
  | sessionEnded =>
    obtain ⟨id, hsession, rfl⟩ := map_eq_some_iff.mp hstep
    refine hnil rfl ?_
    simp only [dropAlivePages]
    split
    · rfl
    next hother =>
    refine h.none ?_
    by_contra hne
    exact hother (Option.some.inj ((h.some hne).1.symm.trans hsession))
  | applied =>
    cases hstep
    exact ⟨h.none, h.some⟩

theorem list_step (h : Buffered limit s) (horderly : orderly s a)
    (hstep : step limit s a = some s') :
    (s'.alive.list = s.alive.list ∧ (s'.complete = s.complete ∨
      ∃ pages, s'.complete = pages :: s.complete ∧ limit ≤ (union pages).keys.length)) ∨
    ∃ pages, s'.complete = pages :: s.complete ∧ s'.alive.list = some (union pages) := by
  cases a with
  | sessionStarted id =>
    obtain ⟨-, hs'⟩ := ite_some_none_eq_some.mp hstep
    cases hs'
    exact .inl ⟨rfl, .inl rfl⟩
  | receive first page =>
    obtain ⟨id, hsession, rfl⟩ := map_eq_some_iff.mp hstep
    have hhas := (has_held h hsession horderly).takeEntries page
    cases hlast : page.lastPage with
    | false => exact .inl ⟨by simp [receiveAlive, hlast], .inl rfl⟩
    | true =>
      simp only [receiveAlive, hlast, Bool.true_eq_false, if_false, if_true]
      split
      · next hover => exact .inl ⟨rfl, .inr ⟨_, rfl, hhas.2 hover⟩⟩
      · next hok => exact .inr ⟨_, rfl, congrArg some (hhas.1 (Bool.eq_false_of_not_eq_true hok))⟩
  | sessionEnded =>
    obtain ⟨id, -, rfl⟩ := map_eq_some_iff.mp hstep
    refine .inl ⟨?_, .inl rfl⟩
    simp only [dropAlivePages]
    split <;> rfl
  | applied =>
    cases hstep
    exact .inl ⟨rfl, .inl rfl⟩

end

/-- When Control sends the pages of each list one after the other, the list in force is the union of
the pages of one list that was sent to the end, and a list completed below the entry limit comes
into force. -/
theorem whole_lists_in_force {limit : Nat} {s : System}
    (h : Reach (step limit) (fun s a ↦ orderly s a = true) init s) :
    (∀ list, s.alive.list = some list → ∃ pages ∈ s.complete, list = union pages) ∧
    ∀ a s', orderly s a = true → step limit s a = some s' →
      (s'.alive.list = s.alive.list ∧ (s'.complete = s.complete ∨
        ∃ pages, s'.complete = pages :: s.complete ∧ limit ≤ (union pages).keys.length)) ∨
      ∃ pages, s'.complete = pages :: s.complete ∧ s'.alive.list = some (union pages) := by
  have hinv : Buffered limit s ∧
      ∀ list, s.alive.list = some list → ∃ pages ∈ s.complete, list = union pages := by
    apply h.invariant (I := fun s ↦ Buffered limit s ∧
      ∀ list, s.alive.list = some list → ∃ pages ∈ s.complete, list = union pages)
    · exact ⟨⟨fun _ ↦ rfl, fun hne ↦ absurd rfl hne⟩, nofun⟩
    intro s a s' hs horderly hstep
    refine ⟨buffered_step hs.1 horderly hstep, fun list hlist ↦ ?_⟩
    rcases list_step hs.1 horderly hstep with ⟨hsame, hcomplete⟩ | ⟨pages, hpages, hnew⟩
    · obtain ⟨pages, hpages, hunion⟩ := hs.2 list (hsame ▸ hlist)
      refine ⟨pages, ?_, hunion⟩
      rcases hcomplete with heq | ⟨more, heq, -⟩
      · rwa [heq]
      · exact heq ▸ List.mem_cons_of_mem _ hpages
    · refine ⟨pages, hpages ▸ List.mem_cons_self, ?_⟩
      exact Option.some.inj (hlist.symm.trans hnew)
  exact ⟨hinv.2, fun a s' horderly hstep ↦ list_step hinv.1 horderly hstep⟩

/-- A list of two pages, one that the next replaces, and one that the session's end cuts off. -/
theorem whole_lists_in_force_cut :
    ∃ s, Reach (step 10) (fun s a ↦ orderly s a = true) init s ∧ s.session = none ∧
      ∃ pages ∈ s.complete, s.alive.list = some (union pages) := by
  have hrun : ∃ s, Reach (step 10) (fun s a ↦ orderly s a = true) init s ∧ s.session = none ∧
      s.alive.list.isSome :=
    exists_reach [.sessionStarted 1, .receive true ⟨1, [⟨7, 2⟩], false⟩,
      .receive true ⟨2, [⟨8, 1⟩], false⟩, .receive false ⟨2, [⟨8, 3⟩, ⟨9, 0⟩], true⟩,
      .receive true ⟨3, [⟨9, 1⟩], false⟩, .sessionEnded] _ (by decide +kernel)
  obtain ⟨s, hreach, hsession, hlist⟩ := hrun
  obtain ⟨list, hlist⟩ := Option.isSome_iff_exists.mp hlist
  obtain ⟨pages, hpages, rfl⟩ := (whole_lists_in_force hreach).1 list hlist
  exact ⟨s, hreach, hsession, pages, hpages, hlist⟩

end AnixAgent.Alive.Lists
