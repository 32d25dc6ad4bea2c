import AnixAgent.Users.ControlHistory
import AnixAgent.Users.Steps

namespace AnixAgent.Users.Mirror

open Machine ControlHistory Steps Lib.ChangeLog Lib.Runs Lib.Tables List

variable {γ : Type}

/-- The deltas whose last page is still on its way: some pages of the first one may
have arrived. -/
inductive InTransit : List (UserDelta γ) → List (UserDelta γ) → List (UserDelta γ) → Prop
  | nil : InTransit [] [] []
  | cons {arrived tail outgoing deltas : List (UserDelta γ)} (hpaged : Paged (arrived ++ tail))
      (htail : tail ≠ []) (hrest : InTransit [] outgoing deltas) :
      InTransit arrived (tail ++ outgoing) (joined (arrived ++ tail) :: deltas)

variable {arrived outgoing deltas pages : List (UserDelta γ)}

theorem InTransit.send (h : InTransit arrived outgoing deltas) (hpages : Paged pages) :
    InTransit arrived (outgoing ++ pages) (deltas ++ [joined pages]) := by
  induction h with
  | nil =>
    have hne : pages ≠ [] := by
      obtain ⟨front, page, rfl, -⟩ := hpages.last
      simp
    have hone : InTransit [] (pages ++ []) [joined pages] := .cons hpages hne .nil
    rwa [append_nil] at hone
  | cons hpaged htail _ ih =>
    rw [append_assoc]
    exact .cons hpaged htail ih

theorem InTransit.next {page : UserDelta γ} (h : InTransit arrived (page :: outgoing) deltas) :
    ∃ tail more rest, outgoing = tail ++ more ∧ Paged (arrived ++ page :: tail) ∧
      deltas = joined (arrived ++ page :: tail) :: rest ∧ InTransit [] more rest := by
  generalize hout : page :: outgoing = out at h
  cases h with
  | nil => cases hout
  | @cons _ tail more rest hpaged htail hrest =>
    cases tail with
    | nil => exact absurd rfl htail
    | cons first tail =>
      cases hout
      exact ⟨tail, more, rest, rfl, hpaged, rfl, hrest⟩

variable {u users : UsersState γ}

theorem reflects_userSet {control : Control γ} (hhas : u.has)
    (h : Holds control.toHistory (position u) u.lookup) : Reflects control (userSet u) := by
  have hset : u.lookup = control.set u.cursor := by
    unfold position at h
    rw [if_pos hhas] at h
    exact h
  have hlookup : ∀ id, (u.set.getD ∅).lookup id = control.set u.cursor id := by
    intro id
    rw [← hset]
    unfold UsersState.lookup
    cases u.set <;> rfl
  have hentry : ∀ x ∈ (u.set.getD ∅).entries, control.set u.cursor x.1 = some x.2 ∧
      x.2.userId = x.1 := by
    intro x hx
    have hx' := (hlookup x.1).symm.trans (AList.mem_lookup_iff.mpr hx)
    exact ⟨hx', (control.set_some hx').1⟩
  constructor
  · intro user
    unfold userSet
    rw [mem_insertionSort, mem_map]
    constructor
    · rintro ⟨x, hx, rfl⟩
      obtain ⟨hx', hid⟩ := hentry x hx
      rw [hid]
      exact hx'
    · intro huser
      exact ⟨⟨user.userId, user⟩, AList.mem_lookup_iff.mp ((hlookup _).trans huser), rfl⟩
  · have hids : (((u.set.getD ∅).entries.map fun x ↦ x.2).map (·.userId)).Nodup := by
      have hkeys : ((u.set.getD ∅).entries.map fun x ↦ x.2).map (·.userId) =
          (u.set.getD ∅).entries.map Sigma.fst := by
        rw [map_map]
        exact map_congr_left fun x hx ↦ (hentry x hx).2
      rw [hkeys]
      exact (u.set.getD ∅).nodupKeys
    have hle : (userSet u).users.Pairwise fun a b ↦ a.userId ≤ b.userId :=
      pairwise_insertionSort _ _
    have hne : ((userSet u).users.map (·.userId)).Nodup :=
      (((perm_insertionSort _ _).map _).nodup_iff).mpr hids
    exact hle.imp₂ (fun _ _ ↦ lt_of_le_of_ne) (pairwise_map.mp hne)

theorem upsertAll_eq (users : List (NodeUser γ)) (set : Table Nat (NodeUser γ))
    (h : ∀ user ∈ users, user.userId ≠ 0) :
    users.foldl (fun t user ↦ t.insert user.userId user) set = upsertAll set users := by
  induction users generalizing set with
  | nil => rfl
  | cons user users ih =>
    have hne := h user mem_cons_self
    have hstep : upsertAll set (user :: users) = upsertAll (set.insert user.userId user) users := by
      show upsertAll (if user.userId = 0 then set else set.insert user.userId user) users = _
      rw [if_neg hne]
    rw [foldl_cons, hstep]
    exact ih _ fun other hother ↦ h other (mem_cons_of_mem _ hother)

variable {set : UserSet γ}

theorem lookup_restoreUsers {control : Control γ} (h : Reflects control set)
    (u : UsersState γ) : (restoreUsers u set).lookup = control.set set.cursor := by
  have hids : ∀ user ∈ set.users, user.userId ≠ 0 := fun user hmem ↦
    (control.set_some ((h.users user).mp hmem)).2
  funext id
  have heq : (restoreUsers u set).lookup id = (upsertAll ∅ set.users).lookup id := by
    rw [← upsertAll_eq _ _ hids]
    rfl
  rw [heq, lookup_upsertAll]
  cases hlast : lastUpsert set.users id with
  | some user =>
    obtain ⟨hmem, hid⟩ := lastUpsert_some hlast
    rw [← hid, (h.users user).mp hmem]
    rfl
  | none =>
    cases hset : control.set set.cursor id with
    | none => rfl
    | some user =>
      obtain ⟨hid, hne⟩ := control.set_some hset
      have hmem : user ∈ set.users := (h.users user).mpr (by rw [hid]; exact hset)
      exact absurd (lastUpsert_none hlast hmem hid) hne

theorem lookup_foldl_fold (u : UsersState γ) (deltas : List (UserDelta γ)) :
    (deltas.foldl fold u).lookup = (deltas.map view).foldl (fun set d ↦ d.apply set) u.lookup := by
  induction deltas generalizing u with
  | nil => rfl
  | cons delta deltas ih =>
    rw [foldl_cons, ih, lookup_fold]
    rfl

theorem position_foldl_fold (u : UsersState γ) (deltas : List (UserDelta γ)) :
    position (deltas.foldl fold u) = target (position u) (deltas.map view) := by
  induction deltas generalizing u with
  | nil => rfl
  | cons delta deltas ih =>
    rw [foldl_cons, ih]
    rfl

theorem foldl_fold_dirty (h : u.dirty → u.has)
    (hdirty : (deltas.foldl fold u).dirty) : (deltas.foldl fold u).has := by
  induction deltas generalizing u with
  | nil => exact h hdirty
  | cons delta deltas ih => exact ih (fun _ ↦ rfl) hdirty

/-- The stream, where the deltas in `deltas` are on their way and `place` is where the
Agent will be once it has folded everything. -/
def Linked (u : UsersState γ) (sessions : Nat) (deltas : List (UserDelta γ)) (place : Option Nat) :
    Link γ → Prop
  | .offline => deltas = []
  | .greeting cursor held => deltas = [] ∧ Past cursor held place
  | .streaming stream => InTransit (buffer u stream.id) stream.outgoing deltas ∧
      Past stream.base stream.held place ∧ stream.id ≤ sessions

/-- The Agent mirrors Control: it holds Control's set at its cursor, what is queued or
on its way can be folded in turn, and every copy of a set is Control's. -/
structure Mirrors (control : Control γ) (deltas : List (UserDelta γ)) (s : System γ) : Prop where
  holds : Holds control.toHistory (position s.users) s.users.lookup
  line : Line control.toHistory (position s.users) ((s.users.queue ++ deltas).map view)
  behind : ∀ d ∈ s.users.queue ++ deltas, d.cursor ≤ s.head
  known : ∀ n, position s.users = some n → n ≤ s.head
  file : ∀ set, s.file = some set → Reflects control set ∧ set.cursor ≤ s.head
  persisted : ∀ set, s.users.persisted = some set → Reflects control set ∧ set.cursor ≤ s.head
  stored : s.startup = .starting → ∀ set, s.users.persisted = some set →
    (∀ d ∈ s.users.queue ++ deltas, set.cursor ≤ d.cursor) ∧
      ∀ n, position s.users = some n → n = set.cursor
  idle : s.active = true → s.startup ≠ .starting
  dirty : s.users.dirty = true ∨ (∃ set, s.worker = .saving set) → s.users.has = true
  worker : ∀ set, Worker.set s.worker = some set → Reflects control set ∧ set.cursor ≤ s.head
  linked : Linked s.users s.sessions deltas
    (target (position s.users) ((s.users.queue ++ deltas).map view)) s.link
  pages : s.users.pagesSession ≤ s.sessions

section

variable {control : Control γ} {deltas : List (UserDelta γ)} {s : System γ}

section

variable (h : Mirrors control deltas s)
include h

theorem Mirrors.cursor_le (hhas : s.users.has) : s.users.cursor ≤ s.head := by
  apply h.known
  unfold position
  rw [if_pos hhas]

theorem Mirrors.userSet (hhas : s.users.has) :
    Reflects control (userSet s.users) ∧ (Machine.userSet s.users).cursor ≤ s.head :=
  ⟨reflects_userSet hhas h.holds, h.cursor_le hhas⟩

theorem Mirrors.target_le {n : Nat}
    (hn : target (position s.users) ((s.users.queue ++ deltas).map view) = some n) :
    n ≤ s.head := by
  rcases eq_nil_or_concat (s.users.queue ++ deltas) with hnil | ⟨front, last, hline⟩
  · rw [hnil] at hn
    exact h.known n hn
  rw [hline, concat_eq_append, map_append, target_append] at hn
  rw [← Option.some.inj hn]
  apply h.behind
  rw [hline, concat_eq_append]
  exact mem_append_right _ (mem_singleton_self _)

end

theorem Linked.of_eq {v : UsersState γ} {sessions : Nat} {place : Option Nat} {link : Link γ}
    (h : Linked u sessions deltas place link) (hpages : v.pages = u.pages)
    (hsession : v.pagesSession = u.pagesSession) : Linked v sessions deltas place link := by
  cases link with
  | offline | greeting => exact h
  | streaming stream =>
    have hbuffer : buffer v stream.id = buffer u stream.id := by
      unfold buffer
      rw [hpages, hsession]
    obtain ⟨htransit, hpast⟩ := h
    exact ⟨hbuffer ▸ htransit, hpast⟩

theorem Mirrors.note (h : Mirrors control deltas s) {clock : Int} {file : Option (UserSet γ)}
    {worker : Worker γ} (hkeeps : Keeps s.users users)
    (hdirty : users.dirty → s.users.dirty ∨ ∃ set, s.worker = .saving set)
    (hfile : file = s.file ∨ ∃ set, s.worker = .saving set ∧ file = some set)
    (hworker : ∀ set, Worker.set worker = some set → set = Machine.userSet s.users ∧
      s.users.dirty ∨ Worker.set s.worker = some set)
    (hsaving : ∀ set, worker = .saving set → s.users.dirty ∨ s.worker = .saving set) :
    Mirrors control deltas
      { s with users := users, clock := clock, file := file, worker := worker } := by
  have hposition : position users = position s.users := by
    unfold position
    rw [hkeeps.has, hkeeps.cursor]
  have hlookup : users.lookup = s.users.lookup := by
    unfold UsersState.lookup
    rw [hkeeps.set]
  constructor
  · dsimp only
    rw [hposition, hlookup]
    exact h.holds
  · dsimp only
    rw [hposition, hkeeps.queue]
    exact h.line
  · dsimp only
    rw [hkeeps.queue]
    exact h.behind
  · dsimp only
    rw [hposition]
    exact h.known
  · intro set hset
    rcases hfile with hsame | ⟨set', hsaving, hnew⟩
    · exact h.file set (hsame ▸ hset)
    · cases hnew.symm.trans hset
      exact h.worker set (by rw [hsaving]; rfl)
  · dsimp only
    rw [hkeeps.persisted]
    exact h.persisted
  · dsimp only
    rw [hkeeps.persisted, hkeeps.queue, hposition]
    exact h.stored
  · exact h.idle
  · dsimp only
    rw [hkeeps.has]
    rintro (hnew | ⟨set, hnew⟩)
    · exact h.dirty (hdirty hnew)
    · exact h.dirty ((hsaving set hnew).imp_right fun hold ↦ ⟨set, hold⟩)
  · intro set hset
    rcases hworker set hset with ⟨rfl, hnew⟩ | hold
    · exact h.userSet (h.dirty (.inl hnew))
    · exact h.worker set hold
  · dsimp only
    rw [hposition, hkeeps.queue]
    exact h.linked.of_eq hkeeps.pages hkeeps.pagesSession
  · dsimp only
    rw [hkeeps.pagesSession]
    exact h.pages

theorem Past.restore {base : Nat} {held : Bool} {place : Option Nat} {n : Nat}
    {line : List (Delta Nat (NodeUser γ))} (h : Past base held (target place line))
    (hplace : ∀ n', place = some n' → n' = n) : Past base held (target (some n) line) := by
  cases line with
  | cons d line => exact h
  | nil =>
    unfold Past at h ⊢
    split at h
    · next hheld =>
      rw [if_pos hheld]
      obtain ⟨m, hm, hle⟩ := h
      exact ⟨n, rfl, hplace m hm ▸ hle⟩
    · next hheld =>
      rw [if_neg hheld]
      exact h

theorem Linked.mono {sessions : Nat} {place place' : Option Nat} {link : Link γ}
    (h : Linked u sessions deltas place link)
    (hpast : ∀ base held, Past base held place → Past base held place') :
    Linked u sessions deltas place' link := by
  cases link with
  | offline => exact h
  | greeting cursor held => exact ⟨h.1, hpast _ _ h.2⟩
  | streaming stream => exact ⟨h.1, hpast _ _ h.2.1, h.2.2⟩

section

variable (h : Mirrors control deltas s)
include h

theorem Mirrors.restore (hstartup : s.startup = .starting) (hset : s.users.persisted = some set) :
    Mirrors control deltas { s with users := restoreUsers s.users set } := by
  obtain ⟨hreflects, hle⟩ := h.persisted set hset
  obtain ⟨hbehind, hplace⟩ := h.stored hstartup set hset
  refine ⟨lookup_restoreUsers hreflects s.users, ?_, h.behind, ?_, h.file, h.persisted, ?_, h.idle,
    fun _ ↦ rfl, h.worker, ?_, h.pages⟩
  · show Line control.toHistory (some set.cursor) ((s.users.queue ++ deltas).map view)
    have hline := h.line
    cases hposition : position s.users with
    | none =>
      rw [hposition] at hline
      refine hline.advance fun d hd ↦ ?_
      obtain ⟨delta, hdelta, rfl⟩ := mem_map.mp hd
      exact hbehind delta hdelta
    | some n =>
      rw [hposition, hplace n hposition] at hline
      exact hline
  · rintro n ⟨⟩
    exact hle
  · intro _ set' hset'
    cases hset.symm.trans hset'
    refine ⟨hbehind, ?_⟩
    rintro n ⟨⟩
    rfl
  · exact Linked.mono (Linked.of_eq h.linked rfl rfl) fun _ _ hpast ↦ Past.restore hpast hplace

theorem Mirrors.take {earlier rest : List (UserDelta γ)} {delta : UserDelta γ}
    (hqueue : s.users.queue = earlier ++ delta :: rest) (hfull : delta.full) :
    Mirrors control deltas { s with
      users := fold { s.users with queue := rest } delta
      startup := .taken set } := by
  have hsplit : (s.users.queue ++ deltas).map view =
      earlier.map view ++ view delta :: (rest ++ deltas).map view := by
    rw [hqueue]
    simp
  have hline := h.line
  rw [hsplit, line_append] at hline
  obtain ⟨hfits, hrest⟩ := hline.2
  have hsub : ∀ d ∈ rest ++ deltas, d ∈ s.users.queue ++ deltas := by
    intro d hd
    rw [hqueue, append_assoc]
    exact mem_append_right _ (mem_cons_of_mem _ hd)
  have hdelta : delta ∈ s.users.queue ++ deltas := by
    rw [hqueue]
    simp
  refine ⟨?_, hrest, fun d hd ↦ h.behind d (hsub d hd), ?_, h.file, h.persisted, nofun, nofun,
    fun _ ↦ rfl, h.worker, ?_, h.pages⟩
  · show (fold _ delta).lookup = control.set delta.cursor
    rw [lookup_fold]
    exact hfits.apply_whole hfull _
  · rintro n ⟨⟩
    exact h.behind delta hdelta
  · have hlinked := h.linked
    rw [hsplit, target_append] at hlinked
    exact hlinked.of_eq rfl rfl

theorem Mirrors.apply {worker : Worker γ} (hactive : s.active)
    (hworker : ∀ set, Worker.set worker = some set → set = Machine.userSet (foldAll s.users) ∧ (foldAll s.users).has)
    (hsaving : ∀ set, worker ≠ .saving set) :
    Mirrors control deltas { s with users := foldAll s.users, worker := worker } := by
  obtain ⟨hpersisted, hpages, hsession⟩ := foldl_fold_frame s.users s.users.queue
  have hposition : position (foldAll s.users) = target (position s.users)
      (s.users.queue.map view) := position_foldl_fold s.users s.users.queue
  have hline := h.line
  rw [map_append, line_append] at hline
  have hholds : Holds control.toHistory (position (foldAll s.users)) (foldAll s.users).lookup := by
    rw [hposition, show (foldAll s.users).lookup = _ from lookup_foldl_fold s.users s.users.queue]
    exact hline.1.holds h.holds
  have hknown : ∀ n, position (foldAll s.users) = some n → n ≤ s.head := by
    intro n hn
    obtain ⟨m, hm, hle⟩ := hline.2.forward (hposition ▸ hn)
    rw [← target_append, ← map_append] at hm
    exact hle.trans (h.target_le hm)
  refine ⟨hholds, ?_, fun d hd ↦ h.behind d (mem_append_right _ hd), hknown, h.file, ?_,
    fun hstarting ↦ absurd hstarting (h.idle hactive), h.idle, ?_, ?_, ?_, ?_⟩
  · show Line control.toHistory (position (foldAll s.users)) (deltas.map view)
    rw [hposition]
    exact hline.2
  · show ∀ set, (foldAll s.users).persisted = some set → _
    rw [show (foldAll s.users).persisted = _ from hpersisted]
    exact h.persisted
  · rintro (hdirty | ⟨set, hset⟩)
    · exact foldl_fold_dirty (fun hold ↦ h.dirty (.inl hold)) hdirty
    · exact absurd hset (hsaving set)
  · intro set hset
    obtain ⟨rfl, hhas⟩ := hworker set hset
    refine ⟨reflects_userSet hhas hholds, hknown _ ?_⟩
    unfold position
    rw [if_pos hhas]
    rfl
  · show Linked (foldAll s.users) s.sessions deltas
      (target (position (foldAll s.users)) (deltas.map view)) s.link
    rw [hposition, ← target_append, ← map_append]
    exact h.linked.of_eq hpages hsession
  · show (foldAll s.users).pagesSession ≤ s.sessions
    rw [show (foldAll s.users).pagesSession = _ from hsession]
    exact h.pages

theorem Mirrors.hello (hlink : s.link = .offline) : Mirrors control deltas
      { s with link := .greeting (helloUsersCursor s.users) s.users.has } := by
  have hnone : deltas = [] := by
    have hlinked := h.linked
    rw [hlink] at hlinked
    exact hlinked
  refine { h with linked := ⟨hnone, ?_⟩ }
  unfold Past helloUsersCursor
  cases hhas : s.users.has with
  | false => rfl
  | true => exact h.line.forward (by unfold position; rw [hhas]; rfl)

theorem Mirrors.accept {cursor : Nat} {held : Bool} (hlink : s.link = .greeting cursor held) :
    Mirrors control deltas { s with
      sessions := s.sessions + 1
      session := s.sessions + 1
      link := .streaming ⟨s.sessions + 1, cursor, held, [], []⟩ } := by
  have hlinked := h.linked
  rw [hlink] at hlinked
  obtain ⟨rfl, hpast⟩ := hlinked
  have hpages := h.pages
  refine { h with linked := ⟨?_, hpast, le_rfl⟩, pages := hpages.trans (Nat.le_succ _) }
  have hbuffer : buffer s.users (s.sessions + 1) = [] := if_neg (by omega)
  show InTransit (buffer s.users (s.sessions + 1)) [] []
  rw [hbuffer]
  exact .nil

theorem Mirrors.leave (hkeeps : users = s.users ∨ users = { s.users with pages := [], pagesSession := 0 })
    (session : Nat) :
    Mirrors control [] { s with users := users, session := session, link := .offline } := by
  have hline := h.line
  rw [map_append, line_append] at hline
  have hsub : ∀ d ∈ s.users.queue ++ [], d ∈ s.users.queue ++ deltas := by
    intro d hd
    rw [append_nil] at hd
    exact mem_append_left _ hd
  -- The line that is left is the queue; nothing else depends on the pages.
  have hkept (pages : List (UserDelta γ)) (pagesSession : Nat) (hpages : pagesSession ≤ s.sessions) :
      Mirrors control [] { s with
        users := { s.users with pages := pages, pagesSession := pagesSession }
        session := session
        link := .offline } := by
    refine { h with
      line := ?_, behind := fun d hd ↦ h.behind d (hsub d hd), stored := ?_, linked := rfl
      pages := hpages }
    · rw [append_nil]
      exact hline.1
    · intro hstarting set hset
      obtain ⟨hbehind, hplace⟩ := h.stored hstarting set hset
      exact ⟨fun d hd ↦ hbehind d (hsub d hd), hplace⟩
  rcases hkeeps with rfl | rfl
  · exact hkept s.users.pages s.users.pagesSession h.pages
  · exact hkept [] 0 (Nat.zero_le _)

theorem Mirrors.restart {persisted file : Option (UserSet γ)}
    (hpersisted : persisted = s.file ∨ persisted = none) (hfile : file = s.file ∨ file = none) :
    Mirrors control [] (s.restart persisted file) := by
  have hstored : ∀ {stored : Option (UserSet γ)}, stored = s.file ∨ stored = none → ∀ set,
      stored = some set → Reflects control set ∧ set.cursor ≤ s.head := by
    rintro stored (rfl | rfl) set hset
    · exact h.file set hset
    · cases hset
  exact ⟨fun _ ↦ rfl, trivial, nofun, nofun, hstored hfile, hstored hpersisted,
    fun _ _ _ ↦ ⟨nofun, nofun⟩, nofun, nofun, nofun, rfl, Nat.zero_le _⟩

theorem Mirrors.send {stream : Machine.Stream γ}
    (hlink : s.link = .streaming stream) (hsteady : Steady control s (.send pages)) :
    Mirrors control (deltas ++ [joined pages]) (s.send stream pages) := by
  simp only [Steady, hlink] at hsteady
  obtain ⟨hpaged, hanswers, hhead, hheld⟩ := hsteady
  have hlinked := h.linked
  rw [hlink] at hlinked
  obtain ⟨htransit, hpast, hid⟩ := hlinked
  have hfits := hanswers.fits hpast (fun n hn ↦ (h.target_le hn).trans hhead) hheld
  have hmem : ∀ d ∈ s.users.queue ++ (deltas ++ [joined pages]),
      d ∈ s.users.queue ++ deltas ∨ d = joined pages := by
    intro d hd
    rw [← append_assoc] at hd
    rcases mem_append.mp hd with hd | hd
    · exact .inl hd
    · exact .inr (mem_singleton.mp hd)
  have hmap : (s.users.queue ++ (deltas ++ [joined pages])).map view =
      (s.users.queue ++ deltas).map view ++ [view (joined pages)] := by
    simp
  refine ⟨h.holds, ?_, fun d hd ↦ ?_, fun n hn ↦ (h.known n hn).trans hhead, fun set hset ↦ ?_,
    fun set hset ↦ ?_, fun hstarting set hset ↦ ?_, h.idle, h.dirty, fun set hset ↦ ?_,
    ⟨htransit.send hpaged, ?_, hid⟩, h.pages⟩
  · show Line control.toHistory (position s.users) _
    rw [hmap, line_append]
    exact ⟨h.line, hfits, trivial⟩
  · rcases hmem d hd with hold | rfl
    · exact (h.behind d hold).trans hhead
    · exact le_rfl
  · exact ⟨(h.file set hset).1, (h.file set hset).2.trans hhead⟩
  · exact ⟨(h.persisted set hset).1, (h.persisted set hset).2.trans hhead⟩
  · obtain ⟨hbehind, hplace⟩ := h.stored hstarting set hset
    refine ⟨fun d hd ↦ ?_, hplace⟩
    rcases hmem d hd with hold | rfl
    · exact hbehind d hold
    · exact (h.persisted set hset).2.trans hhead
  · exact ⟨(h.worker set hset).1, (h.worker set hset).2.trans hhead⟩
  · show Past (joined pages).cursor true (target (position s.users) _)
    rw [hmap, target_append]
    exact ⟨(joined pages).cursor, rfl, le_rfl⟩

theorem Mirrors.deliver {stream : Machine.Stream γ} {page : UserDelta γ} {current : List (UserDelta γ)}
    (hlink : s.link = .streaming stream) (houtgoing : stream.outgoing = page :: outgoing)
    (husers : Received s.users stream.id page users) :
    ∃ deltas', Mirrors control deltas' { s with
      users := users
      link := .streaming { stream with outgoing := outgoing, current := current } } := by
  have hlinked := h.linked
  rw [hlink] at hlinked
  obtain ⟨htransit, hpast, hid⟩ := hlinked
  rw [houtgoing] at htransit
  obtain ⟨tail, more, rest, rfl, hpaged, rfl, hrest⟩ := htransit.next
  have hbuffer : ∀ u : UsersState γ, u.pagesSession = stream.id → buffer u stream.id = u.pages :=
    fun u hu ↦ if_pos hu
  cases husers with
  | dropped hfull =>
    have hfew := hpaged.few
    rw [length_append, length_cons] at hfew
    omega
  | queued hroom hlast =>
    obtain rfl := hpaged.last_iff.mp hlast
    have hassoc : (s.users.queue ++ [joined (buffer s.users stream.id ++ [page])]) ++ rest =
        s.users.queue ++ joined (buffer s.users stream.id ++ [page]) :: rest := by simp
    refine ⟨rest, h.holds, ?_, ?_, h.known, h.file, h.persisted, ?_, h.idle, h.dirty, h.worker,
      ⟨?_, ?_, hid⟩, hid⟩
    · dsimp only
      rw [hassoc]
      exact h.line
    · dsimp only
      rw [hassoc]
      exact h.behind
    · dsimp only
      rw [hassoc]
      exact h.stored
    · rw [hbuffer _ rfl]
      exact hrest
    · dsimp only
      rw [hassoc]
      exact hpast
  | kept hroom hmore =>
    have htail : tail ≠ [] := by
      rintro rfl
      rw [hpaged.last_iff.mpr rfl] at hmore
      cases hmore
    have hassoc : buffer s.users stream.id ++ page :: tail =
        (buffer s.users stream.id ++ [page]) ++ tail := by simp
    rw [hassoc] at hpaged
    refine ⟨_, { h with linked := ⟨?_, hpast, hid⟩, pages := hid }⟩
    rw [hassoc, hbuffer _ rfl]
    exact .cons hpaged htail hrest

theorem Mirrors.effect {a : Action γ} {t : System γ} (hsteady : Steady control s a)
    (heffect : Effect s a t) : ∃ deltas', Mirrors control deltas' t := by
  cases heffect with
  | note hkeeps hdirty hfile hworker hsaving =>
    exact ⟨deltas, h.note hkeeps hdirty hfile hworker hsaving⟩
  | activate =>
    exact ⟨deltas, { h with stored := nofun, idle := nofun }⟩
  | discard hfile =>
    refine ⟨deltas, h.holds, h.line, h.behind, h.known, fun set hset ↦ ?_, nofun, nofun, h.idle,
      h.dirty, h.worker, h.linked.of_eq rfl rfl, h.pages⟩
    rcases hfile with rfl | rfl
    · exact h.file set hset
    · cases hset
  | restore hstartup hset => exact ⟨deltas, h.restore hstartup hset⟩
  | take hqueue hfull => exact ⟨deltas, h.take hqueue hfull⟩
  | apply hactive hworker hsaving => exact ⟨deltas, h.apply hactive hworker hsaving⟩
  | hello hlink => exact ⟨deltas, h.hello hlink⟩
  | accept hlink => exact ⟨deltas, h.accept hlink⟩
  | refuse hlink => exact ⟨[], h.leave (.inl rfl) s.session⟩
  | send hlink => exact ⟨_, h.send hlink hsteady⟩
  | deliver hlink houtgoing husers => exact h.deliver hlink houtgoing husers
  | @close _ stream hlink =>
    refine ⟨[], ?_⟩
    unfold sessionEnded dropUserPages
    split
    · split
      · exact h.leave (.inr rfl) 0
      · exact h.leave (.inl rfl) 0
    · exact h.leave (.inl rfl) s.session
  | restart hpersisted hfile => exact ⟨[], h.restart hpersisted hfile⟩

end

/-- The Agent's user set is Control's set at the Agent's cursor, in every run in which
Control answers steadily, and so is every set that it hands out, saves or restores. -/
theorem agent_mirrors_control (control : Control γ) {clock : Int}
    (hrun : Reach step (Steady control) (initial clock) s) :
    (s.users.has = true → (∀ id, s.users.lookup id = control.set s.users.cursor id) ∧
      Reflects control (userSet s.users)) ∧
    (s.users.has = false → ∀ id, s.users.lookup id = none) ∧
    (∀ set, s.file = some set → Reflects control set) ∧
    (∀ set, s.users.persisted = some set → Reflects control set) ∧
    ∀ set, Worker.set s.worker = some set → Reflects control set := by
  have hmirrors : ∃ deltas, Mirrors control deltas s := by
    refine hrun.invariant (I := fun s ↦ ∃ deltas, Mirrors control deltas s)
      ⟨[], fun _ ↦ rfl, trivial, nofun, nofun, nofun, nofun, nofun, nofun, nofun, nofun, rfl, le_rfl⟩ ?_
    intro s a t hs hsteady hstep
    obtain ⟨deltas, h⟩ := hs
    exact h.effect hsteady (step_effect hstep)
  obtain ⟨deltas, h⟩ := hmirrors
  have hholds := h.holds
  refine ⟨fun hhas ↦ ⟨?_, (h.userSet hhas).1⟩, fun hhas ↦ ?_, fun set hset ↦ (h.file set hset).1,
    fun set hset ↦ (h.persisted set hset).1, fun set hset ↦ (h.worker set hset).1⟩
  · unfold position at hholds
    rw [if_pos hhas] at hholds
    exact congrFun hholds
  · unfold position at hholds
    rw [hhas] at hholds
    exact hholds

end

def sampleControl : Control Unit where
  start _ := none
  changes := [(1, some ⟨1, ()⟩), (2, some ⟨2, ()⟩), (1, none)]
  started := nofun
  changed := by decide

def wholePages : List (UserDelta Unit) :=
  [⟨2, true, false, [⟨1, ()⟩], []⟩, ⟨2, true, true, [⟨2, ()⟩], []⟩]

def changePages : List (UserDelta Unit) := [⟨3, false, true, [], [1]⟩]

def sends (allowed : List (List (UserDelta Unit) × Nat × Nat × Bool)) (s : System Unit) :
    Action Unit → Bool
  | .send pages =>
    match s.link with
    | .streaming stream => (pages, stream.base, s.head, stream.held) ∈ allowed
    | _ => true
  | _ => true

variable {control : Control Unit} {allowed : List (List (UserDelta Unit) × Nat × Nat × Bool)}

theorem answered_of_sends
    (h : ∀ p ∈ allowed, Paged p.1 ∧ Answers control p.2.1 (joined p.1)) (s : System Unit)
    (a : Action Unit) (hsends : sends allowed s a) : Answered control s a := by
  cases a with
  | send pages =>
    cases hlink : s.link with
    | streaming stream =>
      simp only [sends, Answered, hlink, decide_eq_true_eq] at hsends ⊢
      exact h _ hsends
    | offline | greeting => simp only [Answered, hlink]
  | _ => trivial

theorem steady_of_sends (h : ∀ p ∈ allowed, Paged p.1 ∧ Answers control p.2.1 (joined p.1) ∧
      p.2.2.1 ≤ (joined p.1).cursor ∧ ((joined p.1).full ∨ p.2.2.2 ∨
      ∀ id, control.start id = none))
    (s : System Unit) (a : Action Unit) (hsends : sends allowed s a) :
    Steady control s a := by
  cases a with
  | send pages =>
    cases hlink : s.link with
    | streaming stream =>
      simp only [sends, Steady, hlink, decide_eq_true_eq] at hsends ⊢
      exact h _ hsends
    | offline | greeting => simp only [Steady, hlink]
  | _ => trivial

theorem paged_wholePages : Paged wholePages :=
  ⟨by decide, [⟨2, true, false, [⟨1, ()⟩], []⟩], ⟨2, true, true, [⟨2, ()⟩], []⟩, rfl, rfl, by decide⟩

theorem whole_wholePages : Whole sampleControl (joined wholePages) := by
  rintro ⟨id, ⟨⟩⟩
  have hset : sampleControl.set 2 id =
      if id = 2 then some ⟨2, ()⟩ else if id = 1 then some ⟨1, ()⟩ else none := by
    show Function.update (Function.update (fun _ ↦ none) 1 (some (⟨1, ()⟩ : NodeUser Unit))) 2
      (some ⟨2, ()⟩) id = _
    rw [Function.update_apply, Function.update_apply]
  show _ ∈ [(⟨1, ()⟩ : NodeUser Unit), ⟨2, ()⟩] ↔ sampleControl.set 2 id = some ⟨id, ()⟩
  rw [hset]
  by_cases htwo : id = 2
  · simp [htwo]
  · by_cases hone : id = 1
    · simp [hone]
    · simp [htwo, hone]

theorem changes_changePages : Changes sampleControl 2 (joined changePages) := by
  refine ⟨nofun, ?_, ?_⟩
  · intro id hid
    rw [show id = 1 from mem_singleton.mp hid]
    rfl
  · rintro id ⟨change, hchange, rfl⟩
    rw [show change = (1, none) from mem_singleton.mp hchange]
    exact .inr (mem_singleton_self 1)

def restoredRun : List (Action Unit) :=
  [.hello, .accept, .send wholePages, .deliver, .deliver, .take, .result none, .activate,
    .send changePages, .deliver, .apply, .applied .applied, .save true, .saved true,
    .restart true false, .restore]

theorem agent_mirrors_control_restored :
    ∃ s, Reach step (Steady sampleControl) (initial 0) s ∧ s.users.cursor = 3 ∧
      s.file = some ⟨3, [⟨2, ()⟩]⟩ ∧ Reflects sampleControl (userSet s.users) := by
  have hreach : ∃ s, Reach step (fun s a ↦ sends
      [(wholePages, 0, 0, false), (changePages, 2, 2, true)] s a = true) (initial 0) s ∧
      (s.users.cursor = 3 ∧ s.users.has = true ∧ s.file = some ⟨3, [⟨2, ()⟩]⟩) :=
    exists_reach restoredRun _ (by decide)
  obtain ⟨s, hrun, hcursor, hhas, hfile⟩ := hreach
  have hallowed : ∀ p ∈ [(wholePages, 0, 0, false), (changePages, 2, 2, true)],
      Paged p.1 ∧ Answers sampleControl p.2.1 (joined p.1) ∧ p.2.2.1 ≤ (joined p.1).cursor ∧
        ((joined p.1).full = true ∨ p.2.2.2 = true ∨ ∀ id, sampleControl.start id = none) := by
    intro p hp
    rcases List.mem_cons.mp hp with rfl | hp
    · exact ⟨paged_wholePages, ⟨by decide, whole_wholePages⟩, by decide, .inl rfl⟩
    · rw [List.mem_singleton.mp hp]
      exact ⟨⟨by decide, [], _, rfl, rfl, by decide⟩, ⟨by decide, changes_changePages⟩, by decide, .inr (.inl rfl)⟩
  have hrun' := hrun.mono (steady_of_sends hallowed)
  exact ⟨s, hrun', hcursor, hfile, ((agent_mirrors_control sampleControl hrun').1 hhas).2⟩

def latePages : List (UserDelta Unit) := [⟨3, true, true, [⟨2, ()⟩], []⟩]

def firstPages : List (UserDelta Unit) := [⟨1, false, true, [⟨1, ()⟩], []⟩]

def backwardRun : List (Action Unit) :=
  [.hello, .accept, .send latePages, .deliver, .close, .hello, .accept, .send firstPages, .deliver,
    .activate, .apply]

def lateControl : Control Unit where
  start id := if id = 7 then some ⟨7, ()⟩ else none
  changes := [(1, some ⟨1, ()⟩)]
  started id user h := by
    split at h
    · next hid =>
      cases h
      exact ⟨hid.symm, by omega⟩
    · cases h
  changed := by decide

def partialRun : List (Action Unit) :=
  [.hello, .accept, .send firstPages, .deliver, .activate, .apply]

theorem whole_latePages : Whole sampleControl (joined latePages) := by
  rintro ⟨id, ⟨⟩⟩
  have hset : sampleControl.set 3 id =
      if id = 1 then none else if id = 2 then some ⟨2, ()⟩ else
        if id = 1 then some ⟨1, ()⟩ else none := by
    show Function.update (Function.update (Function.update (fun _ ↦ none) 1
      (some (⟨1, ()⟩ : NodeUser Unit))) 2 (some ⟨2, ()⟩)) 1 none id = _
    rw [Function.update_apply, Function.update_apply, Function.update_apply]
  show _ ∈ [(⟨2, ()⟩ : NodeUser Unit)] ↔ sampleControl.set 3 id = some ⟨id, ()⟩
  rw [hset]
  by_cases hone : id = 1
  · simp [hone]
  · by_cases htwo : id = 2
    · simp [htwo]
    · simp [htwo, hone]

theorem changes_firstPages
    (h : control.changes.take 1 = [(1, some ⟨1, ()⟩)]) : Changes control 0 (joined firstPages) := by
  refine ⟨?_, nofun, ?_⟩
  · intro user huser
    rw [show user = ⟨1, ()⟩ from mem_singleton.mp huser]
    have hset : control.set 1 = Function.update control.start 1 (some ⟨1, ()⟩) := by
      show (control.changes.take 1).foldl _ control.start = _
      rw [h]
      rfl
    show control.set 1 1 = _
    rw [hset, Function.update_self]
  · rintro id ⟨change, hchange, rfl⟩
    have hmem : change ∈ (control.changes.take 1).drop 0 := hchange
    rw [h] at hmem
    rw [show change = (1, some ⟨1, ()⟩) from mem_singleton.mp hmem]
    exact .inl ⟨⟨1, ()⟩, mem_singleton_self _, rfl⟩

theorem paged_firstPages : Paged firstPages := ⟨by decide, [], _, rfl, rfl, by decide⟩

theorem unsteady_answers_diverge :
    (∃ s, Reach step (Answered sampleControl) (initial 0) s ∧ s.users.has = true ∧
      s.users.lookup 2 ≠ sampleControl.set s.users.cursor 2) ∧
    ∃ s, Reach step (Answered lateControl) (initial 0) s ∧ s.users.has = true ∧
      s.users.lookup 7 ≠ lateControl.set s.users.cursor 7 := by
  constructor
  · refine ⟨_, (reach_after (C := fun s a ↦ sends [(latePages, 0, 0, false),
      (firstPages, 0, 3, false)] s a = true) backwardRun (by decide)).mono
      (answered_of_sends fun p hp ↦ ?_), by decide⟩
    rcases List.mem_cons.mp hp with rfl | hp
    · exact ⟨⟨by decide, [], _, rfl, rfl, by decide⟩, by decide, whole_latePages⟩
    · rw [List.mem_singleton.mp hp]
      exact ⟨paged_firstPages, by decide, changes_firstPages rfl⟩
  · refine ⟨_, (reach_after (C := fun s a ↦ sends [(firstPages, 0, 0, false)] s a = true) partialRun
      (by decide)).mono (answered_of_sends fun p hp ↦ ?_), by decide⟩
    rw [List.mem_singleton.mp hp]
    exact ⟨paged_firstPages, by decide, changes_firstPages rfl⟩

end AnixAgent.Users.Mirror
