import AnixAgent.Users.Machine

namespace AnixAgent.Users.Steps

open Machine Lib.Runs Lib.Tables List

variable {γ : Type}

def buffer (u : UsersState γ) (id : Nat) : List (UserDelta γ) :=
  if u.pagesSession = id then u.pages else []

inductive Received (u : UsersState γ) (id : Nat) (page : UserDelta γ) : UsersState γ → Prop
  | dropped (hfull : maxPendingUserPages ≤ (buffer u id).length) :
      Received u id page { u with pages := [], pagesSession := id }
  | queued (hroom : (buffer u id).length < maxPendingUserPages) (hlast : page.lastPage = true) :
      Received u id page { u with
        pages := []
        pagesSession := id
        queue := u.queue ++ [joined (buffer u id ++ [page])] }
  | kept (hroom : (buffer u id).length < maxPendingUserPages) (hmore : page.lastPage = false) :
      Received u id page { u with pages := buffer u id ++ [page], pagesSession := id }

theorem joined_snoc (pages : List (UserDelta γ)) (page : UserDelta γ) : joined (pages ++ [page]) =
      { cursor := page.cursor
        full := ((pages ++ [page]).head?.map (·.full)).getD false
        lastPage := true
        upserts := (pages ++ [page]).flatMap (·.upserts)
        removedUserIds := (pages ++ [page]).flatMap (·.removedUserIds) } := by
  unfold joined
  rw [getLast?_append]
  rfl

variable (u : UsersState γ)

theorem receiveUsers_eq (id : Nat) (page : UserDelta γ) : receiveUsers u id (some page) =
      if maxPendingUserPages ≤ (buffer u id).length then
        ({ u with pages := [], pagesSession := id }, true)
      else if page.lastPage then
        ({ u with
            pages := []
            pagesSession := id
            queue := u.queue ++ [joined (buffer u id ++ [page])] }, false)
      else ({ u with pages := buffer u id ++ [page], pagesSession := id }, false) := by
  rw [joined_snoc]
  rfl

theorem receiveUsers_spec (id : Nat) (page : UserDelta γ) :
    Received u id page (receiveUsers u id (some page)).1 := by
  rw [receiveUsers_eq]
  split
  · next hfull => exact .dropped hfull
  next hfull =>
  split
  · next hlast => exact .queued (not_le.mp hfull) hlast
  · next hlast => exact .kept (not_le.mp hfull) (Bool.not_eq_true _ ▸ hlast)

structure Keeps (u v : UsersState γ) : Prop where
  has : v.has = u.has
  cursor : v.cursor = u.cursor
  set : v.set = u.set
  queue : v.queue = u.queue
  persisted : v.persisted = u.persisted
  pages : v.pages = u.pages
  pagesSession : v.pagesSession = u.pagesSession

theorem Keeps.refl : Keeps u u := ⟨rfl, rfl, rfl, rfl, rfl, rfl, rfl⟩

def Worker.set : Worker γ → Option (UserSet γ)
  | .idle => none
  | .applying set _ => some set
  | .saving set => some set

def foldAll (u : UsersState γ) : UsersState γ := { u.queue.foldl fold u with queue := [] }

theorem foldl_fold_frame (deltas : List (UserDelta γ)) :
    (deltas.foldl fold u).persisted = u.persisted ∧ (deltas.foldl fold u).pages = u.pages ∧
      (deltas.foldl fold u).pagesSession = u.pagesSession := by
  induction deltas generalizing u with
  | nil => exact ⟨rfl, rfl, rfl⟩
  | cons delta deltas ih => exact ih (fold u delta)

inductive Effect (s : System γ) : Action γ → System γ → Prop
  | note {a : Action γ} {users : UsersState γ} {clock : Int} {file : Option (UserSet γ)}
      {worker : Worker γ} (hkeeps : Keeps s.users users)
      (hdirty : users.dirty = true → s.users.dirty = true ∨ ∃ set, s.worker = .saving set)
      (hfile : file = s.file ∨ ∃ set, s.worker = .saving set ∧ file = some set)
      (hworker : ∀ set, Worker.set worker = some set → set = userSet s.users ∧
        s.users.dirty = true ∨ Worker.set s.worker = some set)
      (hsaving : ∀ set, worker = .saving set → s.users.dirty = true ∨ s.worker = .saving set) :
      Effect s a { s with users := users, clock := clock, file := file, worker := worker }
  | activate {a : Action γ} : Effect s a { s with active := true, startup := .started }
  | discard {a : Action γ} {file : Option (UserSet γ)} (hfile : file = s.file ∨ file = none) :
      Effect s a { s with users := { s.users with persisted := none }, file := file }
  | restore {a : Action γ} {set : UserSet γ} (hstartup : s.startup = .starting)
      (hset : s.users.persisted = some set) :
      Effect s a { s with users := restoreUsers s.users set }
  | take {a : Action γ} {earlier rest : List (UserDelta γ)} {delta : UserDelta γ} {set : UserSet γ}
      (hqueue : s.users.queue = earlier ++ delta :: rest) (hfull : delta.full = true) :
      Effect s a { s with
        users := fold { s.users with queue := rest } delta
        startup := .taken set }
  | apply {a : Action γ} {worker : Worker γ} (hactive : s.active = true)
      (hworker : ∀ set, Worker.set worker = some set →
        set = userSet (foldAll s.users) ∧ (foldAll s.users).has = true)
      (hsaving : ∀ set, worker ≠ .saving set) :
      Effect s a { s with users := foldAll s.users, worker := worker }
  | hello {a : Action γ} (hlink : s.link = .offline) :
      Effect s a { s with link := .greeting (helloUsersCursor s.users) s.users.has }
  | accept {a : Action γ} {cursor : Nat} {held : Bool} (hlink : s.link = .greeting cursor held) :
      Effect s a { s with
        sessions := s.sessions + 1
        session := s.sessions + 1
        link := .streaming ⟨s.sessions + 1, cursor, held, [], []⟩ }
  | refuse {a : Action γ} {cursor : Nat} {held : Bool} (hlink : s.link = .greeting cursor held) :
      Effect s a { s with link := .offline }
  | send {pages : List (UserDelta γ)} {stream : Stream γ} (hlink : s.link = .streaming stream) :
      Effect s (.send pages) (s.send stream pages)
  | deliver {users : UsersState γ} {stream : Stream γ} {page : UserDelta γ}
      {outgoing : List (UserDelta γ)} (hlink : s.link = .streaming stream)
      (houtgoing : stream.outgoing = page :: outgoing)
      (husers : Received s.users stream.id page users) :
      Effect s .deliver { s with
        users := users
        link := .streaming { stream with
          outgoing := outgoing
          current := if page.lastPage then [] else stream.current ++ [page] } }
  | close {a : Action γ} {stream : Stream γ} (hlink : s.link = .streaming stream) :
      Effect s a { sessionEnded s stream.id with link := .offline }
  | restart {a : Action γ} {persisted file : Option (UserSet γ)}
      (hpersisted : persisted = s.file ∨ persisted = none) (hfile : file = s.file ∨ file = none) :
      Effect s a (s.restart persisted file)

theorem appliedUsers_keeps (now : Int) (version : UInt64) (outcome : Outcome) :
    Keeps u (appliedUsers u now version outcome) := by
  cases outcome <;> exact ⟨rfl, rfl, rfl, rfl, rfl, rfl, rfl⟩

theorem usersResult_keeps (now : Int) (set : UserSet γ) (err : Option String) :
    Keeps u (usersResult u now set err) := by
  unfold usersResult
  split
  · exact ⟨rfl, rfl, rfl, rfl, rfl, rfl, rfl⟩
  · split <;> exact ⟨rfl, rfl, rfl, rfl, rfl, rfl, rfl⟩

theorem usersResult_dirty (now : Int) (set : UserSet γ) (err : Option String) :
    (usersResult u now set err).dirty = u.dirty := by
  unfold usersResult
  split
  · rfl
  · split <;> rfl

theorem takeUsers_spec {u v : UsersState γ} {set : UserSet γ} (h : takeUsers u = some (v, set)) :
    ∃ earlier delta rest, u.queue = earlier ++ delta :: rest ∧ delta.full ∧
      v = fold { u with queue := rest } delta := by
  unfold takeUsers at h
  split at h
  · cases h
  next delta rest hdrop =>
  cases h
  refine ⟨u.queue.takeWhile fun delta ↦ !delta.full, delta, rest, ?_, ?_, rfl⟩
  · rw [← hdrop]
    exact takeWhile_append_dropWhile.symm
  · have hhead := head?_dropWhile_not (fun delta ↦ !delta.full) u.queue
    rw [hdrop] at hhead
    simpa using hhead

theorem applyPendingUsers_spec (active : Bool) (now : Int) :
    applyPendingUsers u active now = (u, none) ∨
    ∃ due, active ∧ applyPendingUsers u active now = (foldAll u, due) ∧ ∀ set version,
      due = some (set, version) → set = userSet (foldAll u) ∧ (foldAll u).has := by
  unfold applyPendingUsers
  split
  · next hactive =>
    right
    dsimp only
    split
    · next hdue =>
      refine ⟨_, hactive, rfl, fun set version h ↦ ?_⟩
      cases h
      exact ⟨rfl, hdue.1⟩
    · exact ⟨none, hactive, rfl, nofun⟩
  · exact .inl rfl

theorem saveUsers_spec (force : Bool) (now : Int) :
    Keeps u (saveUsers u force now).1 ∧ ((saveUsers u force now).1.dirty → u.dirty) ∧
      ∀ set, (saveUsers u force now).2 = some set → set = userSet u ∧ u.dirty := by
  unfold saveUsers
  split
  · exact ⟨.refl u, id, nofun⟩
  next hdue =>
  refine ⟨⟨rfl, rfl, rfl, rfl, rfl, rfl, rfl⟩, nofun, fun set h ↦ ?_⟩
  cases h
  refine ⟨rfl, ?_⟩
  by_contra hclean
  exact hdue (by simp [hclean])

theorem step_effect {s t : System γ} {a : Action γ} (h : step s a = some t) : Effect s a t := by
  have hsame : ∀ set, Worker.set s.worker = some set → set = userSet s.users ∧
      s.users.dirty ∨ Worker.set s.worker = some set := fun set hset ↦ .inr hset
  cases a with
  | tick duration =>
    cases h
    exact .note (.refl _) .inl (.inl rfl) hsame fun _ ↦ .inr
  | restore =>
    simp only [step] at h
    split at h
    · next hstartup hset =>
      cases h
      exact .restore hstartup hset
    · cases h
  | discard removed =>
    simp only [step] at h
    split at h
    · cases h
      refine .discard ?_
      cases removed
      · exact .inl rfl
      · exact .inr rfl
    · cases h
  | take =>
    simp only [step] at h
    split at h
    · obtain ⟨⟨users, set⟩, htake, rfl⟩ := Option.map_eq_some_iff.mp h
      obtain ⟨earlier, delta, rest, hqueue, hfull, rfl⟩ := takeUsers_spec htake
      exact .take hqueue hfull
    · cases h
  | result err =>
    simp only [step] at h
    split at h
    · cases h
      refine .note (usersResult_keeps _ _ _ _) (fun hdirty ↦ .inl ?_) (.inl rfl) hsame
        fun _ ↦ .inr
      exact (usersResult_dirty _ _ _ _).symm.trans hdirty
    · cases h
  | activate =>
    cases h
    exact .activate
  | hello =>
    simp only [step] at h
    split at h
    · next hlink =>
      cases h
      exact .hello hlink
    · cases h
  | accept =>
    simp only [step] at h
    split at h
    · next hlink =>
      cases h
      exact .accept hlink
    · cases h
  | refuse =>
    simp only [step] at h
    split at h
    · next hlink =>
      cases h
      exact .refuse hlink
    · cases h
  | send pages =>
    simp only [step] at h
    split at h
    · next hlink =>
      cases h
      exact .send hlink
    · cases h
  | deliver =>
    simp only [step] at h
    split at h
    · next hlink =>
      split at h
      · cases h
      · next houtgoing =>
        cases h
        exact .deliver hlink houtgoing (receiveUsers_spec _ _ _)
    · cases h
  | close =>
    simp only [step] at h
    split at h
    · next hlink =>
      cases h
      exact .close hlink
    · cases h
  | apply =>
    simp only [step] at h
    split at h
    · next hidle =>
      cases h
      rcases applyPendingUsers_spec s.users s.active s.clock with
        hnone | ⟨due, hactive, hdue, hset⟩
      · rw [hnone]
        exact .note (.refl _) .inl (.inl rfl) nofun nofun
      rw [hdue]
      refine .apply hactive (fun set hworker ↦ ?_) fun set hsaving ↦ ?_
      · cases due with
        | none => cases hworker
        | some pair =>
          obtain ⟨set', version⟩ := pair
          cases hworker
          exact hset set version rfl
      · cases due <;> cases hsaving
    · cases h
  | applied outcome =>
    simp only [step] at h
    split at h
    · cases h
      refine .note (appliedUsers_keeps _ _ _ _) (fun hdirty ↦ .inl ?_) (.inl rfl) nofun
        nofun
      cases outcome <;> exact hdirty
    · cases h
  | save force =>
    simp only [step] at h
    split at h
    · cases h
      obtain ⟨hkeeps, hdirty, hset⟩ := saveUsers_spec s.users force s.clock
      refine .note hkeeps (fun h ↦ .inl (hdirty h)) (.inl rfl) (fun set hworker ↦ .inl ?_)
        fun set hsaving ↦ .inl ?_
      · cases hsave : (saveUsers s.users force s.clock).2 with
        | none =>
          rw [hsave] at hworker
          cases hworker
        | some set' =>
          rw [hsave] at hworker
          cases hworker
          exact hset set hsave
      · cases hsave : (saveUsers s.users force s.clock).2 with
        | none =>
          rw [hsave] at hsaving
          cases hsaving
        | some set' => exact (hset set' hsave).2
    · cases h
  | saved written =>
    simp only [step] at h
    split at h
    · next set hsaving =>
      cases h
      cases written
      · exact .note ⟨rfl, rfl, rfl, rfl, rfl, rfl, rfl⟩ (fun _ ↦ .inr ⟨set, hsaving⟩) (.inl rfl)
          nofun nofun
      · exact .note (.refl _) .inl (.inr ⟨set, hsaving, rfl⟩) nofun nofun
    · cases h
  | restart readable removed =>
    cases h
    refine .restart ?_ ?_
    · cases readable
      · exact .inr rfl
      · exact .inl rfl
    · split
      · exact .inl rfl
      · exact .inr rfl

end AnixAgent.Users.Steps
