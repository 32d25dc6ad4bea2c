import AnixAgent.Users.Steps

namespace AnixAgent.Users.Pages

open Machine Steps Lib.Runs List

variable {γ : Type}

/-- The last page of a delta comes after at most `maxPendingUserPages` others, or is
itself one too many. -/
def Bounded (s : System γ) : Action γ → Prop
  | .deliver =>
    match s.link with
    | .streaming stream =>
      match stream.outgoing with
      | page :: _ => page.lastPage = true → stream.current.length ≤ maxPendingUserPages ∨
          stream.current.length % (maxPendingUserPages + 1) = maxPendingUserPages
      | [] => True
    | _ => True
  | _ => True

instance (s : System γ) (a : Action γ) : Decidable (Bounded s a) := by
  unfold Bounded
  repeat' split
  all_goals infer_instance

def heldPages (n : Nat) : Nat := n % (maxPendingUserPages + 1)

theorem heldPages_le_self (n : Nat) : heldPages n ≤ n := Nat.mod_le _ _

theorem heldPages_succ {n : Nat} (h : heldPages n < maxPendingUserPages) :
    heldPages (n + 1) = heldPages n + 1 := by
  unfold heldPages at h ⊢
  rw [Nat.add_mod, Nat.mod_eq_of_lt (show 1 < maxPendingUserPages + 1 by decide)]
  exact Nat.mod_eq_of_lt (by omega)

theorem heldPages_succ_of_full {n : Nat} (h : maxPendingUserPages ≤ heldPages n) :
    heldPages (n + 1) = 0 := by
  have heq : heldPages n = maxPendingUserPages :=
    le_antisymm (Nat.le_of_lt_succ (Nat.mod_lt n (Nat.succ_pos _))) h
  unfold heldPages at heq ⊢
  rw [Nat.add_mod, heq, Nat.mod_eq_of_lt (show 1 < maxPendingUserPages + 1 by decide)]
  exact Nat.mod_self _

structure Tracked (s : System γ) : Prop where
  pages : s.users.pagesSession ≤ s.sessions
  stream : ∀ stream, s.link = .streaming stream → stream.id ≤ s.sessions ∧
    buffer s.users stream.id =
      stream.current.drop (stream.current.length - heldPages stream.current.length)

theorem length_newest (pages : List (UserDelta γ)) :
    (pages.drop (pages.length - heldPages pages.length)).length = heldPages pages.length := by
  have hle := heldPages_le_self pages.length
  rw [length_drop]
  omega

theorem Tracked.deliver {s : System γ} (h : Tracked s) {users : UsersState γ} {stream : Stream γ}
    {page : UserDelta γ} {outgoing : List (UserDelta γ)} (hlink : s.link = .streaming stream)
    (husers : Received s.users stream.id page users) :
    Tracked { s with
      users := users
      link := .streaming { stream with
        outgoing := outgoing
        current := if page.lastPage then [] else stream.current ++ [page] } } := by
  obtain ⟨hid, hbuffer⟩ := h.stream stream hlink
  have hlength : (buffer s.users stream.id).length = heldPages stream.current.length := by
    rw [hbuffer, length_newest]
  have hheld := heldPages_le_self stream.current.length
  cases husers with
  | dropped hfull =>
    refine ⟨hid, ?_⟩
    rintro _ ⟨⟩
    refine ⟨hid, ?_⟩
    rw [hlength] at hfull
    have hempty : buffer { s.users with pages := [], pagesSession := stream.id } stream.id = [] :=
      if_pos rfl
    dsimp only
    rw [hempty]
    split
    · rfl
    · rw [length_append, length_singleton, heldPages_succ_of_full hfull, drop_eq_nil_of_le]
      rw [length_append, length_singleton]
      omega
  | queued hroom hlast =>
    refine ⟨hid, ?_⟩
    rintro _ ⟨⟩
    refine ⟨hid, ?_⟩
    dsimp only
    rw [if_pos hlast]
    exact if_pos rfl
  | kept hroom hmore =>
    refine ⟨hid, ?_⟩
    rintro _ ⟨⟩
    refine ⟨hid, ?_⟩
    rw [hlength] at hroom
    have hnew : buffer { s.users with
        pages := buffer s.users stream.id ++ [page]
        pagesSession := stream.id } stream.id = buffer s.users stream.id ++ [page] := if_pos rfl
    have hdrop : stream.current.length + 1 - (heldPages stream.current.length + 1) =
        stream.current.length - heldPages stream.current.length := by omega
    dsimp only
    rw [hnew, if_neg (by rw [hmore]; exact Bool.false_ne_true), length_append,
      length_singleton, heldPages_succ hroom, hdrop, drop_append_of_le_length (by omega),
      hbuffer]

theorem Tracked.of_eq {s t : System γ} (h : Tracked s) (hpages : t.users.pages = s.users.pages)
    (hsession : t.users.pagesSession = s.users.pagesSession) (hsessions : t.sessions = s.sessions)
    (hlink : ∀ stream, t.link = .streaming stream → ∃ stream', s.link = .streaming stream' ∧
      stream.id = stream'.id ∧ stream.current = stream'.current) : Tracked t := by
  constructor
  · rw [hsession, hsessions]
    exact h.pages
  intro stream hstream
  obtain ⟨stream', hstream', hid, hcurrent⟩ := hlink stream hstream
  rw [hid, hcurrent, hsessions]
  unfold buffer
  rw [hpages, hsession]
  exact h.stream stream' hstream'

theorem Tracked.effect {s t : System γ} {a : Action γ} (h : Tracked s) (heffect : Effect s a t) :
    Tracked t := by
  have hsame : ∀ stream, s.link = .streaming stream → ∃ stream', s.link = .streaming stream' ∧
      stream.id = stream'.id ∧ stream.current = stream'.current :=
    fun stream hstream ↦ ⟨stream, hstream, rfl, rfl⟩
  cases heffect with
  | note hkeeps => exact h.of_eq hkeeps.pages hkeeps.pagesSession rfl hsame
  | activate | discard | restore | take => exact h.of_eq rfl rfl rfl hsame
  | apply =>
    obtain ⟨-, hpages, hsession⟩ := foldl_fold_frame s.users s.users.queue
    exact h.of_eq hpages hsession rfl hsame
  | hello | refuse => exact h.of_eq rfl rfl rfl nofun
  | accept =>
    have hpages := h.pages
    refine ⟨hpages.trans (Nat.le_succ _), ?_⟩
    rintro _ ⟨⟩
    exact ⟨le_rfl, if_neg (by dsimp only; omega)⟩
  | @send pages stream hlink =>
    refine h.of_eq rfl rfl rfl ?_
    rintro _ ⟨⟩
    exact ⟨stream, hlink, rfl, rfl⟩
  | deliver hlink _ husers => exact h.deliver hlink husers
  | close =>
    refine ⟨?_, nofun⟩
    unfold sessionEnded dropUserPages
    split
    · split
      · exact Nat.zero_le _
      · exact h.pages
    · exact h.pages
  | restart => exact ⟨Nat.zero_le _, nofun⟩

/-- Every delta that a step puts on the queue is made of all the pages that its
session has delivered since the delta before it. -/
theorem queued_deltas_complete {clock : Int} {s t : System γ} {a : Action γ}
    (hrun : Reach step Bounded (initial clock) s) (ha : Bounded s a) (hstep : step s a = some t) :
    ∀ delta ∈ t.users.queue, delta ∈ s.users.queue ∨
      a = .deliver ∧ ∃ stream page rest, s.link = .streaming stream ∧
        stream.outgoing = page :: rest ∧ page.lastPage = true ∧
        delta = joined (stream.current ++ [page]) := by
  have htracked : Tracked s := hrun.invariant ⟨le_rfl, nofun⟩ fun _ _ _ hs _ hstep ↦
    hs.effect (step_effect hstep)
  intro delta hdelta
  cases step_effect hstep with
  | note hkeeps => exact .inl (hkeeps.queue ▸ hdelta)
  | activate | discard | restore | hello | accept | refuse | send => exact .inl hdelta
  | take hqueue =>
    left
    rw [hqueue]
    exact List.mem_append_right _ (List.mem_cons_of_mem _ hdelta)
  | apply | restart => cases hdelta
  | close =>
    left
    unfold sessionEnded dropUserPages at hdelta
    split at hdelta
    · split at hdelta <;> exact hdelta
    · exact hdelta
  | @deliver users stream page outgoing hlink houtgoing husers =>
    obtain ⟨-, hbuffer⟩ := htracked.stream stream hlink
    have hlength : (buffer s.users stream.id).length = heldPages stream.current.length := by
      rw [hbuffer, length_newest]
    cases husers with
    | dropped | kept => exact .inl hdelta
    | queued hroom hlast =>
      rcases List.mem_append.mp hdelta with hold | hnew
      · exact .inl hold
      right
      refine ⟨rfl, stream, page, outgoing, hlink, houtgoing, hlast, ?_⟩
      rw [hlength] at hroom
      simp only [Bounded, hlink, houtgoing] at ha
      have hfew : heldPages stream.current.length = stream.current.length := by
        rcases ha hlast with hle | hfull
        · exact Nat.mod_eq_of_lt (Nat.lt_succ_of_le hle)
        · exact absurd hfull (Nat.ne_of_lt hroom)
      rw [List.mem_singleton.mp hnew, hbuffer, hfew, Nat.sub_self, List.drop_zero]

def fullPage : UserDelta Unit := ⟨1, true, false, [⟨1, ()⟩], []⟩

def finalPage : UserDelta Unit := ⟨1, true, true, [⟨2, ()⟩], []⟩

def delivering (held current outgoing : List (UserDelta Unit)) : System Unit :=
  { (initial 0 : System Unit) with
    users := { (initialUsers : UsersState Unit) with pages := held, pagesSession := 1 }
    session := 1
    sessions := 1
    link := .streaming ⟨1, 1, true, outgoing, current⟩
    head := 1 }

theorem reach_delivering (front : List (UserDelta Unit)) : Reach step Bounded (initial 0)
      (delivering [fullPage] [fullPage] (front ++ [finalPage])) := by
  have hjoined : (joined (fullPage :: front ++ [finalPage])).cursor = 1 := by
    rw [joined_snoc]
    rfl
  have hopen : Reach step Bounded (initial 0) { (initial 0 : System Unit) with
      sessions := 1
      session := 1
      link := .streaming ⟨1, 0, false, [], []⟩ } :=
    .snoc .accept (.snoc .hello .refl trivial rfl) trivial rfl
  have hsend : Reach step Bounded (initial 0)
      { delivering [] [] (fullPage :: front ++ [finalPage]) with users := initialUsers } := by
    refine .snoc (.send (fullPage :: front ++ [finalPage])) hopen trivial ?_
    simp only [step, System.send, hjoined]
    rfl
  exact .snoc .deliver hsend (by rintro ⟨⟩) rfl

theorem queued_deltas_complete_two_pages :
    ∃ t, Reach step Bounded (initial 0) (delivering [fullPage] [fullPage] [finalPage]) ∧
      step (delivering [fullPage] [fullPage] [finalPage]) .deliver = some t ∧
      t.users.queue = [joined [fullPage, finalPage]] ∧
      ∀ delta ∈ t.users.queue, delta ∈ ([] : List (UserDelta Unit)) ∨
        Action.deliver = (.deliver : Action Unit) ∧ ∃ stream page rest,
          (delivering [fullPage] [fullPage] [finalPage]).link = .streaming stream ∧
          stream.outgoing = page :: rest ∧ page.lastPage = true ∧
          delta = joined (stream.current ++ [page]) := by
  have hrun := reach_delivering []
  have hbounded : Bounded (delivering [fullPage] [fullPage] [finalPage]) .deliver := by decide
  exact ⟨_, hrun, rfl, rfl, queued_deltas_complete hrun hbounded rfl⟩

theorem step_delivering {held current rest : List (UserDelta Unit)} :
    step (delivering held current (fullPage :: rest)) .deliver =
      some (delivering (if maxPendingUserPages ≤ held.length then [] else held ++ [fullPage])
        (current ++ [fullPage]) rest) := by
  have hreceive : (receiveUsers (delivering held current (fullPage :: rest)).users 1
      (some fullPage)).1 = { (initialUsers : UsersState Unit) with
        pages := if maxPendingUserPages ≤ held.length then [] else held ++ [fullPage]
        pagesSession := 1 } := by
    rw [receiveUsers_eq]
    show (if maxPendingUserPages ≤ held.length then _ else _ : UsersState Unit × Bool).1 = _
    split <;> rfl
  have hstep : step (delivering held current (fullPage :: rest)) .deliver =
      some { delivering held current (fullPage :: rest) with
        users := (receiveUsers (delivering held current (fullPage :: rest)).users 1
          (some fullPage)).1
        link := .streaming ⟨1, 1, true, rest, current ++ [fullPage]⟩ } := rfl
  rw [hstep, hreceive]
  rfl

theorem reach_replicate (n : Nat) (hn : n < maxPendingUserPages) (rest : List (UserDelta Unit)) :
    Reach step Bounded (delivering [fullPage] [fullPage] (replicate n fullPage ++ rest))
      (delivering (replicate (n + 1) fullPage) (replicate (n + 1) fullPage) rest) := by
  induction n generalizing rest with
  | zero => exact .refl
  | succ n ih =>
    have hsplit : replicate (n + 1) fullPage ++ rest =
        replicate n fullPage ++ fullPage :: rest := by
      rw [replicate_succ', append_assoc]
      rfl
    have hrun := ih (by omega) (fullPage :: rest)
    rw [← hsplit] at hrun
    refine .snoc .deliver hrun nofun ?_
    rw [step_delivering, if_neg (by rw [length_replicate]; omega), ← replicate_succ']

def oversized : List (UserDelta Unit) := List.replicate (maxPendingUserPages + 1) fullPage

theorem reach_oversized : Reach step Bounded (initial 0) (delivering [] oversized [finalPage]) := by
  have hstart := reach_delivering (replicate maxPendingUserPages fullPage)
  have hsplit : replicate maxPendingUserPages fullPage ++ [finalPage] =
      replicate (maxPendingUserPages - 1) fullPage ++ fullPage :: [finalPage] := by
    rw [show maxPendingUserPages = maxPendingUserPages - 1 + 1 from rfl, replicate_succ',
      append_assoc]
    rfl
  rw [hsplit] at hstart
  have hfull := reach_replicate (maxPendingUserPages - 1) (by decide) (fullPage :: [finalPage])
  refine .snoc .deliver (hstart.trans hfull) nofun ?_
  rw [step_delivering, if_pos (by rw [length_replicate]; decide), ← replicate_succ']
  rfl

/-- The last page of an oversized set is queued as if it were the whole set. -/
theorem oversized_tail_queued :
    Steps step (initial 0) (delivering [] oversized [finalPage]) ∧
    ∃ t, step (delivering [] oversized [finalPage]) .deliver = some t ∧
      t.users.queue = [joined [finalPage]] ∧ (joined [finalPage]).full = true ∧
      joined [finalPage] ≠ joined (oversized ++ [finalPage]) := by
  refine ⟨reach_oversized.steps, _, rfl, rfl, rfl, fun heq ↦ ?_⟩
  have hupserts : (joined [finalPage]).upserts.length =
      (joined (oversized ++ [finalPage])).upserts.length := by rw [heq]
  have hmany : (joined (oversized ++ [finalPage])).upserts.length = maxPendingUserPages + 2 := by
    have hflat : ∀ n, ((List.replicate n fullPage).flatMap (·.upserts)).length = n := by
      intro n
      induction n with
      | zero => rfl
      | succ n ih =>
        rw [List.replicate_succ, List.flatMap_cons, List.length_append, ih]
        exact Nat.add_comm 1 n
    show ((oversized ++ [finalPage]).flatMap (·.upserts)).length = _
    rw [List.flatMap_append, List.length_append, oversized, hflat]
    rfl
  rw [hmany] at hupserts
  exact absurd hupserts (by decide)

end AnixAgent.Users.Pages
