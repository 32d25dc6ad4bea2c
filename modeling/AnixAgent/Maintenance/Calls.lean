import AnixAgent.Maintenance.Observations

namespace AnixAgent.Maintenance.Calls

open Lib.Runs Lib.Tables Observations List Option

variable {sizes : Sizes} {s : Store} {calls : Calls} {file : Option DiskState}

def view (file : Option DiskState) (key : Key) : InstanceState :=
  file.elim .zero fun state ↦ state.find key

theorem find_getD (s : Store) (file : Option DiskState) (key : Key) :
    (file.getD s.fresh).find key = view file key := by
  cases file with
  | none => simp [DiskState.find, Store.fresh, view]
  | some state => rfl

theorem transaction_cases (sizes : Sizes) (s : Store) (calls : Calls)
    (change : DiskState → Except String Change) (file : Option DiskState) :
    ((transaction sizes s calls change file).file = file ∧
      (transaction sizes s calls change file).change = none ∧
      (transaction sizes s calls change file).error ≠ none) ∨
    ∃ c, change (file.getD s.fresh) = .ok c ∧
      (transaction sizes s calls change file).file = some c.state ∧
      (transaction sizes s calls change file).change = some c := by
  unfold transaction
  split
  · exact .inl ⟨rfl, rfl, nofun⟩
  dsimp only
  split
  · exact .inl ⟨rfl, rfl, nofun⟩
  split
  · exact .inl ⟨rfl, rfl, nofun⟩
  next c hc =>
  split
  · exact .inl ⟨rfl, rfl, nofun⟩
  split
  · exact .inl ⟨rfl, rfl, nofun⟩
  split
  · exact .inr ⟨c, hc, rfl, rfl⟩
  · exact .inr ⟨c, hc, rfl, rfl⟩
  · exact .inl ⟨rfl, rfl, nofun⟩

theorem restart_eq_false {out : Outcome} (h : out.error ≠ none) : out.restart = false := by
  simp [Outcome.restart, h]

variable {c : Change}

theorem restart_of_change {out : Outcome} (hc : out.change = some c)
    (h : out.restart) : c.restart := by
  unfold Outcome.restart at h
  split at h
  · simpa [hc] using h
  · cases h

def Event.key (e : Event) : Key := ⟨e.pluginID, e.instanceID⟩

variable {state : DiskState}

theorem append_cases {clock : Int} {e : Event} {state' : DiskState} {new : Option Event}
    (h : s.append sizes clock e state = .ok (state', new)) :
    state'.instances = state.instances ∧
      (new = none ∧ state' = state ∧ state.events.lookup e.eventID = some e ∨
        new = some e ∧ state'.events = state.events.insert e.eventID e) := by
  unfold Store.append at h
  split at h
  · cases h
  split at h
  · cases h
  split at h
  · next existing hexisting =>
    split at h
    · cases h
    next hsame =>
    rw [not_not] at hsame
    cases h
    exact ⟨rfl, .inl ⟨rfl, rfl, hsame ▸ hexisting⟩⟩
  split at h
  · cases h
  cases h
  exact ⟨rfl, .inr ⟨rfl, rfl⟩⟩

@[simp] theorem key_event (s : Store) (o : Observation) (inst : InstanceState) (now : Int)
    (id : String) (status : Status) (action : SelfHealAction) (result : SelfHealResult) :
    Event.key (s.event o inst now id status action result) = o.key := rfl

def verdict (o : Observation) (inst : InstanceState) (now : Int) : Verdict :=
  if o.errorCode = "" then observeHealthy inst now else observeFailure o inst now

theorem find_commit (v : Verdict) (key k : Key) (state : DiskState) (new : Option Event) :
    (v.commit key state new).state.find k = if k = key then v.settled else state.find k := by
  simp only [Verdict.commit, DiskState.find, lookup_insert_ite]
  split
  · rfl
  · rfl

inductive Emits (e : Event) (state : DiskState) (c : Change) : Prop
  | appended (hnew : c.appended = some e)
    (hevents : c.state.events = state.events.insert e.eventID e)
  | known (hnew : c.appended = none) (hevents : c.state.events = state.events)
    (hlookup : state.events.lookup e.eventID = some e)

structure Counts (s : Store) (o : Observation) (now : Int) (state : DiskState) (c : Change) : Prop
    where
  later : (state.find o.key).lastObservedAt < now
  accepted : c.accepted = true
  restart : c.restart = (verdict o ((state.find o.key).advance now) now).restart
  instances : ∀ k, c.state.find k =
    if k = o.key then (verdict o ((state.find o.key).advance now) now).settled else state.find k
  quiet : (verdict o ((state.find o.key).advance now) now).emit = false →
    c.appended = none ∧ c.state.events = state.events
  emits : (verdict o ((state.find o.key).advance now) now).emit = true → ∃ id,
    Emits (s.event o (verdict o ((state.find o.key).advance now) now).inst now id
      (verdict o ((state.find o.key).advance now) now).status
      (verdict o ((state.find o.key).advance now) now).action
      (verdict o ((state.find o.key).advance now) now).result) state c

variable {o : Observation} {now : Int}

theorem conclude_counts (hlater : (state.find o.key).lastObservedAt < now)
    (h : s.conclude sizes o now calls (verdict o ((state.find o.key).advance now) now) state =
      .ok c) : Counts s o now state c := by
  unfold Store.conclude at h
  split at h
  · next hemit =>
    split at h
    · cases h
    next id _ =>
    split at h
    · cases h
    next state' new happend =>
    cases h
    obtain ⟨hinstances, hcases⟩ := append_cases happend
    refine ⟨hlater, rfl, rfl, fun k ↦ ?_, fun hquiet ↦ ?_, fun _ ↦ ⟨id, ?_⟩⟩
    · rw [find_commit]
      simp only [DiskState.find, hinstances]
    · rw [hemit] at hquiet
      cases hquiet
    · rcases hcases with ⟨hnew, rfl, hlookup⟩ | ⟨hnew, hevents⟩
      · exact .known hnew rfl hlookup
      · exact .appended hnew hevents
  · next hemit =>
    cases h
    exact ⟨hlater, rfl, rfl, fun k ↦ find_commit _ _ _ _ _, fun _ ↦ ⟨rfl, rfl⟩,
      fun hemits ↦ absurd hemits hemit⟩

theorem observing_cases (h : s.observing sizes o now calls state = .ok c) :
    c = ⟨state, false, false, none⟩ ∨ Counts s o now state c := by
  unfold Store.observing at h
  dsimp only at h
  split at h
  · cases h
  next hbefore =>
  split at h
  · cases h
    exact .inl rfl
  next hne =>
  have hlater : (state.find o.key).lastObservedAt < now := by omega
  have hconclude : s.conclude sizes o now calls (verdict o ((state.find o.key).advance now) now)
      state = .ok c := by
    split at h
    · next hcode =>
      rw [verdict, if_pos hcode]
      exact h
    next hcode =>
    split at h
    · cases h
    · rw [verdict, if_neg hcode]
      exact h
  exact .inr (conclude_counts hlater hconclude)

theorem restart_verdict {inst : InstanceState} (h : (verdict o inst now).restart) :
    o.restartAllowed ∧ restartableError o.errorCode ∧
      qualifies (inst.fail now o.errorCode) now o.errorCode ∧
      inst.restartTimes.length < restartLimit := by
  unfold verdict at h
  split at h
  · cases h
  unfold observeFailure at h
  dsimp only at h
  split at h
  · next hqualifies =>
    unfold openIncident at h
    dsimp only at h
    split at h
    · next hallowed =>
      rw [Bool.and_eq_true] at hallowed
      split at h
      · next hlimit => exact ⟨hallowed.1, hallowed.2, hqualifies, hlimit⟩
      · cases h
    · cases h
  · cases h

theorem restart_observe (h : (s.observe sizes o now calls file).restart) :
    (view file o.key).lastObservedAt < now ∧
      (verdict o ((view file o.key).advance now) now).restart := by
  unfold Store.observe at h
  split at h
  · cases h
  rcases transaction_cases sizes s calls (s.observing sizes o now calls) file with
    ⟨-, -, herror⟩ | ⟨c, hc, -, hchange⟩
  · rw [restart_eq_false herror] at h
    cases h
  have hrestart := restart_of_change hchange h
  rw [← find_getD s]
  rcases observing_cases hc with rfl | hcounts
  · cases hrestart
  · exact ⟨hcounts.later, hcounts.restart ▸ hrestart⟩

theorem completing_cases {failed : Bool} (h : s.completing sizes o now failed calls state = .ok c) :
    c.state.instances = state.instances ∧ (state.find o.key).isOpen ∧
      c.restart = false ∧ c.accepted = false ∧
      ∃ id, Emits (s.event o (state.find o.key) now id .opened .restart
        (if failed then .failed else .succeeded)) state c := by
  unfold Store.completing at h
  split at h
  · cases h
  next inst hinst =>
  have hfind : state.find o.key = inst := by simp [DiskState.find, hinst]
  split at h
  · cases h
  next hopen =>
  split at h
  · cases h
  next id _ =>
  split at h
  · cases h
  next state' new happend =>
  cases h
  obtain ⟨hinstances, hcases⟩ := append_cases happend
  rw [hfind]
  refine ⟨hinstances, by simpa using hopen, rfl, rfl, id, ?_⟩
  rcases hcases with ⟨hnew, rfl, hlookup⟩ | ⟨hnew, hevents⟩
  · exact .known hnew rfl hlookup
  · exact .appended hnew hevents

theorem lastObservedAt_settled (o : Observation) (inst : InstanceState) (now : Int) :
    (verdict o (inst.advance now) now).settled.lastObservedAt = now := by
  unfold Verdict.settled
  split
  all_goals
    unfold verdict observeHealthy observeFailure openIncident
    dsimp only
    split
    · rfl
    split
    · split
      · split <;> rfl
      · rfl
    · rfl

def events (file : Option DiskState) : Table String Event := file.elim ∅ fun state ↦ state.events

theorem events_getD (s : Store) (file : Option DiskState) :
    (file.getD s.fresh).events = events file := by
  cases file <;> rfl

def history (s : System) (key : Key) : List Accepted := s.accepted.filter fun x ↦ x.key = key

def statuses (s : System) (key : Key) : List Status :=
  (s.appended.filter fun e ↦ Event.key e = key).map (·.status)

def grants (s : System) (key : Key) : List Int := (s.granted.filter fun x ↦ x.1 = key).map (·.2)

def Observed (key : Key) (now : Int) (e : Event) : Prop :=
  Event.key e = key ∧ e.occurredAt = now ∧
    e.selfHealResult ≠ .succeeded ∧ e.selfHealResult ≠ .failed

inductive Seen (s t : System) (key : Key) (a : Action) : Prop
  | idle
    (hview : view t.file key = view s.file key ∨
      view t.file key = { view s.file key with healthySince := none })
    (hhistory : history t key = history s key) (hgrants : grants t key = grants s key)
    (hstatuses : statuses t key = statuses s key)
  | audited (store : Store) (o : Observation) (now : Int) (failed : Bool) (calls : Calls)
    (ha : a = .completeRestart store o now failed calls)
    (hopen : (view s.file key).isOpen = true) (hview : view t.file key = view s.file key)
    (hhistory : history t key = history s key) (hgrants : grants t key = grants s key)
    (hstatuses : statuses t key = statuses s key ++ [.opened])
  | observed (store : Store) (o : Observation) (now : Int) (calls : Calls)
    (ha : a = .observe store o now calls) (hkey : o.key = key)
    (hlater : (view s.file key).lastObservedAt < now)
    (hview : view t.file key = (verdict o ((view s.file key).advance now) now).settled)
    (hhistory : history t key = history s key ++ [⟨key, now, o.errorCode⟩])
    (hgrants : grants t key = grants s key ∨
      (verdict o ((view s.file key).advance now) now).restart = true ∧
        grants t key = grants s key ++ [now])
    (hstatuses : statuses t key = statuses s key ++
        (if (verdict o ((view s.file key).advance now) now).emit then
          [(verdict o ((view s.file key).advance now) now).status] else []) ∨
      ∃ id e, (events s.file).lookup id = some e ∧ Observed key now e)

theorem result_verdict (o : Observation) (inst : InstanceState) (now : Int) :
    (verdict o inst now).result ≠ .succeeded ∧ (verdict o inst now).result ≠ .failed := by
  unfold verdict observeHealthy observeFailure openIncident
  dsimp only
  split
  · simp
  split
  · split
    · split <;> simp
    · simp
  · simp

section

variable {sys : System} {key : Key} {a : Action} {out : Outcome}

def System.after (sys : System) (out : Outcome) (new : Option Event) : System :=
  { sys with file := out.file, appended := sys.appended ++ new.toList }

theorem statuses_after (sys : System) (out : Outcome) (e : Event) (key : Key) :
    statuses (System.after sys out (some e)) key =
      statuses sys key ++ if Event.key e = key then [e.status] else [] := by
  simp only [statuses, System.after, toList_some, filter_append, map_append]
  by_cases he : Event.key e = key <;> simp [he]

theorem seen_idle (hview : view out.file key = view sys.file key ∨
    view out.file key = { view sys.file key with healthySince := none }) :
    Seen sys (System.after sys out none) key a :=
  .idle hview rfl rfl (by simp [statuses, System.after])

theorem view_of_instances {s : Store} (h : state.instances = (file.getD s.fresh).instances)
    (key : Key) : view (some state) key = view file key := by
  rw [← find_getD s file]
  simp only [view, elim_some, DiskState.find, h]

theorem view_opening {s : Store} (h : Store.opening (file.getD s.fresh) = .ok c) (key : Key) :
    view (some c.state) key = { view file key with healthySince := none } ∧ c.appended = none := by
  cases h
  refine ⟨?_, rfl⟩
  rw [← find_getD s file]
  simp only [view, elim_some, DiskState.find, lookup_mapValues]
  cases (file.getD s.fresh).instances.lookup key with
  | none | some => rfl

theorem seen_transaction {change : DiskState → Except String Change} {store : Store} {key : Key}
    (calls : Calls) (h : ∀ c, change (sys.file.getD store.fresh) = .ok c → c.appended = none ∧
      (view (some c.state) key = view sys.file key ∨
        view (some c.state) key = { view sys.file key with healthySince := none })) :
    Seen sys (System.after sys (transaction sizes store calls change sys.file)
      ((transaction sizes store calls change sys.file).change.bind (·.appended))) key a := by
  rcases transaction_cases sizes store calls change sys.file with
    ⟨hfile, hchange, -⟩ | ⟨c, hc, hfile, hchange⟩
  · rw [hchange]
    exact seen_idle (.inl (by rw [hfile]))
  · obtain ⟨happended, hview⟩ := h c hc
    rw [hchange, bind_some, happended]
    exact seen_idle (by rw [hfile]; exact hview)

theorem seen_open (store : Store) (calls : Calls) (key : Key) :
    Seen sys (System.after sys (store.openStore sizes calls sys.file)
      ((store.openStore sizes calls sys.file).change.bind (·.appended))) key a :=
  seen_transaction calls fun _ hc ↦ (view_opening hc key).symm.imp_right .inr

theorem seen_queue (store : Store) (e : Event) (calls : Calls) (key : Key) :
    Seen sys (System.after sys (store.queue sizes e calls sys.file) none) key a := by
  refine seen_idle (.inl ?_)
  unfold Store.queue
  rcases transaction_cases sizes store calls _ sys.file with
    ⟨hfile, -, -⟩ | ⟨c, hc, hfile, -⟩
  · rw [hfile]
  rw [hfile]
  split at hc
  · cases hc
  next happend =>
  cases hc
  exact view_of_instances (append_cases happend).1 key

theorem seen_remove (store : Store) (eventIDs : List String) (calls : Calls) (key : Key) :
    Seen sys (System.after sys (store.remove sizes eventIDs calls sys.file)
      ((store.remove sizes eventIDs calls sys.file).change.bind (·.appended))) key a := by
  unfold Store.remove
  split
  · exact seen_idle (.inl rfl)
  refine seen_transaction calls fun c hc ↦ ?_
  cases hc
  exact ⟨rfl, .inl (view_of_instances rfl key)⟩

theorem seen_read (store : Store) (calls : Calls) (key : Key) :
    Seen sys (System.after sys (store.read sizes calls sys.file)
      ((store.read sizes calls sys.file).change.bind (·.appended))) key a := by
  refine seen_transaction calls fun c hc ↦ ?_
  cases hc
  exact ⟨rfl, .inl (view_of_instances rfl key)⟩

theorem seen_complete (store : Store) (o : Observation) (now : Int) (failed : Bool)
    (calls : Calls) (key : Key) :
    Seen sys (System.after sys (store.completeRestart sizes o now failed calls sys.file)
      ((store.completeRestart sizes o now failed calls sys.file).change.bind (·.appended))) key
      (.completeRestart store o now failed calls) := by
  unfold Store.completeRestart
  rcases transaction_cases sizes store calls _ sys.file with
    ⟨hfile, hchange, -⟩ | ⟨c, hc, hfile, hchange⟩
  · rw [hchange]
    exact seen_idle (.inl (by rw [hfile]))
  obtain ⟨hinstances, hopen, -, -, id, hemits⟩ := completing_cases hc
  have hview := view_of_instances hinstances key
  rw [hchange, bind_some]
  cases hemits with
  | known hnew _ _ =>
    rw [hnew]
    exact seen_idle (.inl (by rw [hfile, hview]))
  | appended hnew _ =>
    rw [hnew]
    by_cases hkey : o.key = key
    · subst hkey
      rw [find_getD] at hopen
      refine .audited store o now failed calls rfl hopen (by rw [← hview, ← hfile]; rfl) rfl rfl ?_
      rw [statuses_after, key_event, if_pos rfl]
      rfl
    · refine .idle (.inl (by rw [← hview, ← hfile]; rfl)) rfl rfl ?_
      rw [statuses_after, key_event, if_neg hkey, append_nil]

theorem note_of_uncounted (hrestart : out.restart = false)
    (haccepted : out.change.any (·.accepted) = false) (o : Observation) (now : Int) :
    sys.note out (some (o, now)) = sys := by
  simp [System.note, hrestart, haccepted]

theorem seen_counts {store : Store} {calls : Calls}
    (hcounts : Counts store o now (sys.file.getD store.fresh) c)
    (hfile : out.file = some c.state) (hchange : out.change = some c) (key : Key) :
    Seen sys ((System.after sys out c.appended).note out (some (o, now))) key
      (.observe store o now calls) := by
  have hviews (k : Key) : view out.file k =
      if k = o.key then (verdict o ((view sys.file o.key).advance now) now).settled
      else view sys.file k := by
    rw [hfile]
    have hk := hcounts.instances k
    rw [find_getD, find_getD] at hk
    exact hk
  have hevents := events_getD store sys.file
  obtain ⟨hlater, haccepted, hrestart, -, hquiet, hemits⟩ := hcounts
  rw [find_getD] at hlater hrestart hquiet hemits
  have hnote : (System.after sys out c.appended).note out (some (o, now)) =
      { System.after sys out c.appended with
        accepted := sys.accepted ++ [⟨o.key, now, o.errorCode⟩]
        granted := if out.restart then sys.granted ++ [(o.key, now)] else sys.granted } := by
    simp [System.note, System.after, hchange, haccepted]
  rw [hnote]
  by_cases hkey : o.key = key
  · subst hkey
    refine .observed store o now calls rfl rfl hlater ?_ ?_ ?_ ?_
    · exact (hviews o.key).trans (if_pos rfl)
    · simp [history]
    · cases hout : out.restart with
      | false => exact .inl (by simp [grants])
      | true =>
        refine .inr ⟨hrestart ▸ restart_of_change hchange hout, ?_⟩
        simp [grants]
    · cases hemit : (verdict o ((view sys.file o.key).advance now) now).emit with
      | false =>
        rw [(hquiet hemit).1]
        exact .inl (by simp [statuses, System.after])
      | true =>
        obtain ⟨id, hemits⟩ := hemits hemit
        cases hemits with
        | appended hnew _ =>
          rw [hnew]
          refine .inl ((statuses_after sys out _ o.key).trans ?_)
          rw [key_event, if_pos rfl, if_pos rfl]
          rfl
        | known _ _ hlookup =>
          rw [hevents] at hlookup
          exact .inr ⟨_, _, hlookup, rfl, rfl, result_verdict _ _ _⟩
  · refine .idle (.inl ((hviews key).trans (if_neg fun h ↦ hkey h.symm))) ?_ ?_ ?_
    · simp [history, hkey]
    · cases hout : out.restart <;> simp [grants, hkey]
    cases hemit : (verdict o ((view sys.file o.key).advance now) now).emit with
    | false =>
      rw [(hquiet hemit).1]
      simp [statuses, System.after]
    | true =>
      obtain ⟨id, hemits⟩ := hemits hemit
      cases hemits with
      | appended hnew _ =>
        rw [hnew]
        refine (statuses_after sys out _ key).trans ?_
        rw [key_event, if_neg hkey, append_nil]
      | known hnew _ _ =>
        rw [hnew]
        simp [statuses, System.after]

theorem seen_observe (store : Store) (o : Observation) (now : Int) (calls : Calls) (key : Key) :
    Seen sys ((System.after sys (store.observe sizes o now calls sys.file)
      ((store.observe sizes o now calls sys.file).change.bind (·.appended))).note
        (store.observe sizes o now calls sys.file) (some (o, now))) key
      (.observe store o now calls) := by
  unfold Store.observe
  split
  · rw [note_of_uncounted rfl rfl]
    exact seen_idle (.inl rfl)
  rcases transaction_cases sizes store calls (store.observing sizes o now calls) sys.file with
    ⟨hfile, hchange, herror⟩ | ⟨c, hc, hfile, hchange⟩
  · rw [note_of_uncounted (restart_eq_false herror) (by simp [hchange]), hchange]
    exact seen_idle (.inl (by rw [hfile]))
  rw [hchange, bind_some]
  rcases observing_cases hc with rfl | hcounts
  · have hrestart : (transaction sizes store calls (store.observing sizes o now calls)
        sys.file).restart = false := by
      by_contra hne
      cases restart_of_change hchange (by simpa using hne)
    rw [note_of_uncounted hrestart (by simp [hchange])]
    refine seen_idle (.inl ?_)
    rw [hfile]
    exact view_of_instances rfl key
  · exact seen_counts hcounts hfile hchange key

theorem step_seen {t : System} (h : step sizes sys a = some t) (key : Key) : Seen sys t key a := by
  cases a with
  | openStore store calls => cases h; exact seen_open store calls key
  | observe store o now calls => cases h; exact seen_observe store o now calls key
  | completeRestart store o now failed calls =>
    cases h
    exact seen_complete store o now failed calls key
  | queue store e calls => cases h; exact seen_queue store e calls key
  | remove store eventIDs calls => cases h; exact seen_remove store eventIDs calls key
  | read store calls => cases h; exact seen_read store calls key

theorem lookup_foldl_erase {ids : List String} {events : Table String Event} {id : String}
    {e : Event} (h : (ids.foldl (fun t id ↦ t.erase id) events).lookup id = some e) :
    events.lookup id = some e := by
  induction ids generalizing events with
  | nil => exact h
  | cons first ids ih => exact lookup_erase_le (ih h)

theorem lookup_emits {e e' : Event} {id : String} (h : Emits e state c)
    (hid : c.state.events.lookup id = some e') : state.events.lookup id = some e' ∨ e' = e := by
  cases h with
  | known _ hevents _ => exact .inl (hevents ▸ hid)
  | appended _ hevents =>
    rw [hevents, lookup_insert_ite] at hid
    split at hid
    · exact .inr (Option.some.inj hid).symm
    · exact .inl hid

theorem step_events {t : System} (h : step sizes sys a = some t) (hqueue : a.queues = false)
    {id : String} {e : Event} (he : (events t.file).lookup id = some e) :
    (events sys.file).lookup id = some e ∨
      (e.selfHealResult = .succeeded ∨ e.selfHealResult = .failed) ∨
      (view t.file (Event.key e)).lastObservedAt = e.occurredAt := by
  cases a with
  | openStore store calls =>
    cases h
    change (events (transaction sizes store calls Store.opening sys.file).file).lookup id = _ at he
    rcases transaction_cases sizes store calls Store.opening sys.file with
      ⟨hfile, -, -⟩ | ⟨c, hc, hfile, -⟩
    · exact .inl (hfile ▸ he)
    · cases hc
      rw [hfile] at he
      exact .inl (events_getD store sys.file ▸ he)
  | observe store o now calls =>
    cases h
    change (events (store.observe sizes o now calls sys.file).file).lookup id = _ at he
    change _ ∨ _ ∨ (view (store.observe sizes o now calls sys.file).file _).lastObservedAt = _
    unfold Store.observe at he ⊢
    split at he
    · exact .inl he
    next hvalid =>
    rw [if_neg hvalid]
    rcases transaction_cases sizes store calls (store.observing sizes o now calls) sys.file with
      ⟨hfile, -, -⟩ | ⟨c, hc, hfile, -⟩
    · exact .inl (hfile ▸ he)
    rw [hfile] at he
    rcases observing_cases hc with rfl | hcounts
    · exact .inl (events_getD store sys.file ▸ he)
    cases hemit : (verdict o (((sys.file.getD store.fresh).find o.key).advance now) now).emit with
    | false =>
      have hevents := (hcounts.quiet hemit).2
      rw [events_getD] at hevents
      exact .inl (hevents ▸ he)
    | true =>
      obtain ⟨eid, hemits⟩ := hcounts.emits hemit
      rcases lookup_emits hemits he with hold | rfl
      · exact .inl (events_getD store sys.file ▸ hold)
      refine .inr (.inr ?_)
      rw [hfile, key_event]
      have hview := hcounts.instances o.key
      rw [if_pos rfl] at hview
      exact (congrArg InstanceState.lastObservedAt hview).trans (lastObservedAt_settled _ _ _)
  | completeRestart store o now failed calls =>
    cases h
    change (events (transaction sizes store calls (store.completing sizes o now failed calls)
      sys.file).file).lookup id = _ at he
    rcases transaction_cases sizes store calls (store.completing sizes o now failed calls)
      sys.file with ⟨hfile, -, -⟩ | ⟨c, hc, hfile, -⟩
    · exact .inl (hfile ▸ he)
    rw [hfile] at he
    obtain ⟨-, -, -, -, eid, hemits⟩ := completing_cases hc
    rcases lookup_emits hemits he with hold | rfl
    · exact .inl (events_getD store sys.file ▸ hold)
    · refine .inr (.inl ?_)
      cases failed <;> simp [Store.event]
  | queue store e calls => cases hqueue
  | remove store eventIDs calls =>
    cases h
    change (events (store.remove sizes eventIDs calls sys.file).file).lookup id = _ at he
    unfold Store.remove at he
    split at he
    · exact .inl he
    rcases transaction_cases sizes store calls (Store.removing eventIDs) sys.file with
      ⟨hfile, -, -⟩ | ⟨c, hc, hfile, -⟩
    · exact .inl (hfile ▸ he)
    · cases hc
      rw [hfile] at he
      exact .inl (events_getD store sys.file ▸ lookup_foldl_erase he)
  | read store calls =>
    cases h
    change (events (store.read sizes calls sys.file).file).lookup id = _ at he
    unfold Store.read at he
    rcases transaction_cases sizes store calls _ sys.file with
      ⟨hfile, -, -⟩ | ⟨c, hc, hfile, -⟩
    · exact .inl (hfile ▸ he)
    · cases hc
      rw [hfile] at he
      exact .inl (events_getD store sys.file ▸ he)

end

end AnixAgent.Maintenance.Calls
