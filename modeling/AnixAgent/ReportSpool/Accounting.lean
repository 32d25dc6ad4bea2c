import AnixAgent.ReportSpool.History

namespace AnixAgent.ReportSpool.Accounting

open Machine FileNames Calls Invariant Indexing History Lib.Crash Lib.Tables List
open Lib.Crash.Proc

/-- The batch that a call newly stored, as its answer and the state after it say. -/
def newlyStored : Call → Answer → State → List Entry
  | .append message, .appended (.ok true), t => (t.spool.byBatch.lookup (batchID message)).toList
  | _, _, _ => []

/-- The batch that a `Remove` took out that answered true, as the state before it says. -/
def takenOut : Call → Answer → State → List Entry
  | .remove id, .removed true, s => (s.spool.byBatch.lookup id).toList
  | _, _, _ => []

def storedIn (codec : Codec) (s : State) : List (Call × Env) → List Entry
  | [] => []
  | (call, env) :: rest =>
    let outcome := perform codec env call s
    newlyStored call outcome.value outcome.state ++ storedIn codec outcome.state rest

def removedIn (codec : Codec) (s : State) : List (Call × Env) → List Entry
  | [] => []
  | (call, env) :: rest =>
    let outcome := perform codec env call s
    takenOut call outcome.value s ++ removedIn codec outcome.state rest

def tally (lost : List (Reason × Entry)) : Drops where
  size := lost.countP (·.1 = .size)
  age := lost.countP (·.1 = .age)
  count := lost.countP (·.1 = .count)

/-- Of `all` batches, those in `batches` are pending, those in `gone` were removed,
and the others were dropped and counted. -/
structure Accounted (all gone batches : List Entry) (s : State) : Prop where
  indexed : Indexed s.spool batches
  perm : all.Perm (batches ++ gone ++ s.lost.map (·.2))
  drops : s.spool.drops = tally s.lost

theorem tally_cons (reason : Reason) (entry : Entry) (lost : List (Reason × Entry)) :
    tally ((reason, entry) :: lost) = (tally lost).add reason := by
  cases reason <;> simp [tally, Drops.add]

theorem newlyStored_of_ne {answer : Except String Bool} (h : answer ≠ .ok true)
    (message : AgentToControl) (t : State) :
    newlyStored (.append message) (.appended answer) t = [] := by
  unfold newlyStored
  split
  · next heq => cases heq; exact absurd rfl h
  · rfl

theorem newlyStored_stored (message : AgentToControl) (data : List UInt8) (u : State)
    (disk : Table FileName File) :
    newlyStored (.append message) (.appended (.ok true)) { u with
      spool := stored u.spool
        (entryOf u.spool.nextSeq message data.length (fileName u.spool.nextSeq))
        ((u.spool.nextSeq + 1) % 2 ^ 64)
      disk := disk } =
    [entryOf u.spool.nextSeq message data.length (fileName u.spool.nextSeq)] := by
  simp only [newlyStored, stored, lookup_insert_ite]
  exact congrArg Option.toList (if_pos rfl)

section

variable {all gone before after : List Entry} {entry : Entry} {s : State}

theorem Accounted.dropped (h : Accounted all gone (before ++ entry :: after) s) (reason : Reason)
    (env : Env) :
    Sat (countDrop reason entry) s (fun _ ↦ True) fun _ t ↦ Sat (discard env entry) t (fun _ ↦ True)
      fun _ u ↦ Accounted all gone (before ++ after) u := by
  refine .act trivial ((discard_frame env entry _).mono (fun _ h ↦ h) ?_)
  rintro - u ⟨hspool, hlost⟩
  refine ⟨?_, ?_, ?_⟩
  · have htail := (h.indexed.perm perm_middle).tail
    rw [hspool]
    exact ⟨htail.ids, htail.byBatch, htail.bytes⟩
  · refine perm_iff_count.mpr fun e ↦ ?_
    have hcount := perm_iff_count.mp h.perm e
    rw [hlost]
    simp only [count_append, count_cons, map_cons] at hcount ⊢
    omega
  · rw [hlost, tally_cons, ← h.drops, hspool]
    rfl

theorem Accounted.sheds (env : Env) (all gone : List Entry) :
    Sheds env (fun _ ↦ True) (Accounted all gone) where
  point _ := trivial
  entries _ h := ⟨⟨h.indexed.ids, h.indexed.byBatch, h.indexed.bytes⟩, h.perm, h.drops⟩
  drop reason h := h.dropped reason env

theorem Accounted.removed (h : Accounted all gone (before ++ entry :: after) s) (env : Env) :
    Sat (discard env entry) s (fun _ ↦ True) fun _ t ↦
      Accounted all (gone ++ [entry]) (before ++ after) t := by
  refine (discard_frame env entry s).mono (fun _ h ↦ h) ?_
  rintro - t ⟨hspool, hlost⟩
  refine ⟨?_, ?_, ?_⟩
  · rw [hspool]
    exact (h.indexed.perm perm_middle).tail
  · refine perm_iff_count.mpr fun e ↦ ?_
    have hcount := perm_iff_count.mp h.perm e
    rw [hlost]
    simp only [count_append, count_cons, count_nil] at hcount ⊢
    omega
  · rw [hlost, hspool]
    exact h.drops

theorem Accounted.added {codec : Codec} {message : AgentToControl} {data : List UInt8} {u : State}
    (h : Indexed s.spool s.spool.entries) (hu : Accounted all gone u.spool.entries u)
    (hroom : Room codec message data s u) (env : Env) :
    Sat (storeBatch env message data) u (fun _ ↦ True) fun answer t ↦
      Accounted (all ++ newlyStored (.append message) (.appended answer) t) gone
        t.spool.entries t := by
  refine (storeBatch_frame env message data u).mono (fun _ h ↦ h) ?_
  rintro answer t (⟨hfail, disk, rfl⟩ | ⟨rfl, disk, rfl⟩)
  · rw [newlyStored_of_ne hfail, append_nil]
    exact ⟨hu.indexed, hu.perm, hu.drops⟩
  rw [newlyStored_stored message data u disk]
  set entry := entryOf u.spool.nextSeq message data.length (fileName u.spool.nextSeq)
  refine ⟨hu.indexed.add (h.unknown hroom.unknown hroom.rest) _, ?_, hu.drops⟩
  refine perm_iff_count.mpr fun e ↦ ?_
  have hcount := perm_iff_count.mp hu.perm e
  show (all ++ [entry]).count e = ((u.spool.entries ++ [entry]) ++ gone ++ u.lost.map (·.2)).count e
  simp only [count_append, count_cons, count_nil] at hcount ⊢
  omega

theorem perform_accounted (h : Accounted all gone s.spool.entries s) (codec : Codec) (env : Env)
    (call : Call) :
    Sat (perform codec env call) s (fun _ ↦ True) fun answer t ↦
      Accounted (all ++ newlyStored call answer t) (gone ++ takenOut call answer s)
        t.spool.entries t := by
  cases call with
  | append message =>
    have hearly : ∀ answer, answer ≠ .ok true →
        Accounted (all ++ newlyStored (.append message) (.appended answer) s) gone
          s.spool.entries s := by
      intro answer hne
      rw [newlyStored_of_ne hne, append_nil]
      exact h
    refine .bind (((Accounted.sheds env all gone).append (Q := fun answer t ↦
      Accounted (all ++ newlyStored (.append message) (.appended answer) t) gone t.spool.entries t)
      h hearly fun hu hroom ↦ Accounted.added h.indexed hu hroom env).mono (fun _ h ↦ h)
      fun answer t ht ↦ .pure ?_)
    simpa only [takenOut, append_nil] using ht
  | pending =>
    refine .bind (((Accounted.sheds env all gone).pending h).mono (fun _ h ↦ h) fun _ t ht ↦ ?_)
    refine .pure ?_
    simpa only [newlyStored, takenOut, append_nil] using ht.1
  | read id =>
    refine .bind ((read_eq codec env id s).mono (fun _ h ↦ h) fun _ t ht ↦ .pure ?_)
    simpa only [newlyStored, takenOut, append_nil, ht] using h
  | remove id =>
    have hindex := h.indexed.byBatch id
    set found := s.spool.byBatch.lookup id with hfound
    refine .bind (((Accounted.sheds env all (gone ++ found.toList)).remove id
      (Q := fun answer t ↦ Accounted all (gone ++ takenOut (.remove id) (.removed answer) s)
        t.spool.entries t) ?_ ?_ ?_ ?_).mono (fun _ h ↦ h) fun answer t ht ↦ .pure ?_)
    · exact fun entry hentry ↦ ((hindex entry).mp hentry).1
    · intro _
      simpa only [takenOut, append_nil] using h
    · intro before entry after hentry hsplit
      rw [hsplit] at h
      rw [hfound, hentry]
      exact h.removed env
    · exact fun _ ht _ ↦ ht
    · simpa only [newlyStored, append_nil] using ht

structure Sound (s : State) : Prop where
  indexed : Indexed s.spool s.spool.entries
  drops : s.spool.drops = tally s.lost

theorem Sound.accounted (h : Sound s) :
    Accounted (s.spool.entries ++ s.lost.map (·.2)) [] s.spool.entries s :=
  ⟨h.indexed, by simp, h.drops⟩

theorem Sound.performed (h : Sound s) (codec : Codec) (env : Env) (call : Call) :
    Sound (perform codec env call s).state := by
  have hafter := (perform_accounted h.accounted codec env call).ends
  exact ⟨hafter.indexed, hafter.drops⟩

theorem Sound.leaves (h : Sound s) (codec : Codec) (env : Env) (call : Call)
    (hbefore : entry ∈ s.spool.entries)
    (hafter : entry ∉ (perform codec env call s).state.spool.entries) :
    entry ∈ takenOut call (perform codec env call s).value s ∨ (s.lost.map (·.2)).count entry <
        ((perform codec env call s).state.lost.map (·.2)).count entry := by
  have hperm := (perform_accounted h.accounted codec env call).ends.perm
  have hcount := perm_iff_count.mp hperm entry
  have hpos := count_pos_iff.mpr hbefore
  have hzero := count_eq_zero.mpr hafter
  simp only [nil_append, count_append] at hcount
  by_cases hout : entry ∈ takenOut call (perform codec env call s).value s
  · exact .inl hout
  · right
    have hnone := count_eq_zero.mpr hout
    omega

theorem run_accounted (h : Accounted all gone s.spool.entries s) (codec : Codec)
    (calls : List (Call × Env)) :
    Accounted (all ++ storedIn codec s calls) (gone ++ removedIn codec s calls)
      (run codec s calls).spool.entries (run codec s calls) := by
  induction calls generalizing all gone s with
  | nil =>
    rw [storedIn, removedIn, append_nil, append_nil]
    exact h
  | cons c rest ih =>
    have hstep := (perform_accounted h codec c.2 c.1).ends
    have hrest := ih hstep
    rw [append_assoc, append_assoc] at hrest
    exact hrest

structure Numbered (all : List Entry) (s : State) : Prop where
  seqs : (all.map (·.seq)).Nodup
  below : ∀ entry ∈ all, entry.seq < s.spool.nextSeq

theorem sheds_trivial (env : Env) : Sheds env (fun _ ↦ True) fun _ _ ↦ True where
  point _ := trivial
  entries _ _ := trivial
  drop _ _ := .act trivial ((discard_frame env _ _).mono (fun _ h ↦ h) fun _ _ _ ↦ trivial)

theorem perform_numbers (h : Indexed s.spool s.spool.entries) (codec : Codec) (env : Env)
    (call : Call) (hnext : s.spool.nextSeq + call.cost < 2 ^ 64) :
    Sat (perform codec env call) s (fun _ ↦ True) fun answer t ↦
      (newlyStored call answer t = [] ∧ t.spool.nextSeq = s.spool.nextSeq) ∨
      ∃ entry, newlyStored call answer t = [entry] ∧ entry.seq = s.spool.nextSeq ∧
        t.spool.nextSeq = s.spool.nextSeq + 1 ∧ call.cost = 1 := by
  have hsheds := sheds_trivial env
  cases call with
  | append message =>
    refine .bind ((hsheds.append (Q := fun answer t ↦
      (newlyStored (.append message) (.appended answer) t = [] ∧
        t.spool.nextSeq = s.spool.nextSeq) ∨
      ∃ entry, newlyStored (.append message) (.appended answer) t = [entry] ∧
        entry.seq = s.spool.nextSeq ∧ t.spool.nextSeq = s.spool.nextSeq + 1 ∧ 1 = 1)
      trivial ?_ ?_).mono (fun _ h ↦ h) fun answer t ht ↦ .pure ht)
    · exact fun answer hne ↦ .inl ⟨newlyStored_of_ne hne message s, rfl⟩
    intro u data _ hroom
    refine (storeBatch_frame env message data u).mono (fun _ h ↦ h) ?_
    rintro answer t (⟨hfail, disk, rfl⟩ | ⟨rfl, disk, rfl⟩)
    · exact .inl ⟨newlyStored_of_ne hfail message _, hroom.rest.nextSeq⟩
    refine .inr ⟨_, newlyStored_stored message data u disk, hroom.rest.nextSeq, ?_, rfl⟩
    show (u.spool.nextSeq + 1) % 2 ^ 64 = s.spool.nextSeq + 1
    rw [hroom.rest.nextSeq]
    exact Nat.mod_eq_of_lt hnext
  | pending =>
    refine .bind ((hsheds.pending trivial).mono (fun _ h ↦ h) fun _ t ht ↦ ?_)
    exact .pure (.inl ⟨rfl, ht.2.nextSeq⟩)
  | read id =>
    refine .bind ((read_eq codec env id s).mono (fun _ h ↦ h) fun _ t ht ↦ ?_)
    exact .pure (.inl ⟨rfl, by rw [ht]⟩)
  | remove id =>
    refine .bind ((hsheds.remove id (Q := fun _ t ↦ t.spool.nextSeq = s.spool.nextSeq) ?_ ?_ ?_
      ?_).mono (fun _ h ↦ h) fun _ t ht ↦ .pure (.inl ⟨rfl, ht⟩))
    · exact fun entry hentry ↦ ((h.byBatch id entry).mp hentry).1
    · exact fun _ ↦ rfl
    · exact fun _ _ ↦ (discard_frame env _ s).mono (fun _ h ↦ h) fun _ _ _ ↦ trivial
    · exact fun _ _ hst ↦ hst.nextSeq

theorem Numbered.add {t : State} (h : Numbered all s) (hseq : entry.seq = s.spool.nextSeq)
    (hnext : t.spool.nextSeq = s.spool.nextSeq + 1) : Numbered (all ++ [entry]) t where
  seqs := by
    rw [map_append, nodup_append]
    refine ⟨h.seqs, nodup_singleton _, ?_⟩
    rintro n hn m hm rfl
    obtain ⟨e, he, heq⟩ := mem_map.mp hn
    have hlt := h.below e he
    have hn' : n = entry.seq := mem_singleton.mp hm
    omega
  below e he := by
    rcases mem_append.mp he with he | he
    · have hlt := h.below e he
      omega
    · rw [mem_singleton.mp he]
      omega

theorem run_numbered (h : Accounted all gone s.spool.entries s) (hall : Numbered all s)
    (codec : Codec) (calls : List (Call × Env))
    (hnext : s.spool.nextSeq + appends calls < 2 ^ 64) :
    Numbered (all ++ storedIn codec s calls) (run codec s calls) := by
  induction calls generalizing all gone s with
  | nil =>
    rw [storedIn, append_nil]
    exact hall
  | cons c rest ih =>
    have hcost : appends (c :: rest) = c.1.cost + appends rest := sum_cons
    rw [hcost] at hnext
    have hstep := (perform_accounted h codec c.2 c.1).ends
    have hnumbers := (perform_numbers h.indexed codec c.2 c.1 (by omega)).ends
    have hrest := ih hstep ?_ ?_
    · rw [append_assoc] at hrest
      exact hrest
    · rcases hnumbers with ⟨hnone, hsame⟩ | ⟨entry, hone, hseq, hmore, -⟩
      · rw [hnone, append_nil]
        exact ⟨hall.seqs, by rw [hsame]; exact hall.below⟩
      · rw [hone]
        exact hall.add hseq hmore
    · rcases hnumbers with ⟨-, hsame⟩ | ⟨-, -, -, hmore, hone⟩ <;> omega

/-- Every batch that was pending at `Open` or stored since is pending, was taken out by a `Remove`
that answered true, or was dropped and counted; and while the sequence numbers do not wrap no two of
them are the same. -/
theorem batches_accounted {codec : Codec} {env : Env} {dir : String} {limits : Limits}
    {access : Option String} {disk : Table FileName File}
    (hopen : openSpool codec env dir limits access disk = .ok s) (calls : List (Call × Env)) :
    let t := run codec s calls
    (s.spool.entries ++ storedIn codec s calls).Perm
        (t.spool.entries ++ removedIn codec s calls ++ t.lost.map (·.2)) ∧
      t.spool.drops = tally t.lost ∧
      ∀ next, Written codec next disk → next + appends calls < 2 ^ 64 →
        (t.spool.entries ++ removedIn codec s calls ++ t.lost.map (·.2)).Nodup := by
  obtain ⟨limits, -, -, rfl⟩ := openSpool_eq hopen
  have hfresh := index_fresh codec env limits disk
  have hstart : Accounted (index codec env ⟨newSpool limits, disk, []⟩).state.spool.entries []
      (index codec env ⟨newSpool limits, disk, []⟩).state.spool.entries
      (index codec env ⟨newSpool limits, disk, []⟩).state := by
    refine ⟨hfresh.indexed, ?_, ?_⟩
    · rw [hfresh.lost]
      simp
    · rw [hfresh.lost, hfresh.drops]
      rfl
  have hrun := run_accounted hstart codec calls
  refine ⟨hrun.perm, hrun.drops, fun next hdisk hnext ↦ ?_⟩
  obtain ⟨hordered, hle⟩ := index_ordered (by omega) hdisk env limits
  have hseqs : ((index codec env ⟨newSpool limits, disk, []⟩).state.spool.entries.map
      (·.seq)).Nodup := List.pairwise_map.mpr (hordered.seqs.imp Nat.ne_of_lt)
  have hnumbered := run_numbered hstart ⟨hseqs, hordered.nextSeq⟩ codec calls (by omega)
  exact hrun.perm.nodup_iff.mp (hnumbered.seqs.of_map _)

end

def sampleCalls : List (Call × Env) :=
  [(.append (batch "a"), quiet), (.append (batch "b"), quiet), (.remove "b", quiet)]

theorem batches_accounted_dropped_and_removed :
    ∃ s, openSpool sampleCodec quiet "/spool" sampleLimits none ∅ = .ok s ∧
      (storedIn sampleCodec s sampleCalls).length = 2 ∧
      (run sampleCodec s sampleCalls).spool.drops = tally (run sampleCodec s sampleCalls).lost ∧
      (run sampleCodec s sampleCalls).spool.drops = ⟨1, 0, 0⟩ := by
  have hopen : openSpool sampleCodec quiet "/spool" sampleLimits none ∅ =
      .ok (index sampleCodec quiet ⟨newSpool sampleLimits, ∅, []⟩).state := rfl
  exact ⟨_, hopen, rfl, (batches_accounted hopen sampleCalls).2.1, rfl⟩

end AnixAgent.ReportSpool.Accounting
