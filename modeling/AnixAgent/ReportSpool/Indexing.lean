import AnixAgent.ReportSpool.Invariant

namespace AnixAgent.ReportSpool.Indexing

open Machine FileNames Calls Invariant Lib.Crash Lib.Tables List
open Lib.Crash.Proc

/-- The files that `index` removes: interrupted writes, what cannot be read, and
batches without an id or with one already indexed. -/
def Unfit (codec : Codec) (env : Env) (s : State) (name : FileName) : Prop :=
  hidden name = true ∨ (∃ err, readBatch codec env s.disk name = .error err) ∨
    ∃ message size, readBatch codec env s.disk name = .ok (message, size) ∧
      (batchID message = "" ∨ (s.spool.byBatch.lookup (batchID message)).isSome)

inductive Round (codec : Codec) (env : Env) (name : FileName) (s : State) : State → Prop
  | skipped (hname : hidden name = false)
      (hother : parseUint (trimSuffix name) = none ∨ hasSuffix name = false ∨
        (s.disk.lookup name).any (·.regular) = false) : Round codec env name s s
  | removed {disk : Table FileName File}
      (hbad : Unfit codec env s name)
      (hdisk : disk = if env.removes name then s.disk.erase name else s.disk) :
      Round codec env name s { s with disk := disk }
  | taken {seq : Nat} {message : AgentToControl} {size : Int} (hname : hidden name = false)
      (hseq : parseUint (trimSuffix name) = some seq)
      (hread : readBatch codec env s.disk name = .ok (message, size))
      (hid : batchID message ≠ "") (hnew : s.spool.byBatch.lookup (batchID message) = none) :
      Round codec env name s { s with
        spool := stored s.spool (entryOf seq message size name)
          (if s.spool.nextSeq ≤ seq then (seq + 1) % 2 ^ 64 else s.spool.nextSeq) }

variable {codec : Codec} {env : Env} {name : FileName} {s t : State}

theorem osRemove_round (hbad : Unfit codec env s name) :
    Sat (osRemove env name) s (fun t ↦ ∃ u, Round codec env name s u ∧ t.disk = u.disk)
      fun _ t ↦ Round codec env name s t := by
  have hround := Round.removed hbad rfl
  have heq : (if env.removes name then { s with disk := s.disk.erase name } else s) =
      { s with disk := if env.removes name then s.disk.erase name else s.disk } := by
    split <;> rfl
  refine .act ⟨_, hround, ?_⟩ ?_ <;> rw [heq]
  exact hround

theorem indexFile_round (codec : Codec) (env : Env) (name : FileName) (s : State) :
    Sat (indexFile codec env name) s (fun t ↦ ∃ u, Round codec env name s u ∧ t.disk = u.disk)
      fun _ t ↦ Round codec env name s t := by
  refine .bind (.look ?_)
  split
  · next hname => exact osRemove_round (.inl hname)
  next hname =>
  have hname : hidden name = false := by simpa using hname
  split
  · next hnone => exact .pure (.skipped hname (.inl hnone))
  next seq hseq =>
  split
  · next hother => exact .pure (.skipped hname (.inr hother))
  split
  · next err hread => exact osRemove_round (.inr (.inl ⟨err, hread⟩))
  next message size hread =>
  refine .bind (.look ?_)
  split
  · next hbad => exact osRemove_round (.inr (.inr ⟨message, size, hread, hbad⟩))
  next hgood =>
  obtain ⟨hid, hnew⟩ := not_or.mp hgood
  have hround := Round.taken hname hseq hread hid (Option.not_isSome_iff_eq_none.mp hnew)
  exact .bind (.act ⟨_, hround, rfl⟩ (.bind (.act ⟨_, hround, rfl⟩ (.bind
    (.act ⟨_, hround, rfl⟩ (.act ⟨_, hround, rfl⟩ hround))))))

theorem index_spec {I : List FileName → State → Prop}
    (hround : ∀ {name rest s t}, I (name :: rest) s → Round codec env name s t → I rest t)
    (h : I (readDir s.disk) s) :
    Sat (index codec env) s (fun t ↦ ∃ rest u, I rest u ∧ t.disk = u.disk) fun _ t ↦
      ∃ u, I [] u ∧ t = withEntries u (u.spool.entries.insertionSort fun a b ↦ a.seq ≤ b.seq) := by
  refine .bind (.look (.bind ((Sat.forM (I := I) ?_ h).mono (fun _ h ↦ h) ?_)))
  · intro name rest s hs
    refine (indexFile_round codec env name s).mono ?_ fun _ t ht ↦ hround hs ht
    rintro t ⟨u, hu, ht⟩
    exact ⟨rest, u, hround hs hu, ht⟩
  · intro _ t ht
    exact .act ⟨[], t, ht, rfl⟩ ⟨t, ht, rfl⟩

theorem Round.indexed (h : Round codec env name s t) (hs : Indexed s.spool s.spool.entries) :
    Indexed t.spool t.spool.entries := by
  cases h with
  | skipped | removed => exact hs
  | taken _ _ _ _ hnew =>
    refine hs.add (fun e he heq ↦ ?_) _
    have hknown := (hs.byBatch _ e).mpr ⟨he, heq⟩
    exact nomatch hnew.symm.trans hknown

theorem indexed_newSpool (limits : Limits) : Indexed (newSpool limits) (newSpool limits).entries :=
  ⟨nodup_nil, fun _ _ ↦ iff_of_false nofun fun h ↦ not_mem_nil h.1, rfl⟩

/-- The directory holds only what a spool wrote whose next sequence number is
`next`: batches under lower numbers, and temporary files. -/
structure Written (codec : Codec) (next : Nat) (disk : Table FileName File) : Prop where
  pos : 0 < next
  files : ∀ name file, disk.lookup name = some file → hidden name = true ∨
    ∃ seq message data, seq < next ∧ name = fileName seq ∧ codec.marshal message = .ok data ∧
      batchID message ≠ "" ∧ file = ⟨true, data⟩

/-- What the loop of `index` has made of a directory that a spool wrote, with the
names in `rest` still to come. -/
structure Loaded (codec : Codec) (next : Nat) (rest : List FileName) (s : State) : Prop where
  indexed : Indexed s.spool s.spool.entries
  written : Written codec next s.disk
  nextSeq : s.spool.nextSeq ≤ next
  below : ∀ entry ∈ s.spool.entries, entry.seq < s.spool.nextSeq
  done : ∀ entry ∈ s.spool.entries, fileName entry.seq ∉ rest
  seqs : (s.spool.entries.map (·.seq)).Nodup
  names : rest.Nodup

variable {next : Nat} {disk : Table FileName File}

theorem Written.erase
    (h : Written codec next disk) (name : FileName) : Written codec next (disk.erase name) :=
  ⟨h.pos, fun name' file hfile ↦ h.files name' file (lookup_erase_le hfile)⟩

theorem readBatch_lookup {message : AgentToControl} {size : Int}
    (h : readBatch codec env disk name = .ok (message, size)) :
    ∃ file, disk.lookup name = some file ∧ codec.unmarshal file.data = .ok message ∧
      size = file.data.length := by
  unfold readBatch at h
  split at h
  · cases h
  next file hfile =>
  split at h
  · cases h
  split at h
  · cases h
  next hdata =>
  cases h
  exact ⟨file, hfile, hdata, rfl⟩

theorem Written.seq_eq (h : Written codec next s.disk)
    (hnext : next < 2 ^ 64) {seq : Nat} {message : AgentToControl}
    {size : Int} (hname : hidden name = false) (hseq : parseUint (trimSuffix name) = some seq)
    (hread : readBatch codec env s.disk name = .ok (message, size)) :
    name = fileName seq ∧ seq < next := by
  obtain ⟨file, hfile, -, -⟩ := readBatch_lookup hread
  rcases h.files name file hfile with hhidden | ⟨seq', -, -, hlt, heq, -⟩
  · rw [hname] at hhidden
    cases hhidden
  · rw [heq, parseUint_fileName (hlt.trans hnext)] at hseq
    exact ⟨heq.trans (by rw [Option.some.inj hseq]), Option.some.inj hseq ▸ hlt⟩

theorem Round.loaded {rest : List FileName} (hnext : next < 2 ^ 64)
    (hs : Loaded codec next (name :: rest) s) (h : Round codec env name s t) :
    Loaded codec next rest t := by
  have hindexed := h.indexed hs.indexed
  obtain ⟨hfresh, hnames⟩ := nodup_cons.mp hs.names
  have hdone : ∀ entry ∈ s.spool.entries, fileName entry.seq ∉ rest :=
    fun entry hentry hmem ↦ hs.done entry hentry (mem_cons_of_mem _ hmem)
  cases h with
  | skipped => exact ⟨hindexed, hs.written, hs.nextSeq, hs.below, hdone, hs.seqs, hnames⟩
  | removed hbad hdisk =>
    refine ⟨hindexed, ?_, hs.nextSeq, hs.below, hdone, hs.seqs, hnames⟩
    rw [hdisk]
    split
    · exact hs.written.erase name
    · exact hs.written
  | @taken seq message size hname hseq hread hid hnew =>
    obtain ⟨heq, hlt⟩ := hs.written.seq_eq hnext hname hseq hread
    rw [heq] at hfresh
    have hmod : (seq + 1) % 2 ^ 64 = seq + 1 := Nat.mod_eq_of_lt (by omega)
    have hle : s.spool.nextSeq ≤
        if s.spool.nextSeq ≤ seq then (seq + 1) % 2 ^ 64 else s.spool.nextSeq := by
      split <;> omega
    have hgt : seq < if s.spool.nextSeq ≤ seq then (seq + 1) % 2 ^ 64 else s.spool.nextSeq := by
      split <;> omega
    refine ⟨hindexed, hs.written, ?_, ?_, ?_, ?_, hnames⟩
    · show (if s.spool.nextSeq ≤ seq then (seq + 1) % 2 ^ 64 else s.spool.nextSeq) ≤ next
      have := hs.nextSeq
      split <;> omega
    · intro entry hentry
      rcases mem_append.mp hentry with hentry | hentry
      · exact (hs.below entry hentry).trans_le hle
      · obtain rfl := mem_singleton.mp hentry
        exact hgt
    · intro entry hentry
      rcases mem_append.mp hentry with hentry | hentry
      · exact hdone entry hentry
      · obtain rfl := mem_singleton.mp hentry
        exact hfresh
    · show ((s.spool.entries ++ [_]).map Entry.seq).Nodup
      rw [map_append, nodup_append]
      refine ⟨hs.seqs, nodup_singleton _, ?_⟩
      rintro _ hmem _ hnew' rfl
      obtain ⟨entry, hentry, hentrySeq⟩ := mem_map.mp hmem
      have hsame : entry.seq = seq := hentrySeq.trans (mem_singleton.mp hnew')
      refine hs.done entry hentry ?_
      rw [hsame, ← heq]
      exact mem_cons_self

theorem pairwise_sort {entries : List Entry} (h : (entries.map (·.seq)).Nodup) :
    (entries.insertionSort fun a b ↦ a.seq ≤ b.seq).Pairwise fun a b ↦ a.seq < b.seq := by
  have hle : (entries.insertionSort fun a b ↦ a.seq ≤ b.seq).Pairwise fun a b ↦ a.seq ≤ b.seq :=
    pairwise_insertionSort _ _
  have hne : ((entries.insertionSort fun a b ↦ a.seq ≤ b.seq).map (·.seq)).Nodup :=
    (((perm_insertionSort _ entries).map _).nodup_iff).mpr h
  exact hle.imp₂ (fun _ _ ↦ lt_of_le_of_ne) (pairwise_map.mp hne)

theorem Loaded.ordered (h : Loaded codec next [] s) :
    Ordered s.spool (s.spool.entries.insertionSort fun a b ↦ a.seq ≤ b.seq) :=
  ⟨pairwise_sort h.seqs, fun e he ↦ h.below e ((mem_insertionSort _).mp he)⟩

theorem loaded_newSpool (h : Written codec next disk) (limits : Limits) :
    Loaded codec next (readDir disk) ⟨newSpool limits, disk, []⟩ where
  indexed := indexed_newSpool limits
  written := h
  nextSeq := h.pos
  below _ he := (not_mem_nil he).elim
  done _ he := (not_mem_nil he).elim
  seqs := nodup_nil
  names := ((perm_insertionSort _ _).nodup_iff).mpr disk.nodupKeys

theorem openSpool_eq {dir : String} {limits : Limits} {access : Option String}
    (h : openSpool codec env dir limits access disk = .ok s) :
    ∃ limits : Limits, 0 < limits.maxBytes ∧ 0 < limits.maxEntries ∧
      s = (index codec env ⟨newSpool limits, disk, []⟩).state := by
  unfold openSpool at h
  split at h
  · cases h
  split at h
  · cases h
  next hbytes =>
  split at h
  · cases h
  cases access with
  | some err => cases h
  | none =>
    refine ⟨{ limits with
      maxEntries := if limits.maxEntries ≤ 0 then defaultMaxEntries else limits.maxEntries },
      not_le.mp hbytes, ?_, (Except.ok.inj h).symm⟩
    show 0 < if limits.maxEntries ≤ 0 then defaultMaxEntries else limits.maxEntries
    split
    · decide
    · omega

structure Fresh (limits : Limits) (s : State) : Prop where
  indexed : Indexed s.spool s.spool.entries
  limits : s.spool.limits = limits
  lost : s.lost = []
  drops : s.spool.drops = ⟨0, 0, 0⟩

theorem Round.fresh {limits : Limits}
    (h : Round codec env name s t) (hs : Fresh limits s) : Fresh limits t := by
  have hindexed := h.indexed hs.indexed
  cases h <;> exact ⟨hindexed, hs.limits, hs.lost, hs.drops⟩

theorem index_fresh (codec : Codec) (env : Env) (limits : Limits) (disk : Table FileName File) :
    Fresh limits (index codec env ⟨newSpool limits, disk, []⟩).state := by
  have hspec : Sat (index codec env) ⟨newSpool limits, disk, []⟩ _ _ :=
    index_spec (I := fun _ s ↦ Fresh limits s) (fun hs hround ↦ hround.fresh hs)
      ⟨indexed_newSpool limits, rfl, rfl, rfl⟩
  obtain ⟨u, hu, heq⟩ := hspec.ends
  rw [heq]
  have hperm := hu.indexed.perm (perm_insertionSort (fun a b ↦ a.seq ≤ b.seq) _).symm
  exact ⟨⟨hperm.ids, hperm.byBatch, hperm.bytes⟩, hu.limits, hu.lost, hu.drops⟩

theorem index_ordered (hnext : next < 2 ^ 64) (h : Written codec next disk) (env : Env)
    (limits : Limits) :
    Ordered (index codec env ⟨newSpool limits, disk, []⟩).state.spool
        (index codec env ⟨newSpool limits, disk, []⟩).state.spool.entries ∧
      (index codec env ⟨newSpool limits, disk, []⟩).state.spool.nextSeq ≤ next := by
  have hspec : Sat (index codec env) ⟨newSpool limits, disk, []⟩ _ _ :=
    index_spec (I := Loaded codec next) (fun hs hround ↦ hround.loaded hnext hs)
      (loaded_newSpool h limits)
  obtain ⟨u, hu, heq⟩ := hspec.ends
  rw [heq]
  exact ⟨⟨hu.ordered.seqs, hu.ordered.nextSeq⟩, hu.nextSeq⟩

end AnixAgent.ReportSpool.Indexing
