import AnixAgent.ReportSpool.Indexing

namespace AnixAgent.ReportSpool.Directory

open Machine FileNames Calls Invariant Indexing Lib.Crash Lib.Tables List Option
open Lib.Crash.Proc

def Kept (codec : Codec) (disk : Table FileName File) (entry : Entry) : Prop :=
  ∃ message data, codec.marshal message = .ok data ∧ batchID message ≠ "" ∧
    entry = entryOf entry.seq message data.length (fileName entry.seq) ∧
    disk.lookup (fileName entry.seq) = some ⟨true, data⟩

structure Exact (codec : Codec) (batches : List Entry) (disk : Table FileName File) : Prop where
  files : ∀ name file, disk.lookup name = some file → hidden name = true ∨
    ∃ entry ∈ batches, name = fileName entry.seq
  kept : ∀ entry ∈ batches, Kept codec disk entry

variable {next seq : Nat} {message : AgentToControl}

section

variable {codec : Codec} {batches before after : List Entry} {entry : Entry}
variable {disk disk' : Table FileName File} {name : FileName}

theorem fileName_ne_of_hidden (h : hidden name) (seq : Nat) : fileName seq ≠ name := by
  intro heq
  rw [← heq, hidden_fileName] at h
  cases h

theorem Kept.of_lookup (h : Kept codec disk entry)
    (heq : disk'.lookup (fileName entry.seq) = disk.lookup (fileName entry.seq)) :
    Kept codec disk' entry := by
  obtain ⟨message, data, hdata, hid, hentry, hfile⟩ := h
  exact ⟨message, data, hdata, hid, hentry, heq.trans hfile⟩

theorem Kept.path_eq (h : Kept codec disk entry) : entry.path = fileName entry.seq := by
  obtain ⟨message, data, -, -, hentry, -⟩ := h
  rw [hentry]
  rfl

theorem Exact.insert_hidden (h : Exact codec batches disk) (hname : hidden name)
    (file : File) : Exact codec batches (disk.insert name file) where
  files name' file' hfile := by
    rw [lookup_insert_ite] at hfile
    split at hfile
    · next heq => exact .inl (heq ▸ hname)
    · exact h.files name' file' hfile
  kept entry hentry := by
    refine (h.kept entry hentry).of_lookup ?_
    rw [lookup_insert_ite, if_neg (fileName_ne_of_hidden hname _)]

theorem Exact.erase_other (h : Exact codec batches disk)
    (hname : ∀ entry ∈ batches, fileName entry.seq ≠ name) :
    Exact codec batches (disk.erase name) where
  files name' file hfile := h.files name' file (lookup_erase_le hfile)
  kept entry hentry := by
    refine (h.kept entry hentry).of_lookup ?_
    rw [lookup_erase_ite, if_neg (hname entry hentry)]

structure Numbers (next : Nat) (batches : List Entry) : Prop where
  seqs : batches.Pairwise fun a b ↦ a.seq < b.seq
  below : ∀ entry ∈ batches, entry.seq < next
  fits : next < 2 ^ 64

theorem Numbers.eq_of_fileName (h : Numbers next batches) {e : Entry} (he : e ∈ batches)
    (hentry : entry ∈ batches) (heq : fileName e.seq = fileName entry.seq) : e = entry := by
  have hseqs : (batches.map (·.seq)).Nodup := pairwise_map.mpr (h.seqs.imp Nat.ne_of_lt)
  refine inj_on_of_nodup_map hseqs he hentry ?_
  exact fileName_injective ((h.below e he).trans h.fits) ((h.below entry hentry).trans h.fits) heq

theorem Numbers.fileName_ne (h : Numbers next (before ++ entry :: after)) {e : Entry}
    (he : e ∈ before ++ after) : fileName e.seq ≠ fileName entry.seq := by
  intro heq
  have hmem : e ∈ before ++ entry :: after :=
    ((Sublist.refl _).append (sublist_cons_self _ _)).subset he
  have hsame := h.eq_of_fileName hmem (by simp) heq
  rw [hsame] at he
  obtain ⟨-, hcons, hbefore⟩ := pairwise_append.mp h.seqs
  rcases mem_append.mp he with he | he
  · exact (hbefore entry he entry mem_cons_self).false
  · exact ((pairwise_cons.mp hcons).1 entry he).false

theorem Exact.removed (h : Exact codec (before ++ entry :: after) disk)
    (hn : Numbers next (before ++ entry :: after)) :
    Exact codec (before ++ after) (disk.erase (fileName entry.seq)) where
  files name file hfile := by
    rcases h.files name file (lookup_erase_le hfile) with hhidden | ⟨e, he, heq⟩
    · exact .inl hhidden
    refine .inr ⟨e, ?_, heq⟩
    rcases mem_append.mp he with he | he
    · exact mem_append_left _ he
    rcases mem_cons.mp he with rfl | he
    · rw [heq, lookup_erase_ite, if_pos rfl] at hfile
      cases hfile
    · exact mem_append_right _ he
  kept e he := by
    have hmem := ((Sublist.refl before).append (sublist_cons_self entry after)).subset he
    refine (h.kept e hmem).of_lookup ?_
    rw [lookup_erase_ite, if_neg (hn.fileName_ne he)]

theorem Exact.renamed (h : Exact codec batches disk) (hn : Numbers next batches)
    {data : List UInt8} (hdata : codec.marshal message = .ok data) (hid : batchID message ≠ "") :
    Exact codec (batches ++ [entryOf next message data.length (fileName next)])
      (disk.insert (fileName next) ⟨true, data⟩) where
  files name file hfile := by
    rw [lookup_insert_ite] at hfile
    split at hfile
    · next heq =>
      refine .inr ⟨entryOf next message data.length (fileName next), ?_, heq⟩
      exact mem_append_right _ (mem_singleton_self _)
    · rcases h.files name file hfile with hhidden | ⟨e, he, heq⟩
      · exact .inl hhidden
      · exact .inr ⟨e, mem_append_left _ he, heq⟩
  kept e he := by
    rcases mem_append.mp he with he | he
    · refine (h.kept e he).of_lookup ?_
      have hlt := hn.below e he
      rw [lookup_insert_ite, if_neg fun heq ↦ ?_]
      have hseq := fileName_injective (hlt.trans hn.fits) hn.fits heq
      omega
    · rw [mem_singleton.mp he]
      refine ⟨message, data, hdata, hid, rfl, ?_⟩
      exact (lookup_insert_ite _ _ _ _).trans (if_pos rfl)

theorem Exact.written (h : Exact codec batches disk) (hn : Numbers next batches)
    (hpos : 0 < next) : Written codec next disk where
  pos := hpos
  files name file hfile := by
    rcases h.files name file hfile with hhidden | ⟨e, he, heq⟩
    · exact .inl hhidden
    · obtain ⟨message, data, hdata, hid, -, hkept⟩ := h.kept e he
      rw [heq, hkept] at hfile
      exact .inr ⟨e.seq, message, data, hn.below e he, heq, hdata, hid, (Option.some.inj hfile).symm⟩

theorem Kept.readBatch (h : Kept codec disk entry) {env : Env} (henv : ∀ path, env.reads path) :
    ∃ message data, readBatch codec env disk (fileName entry.seq) = .ok (message, data) ∧
      entry = entryOf entry.seq message data (fileName entry.seq) ∧ batchID message ≠ "" := by
  obtain ⟨message, data, hdata, hid, hentry, hfile⟩ := h
  refine ⟨message, data.length, ?_, hentry, hid⟩
  simp only [Machine.readBatch, hfile, henv, codec.unmarshal_marshal message data hdata]
  rfl

end

structure Cleared (codec : Codec) (rest : List FileName) (s : State) : Prop where
  files : ∀ name file, s.disk.lookup name = some file → hidden name = true ∨ name ∈ rest ∨
    ∃ entry ∈ s.spool.entries, name = fileName entry.seq
  kept : ∀ entry ∈ s.spool.entries, Kept codec s.disk entry

structure Regained (codec : Codec) (batches : List Entry) (rest : List FileName) (s : State) :
    Prop where
  exact : Exact codec batches s.disk
  subset : ∀ entry ∈ s.spool.entries, entry ∈ batches
  left : ∀ entry ∈ batches, entry ∈ s.spool.entries ∨ fileName entry.seq ∈ rest

section

variable {codec : Codec} {env : Env} {name : FileName} {rest : List FileName} {s t : State}
variable {next : Nat} {batches : List Entry}

theorem cleared_round (hnext : next < 2 ^ 64) (henv : ∀ path, env.removes path)
    (hl : Loaded codec next (name :: rest) s) (hs : Cleared codec (name :: rest) s)
    (h : Round codec env name s t) : Cleared codec rest t := by
  have hrest : ∀ {name'}, name' ≠ name → name' ∈ name :: rest → name' ∈ rest :=
    fun hne hmem ↦ (mem_cons.mp hmem).resolve_left hne
  cases h with
  | skipped hname hother =>
    refine ⟨fun name' file hfile ↦ ?_, hs.kept⟩
    rcases hs.files name' file hfile with hhidden | hmem | hentry
    · exact .inl hhidden
    · refine .inr (.inl (hrest (fun heq ↦ ?_) hmem))
      rw [heq] at hfile
      rcases hl.written.files name file hfile with hhidden | ⟨seq, message, data, hlt, hseq, -, -, hdata⟩
      · rw [hname] at hhidden
        cases hhidden
      · rw [hfile, hdata, hseq, parseUint_fileName (hlt.trans hnext), hasSuffix_fileName] at hother
        simp at hother
    · exact .inr (.inr hentry)
  | removed hbad hdisk =>
    rw [if_pos (henv name)] at hdisk
    subst hdisk
    refine ⟨fun name' file hfile ↦ ?_, fun e he ↦ ?_⟩
    · rcases hs.files name' file (lookup_erase_le hfile) with hhidden | hmem | hentry
      · exact .inl hhidden
      · refine .inr (.inl (hrest (fun heq ↦ ?_) hmem))
        have hnone : (s.disk.erase name).lookup name = none :=
          (lookup_erase_ite _ _ _).trans (if_pos rfl)
        rw [heq] at hfile
        exact nomatch hnone.symm.trans hfile
      · exact .inr (.inr hentry)
    · refine (hs.kept e he).of_lookup ?_
      have hne : fileName e.seq ≠ name := fun heq ↦ hl.done e he (heq ▸ mem_cons_self)
      exact (lookup_erase_ite _ _ _).trans (if_neg hne)
  | @taken seq message size hname hseq hread hid hnew =>
    obtain ⟨heq, hlt⟩ := hl.written.seq_eq hnext hname hseq hread
    refine ⟨fun name' file hfile ↦ ?_, fun e he ↦ ?_⟩
    · rcases hs.files name' file hfile with hhidden | hmem | ⟨e, he, hname'⟩
      · exact .inl hhidden
      · rcases mem_cons.mp hmem with hsame | hmem
        · refine .inr (.inr ⟨entryOf seq message size name, ?_, hsame.trans heq⟩)
          exact mem_append_right _ (mem_singleton_self _)
        · exact .inr (.inl hmem)
      · exact .inr (.inr ⟨e, mem_append_left _ he, hname'⟩)
    · rcases mem_append.mp he with he | he
      · exact hs.kept e he
      rw [mem_singleton.mp he]
      obtain ⟨file, hfile, hdata, hsize⟩ := readBatch_lookup hread
      rcases hl.written.files name file hfile with
        hhidden | ⟨-, message', data, -, -, hmarshal, hid', hcontent⟩
      · rw [hname] at hhidden
        cases hhidden
      rw [hcontent] at hdata hsize hfile
      have hsame : message' = message :=
        Except.ok.inj ((codec.unmarshal_marshal message' data hmarshal).symm.trans hdata)
      rw [hsame] at hmarshal hid'
      rw [heq] at hfile
      refine ⟨message, data, hmarshal, hid', ?_, hfile⟩
      rw [hsize, heq]
      rfl

theorem Exact.taken (h : Exact codec batches s.disk) (hn : Numbers next batches)
    (henv : ∀ path, env.reads path) {size : Int}
    (hname : hidden name = false) (hseq : parseUint (trimSuffix name) = some seq)
    (hread : readBatch codec env s.disk name = .ok (message, size)) :
    entryOf seq message size name ∈ batches := by
  obtain ⟨file, hfile, -, -⟩ := readBatch_lookup hread
  rcases h.files name file hfile with hhidden | ⟨e, he, heq⟩
  · rw [hname] at hhidden
    cases hhidden
  obtain ⟨message', size', hread', hentry, -⟩ := (h.kept e he).readBatch henv
  rw [heq, parseUint_fileName ((hn.below e he).trans hn.fits)] at hseq
  rw [heq, hread'] at hread
  obtain ⟨rfl, rfl⟩ : message' = message ∧ size' = size := by simpa using hread
  rw [heq, ← Option.some.inj hseq, ← hentry]
  exact he

theorem Regained.name_ne (hs : Regained codec batches (name :: rest) s)
    (hids : (batches.map (·.batchId)).Nodup) (henv : ∀ path, env.reads path)
    (hl : Loaded codec next (name :: rest) s) (hbad : Unfit codec env s name) :
    ∀ entry ∈ batches, fileName entry.seq ≠ name := by
  intro e he heq
  obtain ⟨message, size, hread, hentry, hid⟩ := (hs.exact.kept e he).readBatch henv
  rw [heq] at hread
  rcases hbad with hhidden | ⟨err, herr⟩ | ⟨message', size', hread', hdrop⟩
  · exact fileName_ne_of_hidden hhidden _ heq
  · rw [herr] at hread
    cases hread
  rw [hread] at hread'
  cases hread'
  rcases hdrop with hempty | hknown
  · exact hid hempty
  obtain ⟨e', he'⟩ := isSome_iff_exists.mp hknown
  obtain ⟨hmem, hsame⟩ := (hl.indexed.byBatch _ e').mp he'
  have heid : e.batchId = batchID message := by
    rw [hentry]
    rfl
  have hsame' : e' = e :=
    inj_on_of_nodup_map hids (hs.subset e' hmem) he (hsame.trans heid.symm)
  rw [hsame'] at hmem
  exact hl.done e hmem (heq ▸ mem_cons_self)

theorem regained_round (hn : Numbers next batches) (hids : (batches.map (·.batchId)).Nodup)
    (henv : ∀ path, env.reads path) (hl : Loaded codec next (name :: rest) s)
    (hs : Regained codec batches (name :: rest) s) (h : Round codec env name s t) :
    Regained codec batches rest t := by
  have hleft : (∀ entry ∈ batches, fileName entry.seq ≠ name) →
      ∀ entry ∈ batches, entry ∈ s.spool.entries ∨ fileName entry.seq ∈ rest := by
    intro hne e he
    refine (hs.left e he).imp_right fun hmem ↦ ?_
    exact (mem_cons.mp hmem).resolve_left (hne e he)
  cases h with
  | skipped hname hother =>
    refine ⟨hs.exact, hs.subset, hleft fun e he heq ↦ ?_⟩
    obtain ⟨message, data, -, -, -, hfile⟩ := hs.exact.kept e he
    rw [← heq, hfile, parseUint_fileName ((hn.below e he).trans hn.fits), hasSuffix_fileName]
      at hother
    simp at hother
  | removed hbad hdisk =>
    have hne := hs.name_ne hids henv hl hbad
    refine ⟨?_, hs.subset, hleft hne⟩
    rw [hdisk]
    split
    · exact hs.exact.erase_other hne
    · exact hs.exact
  | @taken seq message size hname hseq hread hid hnew =>
    have hmem := hs.exact.taken hn henv hname hseq hread
    obtain ⟨heq, -⟩ := hl.written.seq_eq hn.fits hname hseq hread
    refine ⟨hs.exact, fun e he ↦ ?_, fun e he ↦ ?_⟩
    · rcases mem_append.mp he with he | he
      · exact hs.subset e he
      · rw [mem_singleton.mp he]
        exact hmem
    · rcases hs.left e he with hdone | hrest
      · exact .inl (mem_append_left _ hdone)
      rcases mem_cons.mp hrest with hsame | hrest
      · left
        rw [hn.eq_of_fileName he hmem (hsame.trans heq)]
        exact mem_append_right _ (mem_singleton_self _)
      · exact .inr hrest

theorem eq_of_mem_iff {l l' : List Entry} (h : l.Pairwise fun a b ↦ a.seq < b.seq)
    (h' : l'.Pairwise fun a b ↦ a.seq < b.seq) (hmem : ∀ e, e ∈ l ↔ e ∈ l') : l = l' := by
  have hne : ∀ {a b : Entry}, a.seq < b.seq → a ≠ b := fun hlt heq ↦ hlt.ne (congrArg _ heq)
  have hperm : l.Perm l' := (perm_ext_iff_of_nodup (h.imp hne) (h'.imp hne)).mpr hmem
  exact hperm.eq_of_pairwise (fun a b _ _ hab hba ↦ absurd hab (lt_asymm hba)) h h'

/-- `Open` on a directory that a spool wrote, when every remove succeeds, leaves
the files of the batches it indexed. -/
theorem index_exact (hnext : next < 2 ^ 64) {disk : Table FileName File}
    (h : Written codec next disk) (henv : ∀ path, env.removes path) (limits : Limits) :
    Exact codec (index codec env ⟨newSpool limits, disk, []⟩).state.spool.entries
      (index codec env ⟨newSpool limits, disk, []⟩).state.disk := by
  have hstart : Cleared codec (readDir disk) ⟨newSpool limits, disk, []⟩ := by
    refine ⟨fun name file hfile ↦ .inr (.inl ?_), fun _ he ↦ (not_mem_nil he).elim⟩
    refine (mem_insertionSort _).mpr (AList.mem_keys.mp ?_)
    exact AList.lookup_isSome.mp (isSome_iff_exists.mpr ⟨file, hfile⟩)
  have hspec : Sat (index codec env) ⟨newSpool limits, disk, []⟩ _ _ :=
    index_spec (I := fun rest s ↦ Loaded codec next rest s ∧ Cleared codec rest s)
      (fun hs hround ↦ ⟨hround.loaded hnext hs.1, cleared_round hnext henv hs.1 hs.2 hround⟩)
      ⟨loaded_newSpool h limits, hstart⟩
  obtain ⟨u, ⟨-, hu⟩, heq⟩ := hspec.ends
  rw [heq]
  refine ⟨fun name file hfile ↦ ?_, fun e he ↦ hu.kept e ((mem_insertionSort _).mp he)⟩
  rcases hu.files name file hfile with hhidden | hnil | ⟨e, he, hname⟩
  · exact .inl hhidden
  · exact (not_mem_nil hnil).elim
  · exact .inr ⟨e, (mem_insertionSort _).mpr he, hname⟩

/-- `Open` on a directory that holds exactly `batches` finds them, in order, and
an interruption of it leaves such a directory. -/
theorem index_regains (hn : Numbers next batches) (hpos : 0 < next)
    (hids : (batches.map (·.batchId)).Nodup) {disk : Table FileName File}
    (h : Exact codec batches disk) (henv : ∀ path, env.reads path) (limits : Limits) :
    Sat (index codec env) ⟨newSpool limits, disk, []⟩ (fun t ↦ Exact codec batches t.disk) fun _ t ↦
      t.spool.entries = batches ∧ Exact codec batches t.disk := by
  have hstart : Regained codec batches (readDir disk) ⟨newSpool limits, disk, []⟩ := by
    refine ⟨h, fun _ he ↦ (not_mem_nil he).elim, fun e he ↦ .inr ?_⟩
    obtain ⟨message, data, -, -, -, hfile⟩ := h.kept e he
    refine (mem_insertionSort _).mpr (AList.mem_keys.mp ?_)
    exact AList.lookup_isSome.mp (isSome_iff_exists.mpr ⟨_, hfile⟩)
  have hspec : Sat (index codec env) ⟨newSpool limits, disk, []⟩ _ _ :=
    index_spec (I := fun rest s ↦ Loaded codec next rest s ∧ Regained codec batches rest s)
      (fun hs hround ↦ ⟨hround.loaded hn.fits hs.1, regained_round hn hids henv hs.1 hs.2 hround⟩)
      ⟨loaded_newSpool (h.written hn hpos) limits, hstart⟩
  refine hspec.mono ?_ ?_
  · rintro t ⟨rest, u, ⟨-, hu⟩, ht⟩
    rw [ht]
    exact hu.exact
  rintro - t ⟨u, ⟨hl, hu⟩, rfl⟩
  refine ⟨?_, hu.exact⟩
  refine eq_of_mem_iff hl.ordered.seqs hn.seqs fun e ↦ ?_
  refine (mem_insertionSort _).trans ?_
  exact ⟨hu.subset e, fun he ↦ (hu.left e he).resolve_right not_mem_nil⟩

end

end AnixAgent.ReportSpool.Directory
