import AnixAgent.ReportSpool.Calls

namespace AnixAgent.ReportSpool.Invariant

open Machine FileNames Calls Lib.Crash Lib.Tables List
open Lib.Crash.Proc

def totalSize (entries : List Entry) : Int := (entries.map (·.size)).sum

structure Indexed (s : Spool) (batches : List Entry) : Prop where
  ids : (batches.map (·.batchId)).Nodup
  byBatch : ∀ id entry, s.byBatch.lookup id = some entry ↔ entry ∈ batches ∧ entry.batchId = id
  bytes : s.bytes = totalSize batches

structure Ordered (s : Spool) (batches : List Entry) : Prop where
  seqs : batches.Pairwise fun a b ↦ a.seq < b.seq
  nextSeq : ∀ entry ∈ batches, entry.seq < s.nextSeq

def stored (s : Spool) (entry : Entry) (next : Nat) : Spool :=
  { s with
    entries := s.entries ++ [entry]
    byBatch := s.byBatch.insert entry.batchId entry
    bytes := s.bytes + entry.size
    nextSeq := next }

variable {batches' before after : List Entry}

section

variable {s : Spool} {batches : List Entry} {entry : Entry}

theorem totalSize_cons (entry : Entry) (entries : List Entry) :
    totalSize (entry :: entries) = entry.size + totalSize entries := by
  simp [totalSize]

theorem Indexed.perm (h : Indexed s batches) (hp : batches.Perm batches') :
    Indexed s batches' where
  ids := ((hp.map _).nodup_iff).mp h.ids
  byBatch id entry := by rw [h.byBatch, hp.mem_iff]
  bytes := by
    have hsum := (hp.map Entry.size).sum_eq
    exact h.bytes.trans hsum

theorem Indexed.tail (h : Indexed s (entry :: batches)) :
    Indexed (without s entry) batches where
  ids := (nodup_cons.mp h.ids).2
  byBatch id e := by
    have hnew : entry.batchId ∉ batches.map (·.batchId) := (nodup_cons.mp h.ids).1
    show (s.byBatch.erase entry.batchId).lookup id = some e ↔ _
    rw [lookup_erase_ite]
    split
    · next hid =>
      refine iff_of_false nofun fun ⟨he, heid⟩ ↦ hnew ?_
      rw [← hid, ← heid]
      exact mem_map_of_mem he
    · next hid =>
      rw [h.byBatch, mem_cons]
      refine and_congr_left fun heid ↦ or_iff_right ?_
      rintro rfl
      exact hid heid.symm
  bytes := by
    have hbytes := h.bytes
    rw [totalSize_cons] at hbytes
    show s.bytes - entry.size = totalSize batches
    omega

theorem Indexed.cons (h : Indexed s batches) (hnew : ∀ e ∈ batches, e.batchId ≠ entry.batchId)
    (next : Nat) : Indexed (stored s entry next) (entry :: batches) where
  ids := by
    refine nodup_cons.mpr ⟨fun hmem ↦ ?_, h.ids⟩
    obtain ⟨e, he, heid⟩ := mem_map.mp hmem
    exact hnew e he heid
  byBatch id e := by
    show (s.byBatch.insert entry.batchId entry).lookup id = some e ↔ _
    rw [lookup_insert_ite, mem_cons]
    split
    · next hid =>
      constructor
      · rintro ⟨⟩
        exact ⟨.inl rfl, hid.symm⟩
      · rintro ⟨rfl | he, heid⟩
        · rfl
        · exact absurd (heid.trans hid) (hnew e he)
    · next hid =>
      rw [h.byBatch]
      refine and_congr_left fun heid ↦ (or_iff_right ?_).symm
      rintro rfl
      exact hid heid.symm
  bytes := by
    rw [totalSize_cons, ← h.bytes]
    exact Int.add_comm _ _

theorem Indexed.add (h : Indexed s batches) (hnew : ∀ e ∈ batches, e.batchId ≠ entry.batchId)
    (next : Nat) : Indexed (stored s entry next) (batches ++ [entry]) :=
  (h.cons hnew next).perm (perm_append_singleton entry batches).symm

theorem Ordered.sublist (h : Ordered s batches)
    (hsub : batches'.Sublist batches) : Ordered s batches' :=
  ⟨h.seqs.sublist hsub, fun e he ↦ h.nextSeq e (hsub.subset he)⟩

theorem Ordered.add (h : Ordered s batches) (hseq : entry.seq = s.nextSeq) :
    Ordered (stored s entry (s.nextSeq + 1)) (batches ++ [entry]) where
  seqs := by
    refine pairwise_append.mpr ⟨h.seqs, pairwise_singleton _ _, fun e he e' he' ↦ ?_⟩
    rw [mem_singleton.mp he', hseq]
    exact h.nextSeq e he
  nextSeq e he := by
    show e.seq < s.nextSeq + 1
    rcases mem_append.mp he with he | he
    · exact (h.nextSeq e he).trans (Nat.lt_succ_self _)
    · rw [mem_singleton.mp he, hseq]
      exact Nat.lt_succ_self _

end

variable {s t u : State}

section

variable {I J : Table FileName File → Prop}

theorem writeFile_spec (hins : ∀ disk name file, hidden name → I disk → I (disk.insert name file))
    (hera : ∀ disk name, hidden name → I disk → I (disk.erase name)) {path : FileName}
    {data : List UInt8} (hren : ∀ disk, I disk → J (disk.insert path ⟨true, data⟩)) (env : Env)
    (h : I s.disk) :
    Sat (writeFile env path data) s (fun t ↦ ∃ disk, t = { s with disk := disk } ∧ (I disk ∨ J disk))
      fun answer t ↦ ∃ disk, t = { s with disk := disk } ∧
        ((∃ err, answer = .error err) ∧ I disk ∨ answer = .ok () ∧ J disk) := by
  have hname : hidden (temporaryName path env.random) := rfl
  have habandon : ∀ {disk}, I disk → Sat (abandon env (temporaryName path env.random))
      { s with disk := disk } (fun t ↦ ∃ disk, t = { s with disk := disk } ∧ (I disk ∨ J disk))
      fun answer t ↦ ∃ disk, t = { s with disk := disk } ∧
        ((∃ err, answer = .error err) ∧ I disk ∨ answer = .ok () ∧ J disk) := by
    intro disk hd
    refine .bind (.act ?_ (.pure ?_))
    · split
      · exact ⟨_, rfl, .inl (hera _ _ hname hd)⟩
      · exact ⟨_, rfl, .inl hd⟩
    · split
      · exact ⟨_, rfl, .inl ⟨⟨_, rfl⟩, hera _ _ hname hd⟩⟩
      · exact ⟨_, rfl, .inl ⟨⟨_, rfl⟩, hd⟩⟩
  have hmade := hins _ _ ⟨true, []⟩ hname h
  refine .bind (.look ?_)
  split
  · exact .pure ⟨_, rfl, .inl ⟨⟨_, rfl⟩, h⟩⟩
  refine .bind (.act ⟨_, rfl, .inl hmade⟩ ?_)
  split
  · exact habandon hmade
  split
  · have hpart := hins _ _ ⟨true, env.written⟩ hname hmade
    refine .bind (.act ⟨_, rfl, .inl hpart⟩ ?_)
    exact habandon hpart
  have hfull := hins _ _ ⟨true, data⟩ hname hmade
  refine .bind (.act ⟨_, rfl, .inl hfull⟩ ?_)
  split
  · exact habandon hfull
  have hdone := hren _ (hera _ _ hname hfull)
  exact .bind (.act ⟨_, rfl, .inr hdone⟩ (.pure ⟨_, rfl, .inr ⟨rfl, hdone⟩⟩))

end

theorem storeBatch_frame (env : Env) (message : AgentToControl) (data : List UInt8) (s : State) :
    Sat (storeBatch env message data) s (fun _ ↦ True) fun answer t ↦
      (answer ≠ .ok true ∧ ∃ disk, t = { s with disk := disk }) ∨
      (answer = .ok true ∧ ∃ disk, t = { s with
        spool := stored s.spool
          (entryOf s.spool.nextSeq message data.length (fileName s.spool.nextSeq))
          ((s.spool.nextSeq + 1) % 2 ^ 64)
        disk := disk }) := by
  refine .bind (.look (.bind ?_))
  refine (writeFile_spec (I := fun _ ↦ True) (J := fun _ ↦ True) (fun _ _ _ _ h ↦ h)
    (fun _ _ _ h ↦ h) (fun _ h ↦ h) env trivial).mono (fun _ _ ↦ trivial) ?_
  rintro answer t ⟨disk, rfl, ⟨⟨err, rfl⟩, -⟩ | ⟨rfl, -⟩⟩
  · exact .pure (.inl ⟨nofun, disk, rfl⟩)
  · refine .bind (.act trivial (.bind (.act trivial (.bind (.act trivial (.bind (.act trivial ?_)))))))
    exact .pure (.inr ⟨rfl, disk, rfl⟩)

structure Within (s : Spool) : Prop where
  bytes : s.bytes ≤ s.limits.maxBytes
  count : (s.entries.length : Int) ≤ s.limits.maxEntries

structure Contract (limits : Limits) (batches : List Entry) (s : State) : Prop where
  indexed : Indexed s.spool batches
  ordered : Ordered s.spool batches
  limits : s.spool.limits = limits

variable {limits : Limits}

theorem Contract.without {entry : Entry} (h : Contract limits (before ++ entry :: after) s)
    (ht : t.spool = without s.spool entry) : Contract limits (before ++ after) t := by
  have hsub : (before ++ after).Sublist (before ++ entry :: after) :=
    (Sublist.refl _).append (sublist_cons_self _ _)
  have hord := h.ordered.sublist hsub
  constructor <;> rw [ht]
  · exact (h.indexed.perm perm_middle).tail
  · exact ⟨hord.seqs, hord.nextSeq⟩
  · exact h.limits

theorem Contract.congr {batches : List Entry}
    (h : Contract limits batches s) (hbyBatch : t.spool.byBatch = s.spool.byBatch)
    (hbytes : t.spool.bytes = s.spool.bytes) (hnext : t.spool.nextSeq = s.spool.nextSeq)
    (hlimits : t.spool.limits = s.spool.limits) : Contract limits batches t where
  indexed := ⟨h.indexed.ids, by rw [hbyBatch]; exact h.indexed.byBatch,
    hbytes.trans h.indexed.bytes⟩
  ordered := ⟨h.ordered.seqs, by rw [hnext]; exact h.ordered.nextSeq⟩
  limits := hlimits.trans h.limits

theorem Contract.sheds (env : Env) (limits : Limits) :
    Sheds env (fun _ ↦ True) (Contract limits) where
  point _ := trivial
  entries _ h := h.congr rfl rfl rfl rfl
  drop reason h := by
    refine .act trivial ((discard_frame env _ _).mono (fun _ h ↦ h) ?_)
    rintro - t ⟨ht, -⟩
    refine Contract.without (h.congr ?_ ?_ ?_ ?_) ht <;> rfl

theorem Contract.removed {entry : Entry}
    (h : Contract limits (before ++ entry :: after) s) (env : Env) :
    Sat (discard env entry) s (fun _ ↦ True) fun _ t ↦ Contract limits (before ++ after) t := by
  refine (discard_frame env _ _).mono (fun _ h ↦ h) ?_
  rintro - t ⟨ht, -⟩
  exact h.without ht

theorem Indexed.unknown (h : Indexed s.spool s.spool.entries) {id : String}
    (hid : s.spool.byBatch.lookup id = none) (hrest : Rest s u) :
    ∀ e ∈ u.spool.entries, e.batchId ≠ id := by
  intro e he heq
  have hknown := (h.byBatch id e).mpr ⟨hrest.entries.subset he, heq⟩
  exact nomatch hid.symm.trans hknown

theorem Contract.add {entry : Entry} (h : Contract limits u.spool.entries u)
    (hnew : ∀ e ∈ u.spool.entries, e.batchId ≠ entry.batchId) (hseq : entry.seq = u.spool.nextSeq)
    (disk : Table FileName File) :
    Contract limits (u.spool.entries ++ [entry])
      { u with spool := stored u.spool entry (u.spool.nextSeq + 1), disk := disk } :=
  ⟨h.indexed.add hnew _, h.ordered.add hseq, h.limits⟩

theorem Contract.stored {codec : Codec} {message : AgentToControl}
    {data : List UInt8} (h : Contract limits s.spool.entries s)
    (hu : Contract limits u.spool.entries u) (hroom : Room codec message data s u)
    (hlimits : 0 < limits.maxEntries) (hnext : s.spool.nextSeq + 1 < 2 ^ 64) (env : Env) :
    Sat (storeBatch env message data) u (fun _ ↦ True) fun answer t ↦
      Contract limits t.spool.entries t ∧ t.spool.nextSeq ≤ s.spool.nextSeq + 1 ∧
        (answer = .ok true → Within t.spool) := by
  refine (storeBatch_frame env message data u).mono (fun _ h ↦ h) ?_
  rintro answer t (⟨hfail, disk, rfl⟩ | ⟨rfl, disk, rfl⟩)
  · refine ⟨hu.congr rfl rfl rfl rfl, ?_, fun hok ↦ absurd hok hfail⟩
    exact hroom.rest.nextSeq.le.trans (Nat.le_succ _)
  rw [← hroom.rest.nextSeq] at hnext ⊢
  rw [Nat.mod_eq_of_lt hnext]
  refine ⟨hu.add (h.indexed.unknown hroom.unknown hroom.rest) rfl disk, le_rfl, fun _ ↦ ?_⟩
  have hsize := hroom.size
  rw [← hu.limits] at hlimits
  suffices u.spool.bytes + data.length ≤ u.spool.limits.maxBytes ∧
      (u.spool.entries.length : Int) + 1 ≤ u.spool.limits.maxEntries by
    refine ⟨this.1, ?_⟩
    simpa [Invariant.stored] using this.2
  rcases hroom.room with hempty | hroom
  · have hbytes : u.spool.bytes = 0 := by
      rw [hu.indexed.bytes, hempty]
      rfl
    rw [hbytes, hempty]
    simp only [length_nil]
    omega
  · unfold overflow at hroom
    split at hroom
    · cases hroom
    · split at hroom
      · cases hroom
      · exact ⟨by omega, by omega⟩

end AnixAgent.ReportSpool.Invariant
