import AnixAgent.ReportSpool.Accounting
import AnixAgent.ReportSpool.Directory

namespace AnixAgent.ReportSpool.Recovery

open Machine FileNames Calls Invariant Indexing History Accounting Directory Lib.Crash Lib.Tables List
open Lib.Crash.Proc

def inMemory (s : Spool) : List Entry :=
  (s.byBatch.entries.map (·.2)).insertionSort fun a b ↦ a.seq ≤ b.seq

structure Listed (byBatch : Table String Entry) (batches : List Entry) : Prop where
  lookup : ∀ id entry, byBatch.lookup id = some entry ↔ entry ∈ batches ∧ entry.batchId = id
  ids : (batches.map (·.batchId)).Nodup
  seqs : batches.Pairwise fun a b ↦ a.seq < b.seq

theorem Listed.inMemory_eq {s : Spool} {batches : List Entry} (h : Listed s.byBatch batches) :
    inMemory s = batches := by
  have hentry : ∀ x : (_ : String) × Entry, x ∈ s.byBatch.entries ↔
      x.2 ∈ batches ∧ x.2.batchId = x.1 := fun x ↦
    AList.mem_lookup_iff.symm.trans (h.lookup x.1 x.2)
  have hmem : ∀ e, e ∈ s.byBatch.entries.map (·.2) ↔ e ∈ batches := by
    intro e
    rw [mem_map]
    constructor
    · rintro ⟨x, hx, rfl⟩
      exact ((hentry x).mp hx).1
    · exact fun he ↦ ⟨⟨e.batchId, e⟩, (hentry _).mpr ⟨he, rfl⟩, rfl⟩
  have hnodup : (s.byBatch.entries.map (·.2)).Nodup := by
    refine Nodup.map_on (fun x hx y hy hxy ↦ ?_) s.byBatch.nodupKeys.nodup
    have hx' := ((hentry x).mp hx).2
    have hy' := ((hentry y).mp hy).2
    exact Sigma.ext (hx'.symm.trans ((congrArg _ hxy).trans hy')) (heq_of_eq hxy)
  have hperm : (s.byBatch.entries.map (·.2)).Perm batches :=
    (perm_ext_iff_of_nodup hnodup (h.ids.of_map _)).mpr hmem
  have hseqs : ((s.byBatch.entries.map (·.2)).map (·.seq)).Nodup :=
    ((hperm.map _).nodup_iff).mpr (pairwise_map.mpr (h.seqs.imp Nat.ne_of_lt))
  refine eq_of_mem_iff (pairwise_sort hseqs) h.seqs fun e ↦ ?_
  exact (mem_insertionSort _).trans (hmem e)

/-- What the directory holds when `call` is interrupted: the batches in memory, or
also the one whose rename is done, or all but one whose file is gone. -/
inductive Left (codec : Codec) (call : Call) (t : State) : List Entry → Prop
  | same {batches : List Entry} (hlisted : Listed t.spool.byBatch batches)
      (hexact : Exact codec batches t.disk) : Left codec call t batches
  | renamed {batches : List Entry} {message : AgentToControl} {new : Entry}
      (hcall : call = .append message) (hid : new.batchId = batchID message)
      (hlisted : Listed t.spool.byBatch batches) (hexact : Exact codec (batches ++ [new]) t.disk) :
      Left codec call t (batches ++ [new])
  | removed {before after : List Entry} {entry : Entry}
      (hlisted : Listed t.spool.byBatch (before ++ entry :: after))
      (hgone : t.disk.lookup entry.path = none)
      (hexact : Exact codec (before ++ after) t.disk) : Left codec call t (before ++ after)

def CrashPoint (codec : Codec) (call : Call) (next : Nat) (t : State) : Prop :=
  ∃ batches, Left codec call t batches ∧ Numbers next batches ∧ (batches.map (·.batchId)).Nodup

structure Safe (codec : Codec) (limits : Limits) (next : Nat) (batches : List Entry) (s : State) :
    Prop where
  contract : Contract limits batches s
  exact : Exact codec batches s.disk
  nextSeq : s.spool.nextSeq ≤ next
  fits : next < 2 ^ 64

variable {s t u : State}

section

variable {codec : Codec} {limits : Limits} {next : Nat} {batches before after : List Entry}
variable {entry : Entry} {s : State} {call : Call} {env : Env}

section

variable (h : Safe codec limits next batches s)
include h

theorem Safe.numbers : Numbers next batches :=
  ⟨h.contract.ordered.seqs, fun e he ↦ (h.contract.ordered.nextSeq e he).trans_le h.nextSeq, h.fits⟩

theorem Safe.listed : Listed s.spool.byBatch batches :=
  ⟨h.contract.indexed.byBatch, h.contract.indexed.ids, h.contract.ordered.seqs⟩

theorem Safe.crashPoint : CrashPoint codec call next s :=
  ⟨batches, .same h.listed h.exact, h.numbers, h.contract.indexed.ids⟩

theorem Safe.renumber {next' : Nat} (hle : s.spool.nextSeq ≤ next') (hfits : next' < 2 ^ 64) : Safe codec limits next' batches s :=
  ⟨h.contract, h.exact, hle, hfits⟩

end

theorem Safe.discarded (h : Safe codec limits next (before ++ entry :: after) s)
    (henv : ∀ path, env.removes path) :
    Sat (discard env entry) s (CrashPoint codec call next) fun _ t ↦
      Safe codec limits next (before ++ after) t := by
  have hpath : entry.path = fileName entry.seq := (h.exact.kept entry (by simp)).path_eq
  have hexact : Exact codec (before ++ after) (s.disk.erase entry.path) := by
    rw [hpath]
    exact h.exact.removed h.numbers
  have hcontract : Contract limits (before ++ after)
      { s with spool := without s.spool entry, disk := s.disk.erase entry.path } :=
    h.contract.without rfl
  have hsafe : Safe codec limits next (before ++ after)
      { s with spool := without s.spool entry, disk := s.disk.erase entry.path } :=
    ⟨hcontract, hexact, h.nextSeq, h.fits⟩
  refine .bind (.act ?_ ?_) <;> rw [if_pos (henv entry.path)]
  · refine ⟨_, .removed h.listed ?_ hexact, hsafe.numbers, hcontract.indexed.ids⟩
    exact (lookup_erase_ite _ _ _).trans (if_pos rfl)
  · refine .bind (.act ⟨_, .same ?_ hexact, hsafe.numbers, hcontract.indexed.ids⟩ ?_)
    · exact ⟨hcontract.indexed.byBatch, hcontract.indexed.ids, hcontract.ordered.seqs⟩
    · exact .act hsafe.crashPoint hsafe

theorem Safe.congr (h : Safe codec limits next batches s)
    (hbyBatch : t.spool.byBatch = s.spool.byBatch) (hbytes : t.spool.bytes = s.spool.bytes)
    (hnext : t.spool.nextSeq = s.spool.nextSeq) (hlimits : t.spool.limits = s.spool.limits)
    (hdisk : t.disk = s.disk) : Safe codec limits next batches t where
  contract := h.contract.congr hbyBatch hbytes hnext hlimits
  exact := hdisk ▸ h.exact
  nextSeq := hnext.le.trans h.nextSeq
  fits := h.fits

theorem Safe.sheds (henv : ∀ path, env.removes path) (call : Call) :
    Sheds env (CrashPoint codec call next) (Safe codec limits next) where
  point h := h.crashPoint
  entries _ h := h.congr rfl rfl rfl rfl rfl
  drop reason h := by
    refine .act (Safe.crashPoint (h.congr ?_ ?_ ?_ ?_ ?_)) (Safe.discarded (h.congr ?_ ?_ ?_ ?_ ?_)
      henv) <;> rfl

theorem Safe.stored {message : AgentToControl} {data : List UInt8}
    (h : Indexed s.spool s.spool.entries) (hu : Safe codec limits next u.spool.entries u)
    (hroom : Room codec message data s u) (hnext : s.spool.nextSeq + 1 = next) (env : Env) :
    Sat (storeBatch env message data) u (CrashPoint codec (.append message) next) fun _ t ↦
      Safe codec limits next t.spool.entries t := by
  rw [← hroom.rest.nextSeq] at hnext
  have hfits := hu.fits
  have hmod : (u.spool.nextSeq + 1) % 2 ^ 64 = next := by
    rw [hnext]
    exact Nat.mod_eq_of_lt hfits
  set new := entryOf u.spool.nextSeq message data.length (fileName u.spool.nextSeq) with hnew
  set full := Invariant.stored u.spool new ((u.spool.nextSeq + 1) % 2 ^ 64) with hfull
  have hcontract : ∀ disk, Contract limits (u.spool.entries ++ [new])
      { u with spool := full, disk := disk } := by
    intro disk
    rw [hfull, hmod, ← hnext]
    exact hu.contract.add (h.unknown hroom.unknown hroom.rest) rfl disk
  have hnumbers : Numbers u.spool.nextSeq u.spool.entries :=
    ⟨hu.contract.ordered.seqs, hu.contract.ordered.nextSeq, by omega⟩
  have hrename : ∀ disk, Exact codec u.spool.entries disk →
      Exact codec (u.spool.entries ++ [new]) (disk.insert (fileName u.spool.nextSeq) ⟨true, data⟩) :=
    fun disk hdisk ↦ hdisk.renamed hnumbers hroom.marshalled hroom.id
  have hsafe : ∀ {disk}, Exact codec (u.spool.entries ++ [new]) disk →
      Safe codec limits next (u.spool.entries ++ [new]) { u with spool := full, disk := disk } :=
    fun hdisk ↦ ⟨hcontract _, hdisk, hmod.le, hfits⟩
  have hfailed : ∀ disk, Exact codec u.spool.entries disk →
      Safe codec limits next u.spool.entries { u with disk := disk } :=
    fun disk hdisk ↦ ⟨hu.contract.congr rfl rfl rfl rfl, hdisk, hu.nextSeq, hfits⟩
  have hwritten : ∀ {t : State}, Listed t.spool.byBatch u.spool.entries →
      Exact codec (u.spool.entries ++ [new]) t.disk →
      CrashPoint codec (.append message) next t := by
    intro t hlisted hdisk
    exact ⟨_, .renamed rfl rfl hlisted hdisk, (hsafe hdisk).numbers, (hcontract t.disk).indexed.ids⟩
  refine .bind (.look (.bind ?_))
  refine (writeFile_spec (I := Exact codec u.spool.entries)
    (fun _ _ file hname hdisk ↦ hdisk.insert_hidden hname file)
    (fun _ _ hname hdisk ↦ hdisk.erase_other fun entry _ ↦
        fileName_ne_of_hidden hname entry.seq) hrename env hu.exact).mono ?_ ?_
  · rintro t ⟨disk, rfl, hdisk | hdisk⟩
    · exact (hfailed disk hdisk).crashPoint
    · exact hwritten hu.listed hdisk
  rintro answer t ⟨disk, rfl, ⟨⟨err, rfl⟩, hdisk⟩ | ⟨rfl, hdisk⟩⟩
  · exact .pure (hfailed disk hdisk)
  refine .bind (.act (hwritten hu.listed hdisk) (.bind (.act (hwritten hu.listed hdisk) ?_)))
  refine .bind (.act ?_ (.bind (.act ?_ (.pure ?_))))
  · refine ⟨_, .same ?_ hdisk, (hsafe hdisk).numbers, (hcontract disk).indexed.ids⟩
    exact (hsafe hdisk).listed
  · exact (hsafe hdisk).crashPoint
  · exact hsafe hdisk

theorem perform_safe (h : Safe codec limits next s.spool.entries s)
    (henv : ∀ path, env.removes path) (call : Call)
    (hnext : s.spool.nextSeq + call.cost = next) :
    Sat (perform codec env call) s (CrashPoint codec call next) fun _ t ↦
      Safe codec limits next t.spool.entries t := by
  have hsheds : Sheds env (CrashPoint codec call next) (Safe codec limits next) :=
    Safe.sheds henv call
  cases call with
  | append message =>
    refine .bind ((hsheds.append (Q := fun _ t ↦ Safe codec limits next t.spool.entries t) h
      (fun _ _ ↦ h) fun hu hroom ↦ ?_).mono (fun _ h ↦ h) fun _ t ht ↦ .pure ht)
    exact Safe.stored h.contract.indexed hu hroom hnext env
  | pending =>
    exact .bind ((hsheds.pending h).mono (fun _ h ↦ h) fun _ t ht ↦ .pure ht.1)
  | read id =>
    refine .bind ((read_eq codec env id s).mono (fun _ h ↦ h) fun _ t ht ↦ .pure ?_)
    rw [ht]
    exact h
  | remove id =>
    refine .bind ((hsheds.remove id (Q := fun _ t ↦ Safe codec limits next t.spool.entries t)
      ?_ (fun _ ↦ h) ?_ (fun _ ht _ ↦ ht)).mono (fun _ h ↦ h) fun _ t ht ↦ .pure ht)
    · exact fun entry hentry ↦ ((h.contract.indexed.byBatch id entry).mp hentry).1
    · intro before entry after _ hsplit
      rw [hsplit] at h
      exact h.discarded henv

end

theorem Left.exact {codec : Codec} {call : Call} {batches : List Entry}
    (h : Left codec call t batches) : Exact codec batches t.disk := by
  cases h with
  | same _ hexact | renamed _ _ _ hexact | removed _ _ hexact => exact hexact

theorem Safe.crashPoint_of_mem {codec : Codec} {limits : Limits} {env : Env} {call : Call}
    (h : Safe codec limits s.spool.nextSeq s.spool.entries s)
    (henv : ∀ path, env.removes path) (hnext : s.spool.nextSeq + call.cost < 2 ^ 64)
    (ht : t ∈ s :: (perform codec env call s).points) :
    CrashPoint codec call (s.spool.nextSeq + call.cost) t := by
  have hsafe := h.renumber (Nat.le_add_right _ _) hnext
  rcases mem_cons.mp ht with rfl | ht
  · exact hsafe.crashPoint
  · exact (perform_safe hsafe henv call rfl).points t ht

/-- `Open` after a crash. It can be interrupted in turn, and started again. -/
inductive Reopened (codec : Codec) : Table FileName File → State → Prop
  | opened {disk : Table FileName File} {env : Env} {dir : String} {limits : Limits}
      {access : Option String} {s : State} (hremoves : ∀ path, env.removes path = true)
      (hreads : ∀ path, env.reads path = true)
      (hopen : openSpool codec env dir limits access disk = .ok s) : Reopened codec disk s
  | interrupted {disk : Table FileName File} {env : Env} {limits : Limits} {s t : State}
      (hremoves : ∀ path, env.removes path = true) (hreads : ∀ path, env.reads path = true)
      (hpoint : t ∈ (index codec env ⟨newSpool limits, disk, []⟩).points)
      (hagain : Reopened codec t.disk s) : Reopened codec disk s

/-- The states of a spool between two calls, since the directory `disk` was first
opened: every remove succeeds, writes can fail, and a call can be interrupted at
any point and the directory opened again. -/
inductive Running (codec : Codec) (disk : Table FileName File) : State → Prop
  | opened {env : Env} {dir : String} {limits : Limits} {access : Option String} {s : State}
      (hremoves : ∀ path, env.removes path = true)
      (hopen : openSpool codec env dir limits access disk = .ok s) : Running codec disk s
  | performed {env : Env} {call : Call} {s : State} (hrun : Running codec disk s)
      (hremoves : ∀ path, env.removes path = true)
      (hnext : s.spool.nextSeq + call.cost < 2 ^ 64) :
      Running codec disk (perform codec env call s).state
  | crashed {env : Env} {call : Call} {s t u : State} (hrun : Running codec disk s)
      (hremoves : ∀ path, env.removes path = true)
      (hnext : s.spool.nextSeq + call.cost < 2 ^ 64)
      (hpoint : t ∈ s :: (perform codec env call s).points) (hagain : Reopened codec t.disk u) :
      Running codec disk u

section

variable {codec : Codec} {next : Nat} {batches : List Entry} {disk : Table FileName File}

theorem Reopened.safe (hu : Reopened codec disk u) (h : Exact codec batches disk)
    (hn : Numbers next batches) (hids : (batches.map (·.batchId)).Nodup) :
    u.spool.entries = batches ∧ ∃ limits, Safe codec limits u.spool.nextSeq u.spool.entries u := by
  have hn' : Numbers (max next 1) batches :=
    ⟨hn.seqs, fun e he ↦ (hn.below e he).trans_le (le_max_left _ _), max_lt hn.fits (by norm_num)⟩
  have hpos : 0 < max next 1 := Nat.lt_of_lt_of_le Nat.one_pos (le_max_right _ _)
  induction hu with
  | opened hremoves hreads hopen =>
    obtain ⟨limits, -, -, rfl⟩ := openSpool_eq hopen
    obtain ⟨hentries, hexact⟩ := (index_regains hn' hpos hids h hreads limits).ends
    obtain ⟨hcontract, hle⟩ := index_contract hn'.fits (h.written hn' hpos) _ limits
    refine ⟨hentries, limits, hcontract, ?_, le_rfl, hle.trans_lt hn'.fits⟩
    rw [hentries]
    exact hexact
  | interrupted hremoves hreads hpoint hagain ih =>
    exact ih ((index_regains hn' hpos hids h hreads _).points _ hpoint)

theorem Running.safe (hs : Running codec disk s) (h : Written codec next disk)
    (hnext : next < 2 ^ 64) : ∃ limits, Safe codec limits s.spool.nextSeq s.spool.entries s := by
  induction hs with
  | opened hremoves hopen =>
    obtain ⟨limits, -, -, rfl⟩ := openSpool_eq hopen
    obtain ⟨hcontract, hle⟩ := index_contract hnext h _ limits
    exact ⟨limits, hcontract, index_exact hnext h hremoves limits, le_rfl, hle.trans_lt hnext⟩
  | performed hrun hremoves hcall ih =>
    obtain ⟨limits, hsafe⟩ := ih
    have hdone := (perform_safe (hsafe.renumber (Nat.le_add_right _ _) hcall) hremoves _ rfl).ends
    exact ⟨limits, hdone.renumber le_rfl (hdone.nextSeq.trans_lt hcall)⟩
  | crashed hrun hremoves hcall hpoint hagain ih =>
    obtain ⟨limits, hsafe⟩ := ih
    obtain ⟨batches, hleft, hn, hids⟩ := hsafe.crashPoint_of_mem hremoves hcall hpoint
    exact (hagain.safe hleft.exact hn hids).2

/-- What `Open` finds after a crash in `call`: the batches in memory, in order and
each once, or also the one that `call` was about to answer for, or all but one
whose file was already gone. -/
structure Recovered (call : Call) (t u : State) : Prop where
  batches : u.spool.entries = inMemory t.spool ∨
    (∃ message new, call = .append message ∧ new.batchId = batchID message ∧
      (t.disk.lookup new.path).isSome ∧ u.spool.entries = inMemory t.spool ++ [new]) ∨
    ∃ before entry after, inMemory t.spool = before ++ entry :: after ∧
      t.disk.lookup entry.path = none ∧ u.spool.entries = before ++ after
  once : (u.spool.entries.map (·.batchId)).Nodup

theorem Left.recovered {call : Call} (h : Left codec call t batches)
    (hids : (batches.map (·.batchId)).Nodup) (hu : u.spool.entries = batches) :
    Recovered call t u := by
  refine ⟨?_, hu ▸ hids⟩
  cases h with
  | same hlisted hexact => exact .inl (hu.trans hlisted.inMemory_eq.symm)
  | @renamed _ message new hcall hid hlisted hexact =>
    refine .inr (.inl ⟨message, new, hcall, hid, ?_, by rw [hlisted.inMemory_eq, hu]⟩)
    have hkept := hexact.kept new (mem_append_right _ (mem_singleton_self _))
    rw [hkept.path_eq]
    obtain ⟨message, data, -, -, -, hfile⟩ := hkept
    rw [hfile]
    rfl
  | @removed before after entry hlisted hgone hexact =>
    exact .inr (.inr ⟨before, entry, after, hlisted.inMemory_eq, hgone, hu⟩)

/-- A crash at any point of any call loses nothing, and no sequence number is used
for two pending batches, over any number of crashes, while the sequence numbers do
not wrap. -/
theorem crash_recovers {s : State} (hdisk : Written codec next disk) (hnext : next < 2 ^ 64)
    (hrun : Running codec disk s) {env : Env} (hremoves : ∀ path, env.removes path = true)
    (call : Call) (hcall : s.spool.nextSeq + call.cost < 2 ^ 64) :
    inMemory s.spool = s.spool.entries ∧
    (∀ t ∈ s :: (perform codec env call s).points, ∀ u, Reopened codec t.disk u →
      Recovered call t u) ∧
    ∀ new ∈ newlyStored call (perform codec env call s).value (perform codec env call s).state,
      ∀ entry ∈ inMemory s.spool, entry.seq ≠ new.seq := by
  obtain ⟨limits, hsafe⟩ := hrun.safe hdisk hnext
  refine ⟨hsafe.listed.inMemory_eq, ?_, ?_⟩
  · intro t ht u hu
    obtain ⟨batches, hleft, hn, hids⟩ := hsafe.crashPoint_of_mem hremoves hcall ht
    exact hleft.recovered hids (hu.safe hleft.exact hn hids).1
  intro new hnew entry hentry
  rw [hsafe.listed.inMemory_eq] at hentry
  have hlt := hsafe.contract.ordered.nextSeq entry hentry
  have hnumbers := (perform_numbers hsafe.contract.indexed codec env call hcall).ends
  rcases hnumbers with ⟨hnone, -⟩ | ⟨e, hone, hseq, -, -⟩
  · rw [hnone] at hnew
    exact (List.not_mem_nil hnew).elim
  · rw [hone, List.mem_singleton] at hnew
    rw [hnew, hseq]
    exact hlt.ne

end

def oneBatch : State :=
  (perform sampleCodec quiet (.append (batch "a"))
    (index sampleCodec quiet ⟨newSpool sampleLimits, ∅, []⟩).state).state

theorem crash_recovers_after_rename :
    ∃ t u, t ∈ oneBatch :: (perform sampleCodec quiet (.append (batch "b")) oneBatch).points ∧
      Reopened sampleCodec t.disk u ∧ Recovered (.append (batch "b")) t u ∧
      inMemory t.spool = [] ∧ u.spool.entries.map (·.batchId) = ["b"] := by
  have hopen : openSpool sampleCodec quiet "/spool" sampleLimits none ∅ =
      .ok (index sampleCodec quiet ⟨newSpool sampleLimits, ∅, []⟩).state := rfl
  have hrun : Running sampleCodec ∅ oneBatch :=
    .performed (.opened (fun _ ↦ rfl) hopen) (fun _ ↦ rfl) (by decide)
  obtain ⟨t, ht, hmemory, hentries⟩ :
      ∃ t ∈ (perform sampleCodec quiet (.append (batch "b")) oneBatch).points,
        inMemory t.spool = [] ∧ (index sampleCodec quiet
          ⟨newSpool sampleLimits, t.disk, []⟩).state.spool.entries.map (·.batchId) = ["b"] := by
    decide
  have hmem := List.mem_cons_of_mem oneBatch ht
  have hagain : openSpool sampleCodec quiet "/spool" sampleLimits none t.disk =
      .ok (index sampleCodec quiet ⟨newSpool sampleLimits, t.disk, []⟩).state := rfl
  have hreopened : Reopened sampleCodec t.disk _ := .opened (fun _ ↦ rfl) (fun _ ↦ rfl) hagain
  have hquiet : ∀ path, quiet.removes path = true := fun _ ↦ rfl
  have hrecovers := crash_recovers (written_empty sampleCodec) (by decide) hrun hquiet
    (.append (batch "b")) (by decide)
  exact ⟨t, _, hmem, hreopened, hrecovers.2.1 t hmem _ hreopened, hmemory, hentries⟩

def lastDisk : Table FileName File :=
  (∅ : Table FileName File).insert (fileName (2 ^ 64 - 1)) ⟨true, [1, 1]⟩

theorem written_lastDisk : Written sampleCodec (2 ^ 64) lastDisk := by
  refine ⟨by decide, fun name file hfile ↦ .inr ?_⟩
  rw [lastDisk, lookup_insert_ite] at hfile
  split at hfile
  · next heq =>
    exact ⟨2 ^ 64 - 1, batch "a", [1, 1], by decide, heq, rfl, by decide,
      (Option.some.inj hfile).symm⟩
  · cases hfile

theorem wrapped_sequence_reorders :
    Written sampleCodec (2 ^ 64) lastDisk ∧
    ∃ s u, openSpool sampleCodec quiet "/spool" ⟨10, 10 ^ 9, 5⟩ none lastDisk = .ok s ∧
      openSpool sampleCodec quiet "/spool" ⟨10, 10 ^ 9, 5⟩ none
        (perform sampleCodec quiet (.append (batch "b")) s).state.disk = .ok u ∧
      (perform sampleCodec quiet (.append (batch "b")) s).state.spool.entries.map (·.batchId) =
        ["a", "b"] ∧
      u.spool.entries.map (·.batchId) = ["b", "a"] := by
  refine ⟨written_lastDisk, _, _, rfl, rfl, ?_, ?_⟩ <;> decide

end AnixAgent.ReportSpool.Recovery
