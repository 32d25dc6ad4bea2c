import AnixAgent.Plugins.Journal

namespace AnixAgent.Plugins.Replays

open Lib.Runs Lib.Tables Journal List Option

structure Binds (entry : JournalEntry) (x : Execution) : Prop where
  kind : entry.kind = x.kind
  plugin : entry.pluginID = x.envelope.pluginID
  version : entry.targetVersion = x.envelope.targetVersion
  revision : entry.revision = x.envelope.revision
  hash : fold entry.configHash = fold x.envelope.configHash
  materials : entry.secretMaterials.items.Perm x.envelope.secretMaterials.items

structure Same (x y : Execution) : Prop where
  kind : x.kind = y.kind
  plugin : x.envelope.pluginID = y.envelope.pluginID
  version : x.envelope.targetVersion = y.envelope.targetVersion
  revision : x.envelope.revision = y.envelope.revision
  hash : fold x.envelope.configHash = fold y.envelope.configHash
  materials : x.envelope.secretMaterials.items.Perm y.envelope.secretMaterials.items

variable {entry e : JournalEntry} {x : Execution}

theorem Binds.same {y : Execution} (hx : Binds entry x) (hy : Binds entry y) : Same x y where
  kind := hx.kind.symm.trans hy.kind
  plugin := hx.plugin.symm.trans hy.plugin
  version := hx.version.symm.trans hy.version
  revision := hx.revision.symm.trans hy.revision
  hash := hx.hash.symm.trans hy.hash
  materials := hx.materials.symm.trans hy.materials

theorem mem_of_digestOf {materials : List SecretMaterialAudit} {m : SecretMaterialAudit}
    (h : digestOf materials m.reference = m.sha256) (hne : m.sha256 ≠ "") : m ∈ materials := by
  unfold digestOf at h
  cases hfind : materials.find? fun x ↦ x.reference = m.reference with
  | none =>
    rw [hfind] at h
    exact absurd h.symm hne
  | some x =>
    rw [hfind] at h
    have href : x.reference = m.reference := by simpa using find?_some hfind
    obtain rfl : x = m := by
      cases x
      cases m
      simp_all
    exact mem_of_find?_eq_some hfind

theorem perm_of_match {audited materials : Materials}
    (h : journalSecretMaterialsMatch audited materials) :
    audited.items.Perm materials.items := by
  simp only [journalSecretMaterialsMatch, Bool.and_eq_true, decide_eq_true_eq,
    List.all_eq_true] at h
  have hsubset : audited.items ⊆ materials.items := fun m hm ↦
    mem_of_digestOf (h.2 m hm) (audited.hashed m hm)
  exact (subperm_of_subset audited.distinct.of_map hsubset).perm_of_length_le h.1.ge

variable {kind : Kind} {repair : Bool}

theorem binds_of_matches {e : Envelope}
    (h : journalMatches entry kind e) : Binds entry ⟨kind, e, repair⟩ := by
  simp only [journalMatches, Bool.and_eq_true, decide_eq_true_eq] at h
  obtain ⟨⟨⟨⟨⟨⟨⟨-, -⟩, hkind⟩, hplugin⟩, hversion⟩, hhash⟩, hrevision⟩, hmaterials⟩ := h
  exact ⟨hkind, hplugin, hversion, hrevision, hhash, perm_of_match hmaterials⟩

theorem binds_newJournalEntry (kind : Kind) (e : Envelope) (repair : Bool) :
    Binds (newJournalEntry kind e) ⟨kind, e, repair⟩ where
  kind := rfl
  plugin := rfl
  version := rfl
  revision := rfl
  hash := rfl
  materials := perm_insertionSort _ _

@[simp] theorem persist_journal (s : Supervisor) (w : Write) :
    (s.persist w).journal = s.journal := by
  unfold Supervisor.persist
  split <;> rfl

@[simp] theorem persist_running (s : Supervisor) (w : Write) :
    (s.persist w).running = s.running := by
  unfold Supervisor.persist
  split <;> rfl

@[simp] theorem persist_up (s : Supervisor) (w : Write) : (s.persist w).up = s.up := by
  unfold Supervisor.persist
  split <;> rfl

@[simp] theorem persist_log (s : Supervisor) (w : Write) : (s.persist w).log = s.log := by
  unfold Supervisor.persist
  split <;> rfl

theorem persist_disk (s : Supervisor) (w : Write) :
    (s.persist w).disk = s.disk ∨ (s.persist w).disk = s.journal := by
  unfold Supervisor.persist
  split
  · exact .inr rfl
  · exact .inl rfl

inductive Free (s : Supervisor) (kind : Kind) (e : Envelope) : Bool → Prop
  | unused : s.journal.lookup e.operationID = none → Free s kind e false
  | repair {previous : JournalEntry} : s.journal.lookup e.operationID = some previous →
      journalMatches previous kind e = true → previous.state = .interrupted → Free s kind e true

inductive Round (s : Supervisor) (kind : Kind) (e : Envelope) (w : Write) : Supervisor → Prop
  | answers : Round s kind e w s
  | interrupts {previous : JournalEntry} {t : Supervisor} :
      s.journal.lookup e.operationID = some previous → previous.state = .running →
      (∀ x ∈ s.running, x.operationID ≠ e.operationID) →
      t = { s with
        journal := s.journal.insert e.operationID
          (interrupt previous interruptedBeforeCompletion) }.persist w → Round s kind e w t
  | starts {repair : Bool} {t : Supervisor} : w = .done → Free s kind e repair →
      keyTaken s.journal e = false →
      t.journal = s.journal.insert e.operationID (newJournalEntry kind e) →
      t.disk = t.journal → t.running = s.running ++ [⟨kind, e, repair⟩] →
      t.log = s.log ++ [⟨kind, e, repair⟩] → t.up = s.up → Round s kind e w t
  | fails {repair : Bool} {t : Supervisor} : w ≠ .done → Free s kind e repair →
      keyTaken s.journal e = false →
      t.journal = (s.journal.insert e.operationID (newJournalEntry kind e)).erase e.operationID →
      (t.disk = s.disk ∨ t.disk = s.journal.insert e.operationID (newJournalEntry kind e)) →
      t.running = s.running → t.log = s.log → t.up = s.up → Round s kind e w t

variable {s t : Supervisor} {w : Write}

theorem round_begin {e : Envelope}
    (hfree : Free s kind e repair) : Round s kind e w (begin s kind e repair w).2 := by
  unfold begin
  cases hkey : keyTaken s.journal e with
  | true => exact .answers
  | false =>
    rw [if_neg Bool.false_ne_true]
    by_cases hw : w = .done
    · subst hw
      exact .starts rfl hfree hkey rfl rfl rfl rfl rfl
    simp only [if_neg hw]
    refine .fails hw hfree hkey ?_ ?_ ?_ ?_ ?_
    · simp only [persist_journal]
    · exact persist_disk _ w
    · simp only [persist_running]
    · simp only [persist_log]
    · simp only [persist_up]

theorem round_handle (s : Supervisor) (kind : Kind) (envelope : Envelope) (w : Write) :
    Round s kind envelope.lowered w (handle s kind envelope w).2 := by
  unfold handle
  simp only []
  cases hlookup : s.journal.lookup envelope.lowered.operationID with
  | none => exact round_begin (.unused hlookup)
  | some previous =>
    simp only []
    cases hmatch : journalMatches previous kind envelope.lowered with
    | false => exact .answers
    | true =>
      rw [if_neg Bool.true_eq_false.mp]
      cases hstate : previous.state with
      | succeeded | failed | unknown => exact .answers
      | interrupted => exact round_begin (.repair hlookup hmatch hstate)
      | running =>
        simp only []
        split
        · exact .answers
        · next hnone =>
          refine .interrupts hlookup hstate (fun x hx heq ↦ hnone ?_) rfl
          exact List.any_eq_true.mpr ⟨x, hx, decide_eq_true heq⟩

def Unique (j : Ledger) : Prop :=
  ∀ id id' e e', j.lookup id = some e → j.lookup id' = some e' →
    e.idempotencyKey = e'.idempotencyKey → id = id'

variable {j disk mid : Ledger} {id : String}

theorem Unique.insert (h : Unique j) (hfree : ∀ id' e', id' ≠ id → j.lookup id' = some e' →
      e'.idempotencyKey ≠ entry.idempotencyKey) : Unique (j.insert id entry) := by
  intro id₁ id₂ e₁ e₂ h₁ h₂ hkey
  rw [lookup_insert_ite] at h₁ h₂
  split at h₁ <;> split at h₂
  · next heq heq' => exact heq.trans heq'.symm
  · next heq hne =>
    cases h₁
    exact absurd hkey.symm (hfree id₂ e₂ hne h₂)
  · next hne heq =>
    cases h₂
    exact absurd hkey (hfree id₁ e₁ hne h₁)
  · exact h id₁ id₂ e₁ e₂ h₁ h₂ hkey

theorem Unique.replace (h : Unique j) (he : j.lookup id = some e)
    (hkey : entry.idempotencyKey = e.idempotencyKey) : Unique (j.insert id entry) :=
  h.insert fun id' e' hne he' heq ↦ hne (h id' id e' e he' he (heq.trans hkey))

theorem Unique.erase (h : Unique j) (id : String) : Unique (j.erase id) :=
  fun id₁ id₂ e₁ e₂ h₁ h₂ ↦ h id₁ id₂ e₁ e₂ (lookup_erase_le h₁) (lookup_erase_le h₂)

theorem idempotencyKey_loaded (e : JournalEntry) :
    (loaded e).idempotencyKey = e.idempotencyKey := by
  unfold loaded
  split <;> rfl

theorem lookup_loadJournal (h : (loadJournal disk).lookup id = some e) :
    ∃ e', disk.lookup id = some e' ∧ e = loaded e' := by
  unfold loadJournal at h
  rw [lookup_mapValues] at h
  obtain ⟨e', he', heq⟩ := map_eq_some_iff.mp h
  exact ⟨e', he', heq.symm⟩

theorem Unique.load (h : Unique disk) : Unique (loadJournal disk) := by
  intro id₁ id₂ e₁ e₂ h₁ h₂ hkey
  obtain ⟨e₁', h₁', rfl⟩ := lookup_loadJournal h₁
  obtain ⟨e₂', h₂', rfl⟩ := lookup_loadJournal h₂
  rw [idempotencyKey_loaded, idempotencyKey_loaded] at hkey
  exact h id₁ id₂ e₁' e₂' h₁' h₂' hkey

theorem free_of_not_keyTaken {e : Envelope} (h : keyTaken j e = false) :
    ∀ id' e', id' ≠ e.operationID → j.lookup id' = some e' →
      e'.idempotencyKey ≠ e.idempotencyKey := by
  intro id' e' hne hlookup heq
  have hany : keyTaken j e := by
    refine List.any_eq_true.mpr ⟨⟨id', e'⟩, AList.mem_lookup_iff.mp hlookup, ?_⟩
    simp only [decide_not, Bool.and_eq_true, Bool.not_eq_true', decide_eq_false_iff_not,
      decide_eq_true_eq]
    exact ⟨hne, heq⟩
  rw [h] at hany
  cases hany

def Kept (j j' : Ledger) : Prop :=
  ∀ id e, j.lookup id = some e → e.terminal = true → j'.lookup id = some e

theorem Kept.refl (j : Ledger) : Kept j j := fun _ _ h _ ↦ h

theorem Kept.trans {j' j'' : Ledger} (h : Kept j j') (h' : Kept j' j'') : Kept j j'' :=
  fun id e he hterminal ↦ h' id e (h id e he hterminal) hterminal

def Pending (j : Ledger) (id : String) : Prop := ∀ e, j.lookup id = some e → e.terminal = false

theorem Pending.of_state (h : j.lookup id = some e) (hs : e.state ≠ .succeeded)
    (hf : e.state ≠ .failed) : Pending j id := by
  intro e' he'
  rw [h] at he'
  cases he'
  simp [JournalEntry.terminal, hs, hf]

theorem Pending.ne {id' : String} (h : Pending j id)
    (he : j.lookup id' = some e) (hterminal : e.terminal) : id' ≠ id := by
  rintro rfl
  have hnot := h e he
  rw [hterminal] at hnot
  cases hnot

theorem Pending.kept_insert (h : Pending j id) (entry : JournalEntry) :
    Kept j (j.insert id entry) := by
  intro id' e he hterminal
  rw [lookup_insert_ite, if_neg (h.ne he hterminal)]
  exact he

theorem Pending.kept_erase (h : Pending j id) : Kept j (j.erase id) := by
  intro id' e he hterminal
  rw [lookup_erase_ite, if_neg (h.ne he hterminal)]
  exact he

theorem kept_erase_insert (h : entry.terminal = false) :
    Kept (j.insert id entry) ((j.insert id entry).erase id) := by
  refine Pending.kept_erase fun e he ↦ ?_
  rw [AList.lookup_insert] at he
  cases he
  exact h

theorem kept_loadJournal (disk : Ledger) : Kept disk (loadJournal disk) := by
  intro id e he hterminal
  unfold loadJournal
  rw [lookup_mapValues, he, map_some]
  unfold loaded
  rw [if_neg]
  intro hrunning
  simp [JournalEntry.terminal, hrunning] at hterminal

theorem Free.pending {e : Envelope}
    (h : Free s kind e repair) : Pending s.journal e.operationID := by
  cases h with
  | unused hlookup =>
    intro e' he'
    rw [hlookup] at he'
    cases he'
  | repair hlookup _ hstate =>
    exact .of_state hlookup (by simp [hstate]) (by simp [hstate])

structure Sound (s : Supervisor) : Prop where
  running : ∀ x ∈ s.running, ∃ e, s.journal.lookup x.operationID = some e ∧ e.state = .running
  journal : Unique s.journal
  disk : Unique s.disk
  durable : s.up = true → Kept s.disk s.journal

theorem sound_initial : Sound initial where
  running := fun _ h ↦ (not_mem_nil h).elim
  journal := fun _ _ _ _ h ↦ by cases h
  disk := fun _ _ _ _ h ↦ by cases h
  durable := fun h ↦ by cases h

def executions (s : Supervisor) (id : String) : List Execution :=
  s.log.filter fun x ↦ x.operationID = id

structure Advances (s t : Supervisor) : Prop where
  journal : Kept s.journal t.journal
  disk : t.disk = s.disk ∨ Kept s.journal t.disk
  log : ∀ id e, s.journal.lookup id = some e → e.terminal = true →
    executions t id = executions s id

/-- The critical sections share one form: the journal changes to `mid`, which may be written,
and then to that of `t`. -/
theorem Sound.section (h : Sound s) (hup : t.up = s.up)
    (hfirst : Kept s.journal mid) (hsecond : Kept mid t.journal) (hmid : Unique mid)
    (hjournal : Unique t.journal) (hdisk : t.disk = s.disk ∨ t.disk = mid)
    (hrunning : ∀ x ∈ t.running, ∃ e, t.journal.lookup x.operationID = some e ∧
      e.state = .running) : Sound t where
  running := hrunning
  journal := hjournal
  disk := by
    rcases hdisk with hdisk | hdisk
    · exact hdisk ▸ h.disk
    · exact hdisk ▸ hmid
  durable := by
    intro htup
    rcases hdisk with hdisk | hdisk
    · exact hdisk ▸ ((h.durable (hup ▸ htup)).trans hfirst).trans hsecond
    · exact hdisk ▸ hsecond

theorem Sound.persist (h : Sound s) (w : Write) : Sound (s.persist w) :=
  h.section (persist_up s w) (.refl _) ((persist_journal s w).symm ▸ .refl _) h.journal
    ((persist_journal s w).symm ▸ h.journal) (persist_disk s w) (by simpa using h.running)

theorem Sound.round {e : Envelope} (h : Sound s) (hround : Round s kind e w t) : Sound t := by
  cases hround with
  | answers => exact h
  | @interrupts previous _ hlookup hstate hnone ht =>
    subst ht
    have hpending : Pending s.journal e.operationID :=
      .of_state hlookup (by simp [hstate]) (by simp [hstate])
    have hunique : Unique (s.journal.insert e.operationID
        (interrupt previous interruptedBeforeCompletion)) := h.journal.replace hlookup rfl
    refine h.section (by simp) (hpending.kept_insert _) ?_ hunique ?_ (persist_disk _ w) ?_
    · rw [persist_journal]
      exact .refl _
    · rw [persist_journal]
      exact hunique
    intro x hx
    rw [persist_running] at hx
    rw [persist_journal, lookup_insert_ite, if_neg (hnone x hx)]
    exact h.running x hx
  | starts _ hfree hkey hjournal hdisk hrunning _ hup =>
    have hunique : Unique t.journal := by
      rw [hjournal]
      exact h.journal.insert (free_of_not_keyTaken hkey)
    refine h.section hup (hjournal ▸ hfree.pending.kept_insert _) (.refl _) hunique hunique
      (.inr hdisk) ?_
    intro x hx
    rw [hjournal, lookup_insert_ite]
    split
    · exact ⟨_, rfl, rfl⟩
    next hne =>
    rw [hrunning] at hx
    rcases mem_append.mp hx with hx | hx
    · exact h.running x hx
    · rw [mem_singleton.mp hx] at hne
      exact absurd rfl hne
  | fails _ hfree hkey hjournal hdisk hrunning _ hup =>
    have hunique : Unique (s.journal.insert e.operationID (newJournalEntry kind e)) :=
      h.journal.insert (free_of_not_keyTaken hkey)
    refine h.section hup (hfree.pending.kept_insert _) (hjournal ▸ kept_erase_insert rfl) hunique
      (hjournal ▸ hunique.erase _) hdisk ?_
    intro x hx
    rw [hrunning] at hx
    obtain ⟨entry, hentry, hstate⟩ := h.running x hx
    have hne : x.operationID ≠ e.operationID := by
      intro heq
      rw [heq] at hentry
      cases hfree with
      | unused hlookup => rw [hlookup] at hentry; cases hentry
      | repair hlookup _ hinterrupted =>
        rw [hlookup] at hentry
        cases hentry
        rw [hstate] at hinterrupted
        cases hinterrupted
    rw [hjournal, lookup_erase_ite, if_neg hne, lookup_insert_ite, if_neg hne]
    exact ⟨entry, hentry, hstate⟩

theorem Advances.refl (s : Supervisor) : Advances s s where
  journal := .refl _
  disk := .inl rfl
  log := fun _ _ _ _ ↦ rfl

theorem advances_persist (s : Supervisor) (w : Write) : Advances s (s.persist w) where
  journal := (persist_journal s w).symm ▸ .refl _
  disk := by
    rcases persist_disk s w with hdisk | hdisk
    · exact .inl hdisk
    · exact .inr (hdisk ▸ .refl _)
  log := fun id _ _ _ ↦ by rw [executions, persist_log, executions]

theorem advances_round {e : Envelope} (hround : Round s kind e w t) : Advances s t := by
  cases hround with
  | answers => exact .refl s
  | @interrupts previous _ hlookup hstate _ ht =>
    subst ht
    have hpending : Pending s.journal e.operationID :=
      .of_state hlookup (by simp [hstate]) (by simp [hstate])
    refine ⟨?_, ?_, fun id _ _ _ ↦ ?_⟩
    · rw [persist_journal]
      exact hpending.kept_insert _
    · rcases persist_disk { s with
        journal := s.journal.insert e.operationID
          (interrupt previous interruptedBeforeCompletion) } w with hdisk | hdisk
      · exact .inl hdisk
      · exact .inr (hdisk ▸ hpending.kept_insert _)
    · rw [executions, persist_log, executions]
  | starts _ hfree _ hjournal hdisk _ hlog _ =>
    refine ⟨hjournal ▸ hfree.pending.kept_insert _,
      .inr (hdisk ▸ hjournal ▸ hfree.pending.kept_insert _), fun id entry hentry hterminal ↦ ?_⟩
    have hne := hfree.pending.ne hentry hterminal
    rw [executions, hlog, filter_append, executions]
    simp [Execution.operationID, hne.symm]
  | fails _ hfree _ hjournal hdisk _ hlog _ =>
    refine ⟨?_, ?_, fun id _ _ _ ↦ ?_⟩
    · exact hjournal ▸ (hfree.pending.kept_insert _).trans (kept_erase_insert rfl)
    · rcases hdisk with hdisk | hdisk
      · exact .inl hdisk
      · exact .inr (hdisk ▸ hfree.pending.kept_insert _)
    · rw [executions, hlog, executions]

theorem Sound.pending_running (h : Sound s) (hx : x ∈ s.running) :
    Pending s.journal x.operationID := by
  obtain ⟨e, he, hstate⟩ := h.running x hx
  exact .of_state he (by simp [hstate]) (by simp [hstate])

theorem finish_eq (h : s.journal.lookup x.operationID = some entry) (outcome : Except String String)
    (w : Write) :
    (finish s x outcome w).journal = s.journal.insert x.operationID (finished entry outcome) ∧
      ((finish s x outcome w).disk = s.disk ∨
        (finish s x outcome w).disk = (finish s x outcome w).journal) ∧
      (finish s x outcome w).running = s.running.filter (fun y ↦ y.operationID ≠ x.operationID) ∧
      (finish s x outcome w).log = s.log ∧ (finish s x outcome w).up = s.up := by
  unfold finish
  simp only [h, persist_journal, persist_running, persist_log, persist_up, true_and, and_true]
  exact persist_disk _ w

theorem Sound.finish (h : Sound s) (hx : x ∈ s.running)
    (outcome : Except String String) (w : Write) : Sound (finish s x outcome w) := by
  obtain ⟨entry, hentry, -⟩ := h.running x hx
  obtain ⟨hjournal, hdisk, hrunning, -, hup⟩ := finish_eq hentry outcome w
  have hunique : Unique (Journal.finish s x outcome w).journal := by
    rw [hjournal]
    exact h.journal.replace hentry (by cases outcome <;> rfl)
  refine h.section hup (hjournal ▸ (h.pending_running hx).kept_insert _) (.refl _) hunique hunique
    hdisk ?_
  intro y hy
  rw [hrunning] at hy
  obtain ⟨hy, hne⟩ := mem_filter.mp hy
  rw [hjournal, lookup_insert_ite, if_neg (of_decide_eq_true hne)]
  exact h.running y hy

theorem Sound.advances_finish (h : Sound s) (hx : x ∈ s.running)
    (outcome : Except String String) (w : Write) : Advances s (Journal.finish s x outcome w) := by
  obtain ⟨entry, hentry, -⟩ := h.running x hx
  obtain ⟨hjournal, hdisk, -, hlog, -⟩ := finish_eq hentry outcome w
  have hkept : Kept s.journal (Journal.finish s x outcome w).journal :=
    hjournal ▸ (h.pending_running hx).kept_insert _
  refine ⟨hkept, ?_, fun id _ _ _ ↦ by rw [executions, hlog, executions]⟩
  rcases hdisk with hdisk | hdisk
  · exact .inl hdisk
  · exact .inr (hdisk ▸ hkept)

theorem load_eq (s : Supervisor) (w : Write) :
    (load s w).journal = loadJournal s.disk ∧ (load s w).running = [] ∧ (load s w).log = s.log ∧
      ((load s w).disk = s.disk ∨ (load s w).disk = (load s w).journal) := by
  unfold load
  simp only []
  split
  · simp only [persist_journal, persist_running, persist_log, true_and]
    exact persist_disk _ w
  · exact ⟨rfl, rfl, rfl, .inl rfl⟩

theorem Sound.load (h : Sound s) (w : Write) : Sound (load s w) := by
  obtain ⟨hjournal, hrunning, -, hdisk⟩ := load_eq s w
  have hunique : Unique (Journal.load s w).journal := hjournal ▸ h.disk.load
  refine ⟨fun x hx ↦ ?_, hunique, ?_, fun _ ↦ ?_⟩
  · rw [hrunning] at hx
    exact (not_mem_nil hx).elim
  · rcases hdisk with hdisk | hdisk
    · exact hdisk ▸ h.disk
    · exact hdisk ▸ hunique
  rcases hdisk with hdisk | hdisk
  · rw [hdisk, hjournal]
    exact kept_loadJournal _
  · rw [hdisk]
    exact .refl _

inductive Moves (s : Supervisor) : Action → Supervisor → Prop
  | call {t : Supervisor} {kind : Kind} {envelope : Envelope} {w : Write} : s.up = true →
      Round s kind envelope.lowered w t → Moves s (.call kind envelope w) t
  | finish {x : Execution} {id : String} {outcome : Except String String} {w : Write} :
      s.up = true → x ∈ s.running → Moves s (.finish id outcome w) (finish s x outcome w)
  | persist {w : Write} : s.up = true → Moves s (.persist w) (s.persist w)
  | crash : Moves s .crash { s with up := false, journal := ∅, running := [] }
  | start {w : Write} : Moves s (.start w) (load s w)

variable {a : Action}

theorem moves_of_step (h : step s a = some t) : Moves s a t := by
  cases a with
  | call kind envelope w =>
    obtain ⟨hup, ht⟩ := ite_none_right_eq_some.mp h
    cases ht
    exact .call hup (round_handle s kind envelope w)
  | finish id outcome w =>
    obtain ⟨hup, hfound⟩ := ite_none_right_eq_some.mp h
    obtain ⟨x, hx, rfl⟩ := map_eq_some_iff.mp hfound
    exact .finish hup (mem_of_find?_eq_some hx)
  | persist w =>
    obtain ⟨hup, ht⟩ := ite_none_right_eq_some.mp h
    cases ht
    exact .persist hup
  | crash =>
    cases h
    exact .crash
  | start w =>
    obtain ⟨-, ht⟩ := ite_none_left_eq_some.mp h
    cases ht
    exact .start

def Stays : Action → Bool
  | .crash | .start _ => false
  | _ => true

theorem Sound.step (h : Sound s) (hmoves : Moves s a t) : Sound t := by
  cases hmoves with
  | call _ hround => exact h.round hround
  | finish _ hx => exact h.finish hx _ _
  | persist => exact h.persist _
  | start => exact h.load _
  | crash =>
    refine ⟨fun x hx ↦ (not_mem_nil hx).elim, fun _ _ _ _ he ↦ ?_, h.disk, fun hup ↦ ?_⟩
    · cases he
    · cases hup

theorem Sound.advances (h : Sound s) (ha : Stays a)
    (hmoves : Moves s a t) : s.up ∧ Advances s t := by
  cases hmoves with
  | call hup hround => exact ⟨hup, advances_round hround⟩
  | finish hup hx => exact ⟨hup, h.advances_finish hx _ _⟩
  | persist hup => exact ⟨hup, advances_persist s _⟩
  | crash | start => cases ha

theorem Sound.disk_step (h : Sound s) (hmoves : Moves s a t) (he : s.disk.lookup id = some e)
    (hterminal : e.terminal) :
    t.disk.lookup id = some e ∧ executions t id = executions s id := by
  cases hstays : Stays a with
  | true =>
    obtain ⟨hup, hadvances⟩ := h.advances hstays hmoves
    have hmem := h.durable hup id e he hterminal
    refine ⟨?_, hadvances.log id e hmem hterminal⟩
    rcases hadvances.disk with hdisk | hdisk
    · exact hdisk ▸ he
    · exact hdisk id e hmem hterminal
  | false =>
    cases hmoves with
    | crash => exact ⟨he, rfl⟩
    | @start w =>
      obtain ⟨hjournal, -, hlog, hdisk⟩ := load_eq s w
      refine ⟨?_, by rw [executions, hlog, executions]⟩
      rcases hdisk with hdisk | hdisk
      · exact hdisk ▸ he
      · rw [hdisk, hjournal]
        exact kept_loadJournal _ id e he hterminal
    | call | finish | persist => cases hstays

def Entered (j : Ledger) (log : List Execution) : Prop :=
  ∀ x ∈ log, ∃ e, j.lookup x.operationID = some e ∧ Binds e x

variable {log : List Execution}

theorem Entered.insert (h : Entered j log)
    (hnew : ∀ x ∈ log, ∀ e, x.operationID = id → j.lookup id = some e → Binds e x → Binds entry x) :
    Entered (j.insert id entry) log := by
  intro x hx
  obtain ⟨e, he, hbinds⟩ := h x hx
  by_cases hid : x.operationID = id
  · subst hid
    exact ⟨entry, AList.lookup_insert j, hnew x hx e rfl he hbinds⟩
  · exact ⟨e, by rw [lookup_insert_ite, if_neg hid]; exact he, hbinds⟩

theorem Entered.replace (h : Entered j log) (he : j.lookup id = some e)
    (hbinds : ∀ x, Binds e x → Binds entry x) : Entered (j.insert id entry) log :=
  h.insert fun x _ e' _ he' hx ↦ hbinds x (by rw [he] at he'; cases he'; exact hx)

theorem Entered.erase (h : Entered j log)
    (hid : ∀ x ∈ log, x.operationID ≠ id) : Entered (j.erase id) log := by
  intro x hx
  obtain ⟨e, he, hbinds⟩ := h x hx
  exact ⟨e, by rw [lookup_erase_ite, if_neg (hid x hx)]; exact he, hbinds⟩

theorem Binds.interrupt (h : Binds e x) (error : String) : Binds (interrupt e error) x :=
  { h with }

theorem Binds.finished (h : Binds e x)
    (outcome : Except String String) : Binds (finished e outcome) x := by
  cases outcome <;> exact { h with }

theorem Binds.loaded (h : Binds e x) : Binds (loaded e) x := by
  unfold Journal.loaded
  split
  · exact h.interrupt _
  · exact h

theorem Entered.load (h : Entered disk log) : Entered (loadJournal disk) log := by
  intro x hx
  obtain ⟨e, he, hbinds⟩ := h x hx
  exact ⟨Journal.loaded e, by rw [loadJournal, lookup_mapValues, he]; rfl, hbinds.loaded⟩

/-- The state write at the start of an exact replay of an interrupted operation does not
fail. -/
def ReplaysWritten (s : Supervisor) : Action → Prop
  | .call _ envelope w =>
    ∀ previous ∈ s.journal.lookup envelope.operationID, previous.state = .interrupted → w = .done
  | _ => True

instance (s : Supervisor) (a : Action) : Decidable (ReplaysWritten s a) := by
  cases a <;> unfold ReplaysWritten <;> infer_instance

structure Bound (s : Supervisor) : Prop where
  disk : Entered s.disk s.log
  journal : s.up = true → Entered s.journal s.log

theorem Bound.section (h : Bound s) (hmid : Entered mid t.log) (hjournal : Entered t.journal t.log)
    (hlog : t.log = s.log) (hdisk : t.disk = s.disk ∨ t.disk = mid) : Bound t where
  disk := by
    rcases hdisk with hdisk | hdisk
    · exact hdisk ▸ hlog ▸ h.disk
    · exact hdisk ▸ hmid
  journal := fun _ ↦ hjournal

theorem Entered.unused (h : Entered j log)
    (hid : j.lookup id = none) : ∀ x ∈ log, x.operationID ≠ id := by
  rintro x hx rfl
  obtain ⟨e, he, -⟩ := h x hx
  rw [hid] at he
  cases he

theorem Entered.start {e : Envelope} (h : Entered s.journal s.log) (hfree : Free s kind e repair) :
    Entered (s.journal.insert e.operationID (newJournalEntry kind e)) s.log := by
  refine h.insert fun x hx entry hid hentry hbinds ↦ ?_
  cases hfree with
  | unused hlookup => exact absurd hid (h.unused hlookup x hx)
  | repair hlookup hmatch _ =>
    rw [hlookup] at hentry
    cases hentry
    have hsame := hbinds.same (y := ⟨kind, e, true⟩) (binds_of_matches hmatch)
    exact ⟨hsame.kind.symm, hsame.plugin.symm, hsame.version.symm, hsame.revision.symm,
      hsame.hash.symm, (perm_insertionSort _ _).trans hsame.materials.symm⟩

theorem Bound.round {e : Envelope} (h : Bound s) (hup : s.up)
    (hw : ∀ previous ∈ s.journal.lookup e.operationID, previous.state = .interrupted → w = .done)
    (hround : Round s kind e w t) : Bound t := by
  have hentered := h.journal hup
  cases hround with
  | answers => exact h
  | @interrupts previous _ hlookup _ _ ht =>
    subst ht
    have hnew : Entered (s.journal.insert e.operationID
        (interrupt previous interruptedBeforeCompletion)) s.log :=
      hentered.replace hlookup fun x hx ↦ hx.interrupt _
    exact h.section (by simpa using hnew) (by simpa using hnew) (by simp) (persist_disk _ w)
  | @starts repair _ _ hfree _ hjournal hdisk _ hlog _ =>
    have hall : Entered t.journal t.log := by
      intro x hx
      rw [hlog] at hx
      rcases mem_append.mp hx with hx | hx
      · exact hjournal ▸ hentered.start hfree x hx
      · rw [mem_singleton.mp hx, hjournal]
        exact ⟨_, AList.lookup_insert _, binds_newJournalEntry kind e repair⟩
    exact ⟨hdisk ▸ hall, fun _ ↦ hall⟩
  | fails hne hfree _ hjournal hdisk _ hlog _ =>
    have hnew := hentered.start hfree
    cases hfree with
    | unused hlookup =>
      refine h.section (hlog ▸ hnew) ?_ hlog hdisk
      rw [hjournal, hlog]
      exact hnew.erase (hentered.unused hlookup)
    | repair hlookup _ hstate => exact absurd (hw _ hlookup hstate) hne

theorem Bound.step (h : Bound s) (hsound : Sound s)
    (hwritten : ReplaysWritten s a) (hmoves : Moves s a t) : Bound t := by
  cases hmoves with
  | call hup hround =>
    refine h.round hup ?_ hround
    exact hwritten
  | @finish x _ outcome w hup hx =>
    obtain ⟨entry, hentry, -⟩ := hsound.running x hx
    obtain ⟨hjournal, hdisk, -, hlog, -⟩ := finish_eq hentry outcome w
    have hnew : Entered (finish s x outcome w).journal (finish s x outcome w).log := by
      rw [hjournal, hlog]
      exact (h.journal hup).replace hentry fun y hy ↦ hy.finished outcome
    exact h.section hnew hnew hlog hdisk
  | @persist w hup =>
    have hsame : Entered (s.persist w).journal (s.persist w).log := by
      simpa using h.journal hup
    exact h.section hsame hsame (persist_log s w) (by simpa using persist_disk s w)
  | crash => exact ⟨h.disk, fun hup ↦ by cases hup⟩
  | @start w =>
    obtain ⟨hjournal, -, hlog, hdisk⟩ := load_eq s w
    have hnew : Entered (load s w).journal (load s w).log := by
      rw [hjournal, hlog]
      exact h.disk.load
    exact h.section hnew hnew hlog hdisk

theorem sound_of_reach (h : Steps step initial s) : Sound s :=
  h.invariant sound_initial fun _ _ _ hs _ hstep ↦ hs.step (moves_of_step hstep)

theorem bound_of_reach (h : Reach step ReplaysWritten initial s) : Bound s := by
  have hboth : Sound s ∧ Bound s := by
    refine h.invariant (I := fun u ↦ Sound u ∧ Bound u) ⟨sound_initial, nofun, nofun⟩ ?_
    rintro s a t ⟨hsound, hbound⟩ hwritten hstep
    have hmoves := moves_of_step hstep
    exact ⟨hsound.step hmoves, hbound.step hsound hwritten hmoves⟩
  exact hboth.2

theorem Bound.same (h : Bound s) :
    ∀ x ∈ s.log, ∀ y ∈ s.log, x.operationID = y.operationID → Same x y := by
  intro x hx y hy hid
  obtain ⟨e, he, hbinds⟩ := h.disk x hx
  obtain ⟨e', he', hbinds'⟩ := h.disk y hy
  rw [hid, he'] at he
  cases he
  exact hbinds.same hbinds'

theorem Sound.final (h : Sound s) (he : s.journal.lookup id = some e)
    (hterminal : e.terminal) (hrun : Reach Journal.step (fun _ a ↦ Stays a) s t) :
    t.journal.lookup id = some e ∧ executions t id = executions s id := by
  have hall : Sound t ∧ t.journal.lookup id = some e ∧ executions t id = executions s id := by
    refine hrun.invariant (I := fun u ↦ Sound u ∧ u.journal.lookup id = some e ∧
      executions u id = executions s id) ⟨h, he, rfl⟩ ?_
    rintro s₁ a s₂ ⟨hsound, he₁, hlog⟩ hstays hstep
    have hmoves := moves_of_step hstep
    have hadvances := (hsound.advances hstays hmoves).2
    exact ⟨hsound.step hmoves, hadvances.journal id e he₁ hterminal,
      (hadvances.log id e he₁ hterminal).trans hlog⟩
  exact hall.2

def recordedAnswer (e : JournalEntry) : Answer :=
  if e.state = .succeeded then .recorded e.result else .previouslyFailed (previousError e)

/-- The journal over all runs in which no exact replay of an interrupted operation fails to be
journaled. -/
theorem journaled_operations_final (hrun : Reach step ReplaysWritten initial s) :
    (∀ id e, s.journal.lookup id = some e → e.terminal = true →
      ∀ t, Reach step (fun _ a ↦ Stays a = true) s t →
        t.journal.lookup id = some e ∧ executions t id = executions s id) ∧
    (∀ id e, s.disk.lookup id = some e → e.terminal = true → ∀ t, Steps step s t →
      t.disk.lookup id = some e ∧ executions t id = executions s id ∧
        (t.up = true → t.journal.lookup id = some e)) ∧
    (∀ kind envelope e w, s.journal.lookup envelope.operationID = some e → e.terminal = true →
      journalMatches e kind envelope.lowered = true →
        handle s kind envelope w = (recordedAnswer e, s)) ∧
    (∀ x ∈ s.log, ∀ y ∈ s.log, x.operationID = y.operationID → Same x y) ∧
    Unique s.journal ∧ Unique s.disk := by
  have hsound := sound_of_reach hrun.steps
  refine ⟨?_, ?_, ?_, (bound_of_reach hrun).same, hsound.journal, hsound.disk⟩
  · intro id e he hterminal t ht
    exact hsound.final he hterminal ht
  · intro id e he hterminal t ht
    have hall : Sound t ∧ t.disk.lookup id = some e ∧ executions t id = executions s id := by
      refine ht.invariant (I := fun u ↦ Sound u ∧ u.disk.lookup id = some e ∧
        executions u id = executions s id) ⟨hsound, he, rfl⟩ ?_
      rintro s₁ a s₂ ⟨hsound, he₁, hlog⟩ - hstep
      have hmoves := moves_of_step hstep
      obtain ⟨he₂, hlog₂⟩ := hsound.disk_step hmoves he₁ hterminal
      exact ⟨hsound.step hmoves, he₂, hlog₂.trans hlog⟩
    obtain ⟨hsound, he', hlog⟩ := hall
    exact ⟨he', hlog, fun hup ↦ hsound.durable hup id e he' hterminal⟩
  · intro kind envelope e w he hterminal hmatch
    have hlookup : s.journal.lookup envelope.lowered.operationID = some e := he
    unfold handle
    simp only [hlookup, hmatch, Bool.true_eq_false, if_false]
    cases hstate : e.state with
    | succeeded | failed => simp [recordedAnswer, hstate]
    | running | interrupted | unknown => simp [JournalEntry.terminal, hstate] at hterminal

def sample (operationID key : String) (revision : Nat) : Envelope where
  operationID := operationID
  idempotencyKey := key
  sessionID := "session"
  pluginID := "machine-telemetry"
  targetVersion := "1.0.0"
  configHash := ['e', '3']
  revision := revision
  secretMaterials := ⟨[], List.nodup_nil, nil_hashed⟩

/-- An operation that a crash interrupted is replayed and finishes. -/
theorem journaled_operations_final_replayed :
    ∃ s, Reach step ReplaysWritten initial s ∧ s.log.length = 2 ∧
      ∀ x ∈ s.log, ∀ y ∈ s.log, x.operationID = y.operationID → Same x y := by
  have hexists : ∃ s, Reach step ReplaysWritten initial s ∧ s.log.length = 2 := exists_reach
    [.start .done, .call .enable (sample "a" "k" 5) .done, .crash, .start .done,
      .call .enable (sample "a" "k" 5) .done, .finish "a" (.ok "enabled") .refused]
    _ (by decide +kernel)
  obtain ⟨s, hrun, hlog⟩ := hexists
  exact ⟨s, hrun, hlog, (journaled_operations_final hrun).2.2.2.1⟩

/-- A replay that is not journaled frees the id of an operation that was executed in part, and
another operation takes it. -/
theorem operation_id_rebound :
    ∃ s, Steps step initial s ∧ ∃ x ∈ s.log, ∃ y ∈ s.log, x.operationID = y.operationID ∧
      x.kind ≠ y.kind ∧ x.envelope.revision ≠ y.envelope.revision :=
  exists_steps
    [.start .done, .call .enable (sample "a" "k" 5) .done, .crash, .start .done,
      .call .enable (sample "a" "k" 5) .refused, .call .disable (sample "a" "k" 6) .done]
    _ (by decide +kernel)

theorem erase_insert (h : j.lookup id = none) : (j.insert id entry).erase id = j := by
  have hid : id ∉ j.entries.keys := AList.lookup_eq_none.mp h
  apply AList.ext
  simp [AList.erase, AList.insert, kinsert, kerase_of_notMem_keys hid]

theorem begin_unwritten {e : Envelope} (hw : w ≠ .done)
    (h : s.journal.lookup e.operationID = none) (kind : Kind) (repair : Bool) :
    (begin s kind e repair w).2.journal = s.journal ∧
      (begin s kind e repair w).2.running = s.running ∧
      (begin s kind e repair w).2.log = s.log := by
  unfold begin
  split
  · exact ⟨rfl, rfl, rfl⟩
  · simp only [persist_journal, persist_running, persist_log, erase_insert h, and_self]

theorem handle_congr (hjournal : t.journal = s.journal)
    (hrunning : t.running = s.running) (kind : Kind) (envelope : Envelope) (w : Write) :
    (handle t kind envelope w).1 = (handle s kind envelope w).1 := by
  have hbegin (repair : Bool) : (begin t kind envelope.lowered repair w).1 =
      (begin s kind envelope.lowered repair w).1 := by
    unfold begin
    rw [hjournal]
    split
    · rfl
    · split <;> rfl
  unfold handle
  simp only [hjournal, hrunning]
  split
  · exact hbegin false
  split
  · rfl
  split
  · rfl
  · rfl
  · split <;> rfl
  · exact hbegin true
  · rfl

theorem handle_unwritten {envelope : Envelope} (h : (handle s kind envelope w).1 = .unwritten) :
    ∃ repair, handle s kind envelope w = begin s kind envelope.lowered repair w := by
  unfold handle at h ⊢
  simp only [] at h ⊢
  cases hlookup : s.journal.lookup envelope.lowered.operationID with
  | none => exact ⟨false, rfl⟩
  | some previous =>
    simp only [hlookup] at h ⊢
    split at h
    · cases h
    next hmatches =>
    rw [if_neg hmatches]
    cases hstate : previous.state with
    | interrupted => exact ⟨true, rfl⟩
    | running =>
      simp only [hstate] at h
      split at h <;> cases h
    | succeeded | failed | unknown =>
      rw [hstate] at h
      cases h

theorem lookup_begin_unwritten {e : Envelope} (h : (begin s kind e repair w).1 = .unwritten) :
    (begin s kind e repair w).2.journal.lookup e.operationID = none := by
  unfold begin at h ⊢
  split at h
  · cases h
  next hkey =>
  simp only [] at h
  split at h
  · cases h
  next hwrite =>
  simp only [if_neg hkey, if_neg hwrite]
  exact AList.lookup_erase _ _

/-- A new operation whose start is not written leaves the journal as it was: every interrupted
entry can still be repaired and still holds back the restore of its plugin. Where the write of a
start fails, the journal is as it was only for a new operation. -/
theorem unwritten_start_keeps_journal (s : Supervisor) (kind : Kind) (envelope : Envelope)
    (w : Write) (hw : w ≠ .done) :
    (s.journal.lookup envelope.operationID = none →
      (handle s kind envelope w).2.journal = s.journal ∧
      (handle s kind envelope w).2.running = s.running ∧
      (handle s kind envelope w).2.log = s.log ∧
      (∀ kind' envelope', (handle s kind' envelope' .done).1 = .started true →
        (handle (handle s kind envelope w).2 kind' envelope' .done).1 = .started true) ∧
      ∀ pluginID revision,
        interruptedRuntimeTransition (handle s kind envelope w).2.journal pluginID revision =
          interruptedRuntimeTransition s.journal pluginID revision) ∧
    ((handle s kind envelope w).1 = .unwritten →
      ((handle s kind envelope w).2.journal = s.journal ↔
        s.journal.lookup envelope.operationID = none)) := by
  have hnew (hlookup : s.journal.lookup envelope.lowered.operationID = none) :
      (handle s kind envelope w).2.journal = s.journal ∧
        (handle s kind envelope w).2.running = s.running ∧
        (handle s kind envelope w).2.log = s.log := by
    have hbegin : handle s kind envelope w = begin s kind envelope.lowered false w := by
      unfold handle
      simp only [hlookup]
    rw [hbegin]
    exact begin_unwritten hw hlookup kind false
  refine ⟨fun hlookup ↦ ?_, fun hstart ↦ ⟨fun hjournal ↦ ?_, fun hlookup ↦ (hnew hlookup).1⟩⟩
  · obtain ⟨hjournal, hrunning, hlog⟩ := hnew hlookup
    refine ⟨hjournal, hrunning, hlog, fun kind' envelope' hstarted ↦ ?_, fun _ _ ↦ by rw [hjournal]⟩
    rw [handle_congr hjournal hrunning]
    exact hstarted
  · obtain ⟨repair, hbegin⟩ := handle_unwritten hstart
    rw [hbegin] at hstart hjournal
    rw [← hjournal]
    exact lookup_begin_unwritten hstart

/-- The other operation is interrupted when a new one fails to start. -/
theorem unwritten_start_keeps_journal_interrupted :
    ∃ s, Steps step initial s ∧
      (interruptedRuntimeTransition s.journal "machine-telemetry" 5).isSome = true ∧
      (handle s .disable (sample "b" "l" 6) .refused).2.journal = s.journal := by
  exact ⟨_, steps_after [.start .done, .call .enable (sample "a" "k" 5) .done, .crash, .start .done]
      (by decide +kernel), by decide +kernel,
    ((unwritten_start_keeps_journal _ .disable (sample "b" "l" 6) .refused (by decide)).1
      (Option.isNone_iff_eq_none.mp (by decide +kernel))).1⟩

/-- A replay whose start is not written: the interrupted entry is gone, the next exact replay is
no repair, and nothing holds back the restore. -/
theorem unwritten_replay_forgotten :
    ∃ s, Steps step initial s ∧
      (handle s .enable (sample "a" "k" 5) .done).1 = .started true ∧
      (interruptedRuntimeTransition s.journal "machine-telemetry" 5).isSome = true ∧
      (handle (handle s .enable (sample "a" "k" 5) .refused).2
        .enable (sample "a" "k" 5) .done).1 = .started false ∧
      (interruptedRuntimeTransition (handle s .enable (sample "a" "k" 5) .refused).2.journal
        "machine-telemetry" 5).isSome = false :=
  exists_steps
    [.start .done, .call .enable (sample "a" "k" 5) .done, .crash, .start .done] _ (by decide +kernel)

end AnixAgent.Plugins.Replays
