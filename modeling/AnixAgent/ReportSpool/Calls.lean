import AnixAgent.ReportSpool.Machine

namespace AnixAgent.ReportSpool.Calls

open Machine FileNames Lib.Crash Lib.Tables List
open Lib.Crash.Proc

/-- The spool with other `entries`: the loops of the source work on a copy of the
list and set it at the end. -/
def withEntries (s : State) (entries : List Entry) : State :=
  { s with spool := { s.spool with entries := entries } }

/-- `P batches s` says that `batches` are the batches in the spool of `s`, in the
order of their entries. It survives the loss of any of them to a bound. An
interruption finds a state with `C`. -/
structure Sheds (env : Env) (C : State → Prop) (P : List Entry → State → Prop) : Prop where
  point : ∀ {batches s}, P batches s → C s
  entries : ∀ {batches s} entries, P batches s → P batches (withEntries s entries)
  drop : ∀ {before after entry s} reason, P (before ++ entry :: after) s →
    Sat (countDrop reason entry) s C fun _ t ↦ Sat (discard env entry) t C fun _ u ↦
      P (before ++ after) u

structure Same (s t : State) : Prop where
  entries : t.spool.entries = s.spool.entries
  limits : t.spool.limits = s.spool.limits
  nextSeq : t.spool.nextSeq = s.spool.nextSeq

structure Rest (s t : State) : Prop where
  entries : t.spool.entries.Sublist s.spool.entries
  limits : t.spool.limits = s.spool.limits
  nextSeq : t.spool.nextSeq = s.spool.nextSeq

variable {s t u : State}

theorem Same.trans (h : Same s t) (h' : Same t u) : Same s u :=
  ⟨h'.entries.trans h.entries, h'.limits.trans h.limits, h'.nextSeq.trans h.nextSeq⟩

theorem Rest.refl (s : State) : Rest s s := ⟨.refl _, rfl, rfl⟩

theorem Rest.trans (h : Rest s t) (h' : Rest t u) : Rest s u :=
  ⟨h'.entries.trans h.entries, h'.limits.trans h.limits, h'.nextSeq.trans h.nextSeq⟩

def without (s : Spool) (entry : Entry) : Spool :=
  { s with
    byBatch := s.byBatch.erase entry.batchId
    bytes := s.bytes - entry.size }

theorem discard_frame (env : Env) (entry : Entry) (s : State) :
    Sat (discard env entry) s (fun _ ↦ True) fun _ t ↦
      t.spool = without s.spool entry ∧ t.lost = s.lost := by
  refine .bind (.act trivial (.bind (.act trivial (.act trivial ?_))))
  dsimp only
  split <;> exact ⟨rfl, rfl⟩

theorem discard_same (env : Env) (entry : Entry) (s : State) :
    Sat (discard env entry) s (fun _ ↦ True) fun _ t ↦ Same s t := by
  refine (discard_frame env entry s).mono (fun _ h ↦ h) fun _ t ⟨ht, _⟩ ↦ ?_
  exact ⟨by rw [ht]; rfl, by rw [ht]; rfl, by rw [ht]; rfl⟩

theorem countDrop_same (reason : Reason) (entry : Entry) (s : State) :
    Sat (countDrop reason entry) s (fun _ ↦ True) fun _ t ↦ Same s t :=
  .act trivial ⟨rfl, rfl, rfl⟩

section

variable {env : Env} {C : State → Prop} {P : List Entry → State → Prop}

theorem Sheds.expireEntries (hk : Sheds env C P) (cutoff : Int) {before entries : List Entry}
    (h : P (before ++ entries) s) :
    Sat (expireEntries env cutoff entries) s C fun kept t ↦
      kept = entries.filter (fun entry ↦ ¬ entry.createdAt < cutoff) ∧ P (before ++ kept) t ∧
        Same s t := by
  induction entries generalizing before s with
  | nil => exact .pure ⟨rfl, h, rfl, rfl, rfl⟩
  | cons entry rest ih =>
    simp only [Machine.expireEntries]
    split
    · next hold =>
      refine .bind (((hk.drop .age h).and (countDrop_same .age entry s)).mono (fun _ h ↦ h.1) ?_)
      rintro - t ⟨ht, hst⟩
      refine .bind ((ht.and (discard_same env entry t)).mono (fun _ h ↦ h.1) ?_)
      rintro - u ⟨hu, htu⟩
      refine (ih hu).mono (fun _ h ↦ h) ?_
      rintro kept v ⟨hkept, hv, huv⟩
      refine ⟨?_, hv, (hst.trans htu).trans huv⟩
      rw [hkept, filter_cons_of_neg (by simpa using hold)]
    · next hyoung =>
      have h' : P ((before ++ [entry]) ++ rest) s := by simpa using h
      refine .bind ((ih h').mono (fun _ h ↦ h) ?_)
      rintro kept t ⟨hkept, ht, hs⟩
      refine .pure ⟨?_, by simpa using ht, hs⟩
      rw [hkept, filter_cons_of_pos (by simpa using hyoung)]

theorem Sheds.expireLocked (hk : Sheds env C P) (h : P s.spool.entries s) :
    Sat (expireLocked env) s C fun _ t ↦ P t.spool.entries t ∧ Rest s t := by
  refine .bind (.look (.bind (.look (.bind ?_))))
  have h' : P ([] ++ s.spool.entries) s := h
  refine (hk.expireEntries (env.now - s.spool.limits.maxAge) h').mono (fun _ h ↦ h) ?_
  rintro kept t ⟨rfl, ht, hs⟩
  have ht' := hk.entries (s.spool.entries.filter fun entry ↦
    ¬ entry.createdAt < env.now - s.spool.limits.maxAge) ht
  exact .act (hk.point ht') ⟨ht', filter_sublist, hs.limits, hs.nextSeq⟩

theorem Sheds.removeLocked (hk : Sheds env C P) {before after : List Entry}
    {entry : Entry} (hsplit : s.spool.entries = before ++ entry :: after) (hnew : entry ∉ before)
    (h : Sat (discard env entry) s C fun _ t ↦ P (before ++ after) t) :
    Sat (removeLocked env entry) s C fun _ t ↦ P t.spool.entries t ∧
      t.spool.entries = before ++ after ∧ Rest s t := by
  refine .bind ((h.and (discard_same env entry s)).mono (fun _ h ↦ h.1) ?_)
  rintro - t ⟨ht, hs⟩
  have herase : t.spool.entries.erase entry = before ++ after := by
    rw [hs.entries, hsplit, erase_append_right _ hnew, erase_cons_head]
  have ht' := hk.entries (t.spool.entries.erase entry) ht
  rw [← herase] at ht'
  refine .act (hk.point ht') ⟨ht', herase, ?_, hs.limits, hs.nextSeq⟩
  rw [← hs.entries]
  exact erase_sublist

theorem Sheds.makeRoom (hk : Sheds env C P) (size : Int) {fuel : Nat}
    (hfuel : s.spool.entries.length ≤ fuel) (h : P s.spool.entries s) :
    Sat (makeRoom env size fuel) s C fun _ t ↦ P t.spool.entries t ∧ Rest s t ∧
      (t.spool.entries = [] ∨ overflow t.spool size = none) := by
  induction fuel generalizing s with
  | zero => exact .pure ⟨h, .refl s, .inl (length_eq_zero_iff.mp (by omega))⟩
  | succ fuel ih =>
    refine .bind (.look ?_)
    split
    · next oldest rest reason hentries hover =>
      have h' : P ([] ++ oldest :: rest) s := by simpa [hentries] using h
      refine .bind (((hk.drop reason h').and (countDrop_same reason oldest s)).mono
        (fun _ h ↦ h.1) ?_)
      rintro - t ⟨ht, hst⟩
      have hsplit : t.spool.entries = [] ++ oldest :: rest := hst.entries.trans hentries
      refine .bind ((hk.removeLocked hsplit not_mem_nil ht).mono (fun _ h ↦ h) ?_)
      rintro - u ⟨hu, hrest, htu⟩
      have hlen : u.spool.entries.length ≤ fuel := by
        rw [hentries, length_cons] at hfuel
        rw [hrest]
        simpa using hfuel
      refine (ih hlen hu).mono (fun _ h ↦ h) ?_
      rintro - v ⟨hv, huv, hroom⟩
      have hsu : Rest s u := by
        refine ⟨?_, htu.limits.trans hst.limits, htu.nextSeq.trans hst.nextSeq⟩
        rw [← hst.entries]
        exact htu.entries
      exact ⟨hv, hsu.trans huv, hroom⟩
    · next hdone =>
      refine .pure ⟨h, .refl s, ?_⟩
      cases hentries : s.spool.entries with
      | nil => exact .inl rfl
      | cons oldest rest =>
        right
        cases hover : overflow s.spool size with
        | none => rfl
        | some reason => exact absurd hover (hdone oldest rest reason hentries)

theorem Sheds.pending (hk : Sheds env C P) (h : P s.spool.entries s) :
    Sat (pending env) s C fun _ t ↦ P t.spool.entries t ∧ Rest s t := by
  refine .bind ((hk.expireLocked h).mono (fun _ h ↦ h) ?_)
  rintro - t ht
  exact .look ht

theorem read_eq (codec : Codec) (env : Env) (id : String) (s : State) :
    Sat (read codec env id) s C fun _ t ↦ t = s := by
  refine .bind (.look ?_)
  split
  · exact .pure rfl
  · refine .bind (.look ?_)
    split <;> exact .pure rfl

theorem Sheds.remove (hk : Sheds env C P) (id : String) {Q : Bool → State → Prop}
    (hindex : ∀ entry, s.spool.byBatch.lookup id = some entry → entry ∈ s.spool.entries)
    (hnone : s.spool.byBatch.lookup id = none → Q false s)
    (hsome : ∀ {before entry after}, s.spool.byBatch.lookup id = some entry →
      s.spool.entries = before ++ entry :: after →
      Sat (discard env entry) s C fun _ t ↦ P (before ++ after) t)
    (hdone : ∀ {entry t}, s.spool.byBatch.lookup id = some entry → P t.spool.entries t →
      Rest s t → Q true t) :
    Sat (remove env id) s C Q := by
  refine .bind (.look ?_)
  split
  · next hlook => exact .pure (hnone hlook)
  next entry hlook =>
  obtain ⟨before, after, hnew, hsplit, -⟩ := exists_erase_eq (hindex entry hlook)
  refine .bind ((hk.removeLocked hsplit hnew (hsome hlook hsplit)).mono (fun _ h ↦ h) ?_)
  rintro - t ⟨ht, -, hst⟩
  exact .pure (hdone hlook ht hst)

structure Room (codec : Codec) (message : AgentToControl) (data : List UInt8) (s u : State) :
    Prop where
  id : batchID message ≠ ""
  marshalled : codec.marshal message = .ok data
  unknown : s.spool.byBatch.lookup (batchID message) = none
  size : (data.length : Int) ≤ u.spool.limits.maxBytes
  room : u.spool.entries = [] ∨ overflow u.spool data.length = none
  rest : Rest s u

theorem Sheds.append (hk : Sheds env C P) {codec : Codec} {message : AgentToControl}
    {Q : Except String Bool → State → Prop} (h : P s.spool.entries s)
    (hearly : ∀ answer, answer ≠ .ok true → Q answer s)
    (hstore : ∀ {u data}, P u.spool.entries u → Room codec message data s u →
      Sat (storeBatch env message data) u C Q) :
    Sat (append codec env message) s C Q := by
  simp only [Machine.append]
  split
  · exact .pure (hearly _ nofun)
  next hid =>
  split
  · exact .pure (hearly _ nofun)
  next data hdata =>
  refine .bind (.look ?_)
  split
  · exact .pure (hearly _ nofun)
  next hsize =>
  refine .bind (.look ?_)
  split
  · exact .pure (hearly _ nofun)
  next hnone =>
  refine .bind ((hk.expireLocked h).mono (fun _ h ↦ h) ?_)
  rintro - t ⟨ht, hst⟩
  refine .bind (.look (.bind ((hk.makeRoom data.length le_rfl ht).mono (fun _ h ↦ h) ?_)))
  rintro - u ⟨hu, htu, hroom⟩
  have hsu := hst.trans htu
  refine hstore hu ⟨hid, hdata, Option.not_isSome_iff_eq_none.mp hnone, ?_, hroom, hsu⟩
  rw [hsu.limits]
  exact not_lt.mp hsize

end

end AnixAgent.ReportSpool.Calls
