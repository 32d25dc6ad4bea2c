import AnixAgent.ReportSpool.Indexing

namespace AnixAgent.ReportSpool.History

open Machine FileNames Calls Invariant Indexing Lib.Crash Lib.Tables
open Lib.Crash.Proc

inductive Call
  | append (message : AgentToControl)
  | pending
  | read (id : String)
  | remove (id : String)

inductive Answer
  | appended (result : Except String Bool)
  | listed (batches : List Entry)
  | found (result : Except String (Option AgentToControl))
  | removed (spooled : Bool)

def perform (codec : Codec) (env : Env) : Call → Proc State Answer
  | .append message => do return .appended (← append codec env message)
  | .pending => do return .listed (← pending env)
  | .read id => do return .found (← read codec env id)
  | .remove id => do return .removed (← remove env id)

def run (codec : Codec) (s : State) : List (Call × Env) → State
  | [] => s
  | (call, env) :: rest => run codec (perform codec env call s).state rest

def Call.cost : Call → Nat
  | .append _ => 1
  | _ => 0

def appends (calls : List (Call × Env)) : Nat := (calls.map (·.1.cost)).sum

theorem run_append (codec : Codec) (s : State) (calls calls' : List (Call × Env)) :
    run codec s (calls ++ calls') = run codec (run codec s calls) calls' := by
  induction calls generalizing s with
  | nil => rfl
  | cons c rest ih => exact ih _

section

variable {codec : Codec} {limits : Limits} {s : State}

theorem perform_contract (h : Contract limits s.spool.entries s) (hlimits : 0 < limits.maxEntries)
    (env : Env) (call : Call) (hnext : s.spool.nextSeq + call.cost < 2 ^ 64) :
    Sat (perform codec env call) s (fun _ ↦ True) fun answer t ↦
      Contract limits t.spool.entries t ∧ t.spool.nextSeq ≤ s.spool.nextSeq + call.cost ∧
        (answer = .appended (.ok true) → Within t.spool) := by
  have hsheds := Contract.sheds env limits
  cases call with
  | append message =>
    refine .bind ((hsheds.append (Q := fun answer t ↦ Contract limits t.spool.entries t ∧
      t.spool.nextSeq ≤ s.spool.nextSeq + 1 ∧ (answer = .ok true → Within t.spool)) h ?_ ?_).mono
      (fun _ h ↦ h) fun answer t ⟨ht, hle, hwithin⟩ ↦ .pure ⟨ht, hle, ?_⟩)
    · exact fun answer hne ↦ ⟨h, Nat.le_succ _, fun hok ↦ absurd hok hne⟩
    · exact fun hu hroom ↦ h.stored hu hroom hlimits hnext env
    · rintro ⟨⟩
      exact hwithin rfl
  | pending =>
    refine .bind ((hsheds.pending h).mono (fun _ h ↦ h) fun _ t ⟨ht, hst⟩ ↦ ?_)
    exact .pure ⟨ht, hst.nextSeq.le, nofun⟩
  | read id =>
    refine .bind ((read_eq codec env id s).mono (fun _ h ↦ h) fun _ t ht ↦ ?_)
    rw [ht]
    exact .pure ⟨h, le_rfl, nofun⟩
  | remove id =>
    refine .bind ((hsheds.remove id (Q := fun _ t ↦ Contract limits t.spool.entries t ∧
      t.spool.nextSeq ≤ s.spool.nextSeq) ?_ ?_ ?_ ?_).mono (fun _ h ↦ h) fun _ t ⟨ht, hle⟩ ↦ ?_)
    · exact fun entry hentry ↦ ((h.indexed.byBatch id entry).mp hentry).1
    · exact fun _ ↦ ⟨h, le_rfl⟩
    · intro before entry after _ hsplit
      rw [hsplit] at h
      exact h.removed env
    · exact fun _ ht hst ↦ ⟨ht, hst.nextSeq.le⟩
    · exact .pure ⟨ht, hle, nofun⟩

theorem run_contract (h : Contract limits s.spool.entries s) (hlimits : 0 < limits.maxEntries)
    (calls : List (Call × Env)) (hnext : s.spool.nextSeq + appends calls < 2 ^ 64) :
    Contract limits (run codec s calls).spool.entries (run codec s calls) ∧
      (run codec s calls).spool.nextSeq ≤ s.spool.nextSeq + appends calls := by
  induction calls generalizing s with
  | nil => exact ⟨h, le_rfl⟩
  | cons c rest ih =>
    have hcost : appends (c :: rest) = c.1.cost + appends rest := List.sum_cons
    rw [hcost] at hnext ⊢
    have hstep : Sat (perform codec c.2 c.1) s _ _ := perform_contract h hlimits c.2 c.1 (by omega)
    obtain ⟨ht, hle, -⟩ := hstep.ends
    obtain ⟨hrun, hrunle⟩ := ih ht (by omega)
    refine ⟨hrun, hrunle.trans ?_⟩
    omega

theorem index_contract {next : Nat} (hnext : next < 2 ^ 64) {disk : Table FileName File}
    (h : Written codec next disk) (env : Env) (limits : Limits) :
    Contract limits (index codec env ⟨newSpool limits, disk, []⟩).state.spool.entries
        (index codec env ⟨newSpool limits, disk, []⟩).state ∧
      (index codec env ⟨newSpool limits, disk, []⟩).state.spool.nextSeq ≤ next := by
  have hfresh := index_fresh codec env limits disk
  obtain ⟨hordered, hle⟩ := index_ordered hnext h env limits
  exact ⟨⟨hfresh.indexed, hordered, hfresh.limits⟩, hle⟩

/-- Every spool reached from `Open` on a directory that a spool wrote keeps its
indexes, and a batch that was stored is within the bounds. The sequence numbers
do not wrap: the one after the last `Append` is below 2^64. -/
theorem spool_contract {env : Env} {dir : String} {access : Option String} {next : Nat}
    {disk : Table FileName File} (hdisk : Written codec next disk)
    (hopen : openSpool codec env dir limits access disk = .ok s) (calls : List (Call × Env))
    (hcalls : next + appends calls < 2 ^ 64) :
    Indexed (run codec s calls).spool (run codec s calls).spool.entries ∧
      Ordered (run codec s calls).spool (run codec s calls).spool.entries ∧
      ∀ earlier message env, calls = earlier ++ [(.append message, env)] →
        (append codec env message (run codec s earlier)).value = .ok true →
        Within (run codec s calls).spool := by
  obtain ⟨limits, -, hlimits, rfl⟩ := openSpool_eq hopen
  obtain ⟨hstart, hle⟩ := index_contract (by omega) hdisk env limits
  obtain ⟨hrun, -⟩ := run_contract hstart hlimits calls (by omega)
  refine ⟨hrun.indexed, hrun.ordered, ?_⟩
  rintro earlier message env' rfl hstored
  have hcost : appends (earlier ++ [(.append message, env')]) = appends earlier + 1 := by
    simp [appends, Call.cost]
  obtain ⟨hearlier, hle'⟩ := run_contract hstart hlimits earlier (by omega)
  have hlast : Sat (perform codec env' (.append message)) (run codec _ earlier) _ _ :=
    perform_contract hearlier hlimits env' (.append message) (by simp only [Call.cost]; omega)
  rw [run_append]
  exact hlast.ends.2.2 (congrArg Answer.appended hstored)

end

def batch (id : String) : AgentToControl := ⟨0, .traffic id []⟩

def sampleCodec : Codec where
  marshal message :=
    if message = batch "a" then .ok [1, 1]
    else if message = batch "b" then .ok [2, 2]
    else .error "unknown message"
  unmarshal data :=
    if data = [1, 1] then .ok (batch "a")
    else if data = [2, 2] then .ok (batch "b")
    else .error "not a batch"
  unmarshal_marshal message data h := by
    split at h
    · next ha => cases h; rw [ha]; rfl
    · split at h
      · next hb => cases h; rw [hb]; rfl
      · cases h

def sampleLimits : Limits := ⟨3, 10 ^ 9, 5⟩

def quiet : Env where
  now := 0
  removes _ := true
  reads _ := true
  fault := none
  written := []
  random := []
  error := ""

theorem written_empty (codec : Codec) : Written codec 1 ∅ := ⟨Nat.one_pos, nofun⟩

theorem spool_contract_full_spool :
    ∃ s, openSpool sampleCodec quiet "/spool" sampleLimits none ∅ = .ok s ∧
      Within (run sampleCodec s [(.append (batch "a"), quiet), (.append (batch "b"), quiet)]).spool := by
  have hopen : openSpool sampleCodec quiet "/spool" sampleLimits none ∅ =
      .ok (index sampleCodec quiet ⟨newSpool sampleLimits, ∅, []⟩).state := rfl
  refine ⟨_, hopen, ?_⟩
  have hcontract := spool_contract (written_empty sampleCodec) hopen
    [(.append (batch "a"), quiet), (.append (batch "b"), quiet)] (by decide)
  exact hcontract.2.2 [(.append (batch "a"), quiet)] (batch "b") quiet rfl rfl

end AnixAgent.ReportSpool.History
