import AnixAgent.WireGuard.Machine

namespace AnixAgent.WireGuard.Rollbacks

open Lib.Runs Lib.Tables Machine List Option

variable {c : Core} {s t : State} {tag : String}

def sampledSince (tag : String) : List Event → Bool
  | [] => false
  | .removed tag' :: log => tag' != tag && sampledSince tag log
  | .sampled tag' _ :: log => tag' == tag || sampledSince tag log
  | .rolledBack _ _ :: log => sampledSince tag log

def serves (c : Core) (tag : String) (uid : Int) : Bool :=
  match c.nodes.lookup tag with
  | none => false
  | some state => (c.usersOf state).entries.any fun user ↦ user.2.id == uid

/-- A rollback comes after a sample of the same node, or names none of its users. -/
def Guarded (s : State) : Action → Prop
  | .advance i _ =>
    match s.threads[i]? with
    | some (.rollbackUserTrafficSlice tag traffic) =>
      sampledSince tag s.log = true ∨ ∀ report ∈ traffic, serves s.core tag report.uid = false
    | _ => True
  | _ => True

instance (s : State) (a : Action) : Decidable (Guarded s a) := by
  unfold Guarded
  repeat' split
  all_goals infer_instance

theorem rollbackLoop_of_some (keys : Table Int String) (traffic : List UserTraffic)
    (cursors : Table String TrafficPair) : rollbackLoop keys traffic (some cursors) ≠ none := by
  induction traffic generalizing cursors with
  | nil => nofun
  | cons report traffic ih =>
    unfold rollbackLoop
    split
    · exact ih cursors
    · next heq => cases heq
    · exact ih _

theorem rollbackLoop_of_unknown {keys : Table Int String} {traffic : List UserTraffic}
    (previous : Option (Table String TrafficPair))
    (h : ∀ report ∈ traffic, keys.lookup report.uid = none) :
    rollbackLoop keys traffic previous = some previous := by
  induction traffic with
  | nil => rfl
  | cons report traffic ih =>
    unfold rollbackLoop
    rw [h report mem_cons_self]
    exact ih fun r hr ↦ h r (mem_cons_of_mem _ hr)

structure Tracked (s : State) : Prop where
  quiet : s.panicked = false
  cursors : ∀ tag, sampledSince tag s.log = true → s.core.traffic.lookup tag ≠ none

theorem lookup_of_advances {c core : Core} {current : Table String TrafficPair} {ok : Bool}
    {thread next : Thread} {event : Option Event} {log : List Event}
    (h : Advances c current ok thread core next event)
    (hold : sampledSince tag log → c.traffic.lookup tag ≠ none)
    (hsampled : sampledSince tag (event.toList ++ log)) :
    core.traffic.lookup tag ≠ none := by
  cases h with
  | quiet htraffic _ =>
    rw [htraffic]
    exact hold hsampled
  | begins _ => exact hold hsampled
  | removes tag' =>
    simp only [toList_some, singleton_append, sampledSince, Bool.and_eq_true,
      bne_iff_ne] at hsampled
    rw [Core.remove, lookup_erase_ite, if_neg (Ne.symm hsampled.1)]
    exact hold hsampled.2
  | samples _ =>
    simp only [toList_some, singleton_append, sampledSince, Bool.or_eq_true, beq_iff_eq] at hsampled
    rw [Core.sample, lookup_insert_ite]
    split
    · nofun
    · next hne => exact hold (hsampled.resolve_left (Ne.symm hne))
  | @rollsBack tag' traffic state previous _ _ =>
    cases previous with
    | none => exact hold hsampled
    | some cursors =>
      rw [Core.setTraffic, lookup_insert_ite]
      split
      · nofun
      · exact hold hsampled

theorem Tracked.ne_panics (h : Tracked s) {i : Nat} {ok : Bool} {thread : Thread}
    (hthread : s.threads[i]? = some thread) (hguarded : Guarded s (.advance i ok))
    (current : Table String TrafficPair) : s.core.advance current ok thread ≠ .panics := by
  cases thread with
  | rollbackUserTrafficSlice tag traffic =>
    simp only [Guarded, hthread] at hguarded
    simp only [Core.advance]
    split
    · rintro ⟨⟩
    next state hstate =>
    have hsome : rollbackLoop (uidToPublicKey (s.core.usersOf state)) traffic
        (s.core.traffic.lookup tag) ≠ none := by
      rcases hguarded with hsampled | hunknown
      · obtain ⟨cursors, hcursors⟩ := ne_none_iff_exists'.mp (h.cursors tag hsampled)
        rw [hcursors]
        exact rollbackLoop_of_some _ _ _
      rw [rollbackLoop_of_unknown]
      · rintro ⟨⟩
      intro report hreport
      have hserves := hunknown report hreport
      simp only [serves, hstate] at hserves
      refine Option.eq_none_iff_forall_ne_some.mpr fun key hkey ↦ ?_
      obtain ⟨user, huser, hid, -⟩ := exists_of_lookup_index hkey
      exact List.any_eq_false.mp hserves user huser (by simp [hid])
    split
    · next hnone => exact absurd hnone hsome
    · rintro ⟨⟩
  | deleting | adding | removing =>
    simp only [Core.advance, Core.locked]
    repeat' split
    all_goals rintro ⟨⟩
  | addNode | applying | delNode | addUsers | delUsers | getUserTrafficSlice | sampling =>
    simp only [Core.advance]; split <;> rintro ⟨⟩
  | applyingUsers | done => rintro ⟨⟩

theorem Tracked.step {a : Action} (h : Tracked s) (hguarded : Guarded s a)
    (hstep : step s a = some t) : Tracked t := by
  cases a with
  | call thread =>
    obtain ⟨-, rfl⟩ := step_call hstep
    exact ⟨h.quiet, h.cursors⟩
  | transfer tag current =>
    obtain rfl := step_transfer hstep
    exact ⟨h.quiet, h.cursors⟩
  | advance i ok =>
    obtain ⟨thread, hthread, ⟨hpanics, -⟩ | ⟨core, next, event, hgoes, rfl⟩⟩ := step_advance hstep
    · exact absurd hpanics (h.ne_panics hthread hguarded _)
    · exact ⟨h.quiet, fun tag hsampled ↦
        lookup_of_advances (advances_of_advance hgoes) (h.cursors tag) hsampled⟩

/-- No call panics in a run whose rollbacks come after a sample of the node that is there, or
report none of its users. -/
theorem rollback_never_panics (h : Reach step Guarded initial s) : s.panicked = false := by
  have htracked : Tracked s :=
    h.invariant ⟨rfl, nofun⟩ fun _ _ _ hold hguarded hstep ↦ hold.step hguarded hstep
  exact htracked.quiet

def peer : User := ⟨"u", 7, "key"⟩

def report : List UserTraffic := [⟨7, 1700, 2600⟩]

def sampledRun : List Action :=
  [.call (.addNode "n" none), .advance 0 true, .advance 0 true,
    .call (.addUsers "n" [(peer, true)]), .advance 1 true, .advance 1 true, .advance 1 true,
    .transfer "n" (AList.singleton "key" ⟨1700, 2600⟩),
    .call (.getUserTrafficSlice "n" true), .advance 2 true, .advance 2 true]

def rolledBackRun : List Action :=
  sampledRun ++ [.call (.rollbackUserTrafficSlice "n" report), .advance 3 true]

theorem rollback_never_panics_sampled : ∃ s, Reach step Guarded initial s ∧
    s.log = [.rolledBack "n" report, .sampled "n" report] ∧ s.panicked = false := by
  obtain ⟨s, hs, hlog⟩ : ∃ s, Reach step Guarded initial s ∧
      s.log = [.rolledBack "n" report, .sampled "n" report] :=
    exists_reach rolledBackRun _ (by decide +kernel)
  exact ⟨s, hs, hlog, rollback_never_panics hs⟩

/-- The node is reloaded between the sample and the rollback. -/
theorem rollback_after_reload : ∃ s, Steps step initial s ∧ s.panicked = true :=
  exists_steps (sampledRun ++ [.call (.delNode "n"), .advance 3 true, .advance 3 true,
    .call (.addNode "n" none), .advance 4 true, .advance 4 true,
    .call (.addUsers "n" [(peer, true)]), .advance 5 true, .advance 5 true, .advance 5 true,
    .call (.rollbackUserTrafficSlice "n" report), .advance 6 true]) _ (by decide +kernel)

end AnixAgent.WireGuard.Rollbacks
