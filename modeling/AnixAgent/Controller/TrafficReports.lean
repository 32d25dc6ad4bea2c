import AnixAgent.Controller.UserSync
import AnixAgent.WireGuard.Machine

namespace AnixAgent.Controller.TrafficReports

open Lib.Tables UserSync List
open WireGuard.Machine (UserTraffic)

structure OnlineUser where
  uid : Int
  ip : String
  deriving DecidableEq

def mergeStep (acc : List (Int × String) × List OnlineUser) (user : OnlineUser) :
    List (Int × String) × List OnlineUser :=
  if user.uid = 0 ∨ user.ip = "" ∨ (user.uid, user.ip) ∈ acc.1 then acc
  else ((user.uid, user.ip) :: acc.1, acc.2 ++ [user])

def mergeOnlineDevices (users : List OnlineUser) : List OnlineUser :=
  (users.foldl mergeStep ([], [])).2

abbrev Online := Table Int (List String)

def int64 (n : Int) : Int := Int.bmod n (2 ^ 64)

def total (t : UserTraffic) : Int := int64 (t.upload + t.download)

/-- `onlineToReport`: users whose traffic in the window is below the minimum are left out. -/
def onlineToReport (deviceOnlineMinTraffic : Int) (devices : List OnlineUser)
    (window : List UserTraffic) : Online :=
  let nocount := (window.filter fun t ↦ total t < int64 (deviceOnlineMinTraffic * 1000)).map (·.uid)
  ((mergeOnlineDevices devices).filter (·.uid ∉ nocount)).foldl
    (fun data online ↦ data.insert online.uid ((data.lookup online.uid).getD [] ++ [online.ip])) ∅

def isSpace (c : Char) : Bool :=
  (9 ≤ c.toNat ∧ c.toNat ≤ 13) ∨ c.toNat ∈ [0x20, 0x85, 0xA0, 0x1680, 0x2028, 0x2029, 0x202F,
    0x205F, 0x3000] ∨ (0x2000 ≤ c.toNat ∧ c.toNat ≤ 0x200A)

def trimSpace (text : String) : String :=
  String.ofList (((text.toList.dropWhile isSpace).reverse.dropWhile isSpace).reverse)

structure OnlineIPs where
  userId : Nat
  ips : List String
  deriving DecidableEq

def mergeOnline (online : Table Nat Online) : List OnlineIPs :=
  let pairs := online.entries.flatMap fun users ↦ users.2.entries.flatMap fun user ↦
    if user.1 ≤ 0 then []
    else ((user.2.map trimSpace).filter (· ≠ "")).map fun address ↦ (user.1.toNat, address)
  ((pairs.map (·.1)).dedup.insertionSort (· ≤ ·)).map fun uid ↦
    ⟨uid, (((pairs.filter (·.1 = uid)).map (·.2)).dedup).insertionSort (· ≤ ·)⟩

structure UserBytes where
  userId : Nat
  uploadBytes : Nat
  downloadBytes : Nat
  deriving DecidableEq

structure TrafficReport where
  users : List UserBytes
  online : List OnlineIPs
  windowEndUnixMs : Int
  deriving DecidableEq

def trafficUsersPerBatch : Nat := 5000

theorem trafficUsersPerBatch_pos : 0 < trafficUsersPerBatch := by decide

def reported (entry : UserTraffic) : Option UserBytes :=
  if entry.uid ≤ 0 ∨ (entry.upload ≤ 0 ∧ entry.download ≤ 0) then none
  else some ⟨entry.uid.toNat, entry.upload.toNat, entry.download.toNat⟩

structure Handed where
  report : TrafficReport
  spooled : Bool
  deriving DecidableEq

/-- The batches of a window from `start` on, with `size` users each. `spool` gives the error of each
hand-over, by the start of its batch. Only the first batch's error is returned. -/
def spoolFrom (size : Nat) (hsize : 0 < size) (spool : Nat → Option String)
    (report : List UserBytes → TrafficReport) (users : List UserBytes) (start : Nat) :
    List Handed × Option String :=
  if start = 0 ∨ start < users.length then
    let batch := report ((users.drop start).take size)
    match spool start with
    | some err => ([⟨batch, false⟩], if start = 0 then some err else none)
    | none =>
      let rest := spoolFrom size hsize spool report users (start + size)
      (⟨batch, true⟩ :: rest.1, rest.2)
  else ([], none)
  termination_by users.length + 1 - start

/-- The report state of a node: each controller's latest online IPs, and whether the last report
had any. -/
structure Plane where
  online : Table Nat Online
  onlineSent : Bool

def nothingToReport (users : List UserBytes) (merged : List OnlineIPs) (onlineSent : Bool) : Bool :=
  users = [] ∧ merged = [] ∧ onlineSent = false

def Plane.submitTraffic (n : Plane) (controller : Nat) (window : List UserTraffic)
    (online : Online) (windowEnd : Int) (spool : Nat → Option String) :
    Plane × List Handed × Option String :=
  let n := { n with online := n.online.insert controller online }
  let merged := mergeOnline n.online
  let users := window.filterMap reported
  if nothingToReport users merged n.onlineSent then (n, [], none)
  else
    match spoolFrom trafficUsersPerBatch trafficUsersPerBatch_pos spool
        (fun batch ↦ ⟨batch, merged, windowEnd⟩) users 0 with
    | (handed, some err) => (n, handed, some err)
    | (handed, none) => ({ n with onlineSent := merged ≠ [] }, handed, none)

/-- What the task reads and changes of a controller. `rollbacker` is whether the core takes traffic
back, and `traffic` the counters of the dynamic speed limit, if it is on. -/
structure ControllerState where
  id : Nat
  stream : Bool
  rollbacker : Bool
  deviceOnlineMinTraffic : Int
  userList : List UserInfo
  traffic : Option (Table String Int)

/-- What the task meets: the window that the core gives, the online devices of the limiter and the
core, the time, and how the spool answers. -/
structure Inputs where
  window : Except String (List UserTraffic)
  limiterOnline : Except String (List OnlineUser)
  coreOnline : List OnlineUser
  windowEnd : Int
  spool : Nat → Option String

structure Effects where
  handed : List Handed
  rolledBack : Option (List UserTraffic)

def added (counter amount : Int) : Int := int64 (counter + amount)

def takenBack (counter amount : Int) : Int := max (int64 (counter - amount)) 0

def count (userList : List UserInfo) (change : Int → Int → Int) (counters : Table String Int)
    (entry : UserTraffic) : Table String Int :=
  match userList.find? (·.id = entry.uid) with
  | none => counters
  | some user =>
    counters.insert user.uuid (change ((counters.lookup user.uuid).getD 0) (total entry))

def ControllerState.counted (c : ControllerState) (change : Int → Int → Int) (window : List UserTraffic) :
    ControllerState :=
  { c with traffic := c.traffic.map fun counters ↦
      window.foldl (count c.userList change) counters }

def errNoStream : String := "the node has no Agent control stream"

def ControllerState.submitTraffic (c : ControllerState) (n : Plane) (window : List UserTraffic)
    (online : Online) (windowEnd : Int) (spool : Nat → Option String) :
    Plane × List Handed × Option String :=
  if c.stream then n.submitTraffic c.id window online windowEnd spool
  else (n, [], some errNoStream)

def Inputs.sampled (i : Inputs) : List UserTraffic :=
  match i.window with
  | .ok window => window
  | .error _ => []

def Inputs.devices (i : Inputs) : List OnlineUser :=
  (match i.limiterOnline with
  | .ok devices => devices
  | .error _ => []) ++ i.coreOnline

def reportUserTrafficTask (c : ControllerState) (n : Plane) (i : Inputs) :
    ControllerState × Plane × Effects :=
  let window := i.sampled
  let c := c.counted added window
  let online := onlineToReport c.deviceOnlineMinTraffic i.devices window
  match c.submitTraffic n window online i.windowEnd i.spool with
  | (n, handed, none) => (c, n, ⟨handed, none⟩)
  | (n, handed, some _) =>
    -- `rollbackTraffic`
    (c.counted takenBack window, n,
      ⟨handed, if c.rollbacker then some window else none⟩)

structure Batched (size : Nat) (users : List UserBytes) (start : Nat)
    (out : List Handed × Option String) : Prop where
  /-- The users of the batches are users of the window, in its order. -/
  inOrder : out.1.flatMap (·.report.users) <+: users.drop start
  bounded : ∀ h ∈ out.1, h.report.users.length ≤ size
  /-- Only the first batch's error is returned, and then nothing was spooled. -/
  failed : ∀ err, out.2 = some err → start = 0 ∧ ∀ h ∈ out.1, h.spooled = false
  passed : out.2 = none → start = 0 → ∃ h ∈ out.1, h.spooled = true
  /-- Without a failed batch the window is complete. -/
  complete : (∀ h ∈ out.1, h.spooled = true) → out.1.flatMap (·.report.users) = users.drop start

theorem batched_spoolFrom {size : Nat} (hsize : 0 < size) (spool : Nat → Option String)
    (report : List UserBytes → TrafficReport) (hreport : ∀ batch, (report batch).users = batch)
    (users : List UserBytes) (start : Nat) :
    Batched size users start (spoolFrom size hsize spool report users start) := by
  fun_induction spoolFrom size hsize spool report users start with
  | case1 start hstart batch err herr =>
    refine ⟨?_, ?_, ?_, ?_, ?_⟩
    · simpa [batch, hreport] using take_prefix size (users.drop start)
    · simp [batch, hreport]
    · simp
    · simp
    · simp
  | case2 start hstart batch hnone rest ih =>
    have hsplit : users.drop start = (users.drop start).take size ++ users.drop (start + size) := by
      rw [← drop_drop, take_append_drop]
    have hbatch : batch.users = (users.drop start).take size := hreport _
    refine ⟨?_, ?_, ?_, ?_, ?_⟩
    · have hprefix := (prefix_append_right_inj ((users.drop start).take size)).mpr ih.inOrder
      rw [← hsplit, ← hbatch] at hprefix
      exact hprefix
    · intro h hh
      rcases mem_cons.mp hh with rfl | hh
      · simp [batch, hreport]
      · exact ih.bounded h hh
    · intro err herr
      have hzero := (ih.failed err herr).1
      omega
    · intro _ _
      exact ⟨_, mem_cons_self, rfl⟩
    · intro hall
      have hrest := ih.complete fun h hh ↦ hall h (mem_cons_of_mem _ hh)
      rw [flatMap_cons, hrest, hbatch, ← hsplit]
  | case3 start hstart =>
    rw [not_or, Nat.not_lt] at hstart
    refine ⟨by simp, by simp, by simp, fun _ h ↦ absurd h hstart.1, fun _ ↦ ?_⟩
    simpa using (drop_eq_nil_of_le hstart.2).symm

/-- Whether the task has something to hand over: there is no stream, or a window to report. -/
def due (c : ControllerState) (n : Plane) (i : Inputs) : Bool :=
  !c.stream || !nothingToReport (i.sampled.filterMap reported)
    (mergeOnline (n.online.insert c.id
      (onlineToReport c.deviceOnlineMinTraffic i.devices i.sampled))) n.onlineSent

structure Submitted (stream isDue : Bool) (users : List UserBytes) (handed : List Handed)
    (err : Option String) : Prop where
  inOrder : handed.flatMap (·.report.users) <+: users
  bounded : ∀ h ∈ handed, h.report.users.length ≤ trafficUsersPerBatch
  failed : err.isSome = true ↔ isDue = true ∧ ∀ h ∈ handed, h.spooled = false
  complete : stream = true → (∀ h ∈ handed, h.spooled = true) →
    handed.flatMap (·.report.users) = users

theorem submitted (c : ControllerState) (n : Plane) (i : Inputs) :
    Submitted c.stream (due c n i) (i.sampled.filterMap reported)
      (c.submitTraffic n i.sampled (onlineToReport c.deviceOnlineMinTraffic i.devices i.sampled)
        i.windowEnd i.spool).2.1
      (c.submitTraffic n i.sampled (onlineToReport c.deviceOnlineMinTraffic i.devices i.sampled)
        i.windowEnd i.spool).2.2 := by
  unfold ControllerState.submitTraffic due
  cases c.stream with
  | false => exact ⟨by simp, by simp, by simp, by simp⟩
  | true =>
    simp only [if_true, Plane.submitTraffic, Bool.not_true, Bool.false_or]
    split
    · next hnothing =>
      have hempty : i.sampled.filterMap reported = [] := by
        simp only [nothingToReport, decide_eq_true_eq] at hnothing
        exact hnothing.1
      refine ⟨by simp, by simp, by simp [hnothing], by simp [hempty]⟩
    · next hdue =>
      rw [Bool.not_eq_true] at hdue
      have hbatched := batched_spoolFrom trafficUsersPerBatch_pos i.spool
        (fun batch ↦ ⟨batch, mergeOnline (n.online.insert c.id (onlineToReport
          c.deviceOnlineMinTraffic i.devices i.sampled)), i.windowEnd⟩) (fun _ ↦ rfl)
        (i.sampled.filterMap reported) 0
      revert hbatched
      split
      · next handed err hout =>
        intro hbatched
        rw [hout] at hbatched
        refine ⟨hbatched.inOrder, hbatched.bounded, ?_, fun _ ↦ hbatched.complete⟩
        simp only [Option.isSome_some, hdue, true_iff]
        exact ⟨rfl, (hbatched.failed err rfl).2⟩
      · next handed hout =>
        intro hbatched
        rw [hout] at hbatched
        refine ⟨hbatched.inOrder, hbatched.bounded, ?_, fun _ ↦ hbatched.complete⟩
        refine iff_of_false (by simp) fun h ↦ ?_
        obtain ⟨b, hb, hspooled⟩ := hbatched.passed rfl rfl
        rw [h.2 b hb] at hspooled
        cases hspooled

theorem task_effects (c : ControllerState) (n : Plane) (i : Inputs) :
    ∃ handed err, Submitted c.stream (due c n i) (i.sampled.filterMap reported) handed err ∧
      (reportUserTrafficTask c n i).2.2 =
        ⟨handed, if err.isSome ∧ c.rollbacker then some i.sampled else none⟩ := by
  have hsubmitted := submitted (c.counted added i.sampled) n i
  have hdue : due (c.counted added i.sampled) n i = due c n i := rfl
  rw [hdue] at hsubmitted
  refine ⟨_, _, hsubmitted, ?_⟩
  have hrollbacker : (c.counted added i.sampled).rollbacker = c.rollbacker := rfl
  simp only [reportUserTrafficTask, hrollbacker]
  generalize (c.counted added i.sampled).submitTraffic n i.sampled _ i.windowEnd i.spool = out
  rcases out with ⟨n', handed, _ | err⟩
  · rfl
  · simp

theorem userId_of_reported {entry : UserTraffic} {bytes : UserBytes}
    (h : reported entry = some bytes) : entry.uid = bytes.userId := by
  unfold reported at h
  split at h
  · cases h
  · cases h
    simp only
    omega

theorem countP_reported_le (window : List UserTraffic) (u : Nat) :
    (window.filterMap reported).countP (·.userId = u) ≤
      window.countP fun entry ↦ entry.uid = (u : Int) := by
  rw [countP_filterMap]
  refine countP_mono_left fun entry _ h ↦ ?_
  cases hentry : reported entry with
  | none =>
    rw [hentry] at h
    cases h
  | some bytes =>
    rw [hentry] at h
    have hu : bytes.userId = u := by simpa using h
    simpa [hu] using userId_of_reported hentry

/-- The batches hold the window's users that have traffic, in order, with their bytes and all of
them when the spool took every batch; the window goes back to the core, whole, exactly when a report
was due and no batch of it was spooled. -/
theorem window_spooled_or_given_back (c : ControllerState) (n : Plane) (i : Inputs) :
    let effects := (reportUserTrafficTask c n i).2.2
    effects.handed.flatMap (·.report.users) <+: i.sampled.filterMap reported ∧
      (∀ u : Nat, (effects.handed.flatMap (·.report.users)).countP (·.userId = u) ≤
        i.sampled.countP fun entry ↦ entry.uid = (u : Int)) ∧
      (∀ h ∈ effects.handed, h.report.users.length ≤ trafficUsersPerBatch) ∧
      (c.stream = true → (∀ h ∈ effects.handed, h.spooled = true) →
        effects.handed.flatMap (·.report.users) = i.sampled.filterMap reported) ∧
      (effects.rolledBack = some i.sampled ↔
        c.rollbacker = true ∧ due c n i = true ∧ ∀ h ∈ effects.handed, h.spooled = false) ∧
      (∀ window, effects.rolledBack = some window → window = i.sampled) := by
  obtain ⟨handed, err, hsubmitted, heffects⟩ := task_effects c n i
  rw [heffects]
  refine ⟨hsubmitted.inOrder, fun u ↦ ?_, hsubmitted.bounded, hsubmitted.complete, ?_, ?_⟩
  · exact hsubmitted.inOrder.sublist.countP_le.trans (countP_reported_le i.sampled u)
  · rw [← hsubmitted.failed]
    simp only [ite_eq_left_iff, reduceCtorEq, imp_false, not_not]
    exact and_comm
  intro window h
  split at h
  · cases h
    rfl
  · cases h

def quietController : ControllerState := ⟨1, true, true, 0, [], none⟩

def quietInputs : Inputs := ⟨.ok [], .ok [], [], 0, fun _ ↦ none⟩

/-- Nothing is handed over for such a window, and nothing goes back. -/
theorem quiet_window_not_given_back :
    (reportUserTrafficTask quietController ⟨∅, false⟩ quietInputs).2.2.handed = [] ∧
      (reportUserTrafficTask quietController ⟨∅, false⟩ quietInputs).2.2.rolledBack = none := by
  decide

end AnixAgent.Controller.TrafficReports
