import AnixAgent.WireGuard.Machine

namespace AnixAgent.WireGuard.Traffic

open Lib.Runs Lib.Tables Machine List Option

inductive Direction
  | upload
  | download
  deriving DecidableEq

def Direction.pair : Direction → TrafficPair → Int
  | .upload, pair => pair.upload
  | .download, pair => pair.download

def Direction.report : Direction → UserTraffic → Int
  | .upload, report => report.upload
  | .download, report => report.download

def entriesOf (uid : Int) (traffic : List UserTraffic) : List UserTraffic :=
  traffic.filter (·.uid == uid)

def amount (uid : Int) (d : Direction) (traffic : List UserTraffic) : Int :=
  ((entriesOf uid traffic).map d.report).sum

/-- The bytes of a user in the reports of the tag that were not given back. -/
def reported (tag : String) (uid : Int) (d : Direction) : List Event → Int
  | [] => 0
  | .sampled tag' traffic :: log =>
    (if tag' = tag then amount uid d traffic else 0) + reported tag uid d log
  | .rolledBack tag' traffic :: log =>
    (if tag' = tag then - amount uid d traffic else 0) + reported tag uid d log
  | .removed _ :: log => reported tag uid d log

/-- The last report of the tag, if it was not given back. -/
def undecided (tag : String) : List Event → Option (List UserTraffic)
  | [] => none
  | .sampled tag' traffic :: log => if tag' = tag then some traffic else undecided tag log
  | .rolledBack tag' _ :: log => if tag' = tag then none else undecided tag log
  | .removed tag' :: log => if tag' = tag then none else undecided tag log

def cursorIn (cursors : Option (Table String TrafficPair)) (key : String) : TrafficPair :=
  ((cursors.getD ∅).lookup key).getD ⟨0, 0⟩

def cursor (c : Core) (tag key : String) : TrafficPair := cursorIn (c.traffic.lookup tag) key

def counter (s : State) (tag key : String) : TrafficPair :=
  ((s.counter tag).lookup key).getD ⟨0, 0⟩

variable {tag : String} {p : Nat} {peer : User} {s t : State} {c core : Core}

structure Present (tag : String) (p : Nat) (peer : User) (c : Core) : Prop where
  current : c.nodes.lookup tag = some p
  user : (c.usersOf p).lookup peer.uuid = some peer
  unique : ∀ uuid user, (c.usersOf p).lookup uuid = some user →
    user.publicKey = peer.publicKey ∨ user.id = peer.id → user = peer

theorem present_iff (tag : String) (p : Nat) (peer : User) (c : Core) :
    c.nodes.lookup tag = some p ∧ (c.usersOf p).lookup peer.uuid = some peer ∧
      (∀ x ∈ (c.usersOf p).entries, x.2.publicKey = peer.publicKey ∨ x.2.id = peer.id →
        x.2 = peer) ↔ Present tag p peer c := by
  constructor
  · rintro ⟨hcurrent, huser, hunique⟩
    exact ⟨hcurrent, huser, fun uuid user hlookup ↦
      hunique ⟨uuid, user⟩ (AList.mem_lookup_iff.mp hlookup)⟩
  · rintro ⟨hcurrent, huser, hunique⟩
    exact ⟨hcurrent, huser, fun x hx ↦ hunique x.1 x.2 (AList.mem_lookup_iff.mpr hx)⟩

instance (tag : String) (p : Nat) (peer : User) (c : Core) : Decidable (Present tag p peer c) :=
  decidable_of_iff _ (present_iff tag p peer c)

structure Names (peer : User) (keys : Table String Int) : Prop where
  own : keys.lookup peer.publicKey = some peer.id
  other : ∀ key, keys.lookup key = some peer.id → key = peer.publicKey

section

variable (h : Present tag p peer c)
include h

theorem Present.mem : ⟨peer.uuid, peer⟩ ∈ (c.usersOf p).entries :=
  AList.mem_lookup_iff.mp h.user

theorem Present.eq_of_mem {x : Sigma fun _ : String ↦ User} (hx : x ∈ (c.usersOf p).entries)
    (heq : x.2.publicKey = peer.publicKey ∨ x.2.id = peer.id) : x.2 = peer :=
  h.unique x.1 x.2 (AList.mem_lookup_iff.mpr hx) heq

theorem Present.names :
    Names peer (publicKeyToUID (c.usersOf p)) where
  own := lookup_index_of_unique (f := fun x ↦ x.2.publicKey) (g := fun x ↦ x.2.id) h.mem
    fun _ hy heq ↦ congrArg User.id (h.eq_of_mem hy (.inl heq))
  other := by
    intro key hkey
    obtain ⟨x, hx, rfl, hid⟩ := exists_of_lookup_index hkey
    exact congrArg User.publicKey (h.eq_of_mem hx (.inr hid))

theorem Present.lookup_uidToPublicKey :
    (uidToPublicKey (c.usersOf p)).lookup peer.id = some peer.publicKey :=
  lookup_index_of_unique (f := fun x ↦ x.2.id) (g := fun x ↦ x.2.publicKey) h.mem
    fun _ hy heq ↦ congrArg User.publicKey (h.eq_of_mem hy (.inr heq))

theorem Present.id_of_lookup {uid : Int}
    (huid : (uidToPublicKey (c.usersOf p)).lookup uid = some peer.publicKey) : uid = peer.id := by
  obtain ⟨x, hx, rfl, hkey⟩ := exists_of_lookup_index huid
  exact congrArg User.id (h.eq_of_mem hx (.inl hkey))

end

variable {keys : Table String Int} {threshold : Int}

theorem entriesOf_append (uid : Int) (l l' : List UserTraffic) :
    entriesOf uid (l ++ l') = entriesOf uid l ++ entriesOf uid l' :=
  filter_append ..

theorem sampleLine_other (hkeys : Names peer keys) (reset : Bool) (threshold : Int)
    (acc : Table String TrafficPair × List UserTraffic)
    {line : Sigma fun _ : String ↦ TrafficPair} (hline : line.1 ≠ peer.publicKey) :
    (sampleLine keys reset threshold acc line).1.lookup peer.publicKey =
        acc.1.lookup peer.publicKey ∧
      entriesOf peer.id (sampleLine keys reset threshold acc line).2 = entriesOf peer.id acc.2 := by
  have hne : ∀ uid, (keys.lookup line.1).getD 0 = uid → uid ≠ 0 → uid ≠ peer.id := by
    rintro uid huid hzero rfl
    cases hlookup : keys.lookup line.1 with
    | none =>
      rw [hlookup] at huid
      exact hzero huid.symm
    | some id =>
      rw [hlookup] at huid
      exact hline (hkeys.other _ (hlookup.trans (congrArg some huid)))
  have hprevious : (if reset then acc.1.insert line.1 line.2 else acc.1).lookup peer.publicKey =
      acc.1.lookup peer.publicKey := by
    split
    · rw [lookup_insert_ite, if_neg (Ne.symm hline)]
    · rfl
  unfold sampleLine
  dsimp only
  split
  · exact ⟨rfl, rfl⟩
  next hzero =>
  split
  · exact ⟨hprevious, rfl⟩
  refine ⟨hprevious, ?_⟩
  have hother := hne _ rfl hzero
  rw [entriesOf_append]
  simp [entriesOf, hother]

theorem foldl_sampleLine_other (hkeys : Names peer keys) (reset : Bool) (threshold : Int)
    (lines : List (Sigma fun _ : String ↦ TrafficPair))
    (acc : Table String TrafficPair × List UserTraffic)
    (hlines : ∀ line ∈ lines, line.1 ≠ peer.publicKey) :
    (lines.foldl (sampleLine keys reset threshold) acc).1.lookup peer.publicKey =
        acc.1.lookup peer.publicKey ∧
      entriesOf peer.id (lines.foldl (sampleLine keys reset threshold) acc).2 =
        entriesOf peer.id acc.2 := by
  induction lines generalizing acc with
  | nil => exact ⟨rfl, rfl⟩
  | cons line lines ih =>
    obtain ⟨hcursor, hentries⟩ :=
      sampleLine_other hkeys reset threshold acc (hlines line mem_cons_self)
    obtain ⟨hcursor', hentries'⟩ := ih (sampleLine keys reset threshold acc line)
      fun line hline ↦ hlines line (mem_cons_of_mem _ hline)
    exact ⟨hcursor'.trans hcursor, hentries'.trans hentries⟩

def entryOf (peer : User) (threshold : Int) (last now : TrafficPair) : List UserTraffic :=
  let report := window true last now
  if wrap (report.upload + report.download) ≤ threshold then []
  else [⟨peer.id, report.upload, report.download⟩]

theorem sampleLine_own (hkeys : Names peer keys) (hid : peer.id ≠ 0)
    (acc : Table String TrafficPair × List UserTraffic) (now : TrafficPair) :
    sampleLine keys true threshold acc ⟨peer.publicKey, now⟩ = (acc.1.insert peer.publicKey now,
        acc.2 ++ entryOf peer threshold ((acc.1.lookup peer.publicKey).getD ⟨0, 0⟩) now) := by
  unfold sampleLine entryOf
  simp only [hkeys.own, getD_some, if_neg hid, if_true]
  split
  · rw [append_nil]
  · rfl

theorem entriesOf_entryOf (peer : User) (threshold : Int) (last now : TrafficPair) :
    entriesOf peer.id (entryOf peer threshold last now) = entryOf peer threshold last now := by
  unfold entryOf
  dsimp only
  split
  · rfl
  · simp [entriesOf]

theorem foldl_sampleLine (hkeys : Names peer keys) (hid : peer.id ≠ 0) (threshold : Int)
    (current previous : Table String TrafficPair) :
    match current.lookup peer.publicKey with
    | none =>
      (current.entries.foldl (sampleLine keys true threshold) (previous, [])).1.lookup
          peer.publicKey = previous.lookup peer.publicKey ∧
      entriesOf peer.id
        (current.entries.foldl (sampleLine keys true threshold) (previous, [])).2 = []
    | some now =>
      (current.entries.foldl (sampleLine keys true threshold) (previous, [])).1.lookup
          peer.publicKey = some now ∧
      entriesOf peer.id (current.entries.foldl (sampleLine keys true threshold) (previous, [])).2 =
        entryOf peer threshold ((previous.lookup peer.publicKey).getD ⟨0, 0⟩) now := by
  split
  · next hnone =>
    refine foldl_sampleLine_other hkeys true threshold _ _ ?_
    rintro ⟨key, now⟩ hline rfl
    rw [AList.mem_lookup_iff.mpr hline] at hnone
    cases hnone
  · next now hnow =>
    obtain ⟨before, after, hentries⟩ := append_of_mem (AList.mem_lookup_iff.mp hnow)
    have hnodup := current.nodupKeys
    rw [hentries, nodupKeys_iff_pairwise] at hnodup
    obtain ⟨-, hafter, hbefore⟩ := pairwise_append.mp hnodup
    rw [pairwise_cons] at hafter
    obtain ⟨hcursor, hslice⟩ := foldl_sampleLine_other hkeys true threshold before (previous, [])
      fun line hline ↦ hbefore line hline _ mem_cons_self
    rw [hentries, foldl_append, foldl_cons, sampleLine_own hkeys hid]
    obtain ⟨hcursor', hslice'⟩ := foldl_sampleLine_other hkeys true threshold after _
      fun line hline ↦ Ne.symm (hafter.1 line hline)
    rw [hcursor', hslice', hcursor, entriesOf_append, hslice, entriesOf_entryOf]
    exact ⟨AList.lookup_insert _, rfl⟩

/-- The window is empty, or it is over the threshold and its sum an `int64`. -/
def Fair (threshold : Int) (last now : TrafficPair) : Prop :=
  now = last ∨ threshold < (now.upload - last.upload) + (now.download - last.download) ∧
    (now.upload - last.upload) + (now.download - last.download) < 2 ^ 63

/-- The report can be given back: it has at most one entry for the peer, which its cursor covers. -/
def Covers (uid : Int) (cursor : TrafficPair) (traffic : List UserTraffic) : Prop :=
  entriesOf uid traffic = [] ∨ ∃ report, entriesOf uid traffic = [report] ∧
    ∀ d : Direction, 0 ≤ d.report report ∧ d.report report ≤ d.pair cursor

structure Between (last now : TrafficPair) : Prop where
  nonneg : ∀ d : Direction, 0 ≤ d.pair last
  le : ∀ d : Direction, d.pair last ≤ d.pair now
  lt : ∀ d : Direction, d.pair now < 2 ^ 63

variable {last now : TrafficPair}

theorem entryOf_fair (peer : User) (hbetween : Between last now) (hfair : Fair threshold last now) :
    (entryOf peer threshold last now = [] ∧ now = last) ∨ entryOf peer threshold last now =
        [⟨peer.id, now.upload - last.upload, now.download - last.download⟩] := by
  have hup := hbetween.le .upload
  have hdown := hbetween.le .download
  simp only [Direction.pair] at hup hdown
  have hsum : (now.upload - last.upload) + (now.download - last.download) < 2 ^ 63 := by
    rcases hfair with rfl | hfair
    · simp
    · exact hfair.2
  have hwindow : window true last now =
      ⟨now.upload - last.upload, now.download - last.download⟩ := by
    unfold window
    rw [if_pos rfl, wrap_of_lt (by omega) (by omega), wrap_of_lt (by omega) (by omega)]
    exact if_neg (by simp only; omega)
  unfold entryOf
  dsimp only
  rw [hwindow, wrap_of_lt (by omega) hsum]
  split
  · next hle =>
    rcases hfair with heq | hfair
    · exact .inl ⟨rfl, heq⟩
    · exact absurd hle (by omega)
  · exact .inr rfl

variable {traffic : List UserTraffic}

theorem amount_entryOf_fair (hbetween : Between last now) (hfair : Fair threshold last now)
    (htraffic : entriesOf peer.id traffic = entryOf peer threshold last now) :
    (∀ d, amount peer.id d traffic = d.pair now - d.pair last) ∧ Covers peer.id now traffic := by
  rcases entryOf_fair peer hbetween hfair with ⟨hentry, rfl⟩ | hentry
  · rw [hentry] at htraffic
    refine ⟨fun d ↦ ?_, .inl htraffic⟩
    rw [amount, htraffic, Int.sub_self]
    rfl
  · rw [hentry] at htraffic
    refine ⟨fun d ↦ ?_, .inr ⟨_, htraffic, fun d ↦ ?_⟩⟩
    · rw [amount, htraffic]
      cases d <;> simp [Direction.report, Direction.pair]
    · have hlow := hbetween.nonneg d
      have hle := hbetween.le d
      cases d <;> (simp only [Direction.report, Direction.pair] at hlow hle ⊢; omega)

theorem sample_fair (hkeys : Names peer keys) (hid : peer.id ≠ 0) {state : Nat}
    {current : Table String TrafficPair} (hnow : (current.lookup peer.publicKey).getD ⟨0, 0⟩ = now)
    (hbetween : Between (cursor c tag peer.publicKey) now)
    (hfair : Fair (c.threshold state) (cursor c tag peer.publicKey) now) :
    cursor (c.sample tag state keys true current).1 tag peer.publicKey = now ∧
    (∀ d, amount peer.id d (c.sample tag state keys true current).2 =
      d.pair now - d.pair (cursor c tag peer.publicKey)) ∧
    Covers peer.id now (c.sample tag state keys true current).2 := by
  have hloop := foldl_sampleLine hkeys hid (c.threshold state) current
    ((c.traffic.lookup tag).getD ∅)
  have hcursor (cursors : Table String TrafficPair) :
      cursorIn ((c.traffic.insert tag cursors).lookup tag) peer.publicKey =
        (cursors.lookup peer.publicKey).getD ⟨0, 0⟩ := by
    rw [AList.lookup_insert]
    rfl
  unfold Core.sample cursor
  dsimp only
  rw [hcursor]
  split at hloop
  · next hnone =>
    -- a peer without a line has no traffic: its cursor is zero as its counter is
    rw [hnone] at hnow
    subst hnow
    have hzero : cursor c tag peer.publicKey = ⟨0, 0⟩ := by
      ext
      · exact Int.le_antisymm (hbetween.le .upload) (hbetween.nonneg .upload)
      · exact Int.le_antisymm (hbetween.le .download) (hbetween.nonneg .download)
    refine ⟨?_, fun d ↦ ?_, .inl hloop.2⟩
    · rw [hloop.1]
      exact hzero
    · rw [amount, hloop.2]
      change 0 = d.pair ⟨0, 0⟩ - d.pair (cursor c tag peer.publicKey)
      rw [hzero, Int.sub_self]
  · next now' hlookup =>
    rw [hlookup] at hnow
    subst hnow
    refine ⟨?_, amount_entryOf_fair hbetween hfair hloop.2⟩
    rw [hloop.1]

theorem cursorIn_insert (cursors : Table String TrafficPair) (key key' : String)
    (pair : TrafficPair) : cursorIn (some (cursors.insert key pair)) key' =
      if key' = key then pair else cursorIn (some cursors) key' := by
  unfold cursorIn
  rw [getD_some, lookup_insert_ite]
  split <;> rfl

variable {previous : Option (Table String TrafficPair)}

theorem rollbackLoop_cursor {uids : Table Int String}
    (hown : uids.lookup peer.id = some peer.publicKey)
    (hother : ∀ uid, uids.lookup uid = some peer.publicKey → uid = peer.id)
    {after : Option (Table String TrafficPair)}
    (h : rollbackLoop uids traffic previous = some after) :
    cursorIn after peer.publicKey =
      (entriesOf peer.id traffic).foldl backCursor (cursorIn previous peer.publicKey) := by
  induction traffic generalizing previous with
  | nil =>
    cases h
    rfl
  | cons report traffic ih =>
    unfold rollbackLoop at h
    by_cases heq : report.uid = peer.id
    · have hentries : entriesOf peer.id (report :: traffic) = report :: entriesOf peer.id traffic :=
        filter_cons_of_pos (by simp [heq])
      rw [heq, hown] at h
      cases previous with
      | none => cases h
      | some cursors =>
        rw [ih h, hentries, foldl_cons, cursorIn_insert, if_pos rfl]
        rfl
    · have hentries : entriesOf peer.id (report :: traffic) = entriesOf peer.id traffic :=
        filter_cons_of_neg (by simp [heq])
      rw [hentries]
      split at h
      · exact ih h
      · cases h
      next key cursors hkey =>
      rw [ih h, cursorIn_insert, if_neg]
      rintro rfl
      exact heq (hother _ hkey)

theorem rollbackLoop_eq_none {uids : Table Int String}
    (h : rollbackLoop uids traffic previous = some none) : previous = none := by
  induction traffic generalizing previous with
  | nil =>
    cases h
    rfl
  | cons report traffic ih =>
    unfold rollbackLoop at h
    split at h
    · exact ih h
    · cases h
    · cases ih h

theorem backCursor_of_le {report : UserTraffic}
    (h : ∀ d : Direction, 0 ≤ d.report report ∧ d.report report ≤ d.pair last)
    (hlt : ∀ d : Direction, d.pair last < 2 ^ 63) :
    ∀ d : Direction, d.pair (backCursor last report) = d.pair last - d.report report := by
  intro d
  obtain ⟨hlow, hle⟩ := h d
  have hhigh := hlt d
  cases d with
  | upload =>
    simp only [Direction.pair, Direction.report] at hlow hle hhigh ⊢
    rw [backCursor, wrap_of_lt (by omega) (by omega)]
    dsimp only
    omega
  | download =>
    simp only [Direction.pair, Direction.report] at hlow hle hhigh ⊢
    rw [backCursor, wrap_of_lt (n := last.download - report.download) (by omega) (by omega)]
    dsimp only
    omega

theorem rollback_covered (hpresent : Present tag p peer c)
    (hloop : rollbackLoop (uidToPublicKey (c.usersOf p)) traffic (c.traffic.lookup tag) = some previous)
    (hcovers : Covers peer.id (cursor c tag peer.publicKey) traffic)
    (hnonneg : ∀ d : Direction, 0 ≤ d.pair (cursor c tag peer.publicKey))
    (hlt : ∀ d : Direction, d.pair (cursor c tag peer.publicKey) < 2 ^ 63) (d : Direction) :
    d.pair (cursor (c.setTraffic tag previous) tag peer.publicKey) =
        d.pair (cursor c tag peer.publicKey) - amount peer.id d traffic ∧
      0 ≤ amount peer.id d traffic ∧
      amount peer.id d traffic ≤ d.pair (cursor c tag peer.publicKey) := by
  have hcursor : cursor (c.setTraffic tag previous) tag peer.publicKey =
      cursorIn previous peer.publicKey := by
    cases previous with
    | none =>
      rw [cursor, Core.setTraffic, rollbackLoop_eq_none hloop]
    | some cursors =>
      rw [cursor, Core.setTraffic, AList.lookup_insert]
  rw [hcursor, rollbackLoop_cursor hpresent.lookup_uidToPublicKey
    (fun _ huid ↦ hpresent.id_of_lookup huid) hloop]
  change d.pair ((entriesOf peer.id traffic).foldl backCursor (cursor c tag peer.publicKey)) = _ ∧ _
  rcases hcovers with hnone | ⟨report, hone, hle⟩
  · simp [amount, hnone, hnonneg d]
  have hamount : amount peer.id d traffic = d.report report := by
    simp [amount, hone]
  rw [hone, hamount, foldl_cons, foldl_nil, backCursor_of_le hle hlt]
  exact ⟨rfl, hle d⟩

/-- What a call that works on the cursors of the tag brings: it samples with reset, for the peer's
node and with a map that names the peer, or it gives back the last report. -/
def Fits (tag : String) (p : Nat) (peer : User) (log : List Event) : Thread → Prop
  | .getUserTrafficSlice tag' reset => tag' = tag → reset = true
  | .sampling tag' state reset keys => tag' = tag → state = p ∧ reset = true ∧ Names peer keys
  | .rollbackUserTrafficSlice tag' traffic => tag' = tag → undecided tag log = some traffic
  | _ => True

/-- The steps that the account allows: the peer stays a user of the node, the calls for the tag come
one after the other, each samples with reset or gives back the last report, the counters do not go
back, and each window is fair. -/
structure Metered (tag : String) (p : Nat) (peer : User) (s : State) (a : Action) : Prop where
  before : Present tag p peer s.core
  after : ∀ t, step s a = some t → Present tag p peer t.core
  calls : ∀ thread, a = .call thread → thread.reports tag = true →
    (∀ x ∈ s.threads, x.reports tag = false) ∧ Fits tag p peer s.log thread
  counters : ∀ current, a = .transfer tag current → ∀ d : Direction,
    d.pair (counter s tag peer.publicKey) ≤
        d.pair ((current.lookup peer.publicKey).getD ⟨0, 0⟩) ∧
      d.pair ((current.lookup peer.publicKey).getD ⟨0, 0⟩) < 2 ^ 63
  fair : ∀ (i state : Nat) (reset : Bool) (keys : Table String Int), a = .advance i true →
    s.threads[i]? = some (.sampling tag state reset keys) →
    Fair (s.core.threshold state) (cursor s.core tag peer.publicKey)
      (counter s tag peer.publicKey)

def Single (tag : String) (threads : List Thread) : Prop :=
  ∀ (i j : Nat) (x y : Thread), threads[i]? = some x → threads[j]? = some y →
    x.reports tag = true → y.reports tag = true → i = j

structure Account (tag : String) (p : Nat) (peer : User) (s₀ s : State) : Prop where
  present : Present tag p peer s.core
  between : Between (cursor s.core tag peer.publicKey) (counter s tag peer.publicKey)
  single : Single tag s.threads
  fits : ∀ x ∈ s.threads, Fits tag p peer s.log x
  covered : ∀ traffic ∈ undecided tag s.log,
    Covers peer.id (cursor s.core tag peer.publicKey) traffic
  total : ∀ d, reported tag peer.id d s.log - reported tag peer.id d s₀.log =
    d.pair (cursor s.core tag peer.publicKey) - d.pair (cursor s₀.core tag peer.publicKey)

variable {s₀ : State} {i : Nat} {thread next : Thread} {log : List Event}

theorem Single.set (h : Single tag s.threads) (hi : s.threads[i]? = some thread)
    (hnext : next.reports tag → thread.reports tag) :
    Single tag (s.threads.set i next) := by
  -- a reporting thread of the new list stands where one stood before
  have hold {j : Nat} {x : Thread} (hj : (s.threads.set i next)[j]? = some x)
      (hx : x.reports tag) : ∃ y, s.threads[j]? = some y ∧ y.reports tag := by
    rw [getElem?_set] at hj
    split at hj
    · next heq =>
      subst heq
      obtain ⟨-, hj⟩ := ite_none_right_eq_some.mp hj
      cases hj
      exact ⟨thread, hi, hnext hx⟩
    · exact ⟨x, hj, hx⟩
  intro j k x y hj hk hx hy
  obtain ⟨x', hj', hx'⟩ := hold hj hx
  obtain ⟨y', hk', hy'⟩ := hold hk hy
  exact h j k x' y' hj' hk' hx' hy'

theorem Single.append {threads : List Thread} (h : Single tag threads)
    (hidle : next.reports tag → ∀ x ∈ threads, x.reports tag = false) :
    Single tag (threads ++ [next]) := by
  -- two of them are both old, or one is the new one and the other cannot be old
  have hlast {j : Nat} {x : Thread} (hj : (threads ++ [next])[j]? = some x) :
      threads[j]? = some x ∨ j = threads.length ∧ x = next := by
    rw [getElem?_append] at hj
    split at hj
    · exact .inl hj
    · obtain ⟨hlt, heq⟩ := List.getElem?_eq_some_iff.mp hj
      rw [length_singleton] at hlt
      exact .inr ⟨by omega, by simpa using heq.symm⟩
  intro j k x y hj hk hx hy
  rcases hlast hj with hj' | ⟨rfl, rfl⟩
  · rcases hlast hk with hk' | ⟨rfl, rfl⟩
    · exact h j k x y hj' hk' hx hy
    · rw [hidle hy x (mem_of_getElem? hj')] at hx
      cases hx
  · rcases hlast hk with hk' | ⟨rfl, -⟩
    · rw [hidle hx y (mem_of_getElem? hk')] at hy
      cases hy
    · rfl

theorem Fits.of_undecided (h : Fits tag p peer s.log thread)
    (hundecided : undecided tag log = undecided tag s.log) : Fits tag p peer log thread := by
  cases thread with
  | rollbackUserTrafficSlice tag' traffic => exact fun htag ↦ hundecided.trans (h htag)
  | _ => exact h

theorem fits_of_idle (h : thread.reports tag = false) : Fits tag p peer log thread := by
  cases thread with
  | getUserTrafficSlice | sampling | rollbackUserTrafficSlice =>
    exact fun htag ↦ absurd htag (beq_eq_false_iff_ne.mp h)
  | _ => exact trivial

theorem Account.section_frame (h : Account tag p peer s₀ s) (hi : s.threads[i]? = some thread)
    (hpresent : Present tag p peer core)
    (hcursor : cursor core tag peer.publicKey = cursor s.core tag peer.publicKey)
    (hreported : ∀ d, reported tag peer.id d log = reported tag peer.id d s.log)
    (hundecided : undecided tag log = undecided tag s.log)
    (hnext : next.reports tag → thread.reports tag)
    (hfits : Fits tag p peer s.log next) :
    Account tag p peer s₀
      { s with core := core, threads := s.threads.set i next, log := log } where
  present := hpresent
  between := by
    rw [hcursor]
    exact h.between
  single := h.single.set hi hnext
  fits := by
    intro x hx
    rcases mem_or_eq_of_mem_set hx with hx | rfl
    · exact (h.fits x hx).of_undecided hundecided
    · exact hfits.of_undecided hundecided
  covered := by
    rw [hundecided, hcursor]
    exact h.covered
  total := by
    intro d
    rw [hreported, hcursor]
    exact h.total d

theorem Account.settle (h : Account tag p peer s₀ s) (hi : s.threads[i]? = some thread)
    (hthread : thread.reports tag) (hpresent : Present tag p peer core)
    (hbetween : Between (cursor core tag peer.publicKey) (counter s tag peer.publicKey))
    (hcovered : ∀ traffic ∈ undecided tag log,
      Covers peer.id (cursor core tag peer.publicKey) traffic)
    (htotal : ∀ d, reported tag peer.id d log - reported tag peer.id d s.log =
      d.pair (cursor core tag peer.publicKey) - d.pair (cursor s.core tag peer.publicKey)) :
    Account tag p peer s₀
      { s with core := core, threads := s.threads.set i .done, log := log } where
  present := hpresent
  between := hbetween
  single := h.single.set hi nofun
  fits := by
    intro x hx
    obtain ⟨j, hj⟩ := mem_iff_getElem?.mp hx
    apply fits_of_idle
    by_contra hreports
    rw [Bool.not_eq_false] at hreports
    rw [getElem?_set] at hj
    split at hj
    · obtain ⟨-, hj⟩ := ite_none_right_eq_some.mp hj
      cases hj
      cases hreports
    · next hne => exact hne (h.single i j thread x hi hj hthread hreports)
  covered := hcovered
  total := by
    intro d
    have hold := h.total d
    have hnew := htotal d
    dsimp only
    omega

theorem cursor_setTraffic {tag' : String} (hne : tag' ≠ tag) (key : String)
    (previous : Option (Table String TrafficPair)) :
    cursor (c.setTraffic tag' previous) tag key = cursor c tag key := by
  cases previous with
  | none => rfl
  | some cursors =>
    rw [cursor, Core.setTraffic, lookup_insert_ite, if_neg (Ne.symm hne)]
    rfl

theorem Account.advance {ok : Bool} {event : Option Event}
    (h : Account tag p peer s₀ s) (hid : peer.id ≠ 0) (hi : s.threads[i]? = some thread)
    (hmetered : Metered tag p peer s (.advance i ok)) (hpresent : Present tag p peer core)
    (hadvances : Advances s.core (s.counter thread.tag) ok thread core next event) :
    Account tag p peer s₀
      { s with core := core, threads := s.threads.set i next, log := event.toList ++ s.log } := by
  have hfits := h.fits thread (mem_of_getElem? hi)
  cases hadvances with
  | quiet htraffic hnext =>
    refine h.section_frame hi hpresent ?_ (fun _ ↦ rfl) rfl ?_ (fits_of_idle (hnext tag))
    · rw [cursor, htraffic]
      rfl
    · intro hreports
      rw [hnext tag] at hreports
      cases hreports
  | @begins tag' reset state hstate =>
    refine h.section_frame hi hpresent rfl (fun _ ↦ rfl) rfl id ?_
    rintro rfl
    obtain rfl : state = p := Option.some.inj (hstate.symm.trans h.present.current)
    exact ⟨rfl, hfits rfl, h.present.names⟩
  | removes tag' =>
    have hne : tag' ≠ tag := by
      rintro rfl
      have hcurrent := hpresent.current
      rw [Core.remove, AList.lookup_erase] at hcurrent
      cases hcurrent
    refine h.section_frame hi hpresent ?_ (fun _ ↦ rfl) (if_neg hne) nofun trivial
    rw [cursor, Core.remove, lookup_erase_ite, if_neg (Ne.symm hne)]
    rfl
  | @samples tag' state reset keys hok =>
    by_cases hne : tag' = tag
    · subst hne
      obtain ⟨rfl, rfl, hkeys⟩ := hfits rfl
      subst hok
      have hfair := hmetered.fair i state true keys rfl hi
      obtain ⟨hcursor, hamount, hcovers⟩ := sample_fair hkeys hid rfl h.between hfair
      rw [Thread.tag] at hpresent ⊢
      refine h.settle hi (beq_self_eq_true _) hpresent ?_ ?_ fun d ↦ ?_
      · rw [hcursor]
        exact ⟨fun d ↦ Int.le_trans (h.between.nonneg d) (h.between.le d), fun _ ↦ Int.le_refl _,
          h.between.lt⟩
      · intro traffic htraffic
        simp only [toList_some, singleton_append, undecided, if_true, mem_some_iff] at htraffic
        rw [hcursor, ← htraffic]
        exact hcovers
      · simp only [toList_some, singleton_append, reported, if_true]
        rw [hcursor, ← hamount d]
        omega
    · refine h.section_frame hi hpresent ?_ (fun _ ↦ ?_) (if_neg hne) nofun trivial
      · rw [cursor, Core.sample, lookup_insert_ite, if_neg (Ne.symm hne)]
        rfl
      · simp [reported, hne]
  | @rollsBack tag' traffic state previous hstate hloop =>
    by_cases hne : tag' = tag
    · subst hne
      obtain rfl : state = p := Option.some.inj (hstate.symm.trans h.present.current)
      have hback := rollback_covered h.present hloop (h.covered traffic (hfits rfl))
        h.between.nonneg fun d ↦ Int.lt_of_le_of_lt (h.between.le d) (h.between.lt d)
      refine h.settle hi (beq_self_eq_true _) hpresent ⟨fun d ↦ ?_, fun d ↦ ?_, h.between.lt⟩ ?_
        fun d ↦ ?_
      · obtain ⟨hcursor, -, hle⟩ := hback d
        omega
      · obtain ⟨hcursor, hlow, -⟩ := hback d
        have hbefore := h.between.le d
        omega
      · intro traffic' htraffic
        simp only [toList_some, singleton_append, undecided, if_true] at htraffic
        cases htraffic
      · simp only [toList_some, singleton_append, reported, if_true]
        have hcursor := (hback d).1
        omega
    · refine h.section_frame hi hpresent (cursor_setTraffic hne ..) (fun _ ↦ ?_) (if_neg hne) nofun
        trivial
      simp [reported, hne]

theorem Account.step {a : Action} (h : Account tag p peer s₀ s) (hid : peer.id ≠ 0)
    (hmetered : Metered tag p peer s a) (hstep : step s a = some t) :
    Account tag p peer s₀ t := by
  have hpresent := hmetered.after t hstep
  cases a with
  | call thread =>
    obtain ⟨hcall, rfl⟩ := step_call hstep
    refine ⟨hpresent, h.between, h.single.append ?_, ?_, h.covered, h.total⟩
    · intro hreports
      exact (hmetered.calls thread rfl hreports).1
    intro x hx
    rw [mem_append, mem_singleton] at hx
    rcases hx with hx | rfl
    · exact h.fits x hx
    · cases hreports : x.reports tag with
      | false => exact fits_of_idle hreports
      | true => exact (hmetered.calls x rfl hreports).2
  | transfer tag' current =>
    obtain rfl := step_transfer hstep
    refine ⟨hpresent, ?_, h.single, h.fits, h.covered, h.total⟩
    by_cases hne : tag' = tag
    · subst hne
      have hcounters := hmetered.counters current rfl
      have hcounter : counter { s with counters := s.counters.insert tag' current } tag'
          peer.publicKey = (current.lookup peer.publicKey).getD ⟨0, 0⟩ := by
        rw [counter, State.counter, AList.lookup_insert]
        rfl
      rw [hcounter]
      exact ⟨h.between.nonneg, fun d ↦ Int.le_trans (h.between.le d) (hcounters d).1,
        fun d ↦ (hcounters d).2⟩
    · have hcounter : counter { s with counters := s.counters.insert tag' current } tag
          peer.publicKey = counter s tag peer.publicKey := by
        rw [counter, State.counter, lookup_insert_ite, if_neg (Ne.symm hne)]
        rfl
      rw [hcounter]
      exact h.between
  | advance i ok =>
    obtain ⟨thread, hi, ⟨-, rfl⟩ | ⟨core, next, event, hgoes, rfl⟩⟩ := step_advance hstep
    · exact { h with }
    · exact h.advance hid hi hmetered hpresent (advances_of_advance hgoes)

def pending (tag : String) (p : Nat) (peer : User) (d : Direction) (s : State) : Int :=
  amount peer.id d (s.core.sample tag p (publicKeyToUID (s.core.usersOf p)) true (s.counter tag)).2

/-- The bytes of a peer in the reports since a state, with those that the next one will have, are
what its counter grew since the cursor of that state. -/
theorem traffic_conserved (hid : peer.id ≠ 0) (hpresent : Present tag p peer s.core)
    (hidle : ∀ x ∈ s.threads, x.reports tag = false) (hdecided : undecided tag s.log = none)
    (hbetween : Between (cursor s.core tag peer.publicKey) (counter s tag peer.publicKey))
    (h : Reach step (Metered tag p peer) s t)
    (hfair : Fair (t.core.threshold p) (cursor t.core tag peer.publicKey)
      (counter t tag peer.publicKey)) (d : Direction) :
    reported tag peer.id d t.log - reported tag peer.id d s.log + pending tag p peer d t =
      d.pair (counter t tag peer.publicKey) - d.pair (cursor s.core tag peer.publicKey) := by
  have hstart : Account tag p peer s s := by
    refine ⟨hpresent, hbetween, fun i j x y hx _ hreports _ ↦ ?_, fun x hx ↦ fits_of_idle (hidle x hx),
      fun traffic htraffic ↦ ?_, fun d ↦ by omega⟩
    · rw [hidle x (mem_of_getElem? hx)] at hreports
      cases hreports
    · rw [hdecided] at htraffic
      cases htraffic
  have haccount : Account tag p peer s t :=
    h.invariant hstart fun _ _ _ hold hmetered hstep ↦ hold.step hid hmetered hstep
  obtain ⟨-, hamount, -⟩ := sample_fair haccount.present.names hid rfl haccount.between hfair
  have hpending : pending tag p peer d t = d.pair (counter t tag peer.publicKey) -
      d.pair (cursor t.core tag peer.publicKey) := hamount d
  have htotal := haccount.total d
  omega

def phone : User := ⟨"u", 7, "key"⟩

def ready : State where
  core := ⟨[⟨AList.singleton "u" phone, 1024, false⟩], AList.singleton "n" 0, ∅⟩
  counters := AList.singleton "n" (AList.singleton "key" ⟨1700, 2600⟩)
  threads := []
  log := []
  panicked := false

def opened : State := { ready with threads := [.sampling "n" 0 true (AList.singleton "key" 7)] }

def reportedOnce : State :=
  { ready with
    core := (ready.core.sample "n" 0 (AList.singleton "key" 7) true (ready.counter "n")).1
    threads := [.done]
    log := [.sampled "n" [⟨7, 1700, 2600⟩]] }

theorem traffic_conserved_sampled : Reach step (Metered "n" 0 phone) ready reportedOnce ∧
    ∀ d : Direction, reported "n" 7 d reportedOnce.log - reported "n" 7 d [] +
      pending "n" 0 phone d reportedOnce = d.pair ⟨1700, 2600⟩ - d.pair ⟨0, 0⟩ := by
  have hasked : step ready (.call (.getUserTrafficSlice "n" true)) =
      some { ready with threads := [.getUserTrafficSlice "n" true] } := rfl
  have hopened : step { ready with threads := [.getUserTrafficSlice "n" true] } (.advance 0 true) =
      some opened := rfl
  have hreported : step opened (.advance 0 true) = some reportedOnce := rfl
  have hready : Present "n" 0 phone ready.core := by decide +kernel
  have hafter : Present "n" 0 phone reportedOnce.core := by decide +kernel
  have hreach : Reach step (Metered "n" 0 phone) ready reportedOnce := by
    refine .snoc _ (.snoc _ (.snoc _ .refl ?_ hasked) ?_ hopened) ?_ hreported
    · refine ⟨hready, fun t ht ↦ ?_, fun thread hthread _ ↦ ?_, nofun, nofun⟩
      · cases Option.some.inj (hasked.symm.trans ht)
        exact hready
      · cases hthread
        exact ⟨nofun, fun _ ↦ rfl⟩
    · refine ⟨hready, fun t ht ↦ ?_, nofun, nofun, fun i state reset keys hi hthread ↦ ?_⟩
      · cases Option.some.inj (hopened.symm.trans ht)
        exact hready
      · cases hi
        cases hthread
    · refine ⟨hready, fun t ht ↦ ?_, nofun, nofun, fun i state reset keys hi hthread ↦ ?_⟩
      · cases Option.some.inj (hreported.symm.trans ht)
        exact hafter
      · cases hi
        cases hthread
        exact .inr (by decide +kernel)
  have hid : phone.id ≠ 0 := by decide
  have hbetween : Between (cursor ready.core "n" phone.publicKey)
      (counter ready "n" phone.publicKey) := by
    refine ⟨fun d ↦ ?_, fun d ↦ ?_, fun d ↦ ?_⟩
    all_goals cases d <;> decide +kernel
  have hfair : Fair (reportedOnce.core.threshold 0) (cursor reportedOnce.core "n" phone.publicKey)
      (counter reportedOnce "n" phone.publicKey) := .inl (by decide +kernel)
  exact ⟨hreach, traffic_conserved hid hready nofun rfl hbetween hreach hfair⟩

def lostRun (current : TrafficPair) : List Action :=
  [.call (.addNode "n" (some 1)), .advance 0 true, .advance 0 true,
    .call (.addUsers "n" [(phone, true)]), .advance 1 true, .advance 1 true, .advance 1 true,
    .transfer "n" (AList.singleton "key" current), .call (.getUserTrafficSlice "n" true),
    .advance 2 true, .advance 2 true]

/-- The peer is the only user of the node, its counters grow once and the one report is accepted,
but nothing of the window is in it or in the next one. -/
theorem traffic_lost :
    (∃ t, Steps step initial t ∧ t.log = [.sampled "n" []] ∧
      counter t "n" "key" = ⟨500, 500⟩ ∧ pending "n" 0 phone .upload t = 0) ∧
    ∃ t, Steps step initial t ∧ t.log = [.sampled "n" []] ∧
      counter t "n" "key" = ⟨2 ^ 62, 2 ^ 62⟩ ∧ pending "n" 0 phone .upload t = 0 := by
  refine ⟨?_, ?_⟩
  · exact exists_steps (lostRun ⟨500, 500⟩) _ (by decide +kernel)
  · exact exists_steps (lostRun ⟨2 ^ 62, 2 ^ 62⟩) _ (by decide +kernel)

end AnixAgent.WireGuard.Traffic
