import Mathlib

namespace AnixAgent.Artifacts.Download

structure Chunk where
  offset : Int
  data : List UInt8

/-- An attempt of `call`: what its stream sends and how it ends, which is also how an attempt
without a stream ends. `cancelled` is whether the context is done before the next one. -/
structure Attempt where
  chunks : List Chunk
  broken : Option Bool
  cancelled : Bool

def artifactAttempts : Nat := 6

variable {size : Nat} {sent chunks : List Chunk} {data : List UInt8} {attempts : Nat → Attempt}

def receive (size : Nat) : List UInt8 → List Chunk → List UInt8 × Bool
  | data, [] => (data, true)
  | data, c :: rest =>
    if c.offset ≠ data.length ∨ data.length + c.data.length > size then (data, false)
    else receive size (data ++ c.data) rest

/-- The bytes received so far, and whether an error is tried again: one of the Agent itself has no
status and is not. -/
def Attempt.run (a : Attempt) (size : Nat) (data : List UInt8) : List UInt8 × Option Bool :=
  match receive size data a.chunks with
  | (data, false) => (data, some false)
  | (data, true) => (data, a.broken.or (if data.length = size then none else some false))

structure Result where
  data : List UInt8
  ok : Bool
  attempts : Nat

def call (size : Nat) (attempts : Nat → Attempt) (attempt : Nat) (data : List UInt8) : Result :=
  let (data, err) := (attempts attempt).run size data
  match err with
  | none => ⟨data, true, attempt⟩
  | some retry =>
    if !retry ∨ attempt ≥ artifactAttempts ∨ (attempts attempt).cancelled then ⟨data, false, attempt⟩
    else call size attempts (attempt + 1) data
termination_by artifactAttempts - attempt
decreasing_by omega

def downloadRelease (size : Nat) (attempts : Nat → Attempt) : Result := call size attempts 1 []

def Contiguous : Nat → List Chunk → Prop
  | _, [] => True
  | n, c :: rest => c.offset = n ∧ Contiguous (n + c.data.length) rest

/-- The data is that of some chunks, as they were sent one after the other. -/
structure Kept (size : Nat) (sent : List Chunk) (data : List UInt8) : Prop where
  chunks : ∃ kept, kept.Sublist sent ∧ Contiguous 0 kept ∧ data = kept.flatMap (·.data)
  length : data.length ≤ size

theorem contiguous_snoc {c : Chunk} {kept : List Chunk} {n : Nat} (h : Contiguous n kept)
    (hc : c.offset = n + (kept.flatMap (·.data)).length) : Contiguous n (kept ++ [c]) := by
  induction kept generalizing n with
  | nil => exact ⟨by simpa using hc, trivial⟩
  | cons k kept ih =>
    refine ⟨h.1, ih h.2 ?_⟩
    rw [hc, List.flatMap_cons, List.length_append]
    omega

theorem Kept.mono {sent' : List Chunk} (h : Kept size sent data) (hsent : sent.Sublist sent') :
    Kept size sent' data := by
  obtain ⟨⟨kept, hkept, hrest⟩, hlength⟩ := h
  exact ⟨⟨kept, hkept.trans hsent, hrest⟩, hlength⟩

theorem Kept.receive (h : Kept size sent data) :
    Kept size (sent ++ chunks) (receive size data chunks).1 := by
  induction chunks generalizing sent data with
  | nil => simpa [Download.receive] using h
  | cons c rest ih =>
    rw [Download.receive]
    split
    · exact h.mono (List.sublist_append_left _ _)
    next hfits =>
    rw [not_or, not_not, not_lt] at hfits
    obtain ⟨⟨kept, hkept, hcontiguous, rfl⟩, -⟩ := h
    rw [List.append_cons]
    apply ih
    refine ⟨⟨kept ++ [c], hkept.append_right [c], contiguous_snoc hcontiguous ?_, by simp⟩, ?_⟩
    · simpa using hfits.1
    · simpa using hfits.2

theorem Attempt.run_fst (a : Attempt) : (a.run size data).1 = (receive size data a.chunks).1 := by
  unfold Attempt.run
  split <;> simp [*]

theorem length_of_run {a : Attempt} (h : (a.run size data).2 = none) :
    (a.run size data).1.length = size := by
  unfold Attempt.run at h ⊢
  split at h
  · cases h
  · simpa using (Option.or_eq_none_iff.mp h).2

def sentBy (attempts : Nat → Attempt) (n : Nat) : List Chunk :=
  (List.range' 1 n).flatMap fun i ↦ (attempts i).chunks

theorem Kept.run {n : Nat} (h : Kept size (sentBy attempts n) data) :
    Kept size (sentBy attempts (n + 1)) ((attempts (n + 1)).run size data).1 := by
  have hsent : sentBy attempts (n + 1) = sentBy attempts n ++ (attempts (n + 1)).chunks := by
    simp [sentBy, List.range'_1_concat, Nat.add_comm]
  rw [hsent, Attempt.run_fst]
  exact h.receive

/-- What a download keeps is sent by its attempts at the offsets where it is kept, and is never
more than the size; a download that succeeds has as many bytes. -/
structure Downloaded (size : Nat) (attempts : Nat → Attempt) (r : Result) : Prop where
  kept : Kept size (sentBy attempts r.attempts) r.data
  length : r.ok = true → r.data.length = size
  attempts : r.attempts ≤ artifactAttempts

theorem downloaded_call (n : Nat) (data : List UInt8) (hn : n < artifactAttempts)
    (h : Kept size (sentBy attempts n) data) :
    Downloaded size attempts (call size attempts (n + 1) data) := by
  rw [call]
  dsimp only
  split
  · next hnone => exact ⟨h.run, fun _ ↦ length_of_run hnone, hn⟩
  split
  · exact ⟨h.run, nofun, hn⟩
  · next hretry =>
    rw [not_or, not_or, not_le] at hretry
    exact downloaded_call _ _ hretry.2.1 h.run
termination_by artifactAttempts - n

theorem downloadRelease_exact (size : Nat) (attempts : Nat → Attempt) :
    Downloaded size attempts (downloadRelease size attempts) :=
  downloaded_call 0 [] (by decide) ⟨⟨[], .slnil, trivial, rfl⟩, Nat.zero_le _⟩

end AnixAgent.Artifacts.Download
