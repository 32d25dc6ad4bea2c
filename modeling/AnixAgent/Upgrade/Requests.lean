import AnixAgent.Upgrade.Guarantees

namespace AnixAgent.Upgrade.Requests

open Lib.Crash Lib.Answers Lib.Failing Versions Updater
open Guarantees (kernelRequest kernelTools kernelStaging failingPolls hostWith)

variable (tools : Tools) (installed : String) (staging : Staging) (polls : List Poll) (clock : Int)

/-- The files by which the Agent and the updater meet: whether there is a request and a consumed
one, and the result. -/
structure Directory where
  request : Bool
  applying : Bool
  result : Option Result
  deriving DecidableEq

structure Files where
  consumes : Bool
  writes : Bool
  removes : Bool
  deriving DecidableEq

inductive Ending
  | returned (err : Option Failure)
  | panicked
  deriving DecidableEq

/-- `Apply` with its files. The removal of the consumed request is deferred: it is also done when
the process panics, which then writes no result. -/
def applyRequest (files : Files) (d : Directory) (w : World Host Step) : Directory × Ending :=
  let consumes := d.request && files.consumes
  let outcome := Apply tools installed staging polls clock { w with script := consumes :: w.script }
  if consumes = false then (d, .returned outcome.value)
  else
    let d := { d with request := false, applying := !files.removes }
    match outcome.value with
    | some .panic => (d, .panicked)
    | err =>
      let d := if files.writes then { d with result := some outcome.state.now.result } else d
      (d, .returned err)

/-- An error of the Agent: of a download, or as the updater has it. -/
inductive StageFailure
  | download (format : String)
  | failed (err : Failure)
  deriving DecidableEq

/-- `stageKernel`, by what was downloaded and whether the calls on the staging directory succeed:
the name of the staged file. -/
def stageKernel (created : Bool) (downloaded : Option Opened) (renamed : Bool)
    (kernel : KernelHandOff) : Except StageFailure String :=
  if !created then .error (.download "cannot create %s: %v")
  else match downloaded with
    | none => .error (.download "%v")
    | some file =>
      match readSmall (some file) kernel.size with
      | none => .error (.failed (.coded .digest "%v"))
      | some data =>
        match verifyKernel tools data { kernel with file := kernel.asset } with
        | .error err => .error (.failed err)
        | .ok () =>
          if !renamed then .error (.download "cannot stage the kernel: %v") else .ok kernel.asset

def Overlaps (armored : String) : Prop :=
  let text := trimSpace armored.toList
  beginSignature.isPrefixOf text = true ∧ endSignature.reverse.isPrefixOf text.reverse = true ∧
    text.length < beginSignature.length + endSignature.length

instance (armored : String) : Decidable (Overlaps armored) :=
  inferInstanceAs (Decidable (_ ∧ _ ∧ _))

def Listed (data : Bytes) (kernel : KernelHandOff) : Prop :=
  (data.length : Int) = kernel.size ∧ tools.sha256 data = kernel.sha256 ∧
    tools.kernelSum kernel.sums kernel.asset = some (tools.sha256 data)

/-- The staged release is a newer Agent that verifies, unpacks and prints its version. -/
def Upgrades (h : HandOff) : Prop :=
  h.file ≠ "" ∧ (∃ order, compareVersions h.targetVersion installed = some order ∧ 0 ≤ order) ∧
    ∃ release binary, staging.release = some release ∧ release.size = h.size ∧
      let archive := release.content.take (h.size + 1).toNat
      verifyRelease tools archive h.size h.sha256 h.signature = .ok () ∧
        unpack tools true archive = .ok binary ∧
        printsVersion tools (tools.output binary) h.targetVersion = true

/-- The signature of the staged package can be taken apart, where the updater comes to it: the
package is the one of the hand-off, and the Agent has its version or upgrades to it. -/
def Separated : Prop :=
  ∀ h kernel f, parseHandOff tools staging = .ok h → h.kernel = some kernel →
    staging.package = some f → f.size = kernel.size →
      tools.sameAgentVersion installed h.targetVersion = true ∨ Upgrades tools installed staging h →
        ¬ (Listed tools (f.content.take (kernel.size + 1).toNat) kernel ∧
          Overlaps kernel.sumsSignature)

abbrev Calm {α : Type} (p : Updating α) : Prop := Raises p (· ≠ .panic)

variable {tools installed staging polls clock} {w : World Host Step} {h : HandOff}
  {kernel : KernelHandOff} {data : Bytes}

theorem verifySSHSignature_panic {message armored : String} :
    verifySSHSignature tools message armored = .error .panic ↔ Overlaps armored := by
  unfold verifySSHSignature Overlaps
  dsimp only
  split
  · next hrefused =>
    simp only [Bool.or_eq_true, Bool.not_eq_true'] at hrefused
    rcases hrefused with hno | hno <;> simp [hno]
  next harmored =>
  simp only [Bool.or_eq_true, Bool.not_eq_true', not_or, Bool.not_eq_false] at harmored
  split
  · next hshort => simp [harmored, hshort]
  next hlong =>
  simp only [harmored, true_and, hlong, iff_false]
  split
  · simp
  · split <;> simp

theorem verifyKernel_panic : verifyKernel tools data kernel = .error .panic ↔
      Listed tools data kernel ∧ Overlaps kernel.sumsSignature := by
  unfold verifyKernel Listed
  split
  · next hsize => simp [hsize]
  next hsize =>
  split
  · next hsum => simp [hsum]
  next hsum =>
  split
  · next hlisted => simp [hlisted]
  next hlisted =>
  rw [verifySSHSignature_panic]
  simp [not_not.mp hsize, not_not.mp hsum, not_not.mp hlisted]

variable {err e : Failure}

variable {extracts : Bool}

theorem unpackEntries_calm {found : Option Bytes} {entries : List ZipEntry}
    (he : unpackEntries extracts found entries = .error err) : err ≠ .panic := by
  induction entries generalizing found with
  | nil =>
    cases found with
    | none =>
      cases he
      simp
    | some _ => cases he
  | cons e rest ih =>
    rw [unpackEntries] at he
    repeat' split at he
    all_goals first | exact ih he | (cases he; simp)

theorem untarEntries_calm {ended : Bool} {member : List Char} {entries : List TarEntry}
    (he : untarEntries extracts ended member entries = .error err) : err ≠ .panic := by
  induction entries with
  | nil =>
    rw [untarEntries] at he
    split at he
    all_goals cases he
    simp
  | cons e rest ih =>
    rw [untarEntries] at he
    repeat' split at he
    all_goals first | exact ih he | (cases he <;> simp)

theorem unpackListed_calm {member sums : String}
    (he : unpackListed tools extracts data member sums = .error err) : err ≠ .panic := by
  unfold unpackListed at he
  split at he
  · cases he
    simp
  split at he
  · next huntar =>
    cases he
    exact untarEntries_calm huntar
  · cases he
  · split at he
    all_goals cases he
    simp

theorem validAction_calm (he : validAction tools h = .error err) : err ≠ .panic := by
  rintro rfl
  unfold validAction at he
  repeat' split at he
  all_goals cases he

theorem validHandOff_calm (he : validHandOff tools h = .error err) : err ≠ .panic := by
  unfold validHandOff at he
  split at he
  · cases he
    simp
  split at he
  · cases he
    simp
  split at he
  · cases he
    simp
  split at he
  · exact validAction_calm he
  split at he
  · cases he
    simp
  split at he
  · next hkernel =>
    cases he
    rintro rfl
    unfold validKernelHandOff at hkernel
    repeat' split at hkernel
    all_goals cases hkernel
  · exact validAction_calm he

theorem parseHandOff_calm (he : parseHandOff tools staging = .error err) : err ≠ .panic := by
  unfold parseHandOff at he
  split at he
  · cases he
    simp
  split at he
  · cases he
    simp
  split at he
  · next hvalid =>
    cases he
    exact validHandOff_calm hvalid
  · cases he

theorem note_calm {f : Result → Result} : Calm (note f) := .lift

theorem set_calm {f : Lib → Lib} : Calm (set f) := .lift

theorem copyIn_calm {q : Step} {file : Option Opened} {size : Int} : Calm (copyIn q file size) := by
  unfold copyIn
  split
  · exact .throw (by simp)
  split
  · exact .throw (by simp)
  refine .bind (.need (by simp)) fun _ _ ↦ ?_
  dsimp only
  split
  · exact .throw (by simp)
  · exact .pure

theorem copyIn_yields {q : Step} {file : Option Opened} {size : Int}
    (hdata : Yields (copyIn q file size) data) :
    ∃ f, file = some f ∧ f.size = size ∧ data = f.content.take (size + 1).toNat := by
  unfold copyIn at hdata
  split at hdata
  · exact absurd hdata Yields.not_throw
  next f =>
  split at hdata
  · exact absurd hdata Yields.not_throw
  next hsize =>
  obtain ⟨_, -, hdata⟩ := hdata.of_bind
  dsimp only at hdata
  split at hdata
  · exact absurd hdata Yields.not_throw
  · exact ⟨f, rfl, not_not.mp hsize, hdata.of_pure⟩

theorem copyIn_passes {q : Step} {f : Opened} {size : Int} (hsize : f.size = size)
    (hlength : ((f.content.take (size + 1).toNat).length : Int) = size) :
    Passes (copyIn q (some f) size) [] [] (f.content.take (size + 1).toNat) := by
  simp only [copyIn, hsize, ne_eq, not_true_eq_false, if_false]
  refine (Passes.need rfl).bind ?_
  rw [if_neg (by omega)]
  exact .pure

theorem copyFile_calm {q : Step} {file : Option Bytes} (he : e ≠ .panic) :
    Calm (copyFile q file e) := by
  unfold copyFile
  split
  · exact .throw he
  refine .bind (.need he) fun _ _ ↦ ?_
  split
  · exact .throw he
  · exact .pure

theorem checkVersion_calm {q : Step} {version : String} :
    Calm (checkVersion tools q data version) := by
  refine .bind (.need (by simp)) fun _ _ ↦ ?_
  split
  · exact .pure
  · exact .throw (by simp)

theorem checkVersion_yields {q : Step} {version : String}
    (h : Yields (checkVersion tools q data version) ()) :
    printsVersion tools (tools.output data) version = true := by
  obtain ⟨_, -, h⟩ := h.of_bind
  split at h
  · assumption
  · exact absurd h Yields.not_throw

/-- Only an archive that is extracted yields a binary. -/
theorem unpackEntries_true {found : Option Bytes} {entries : List ZipEntry} {binary : Bytes}
    (hbinary : unpackEntries extracts found entries = .ok binary) :
    unpackEntries true found entries = .ok binary := by
  induction entries generalizing found with
  | nil =>
    cases found with
    | none => cases hbinary
    | some _ => exact hbinary
  | cons e rest ih =>
    rw [unpackEntries] at hbinary ⊢
    split at hbinary
    · next hother =>
      rw [if_pos hother]
      exact ih hbinary
    next hagent =>
    rw [if_neg hagent]
    split at hbinary
    · cases hbinary
    next hsize =>
    rw [if_neg hsize]
    split at hbinary
    · cases hbinary
    next hfirst =>
    rw [if_neg hfirst]
    split at hbinary
    · cases hbinary
    next content hcontent =>
    split at hbinary
    · cases hbinary
    next hfits =>
    rw [if_neg (by simp at hfits ⊢; exact hfits.2)]
    exact ih hbinary

theorem unpack_true {archive binary : Bytes}
    (hbinary : unpack tools extracts archive = .ok binary) :
    unpack tools true archive = .ok binary := by
  unfold unpack at hbinary ⊢
  split at hbinary
  · cases hbinary
  · exact unpackEntries_true hbinary

theorem verifiedBinary_yields {binary : Bytes}
    (hbinary : Yields (verifiedBinary tools staging h) binary) :
    ∃ release, staging.release = some release ∧ release.size = h.size ∧
      verifyRelease tools (release.content.take (h.size + 1).toNat) h.size h.sha256 h.signature =
        .ok () ∧
      unpack tools true (release.content.take (h.size + 1).toNat) = .ok binary := by
  obtain ⟨archive, harchive, hbinary⟩ := hbinary.of_bind
  obtain ⟨release, hrelease, hsize, rfl⟩ := copyIn_yields harchive
  obtain ⟨_, -, hbinary⟩ := hbinary.of_bind
  split at hbinary
  · exact absurd hbinary Yields.not_throw
  next hverify =>
  obtain ⟨extracts, -, hbinary⟩ := hbinary.of_bind
  split at hbinary
  · exact absurd hbinary Yields.not_throw
  next hunpack =>
  rw [hbinary.of_pure]
  exact ⟨release, hrelease, hsize, hverify, unpack_true hunpack⟩

theorem verifiedBinary_calm : Calm (verifiedBinary tools staging h) := by
  refine .bind copyIn_calm fun archive _ ↦ .bind (.need (by simp)) fun _ _ ↦ ?_
  split
  · next err he =>
    refine .throw ?_
    rintro rfl
    unfold verifyRelease at he
    repeat' split at he
    all_goals cases he
  refine .bind .lift fun extracts _ ↦ ?_
  split
  · next err he =>
    unfold unpack at he
    split at he
    · cases he
      exact .throw (by simp)
    · exact .throw (unpackEntries_calm he)
  · exact .pure

theorem keep_calm {version : String} : Calm (keep tools installed clock version) := by
  refine .bind .lift fun _ _ ↦ .bind (copyFile_calm (by simp)) fun _ _ ↦ ?_
  refine .bind (.need (by simp)) fun _ _ ↦ .bind (.need (by simp)) fun _ _ ↦ ?_
  exact .bind set_calm fun _ _ ↦ .bind (.need (by simp)) fun _ _ ↦ set_calm

theorem restore_calm (he : e ≠ .panic) : Calm (restore e) := by
  refine .bind .lift fun _ _ ↦ .bind (copyFile_calm he) fun _ _ ↦ ?_
  exact .bind (.need he) fun _ _ ↦ .bind set_calm fun _ _ ↦ .need he

theorem checkKernelRuns_calm : Calm (checkKernelRuns tools data) := by
  refine .bind (.need (by simp)) fun _ _ ↦ ?_
  split
  · exact .pure
  · exact .throw (by simp)

theorem unpackKernel_calm (hseparated : ∀ f, staging.package = some f → f.size = kernel.size →
    ¬ (Listed tools (f.content.take (kernel.size + 1).toNat) kernel ∧
      Overlaps kernel.sumsSignature)) : Calm (unpackKernel tools staging kernel) := by
  refine .bind copyIn_calm fun data hdata ↦ .bind (.need (by simp)) fun _ _ ↦ ?_
  obtain ⟨f, hf, hsize, rfl⟩ := copyIn_yields hdata
  split
  · next err he =>
    refine .throw ?_
    rintro rfl
    exact hseparated f hf hsize (verifyKernel_panic.mp he)
  refine .bind .lift fun extracts _ ↦ ?_
  split
  · next err he => exact .throw (unpackListed_calm he)
  · exact .throw (by simp)
  refine .bind checkKernelRuns_calm fun _ _ ↦ .bind .lift fun extracts _ ↦ ?_
  split
  · next err he => exact .throw (unpackListed_calm he)
  · exact .pure

theorem keepPrevious_calm {copy place : Step} {current : Option Bytes} {put : Bytes → Lib → Lib}
    (he : e ≠ .panic) : Calm (keepPrevious copy place current put e) := by
  unfold keepPrevious
  split
  · exact .pure
  · exact .bind (copyFile_calm he) fun _ _ ↦ .bind (.need he) fun _ _ ↦ set_calm

theorem keepServer_calm {server : Option Bytes} : Calm (keepServer server) := by
  unfold keepServer
  split
  · exact .bind .lift fun _ _ ↦ keepPrevious_calm (by simp)
  · exact .pure

theorem placeServer_calm {server : Option Bytes} : Calm (placeServer server) := by
  unfold placeServer
  split
  · exact .pure
  · exact .bind (.need (by simp)) fun _ _ ↦ set_calm

theorem installKernel_calm (hunpack : Calm (unpackKernel tools staging kernel)) :
    Calm (installKernel tools staging clock kernel) := by
  refine .bind hunpack fun (binary, server) _ ↦ .bind
    (.bind .lift fun _ _ ↦ keepPrevious_calm (by simp)) fun _ _ ↦ ?_
  refine .bind keepServer_calm fun _ _ ↦ .bind (.need (by simp)) fun _ _ ↦ ?_
  refine .bind set_calm fun _ _ ↦ .bind placeServer_calm fun _ _ ↦ ?_
  exact .bind (.need (by simp)) fun _ _ ↦ set_calm

theorem undoUpgrade_calm : Calm (undoUpgrade h) := by
  refine .bind note_calm fun _ _ ↦ ?_
  have hback : Calm (do
      restore (.coded .startFailed "%v; reinstating %s failed too: %v")
      throw (.coded .startFailed "%v; %s was reinstated") : Updating Unit) :=
    .bind (restore_calm (by simp)) fun _ _ ↦ .throw (by simp)
  split
  · exact .bind .lift fun _ _ ↦ .bind note_calm fun _ _ ↦ hback
  · exact hback

theorem undoKernel_calm : Calm undoKernel :=
  .bind note_calm fun _ _ ↦ .bind .lift fun _ _ ↦ .bind (.need (by simp)) fun _ _ ↦ .throw (by simp)

theorem undoRollback_calm : Calm undoRollback :=
  .bind note_calm fun _ _ ↦ .bind (restore_calm (by simp)) fun _ _ ↦ .throw (by simp)

theorem swapIn_calm (hunpack : ∀ kernel, h.kernel = some kernel →
    Calm (unpackKernel tools staging kernel)) :
    Calm (swapIn tools installed staging polls clock h data) := by
  have hstaged : Calm (installStaged tools staging clock h) := by
    unfold installStaged
    split
    · exact .pure
    · next kernel hkernel =>
      exact .bind (installKernel_calm (hunpack kernel hkernel)) fun _ _ ↦ note_calm
  refine .bind hstaged fun _ _ ↦ .bind keep_calm fun _ _ ↦ .bind (.need (by simp)) fun _ _ ↦ ?_
  refine .bind set_calm fun _ _ ↦ .bind .lift fun _ _ ↦ ?_
  split
  · exact note_calm
  · exact undoUpgrade_calm

theorem kernelOnly_calm (hunpack : Calm (unpackKernel tools staging kernel)) :
    Calm (kernelOnly tools staging polls clock kernel) := by
  refine .bind .lift fun _ _ ↦ .bind .lift fun _ _ ↦ ?_
  split
  · exact note_calm
  refine .bind (installKernel_calm hunpack) fun _ _ ↦ .bind .lift fun _ _ ↦ ?_
  split
  · exact note_calm
  · exact undoKernel_calm

theorem keptBinary_calm {lib : Lib} {record : PrevRecordFile} :
    Calm (keptBinary tools h lib record) := by
  unfold keptBinary
  split
  · exact .throw (by simp)
  split
  · exact .throw (by simp)
  refine .bind (.need (by simp)) fun _ _ ↦ ?_
  split
  · exact .throw (by simp)
  · exact copyFile_calm (by simp)

theorem rollback_calm : Calm (rollback tools installed polls clock h) := by
  refine .bind (.need (by simp)) fun _ _ ↦ .bind .lift fun lib _ ↦ ?_
  split
  · exact .throw (by simp)
  refine .bind keptBinary_calm fun _ _ ↦ .bind checkVersion_calm fun _ _ ↦ ?_
  refine .bind keep_calm fun _ _ ↦ .bind (.need (by simp)) fun _ _ ↦ ?_
  refine .bind set_calm fun _ _ ↦ .bind .lift fun _ _ ↦ ?_
  split
  · exact note_calm
  · exact undoRollback_calm

theorem apply_calm (hunpack : ∀ kernel, h.kernel = some kernel →
      tools.sameAgentVersion installed h.targetVersion = true ∨ Upgrades tools installed staging h →
        Calm (unpackKernel tools staging kernel)) :
    Calm (apply tools installed staging polls clock h) := by
  unfold apply
  split
  · next hsame =>
    split
    · next kernel hkernel =>
      split
      · exact kernelOnly_calm (hunpack kernel hkernel (.inl hsame))
      · exact note_calm
    · exact note_calm
  split
  · exact rollback_calm
  split
  · exact .throw (by simp)
  next hfile =>
  split
  · exact .throw (by simp)
  next order horder =>
  split
  · exact .throw (by simp)
  next hnewer =>
  refine .bind verifiedBinary_calm fun binary hbinary ↦ .bind checkVersion_calm fun _ hversion ↦ ?_
  obtain ⟨release, hrelease, hsize, hverify, hextracted⟩ := verifiedBinary_yields hbinary
  exact swapIn_calm fun kernel hkernel ↦ hunpack kernel hkernel
    (.inr ⟨hfile, ⟨order, horder, not_lt.mp hnewer⟩, release, binary, hrelease, hsize, hverify,
      hextracted, checkVersion_yields hversion⟩)

theorem handle_calm (hseparated : Separated tools installed staging) :
    Calm (handle tools installed staging polls clock) := by
  refine .bind ?_ fun h hyields ↦
    .bind note_calm fun _ _ ↦ apply_calm fun kernel hkernel hreaches ↦ ?_
  · refine .bind (.need (by simp)) fun _ _ ↦ ?_
    split
    · next err he => exact .throw (parseHandOff_calm he)
    · exact .pure
  · refine unpackKernel_calm fun f hf hsize ↦ hseparated h kernel f ?_ hkernel hf hsize hreaches
    obtain ⟨_, -, hyields⟩ := hyields.of_bind
    split at hyields
    · exact absurd hyields Yields.not_throw
    · next h' hparse => rwa [hyields.of_pure]

section

variable {f : Opened} (hpackage : staging.package = some f) (hsize : f.size = kernel.size)
  (hlisted : Listed tools (f.content.take (kernel.size + 1).toNat) kernel)
  (hoverlaps : Overlaps kernel.sumsSignature)
include hpackage hsize hlisted hoverlaps

theorem installKernel_breaks : Breaks (installKernel tools staging clock kernel) [] .panic := by
  refine Breaks.bind ?_
  unfold unpackKernel
  rw [hpackage]
  refine (copyIn_passes hsize hlisted.1).breaks ((Passes.need rfl).breaks ?_)
  rw [verifyKernel_panic.mpr ⟨hlisted, hoverlaps⟩]
  exact .throw

/-- The record of the installed kernel is not read, so the kernel is installed. -/
theorem kernelOnly_breaks :
    Breaks (kernelOnly tools staging polls clock kernel) [false] .panic := by
  refine Passes.ask.breaks (.read fun lib ↦ ?_)
  exact (installKernel_breaks hpackage hsize hlisted hoverlaps).bind

theorem upgrade_breaks (hkernel : h.kernel = some kernel)
    (hupgrades : Upgrades tools installed staging h) :
    Breaks (upgrade tools installed staging polls clock h) [] .panic := by
  obtain ⟨-, -, release, binary, hrelease, hreleaseSize, hverify, hunpack, hprints⟩ := hupgrades
  have hlength : ((release.content.take (h.size + 1).toNat).length : Int) = h.size := by
    unfold verifyRelease at hverify
    by_contra hne
    rw [if_pos hne] at hverify
    cases hverify
  have hbinary : Passes (verifiedBinary tools staging h) [] [] binary := by
    unfold verifiedBinary
    rw [hrelease]
    refine (copyIn_passes hreleaseSize hlength).bind ((Passes.need rfl).bind ?_)
    rw [hverify]
    refine Passes.ask.bind ?_
    simp only [List.tail_nil, List.headD_nil, hunpack]
    exact .pure
  have hversion : Passes (checkVersion tools .runRelease binary h.targetVersion) [] [] () := by
    refine (Passes.need rfl).bind ?_
    rw [if_pos hprints]
    exact .pure
  refine hbinary.breaks (hversion.breaks (Breaks.bind ?_))
  unfold installStaged
  rw [hkernel]
  exact (installKernel_breaks hpackage hsize hlisted hoverlaps).bind

omit hpackage hsize hlisted hoverlaps in
theorem action_of_parse (hparse : parseHandOff tools staging = .ok h)
    (hkernel : h.kernel = some kernel) : h.action = upgradeAction := by
  unfold parseHandOff at hparse
  split at hparse
  · cases hparse
  split at hparse
  · cases hparse
  split at hparse
  · cases hparse
  next hvalid =>
  cases hparse
  by_contra hother
  simp [validHandOff, hkernel, hother, invalid] at hvalid
  grind

theorem handle_breaks (hparse : parseHandOff tools staging = .ok h) (hkernel : h.kernel = some kernel)
    (hreaches : tools.sameAgentVersion installed h.targetVersion = true ∨
      Upgrades tools installed staging h) :
    ∃ script, Breaks (handle tools installed staging polls clock) script .panic := by
  have haction : h.action = upgradeAction := action_of_parse hparse hkernel
  have hread {script : List Bool} (hyes : script.headD true = true) :
      Passes (readHandOff tools staging) script script.tail h := by
    refine (Passes.need hyes).bind ?_
    rw [hparse]
    exact .pure
  by_cases hsame : tools.sameAgentVersion installed h.targetVersion = true
  · refine ⟨[true, false], (hread rfl).breaks (Passes.change.breaks ?_)⟩
    unfold apply
    rw [if_pos hsame, hkernel]
    dsimp only
    rw [if_pos haction]
    exact kernelOnly_breaks hpackage hsize hlisted hoverlaps
  · have hupgrades := hreaches.resolve_left hsame
    obtain ⟨hfile, ⟨order, horder, hnewer⟩, -⟩ := id hupgrades
    refine ⟨[], (hread rfl).breaks (Passes.change.breaks ?_)⟩
    unfold apply
    rw [if_neg hsame, if_neg (by rw [haction]; decide), if_neg hfile, horder]
    dsimp only
    rw [if_neg (not_lt.mpr hnewer)]
    exact upgrade_breaks hpackage hsize hlisted hoverlaps hkernel hupgrades

end

theorem Apply_value (tools : Tools) (installed : String) (staging : Staging) (polls : List Poll)
    (clock : Int) (w : World Host Step) : ∃ start : World Host Step,
    start.script = w.script.tail ∧ (Apply tools installed staging polls clock w).value =
      if w.script.headD true then
        match ((handle tools installed staging polls clock).run start).value with
        | .ok () => none
        | .error err => some err
      else some .noRequest := by
  refine ⟨{ now := { w.now with result := ⟨"", "", "", "", "", installed, .unset, none, ""⟩ }
            script := w.script.tail
            asked := w.asked ++ [(.consumeRequest, w.script.headD true)] }, rfl, ?_⟩
  have hvalue (b : Bool) (p : Asking Host Step (Option Failure)) (t : World Host Step) :
      ((if b then p else pure (some .noRequest)) t).value =
        if b then (p t).value else some .noRequest := by
    cases b <;> rfl
  have hended (r : Except Failure Unit) (t : World Host Step) :
      ((match r with
        | .ok () => pure none
        | .error err => do
          doing fun h ↦ { h with result := h.result.failed err }
          pure (some err) : Asking Host Step (Option Failure)) t).value =
        match r with
        | .ok () => none
        | .error err => some err := by
    cases r <;> rfl
  refine (hvalue _ _ _).trans ?_
  congr 1
  exact hended _ _

theorem applyRequest_returned {files : Files} {d : Directory} {err : Option Failure}
    (hreturned : (applyRequest tools installed staging polls clock files d w).2 = .returned err)
    (hrequest : d.request = true) (hconsumes : files.consumes = true) :
    (applyRequest tools installed staging polls clock files d w).1 =
      { request := false
        applying := !files.removes
        result := if files.writes then some (Apply tools installed staging polls clock
          { w with script := true :: w.script }).state.now.result else d.result } := by
  unfold applyRequest at hreturned ⊢
  simp only [hrequest, hconsumes, Bool.and_self, Bool.true_eq_false, if_false] at hreturned ⊢
  split at hreturned
  · cases hreturned
  · cases files.writes <;> simp_all

theorem stageKernel_panic {created renamed : Bool} {downloaded : Option Opened} :
    stageKernel tools created downloaded renamed kernel = .error (.failed .panic) ↔
      created = true ∧ ∃ data, readSmall downloaded kernel.size = some data ∧
        Listed tools data kernel ∧ Overlaps kernel.sumsSignature := by
  unfold stageKernel
  cases created with
  | false => simp
  | true =>
  cases downloaded with
  | none => simp [readSmall]
  | some file =>
  cases hdata : readSmall (some file) kernel.size with
  | none => simp [hdata]
  | some data =>
  have hpanic : verifyKernel tools data { kernel with file := kernel.asset } = .error .panic ↔
      Listed tools data kernel ∧ Overlaps kernel.sumsSignature := verifyKernel_panic
  cases hverify : verifyKernel tools data { kernel with file := kernel.asset } with
  | error err =>
    rw [hverify] at hpanic
    simpa [hdata, hverify] using hpanic
  | ok _ =>
    rw [hverify] at hpanic
    cases renamed <;> simpa [hdata, hverify] using hpanic

/-- The updater returns in every environment exactly if the signature can be taken apart where the
updater comes to it, and the Agent panics exactly if it cannot for the downloaded package. When the
updater returns, the request is consumed, the consumed file removed and the result written, as far
as these calls succeed. -/
theorem apply_request_returns (tools : Tools) (installed : String) (staging : Staging)
    (created renamed : Bool) (downloaded : Option Opened) (kernel : KernelHandOff) :
    ((∀ polls clock files d w, ∃ err,
        (applyRequest tools installed staging polls clock files d w).2 = .returned err) ↔
      Separated tools installed staging) ∧
    (∀ polls clock files d w err,
      (applyRequest tools installed staging polls clock files d w).2 = .returned err →
      d.request = true → files.consumes = true →
        (applyRequest tools installed staging polls clock files d w).1.request = false ∧
        (files.removes = true →
          (applyRequest tools installed staging polls clock files d w).1.applying = false) ∧
        (files.writes = true →
          (applyRequest tools installed staging polls clock files d w).1.result =
            some (Apply tools installed staging polls clock
              { w with script := true :: w.script }).state.now.result)) ∧
    (stageKernel tools created downloaded renamed kernel = .error (.failed .panic) ↔
      created = true ∧ ∃ data, readSmall downloaded kernel.size = some data ∧
        Listed tools data kernel ∧ Overlaps kernel.sumsSignature) := by
  refine ⟨⟨fun hreturns h kernel f hparse hkernel hpackage hsize hreaches hbad ↦ ?_,
    fun hseparated polls clock files d w ↦ ?_⟩,
    fun polls clock files d w err hreturned hrequest hconsumes ↦ ?_, ?_⟩
  · obtain ⟨script, hbreaks⟩ : ∃ script, Breaks (handle tools installed staging [] 0) script .panic :=
      handle_breaks hpackage hsize hbad.1 hbad.2 hparse hkernel hreaches
    obtain ⟨err, herr⟩ := hreturns [] 0 ⟨true, true, true⟩ ⟨true, false, none⟩
      ⟨hostWith none none none, script, []⟩
    obtain ⟨start, hstart, hvalue⟩ := Apply_value tools installed staging [] 0
      ⟨hostWith none none none, true :: script, []⟩
    rw [hbreaks start hstart] at hvalue
    simp [applyRequest, hvalue] at herr
  · have hne : (Apply tools installed staging polls clock
        { w with script := (d.request && files.consumes) :: w.script }).value ≠ some .panic := by
      obtain ⟨start, -, hvalue⟩ := Apply_value tools installed staging polls clock
        { w with script := (d.request && files.consumes) :: w.script }
      rw [hvalue]
      split
      · cases hrun : ((handle tools installed staging polls clock).run start).value with
        | ok _ => nofun
        | error err =>
          rintro ⟨⟩
          exact handle_calm hseparated start _ hrun rfl
      · nofun
    unfold applyRequest
    dsimp only
    split
    · exact ⟨_, rfl⟩
    · split
      · next hpanic => exact absurd hpanic hne
      · exact ⟨_, rfl⟩
  · rw [applyRequest_returned hreturned hrequest hconsumes]
    exact ⟨rfl, fun hremoves ↦ by rw [hremoves]; rfl, fun hwrites ↦ if_pos hwrites⟩
  · exact stageKernel_panic

def offered (signature : String) : KernelHandOff where
  name := kernelBinary
  version := "1.0"
  asset := "anx-node-1.0-x-linux-musl.tar.gz"
  file := "anx-node-1.0-x-linux-musl.tar.gz"
  size := 1
  sha256 := Guarantees.digest
  sums := "sums"
  sumsSignature := signature

def offering (kernel : KernelHandOff) : Tools :=
  { kernelTools with
    unmarshalHandOff := fun _ ↦ some { kernelRequest with kernel := some kernel } }

def separate : KernelHandOff :=
  offered "-----BEGIN SSH SIGNATURE----------END SSH SIGNATURE-----"

def overlapping : KernelHandOff := offered "-----BEGIN SSH SIGNATURE-----END SSH SIGNATURE-----"

theorem separated_separate (installed : String) :
    Separated (offering separate) installed kernelStaging := by
  rintro h kernel f hparse hkernel - - - ⟨-, hoverlaps⟩
  have hsome : parseHandOff (offering separate) kernelStaging =
      .ok { kernelRequest with kernel := some separate } := by
    decide +kernel
  obtain rfl := Except.ok.inj (hsome.symm.trans hparse)
  obtain rfl := Option.some.inj hkernel
  exact absurd hoverlaps (by decide +kernel)

theorem apply_request_returns_separate :
    (∃ err, (applyRequest (offering separate) "v1.2.3" kernelStaging failingPolls 0
      ⟨true, true, true⟩ ⟨true, false, none⟩ ⟨hostWith none none none, [], []⟩).2 = .returned err) ∧
    stageKernel (offering separate) true (some ⟨1, [0]⟩) true separate ≠
      .error (.failed .panic) := by
  obtain ⟨hupdater, -, hagent⟩ := apply_request_returns (offering separate) "v1.2.3" kernelStaging
    true true (some ⟨1, [0]⟩) separate
  refine ⟨hupdater.mpr (separated_separate _) _ _ _ _ _, fun hpanic ↦ ?_⟩
  obtain ⟨-, _, -, -, hoverlaps⟩ := hagent.mp hpanic
  exact absurd hoverlaps (by decide +kernel)

/-- The updater panics after it has consumed the request, and there is no result; the Agent panics
on the same signature. -/
theorem apply_request_panics :
    applyRequest (offering overlapping) "v1.2.3" kernelStaging [] 0 ⟨true, true, true⟩
      ⟨true, false, none⟩ ⟨hostWith none none none, [], []⟩ = (⟨false, false, none⟩, .panicked) ∧
    stageKernel (offering overlapping) true (some ⟨1, [0]⟩) true overlapping =
      .error (.failed .panic) := by
  decide +kernel

end AnixAgent.Upgrade.Requests
