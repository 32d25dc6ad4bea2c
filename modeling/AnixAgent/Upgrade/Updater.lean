import AnixAgent.Lib.Failing
import AnixAgent.Upgrade.Versions

namespace AnixAgent.Upgrade.Updater

open Lib.Crash Lib.Answers Lib.Failing Versions

abbrev Bytes := List UInt8

structure KernelHandOff where
  name : String
  version : String
  asset : String
  file : String
  size : Int
  sha256 : String
  sums : String
  sumsSignature : String
  deriving DecidableEq

/-- The fields of `request.json` that the updater reads. -/
structure HandOff where
  schema : String
  operationID : String
  campaignID : String
  action : String
  targetVersion : String
  previousVersion : String
  file : String
  size : Int
  sha256 : String
  signature : String
  kernel : Option KernelHandOff
  deriving DecidableEq

structure PrevRecordFile where
  version : String
  sha256 : String
  keptAtMS : Int
  replacedFor : String
  deriving DecidableEq

structure KernelRecordFile where
  version : String
  sha256 : String
  installedAtMS : Int
  server : Option Bool
  deriving DecidableEq

/-- The files of `LibDir`, which only root can change. The temporary ones are values of the
programs that make them. -/
structure Lib where
  agent : Option Bytes
  prev : Option Bytes
  prevRecord : Option Bytes
  kernel : Option Bytes
  kernelPrev : Option Bytes
  server : Option Bytes
  serverPrev : Option Bytes
  kernelRecord : Option Bytes
  deriving DecidableEq

inductive Conclusion
  | unset
  | installed
  | rolledBack
  | current
  | restored
  | refused
  deriving DecidableEq

inductive Code
  | invalidRequest
  | downgrade
  | noPrevious
  | digest
  | signature
  | versionMismatch
  | startFailed
  | install
  deriving DecidableEq

/-- An error with its code and the format of its text, or the end of the process. -/
inductive Failure
  | coded (code : Code) (format : String)
  | noRequest
  | panic
  deriving DecidableEq

structure Result where
  operationID : String
  campaignID : String
  action : String
  targetVersion : String
  previousVersion : String
  version : String
  outcome : Conclusion
  errorCode : Option Code
  kernel : String
  deriving DecidableEq

structure Host where
  lib : Lib
  result : Result
  deriving DecidableEq

structure ZipEntry where
  name : String
  regular : Bool
  size : Nat
  content : Option Bytes
  deriving DecidableEq

structure TarEntry where
  name : String
  regular : Bool
  size : Nat
  content : Bytes
  deriving DecidableEq

/-- Libraries, the compiled-in keys, and what a binary prints as its version. -/
structure Tools where
  sha256 : Bytes → String
  releaseKey : Bytes
  ed25519Verify : Bytes → Bytes → Bytes → Bool
  decodeBase64 : String → Option Bytes
  unmarshalHandOff : Bytes → Option HandOff
  unmarshalPrevRecord : Bytes → Option PrevRecordFile
  marshalPrevRecord : PrevRecordFile → Bytes
  unmarshalKernelRecord : Bytes → Option KernelRecordFile
  marshalKernelRecord : KernelRecordFile → Bytes
  zip : Bytes → Option (List ZipEntry)
  -- The entries of a package, and whether it ends without an error after them.
  tarGz : Bytes → Option (List TarEntry × Bool)
  output : Bytes → String
  sameAgentVersion : String → String → Bool
  kernelVersionPattern : String → Bool
  kernelSum : String → String → Option String
  -- The checks of an SSH signature after its armor: the error, if there is one.
  sshVerify : Bytes → String → Option String
  maxUpgradeArtifactBytes : Int
  maxUpgradeKernelBytes : Int

/-- A file of the staging directory at the moment it is opened: its size, and what can then be
read from it. The directory is the adversary's. -/
structure Opened where
  size : Int
  content : Bytes
  deriving DecidableEq

/-- What the adversary has put at each path when the updater opens it, which it does once; a
path without a regular file is `none`. -/
structure Staging where
  request : Option Opened
  release : Option Opened
  package : Option Opened
  deriving DecidableEq

/-- An answer of `systemctl show`, and what has happened by then to the time and the context. -/
structure Poll where
  shown : Option String
  late : Bool
  cancelled : Bool
  deriving DecidableEq

/-- The calls that can fail. The last ones put things back. -/
inductive Step
  | consumeRequest
  | readRequest
  | copyRelease
  | readRelease
  | unpackRelease
  | runRelease
  | copyPackage
  | readPackage
  | unpackKernel
  | runKernel
  | unpackServer
  | copyKernel
  | placeKernelPrev
  | copyServer
  | placeServerPrev
  | placeKernel
  | placeServer
  | recordKernel
  | readKernelRecord
  | readPrevRecord
  | hashPrev
  | copyPrev
  | runPrev
  | copyAgent
  | hashKept
  | placePrev
  | recordPrev
  | placeAgent
  | restart
  | removeRecord
  | reinstateKernel
  | removeKernel
  | reinstateServer
  | removeServer
  | copyBack
  | placeBack
  | restartBack
  deriving DecidableEq

def Step.putsBack : Step → Bool
  | .removeRecord | .reinstateKernel | .removeKernel | .reinstateServer | .removeServer
  | .copyBack | .placeBack | .restartBack => true
  | _ => false

abbrev Updating (α : Type) := Attempt Host Step Failure α

def maxHandOffBytes : Int := 16 * 1024

def maxRecordBytes : Int := 64 * 1024

def maxBinaryBytes : Nat := 512 * 1024 * 1024

def handOffSchema : String := "anixops.agent-upgrade-handoff/v1"

def upgradeAction : String := "upgrade"

def rollbackAction : String := "rollback"

def releaseBinary : String := "anix-agent"

def kernelBinary : String := "anx-node"

def serverBinary : String := "anx-server"

def isBase (name : String) : Bool := name = "/" || (name ≠ "" && '/' ∉ name.toList)

def between (first last : String) (s : List Char) : Option (List Char) := do
  let rest ← after first.toList s
  let rest ← after last.toList.reverse rest.reverse
  pure rest.reverse

def lowerOrDigit (c : Char) : Bool := c.isLower || c.isDigit

def assetPattern (name : String) : Bool :=
  (between "anix-agent-linux-" ".zip" name.toList).any fun middle ↦
    middle ≠ [] && middle.all fun c ↦ lowerOrDigit c || c = '-'

/-- The part after the last dash is the architecture, the part before it the version. -/
def kernelAssetPattern (name : String) : Bool :=
  (between "anx-node-" "-linux-musl.tar.gz" name.toList).any fun middle ↦
    let arch := middle.reverse.takeWhile (· ≠ '-')
    let version := (middle.reverse.dropWhile (· ≠ '-')).drop 1
    arch ≠ [] && version ≠ [] && (arch.all fun c ↦ lowerOrDigit c || c = '_') &&
      version.all fun c ↦ lowerOrDigit c || c = '.' || c = '-'

def sha256Pattern (digest : String) : Bool :=
  digest.toList.length = 64 && digest.toList.all fun c ↦ c.isDigit || c ∈ ['a', 'b', 'c', 'd', 'e', 'f']

section

variable (tools : Tools) (installed : String) (staging : Staging) (polls : List Poll) (clock : Int)

def invalid (format : String) : Except Failure α := .error (.coded .invalidRequest format)

def validKernelHandOff (kernel : KernelHandOff) : Except Failure Unit :=
  if kernel.name ≠ kernelBinary then invalid "kernel %q is not %s"
  else if !tools.kernelVersionPattern kernel.version then invalid "kernel version %q is malformed"
  else if !kernelAssetPattern kernel.asset ||
      !(kernelBinary ++ "-" ++ kernel.version ++ "-").toList.isPrefixOf kernel.asset.toList then
    invalid "kernel asset %q is malformed"
  else if kernel.file ≠ kernel.asset then invalid "kernel file %q is not the staged %s"
  else if kernel.size ≤ 0 ∨ tools.maxUpgradeKernelBytes < kernel.size ∨
      !sha256Pattern kernel.sha256 then
    invalid "the kernel's size or SHA-256 is malformed"
  else if kernel.sums = "" ∨ maxRecordBytes < kernel.sums.utf8ByteSize ∨
      kernel.sumsSignature = "" ∨ maxRecordBytes < kernel.sumsSignature.utf8ByteSize then
    invalid "the kernel's SHA256SUMS or signature is missing or too large"
  else .ok ()

def validAction (h : HandOff) : Except Failure Unit :=
  if h.action = rollbackAction then
    if h.file ≠ "" then invalid "a rollback stages no file" else .ok ()
  else if h.action = upgradeAction then
    -- A kernel alone: the Agent runs the target already.
    if h.file = "" ∧ h.kernel.isSome then .ok ()
    else if !isBase h.file || !assetPattern h.file then
      invalid "file %q is not a release zip in the staging directory"
    else if h.size ≤ 0 ∨ tools.maxUpgradeArtifactBytes < h.size ∨ !sha256Pattern h.sha256 then
      invalid "the release's size or SHA-256 is malformed"
    else .ok ()
  else invalid "action %q is not upgrade or rollback"

def validHandOff (h : HandOff) : Except Failure Unit :=
  if h.schema ≠ handOffSchema then invalid "schema %q is not %s"
  else if !validVersion h.targetVersion then invalid "target_version %q is not a release tag"
  else if h.previousVersion ≠ "" ∧ !validVersion h.previousVersion then
    invalid "previous_version %q is not a release tag"
  else match h.kernel with
    | none => validAction tools h
    | some kernel =>
      if h.action ≠ upgradeAction then invalid "only an upgrade stages a kernel"
      else match validKernelHandOff tools kernel with
        | .error err => .error err
        | .ok () => validAction tools h

def readSmall (file : Option Opened) (limit : Int) : Option Bytes :=
  file.bind fun f ↦ if limit < f.size then none else some (f.content.take (limit + 1).toNat)

def parseHandOff : Except Failure HandOff :=
  match readSmall staging.request maxHandOffBytes with
  | none => invalid "%v"
  | some data =>
    match tools.unmarshalHandOff data with
    | none => invalid "the request is not JSON: %v"
    | some h =>
      match validHandOff tools h with
      | .error err => .error err
      | .ok () => .ok h

def readHandOff : Updating HandOff := do
  need .readRequest (.coded .invalidRequest "%v")
  match parseHandOff tools staging with
  | .error err => throw err
  | .ok h => pure h

def copyIn (q : Step) (file : Option Opened) (size : Int) : Updating Bytes :=
  match file with
  | none => throw (.coded .invalidRequest "cannot read the staged release: %v")
  | some f =>
    if f.size ≠ size then throw (.coded .digest "the staged release is %d bytes, not %d")
    else do
      need q (.coded .install "cannot copy the staged release: %v")
      let content := f.content.take (size + 1).toNat
      if size < content.length then throw (.coded .install "cannot copy the staged release: %v")
      else pure content

def lower (s : List Char) : List Char := s.map Char.toLower

def verifyRelease (data : Bytes) (size : Int) (digest signature : String) : Except Failure Unit :=
  if (data.length : Int) ≠ size then .error (.coded .digest "the release is %d bytes, not %d")
  else if (tools.sha256 data).toList ≠ lower (trimSpace digest.toList) then
    .error (.coded .digest "the release's SHA-256 is %s, not %s")
  else if tools.releaseKey.length ≠ 32 then
    .error (.coded .signature "no release key to verify the signature with")
  else match tools.decodeBase64 (String.ofList (trimSpace signature.toList)) with
    | none => .error (.coded .signature "the signature is not base64 of an Ed25519 signature")
    | some sig =>
      if sig.length ≠ 64 then
        .error (.coded .signature "the signature is not base64 of an Ed25519 signature")
      else if !tools.ed25519Verify tools.releaseKey data sig then
        .error (.coded .signature
          "the release signature does not verify with the official release key")
      else .ok ()

def entryName (name : String) : List Char := (after "./".toList name.toList).getD name.toList

def ZipEntry.isAgent (e : ZipEntry) : Bool := entryName e.name = releaseBinary.toList && e.regular

def unpackEntries (extracts : Bool) : Option Bytes → List ZipEntry → Except Failure Bytes
  | none, [] => .error (.coded .install "the release holds no %s binary")
  | some binary, [] => .ok binary
  | binary, e :: rest =>
    if !e.isAgent then unpackEntries extracts binary rest
    else if maxBinaryBytes < e.size then
      .error (.coded .install "%s in the release is over %d bytes")
    else if binary.isSome then .error (.coded .install "the release holds %s twice")
    else match e.content with
      | none => .error (.coded .install "cannot unpack %s: %v")
      | some content =>
        if !extracts || maxBinaryBytes < content.length then
          .error (.coded .install "cannot unpack %s: %v")
        else unpackEntries extracts (some content) rest

def unpack (extracts : Bool) (archive : Bytes) : Except Failure Bytes :=
  match tools.zip archive with
  | none => .error (.coded .install "the release is not a zip: %v")
  | some entries => unpackEntries extracts none entries

def printsVersion (output version : String) : Bool :=
  (fields output.toList).any fun field ↦ tools.sameAgentVersion (String.ofList field) version

def checkVersion (q : Step) (binary : Bytes) (version : String) : Updating Unit := do
  need q (.coded .versionMismatch "%s version: %v")
  if printsVersion tools (tools.output binary) version then pure ()
  else throw (.coded .versionMismatch "the binary does not print %s: %q")

def copyFile (q : Step) (file : Option Bytes) (e : Failure) : Updating Bytes :=
  match file with
  | none => throw e
  | some content => do
    need q e
    if maxBinaryBytes < content.length then throw e else pure content

def set (f : Lib → Lib) : Updating Unit := change fun h ↦ { h with lib := f h.lib }

def note (f : Result → Result) : Updating Unit := change fun h ↦ { h with result := f h.result }

def keep (replacedFor : String) : Updating Unit := do
  let agent ← read (·.lib.agent)
  let temp ← copyFile .copyAgent agent (.coded .install "cannot keep the installed binary: %v")
  need .hashKept (.coded .install "%v")
  need .placePrev (.coded .install "cannot keep the installed binary: %v")
  set fun lib ↦ { lib with prev := some temp }
  need .recordPrev (.coded .install "cannot record the kept binary: %v")
  set fun lib ↦ { lib with
    prevRecord := some (tools.marshalPrevRecord ⟨installed, tools.sha256 temp, clock, replacedFor⟩) }

def parseShow (output : String) : String × String :=
  let lines := (output.toList.splitOnP (· = '\n')).map trimSpace
  let value (key : String) := (lines.filterMap (after (key ++ "=").toList)).getLast?.getD []
  let active := String.ofList (value "ActiveState")
  (if active = "" then "unknown" else active, String.ofList (value "MainPID"))

def watch : Option String → List Poll → Bool
  | _, [] => false
  | pid, poll :: rest =>
    match poll.shown with
    | none => false
    | some output =>
      let (active, mainPID) := parseShow output
      if active ≠ "active" then false
      else if mainPID = "" ∨ mainPID = "0" then false
      else if pid.any fun p ↦ p ≠ mainPID then false
      else if poll.late then true
      else if poll.cancelled then false
      else watch (some mainPID) rest

def restartAndWatch : Asking Host Step Bool := do
  if ← ask .restart then pure (watch none polls) else pure false

def restore (e : Failure) : Updating Unit := do
  let prev ← read (·.lib.prev)
  let temp ← copyFile .copyBack prev e
  need .placeBack e
  set fun lib ↦ { lib with agent := some temp }
  need .restartBack e

def beginSignature : List Char := "-----BEGIN SSH SIGNATURE-----".toList

def endSignature : List Char := "-----END SSH SIGNATURE-----".toList

/-- `VerifySSHSignature`. The slice between the two lines of the armor is out of range when
they overlap. -/
def verifySSHSignature (message armored : String) : Except Failure Unit :=
  let text := trimSpace armored.toList
  let refused : Except Failure Unit := .error (.coded .signature "the kernel's SHA256SUMS: %v")
  if !beginSignature.isPrefixOf text || !endSignature.reverse.isPrefixOf text.reverse then refused
  else if text.length < beginSignature.length + endSignature.length then .error .panic
  else
    let body := (text.drop beginSignature.length).take
      (text.length - beginSignature.length - endSignature.length)
    match tools.decodeBase64 (String.ofList (fields body).flatten) with
    | none => refused
    | some blob => if tools.sshVerify blob message = none then .ok () else refused

def verifyKernel (data : Bytes) (kernel : KernelHandOff) : Except Failure Unit :=
  if (data.length : Int) ≠ kernel.size then
    .error (.coded .digest "the kernel package is %d bytes, not %d")
  else if tools.sha256 data ≠ kernel.sha256 then
    .error (.coded .digest "the kernel package's SHA-256 is %s, not %s")
  else if tools.kernelSum kernel.sums kernel.asset ≠ some (tools.sha256 data) then
    .error (.coded .digest "the kernel's SHA256SUMS does not list %s with %s")
  else verifySSHSignature tools kernel.sums kernel.sumsSignature

def untarEntries (extracts ended : Bool) (member : List Char) :
    List TarEntry → Except Failure (Option Bytes)
  | [] => if ended then .ok none else .error (.coded .install "the kernel package is not a tar: %v")
  | e :: rest =>
    if entryName e.name ≠ member ∨ !e.regular then untarEntries extracts ended member rest
    else if maxBinaryBytes < e.size then .error (.coded .install "%s is over %d bytes")
    else if !extracts || maxBinaryBytes < e.content.length then
      .error (.coded .install "cannot unpack %s: %v")
    else .ok (some e.content)

def unpackListed (extracts : Bool) (data : Bytes) (member sums : String) :
    Except Failure (Option Bytes) :=
  match tools.tarGz data with
  | none => .error (.coded .install "the kernel package is not gzip: %v")
  | some (entries, ended) =>
    match untarEntries extracts ended member.toList entries with
    | .error err => .error err
    | .ok none => .ok none
    | .ok (some content) =>
      if tools.kernelSum sums member = some (tools.sha256 content) then .ok (some content)
      else .error (.coded .digest "the kernel's SHA256SUMS does not list %s with %s")

def checkKernelRuns (binary : Bytes) : Updating Unit := do
  need .runKernel (.coded .versionMismatch "%s version: %v")
  if (fields (tools.output binary).toList).head? = some kernelBinary.toList then pure ()
  else throw (.coded .versionMismatch "the kernel does not answer as %s: %q")

def distOf (asset : String) : String :=
  String.ofList (((after ".tar.gz".toList.reverse asset.toList.reverse).map List.reverse).getD
    asset.toList) ++ "/"

/-- What `installKernel` takes from the staged package: the kernel, and the server if there is
one. -/
def unpackKernel (kernel : KernelHandOff) : Updating (Bytes × Option Bytes) := do
  let data ← copyIn .copyPackage staging.package kernel.size
  need .readPackage (.coded .install "%v")
  match verifyKernel tools data kernel with
  | .error err => throw err
  | .ok () =>
    let extracts ← ExceptT.lift (ask .unpackKernel)
    match unpackListed tools extracts data (distOf kernel.asset ++ kernelBinary) kernel.sums with
    | .error err => throw err
    | .ok none => throw (.coded .install "the kernel package holds no %s")
    | .ok (some binary) =>
      checkKernelRuns tools binary
      let extracts ← ExceptT.lift (ask .unpackServer)
      match unpackListed tools extracts data (distOf kernel.asset ++ serverBinary) kernel.sums with
      | .error err => throw err
      | .ok server => pure (binary, server)

def keepPrevious (copy place : Step) (current : Option Bytes) (put : Bytes → Lib → Lib)
    (e : Failure) : Updating Unit :=
  match current with
  | none => pure ()
  | some _ => do
    let kept ← copyFile copy current e
    need place e
    set (put kept)

def keepKernel : Updating Unit := do
  let kernel ← read (·.lib.kernel)
  keepPrevious .copyKernel .placeKernelPrev kernel (fun kept lib ↦ { lib with kernelPrev := some kept })
    (.coded .install "cannot keep the installed kernel: %v")

def keepServer (server : Option Bytes) : Updating Unit := do
  if server.isSome then
    let current ← read (·.lib.server)
    keepPrevious .copyServer .placeServerPrev current
      (fun kept lib ↦ { lib with serverPrev := some kept })
      (.coded .install "cannot keep the installed anx-server: %v")

def placeServer (server : Option Bytes) : Updating Unit :=
  match server with
  | none => pure ()
  | some content => do
    need .placeServer (.coded .install "cannot install anx-server: %v")
    set fun lib ↦ { lib with server := some content }

def installKernel (kernel : KernelHandOff) : Updating Unit := do
  let (binary, server) ← unpackKernel tools staging kernel
  keepKernel
  keepServer server
  need .placeKernel (.coded .install "cannot install the kernel: %v")
  set fun lib ↦ { lib with kernel := some binary }
  placeServer server
  need .recordKernel (.coded .install "cannot record the kernel: %v")
  set fun lib ↦ { lib with
    kernelRecord := some (tools.marshalKernelRecord
      ⟨kernel.version, tools.sha256 binary, clock, some server.isSome⟩) }

def installedKernel (lib : Lib) : String :=
  match lib.kernelRecord.bind tools.unmarshalKernelRecord with
  | none => ""
  | some record =>
    if !tools.kernelVersionPattern record.version || !sha256Pattern record.sha256 then ""
    else if lib.kernel = none then ""
    else if record.server ≠ some false ∧ lib.server = none then ""
    else record.version

def trying (q : Step) (f : Lib → Lib) : Asking Host Step Unit := do
  if ← ask q then doing fun h ↦ { h with lib := f h.lib }

def reinstate (place drop : Step) (kept : Option Bytes) (put : Bytes → Lib → Lib)
    (clear : Lib → Lib) : Asking Host Step Unit :=
  match kept with
  | none => trying drop clear
  | some content => do
    if ← ask place then doing fun h ↦ { h with lib := put content h.lib }
    else trying drop clear

def removeKernel : Asking Host Step Unit := do
  trying .removeRecord fun lib ↦ { lib with kernelRecord := none }
  let kernelPrev ← seeing (·.lib.kernelPrev)
  reinstate .reinstateKernel .removeKernel kernelPrev
    (fun kept lib ↦ { lib with kernel := some kept, kernelPrev := none })
    fun lib ↦ { lib with kernel := none }
  let serverPrev ← seeing (·.lib.serverPrev)
  reinstate .reinstateServer .removeServer serverPrev
    (fun kept lib ↦ { lib with server := some kept, serverPrev := none })
    fun lib ↦ { lib with server := none }

def installStaged (h : HandOff) : Updating Unit :=
  match h.kernel with
  | none => pure ()
  | some kernel => do
    installKernel tools staging clock kernel
    note fun r ↦ { r with kernel := kernel.version }

def undoUpgrade (h : HandOff) : Updating Unit := do
  note fun r ↦ { r with outcome := .restored }
  if h.kernel.isSome then
    ExceptT.lift removeKernel
    note fun r ↦ { r with kernel := "" }
  restore (.coded .startFailed "%v; reinstating %s failed too: %v")
  throw (.coded .startFailed "%v; %s was reinstated")

def swapIn (h : HandOff) (binary : Bytes) : Updating Unit := do
  installStaged tools staging clock h
  keep tools installed clock h.targetVersion
  need .placeAgent (.coded .install "cannot install the new binary: %v")
  set fun lib ↦ { lib with agent := some binary }
  if ← ExceptT.lift (restartAndWatch polls) then note fun r ↦ { r with outcome := .installed }
  else undoUpgrade h

def verifiedBinary (h : HandOff) : Updating Bytes := do
  let archive ← copyIn .copyRelease staging.release h.size
  need .readRelease (.coded .install "%v")
  match verifyRelease tools archive h.size h.sha256 h.signature with
  | .error err => throw err
  | .ok () =>
    let extracts ← ExceptT.lift (ask .unpackRelease)
    match unpack tools extracts archive with
    | .error err => throw err
    | .ok binary => pure binary

def upgrade (h : HandOff) : Updating Unit := do
  let binary ← verifiedBinary tools staging h
  checkVersion tools .runRelease binary h.targetVersion
  swapIn tools installed staging polls clock h binary

def undoKernel : Updating Unit := do
  note fun r ↦ { r with outcome := .restored }
  ExceptT.lift removeKernel
  need .restartBack (.coded .startFailed "%v; restarting without the kernel failed too: %v")
  throw (.coded .startFailed "%v; the kernel was taken out again")

def kernelOnly (kernel : KernelHandOff) : Updating Unit := do
  let readable ← ExceptT.lift (ask .readKernelRecord)
  let lib ← read (·.lib)
  if readable && installedKernel tools lib = kernel.version then
    note fun r ↦ { r with outcome := .current }
  else
    installKernel tools staging clock kernel
    if ← ExceptT.lift (restartAndWatch polls) then
      note fun r ↦ { r with outcome := .installed, kernel := kernel.version }
    else undoKernel

def readPrevRecord (lib : Lib) : Option PrevRecordFile :=
  (lib.prevRecord.bind tools.unmarshalPrevRecord).filter fun record ↦
    validVersion record.version && sha256Pattern record.sha256

def undoRollback : Updating Unit := do
  note fun r ↦ { r with outcome := .restored }
  restore (.coded .startFailed "%v; reinstating %s failed too: %v")
  throw (.coded .startFailed "%v; %s was reinstated")

def swapBack (h : HandOff) (staged : Bytes) : Updating Unit := do
  keep tools installed clock h.targetVersion
  need .placeAgent (.coded .install "cannot reinstate %s: %v")
  set fun lib ↦ { lib with agent := some staged }
  if ← ExceptT.lift (restartAndWatch polls) then note fun r ↦ { r with outcome := .rolledBack }
  else undoRollback

def keptBinary (h : HandOff) (lib : Lib) (record : PrevRecordFile) : Updating Bytes :=
  if !tools.sameAgentVersion record.version h.targetVersion then
    throw (.coded .noPrevious "the kept release is %s, not %s")
  else match lib.prev with
    | none => throw (.coded .noPrevious "%v")
    | some prev => do
      need .hashPrev (.coded .noPrevious "%v")
      if tools.sha256 prev ≠ record.sha256 then
        throw (.coded .digest "%s's SHA-256 is %s, not the recorded %s")
      else copyFile .copyPrev (some prev) (.coded .install "%v")

def rollback (h : HandOff) : Updating Unit := do
  need .readPrevRecord (.coded .noPrevious "no kept release: %v")
  let lib ← read (·.lib)
  match readPrevRecord tools lib with
  | none => throw (.coded .noPrevious "no kept release: %v")
  | some record =>
    let staged ← keptBinary tools h lib record
    checkVersion tools .runPrev staged h.targetVersion
    swapBack tools installed polls clock h staged

def apply (h : HandOff) : Updating Unit :=
  if tools.sameAgentVersion installed h.targetVersion then
    match h.kernel with
    | some kernel =>
      if h.action = upgradeAction then kernelOnly tools staging polls clock kernel
      else note fun r ↦ { r with outcome := .current }
    | none => note fun r ↦ { r with outcome := .current }
  else if h.action = rollbackAction then rollback tools installed polls clock h
  else if h.file = "" then throw (.coded .invalidRequest "an upgrade to %s stages no release")
  else match compareVersions h.targetVersion installed with
    | none => throw (.coded .downgrade "cannot order %s against the installed %s")
    | some order =>
      if order < 0 then throw (.coded .downgrade
        "%s is older than the installed %s; only a rollback to the kept release may go back")
      else upgrade tools installed staging polls clock h

def requested (h : HandOff) (r : Result) : Result :=
  { r with
    operationID := h.operationID
    campaignID := h.campaignID
    action := h.action
    targetVersion := h.targetVersion
    previousVersion := h.previousVersion }

def handle : Updating Unit := do
  let h ← readHandOff tools staging
  note (requested h)
  apply tools installed staging polls clock h

def Result.failed (r : Result) : Failure → Result
  | .coded code _ =>
    { r with
      errorCode := some code
      outcome := if r.outcome = .unset then .refused else r.outcome }
  | _ => r

def Apply : Asking Host Step (Option Failure) := do
  if ← ask .consumeRequest then
    doing fun h ↦ { h with result := ⟨"", "", "", "", "", installed, .unset, none, ""⟩ }
    match ← (handle tools installed staging polls clock).run with
    | .ok () => pure none
    | .error err =>
      doing fun h ↦ { h with result := h.result.failed err }
      pure (some err)
  else pure (some .noRequest)

end

end AnixAgent.Upgrade.Updater
