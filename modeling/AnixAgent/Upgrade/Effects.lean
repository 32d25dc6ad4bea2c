import AnixAgent.Upgrade.Updater

namespace AnixAgent.Upgrade.Effects

open Lib.Crash Lib.Crash.Proc Lib.Answers Lib.Failing Versions Updater List

abbrev Now := World Host Step

def Member (tools : Tools) (archive binary : Bytes) : Prop :=
  ∃ entries e, tools.zip archive = some entries ∧ entries.filter ZipEntry.isAgent = [e] ∧
    e.content = some binary

variable {extracts : Bool} {binary data : Bytes}

theorem unpackEntries_ok {found : Option Bytes} {entries : List ZipEntry}
    (h : unpackEntries extracts found entries = .ok binary) :
    (∃ e, found = none ∧ entries.filter ZipEntry.isAgent = [e] ∧ e.content = some binary) ∨
      found = some binary ∧ entries.filter ZipEntry.isAgent = [] := by
  induction entries generalizing found with
  | nil =>
    cases found with
    | none => cases h
    | some content =>
      cases h
      exact .inr ⟨rfl, rfl⟩
  | cons e rest ih =>
    rw [unpackEntries] at h
    split at h
    · next hskip =>
      rw [filter_cons_of_neg (by simpa using hskip)]
      exact ih h
    next hagent =>
    rw [filter_cons_of_pos (by simpa using hagent)]
    split at h
    · cases h
    split at h
    · cases h
    next hfound =>
    split at h
    · cases h
    next content hcontent =>
    split at h
    · cases h
    rcases ih h with ⟨_, hnone, _⟩ | ⟨hsome, hrest⟩
    · cases hnone
    · cases hsome
      exact .inl ⟨e, by simpa using hfound, by rw [hrest], hcontent⟩

theorem unpack_ok {tools : Tools} {archive : Bytes}
    (h : unpack tools extracts archive = .ok binary) : Member tools archive binary := by
  unfold unpack at h
  split at h
  · cases h
  next entries hentries =>
  rcases unpackEntries_ok h with ⟨e, -, hfilter, hcontent⟩ | ⟨hsome, -⟩
  · exact ⟨entries, e, hentries, hfilter, hcontent⟩
  · cases hsome

theorem verifyRelease_ok {tools : Tools} {size : Int} {digest signature : String}
    (h : verifyRelease tools data size digest signature = .ok ()) :
    ∃ sig, tools.ed25519Verify tools.releaseKey data sig := by
  unfold verifyRelease at h
  split at h
  · cases h
  split at h
  · cases h
  split at h
  · cases h
  split at h
  · cases h
  next sig _ =>
  split at h
  · cases h
  split at h
  · cases h
  next hverify => exact ⟨sig, by simpa using hverify⟩

/-- The binary installed before, that of a signed release which is not older, or the kept one
with its record. -/
inductive Trusted (tools : Tools) (installed : String) (before : Lib) (h : HandOff) :
    Option Bytes → Prop
  | before : Trusted tools installed before h before.agent
  | release (archive signature binary : Bytes)
    (hsigned : tools.ed25519Verify tools.releaseKey archive signature = true)
    (hmember : Member tools archive binary)
    (hprints : printsVersion tools (tools.output binary) h.targetVersion = true)
    (hversion : NotBelow h.targetVersion installed) :
    Trusted tools installed before h (some binary)
  | kept (record : PrevRecordFile) (binary : Bytes)
    (hrecord : readPrevRecord tools before = some record)
    (hprev : before.prev = some binary) (hsum : tools.sha256 binary = record.sha256)
    (hversion : tools.sameAgentVersion record.version h.targetVersion = true) :
    Trusted tools installed before h (some binary)

variable {q : Step} {Q : Unit → Now → Prop} {r server : Option Bytes}

section

variable {tools : Tools} {installed : String} {staging : Staging} {polls : List Poll} {clock : Int}
  {before : Lib} {h : HandOff} {w t : Now}

variable (tools installed before h) in
def Swaps (p q : Host) : Prop :=
  q.lib.agent = p.lib.agent ∨ Trusted tools installed before h q.lib.agent

structure Quiet (w t : Now) : Prop where
  now : t.now = w.now
  asked : w.asked ⊆ t.asked

theorem Quiet.refl (w : Now) : Quiet w w := ⟨rfl, Subset.refl _⟩

theorem Quiet.trans {u : Now} (h₁ : Quiet w t) (h₂ : Quiet t u) : Quiet w u :=
  ⟨h₂.now.trans h₁.now, Subset.trans h₁.asked h₂.asked⟩

theorem quiet_of_asked {l : List (Step × Bool)} (hnow : t.now = w.now)
    (hasked : t.asked = w.asked ++ l) : Quiet w t :=
  ⟨hnow, hasked ▸ subset_append_left _ _⟩

section

variable {G : Host → Host → Prop} (hG : ∀ p q : Host, q.lib.agent = p.lib.agent → G p q)
  {E : Failure → Now → Prop}

include hG

theorem tries_needed {e : Failure} (hQ : ∀ t, Quiet w t → (q, true) ∈ t.asked → Q () t)
    (hE : ∀ t, Quiet w t → (q, false) ∈ t.asked → E e t) : Tries (need q e) w (Within G) Q E :=
  tries_need (hG _ _ rfl) (fun t hnow hasked ↦ hQ t (quiet_of_asked hnow hasked) (by simp [hasked]))
    fun t hnow hasked ↦ hE t (quiet_of_asked hnow hasked) (by simp [hasked])

theorem tries_asked {Q : Bool → Now → Prop} (hQ : ∀ b t, Quiet w t → Q b t) :
    Tries (ExceptT.lift (ask q)) w (Within G) Q E :=
  Goes.bind (goes_ask (hG _ _ rfl) fun b t hnow hasked ↦
    Goes.pure (hQ b t (quiet_of_asked hnow hasked)))

theorem tries_note {f : Result → Result}
    (hQ : ∀ t, t.now.lib = w.now.lib → t.asked = w.asked → Q () t) :
    Tries (note f) w (Within G) Q E :=
  tries_change (hG _ _ rfl) fun t hnow hasked ↦ hQ t (by rw [hnow]) hasked

theorem tries_set {f : Lib → Lib} (hagent : ∀ lib, (f lib).agent = lib.agent)
    (hQ : ∀ t, t.now.lib = f w.now.lib → t.asked = w.asked → Q () t) :
    Tries (set f) w (Within G) Q E :=
  tries_change (hG _ _ (hagent _)) fun t hnow hasked ↦ hQ t (by rw [hnow]) hasked

theorem tries_copyIn {file : Option Opened} {size : Int} {Q : Bytes → Now → Prop}
    (hQ : ∀ f t, file = some f → Quiet w t → Q (f.content.take (size + 1).toNat) t)
    (hE : ∀ e t, Quiet w t → E e t) : Tries (copyIn q file size) w (Within G) Q E := by
  unfold copyIn
  split
  · exact tries_throw (hE _ _ (.refl w))
  next f =>
  split
  · exact tries_throw (hE _ _ (.refl w))
  refine tries_bind (tries_needed hG (fun t ht _ ↦ ?_) fun t ht _ ↦ hE _ _ ht)
  dsimp only
  split
  · exact tries_throw (hE _ _ ht)
  · exact tries_pure (hQ f t rfl ht)

theorem tries_copyFile {file : Option Bytes} {e : Failure} {Q : Bytes → Now → Prop}
    (hQ : ∀ content t, file = some content → content.length ≤ maxBinaryBytes → Quiet w t →
      Q content t)
    (hE : ∀ t, Quiet w t → (∀ content, file = some content → content.length ≤ maxBinaryBytes →
      (q, false) ∈ t.asked) → E e t) :
    Tries (copyFile q file e) w (Within G) Q E := by
  unfold copyFile
  cases file with
  | none => exact tries_throw (hE _ (.refl w) nofun)
  | some content =>
    refine tries_bind (tries_needed hG (fun t ht _ ↦ ?_) fun t ht hmem ↦ hE t ht fun _ _ _ ↦ hmem)
    split
    · next hlong =>
      refine tries_throw (hE t ht fun content' heq hshort ↦ ?_)
      cases heq
      omega
    · next hshort => exact tries_pure (hQ content t rfl (not_lt.mp hshort) ht)

theorem tries_checkVersion {version : String}
    (hQ : ∀ t, printsVersion tools (tools.output binary) version → Quiet w t → Q () t)
    (hE : ∀ e t, Quiet w t → E e t) :
    Tries (checkVersion tools q binary version) w (Within G) Q E := by
  refine tries_bind (tries_needed hG (fun t ht _ ↦ ?_) fun t ht _ ↦ hE _ _ ht)
  split
  · next hprints => exact tries_pure (hQ t hprints ht)
  · exact tries_throw (hE _ _ ht)

theorem tries_verifiedBinary {Q : Bytes → Now → Prop} (hQ : ∀ archive signature binary t,
      tools.ed25519Verify tools.releaseKey archive signature →
      Member tools archive binary → Quiet w t → Q binary t)
    (hE : ∀ e t, Quiet w t → E e t) :
    Tries (verifiedBinary tools staging h) w (Within G) Q E := by
  refine tries_bind (tries_copyIn hG (fun f t _ ht ↦ ?_) hE)
  refine tries_bind (tries_needed hG (fun t₁ ht₁ _ ↦ ?_) fun t₁ ht₁ _ ↦ hE _ _ (ht.trans ht₁))
  split
  · exact tries_throw (hE _ _ (ht.trans ht₁))
  next hverified =>
  obtain ⟨signature, hsigned⟩ := verifyRelease_ok hverified
  refine tries_bind (tries_asked hG fun extracts t₂ ht₂ ↦ ?_)
  have hquiet := (ht.trans ht₁).trans ht₂
  split
  · exact tries_throw (hE _ _ hquiet)
  next binary hunpack =>
  exact tries_pure (hQ _ signature binary t₂ hsigned (unpack_ok hunpack) hquiet)

structure KeptAgent (w t : Now) : Prop where
  agent : t.now.lib.agent = w.now.lib.agent
  prev : t.now.lib.prev = w.now.lib.agent
  short : ∃ content, w.now.lib.agent = some content ∧ content.length ≤ maxBinaryBytes
  kernel : t.now.lib.kernel = w.now.lib.kernel
  kernelPrev : t.now.lib.kernelPrev = w.now.lib.kernelPrev
  server : t.now.lib.server = w.now.lib.server
  serverPrev : t.now.lib.serverPrev = w.now.lib.serverPrev
  kernelRecord : t.now.lib.kernelRecord = w.now.lib.kernelRecord
  asked : w.asked ⊆ t.asked

structure SameFiles (l l' : Lib) : Prop where
  agent : l'.agent = l.agent
  kernel : l'.kernel = l.kernel
  server : l'.server = l.server
  kernelRecord : l'.kernelRecord = l.kernelRecord

theorem tries_keep {replacedFor : String} (hQ : ∀ t, KeptAgent w t → Q () t)
    (hE : ∀ e t, SameFiles w.now.lib t.now.lib → w.asked ⊆ t.asked →
      (∀ content, w.now.lib.agent = some content → content.length ≤ maxBinaryBytes →
        ∃ q ∈ [Step.copyAgent, .hashKept, .placePrev, .recordPrev], (q, false) ∈ t.asked) → E e t) :
    Tries (keep tools installed clock replacedFor) w (Within G) Q E := by
  have hsame {t : Now} (ht : Quiet w t) : SameFiles w.now.lib t.now.lib := by
    rw [ht.now]
    exact ⟨rfl, rfl, rfl, rfl⟩
  refine tries_bind (tries_read ?_)
  refine tries_bind (tries_copyFile hG (fun temp t hagent hshort ht ↦ ?_) fun t ht hmem ↦
    hE _ t (hsame ht) ht.asked fun content hcontent hshort ↦
      ⟨_, by simp, hmem content hcontent hshort⟩)
  refine tries_bind (tries_needed hG (fun t₁ ht₁ _ ↦ ?_) fun t₁ ht₁ hmem ↦
    hE _ _ (hsame (ht.trans ht₁)) (ht.trans ht₁).asked fun _ _ _ ↦ ⟨_, by simp, hmem⟩)
  have hquiet₁ := ht.trans ht₁
  refine tries_bind (tries_needed hG (fun t₂ ht₂ _ ↦ ?_) fun t₂ ht₂ hmem ↦
    hE _ _ (hsame (hquiet₁.trans ht₂)) (hquiet₁.trans ht₂).asked fun _ _ _ ↦ ⟨_, by simp, hmem⟩)
  have hquiet₂ := hquiet₁.trans ht₂
  refine tries_bind (tries_set hG (fun _ ↦ rfl) fun t₃ hlib₃ hasked₃ ↦ ?_)
  refine tries_bind (tries_needed hG (fun t₄ ht₄ _ ↦ ?_) fun t₄ ht₄ hmem ↦ ?_)
  · refine tries_set hG (fun _ ↦ rfl) fun t₅ hlib₅ hasked₅ ↦ ?_
    have hasked : w.asked ⊆ t₅.asked :=
      hasked₅ ▸ Subset.trans hquiet₂.asked (hasked₃ ▸ ht₄.asked)
    refine hQ t₅ ⟨?_, ?_, ⟨temp, hagent, hshort⟩, ?_, ?_, ?_, ?_, ?_, hasked⟩ <;>
      simp [hlib₅, ht₄.now, hlib₃, hquiet₂.now, hagent]
  · have hlib : t₄.now.lib = { w.now.lib with prev := some temp } := by
      rw [ht₄.now, hlib₃, hquiet₂.now]
    refine hE _ t₄ (hlib ▸ ⟨rfl, rfl, rfl, rfl⟩)
      (Subset.trans hquiet₂.asked (hasked₃ ▸ ht₄.asked)) fun _ _ _ ↦ ⟨_, by simp, hmem⟩

omit hG in
theorem untarEntries_extracts {ended : Bool} {member : List Char} {entries : List TarEntry}
    (h : untarEntries extracts ended member entries = .ok r) :
    untarEntries true ended member entries = .ok r := by
  induction entries with
  | nil => exact h
  | cons e rest ih =>
    rw [untarEntries] at h ⊢
    split at h
    · next hskip =>
      rw [if_pos hskip]
      exact ih h
    next hmember =>
    rw [if_neg hmember]
    split at h
    · cases h
    next hsize =>
    rw [if_neg hsize]
    split at h
    · cases h
    next hextracts =>
    rw [if_neg fun hlong ↦ hextracts (by simp_all)]
    exact h

omit hG in
theorem unpackListed_extracts {member sums : String}
    (h : unpackListed tools extracts data member sums = .ok r) :
    unpackListed tools true data member sums = .ok r := by
  unfold unpackListed at h ⊢
  split at h
  · cases h
  next entries ended hentries =>
  split at h
  · cases h
  · next huntar =>
    rw [untarEntries_extracts huntar]
    exact h
  · next content huntar =>
    rw [untarEntries_extracts huntar]
    exact h

variable (tools staging) in
def packageServer (kernel : KernelHandOff) : Option Bytes :=
  staging.package.bind fun f ↦
    ((unpackListed tools true (f.content.take (kernel.size + 1).toNat)
      (distOf kernel.asset ++ serverBinary) kernel.sums).toOption).join

theorem tries_unpackKernel {kernel : KernelHandOff} {Q : Bytes × Option Bytes → Now → Prop}
    (hQ : ∀ binary t, Quiet w t → Q (binary, packageServer tools staging kernel) t)
    (hE : ∀ e t, Quiet w t → E e t) :
    Tries (unpackKernel tools staging kernel) w (Within G) Q E := by
  refine tries_bind (tries_copyIn hG (fun f t hf ht ↦ ?_) hE)
  refine tries_bind (tries_needed hG (fun t₁ ht₁ _ ↦ ?_) fun t₁ ht₁ _ ↦ hE _ _ (ht.trans ht₁))
  have hquiet₁ := ht.trans ht₁
  split
  · exact tries_throw (hE _ _ hquiet₁)
  refine tries_bind (tries_asked hG fun extracts t₂ ht₂ ↦ ?_)
  have hquiet₂ := hquiet₁.trans ht₂
  split
  · exact tries_throw (hE _ _ hquiet₂)
  · exact tries_throw (hE _ _ hquiet₂)
  next binary hbinary =>
  refine tries_bind (tries_bind (tries_needed hG (fun t₃ ht₃ _ ↦ ?_) fun t₃ ht₃ _ ↦
    hE _ _ (hquiet₂.trans ht₃)))
  have hquiet₃ := hquiet₂.trans ht₃
  split
  · refine tries_pure (tries_bind (tries_asked hG fun extracts t₄ ht₄ ↦ ?_))
    have hquiet₄ := hquiet₃.trans ht₄
    split
    · exact tries_throw (hE _ _ hquiet₄)
    next server hserver =>
    have hpackage : packageServer tools staging kernel = server := by
      simp only [packageServer, hf, Option.bind_some, unpackListed_extracts hserver]
      rfl
    exact tries_pure (hpackage ▸ hQ binary t₄ hquiet₄)
  · exact tries_throw (hE _ _ hquiet₃)

theorem tries_keepPrevious {copy place : Step} {current : Option Bytes} {put : Bytes → Lib → Lib}
    {e : Failure} (hagent : ∀ kept lib, (put kept lib).agent = lib.agent)
    (hQ : ∀ t, t.now.lib = (current.elim w.now.lib fun kept ↦ put kept w.now.lib) →
      w.asked ⊆ t.asked → Q () t)
    (hE : ∀ t, Quiet w t → E e t) :
    Tries (keepPrevious copy place current put e) w (Within G) Q E := by
  unfold keepPrevious
  split
  · exact tries_pure (hQ w rfl (Subset.refl _))
  next content =>
  refine tries_bind (tries_copyFile hG (fun kept t heq _ ht ↦ ?_) fun t ht _ ↦ hE t ht)
  cases heq
  refine tries_bind (tries_needed hG (fun t₁ ht₁ _ ↦ ?_) fun t₁ ht₁ _ ↦ hE t₁ (ht.trans ht₁))
  have hquiet := ht.trans ht₁
  refine tries_set hG (hagent content) fun t₂ hlib hasked ↦ hQ t₂ ?_ (hasked ▸ hquiet.asked)
  rw [hlib, hquiet.now]
  rfl

omit hG in
theorem kept_kernel (lib : Lib) (current : Option Bytes) :
    (current.elim lib fun kept ↦ { lib with kernelPrev := some kept }) =
      { lib with kernelPrev := current.or lib.kernelPrev } := by
  cases current <;> rfl

omit hG in
theorem kept_server (lib : Lib) (current : Option Bytes) :
    (current.elim lib fun kept ↦ { lib with serverPrev := some kept }) =
      { lib with serverPrev := current.or lib.serverPrev } := by
  cases current <;> rfl

theorem tries_keepKernel (hQ : ∀ t, t.now.lib =
        { w.now.lib with kernelPrev := w.now.lib.kernel.or w.now.lib.kernelPrev } →
      w.asked ⊆ t.asked → Q () t)
    (hE : ∀ e t, Quiet w t → E e t) : Tries keepKernel w (Within G) Q E := by
  refine tries_bind (tries_read ?_)
  exact tries_keepPrevious hG (fun _ _ ↦ rfl)
    (fun t hlib hasked ↦ hQ t (hlib.trans (kept_kernel _ _)) hasked) fun t ht ↦ hE _ t ht

theorem tries_keepServer (hQ : ∀ t, t.now.lib = { w.now.lib with
        serverPrev := if server.isSome then w.now.lib.server.or w.now.lib.serverPrev
          else w.now.lib.serverPrev } →
      w.asked ⊆ t.asked → Q () t)
    (hE : ∀ e t, Quiet w t → E e t) : Tries (keepServer server) w (Within G) Q E := by
  unfold keepServer
  split
  · next hserver =>
    simp only [hserver, if_true] at hQ
    refine tries_bind (tries_read ?_)
    exact tries_keepPrevious hG (fun _ _ ↦ rfl)
      (fun t hlib hasked ↦ hQ t (hlib.trans (kept_server _ _)) hasked) fun t ht ↦ hE _ t ht
  · next hserver =>
    simp only [hserver] at hQ
    exact tries_pure (hQ w rfl (Subset.refl _))

theorem tries_placeServer
    (hQ : ∀ t, t.now.lib = { w.now.lib with server := server.or w.now.lib.server } →
      w.asked ⊆ t.asked → Q () t)
    (hE : ∀ e t, Quiet w t → (Step.placeServer, false) ∈ t.asked → E e t) :
    Tries (placeServer server) w (Within G) Q E := by
  unfold placeServer
  split
  · exact tries_pure (hQ w rfl (Subset.refl _))
  refine tries_bind (tries_needed hG (fun t₁ ht₁ _ ↦ ?_) fun t₁ ht₁ hmem ↦ hE _ t₁ ht₁ hmem)
  refine tries_set hG (fun _ ↦ rfl) fun t₂ hlib hasked ↦ hQ t₂ ?_ (hasked ▸ ht₁.asked)
  rw [hlib, ht₁.now]
  rfl

structure PlacedKernel (server : Option Bytes) (w t : Now) : Prop where
  agent : t.now.lib.agent = w.now.lib.agent
  kernelPrev : t.now.lib.kernelPrev = w.now.lib.kernel.or w.now.lib.kernelPrev
  serverPrev : t.now.lib.serverPrev =
    if server.isSome then w.now.lib.server.or w.now.lib.serverPrev else w.now.lib.serverPrev
  placed : (Step.placeKernel, true) ∈ t.asked
  asked : w.asked ⊆ t.asked

theorem tries_installKernel {kernel : KernelHandOff}
    (hQ : ∀ t, PlacedKernel (packageServer tools staging kernel) w t → Q () t)
    (hE : ∀ e t, t.now.lib.agent = w.now.lib.agent → w.asked ⊆ t.asked →
      (SameFiles w.now.lib t.now.lib ∨ (Step.placeKernel, true) ∈ t.asked ∧
        ∃ q ∈ [Step.placeServer, .recordKernel], (q, false) ∈ t.asked) → E e t) :
    Tries (installKernel tools staging clock kernel) w (Within G) Q E := by
  have hsame {t : Now} {lib : Lib} (hlib : t.now.lib = lib) (hasked : w.asked ⊆ t.asked)
      (hfiles : SameFiles w.now.lib lib) (e : Failure) : E e t :=
    hE e t (hlib ▸ hfiles.agent) hasked (.inl (hlib ▸ hfiles))
  refine tries_bind (tries_unpackKernel hG (fun binary t₁ ht₁ ↦ ?_) fun e t₁ ht₁ ↦
    hsame (by rw [ht₁.now]) ht₁.asked ⟨rfl, rfl, rfl, rfl⟩ e)
  generalize packageServer tools staging kernel = server at hQ
  dsimp only
  refine tries_bind (tries_keepKernel hG (fun t₂ hlib₂ hasked₂ ↦ ?_) fun e t₂ ht₂ ↦ ?_)
  swap
  · have hquiet := ht₁.trans ht₂
    exact hsame (by rw [hquiet.now]) hquiet.asked ⟨rfl, rfl, rfl, rfl⟩ e
  rw [ht₁.now] at hlib₂
  have hsub₂ := Subset.trans ht₁.asked hasked₂
  refine tries_bind (tries_keepServer hG (fun t₃ hlib₃ hasked₃ ↦ ?_) fun e t₃ ht₃ ↦ ?_)
  swap
  · exact hsame ((congrArg Host.lib ht₃.now).trans hlib₂) (Subset.trans hsub₂ ht₃.asked)
      ⟨rfl, rfl, rfl, rfl⟩ e
  rw [hlib₂] at hlib₃
  have hsub₃ := Subset.trans hsub₂ hasked₃
  refine tries_bind (tries_needed hG (fun t₄ ht₄ hplaced ↦ ?_) fun t₄ ht₄ _ ↦ ?_)
  swap
  · exact hsame ((congrArg Host.lib ht₄.now).trans hlib₃) (Subset.trans hsub₃ ht₄.asked)
      ⟨rfl, rfl, rfl, rfl⟩ _
  refine tries_bind (tries_set hG (fun _ ↦ rfl) fun t₅ hlib₅ hasked₅ ↦ ?_)
  rw [ht₄.now, hlib₃] at hlib₅
  rw [← hasked₅] at hplaced
  have hsub₅ : w.asked ⊆ t₅.asked := hasked₅ ▸ Subset.trans hsub₃ ht₄.asked
  refine tries_bind (tries_placeServer hG (fun t₆ hlib₆ hasked₆ ↦ ?_) fun e t₆ ht₆ hmem ↦ ?_)
  swap
  · exact hE e t₆ (by rw [ht₆.now, hlib₅]) (Subset.trans hsub₅ ht₆.asked)
      (.inr ⟨ht₆.asked hplaced, _, by simp, hmem⟩)
  rw [hlib₅] at hlib₆
  have hsub₆ := Subset.trans hsub₅ hasked₆
  refine tries_bind (tries_needed hG (fun t₇ ht₇ _ ↦ ?_) fun t₇ ht₇ hmem ↦ ?_)
  swap
  · have hplaced₇ := ht₇.asked (hasked₆ hplaced)
    exact hE _ t₇ (by rw [ht₇.now, hlib₆]) (Subset.trans hsub₆ ht₇.asked)
      (.inr ⟨hplaced₇, _, by simp, hmem⟩)
  refine tries_set hG (fun _ ↦ rfl) fun t₈ hlib₈ hasked₈ ↦ hQ t₈ ?_
  rw [ht₇.now, hlib₆] at hlib₈
  exact ⟨by rw [hlib₈], by rw [hlib₈], by rw [hlib₈], hasked₈ ▸ ht₇.asked (hasked₆ hplaced),
    hasked₈ ▸ Subset.trans hsub₆ ht₇.asked⟩

end

end

end AnixAgent.Upgrade.Effects
