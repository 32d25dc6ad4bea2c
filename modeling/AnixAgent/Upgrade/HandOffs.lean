import AnixAgent.Lib.Runs
import AnixAgent.Lib.Tables
import AnixAgent.Upgrade.Updater

namespace AnixAgent.Upgrade.HandOffs

open Lib.Runs Lib.Tables
open Updater (assetPattern kernelAssetPattern)

inductive Kind
  | upgrade
  | rollback
  deriving DecidableEq

/-- The request of an operation, as `Handle` sees it: whether the Agent runs the target already, the
release of its architecture, and the kernel that is not installed yet. -/
structure Request where
  target : String
  action : Kind
  current : Bool
  artifact : Option String
  kernel : Option String
  deriving DecidableEq

/-- What `request.json` says, with the names of the staged files. -/
structure HandOff where
  target : String
  action : Kind
  files : List String
  deriving DecidableEq

/-- Where a call of `Handle` stands; the last two are those of `Admit`. A handler that was handed
the files' names has staged them. -/
inductive Handler
  | idle
  | waiting (r : Request)
  | checking (r : Request)
  | removing (r : Request)
  | starting (r : Request)
  | cleaning (r : Request) (names : List String)
  | staging (r : Request)
  | stagingKernel (r : Request) (staged : Option String)
  | writing (r : Request) (files : List String)
  | handing (r : Request) (files : List String)
  | discarding (names : List String)
  | admitting
  | dropping
  deriving DecidableEq

/-- Where the updater stands: with the files of the request it consumed, and those of them that it
has not copied yet. -/
inductive Applier
  | idle
  | applying (files uncopied : List String)
  | sweeping (files : List String)
  deriving DecidableEq

def Applier.uncopied : Applier → List String
  | .applying _ uncopied => uncopied
  | _ => []

/-- The staging directory with the Agent's handlers and the updater. A staged file is known by its
inode. -/
structure State (ι : Type) where
  handlers : ι → Handler
  flight : Option (String × Kind)
  request : Option HandOff
  staged : Table String Nat
  made : Nat
  updater : Applier

/-- The steps of a handler. The flags are what the host answers. -/
inductive Move
  | call (r : Request)
  | claim (cancelled : Bool)
  | check (stale : Bool)
  | remove
  | launch (ok listed : Bool)
  | clean
  | stage (ok : Bool)
  | stageKernel (ok : Bool)
  | write (ok : Bool)
  | finish (ok : Bool)
  | discard
  | admission (r : Request)
  deriving DecidableEq

/-- The steps of the handlers, of the Agent as a whole and of the updater. -/
inductive Act (ι : Type)
  | run (i : ι) (m : Move)
  | restart
  | consume
  | copy
  | conclude
  | sweep
  | stop
  deriving DecidableEq

def Act.ofAgent {ι : Type} : Act ι → Bool
  | .run _ _ | .restart => true
  | _ => false

section

variable {ι : Type} [DecidableEq ι]

def State.put (s : State ι) (i : ι) (h : Handler) : State ι :=
  { s with handlers := Function.update s.handlers i h }

def State.place (s : State ι) (name : String) : State ι :=
  { s with staged := s.staged.insert name s.made, made := s.made + 1 }

def State.drop (s : State ι) (name : String) : State ι :=
  { s with staged := s.staged.erase name }

/-- What `cleanStaging` removes; the temporary files are those of the handler itself. -/
def cleans (name : String) : Bool := assetPattern name || kernelAssetPattern name

variable (same : String → String → Bool)

def other (flight : String × Kind) (r : Request) : Bool :=
  !(same flight.1 r.target && flight.2 = r.action)

def handle (s : State ι) (i : ι) : Handler → Move → Option (State ι)
  | .idle, .call r =>
    -- On the target with its kernel there is nothing to do.
    if r.current && r.kernel.isNone then some s else some (s.put i (.waiting r))
  | .waiting r, .claim cancelled =>
    match s.flight with
    | none => some ({ s with flight := some (r.target, r.action) }.put i (.checking r))
    | some f => if other same f r || cancelled then some (s.put i .idle) else none
  | .checking r, .check stale =>
    match s.request with
    | none => some (s.put i (.starting r))
    | some _ => some (s.put i (if stale then .removing r else .discarding []))
  | .removing r, .remove => some ({ s with request := none }.put i (.starting r))
  | .starting r, .launch ok listed =>
    match r.action with
    | .upgrade =>
      if ok then some (s.put i (.cleaning r (if listed then s.staged.keys.filter cleans else [])))
      else some (s.put i (.discarding []))
    | .rollback => some (s.put i (if ok then .writing r [] else .discarding []))
  | .cleaning r [], .clean => some (s.put i (.staging r))
  | .cleaning r (name :: names), .clean => some ((s.drop name).put i (.cleaning r names))
  | .staging r, .stage ok =>
    if r.current then some (s.put i (.stagingKernel r none))
    else match r.artifact with
      | none => some (s.put i (.discarding []))
      | some asset =>
        if ok then some ((s.place asset).put i (.stagingKernel r (some asset)))
        else some (s.put i (.discarding []))
  | .stagingKernel r staged, .stageKernel ok =>
    match r.kernel with
    | none => some (s.put i (.writing r staged.toList))
    | some asset =>
      if ok then some ((s.place asset).put i (.writing r (staged.toList ++ [asset])))
      else some (s.put i (.discarding staged.toList))
  | .writing r files, .write ok =>
    some (s.put i (if ok then .handing r files else .discarding files))
  | .handing r files, .finish ok =>
    if ok then
      some ({ s with request := some ⟨r.target, r.action, files⟩, flight := none }.put i .idle)
    else some (s.put i (.discarding files))
  | .discarding [], .discard => some ({ s with flight := none }.put i .idle)
  | .discarding (name :: names), .discard => some ((s.drop name).put i (.discarding names))
  -- `Admit`
  | .idle, .admission r =>
    if s.flight.any fun f ↦ other same f r then some s else some (s.put i .admitting)
  | .admitting, .check stale =>
    some (s.put i (if s.request.isSome && stale then .dropping else .idle))
  | .dropping, .remove => some ({ s with request := none }.put i .idle)
  | _, _ => none

def step (s : State ι) : Act ι → Option (State ι)
  | .run i m => handle same s i (s.handlers i) m
  | .restart => some { s with handlers := fun _ ↦ .idle, flight := none }
  | .consume =>
    match s.updater, s.request with
    | .idle, some r => some { s with request := none, updater := .applying r.files r.files }
    | _, _ => none
  | .copy =>
    match s.updater with
    | .applying files (_ :: uncopied) => some { s with updater := .applying files uncopied }
    | _ => none
  | .conclude =>
    match s.updater with
    | .applying files _ => some { s with updater := .sweeping files }
    | _ => none
  | .sweep =>
    match s.updater with
    | .sweeping (name :: names) => some { s.drop name with updater := .sweeping names }
    | .sweeping [] => some { s with updater := .idle }
    | _ => none
  | .stop => some { s with updater := .idle }

end

def Handler.busy : Handler → Bool
  | .idle | .waiting _ | .admitting | .dropping => false
  | _ => true

def Handler.past : Handler → Bool
  | .starting _ | .cleaning _ _ | .staging _ | .stagingKernel _ _ => true
  | .writing _ _ | .handing _ _ => true
  | .discarding names => names ≠ []
  | _ => false

def Handler.touching : Handler → Bool
  | .cleaning _ _ | .staging _ | .stagingKernel _ _ => true
  | .writing _ files | .handing _ files | .discarding files => files ≠ []
  | _ => false

variable {h : Handler}

theorem Handler.busy_of_past (hpast : h.past) : h.busy := by
  cases h <;> first | rfl | cases hpast

theorem Handler.past_of_touching (htouching : h.touching) : h.past := by
  cases h <;> first | rfl | exact htouching

variable {ι : Type} [DecidableEq ι] {same : String → String → Bool} {s t : State ι} {i j : ι}
  {a : Act ι} {m : Move}

def lists (h : Handler) : Move → Bool
  | .launch true _ =>
    match h with
    | .starting r => r.action = .upgrade
    | _ => false
  | _ => false

inductive Does (s : State ι) (i : ι) (h : Handler) (m : Move) : State ι → Prop
  | stays : Does s i h m s
  | moves (h' : Handler) (hbusy : h'.busy = true → h.busy = true)
    (hpast : h'.past = true → h.past = true ∨ s.request = none)
    (htouching : h'.touching = true → h.touching = true ∨ lists h m = true) :
    Does s i h m (s.put i h')
  | claims (h' : Handler) (f : String × Kind) (hflight : s.flight = none)
    (hpast : h'.past = false) : Does s i h m ({ s with flight := some f }.put i h')
  | withdraws (h' : Handler) (hbusy : h'.busy = true → h.busy = true)
    (htouching : h'.touching = false) : Does s i h m ({ s with request := none }.put i h')
  | touches (h' : Handler) (staged : Table String Nat) (made : Nat) (htouching : h.touching = true)
    (hbusy : h'.busy = true → h.busy = true) :
    Does s i h m ({ s with staged := staged, made := made }.put i h')
  | ends (hbusy : h.busy = true) : Does s i h m ({ s with flight := none }.put i .idle)
  | handsOff (r : HandOff) (hpast : h.past = true) (hm : m = .finish true) :
    Does s i h m ({ s with request := some r, flight := none }.put i .idle)

theorem handle_does (ht : handle same s i h m = some t) : Does s i h m t := by
  unfold handle at ht
  split at ht
  -- call
  · split at ht <;> cases ht
    · exact .stays
    · exact .moves _ nofun nofun nofun
  -- claim
  · split at ht
    · next hflight =>
      cases ht
      exact .claims _ _ hflight rfl
    split at ht
    · cases ht
      exact .moves _ nofun nofun nofun
    · cases ht
  -- check
  · split at ht <;> cases ht
    · next hrequest => exact .moves _ (fun _ ↦ rfl) (fun _ ↦ .inr hrequest) nofun
    · split <;> exact .moves _ (fun _ ↦ rfl) nofun nofun
  -- remove
  · cases ht
    exact .withdraws _ (fun _ ↦ rfl) rfl
  -- launch
  · split at ht
    · next haction =>
      split at ht <;> cases ht
      · next hok =>
        refine .moves _ (fun _ ↦ rfl) (fun _ ↦ .inl rfl) fun _ ↦ .inr ?_
        rw [hok]
        simp [lists, haction]
      · exact .moves _ (fun _ ↦ rfl) nofun nofun
    · cases ht
      split
      · exact .moves _ (fun _ ↦ rfl) (fun _ ↦ .inl rfl) nofun
      · exact .moves _ (fun _ ↦ rfl) nofun nofun
  -- clean
  · cases ht
    exact .moves _ (fun _ ↦ rfl) (fun _ ↦ .inl rfl) fun _ ↦ .inl rfl
  · cases ht
    exact .touches _ _ _ rfl fun _ ↦ rfl
  -- stage
  · split at ht
    · cases ht
      exact .moves _ (fun _ ↦ rfl) (fun _ ↦ .inl rfl) fun _ ↦ .inl rfl
    split at ht
    · cases ht
      exact .moves _ (fun _ ↦ rfl) nofun nofun
    · split at ht <;> cases ht
      · exact .touches _ _ _ rfl fun _ ↦ rfl
      · exact .moves _ (fun _ ↦ rfl) nofun nofun
  -- stageKernel
  · split at ht
    · cases ht
      exact .moves _ (fun _ ↦ rfl) (fun _ ↦ .inl rfl) fun _ ↦ .inl rfl
    · split at ht <;> cases ht
      · exact .touches _ _ _ rfl fun _ ↦ rfl
      · exact .moves _ (fun _ ↦ rfl) (fun _ ↦ .inl rfl) fun _ ↦ .inl rfl
  -- write
  · cases ht
    split <;> exact .moves _ (fun _ ↦ rfl) (fun _ ↦ .inl rfl) .inl
  -- finish
  · split at ht <;> cases ht
    · next hok => exact .handsOff _ rfl (by rw [hok])
    · exact .moves _ (fun _ ↦ rfl) (fun _ ↦ .inl rfl) .inl
  -- discard
  · cases ht
    exact .ends rfl
  · cases ht
    exact .touches _ _ _ rfl fun _ ↦ rfl
  -- admission
  · split at ht <;> cases ht
    · exact .stays
    · exact .moves _ nofun nofun nofun
  · cases ht
    split <;> exact .moves _ nofun nofun nofun
  · cases ht
    exact .withdraws _ nofun rfl
  · cases ht

structure Lone (s : State ι) : Prop where
  one : ∀ i j, (s.handlers i).busy = true → (s.handlers j).busy = true → i = j
  claimed : ∀ i, (s.handlers i).busy = true → s.flight ≠ none
  free : ∀ i, (s.handlers i).past = true → s.request = none

@[simp] theorem put_handlers (s : State ι) (i j : ι) (h : Handler) :
    (s.put i h).handlers j = if j = i then h else s.handlers j :=
  Function.update_apply ..

theorem Lone.goes (hs : Lone s) (hbusy : h.busy → (s.handlers i).busy)
    (hpast : h.past → s.request = none) : Lone (s.put i h) := by
  have hback (j : ι) (hj : ((s.put i h).handlers j).busy) : (s.handlers j).busy := by
    rw [put_handlers] at hj
    split at hj
    · next heq => exact heq ▸ hbusy hj
    · exact hj
  refine ⟨fun j k hj hk ↦ hs.one j k (hback j hj) (hback k hk),
    fun j hj ↦ hs.claimed j (hback j hj), fun j hj ↦ ?_⟩
  rw [put_handlers] at hj
  split at hj
  · exact hpast hj
  · exact hs.free j hj

theorem Lone.alone (hothers : ∀ j, j ≠ i → (s.handlers j).busy = false)
    (hclaimed : h.busy → s.flight ≠ none) (hpast : h.past → s.request = none) :
    Lone (s.put i h) := by
  have honly (j : ι) (hj : ((s.put i h).handlers j).busy) : j = i ∧ h.busy := by
    rw [put_handlers] at hj
    split at hj
    · next heq => exact ⟨heq, hj⟩
    · next hne => exact absurd hj (by simp [hothers j hne])
  refine ⟨fun j k hj hk ↦ (honly j hj).1.trans (honly k hk).1.symm,
    fun j hj ↦ hclaimed (honly j hj).2, fun j hj ↦ ?_⟩
  obtain ⟨rfl, -⟩ := honly j (Handler.busy_of_past hj)
  rw [put_handlers, if_pos rfl] at hj
  exact hpast hj

omit [DecidableEq ι] in
theorem Lone.others (hs : Lone s) (hi : (s.handlers i).busy) (j : ι) (hne : j ≠ i) :
    (s.handlers j).busy = false :=
  Bool.eq_false_iff.mpr fun hj ↦ hne (hs.one j i hj hi)

theorem Lone.does (hs : Lone s) (h : Does s i (s.handlers i) m t) : Lone t := by
  cases h with
  | stays => exact hs
  | moves h' hbusy hpast _ =>
    exact hs.goes hbusy fun hpast' ↦ (hpast hpast').elim (hs.free i) id
  | claims h' f hflight hpast =>
    have hnone (j : ι) : (s.handlers j).busy = false :=
      Bool.eq_false_iff.mpr fun hj ↦ hs.claimed j hj hflight
    exact Lone.alone (fun j _ ↦ hnone j) (fun _ ↦ Option.some_ne_none f)
      fun hpast' ↦ Bool.noConfusion (hpast.symm.trans hpast')
  | withdraws h' hbusy _ =>
    have hs' : Lone { s with request := none } := ⟨hs.one, hs.claimed, fun _ _ ↦ rfl⟩
    exact hs'.goes hbusy fun _ ↦ rfl
  | touches h' staged made htouching hbusy =>
    have hs' : Lone { s with staged := staged, made := made } := ⟨hs.one, hs.claimed, hs.free⟩
    exact hs'.goes hbusy fun _ ↦ hs.free i (Handler.past_of_touching htouching)
  | ends hbusy => exact Lone.alone (hs.others hbusy) nofun nofun
  | handsOff r hpast _ => exact Lone.alone (hs.others (Handler.busy_of_past hpast)) nofun nofun

theorem updater_step (ha : a.ofAgent = false) (h : step same s a = some t) :
    t.handlers = s.handlers ∧ t.flight = s.flight ∧ (s.request = none → t.request = none) ∧
      (s.request = none → s.updater.uncopied = [] → t.updater.uncopied = []) := by
  cases a with
  | run | restart => cases ha
  | consume =>
    simp only [step] at h
    split at h
    · next hrequest =>
      cases h
      have hpending : s.request ≠ none := by simp [hrequest]
      exact ⟨rfl, rfl, fun _ ↦ rfl, fun hnone ↦ absurd hnone hpending⟩
    · cases h
  | copy =>
    simp only [step] at h
    split at h
    · next hupdater =>
      cases h
      exact ⟨rfl, rfl, id, fun _ hnone ↦ by simp [hupdater, Applier.uncopied] at hnone⟩
    · cases h
  | conclude =>
    simp only [step] at h
    split at h
    · cases h
      exact ⟨rfl, rfl, id, fun _ _ ↦ rfl⟩
    · cases h
  | sweep =>
    simp only [step] at h
    split at h
    · cases h
      exact ⟨rfl, rfl, id, fun _ _ ↦ rfl⟩
    · cases h
      exact ⟨rfl, rfl, id, fun _ _ ↦ rfl⟩
    · cases h
  | stop =>
    cases h
    exact ⟨rfl, rfl, id, fun _ _ ↦ rfl⟩

theorem Lone.step (hs : Lone s) (h : step same s a = some t) : Lone t := by
  cases hagent : a.ofAgent with
  | true =>
    cases a with
    | run i m => exact hs.does (handle_does h)
    | restart =>
      cases h
      exact ⟨nofun, nofun, nofun⟩
    | _ => cases hagent
  | false =>
    obtain ⟨hhandlers, hflight, hrequest, -⟩ := updater_step hagent h
    refine ⟨?_, ?_, fun i hi ↦ hrequest (hs.free i (hhandlers ▸ hi))⟩
    · rw [hhandlers]
      exact hs.one
    · rw [hhandlers, hflight]
      exact hs.claimed

/-- The files that a request in the directory or with the updater names and that are not copied. -/
def State.needed (s : State ι) : List String :=
  (s.request.elim [] (·.files)) ++ s.updater.uncopied

/-- A handler lists the staging directory only when the updater has copied what it consumed. -/
def Apart (s : State ι) : Act ι → Prop
  | .run i m => lists (s.handlers i) m = true → s.updater.uncopied = []
  | _ => True

instance (s : State ι) (a : Act ι) : Decidable (Apart s a) := by
  unfold Apart
  split <;> infer_instance

def Clear (s : State ι) : Prop :=
  ∀ i, (s.handlers i).touching = true → s.updater.uncopied = []

theorem Clear.goes {u : State ι} (hs : Clear s) (hhandlers : u.handlers = s.handlers)
    (hupdater : u.updater = s.updater) (hi : h.touching → s.updater.uncopied = []) :
    Clear (u.put i h) := by
  intro j hj
  rw [put_handlers, hhandlers] at hj
  change u.updater.uncopied = []
  rw [hupdater]
  split at hj
  · exact hi hj
  · exact hs j hj

theorem Clear.step (hclear : Clear s) (hs : Lone s) (hapart : Apart s a)
    (h : step same s a = some t) : Clear t := by
  cases hagent : a.ofAgent with
  | true =>
    cases a with
    | run i m =>
      cases handle_does h with
      | stays => exact hclear
      | moves h' _ _ htouching =>
        exact hclear.goes rfl rfl fun hh ↦ (htouching hh).elim (hclear i) hapart
      | claims h' f _ hpast =>
        exact hclear.goes rfl rfl fun hh ↦
          Bool.noConfusion (hpast.symm.trans (Handler.past_of_touching hh))
      | withdraws h' _ htouching =>
        exact hclear.goes rfl rfl fun hh ↦ Bool.noConfusion (htouching.symm.trans hh)
      | touches h' staged made htouching _ => exact hclear.goes rfl rfl fun _ ↦ hclear i htouching
      | ends | handsOff => exact hclear.goes rfl rfl nofun
    | restart =>
      cases h
      exact nofun
    | _ => cases hagent
  | false =>
    obtain ⟨hhandlers, -, -, huncopied⟩ := updater_step hagent h
    intro i hi
    rw [hhandlers] at hi
    exact huncopied (hs.free i (Handler.past_of_touching hi)) (hclear i hi)

theorem past_of_finish {ok : Bool} (ht : handle same s i h (.finish ok) = some t) : h.past := by
  cases h <;> first | rfl | simp [handle] at ht

/-- The Agent has just started: no handler runs. The directory and the updater are as they may
be. -/
def Started (s : State ι) : Prop := s.flight = none ∧ ∀ i, s.handlers i = .idle

omit [DecidableEq ι] in
theorem Started.lone (hs : Started s) : Lone s := by
  refine ⟨fun i j hi ↦ ?_, fun i hi ↦ ?_, fun i hi ↦ ?_⟩ <;> rw [hs.2 i] at hi <;> cases hi

omit [DecidableEq ι] in
theorem Started.clear (hs : Started s) : Clear s := by
  intro i hi
  rw [hs.2 i] at hi
  cases hi

/-- A hand-off finds no request in the directory. If a handler lists the staging directory only when
the updater has copied what it consumed, no step of the Agent touches a file that a request names
and that is not copied. -/
theorem handed_off_files_kept (same : String → String → Bool) (s₀ : State ι) (h₀ : Started s₀) :
    (∀ s, Steps (step same) s₀ s →
      ∀ i t, step same s (.run i (.finish true)) = some t → s.request = none) ∧
    (∀ s, Reach (step same) Apart s₀ s → ∀ a t, a.ofAgent = true →
      step same s a = some t → ∀ name ∈ s.needed, t.staged.lookup name = s.staged.lookup name) := by
  refine ⟨fun s hs i t ht ↦ ?_, fun s hs a t ha ht ↦ ?_⟩
  · have hlone : Lone s := hs.invariant h₀.lone fun _ _ _ hs _ h ↦ hs.step h
    exact hlone.free i (past_of_finish ht)
  have hkept : Lone s ∧ Clear s :=
    hs.invariant (I := fun s ↦ Lone s ∧ Clear s) ⟨h₀.lone, h₀.clear⟩
      fun _ _ _ hs hapart h ↦ ⟨hs.1.step h, hs.2.step hs.1 hapart h⟩
  cases a with
  | run i m =>
    cases handle_does ht with
    | touches h' staged made htouching _ =>
      intro name hname
      have hrequest := hkept.1.free i (Handler.past_of_touching htouching)
      simp [State.needed, hrequest, hkept.2 i htouching] at hname
    | _ => exact fun _ _ ↦ rfl
  | restart =>
    cases ht
    exact fun _ _ ↦ rfl
  | _ => cases ha

def release : String := "anix-agent-linux-64.zip"

def offer : Request := ⟨"v2.0.0", .upgrade, false, some release, none⟩

def sameVersion (v w : String) : Bool := v = w

def installed : State Bool := ⟨fun _ ↦ .idle, none, none, ∅, 0, .idle⟩

theorem started_installed : Started installed := ⟨rfl, fun _ ↦ rfl⟩

def handOff : List (Act Bool) :=
  [.run false (.call offer), .run true (.call offer), .run false (.claim false),
    .run false (.check false), .run false (.launch true true), .run false .clean,
    .run false (.stage true), .run false (.stageKernel true), .run false (.write true),
    .run false (.finish true)]

/-- The second identity finds the request in the directory and leaves its files alone. -/
theorem handed_off_files_kept_pending :
    ∃ s t, Reach (step sameVersion) Apart installed s ∧ release ∈ s.needed ∧
      step sameVersion s (.run true (.check false)) = some t ∧
      t.staged.lookup release = s.staged.lookup release := by
  have hs : Reach (step sameVersion) Apart installed _ :=
    reach_after (handOff ++ [.run true (.claim false)]) (by decide +kernel)
  exact ⟨_, _, hs, by decide +kernel, step_after (by decide +kernel),
    (handed_off_files_kept sameVersion installed started_installed).2 _ hs _ _ rfl
      (step_after (by decide +kernel)) release (by decide +kernel)⟩

/-- The updater has consumed the request and not copied the release: the second identity finds no
request and removes the release. -/
theorem handed_off_file_removed :
    ∃ s t, Steps (step sameVersion) installed s ∧ release ∈ s.needed ∧
      s.staged.lookup release ≠ none ∧ step sameVersion s (.run true .clean) = some t ∧
      t.staged.lookup release = none := by
  exact ⟨_, _, steps_after (handOff ++ [.consume, .run true (.claim false), .run true (.check false),
      .run true (.launch true true)]) (by decide +kernel), by decide +kernel, by decide +kernel,
    step_after (by decide +kernel), by decide +kernel⟩

end AnixAgent.Upgrade.HandOffs
