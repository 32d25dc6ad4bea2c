import AnixAgent.Configs.Machine
import AnixAgent.NetworkRoute.Routes

namespace AnixAgent.Network.Applications

open Lib.Runs Lib.Tables Configs.Machine NetworkRoute.Routes Plan List Option

/-- What a network component is made with: the checks of the plan library, what the core dials,
whether the host has policy routing and anx-server, and the routing range. -/
structure Component where
  device : String
  check : NetworkPlan → Option String
  unsupported : NetworkPlan → List String
  coreDials : Bool
  routing : Bool
  serving : Bool
  first : Nat
  last : Nat
  net : Net

inductive Part
  | routes
  | kernel
  | core
  | servers
  deriving DecidableEq

def Component.has (c : Component) : Part → Bool
  | .routes => c.routing
  | .kernel => true
  | .core => true
  | .servers => c.serving

structure Application where
  plan : NetworkPlan
  ok : Bool
  deriving DecidableEq

/-- The plan that the component remembers, and the last application on each part. -/
structure State where
  plan : Option NetworkPlan
  last : Table Part Application

def init : State := ⟨none, ∅⟩

def State.record (s : State) (part : Part) (plan : NetworkPlan) (err : Option String) : State :=
  { s with last := s.last.insert part ⟨plan, err.isNone⟩ }

/-- The member "network" of a snapshot as the library reads it. -/
abbrev Snapshot := Option (Except String (Option NetworkPlan))

/-- How the parts answer one call; `status` is whether the core answered with a status. -/
structure Answers where
  routes : Option String
  kernel : Option String
  core : Option String
  status : Bool
  servers : Option String
  deriving DecidableEq

def invalidConfig (text : String) : ApplyError := ⟨text, true⟩

def Component.lineRole (c : Component) (plan : NetworkPlan) (transport : Transport) :
    Option String :=
  if transport.kind ≠ transportAnxLine then none
  else match transport.role with
    | .dial =>
      if relayed plan transport.id ∨ c.coreDials then none
      else some s!"transport {transport.id}: dialing anx_line needs anx-node as the core (AnixcoreConfig.AnxLine)"
    | .accept =>
      if c.serving then none
      else some s!"transport {transport.id}: accepting anx_line needs anx-server on this host"
    | .unspecified => none

def Component.lineRoles (c : Component) (plan : NetworkPlan) : Option String :=
  plan.transports.findSome? (c.lineRole plan)

def Component.refusal (c : Component) (plan : NetworkPlan) : Option ApplyError :=
  if plan.deviceRef ≠ c.device then
    some (invalidConfig
      s!"network plan: it is for {plan.deviceRef.quote}, not {c.device.quote}")
  else match c.check plan with
    | some err => some (invalidConfig s!"network plan: {err}")
    | none =>
      if c.unsupported plan ≠ [] then
        let kinds := ", ".intercalate (c.unsupported plan)
        some ⟨s!"network plan: this Agent does not run {kinds}", false⟩
      else match c.lineRoles plan with
        | some err => some (invalidConfig s!"network plan: {err}")
        | none =>
          if c.serving then
            match accepts c.net plan with
            | .error err => some (invalidConfig s!"network plan: {err}")
            | .ok _ => none
          else none

def samePlan (p q : NetworkPlan) : Bool := p.hash = q.hash ∧ p.generation = q.generation

/-- `route`: whether the routes were applied, and the error. Without policy routing nothing is
applied, and a plan that needs it is refused. -/
def Component.route (c : Component) (plan : NetworkPlan) (answers : Answers) :
    Bool × Option ApplyError :=
  match routes c.net plan c.first c.last with
  | .error err => (false, some (invalidConfig err))
  | .ok rs =>
    if c.routing then (true, answers.routes.map (⟨·, false⟩))
    else match rs with
      | [] => (false, none)
      | r :: _ => (false, some ⟨s!"egress {r.egress} needs policy routing, which this host has not (it needs Linux and the ip command)", false⟩)

def join (errs : List (Option String)) : Option String :=
  match errs.filterMap id with
  | [] => none
  | texts => some ("\n".intercalate texts)

def generationError (plan : NetworkPlan) (err : ApplyError) : ApplyError :=
  { err with text := s!"network plan generation {plan.generation}: {err.text}" }

def Component.applyRest (c : Component) (s : State) (plan : NetworkPlan) (answers : Answers) :
    State × Option ApplyError :=
  let s := s.record .kernel plan answers.kernel
  let s := s.record .core plan answers.core
  if answers.status = false ∧ answers.core.isSome then
    (s, (join [answers.core, answers.kernel]).map fun text ↦ generationError plan ⟨text, false⟩)
  else
    let s := if c.serving then s.record .servers plan answers.servers else s
    let servers := if c.serving then answers.servers else none
    ({ s with plan := some plan },
      (join [answers.core, answers.kernel, servers]).map fun text ↦
        generationError plan ⟨text, false⟩)

def Component.applyPlan (c : Component) (s : State) (plan : NetworkPlan) (answers : Answers) :
    State × Option ApplyError :=
  let routed := c.route plan answers
  let s := if routed.1 then s.record .routes plan answers.routes else s
  match routed.2 with
  | some err => (s, some (generationError plan err))
  | none => c.applyRest s plan answers

def Component.apply (c : Component) (s : State) (snapshot : Snapshot) (answers : Answers) :
    State × Option ApplyError :=
  match snapshot with
  | none => (s, none)
  | some (.error err) => (s, some (invalidConfig s!"network plan: {err}"))
  | some (.ok none) => (s, none)
  | some (.ok (some plan)) =>
    if plan.generation = 0 then (s, none)
    else match c.refusal plan with
      | some err => (s, some err)
      | none =>
        if s.plan.any (samePlan · plan) then (s, none)
        else c.applyPlan s plan answers

def step (c : Component) (s : State) (call : Snapshot × Answers) : Option State :=
  some (c.apply s call.1 call.2).1

def Succeeded (c : Component) (s : State) : Prop :=
  ∀ part, c.has part → ∃ app, s.last.lookup part = some app ∧ app.ok

def Current (c : Component) (s : State) (plan : NetworkPlan) : Prop :=
  ∀ part, c.has part →
    ∃ app, s.last.lookup part = some app ∧ app.ok ∧ samePlan app.plan plan

def Remembered (c : Component) (s : State) : Prop :=
  Succeeded c s → ∃ plan, s.plan = some plan ∧
    ∀ part, c.has part → ∃ app, s.last.lookup part = some app ∧ app.plan = plan

variable {c : Component} {s t : State} {plan : NetworkPlan} {answers : Answers}

theorem lookup_record (s : State) (part part' : Part) (plan : NetworkPlan) (err : Option String) :
    (s.record part plan err).last.lookup part' =
      if part' = part then some ⟨plan, err.isNone⟩ else s.last.lookup part' :=
  lookup_insert_ite s.last part part' _

theorem join_eq_none {errs : List (Option String)} : join errs = none ↔ ∀ e ∈ errs, e = none := by
  unfold join
  split
  · next h =>
    simp only [filterMap_eq_nil_iff, id_eq] at h
    exact iff_of_true rfl h
  · next h =>
    refine iff_of_false (by simp) fun hall ↦ h (filterMap_eq_nil_iff.mpr hall)

/-- How the parts after the routes can go: the core fails without a status, or all of them get the
plan, which is then remembered. -/
inductive Rest (c : Component) (s : State) (plan : NetworkPlan) :
    State × Option ApplyError → Prop
  | failed (t : State) (err : ApplyError) (h : t.last.lookup .core = some ⟨plan, false⟩) :
    Rest c s plan (t, some err)
  | given (t : State) (result : Option ApplyError) (hplan : t.plan = some plan)
    (hroutes : t.last.lookup .routes = s.last.lookup .routes)
    (hparts : ∀ part, c.has part → part ≠ .routes →
      ∃ ok, t.last.lookup part = some ⟨plan, ok⟩ ∧ (result = none → ok = true)) :
    Rest c s plan (t, result)

theorem rest_applyRest (c : Component) (s : State) (plan : NetworkPlan) (answers : Answers) :
    Rest c s plan (c.applyRest s plan answers) := by
  unfold Component.applyRest
  split
  · next h =>
    obtain ⟨err, herr⟩ := isSome_iff_exists.mp h.2
    obtain ⟨text, htext⟩ : ∃ text, join [answers.core, answers.kernel] = some text := by
      refine ne_none_iff_exists'.mp fun hnone ↦ ?_
      have hcore := join_eq_none.mp hnone answers.core mem_cons_self
      rw [herr] at hcore
      cases hcore
    rw [htext]
    refine .failed _ _ ?_
    rw [lookup_record, if_pos rfl, herr]
    rfl
  · refine .given _ _ rfl ?_ ?_
    · cases c.serving <;> simp [lookup_record]
    intro part hpart hne
    have hok (err : Option String)
        (hmem : err ∈ [answers.core, answers.kernel, if c.serving then answers.servers else none])
        (hnone : (join [answers.core, answers.kernel,
          if c.serving then answers.servers else none]).map
            (fun text ↦ generationError plan ⟨text, false⟩) = none) : err.isNone := by
      rw [map_eq_none_iff] at hnone
      rw [join_eq_none.mp hnone err hmem]
      rfl
    cases part with
    | routes => exact absurd rfl hne
    | kernel =>
      refine ⟨answers.kernel.isNone, ?_, hok answers.kernel (by simp)⟩
      cases c.serving <;> simp [lookup_record]
    | core =>
      refine ⟨answers.core.isNone, ?_, hok answers.core (by simp)⟩
      cases c.serving <;> simp [lookup_record]
    | servers =>
      have hserving : c.serving := hpart
      refine ⟨answers.servers.isNone, ?_, hok answers.servers (by simp [hserving])⟩
      simp [lookup_record, hserving]

inductive Went (c : Component) (s : State) (plan : NetworkPlan) :
    State × Option ApplyError → Prop
  | refused (err : ApplyError) : Went c s plan (s, some err)
  | failed (t : State) (err : ApplyError) (part : Part) (hpart : c.has part)
    (h : t.last.lookup part = some ⟨plan, false⟩) : Went c s plan (t, some err)
  | given (t : State) (result : Option ApplyError) (hplan : t.plan = some plan)
    (hparts : ∀ part, c.has part →
      ∃ ok, t.last.lookup part = some ⟨plan, ok⟩ ∧ (result = none → ok = true)) :
    Went c s plan (t, result)

theorem went_applyPlan (c : Component) (s : State) (plan : NetworkPlan) (answers : Answers) :
    Went c s plan (c.applyPlan s plan answers) := by
  have hrest (s' : State) (hroutes : c.routing → s'.last.lookup .routes = some ⟨plan, true⟩) :
      Went c s plan (c.applyRest s' plan answers) := by
    have hrest := rest_applyRest c s' plan answers
    generalize c.applyRest s' plan answers = r at hrest ⊢
    cases hrest with
    | failed t err h => exact .failed t err .core rfl h
    | given t result hplan hr hparts =>
      refine .given t result hplan fun part hpart ↦ ?_
      by_cases hne : part = .routes
      · subst hne
        exact ⟨true, hr.trans (hroutes hpart), fun _ ↦ rfl⟩
      · exact hparts part hpart hne
  unfold Component.applyPlan Component.route
  cases routes c.net plan c.first c.last with
  | error err => exact .refused _
  | ok rs =>
    cases hrouting : c.routing with
    | false =>
      cases rs with
      | nil => exact hrest s (by simp [hrouting])
      | cons r rs => exact .refused _
    | true =>
      cases hanswer : answers.routes with
      | some err =>
        refine .failed _ _ .routes hrouting ?_
        simp [lookup_record, isNone]
      | none =>
        refine hrest _ fun _ ↦ ?_
        simp [lookup_record]

theorem remembered_went {r : State × Option ApplyError} (h : Went c s plan r)
    (hs : Remembered c s) : Remembered c r.1 := by
  cases h with
  | refused err => exact hs
  | failed t err part hpart hlast =>
    intro hok
    obtain ⟨app, happ, hok⟩ := hok part hpart
    cases hlast.symm.trans happ
    cases hok
  | given t result hplan hparts =>
    intro _
    refine ⟨plan, hplan, fun part hpart ↦ ?_⟩
    obtain ⟨ok, hlast, -⟩ := hparts part hpart
    exact ⟨_, hlast, rfl⟩

theorem apply_plan_cases {r : State × Option ApplyError}
    (h : c.apply s (some (.ok (some plan))) answers = r) (hgen : plan.generation ≠ 0) :
    (∃ err, r = (s, some err)) ∨ (s.plan.any (samePlan · plan) ∧ r = (s, none)) ∨
      (s.plan.any (samePlan · plan) = false ∧ Went c s plan r) := by
  simp only [Component.apply, if_neg hgen] at h
  cases hrefusal : c.refusal plan with
  | some err =>
    rw [hrefusal] at h
    exact .inl ⟨err, h.symm⟩
  | none =>
    simp only [hrefusal] at h
    cases hsame : s.plan.any (samePlan · plan) with
    | true =>
      rw [hsame, if_pos rfl] at h
      exact .inr (.inl ⟨rfl, h.symm⟩)
    | false =>
      rw [hsame, if_neg (by simp)] at h
      exact .inr (.inr ⟨rfl, h ▸ went_applyPlan c s plan answers⟩)

theorem remembered_step {call : Snapshot × Answers} (hs : Remembered c s)
    (h : step c s call = some t) : Remembered c t := by
  obtain ⟨snapshot, answers⟩ := call
  cases h
  rcases snapshot with _ | _ | _ | plan
  · exact hs
  · exact hs
  · exact hs
  by_cases hgen : plan.generation = 0
  · simpa only [Component.apply, if_pos hgen] using hs
  rcases apply_plan_cases (r := c.apply s (some (.ok (some plan))) answers) rfl hgen with
    ⟨err, h⟩ | ⟨-, h⟩ | ⟨-, h⟩
  · rw [h]
    exact hs
  · rw [h]
    exact hs
  · exact remembered_went h hs

theorem remembered_init (c : Component) : Remembered c init := by
  intro h
  obtain ⟨app, happ, -⟩ := h .core rfl
  cases happ

/-- A call that returns nil for a plan leaves every part with that plan, successfully applied,
exactly when the plan was not the remembered one or no part's last application had failed. -/
theorem nil_iff_current (h : Steps (step c) init s)
    (hgen : plan.generation ≠ 0)
    (hnil : c.apply s (some (.ok (some plan))) answers = (t, none)) :
    Current c t plan ↔ (s.plan.any (samePlan · plan) = true → Succeeded c s) := by
  have hremembered : Remembered c s :=
    h.invariant (remembered_init c) fun _ _ _ hs _ hstep ↦ remembered_step hs hstep
  rcases apply_plan_cases hnil hgen with ⟨err, h⟩ | ⟨hsame, h⟩ | ⟨hother, h⟩
  · cases h
  · cases h
    constructor
    · intro hcurrent _ part hpart
      obtain ⟨app, happ, hok, -⟩ := hcurrent part hpart
      exact ⟨app, happ, hok⟩
    intro hcond part hpart
    obtain ⟨app, happ, hok⟩ := hcond hsame part hpart
    obtain ⟨p, hp, hparts⟩ := hremembered (hcond hsame)
    obtain ⟨app', happ', rfl⟩ := hparts part hpart
    cases happ.symm.trans happ'
    rw [hp] at hsame
    exact ⟨app, happ, hok, hsame⟩
  · refine iff_of_true ?_ fun hsame ↦ ?_
    · generalize hr : (t, (none : Option ApplyError)) = r at h
      cases h with
      | refused | failed => cases hr
      | given t result hplan hparts =>
        cases hr
        intro part hpart
        obtain ⟨ok, hlast, hok⟩ := hparts part hpart
        exact ⟨_, hlast, hok rfl, by simp [samePlan]⟩
    · rw [hother] at hsame
      cases hsame

def sampleComponent : Component where
  device := "proxy:1"
  check _ := none
  unsupported _ := []
  coreDials := true
  routing := true
  serving := true
  first := 20000
  last := 20999
  net := sampleNet

def firstPlan : NetworkPlan := { generation := 1, hash := "a", deviceRef := "proxy:1" }

def secondPlan : NetworkPlan := { generation := 2, hash := "b", deviceRef := "proxy:1" }

def giving (plan : NetworkPlan) (answers : Answers) : Snapshot × Answers :=
  (some (.ok (some plan)), answers)

def allWell : Answers := ⟨none, none, none, true, none⟩

def kernelFails : Answers := { allWell with kernel := some "nft: exit status 1" }

def coreFails : Answers := { allWell with core := some "the kernel is gone", status := false }

theorem nil_iff_current_two_plans :
    ∃ s, Steps (step sampleComponent) init s ∧
      ∃ t, sampleComponent.apply s (some (.ok (some secondPlan))) allWell = (t, none) ∧
        Current sampleComponent t secondPlan := by
  have hrun : Steps (step sampleComponent) init
      (sampleComponent.apply init (some (.ok (some firstPlan))) kernelFails).1 :=
    .one (giving firstPlan kernelFails) trivial rfl
  have hnil : (sampleComponent.apply
      (sampleComponent.apply init (some (.ok (some firstPlan))) kernelFails).1
      (some (.ok (some secondPlan))) allWell).2 = none := by decide +kernel
  refine ⟨_, hrun, _, Prod.ext rfl hnil, ?_⟩
  refine (nil_iff_current hrun (by decide) (Prod.ext rfl hnil)).mpr fun hsame ↦ ?_
  exact absurd hsame (by decide +kernel)

/-- A plan whose kernel forwards failed is answered with nil when it is given again; and so is a
plan that is given again after another one that reached the routes and the kernel forwards, and
failed on the core. -/
theorem nil_for_stale_parts :
    (∃ s, Steps (step sampleComponent) init s ∧
      (sampleComponent.apply s (some (.ok (some firstPlan))) allWell).2 = none ∧
      (sampleComponent.apply s (some (.ok (some firstPlan))) allWell).1.last.lookup .kernel =
        some ⟨firstPlan, false⟩) ∧
    ∃ s, Steps (step sampleComponent) init s ∧
      (sampleComponent.apply s (some (.ok (some firstPlan))) allWell).2 = none ∧
      (sampleComponent.apply s (some (.ok (some firstPlan))) allWell).1.last.lookup .routes =
        some ⟨secondPlan, true⟩ :=
  ⟨exists_steps [giving firstPlan kernelFails] _ (by decide +kernel),
    exists_steps [giving firstPlan allWell, giving secondPlan coreFails] _ (by decide +kernel)⟩

end AnixAgent.Network.Applications
