import AnixAgent.NetworkRoute.Rules

namespace AnixAgent.NetworkRoute.Commands

open Lib.Results Network.Plan Routes Rules List

section Commands

variable (m : Manager) (lengths : Prefix → Bool) (family : Family) (routes : List Route)

def removal (existing : Rule) : List Command :=
  if keyOf existing ∈ wantedKeys family routes then []
  else
    .ruleDelete family existing.priority (selectors existing).1 (selectors existing).2
        existing.table ::
      if m.ownsTable existing.table ∧ existing.table ∉ wantedTables family routes then
        [.routeFlush family existing.table]
      else []

def installation (present : List String) (route : Route) : List Command :=
  .routeReplace family (tableText route) ⟨route.gateway, route.interface, route.source⟩ ::
    ((routeRules route).filter fun r ↦ wantedKey r ∉ present).map (.ruleAdd family)

def presentKeys (host : Host) : List String :=
  ((m.rules lengths host family).map keyOf).filter (· ∈ wantedKeys family routes)

def removals (host : Host) : List Command :=
  (m.rules lengths host family).flatMap (removal m family routes)

def installations (host : Host) : List Command :=
  (routesOf family routes).flatMap (installation family (presentKeys m lengths family routes host))

end Commands

def execAll (host : Host) (commands : List Command) : Except String Host :=
  commands.foldlM Host.exec host

variable {host host' h : Host} {c : Command}

theorem execAll_cons {cs : List Command} :
    execAll host (c :: cs) = .ok host' ↔ ∃ h, host.exec c = .ok h ∧ execAll h cs = .ok host' := by
  unfold execAll
  rw [foldlM_cons, bind_eq_ok]

theorem execAll_append {cs ds : List Command} : execAll host (cs ++ ds) = .ok host' ↔
      ∃ h, execAll host cs = .ok h ∧ execAll h ds = .ok host' := by
  unfold execAll
  rw [foldlM_append, bind_eq_ok]

def never : Nat → Option String := fun _ ↦ none

variable {p q : Progress} {cs : List Command}

/-- `q` is `p` after the commands, if they succeed; and without a failure they have succeeded. -/
structure Carries (p : Progress) (cs : List Command) (q : Progress) : Prop where
  after : ∀ h, execAll p.host cs = .ok h → q = p.after h cs
  succeeds : q.failed = [] → ∃ h, execAll p.host cs = .ok h

theorem Carries.of_failed (h : Carries p cs q) (hfailed : q.failed = []) :
    execAll p.host cs = .ok q.host ∧ q = p.after q.host cs := by
  obtain ⟨host, hhost⟩ := h.succeeds hfailed
  rw [h.after host hhost]
  exact ⟨hhost, rfl⟩

theorem Carries.nil (p : Progress) : Carries p [] p where
  after h hnil := by
    cases hnil
    simp only [Progress.after, append_nil]
  succeeds _ := ⟨p.host, rfl⟩

theorem Carries.trans {ds : List Command} {r : Progress} (h : Carries p cs q)
    (h' : Carries q ds r) : Carries p (cs ++ ds) r where
  after host hall := by
    obtain ⟨middle, hcs, hds⟩ := execAll_append.mp hall
    obtain rfl := h.after middle hcs
    rw [h'.after host hds]
    simp only [Progress.after, append_assoc]
  succeeds hfailed := by
    obtain ⟨hds, hr⟩ := h'.of_failed hfailed
    have hq : q.failed = [] := by
      rw [hr] at hfailed
      exact hfailed
    exact ⟨r.host, execAll_append.mpr ⟨q.host, (h.of_failed hq).1, hds⟩⟩

theorem run_never (h : p.host.exec c = .ok host) : p.run never c = (p.after host [c], none) := by
  simp only [Progress.run, never, h, Progress.after]

theorem carries_after (h : p.host.exec c = .ok host) : Carries p [c] (p.after host [c]) where
  after h' hall := by
    obtain ⟨h₁, hc, hnil⟩ := execAll_cons.mp hall
    cases hnil
    cases h.symm.trans hc
    rfl
  succeeds _ := ⟨host, execAll_cons.mpr ⟨host, h, rfl⟩⟩

theorem carries_keep (what : String) (p : Progress) (c : Command) :
    Carries p [c] (p.keep never what c) := by
  cases hc : p.host.exec c with
  | ok h =>
    simp only [Progress.keep, run_never hc]
    exact carries_after hc
  | error err =>
    simp only [Progress.keep, Progress.run, never, hc]
    refine ⟨fun h hall ↦ ?_, fun hfailed ↦ (by simp at hfailed)⟩
    obtain ⟨h₁, hok, -⟩ := execAll_cons.mp hall
    cases hc.symm.trans hok

theorem carries_foldl {α : Type} {f : α → List Command} {turn : Progress → α → Progress}
    (hturn : ∀ p x, Carries p (f x) (turn p x)) (l : List α) (p : Progress) :
    Carries p (l.flatMap f) (l.foldl turn p) := by
  induction l generalizing p with
  | nil => exact .nil p
  | cons x l ih => exact (hturn p x).trans (ih (turn p x))

variable {family f : Family} {routes : List Route}

theorem carries_visitRule (m : Manager) (p : Progress) (existing : Rule) :
    Carries p (removal m family routes existing) (visitRule m never family routes p existing) := by
  unfold removal visitRule
  split
  · exact .nil p
  · dsimp only
    split
    · exact (carries_keep "" p _).trans (carries_keep "" _ _)
    · exact carries_keep "" p _

variable {present : List String}

theorem carries_ruleAdd {α : Type} {what : String} {key : α → String} {rule : α → HostRule}
    (hkey : ∀ x, key x = wantedKey (rule x)) (l : List α) (p : Progress) :
    Carries p (((l.map rule).filter fun r ↦ wantedKey r ∉ present).map (.ruleAdd family))
      (l.foldl (fun p x ↦ if key x ∈ present then p
        else p.keep never what (.ruleAdd family (rule x))) p) := by
  have hflat (l : List α) : ((l.map rule).filter fun r ↦ wantedKey r ∉ present).map
      (Command.ruleAdd family) =
        l.flatMap fun x ↦ if key x ∈ present then [] else [.ruleAdd family (rule x)] := by
    induction l with
    | nil => rfl
    | cons x l ih =>
      rw [flatMap_cons, map_cons, ← ih, hkey x]
      by_cases hx : wantedKey (rule x) ∈ present
      · simp [hx]
      · simp [hx]
  rw [hflat]
  refine carries_foldl (fun p x ↦ ?_) l p
  split
  · exact .nil p
  · exact carries_keep what p _

theorem carries_installRoute (p : Progress) (route : Route) :
    Carries p (installation family present route) (installRoute never family present p route) := by
  have hreplace : p.host.exec (.routeReplace family (tableText route)
      ⟨route.gateway, route.interface, route.source⟩) = .ok _ := rfl
  simp only [installRoute, run_never hreplace]
  refine (carries_after hreplace).trans ?_
  -- the rule of the source comes before those of the peers
  rw [show routeRules route = [()].map (fun _ ↦ sourceRule route) ++
    route.toPeers.map (peerRule route) from rfl, filter_append, map_append]
  have hsource (_ : Unit) : wantedKey (sourceRule route) = wantedKey (sourceRule route) := rfl
  exact (carries_ruleAdd hsource [()] _).trans (carries_ruleAdd (fun _ ↦ rfl) route.toPeers _)

variable {lengths : Prefix → Bool}

def familyCommands (m : Manager) (lengths : Prefix → Bool) (family : Family)
    (routes : List Route) (host : Host) : List Command :=
  removals m lengths family routes host ++ installations m lengths family routes host

theorem carries_applyFamily (m : Manager) (lengths : Prefix → Bool) (family : Family)
    (routes : List Route) (p : Progress) :
    ∃ q, m.applyFamily never lengths routes p family = (q, none) ∧
      Carries p (.ruleShow family :: familyCommands m lengths family routes p.host) q := by
  have hshow : p.host.exec (.ruleShow family) = .ok p.host := rfl
  simp only [Manager.applyFamily, run_never hshow]
  refine ⟨_, rfl, (carries_after hshow).trans ?_⟩
  exact (carries_foldl (fun p x ↦ carries_visitRule m p x) _ _).trans
    (carries_foldl (fun p x ↦ carries_installRoute p x) _ _)

/-- Whether a rule stays: it is not the manager's, or it is listed with a wanted key. -/
def stays (m : Manager) (lengths : Prefix → Bool) (family : Family) (routes : List Route)
    (r : HostRule) : Bool :=
  !m.owns r.priority || keyOf (listed lengths r) ∈ wantedKeys family routes

theorem selects_iff {text : String} {p : Option Prefix} : selects text p ↔
    text = "" ∨ text = "all" ∨
      ∃ q, p = some q ∧ (text = Prefix.text q ∨ q.len = bitLen q.addr ∧ text = q.addr.text) := by
  cases p <;> simp [selects]

theorem deletes_iff {priority : Nat} {src dst table : String} {r : HostRule} :
    deletes priority src dst table r ↔ r.priority = priority ∧ selects src r.src ∧
      selects dst r.dst ∧ (table = "" ∨ r.table = table) := by
  simp [deletes]

def deletion (family : Family) (existing : Rule) : Command :=
  .ruleDelete family existing.priority (selectors existing).1 (selectors existing).2 existing.table

/-- Whether the command that is made for the rule `u` can take the rule `k`. -/
def deletionTakes (lengths : Prefix → Bool) (u k : HostRule) : Bool :=
  deletes u.priority (fromText lengths u) (toText lengths u) u.table k

theorem deletionTakes_self (lengths : Prefix → Bool) (r : HostRule) :
    deletionTakes lengths r r := by
  refine deletes_iff.mpr ⟨rfl, selects_iff.mpr ?_, selects_iff.mpr ?_, .inr rfl⟩
  · unfold fromText
    split
    · next p hp => exact .inr (.inr ⟨p, hp, listedText_cases lengths p⟩)
    · split
      · exact .inl rfl
      · exact .inr (.inl rfl)
  · unfold toText
    split
    · next p hp => exact .inr (.inr ⟨p, hp, listedText_cases lengths p⟩)
    · exact .inl rfl

theorem rules_setRules (host : Host) (family f : Family) (rules : List HostRule) (h : rules.Nodup) :
    (host.setRules family rules h).rules f = if f = family then rules else host.rules f := by
  simp only [Host.setRules, Function.update_apply]

theorem rules_exec (h : host.exec c = .ok host') (hf : f ≠ c.family) :
    host'.rules f = host.rules f := by
  cases c with
  | ruleShow | routeFlush | routeReplace =>
    cases h
    rfl
  | ruleDelete family =>
    simp only [Host.exec] at h
    split at h
    · cases h
      exact (rules_setRules host family f _ _).trans (if_neg hf)
    · cases h
  | ruleAdd family rule =>
    simp only [Host.exec] at h
    split at h
    · cases h
    · cases h
      exact (rules_setRules host family f _ _).trans (if_neg hf)

theorem rules_execAll (h : execAll host cs = .ok host') (hcs : ∀ c ∈ cs, c.family = family)
    (hf : f ≠ family) : host'.rules f = host.rules f := by
  induction cs generalizing host with
  | nil =>
    cases h
    rfl
  | cons c cs ih =>
    obtain ⟨h₁, hc, hrest⟩ := execAll_cons.mp h
    rw [ih hrest fun c' hc' ↦ hcs c' (mem_cons_of_mem c hc'),
      rules_exec hc (hcs c mem_cons_self ▸ hf)]

section Removals

variable {m : Manager} {u : HostRule} {before rest : List HostRule}

theorem deletes_listed : deletes (listed lengths u).priority (selectors (listed lengths u)).1
    (selectors (listed lengths u)).2 (listed lengths u).table = deletionTakes lengths u := by
  rw [selectors_listed]
  rfl

theorem exec_deletion (hexec : host.exec (deletion family (listed lengths u)) = .ok h) :
    h.rules family = (host.rules family).eraseP (deletionTakes lengths u) := by
  simp only [deletion, Host.exec, deletes_listed] at hexec
  split at hexec
  · cases hexec
    rw [rules_setRules, if_pos rfl]
  · cases hexec

theorem exec_deletion_of_mem (hu : u ∈ host.rules family) :
    ∃ h, host.exec (deletion family (listed lengths u)) = .ok h := by
  simp only [deletion, Host.exec, deletes_listed]
  rw [if_pos (any_eq_true.mpr ⟨u, hu, deletionTakes_self lengths u⟩)]
  exact ⟨_, rfl⟩

def removalsOf (m : Manager) (lengths : Prefix → Bool) (family : Family) (routes : List Route)
    (rest : List HostRule) : List Command :=
  ((rest.map (listed lengths)).filter fun r ↦ m.owns r.priority).flatMap (removal m family routes)

theorem removalsOf_cons_stays (hu : stays m lengths family routes u) :
    removalsOf m lengths family routes (u :: rest) = removalsOf m lengths family routes rest := by
  unfold removalsOf
  rw [map_cons]
  by_cases howns : m.owns (listed lengths u).priority
  · have hkey : keyOf (listed lengths u) ∈ wantedKeys family routes := by
      simpa [stays, show m.owns u.priority from howns] using hu
    rw [filter_cons_of_pos (by exact howns), flatMap_cons, removal, if_pos hkey, nil_append]
  · rw [filter_cons_of_neg (by exact howns)]

/-- A rule that does not stay is deleted; flushing its table leaves the rules as they are. -/
theorem execAll_removalsOf_cons (hu : stays m lengths family routes u = false) :
    execAll host (removalsOf m lengths family routes (u :: rest)) = .ok h' ↔
      ∃ h₁ h₂, host.exec (deletion family (listed lengths u)) = .ok h₁ ∧ h₂.rules = h₁.rules ∧
        execAll h₁ (if m.ownsTable u.table ∧ u.table ∉ wantedTables family routes then
          [.routeFlush family u.table] else []) = .ok h₂ ∧
        execAll h₂ (removalsOf m lengths family routes rest) = .ok h' := by
  obtain ⟨howns, hkey⟩ : m.owns u.priority ∧
      keyOf (listed lengths u) ∉ wantedKeys family routes := by
    simpa [stays] using hu
  have hcons : removalsOf m lengths family routes (u :: rest) =
      deletion family (listed lengths u) ::
        ((if m.ownsTable u.table ∧ u.table ∉ wantedTables family routes then
          [.routeFlush family u.table] else []) ++ removalsOf m lengths family routes rest) := by
    unfold removalsOf
    rw [map_cons, filter_cons_of_pos (by exact howns), flatMap_cons, removal, if_neg hkey]
    rfl
  rw [hcons, execAll_cons]
  simp only [execAll_append]
  constructor
  · rintro ⟨h₁, hdelete, h₂, hflush, hrest⟩
    refine ⟨h₁, h₂, hdelete, ?_, hflush, hrest⟩
    split at hflush
    all_goals
      cases hflush
      rfl
  · rintro ⟨h₁, h₂, hdelete, -, hflush, hrest⟩
    exact ⟨h₁, hdelete, h₂, hflush, hrest⟩

/-- The command for a rule that does not stay takes no rule before it that stays. -/
abbrev Apart (m : Manager) (lengths : Prefix → Bool) (family : Family) (routes : List Route)
    (k u : HostRule) : Prop :=
  stays m lengths family routes k → stays m lengths family routes u = false →
    deletionTakes lengths u k = false

theorem eraseP_deletionTakes (hbefore : ∀ k ∈ before, deletionTakes lengths u k = false) :
    (before ++ u :: rest).eraseP (deletionTakes lengths u) = before ++ rest := by
  rw [eraseP_append_right _ (fun k hk ↦ by simp [hbefore k hk]),
    eraseP_cons_of_pos (deletionTakes_self lengths u)]

theorem execAll_removals (hrules : host.rules family = before ++ rest)
    (hstay : ∀ k ∈ before, stays m lengths family routes k)
    (hapart : (before ++ rest).Pairwise (Apart m lengths family routes)) :
    ∃ h, execAll host (removalsOf m lengths family routes rest) = .ok h ∧
      h.rules family = before ++ rest.filter (stays m lengths family routes) := by
  induction rest generalizing before host with
  | nil => exact ⟨host, rfl, by simpa using hrules⟩
  | cons u rest ih =>
    cases hu : stays m lengths family routes u with
    | true =>
      rw [removalsOf_cons_stays hu]
      rw [← singleton_append, ← append_assoc] at hrules hapart
      obtain ⟨h, hexec, hafter⟩ := ih hrules (by simpa [or_imp, forall_and, hu] using hstay) hapart
      exact ⟨h, hexec, by simpa [hu] using hafter⟩
    | false =>
      have hbefore (k : HostRule) (hk : k ∈ before) : deletionTakes lengths u k = false :=
        (pairwise_append.mp hapart).2.2 k hk u mem_cons_self (hstay k hk) hu
      have hmem : u ∈ host.rules family := hrules ▸ mem_append_right _ mem_cons_self
      obtain ⟨h₁, hdelete⟩ : ∃ h, host.exec (deletion family (listed lengths u)) = .ok h :=
        exec_deletion_of_mem hmem
      have hrules₁ : h₁.rules family = before ++ rest := by
        rw [exec_deletion hdelete, hrules, eraseP_deletionTakes hbefore]
      obtain ⟨h₂, hflush, hrules₂⟩ : ∃ h₂, execAll h₁
          (if m.ownsTable u.table ∧ u.table ∉ wantedTables family routes then
            [.routeFlush family u.table] else []) = .ok h₂ ∧ h₂.rules = h₁.rules := by
        split
        · exact ⟨_, rfl, rfl⟩
        · exact ⟨h₁, rfl, rfl⟩
      obtain ⟨h, hexec, hafter⟩ := ih (hrules₂ ▸ hrules₁) hstay
        (hapart.sublist ((sublist_cons_self u rest).append_left before))
      exact ⟨h, (execAll_removalsOf_cons hu).mpr ⟨h₁, h₂, hdelete, hrules₂, hflush, hexec⟩,
        by simpa [hu] using hafter⟩

theorem countP_eraseP_ge {α : Type} (gone takes : α → Bool) (l : List α) :
    l.countP gone ≤ (l.eraseP takes).countP gone + 1 := by
  induction l with
  | nil => simp
  | cons x l ih =>
    cases htakes : takes x with
    | true =>
      rw [eraseP_cons_of_pos htakes, countP_cons]
      split <;> omega
    | false =>
      rw [eraseP_cons_of_neg (by simp [htakes]), countP_cons, countP_cons]
      omega

/-- Each command takes one rule, so as many rules that do not stay are left as others were taken. -/
theorem countP_removalsOf (hexec : execAll host (removalsOf m lengths family routes rest) = .ok h) :
    (host.rules family).countP (!stays m lengths family routes ·) ≤
      (h.rules family).countP (!stays m lengths family routes ·) +
        rest.countP (!stays m lengths family routes ·) := by
  induction rest generalizing host with
  | nil =>
    cases hexec
    simp
  | cons u rest ih =>
    cases hu : stays m lengths family routes u with
    | true =>
      rw [removalsOf_cons_stays hu] at hexec
      simpa [hu] using ih hexec
    | false =>
      obtain ⟨h₁, h₂, hdelete, hrules, -, hrest⟩ := (execAll_removalsOf_cons hu).mp hexec
      have hle := ih hrest
      have hone := countP_eraseP_ge (!stays m lengths family routes ·) (deletionTakes lengths u)
        (host.rules family)
      rw [hrules, exec_deletion hdelete] at hle
      rw [countP_cons_of_pos (by simp [hu])]
      omega

theorem apart_of_execAll (hrules : host.rules family = before ++ rest)
    (hstay : ∀ k ∈ before, stays m lengths family routes k)
    (hexec : execAll host (removalsOf m lengths family routes rest) = .ok h)
    (hall : ∀ r ∈ h.rules family, stays m lengths family routes r) :
    (before ++ rest).Pairwise (Apart m lengths family routes) := by
  induction rest generalizing before host with
  | nil =>
    rw [append_nil]
    refine pairwise_of_forall_mem_list fun k _ u hu _ hgone ↦ ?_
    rw [hstay u hu] at hgone
    cases hgone
  | cons u rest ih =>
    cases hu : stays m lengths family routes u with
    | true =>
      rw [removalsOf_cons_stays hu] at hexec
      rw [← singleton_append, ← append_assoc] at hrules ⊢
      exact ih hrules (by simpa [or_imp, forall_and, hu] using hstay) hexec
    | false =>
      obtain ⟨h₁, h₂, hdelete, hrules₂, -, hrest⟩ := (execAll_removalsOf_cons hu).mp hexec
      have hrules₁ := hrules₂ ▸ exec_deletion hdelete
      rw [hrules] at hrules₁
      by_cases hbefore : ∀ k ∈ before, deletionTakes lengths u k = false
      · rw [eraseP_deletionTakes hbefore] at hrules₁
        obtain ⟨hpairs, hpairs', hcross⟩ := pairwise_append.mp (ih hrules₁ hstay hrest)
        refine pairwise_append.mpr ⟨hpairs, pairwise_cons.mpr ⟨fun v _ hkept ↦ ?_, hpairs'⟩, ?_⟩
        · rw [hu] at hkept
          cases hkept
        · intro k hk v hv
          rcases mem_cons.mp hv with rfl | hv
          · exact fun _ _ ↦ hbefore k hk
          · exact hcross k hk v hv
      · -- a rule that stays was taken, so one more does not than commands are left for
        obtain ⟨k, hk, htakes⟩ : ∃ k ∈ before, deletionTakes lengths u k = true := by
          simpa using hbefore
        have hle := countP_removalsOf hrest
        have hnone : (h.rules family).countP (!stays m lengths family routes ·) = 0 :=
          countP_eq_zero.mpr (by simpa using hall)
        rw [hrules₁, hnone, eraseP_append_left htakes _ hk, countP_append,
          countP_cons_of_pos (by simp [hu])] at hle
        omega

end Removals

theorem exec_ruleAdd {r : HostRule} (hr : r ∉ host.rules family) :
    ∃ h, host.exec (.ruleAdd family r) = .ok h := by
  simp only [Host.exec, dif_neg hr]
  exact ⟨_, rfl⟩

theorem rules_ruleAdd {r : HostRule} (h : host.exec (.ruleAdd family r) = .ok host') :
    host'.rules family = host.rules family ++ [r] := by
  simp only [Host.exec] at h
  split at h
  · cases h
  · cases h
    rw [rules_setRules, if_pos rfl]

theorem rules_ruleAdds {rules : List HostRule}
    (h : execAll host (rules.map (.ruleAdd family)) = .ok host') :
    host'.rules family = host.rules family ++ rules := by
  induction rules generalizing host with
  | nil =>
    cases h
    exact (append_nil _).symm
  | cons r rules ih =>
    obtain ⟨h₁, hadd, hrest⟩ := execAll_cons.mp h
    rw [ih hrest, rules_ruleAdd hadd, append_assoc, singleton_append]

theorem execAll_ruleAdd {rules : List HostRule} (hnodup : (host.rules family ++ rules).Nodup) :
    ∃ h, execAll host (rules.map (.ruleAdd family)) = .ok h := by
  induction rules generalizing host with
  | nil => exact ⟨host, rfl⟩
  | cons r rules ih =>
    have hr : r ∉ host.rules family := fun hmem ↦
      (nodup_append.mp hnodup).2.2 r hmem r mem_cons_self rfl
    obtain ⟨h₁, hadd⟩ := exec_ruleAdd hr
    have hnodup₁ : (h₁.rules family ++ rules).Nodup := by
      rw [rules_ruleAdd hadd]
      simpa using hnodup
    obtain ⟨h, hexec⟩ := ih hnodup₁
    exact ⟨h, execAll_cons.mpr ⟨h₁, hadd, hexec⟩⟩

theorem rules_installations
    (h : execAll host (routes.flatMap (installation family present)) = .ok host') :
    host'.rules family = host.rules family ++
      (routes.flatMap routeRules).filter (fun r ↦ wantedKey r ∉ present) := by
  induction routes generalizing host with
  | nil =>
    cases h
    exact (append_nil _).symm
  | cons route routes ih =>
    rw [flatMap_cons] at h
    obtain ⟨h₂, hroute, hrest⟩ := execAll_append.mp h
    obtain ⟨h₁, hreplace, hadd⟩ := execAll_cons.mp hroute
    cases hreplace
    rw [ih hrest, rules_ruleAdds hadd, flatMap_cons, filter_append, append_assoc]
    rfl

theorem execAll_installations (hnodup : (host.rules family ++
      (routes.flatMap routeRules).filter fun r ↦ wantedKey r ∉ present).Nodup) :
    ∃ h, execAll host (routes.flatMap (installation family present)) = .ok h := by
  induction routes generalizing host with
  | nil => exact ⟨host, rfl⟩
  | cons route routes ih =>
    rw [flatMap_cons, filter_append, ← append_assoc] at hnodup
    obtain ⟨h₁, hreplace, hrules₁⟩ : ∃ h₁, host.exec (.routeReplace family (tableText route)
        ⟨route.gateway, route.interface, route.source⟩) = .ok h₁ ∧ h₁.rules = host.rules :=
      ⟨_, rfl, rfl⟩
    rw [← hrules₁] at hnodup
    obtain ⟨h₂, hadd⟩ := execAll_ruleAdd (nodup_append.mp hnodup).1
    rw [← rules_ruleAdds hadd] at hnodup
    obtain ⟨h, hexec⟩ := ih hnodup
    rw [flatMap_cons]
    exact ⟨h, execAll_append.mpr ⟨h₂, execAll_cons.mpr ⟨h₁, hreplace, hadd⟩, hexec⟩⟩

theorem tables_setTable (host : Host) (family f : Family) (table t : String) (c : Contents)
    (h : (family, table) ≠ (f, t)) :
    (host.setTable family table c).tables f t = host.tables f t := by
  unfold Host.setTable
  by_cases hf : f = family
  · subst hf
    have ht : t ≠ table := fun ht ↦ h (by rw [ht])
    simp only [Function.update_self, Function.update_of_ne ht]
  · simp only [Function.update_of_ne hf]

theorem tables_exec {t : String} (h : host.exec c = .ok host') (hc : c.changes ≠ some (f, t)) :
    host'.tables f t = host.tables f t := by
  cases c with
  | ruleShow => cases h; rfl
  | ruleDelete =>
    simp only [Host.exec] at h
    split at h
    · cases h; rfl
    · cases h
  | routeFlush | routeReplace =>
    cases h
    exact tables_setTable _ _ _ _ _ _ fun heq ↦ hc (congrArg some heq)
  | ruleAdd =>
    simp only [Host.exec] at h
    split at h
    · cases h
    · cases h; rfl

theorem tables_execAll {t : String} (h : execAll host cs = .ok host')
    (hcs : ∀ c ∈ cs, c.changes ≠ some (f, t)) : host'.tables f t = host.tables f t := by
  induction cs generalizing host with
  | nil => cases h; rfl
  | cons c cs ih =>
    obtain ⟨h₁, hc, hrest⟩ := execAll_cons.mp h
    rw [ih hrest fun c' hc' ↦ hcs c' (mem_cons_of_mem c hc'), tables_exec hc (hcs c mem_cons_self)]

theorem family_of_changes {t : String} (h : c.changes = some (f, t)) : c.family = f := by
  cases c <;> cases h <;> rfl

theorem changes_ruleAdd {rules : List HostRule} {t : String} :
    ∀ c ∈ rules.map (Command.ruleAdd family), c.changes ≠ some (f, t) := by
  intro c hc
  obtain ⟨r, -, rfl⟩ := mem_map.mp hc
  simp [Command.changes]

/-- A table has the default route of the last route that is installed into it. -/
theorem tables_installations {t : String}
    (h : execAll host (routes.flatMap (installation family present)) = .ok host') :
    host'.tables family t = (routes.reverse.find? (tableText · = t)).elim (host.tables family t)
      fun route ↦ { host.tables family t with
        default := some ⟨route.gateway, route.interface, route.source⟩ } := by
  induction routes generalizing host with
  | nil =>
    cases h
    rfl
  | cons route routes ih =>
    rw [flatMap_cons] at h
    obtain ⟨h₂, hroute, hrest⟩ := execAll_append.mp h
    obtain ⟨h₁, hreplace, hadd⟩ := execAll_cons.mp hroute
    cases hreplace
    rw [ih hrest, tables_execAll hadd changes_ruleAdd, reverse_cons, find?_append]
    by_cases ht : tableText route = t
    · subst ht
      have hset : (host.setTable family (tableText route) { host.tables family (tableText route)
          with default := some ⟨route.gateway, route.interface, route.source⟩ }).tables family
            (tableText route) = { host.tables family (tableText route) with
              default := some ⟨route.gateway, route.interface, route.source⟩ } := by
        simp only [Host.setTable, Function.update_self]
      rw [hset]
      cases routes.reverse.find? (tableText · = tableText route) <;> simp
    · rw [tables_setTable host family family (tableText route) t _ fun heq ↦
        ht (congrArg Prod.snd heq)]
      cases routes.reverse.find? (tableText · = t) <;> simp [ht]

end AnixAgent.NetworkRoute.Commands
