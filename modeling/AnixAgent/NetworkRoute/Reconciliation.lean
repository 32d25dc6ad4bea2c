import AnixAgent.NetworkRoute.Commands

namespace AnixAgent.NetworkRoute.Reconciliation

open Network.Plan Routes Rules Commands List

theorem toList_toString (n : Nat) : (toString n).toList = Nat.toDigits 10 n := Nat.toList_repr

theorem toString_ne_empty (n : Nat) : toString n ≠ "" := by
  intro h
  have hlist := toList_toString n
  rw [h] at hlist
  exact Nat.toDigits_ne_nil hlist.symm

theorem parseUint_toString {n : Nat} (h : n < 2 ^ 32) : parseUint (toString n) = some n := by
  have hdigits : (toString n).toList.all Char.isDigit := by
    refine all_eq_true.mpr fun c hc ↦ ?_
    rw [toList_toString] at hc
    exact Nat.isDigit_of_mem_toDigits (by omega) (by omega) hc
  have hnumber : Nat.ofDigitChars 10 (toString n).toList 0 = n := by
    rw [toList_toString]
    exact Nat.ofDigitChars_toDigits (by omega) (by omega)
  simp only [parseUint, hnumber]
  exact if_pos ⟨toString_ne_empty n, hdigits, h⟩

theorem ownsTable_tableText {m : Manager} {route : Route}
    (h : Route.InRange m.first m.last route) : m.ownsTable (tableText route) := by
  have hin := h.table
  have hlt : route.table < 2 ^ 32 := by
    have hlast := m.last_lt
    simp only [inRange, decide_eq_true_eq] at hin
    omega
  simp only [Manager.ownsTable, tableText, parseUint_toString hlt]
  exact hin

def lastInto (family : Family) (routes : List Route) (t : String) : Option Route :=
  (routesOf family routes).reverse.find? (tableText · = t)

/-- The wanted rules are the manager's, and the default route that a table of others gets is the
one it has. A rule in the range that is listed with a wanted key has nothing that is not read, and
none stands before an unwanted rule whose deletion takes it. -/
structure Separable (m : Manager) (lengths : Prefix → Bool) (routes : List Route) (host : Host)
    (family : Family) : Prop where
  owned : ∀ w ∈ wantedRules family routes, m.owns w.priority
  tables : ∀ t, m.ownsTable t = false → ∀ route ∈ lastInto family routes t,
    (host.tables family t).default = some ⟨route.gateway, route.interface, route.source⟩
  plain : ∀ r ∈ host.rules family, m.owns r.priority →
    keyOf (listed lengths r) ∈ wantedKeys family routes → r.further = ""
  apart : (host.rules family).Pairwise (Apart m lengths family routes)

def ownedRules (m : Manager) (host : Host) (family : Family) : List HostRule :=
  (host.rules family).filter fun r ↦ m.owns r.priority

def foreignRules (m : Manager) (host : Host) (family : Family) : List HostRule :=
  (host.rules family).filter fun r ↦ !m.owns r.priority

variable {w r : HostRule} {host h out out' : Host} {f : Family} {t : String}

section OneFamily

variable {m : Manager} {lengths : Prefix → Bool} {family : Family} {routes : List Route}

theorem owns_of_mem_wantedRules (hrange : ∀ route ∈ routes, Route.InRange m.first m.last route)
    (hw : w ∈ wantedRules family routes) : m.owns w.priority := by
  obtain ⟨route, hroute, hw⟩ := mem_flatMap.mp hw
  have hin := hrange route (mem_of_mem_filter hroute)
  rcases mem_cons.mp hw with rfl | hw
  · exact hin.priority
  · obtain ⟨peer, hpeer, rfl⟩ := mem_map.mp hw
    exact hin.toPriority (ne_nil_of_mem hpeer)

theorem eq_of_plain (hr : r.further = "") (hw : OneSelector w)
    (h : keyOf (listed lengths r) = wantedKey w) : r = w := by
  obtain ⟨hpriority, hsrc, hdst, htable⟩ := agree_of_keyOf hw h
  cases r
  cases w
  simp only [HostRule.mk.injEq] at *
  exact ⟨hpriority, hsrc, hdst, htable, hr.trans hw.1.symm⟩

theorem keyOf_eq_wantedKey (hr : r ∈ wantedRules family routes)
    (h : keyOf (listed lengths r) ∈ wantedKeys family routes) :
    keyOf (listed lengths r) = wantedKey r := by
  rw [wantedKeys_eq] at h
  obtain ⟨w, hw, hkey⟩ := mem_map.mp h
  have hrw := eq_of_plain (oneSelector_of_mem hr).1 (oneSelector_of_mem hw) hkey.symm
  rw [← hkey, hrw]

theorem mem_presentKeys {key : String} : key ∈ presentKeys m lengths family routes host ↔
      ∃ r ∈ host.rules family, m.owns r.priority ∧ keyOf (listed lengths r) = key ∧
        key ∈ wantedKeys family routes := by
  simp only [presentKeys, Manager.rules, mem_filter, mem_map, decide_eq_true_eq]
  constructor
  · rintro ⟨⟨_, ⟨⟨r, hr, rfl⟩, howns⟩, hkey⟩, hwanted⟩
    exact ⟨r, hr, howns, hkey, hwanted⟩
  · rintro ⟨r, hr, howns, hkey, hwanted⟩
    exact ⟨⟨_, ⟨⟨r, hr, rfl⟩, howns⟩, hkey⟩, hwanted⟩

/-- A wanted rule is only present under its key when it is listed with it. -/
theorem keyOf_of_present (hr : r ∈ wantedRules family routes)
    (h : wantedKey r ∈ presentKeys m lengths family routes host) :
    keyOf (listed lengths r) ∈ wantedKeys family routes := by
  obtain ⟨r', -, -, hkey, hwanted⟩ := mem_presentKeys.mp h
  obtain ⟨hpriority, hsrc, hdst, htable⟩ := agree_of_keyOf (oneSelector_of_mem hr) hkey
  have hsame : listed lengths r = listed lengths r' := by
    simp only [listed, hpriority, hsrc, hdst, htable]
  rwa [hsame, hkey]

def missing (m : Manager) (lengths : Prefix → Bool) (family : Family) (routes : List Route)
    (host : Host) : List HostRule :=
  (wantedRules family routes).filter fun r ↦
    wantedKey r ∉ presentKeys m lengths family routes host

theorem mem_kept (howns : m.owns r.priority) (hr : r ∈ wantedRules family routes)
    (h : r ∈ (host.rules family).filter (stays m lengths family routes)) :
    wantedKey r ∈ presentKeys m lengths family routes host := by
  obtain ⟨hmem, hstays⟩ := mem_filter.mp h
  have hkey : keyOf (listed lengths r) ∈ wantedKeys family routes := by
    simpa [stays, howns] using hstays
  have heq := keyOf_eq_wantedKey hr hkey
  exact mem_presentKeys.mpr ⟨r, hmem, howns, heq, heq ▸ hkey⟩

theorem execAll_familyCommands : execAll host (familyCommands m lengths family routes host) = .ok h ↔
    ∃ h₁, execAll host (removalsOf m lengths family routes (host.rules family)) = .ok h₁ ∧
      execAll h₁ (installations m lengths family routes host) = .ok h :=
  execAll_append

theorem rules_family (hapart : (host.rules family).Pairwise (Apart m lengths family routes))
    (hexec : execAll host (familyCommands m lengths family routes host) = .ok h) :
    h.rules family = (host.rules family).filter (stays m lengths family routes) ++
      missing m lengths family routes host := by
  obtain ⟨h₁, hremove, hinstall⟩ := execAll_familyCommands.mp hexec
  obtain ⟨h₁', hremove', hrules⟩ := execAll_removals (nil_append (host.rules family)).symm
    (fun k hk ↦ (by cases hk)) hapart
  cases hremove.symm.trans hremove'
  rw [rules_installations hinstall, hrules]
  rfl

theorem exec_family (hdistinct : (wantedRules family routes).Nodup)
    (hsep : Separable m lengths routes host family) :
    ∃ h, execAll host (familyCommands m lengths family routes host) = .ok h := by
  obtain ⟨h₁, hremove, hrules⟩ := execAll_removals (nil_append (host.rules family)).symm
    (fun k hk ↦ (by cases hk)) hsep.apart
  have hnodup : (h₁.rules family ++ missing m lengths family routes host).Nodup := by
    rw [hrules]
    refine nodup_append.mpr ⟨(host.nodup family).filter _, hdistinct.filter _, ?_⟩
    rintro r hkept _ hmissing rfl
    obtain ⟨hwanted, hpresent⟩ := mem_filter.mp hmissing
    exact absurd (mem_kept (hsep.owned _ hwanted) hwanted hkept) (by simpa using hpresent)
  obtain ⟨h, hinstall⟩ := execAll_installations hnodup
  exact ⟨h, execAll_familyCommands.mpr ⟨h₁, hremove, hinstall⟩⟩

theorem perm_owned (hdistinct : (wantedRules family routes).Nodup)
    (hsep : Separable m lengths routes host family)
    (hrules : h.rules family = (host.rules family).filter (stays m lengths family routes) ++
      missing m lengths family routes host) :
    (ownedRules m h family).Perm (wantedRules family routes) := by
  refine (perm_ext_iff_of_nodup ((h.nodup family).filter _) hdistinct).mpr fun r ↦ ?_
  rw [mem_filter, hrules, mem_append]
  constructor
  · rintro ⟨hkept | hmissing, howns⟩
    · obtain ⟨hmem, hstays⟩ := mem_filter.mp hkept
      have hkey : keyOf (listed lengths r) ∈ wantedKeys family routes := by
        simpa [stays, howns] using hstays
      have hwanted := wanted_of_keyOf hkey
      rwa [← hsep.plain r hmem howns hkey] at hwanted
    · exact mem_of_mem_filter hmissing
  · intro hr
    refine ⟨?_, hsep.owned r hr⟩
    by_cases hpresent : wantedKey r ∈ presentKeys m lengths family routes host
    · obtain ⟨r', hmem, howns, hkey, hwanted⟩ := mem_presentKeys.mp hpresent
      have heq := eq_of_plain (hsep.plain r' hmem howns (hkey ▸ hwanted)) (oneSelector_of_mem hr) hkey
      subst heq
      exact .inl (mem_filter.mpr ⟨hmem, by simp [stays, hkey, hwanted]⟩)
    · exact .inr (mem_filter.mpr ⟨hr, by simpa using hpresent⟩)

theorem changes_removals {c : Command} (hc : c ∈ removals m lengths family routes host)
    (hchanges : c.changes = some (f, t)) :
    f = family ∧ c = .routeFlush family t ∧ m.ownsTable t ∧ t ∉ wantedTables family routes := by
  obtain ⟨existing, -, hc⟩ := mem_flatMap.mp hc
  unfold removal at hc
  split at hc
  · cases hc
  rcases mem_cons.mp hc with rfl | hc
  · cases hchanges
  split at hc
  · next hflush =>
    obtain rfl := mem_singleton.mp hc
    cases hchanges
    exact ⟨rfl, rfl, hflush⟩
  · cases hc

theorem flush_mem_familyCommands
    (hc : .routeFlush f t ∈ familyCommands m lengths family routes host) :
    .routeFlush f t ∈ removals m lengths family routes host := by
  rcases mem_append.mp hc with hc | hc
  · exact hc
  · obtain ⟨route, -, hc⟩ := mem_flatMap.mp hc
    rcases mem_cons.mp hc with h | hc
    · cases h
    · obtain ⟨r, -, hr⟩ := mem_map.mp hc
      cases hr

theorem family_familyCommands {c : Command} (hc : c ∈ familyCommands m lengths family routes host) :
    c.family = family := by
  rcases mem_append.mp hc with hc | hc
  · obtain ⟨existing, -, hc⟩ := mem_flatMap.mp hc
    unfold removal at hc
    split at hc
    · cases hc
    rcases mem_cons.mp hc with rfl | hc
    · rfl
    split at hc
    · rw [mem_singleton.mp hc]
      rfl
    · cases hc
  · obtain ⟨route, -, hc⟩ := mem_flatMap.mp hc
    rcases mem_cons.mp hc with rfl | hc
    · rfl
    · obtain ⟨r, -, rfl⟩ := mem_map.mp hc
      rfl

theorem flush_of_gone (hr : r ∈ host.rules family) (hgone : stays m lengths family routes r = false)
    (howned : m.ownsTable r.table) (hunused : r.table ∉ wantedTables family routes) :
    .routeFlush family r.table ∈ removals m lengths family routes host := by
  obtain ⟨howns, hkey⟩ : m.owns r.priority ∧
      keyOf (listed lengths r) ∉ wantedKeys family routes := by
    simpa [stays] using hgone
  refine mem_flatMap.mpr ⟨listed lengths r, ?_, ?_⟩
  · exact mem_filter.mpr ⟨mem_map_of_mem hr, howns⟩
  rw [removal, if_neg hkey]
  refine mem_cons_of_mem _ ?_
  rw [if_pos ⟨howned, hunused⟩]
  exact mem_singleton_self _

/-- A table of others is changed by the installations only. -/
theorem tables_family (hexec : execAll host (familyCommands m lengths family routes host) = .ok h)
    (ht : m.ownsTable t = false) :
    h.tables family t = (lastInto family routes t).elim (host.tables family t) fun route ↦
      { host.tables family t with
        default := some ⟨route.gateway, route.interface, route.source⟩ } := by
  obtain ⟨h₁, hremove, hinstall⟩ := execAll_familyCommands.mp hexec
  have hsame : h₁.tables family t = host.tables family t := by
    refine tables_execAll hremove fun c hc hchanges ↦ ?_
    rw [(changes_removals hc hchanges).2.2.1] at ht
    cases ht
  rw [tables_installations hinstall, hsame]
  rfl

end OneFamily

/-- The host has what the routes want of a family, and what is not the manager's is as before. -/
structure Reconciled (m : Manager) (routes : List Route) (host out : Host) (ran : List Command)
    (family : Family) : Prop where
  rules : (ownedRules m out family).Perm (wantedRules family routes)
  foreign : foreignRules m out family = foreignRules m host family
  tables : ∀ t, m.ownsTable t = false → out.tables family t = host.tables family t
  kept : ∀ t ∈ wantedTables family routes, .routeFlush family t ∉ ran
  flushed : ∀ t, m.ownsTable t → t ∉ wantedTables family routes →
    (∃ r ∈ host.rules family, r.table = t) → (∀ r ∈ out.rules family, r.table ≠ t) →
    .routeFlush family t ∈ ran

/-- The two hosts have the same rules and tables of a family. -/
structure Same (family : Family) (host host' : Host) : Prop where
  rules : host'.rules family = host.rules family
  tables : host'.tables family = host.tables family

theorem Same.symm {family : Family} {host' : Host} (h : Same family host host') :
    Same family host' host :=
  ⟨h.rules.symm, h.tables.symm⟩

theorem Reconciled.congr {m : Manager} {routes : List Route} {host' : Host}
    {ran ran' : List Command} {family : Family} (h : Reconciled m routes host out ran family)
    (hhost : Same family host host') (hout : Same family out out')
    (hran : ∀ t, .routeFlush family t ∈ ran' ↔ .routeFlush family t ∈ ran) :
    Reconciled m routes host' out' ran' family where
  rules := by
    unfold ownedRules
    rw [hout.rules]
    exact h.rules
  foreign := by
    unfold foreignRules
    rw [hout.rules, hhost.rules]
    exact h.foreign
  tables t ht := by
    rw [hout.tables, hhost.tables]
    exact h.tables t ht
  kept t ht hmem := h.kept t ht ((hran t).mp hmem)
  flushed t ht hunused hbefore hafter := by
    rw [hhost.rules] at hbefore
    rw [hout.rules] at hafter
    exact (hran t).mpr (h.flushed t ht hunused hbefore hafter)

section Apply

variable {m : Manager} {lengths : Prefix → Bool} {family : Family} {routes : List Route}

theorem Separable.congr {host' : Host} (h : Separable m lengths routes host family)
    (hsame : Same family host host') : Separable m lengths routes host' family where
  owned := h.owned
  tables := hsame.tables ▸ h.tables
  plain := hsame.rules ▸ h.plain
  apart := hsame.rules ▸ h.apart

theorem reconciled_of_separable (hdistinct : (wantedRules family routes).Nodup)
    (hsep : Separable m lengths routes host family)
    (hexec : execAll host (familyCommands m lengths family routes host) = .ok h) :
    Reconciled m routes host h (familyCommands m lengths family routes host) family := by
  have hrules := rules_family hsep.apart hexec
  refine ⟨perm_owned hdistinct hsep hrules, ?_, fun t ht ↦ ?_, fun t ht hmem ↦ ?_, ?_⟩
  · have hmissing : (missing m lengths family routes host).filter (fun r ↦ !m.owns r.priority) = [] := by
      refine filter_eq_nil_iff.mpr fun r hr ↦ ?_
      simp [hsep.owned r (mem_of_mem_filter hr)]
    rw [foreignRules, hrules, filter_append, hmissing, append_nil, filter_filter, foreignRules]
    refine filter_congr fun r _ ↦ ?_
    cases h : m.owns r.priority <;> simp [stays, h]
  · rw [tables_family hexec ht]
    cases hlast : lastInto family routes t with
    | none => rfl
    | some route =>
      rw [Option.elim_some, ← hsep.tables t ht route hlast]
  · exact (changes_removals (flush_mem_familyCommands hmem) rfl).2.2.2 ht
  · rintro t ht hunused ⟨r, hr, rfl⟩ hafter
    refine mem_append_left _ (flush_of_gone hr ?_ ht hunused)
    by_contra hstays
    rw [Bool.not_eq_false] at hstays
    refine hafter r ?_ rfl
    rw [hrules]
    exact mem_append_left _ (mem_filter.mpr ⟨hr, hstays⟩)

/-- A rule that should have gone and is left would be a wanted one, which is added again. -/
theorem stays_of_reconciled {h₁ : Host} {ran : List Command}
    (hinstall : execAll h₁ (installations m lengths family routes host) = .ok h)
    (hdone : Reconciled m routes host h ran family) :
    ∀ r ∈ h₁.rules family, stays m lengths family routes r := by
  intro r hr
  by_contra hgone
  obtain ⟨howns, hkey⟩ : m.owns r.priority ∧
      keyOf (listed lengths r) ∉ wantedKeys family routes := by
    simpa [stays] using hgone
  have hrules := rules_installations hinstall
  have hnodup := h.nodup family
  rw [hrules] at hnodup
  have hwanted : r ∈ wantedRules family routes :=
    hdone.rules.mem_iff.mp (mem_filter.mpr ⟨hrules ▸ mem_append_left _ hr, howns⟩)
  refine (nodup_append.mp hnodup).2.2 r hr r (mem_filter.mpr ⟨hwanted, ?_⟩) rfl
  exact decide_eq_true fun hpresent ↦ hkey (keyOf_of_present hwanted hpresent)

theorem separable_of_reconciled
    (hexec : execAll host (familyCommands m lengths family routes host) = .ok h)
    (hdone : Reconciled m routes host h (familyCommands m lengths family routes host) family) :
    Separable m lengths routes host family := by
  obtain ⟨h₁, hremove, hinstall⟩ := execAll_familyCommands.mp hexec
  have hapart := apart_of_execAll (nil_append (host.rules family)).symm (fun k hk ↦ (by cases hk))
    hremove (stays_of_reconciled hinstall hdone)
  refine ⟨fun w hw ↦ ?_, fun t ht route hroute ↦ ?_, fun r hr howns hkey ↦ ?_, hapart⟩
  · simpa using of_mem_filter (hdone.rules.mem_iff.mpr hw)
  · have hsame := (tables_family hexec ht).symm.trans (hdone.tables t ht)
    rw [Option.mem_def.mp hroute] at hsame
    exact (congrArg Contents.default hsame).symm
  · have hafter : r ∈ h.rules family := by
      rw [rules_family hapart hexec]
      exact mem_append_left _ (mem_filter.mpr ⟨hr, by simp [stays, hkey]⟩)
    exact (oneSelector_of_mem (hdone.rules.mem_iff.mp (mem_filter.mpr ⟨hafter, howns⟩))).1

theorem same_of_family (hexec : execAll host (familyCommands m lengths family routes host) = .ok h)
    (hf : f ≠ family) : Same f host h where
  rules := rules_execAll hexec (fun _ ↦ family_familyCommands) hf
  tables := funext fun t ↦ tables_execAll hexec fun c hc hchanges ↦ hf (by
    rw [← family_familyCommands hc, family_of_changes hchanges])

theorem apply_eq_none {p : Progress} : m.apply never lengths routes host = (p, none) ↔
    ∃ h₄ h₆, execAll host (familyCommands m lengths .v4 routes host) = .ok h₄ ∧
      execAll h₄ (familyCommands m lengths .v6 routes h₄) = .ok h₆ ∧
      p = ⟨h₆, .ruleShow .v4 :: familyCommands m lengths .v4 routes host ++
        .ruleShow .v6 :: familyCommands m lengths .v6 routes h₄, []⟩ := by
  obtain ⟨p₄, happly₄, hcarries₄⟩ :=
    carries_applyFamily m lengths .v4 routes ⟨host, [], []⟩
  obtain ⟨p₆, happly₆, hcarries₆⟩ := carries_applyFamily m lengths .v6 routes p₄
  simp only [Manager.apply, happly₄, happly₆, joined, Prod.mk.injEq, ite_eq_left_iff, reduceCtorEq,
    imp_false, not_not]
  constructor
  · rintro ⟨rfl, hfailed⟩
    obtain ⟨hexec₆, heq₆⟩ := hcarries₆.of_failed hfailed
    obtain ⟨hexec₄, heq₄⟩ := hcarries₄.of_failed (by rwa [heq₆] at hfailed)
    refine ⟨p₄.host, p₆.host, hexec₄, hexec₆, ?_⟩
    rw [heq₆, heq₄]
    rfl
  · rintro ⟨h₄, h₆, hexec₄, hexec₆, rfl⟩
    obtain rfl := hcarries₄.after h₄ hexec₄
    obtain rfl := hcarries₆.after h₆ hexec₆
    exact ⟨rfl, rfl⟩

theorem flush_mem_ran {h₄ : Host} (family : Family) (t : String) : .routeFlush family t ∈
      (.ruleShow .v4 :: familyCommands m lengths .v4 routes host ++
        .ruleShow .v6 :: familyCommands m lengths .v6 routes h₄ : List Command) ↔
    .routeFlush family t ∈ familyCommands m lengths family routes
      (match family with | .v4 => host | .v6 => h₄) := by
  have hother {f : Family} {host : Host} (hf : family ≠ f) :
      .routeFlush family t ∉ familyCommands m lengths f routes host :=
    fun hmem ↦ hf (family_familyCommands hmem)
  cases family with
  | v4 => simp [hother]
  | v6 => simp [hother]

theorem reconciled_iff (hdistinct : ∀ family, (wantedRules family routes).Nodup) {p : Progress}
    (happly : m.apply never lengths routes host = (p, none)) (family : Family) :
    Reconciled m routes host p.host p.ran family ↔ Separable m lengths routes host family := by
  obtain ⟨h₄, h₆, hexec₄, hexec₆, rfl⟩ := apply_eq_none.mp happly
  cases family with
  | v4 =>
    have hout : Same .v4 h₄ h₆ := same_of_family hexec₆ (by simp)
    constructor
    · intro hdone
      exact separable_of_reconciled hexec₄
        (hdone.congr ⟨rfl, rfl⟩ hout.symm fun t ↦ (flush_mem_ran .v4 t).symm)
    · intro hsep
      exact (reconciled_of_separable (hdistinct .v4) hsep hexec₄).congr ⟨rfl, rfl⟩ hout
        fun t ↦ flush_mem_ran .v4 t
  | v6 =>
    have hhost : Same .v6 host h₄ := same_of_family hexec₄ (by simp)
    constructor
    · intro hdone
      exact (separable_of_reconciled hexec₆
        (hdone.congr hhost ⟨rfl, rfl⟩ fun t ↦ (flush_mem_ran .v6 t).symm)).congr hhost.symm
    · intro hsep
      exact (reconciled_of_separable (hdistinct .v6) (hsep.congr hhost) hexec₆).congr hhost.symm
        ⟨rfl, rfl⟩ fun t ↦ flush_mem_ran .v6 t

theorem apply_of_separable (hdistinct : ∀ family, (wantedRules family routes).Nodup)
    (hsep : ∀ family, Separable m lengths routes host family) :
    ∃ p, m.apply never lengths routes host = (p, none) := by
  obtain ⟨h₄, hexec₄⟩ := exec_family (hdistinct .v4) (hsep .v4)
  obtain ⟨h₆, hexec₆⟩ := exec_family (hdistinct .v6)
    ((hsep .v6).congr (same_of_family hexec₄ (by simp)))
  exact ⟨_, apply_eq_none.mpr ⟨h₄, h₆, hexec₄, hexec₆, rfl⟩⟩

theorem eq_of_selects {p q : Prefix} (h : selects (listedText lengths p) (some q)) : p = q := by
  rcases selects_iff.mp h with h | h | ⟨q', hq, h⟩
  · exact absurd h (listedText_ne_empty lengths p)
  · exact absurd h (listedText_ne_all lengths p)
  cases hq
  rcases h with h | ⟨hlen, h⟩
  · exact eq_of_listedText h
  rcases listedText_cases lengths p with hp | ⟨hlen', hp⟩
  · have hslash := slash_mem_text p
    rw [← hp, h] at hslash
    exact absurd hslash (notMem_text (by decide) q.addr)
  have haddr : p.addr = q.addr := Addr.ext (hp.symm.trans h)
  cases p
  cases q
  simp only [Prefix.mk.injEq] at *
  exact ⟨haddr, by rw [hlen', haddr, hlen]⟩

theorem not_selects_none (p : Prefix) : selects (listedText lengths p) none = false := by
  by_contra h
  rw [Bool.not_eq_false] at h
  rcases selects_iff.mp h with h | h | ⟨q, hq, -⟩
  · exact listedText_ne_empty lengths p h
  · exact listedText_ne_all lengths p h
  · cases hq

theorem eq_of_deletionTakes {u k : HostRule} (hu : OneSelector u) (hk : OneSelector k)
    (htable : u.table ≠ "") (h : deletionTakes lengths u k) : u = k := by
  obtain ⟨hpriority, hsrc, hdst, ht⟩ := deletes_iff.mp h
  have ht := ht.resolve_left htable
  rcases u with ⟨priority, src, dst, table, further⟩
  rcases k with ⟨priority', src', dst', table', further'⟩
  simp only [HostRule.mk.injEq, OneSelector] at *
  obtain ⟨rfl, hu⟩ := hu
  obtain ⟨rfl, hk⟩ := hk
  rcases hu with ⟨p, rfl, rfl⟩ | ⟨p, rfl, rfl⟩ <;> rcases hk with ⟨q, rfl, rfl⟩ | ⟨q, rfl, rfl⟩
  · exact ⟨hpriority.symm, by rw [eq_of_selects hsrc], rfl, ht.symm, rfl⟩
  · rw [show fromText lengths _ = listedText lengths p from rfl, not_selects_none] at hsrc
    cases hsrc
  · rw [show toText lengths _ = listedText lengths p from rfl, not_selects_none] at hdst
    cases hdst
  · exact ⟨hpriority.symm, rfl, by rw [eq_of_selects hdst], ht.symm, rfl⟩

theorem apart_of_oneSelector {rules : List HostRule}
    (h : ∀ r ∈ rules, m.owns r.priority → OneSelector r ∧ r.table ≠ "") :
    rules.Pairwise (Apart m lengths family routes) := by
  refine pairwise_of_forall_mem_list fun k hk u hu hkept hgone ↦ ?_
  by_contra htakes
  rw [Bool.not_eq_false] at htakes
  have hpriority := (deletes_iff.mp htakes).1
  obtain ⟨howns, hkey⟩ : m.owns u.priority ∧
      keyOf (listed lengths u) ∉ wantedKeys family routes := by
    simpa [stays] using hgone
  obtain ⟨hone, htable⟩ := h u hu howns
  obtain ⟨hone', -⟩ := h k hk (by rw [hpriority]; exact howns)
  rw [eq_of_deletionTakes hone hone' htable htakes, hkept] at hgone
  cases hgone

theorem table_ne_empty (hw : w ∈ wantedRules family routes) : w.table ≠ "" := by
  obtain ⟨route, -, hw⟩ := mem_flatMap.mp hw
  have htext : tableText route ≠ "" := toString_ne_empty route.table
  rcases mem_cons.mp hw with rfl | hw
  · exact htext
  · obtain ⟨peer, -, rfl⟩ := mem_map.mp hw
    exact htext

/-- What `Apply` leaves can be told apart, however it is listed. -/
theorem separable_again {lengths' : Prefix → Bool} {ran : List Command}
    (hsep : Separable m lengths routes host family)
    (hdone : Reconciled m routes host out ran family) :
    Separable m lengths' routes out family := by
  have hone (r : HostRule) (hr : r ∈ out.rules family) (howns : m.owns r.priority) :
      OneSelector r ∧ r.table ≠ "" := by
    have hwanted := hdone.rules.mem_iff.mp (mem_filter.mpr ⟨hr, howns⟩)
    exact ⟨oneSelector_of_mem hwanted, table_ne_empty hwanted⟩
  refine ⟨hsep.owned, fun t ht ↦ ?_, fun r hr howns _ ↦ (hone r hr howns).1.1,
    apart_of_oneSelector hone⟩
  rw [hdone.tables t ht]
  exact hsep.tables t ht

/-- `Apply` succeeds when the rules in the range can be told apart, and when it succeeds, both
families have exactly the wanted rules, and a second `Apply` of the same routes leaves the same
rules, if and only if they could be told apart. -/
theorem apply_reconciles {host : Host} (hdistinct : ∀ family, (wantedRules family routes).Nodup) :
    ((∀ family, Separable m lengths routes host family) →
      ∃ out, m.apply never lengths routes host = (out, none)) ∧
    ∀ out, m.apply never lengths routes host = (out, none) →
      (((∀ family, Reconciled m routes host out.host out.ran family) ∧
        ∀ lengths', ∃ again, m.apply never lengths' routes out.host = (again, none) ∧
          ∀ family r, r ∈ again.host.rules family ↔ r ∈ out.host.rules family) ↔
        ∀ family, Separable m lengths routes host family) := by
  refine ⟨apply_of_separable hdistinct, fun out happly ↦ ⟨?_, ?_⟩⟩
  · rintro ⟨hdone, -⟩ family
    exact (reconciled_iff hdistinct happly family).mp (hdone family)
  intro hsep
  have hdone (family : Family) : Reconciled m routes host out.host out.ran family :=
    (reconciled_iff hdistinct happly family).mpr (hsep family)
  refine ⟨hdone, fun lengths' ↦ ?_⟩
  have hsep' (family : Family) : Separable m lengths' routes out.host family :=
    separable_again (hsep family) (hdone family)
  obtain ⟨again, happly'⟩ := apply_of_separable hdistinct hsep'
  refine ⟨again, happly', fun family r ↦ ?_⟩
  have hdone' := (reconciled_iff hdistinct happly' family).mpr (hsep' family)
  have howned := (hdone'.rules.trans (hdone family).rules.symm).mem_iff (a := r)
  have hforeign := congrArg (r ∈ ·) hdone'.foreign
  simp only [ownedRules, foreignRules, mem_filter, eq_iff_iff] at howned hforeign
  cases h : m.owns r.priority <;> simp_all

end Apply

def sampleManager : Manager := ⟨20000, 20999, by decide⟩

def sampleSource : Addr := ⟨"198.51.100.10", by decide, by decide⟩

def straySource : Addr := ⟨"198.51.100.99", by decide, by decide⟩

def sampleRoute : Route :=
  ⟨"eg-b", sampleSource, "eth1", none, 20001, 20001, [], 0⟩

def hostWith (rules : List HostRule) (h : rules.Nodup) : Host where
  rules
    | .v4 => rules
    | .v6 => []
  tables _ _ := ⟨none, []⟩
  nodup
    | .v4 => h
    | .v6 => List.nodup_nil

theorem inRange_sampleRoute :
    ∀ route ∈ [sampleRoute], Route.InRange sampleManager.first sampleManager.last route := by
  intro route hroute
  obtain rfl := mem_singleton.mp hroute
  exact ⟨by decide, by decide, fun h ↦ absurd rfl h⟩

def strayRules : List HostRule :=
  [⟨0, none, none, "local", ""⟩, sourceRule sampleRoute,
    ⟨20009, some (hostPrefix straySource), none, "20009", ""⟩]

theorem nodup_strayRules : strayRules.Nodup := by decide

theorem separable_strayRules (family : Family) : Separable sampleManager (fun _ ↦ true)
    [sampleRoute] (hostWith strayRules nodup_strayRules) family := by
  have hone : ∀ r ∈ (hostWith strayRules nodup_strayRules).rules family,
      sampleManager.owns r.priority → OneSelector r ∧ r.table ≠ "" := by
    intro r hr howns
    cases family with
    | v4 =>
      rcases mem_cons.mp hr with rfl | hr
      · cases howns
      rcases mem_cons.mp hr with rfl | hr
      · exact ⟨⟨rfl, .inl ⟨_, rfl, rfl⟩⟩, by decide⟩
      · obtain rfl := mem_singleton.mp hr
        exact ⟨⟨rfl, .inl ⟨_, rfl, rfl⟩⟩, by decide⟩
    | v6 => cases hr
  refine ⟨fun w ↦ owns_of_mem_wantedRules inRange_sampleRoute, fun t ht route hroute ↦ ?_,
    fun r hr howns _ ↦ (hone r hr howns).1.1, apart_of_oneSelector hone⟩
  have htable : tableText route = t := by simpa using find?_some hroute
  have hin := inRange_sampleRoute route
    (mem_of_mem_filter (mem_reverse.mp (mem_of_find?_eq_some hroute)))
  rw [← htable, ownsTable_tableText (m := sampleManager) hin] at ht
  cases ht

theorem apply_reconciles_strayRules :
    ∃ out, sampleManager.apply never (fun _ ↦ true) [sampleRoute]
        (hostWith strayRules nodup_strayRules) = (out, none) ∧
      (ownedRules sampleManager out.host .v4).Perm [sourceRule sampleRoute] ∧
      Command.routeFlush .v4 "20009" ∈ out.ran := by
  obtain ⟨hsucceeds, hiff⟩ := @apply_reconciles sampleManager (fun _ ↦ true) [sampleRoute]
    (hostWith strayRules nodup_strayRules) (fun family ↦ by cases family <;> decide)
  obtain ⟨out, happly⟩ := hsucceeds separable_strayRules
  obtain ⟨hdone, -⟩ := (hiff out happly).mpr separable_strayRules
  refine ⟨out, happly, (hdone .v4).rules, (hdone .v4).flushed "20009" (by decide) (by decide)
    ⟨⟨20009, some (hostPrefix straySource), none, "20009", ""⟩, by decide, rfl⟩ ?_⟩
  intro r hr htable
  cases howns : sampleManager.owns r.priority with
  | true =>
    have hwanted := (hdone .v4).rules.mem_iff.mp (List.mem_filter.mpr ⟨hr, howns⟩)
    obtain rfl := List.mem_singleton.mp hwanted
    exact absurd htable (by decide)
  | false =>
    have hforeign : r ∈ foreignRules sampleManager out.host .v4 :=
      List.mem_filter.mpr ⟨hr, by simp [howns]⟩
    rw [(hdone .v4).foreign] at hforeign
    obtain rfl := List.mem_singleton.mp hforeign
    exact absurd htable (by decide)

def markedRule : HostRule := { sourceRule sampleRoute with further := "fwmark 0x1" }

def broadRule : HostRule := { sourceRule sampleRoute with src := none }

def applySample (rules : List HostRule) (h : rules.Nodup) : Progress × Option String :=
  sampleManager.apply never (fun _ ↦ true) [sampleRoute] (hostWith rules h)

/-- A marked rule passes for the wanted one, which is not added. And the command that deletes a rule
for every source takes the wanted rule, when that is listed first. -/
theorem apply_mistakes_rules :
    wantedRules .v4 [sampleRoute] = [sourceRule sampleRoute] ∧
      (applySample [markedRule] (by decide)).2 = none ∧
      (applySample [markedRule] (by decide)).1.host.rules .v4 = [markedRule] ∧
      (applySample [sourceRule sampleRoute, broadRule] (by decide)).2 = none ∧
      (applySample [sourceRule sampleRoute, broadRule] (by decide)).1.host.rules .v4 =
        [broadRule] := by
  decide +kernel

end AnixAgent.NetworkRoute.Reconciliation
