import AnixAgent.Lib.Runs
import AnixAgent.Lib.Tables

namespace AnixAgent.Cores.Selection

open Lib.Runs Lib.Tables List

/-- The fields of a node's `Options` that choose its core. `rawOptions` is nil or the text they
were read from. -/
structure Options (Raw : Type) where
  core : String
  coreName : String
  rawOptions : Option Raw
  deriving DecidableEq

structure Patch (Raw : Type) where
  core : Option String
  coreName : Option String
  rawOptions : Option Raw
  deriving DecidableEq

variable {Raw : Type}

def Options.patch (o : Options Raw) (p : Patch Raw) : Options Raw where
  core := p.core.getD o.core
  coreName := p.coreName.getD o.coreName
  rawOptions := p.rawOptions.or o.rawOptions

/-- The decoder answers the fields that it set and whether it read the whole text. A text with a
`RawOptions` key, which the decoding writes over, is left out. -/
def Options.unmarshalJSON (decode : Raw → Patch Raw × Bool) (o : Options Raw)
    (data : Option Raw) : Options Raw × Bool :=
  match data with
  | none => (o, false)
  | some raw =>
    let o := o.patch (decode raw).1
    if (decode raw).2 then
      match o.core with
      | "xray" | "sing" | "hysteria2" | "anixcore" =>
        ({ o with core := "anixcore", rawOptions := data }, true)
      | "wireguard" => ({ o with rawOptions := data }, true)
      | _ => ({ o with core := "", rawOptions := data }, true)
    else (o, false)

def load (decode : Raw → Patch Raw × Bool) (raw : Raw) : Options Raw :=
  (Options.unmarshalJSON decode ⟨"", "", none⟩ (some raw)).1

theorem unmarshalJSON_ok {decode : Raw → Patch Raw × Bool} {raw : Raw}
    (h : (decode raw).2) (o : Options Raw) :
    (o.unmarshalJSON decode (some raw)).2 := by
  simp only [Options.unmarshalJSON, h, if_true]
  split <;> rfl

structure Core where
  key : String
  type : String
  protocols : List String
  deriving DecidableEq

structure Selector where
  cores : List Core
  nodup : (cores.map Core.key).Nodup

def isSupported (protocol : String) (protocols : List String) : Bool :=
  protocols.any (protocol == ·)

def Selector.named (s : Selector) (o : Options Raw) : Option Core :=
  if o.coreName ≠ "" then s.cores.find? (·.key == o.coreName)
  else s.cores.find? (o.core == ·.type)

inductive Error
  | unmarshal
  | refused (types : List String)
  | unsupported
  | core (key : String)
  | notFound
  deriving DecidableEq

def addByProtocol (decode : Raw → Patch Raw × Bool) (protocol : String) (accepts : String → Bool)
    (raw : Option Raw) : List Core → List String → Options Raw → Except Error Core × Options Raw
  | [], [], o => (.error .unsupported, o)
  | [], refused, o => (.error (.refused refused), o)
  | core :: cores, refused, o =>
    if isSupported protocol core.protocols then
      match { o with core := core.type }.unmarshalJSON decode raw with
      | (o, false) => (.error .unmarshal, o)
      | (o, true) =>
        let o := { o with rawOptions := none }
        if accepts core.key then (.ok core, o)
        else addByProtocol decode protocol accepts raw cores (refused ++ [core.type]) o
    else addByProtocol decode protocol accepts raw cores refused o

def Selector.addNode (s : Selector) (decode : Raw → Patch Raw × Bool) (protocol : String)
    (accepts : String → Bool) (o : Options Raw) : Except Error Core × Options Raw :=
  if o.coreName = "" ∧ o.core = "" then
    addByProtocol decode protocol accepts o.rawOptions s.cores [] o
  else match s.named o with
    | none =>
      addByProtocol decode protocol accepts o.rawOptions s.cores []
        { o with core := "", coreName := "" }
    | some core => if accepts core.key then (.ok core, o) else (.error (.core core.key), o)

/-- The process. `options` are the values that the controllers share, `nodes` the Selector's map
from a tag to the key of its core, `running` the nodes that the cores run, and `tried` lists the
Options with which a call found a core that serves its protocol. -/
structure State (Raw : Type) where
  options : Nat → Options Raw
  nodes : Table String String
  running : List (String × String)
  tried : List Nat

structure Call where
  tag : String
  protocol : String
  options : Nat
  accepts : String → Bool

inductive Action
  | addNode (call : Call)
  | delNode (tag : String) (ok : Bool)

def initial (decode : Raw → Patch Raw × Bool) (texts : Nat → Raw) : State Raw :=
  ⟨fun i ↦ load decode (texts i), ∅, [], []⟩

variable (sel : Selector) (decode : Raw → Patch Raw × Bool)

def State.addNode (s : State Raw) (call : Call) : Except Error Core × State Raw :=
  let (result, o) := sel.addNode decode call.protocol call.accepts (s.options call.options)
  let s := { s with
    options := Function.update s.options call.options o
    tried := if sel.cores.any (isSupported call.protocol ·.protocols) then call.options :: s.tried
      else s.tried }
  match result with
  | .error e => (.error e, s)
  | .ok core => (.ok core, { s with
      nodes := s.nodes.insert call.tag core.key
      running := (call.tag, core.key) :: s.running })

def State.delNode (s : State Raw) (tag : String) (ok : Bool) : Except Error Unit × State Raw :=
  match s.nodes.lookup tag with
  | none => (.error .notFound, s)
  | some key =>
    if ok then
      (.ok (), { s with nodes := s.nodes.erase tag, running := s.running.erase (tag, key) })
    else (.error (.core key), s)

def step (s : State Raw) : Action → Option (State Raw)
  | .addNode call => some (s.addNode sel decode call).2
  | .delNode tag ok => some (s.delNode tag ok).2

variable {sel decode} {protocol : String} {accepts : String → Bool} {o : Options Raw}

def takes (protocol : String) (accepts : String → Bool) (core : Core) : Bool :=
  isSupported protocol core.protocols && accepts core.key

theorem fst_addByProtocol {raw : Raw} (hraw : (decode raw).2) (cores : List Core)
    (refused : List String) (o : Options Raw) :
    match cores.find? (takes protocol accepts) with
    | some core => (addByProtocol decode protocol accepts (some raw) cores refused o).1 = .ok core
    | none =>
      ∃ e, (addByProtocol decode protocol accepts (some raw) cores refused o).1 = .error e := by
  induction cores generalizing refused o with
  | nil =>
    cases refused with
    | nil | cons => exact ⟨_, rfl⟩
  | cons core cores ih =>
    rw [addByProtocol, find?_cons]
    have hok := unmarshalJSON_ok hraw { o with core := core.type }
    generalize { o with core := core.type }.unmarshalJSON decode (some raw) = result at hok
    obtain ⟨o', ok⟩ := result
    subst hok
    by_cases hserves : isSupported protocol core.protocols
    · by_cases haccepts : accepts core.key
      · simp only [takes, hserves, haccepts, Bool.and_true, if_true]
      · simp only [takes, hserves, haccepts, Bool.and_false, Bool.false_eq_true, if_true, if_false]
        exact ih _ _
    · simp only [takes, hserves, Bool.false_and, Bool.false_eq_true, if_false]
      exact ih _ _

theorem addByProtocol_error (raw : Option Raw) (cores : List Core) (refused : List String)
    (o : Options Raw) (h : ∀ core ∈ cores, takes protocol accepts core = false) :
    ∃ e, (addByProtocol decode protocol accepts raw cores refused o).1 = .error e := by
  induction cores generalizing refused o with
  | nil =>
    cases refused with
    | nil | cons => exact ⟨_, rfl⟩
  | cons core cores ih =>
    have hrest := fun d hd ↦ h d (mem_cons_of_mem _ hd)
    have hcore := h core mem_cons_self
    rw [addByProtocol]
    split
    · next hserves =>
      split
      · exact ⟨_, rfl⟩
      · simp only [takes, hserves, Bool.true_and] at hcore
        simp only [hcore, Bool.false_eq_true, if_false]
        exact ih _ _ hrest
    · exact ih _ _ hrest

theorem addByProtocol_unserved (raw : Option Raw) (cores : List Core) (refused : List String)
    (o : Options Raw) (h : ∀ core ∈ cores, isSupported protocol core.protocols = false) :
    (addByProtocol decode protocol accepts raw cores refused o).2 = o := by
  induction cores with
  | nil => cases refused <;> rfl
  | cons core cores ih =>
    rw [addByProtocol, h core mem_cons_self]
    exact ih fun d hd ↦ h d (mem_cons_of_mem _ hd)

def Selector.choice (s : Selector) (o : Options Raw) : Option Core :=
  if o.coreName = "" ∧ o.core = "" then none else s.named o

def Options.unnamed (o : Options Raw) : Options Raw := { o with core := "", coreName := "" }

theorem addNode_of_none (h : sel.choice o = none) : sel.addNode decode protocol accepts o =
      addByProtocol decode protocol accepts o.rawOptions sel.cores [] o.unnamed := by
  unfold Selector.choice at h
  unfold Selector.addNode
  split at h
  · next hempty =>
    rw [if_pos hempty]
    obtain ⟨core, coreName, raw⟩ := o
    obtain ⟨rfl, rfl⟩ := hempty
    rfl
  · next hempty =>
    rw [if_neg hempty, h]
    rfl

theorem addNode_of_some {core : Core} (h : sel.choice o = some core) :
    sel.addNode decode protocol accepts o =
      if accepts core.key then (.ok core, o) else (.error (.core core.key), o) := by
  unfold Selector.choice at h
  unfold Selector.addNode
  split at h
  · cases h
  · next hempty => rw [if_neg hempty, h]

/-- The Options name no configured core and still hold a text that can be read. -/
structure Usable (sel : Selector) (decode : Raw → Patch Raw × Bool) (o : Options Raw) : Prop where
  choice : sel.choice o = none
  readable : ∃ raw, o.rawOptions = some raw ∧ (decode raw).2 = true

theorem Usable.unnamed (h : Usable sel decode o) : Usable sel decode o.unnamed :=
  ⟨if_pos ⟨rfl, rfl⟩, h.readable⟩

/-- The call that left something in the Options is made up for: they name the core that serves
the protocol and accepts the node while those before it do not, or no core is to have the node and
a core that they name refuses it. -/
inductive Suits (sel : Selector) (o : Options Raw) (protocol : String) (accepts : String → Bool) :
    Prop
  | named (core : Core) (before after : List Core) : sel.choice o = some core →
      sel.cores = before ++ core :: after → isSupported protocol core.protocols = true →
      accepts core.key = true →
      (∀ d ∈ before, isSupported protocol d.protocols = true → accepts d.key = false) →
      Suits sel o protocol accepts
  | nobody : (∀ core ∈ sel.cores, isSupported protocol core.protocols = true →
        accepts core.key = false) →
      (∀ core ∈ sel.choice o, accepts core.key = false) → Suits sel o protocol accepts

def Answers (sel : Selector) (protocol : String) (accepts : String → Bool)
    (result : Except Error Core) : Prop :=
  match sel.cores.find? (takes protocol accepts) with
  | some core => result = .ok core
  | none => ∃ e, result = .error e

theorem takes_eq_false {core : Core}
    (h : isSupported protocol core.protocols → accepts core.key = false) :
    takes protocol accepts core = false := by
  unfold takes
  cases hserves : isSupported protocol core.protocols with
  | false => rfl
  | true => rw [h hserves]; rfl

theorem Usable.answers (h : Usable sel decode o) (protocol : String) (accepts : String → Bool) :
    Answers sel protocol accepts (sel.addNode decode protocol accepts o).1 := by
  obtain ⟨raw, hraw, hdecode⟩ := h.readable
  rw [addNode_of_none h.choice, hraw]
  exact fst_addByProtocol hdecode sel.cores [] o.unnamed

theorem Suits.answers (h : Suits sel o protocol accepts) :
    Answers sel protocol accepts (sel.addNode decode protocol accepts o).1 := by
  cases h with
  | named core before after hchoice hcores hserves haccepts hbefore =>
    have hfind : sel.cores.find? (takes protocol accepts) = some core := by
      rw [hcores, find?_append,
        find?_eq_none.mpr fun d hd ↦ by simp [takes_eq_false (hbefore d hd)]]
      simp [takes, hserves, haccepts]
    simp only [Answers, hfind, addNode_of_some hchoice, haccepts, if_true]
  | nobody hnone hchosen =>
    have hfalse : ∀ core ∈ sel.cores, takes protocol accepts core = false :=
      fun core hcore ↦ takes_eq_false (hnone core hcore)
    have hfind : sel.cores.find? (takes protocol accepts) = none :=
      find?_eq_none.mpr fun core hcore ↦ by simp [hfalse core hcore]
    simp only [Answers, hfind]
    cases hchoice : sel.choice o with
    | none =>
      rw [addNode_of_none hchoice]
      exact addByProtocol_error _ _ _ _ hfalse
    | some core =>
      rw [addNode_of_some hchoice, hchosen core hchoice]
      exact ⟨_, rfl⟩

def Untouched (sel : Selector) (decode : Raw → Patch Raw × Bool) (texts : Nat → Raw)
    (s : State Raw) : Prop :=
  ∀ i ∉ s.tried, Usable sel decode (load decode (texts i)) → Usable sel decode (s.options i)

variable {texts : Nat → Raw} {s t : State Raw}

theorem options_addNode (s : State Raw) (call : Call) :
    (s.addNode sel decode call).2.options = Function.update s.options call.options
        (sel.addNode decode call.protocol call.accepts (s.options call.options)).2 ∧
      (s.addNode sel decode call).2.tried =
        if sel.cores.any (isSupported call.protocol ·.protocols) then call.options :: s.tried
        else s.tried := by
  unfold State.addNode
  dsimp only
  split <;> exact ⟨rfl, rfl⟩

theorem options_delNode (s : State Raw) (tag : String) (ok : Bool) :
    (s.delNode tag ok).2.options = s.options ∧ (s.delNode tag ok).2.tried = s.tried := by
  unfold State.delNode
  split
  · exact ⟨rfl, rfl⟩
  · split <;> exact ⟨rfl, rfl⟩

theorem Untouched.addNode (h : Untouched sel decode texts s) (call : Call) :
    Untouched sel decode texts (s.addNode sel decode call).2 := by
  intro i hi hload
  obtain ⟨hoptions, htried⟩ := options_addNode s call
  rw [htried] at hi
  rw [hoptions]
  by_cases heq : i = call.options
  · subst heq
    split at hi
    · exact absurd mem_cons_self hi
    next hnone =>
    have hunserved : ∀ core ∈ sel.cores, isSupported call.protocol core.protocols = false := by
      simpa using hnone
    have husable := h call.options hi hload
    rw [Function.update_self, addNode_of_none husable.choice,
      addByProtocol_unserved _ _ _ _ hunserved]
    exact husable.unnamed
  · rw [Function.update_of_ne heq]
    refine h i (fun hmem ↦ hi ?_) hload
    split
    · exact mem_cons_of_mem _ hmem
    · exact hmem

theorem Untouched.step {a : Action} (h : Untouched sel decode texts s)
    (hstep : step sel decode s a = some t) : Untouched sel decode texts t := by
  cases a with
  | addNode call =>
    cases hstep
    exact h.addNode call
  | delNode tag ok =>
    cases hstep
    obtain ⟨hoptions, htried⟩ := options_delNode s tag ok
    intro i hi hload
    rw [hoptions]
    exact h i (htried ▸ hi) hload

theorem untouched_of_steps (h : Steps (step sel decode) (initial decode texts) s) :
    Untouched sel decode texts s :=
  h.invariant (fun _ _ hload ↦ hload) fun _ _ _ hold _ hstep ↦ hold.step hstep

/-- Each `AddNode` puts the node on the first core in configuration order that serves its protocol
and accepts it, as long as no earlier call with the same Options found a core for its protocol, or
what it left in them suits this call. -/
theorem add_node_first_accepting (h : Steps (step sel decode) (initial decode texts) s)
    (call : Call) (hload : Usable sel decode (load decode (texts call.options)))
    (hcall : call.options ∉ s.tried ∨
      Suits sel (s.options call.options) call.protocol call.accepts) :
    match sel.cores.find? (takes call.protocol call.accepts) with
    | some core => (s.addNode sel decode call).1 = .ok core ∧
        (s.addNode sel decode call).2.nodes = s.nodes.insert call.tag core.key ∧
        (s.addNode sel decode call).2.running = (call.tag, core.key) :: s.running
    | none => (∃ e, (s.addNode sel decode call).1 = .error e) ∧
        (s.addNode sel decode call).2.nodes = s.nodes ∧
        (s.addNode sel decode call).2.running = s.running := by
  have hanswers : Answers sel call.protocol call.accepts
      (sel.addNode decode call.protocol call.accepts (s.options call.options)).1 := by
    rcases hcall with huntried | hsuits
    · have husable := untouched_of_steps h call.options huntried hload
      exact husable.answers call.protocol call.accepts
    · exact hsuits.answers
  unfold Answers at hanswers
  unfold State.addNode
  split at hanswers
  · simp only [hanswers, and_self]
  · obtain ⟨e, he⟩ := hanswers
    simp only [he, and_self, and_true]
    exact ⟨e, rfl⟩

def anixcore : Core := ⟨"anixcore", "anixcore", ["vless", "hysteria2"]⟩

def wireguard : Core := ⟨"wireguard", "wireguard", ["wireguard"]⟩

def defaultCores : Selector := ⟨[anixcore, wireguard], by decide⟩

def readText : Bool → Patch Bool × Bool
  | false => (⟨none, none, none⟩, true)
  | true => (⟨none, some "sing", none⟩, true)

def vless : Call := ⟨"a", "vless", 0, fun key ↦ key == "anixcore"⟩

def tunnel : Call := ⟨"b", "wireguard", 0, fun key ↦ key == "wireguard"⟩

theorem add_node_first_accepting_reload : ∃ s : State Bool,
    Steps (step defaultCores readText) (initial readText fun _ ↦ false) s ∧ 0 ∈ s.tried ∧
    (s.addNode defaultCores readText vless).1 = .ok anixcore := by
  have hone : exec (step defaultCores readText) (initial readText fun _ ↦ false)
      [.addNode vless] = some ((initial readText fun _ ↦ false).addNode defaultCores readText
        vless).2 := rfl
  refine ⟨_, steps_of_exec hone, by decide, ?_⟩
  have hsuits : Suits defaultCores (⟨"anixcore", "", none⟩ : Options Bool) "vless" vless.accepts :=
    .named anixcore [] [wireguard] rfl rfl rfl rfl nofun
  exact (add_node_first_accepting (steps_of_exec hone) vless ⟨rfl, false, rfl, rfl⟩
    (.inr hsuits)).1

/-- A node of another protocol goes to the core of the first one, which refuses it. And the second
call with Options that name a retired core finds no text to read. -/
theorem add_node_after_another :
    (∃ s : State Bool, Steps (step defaultCores readText) (initial readText fun _ ↦ false) s ∧
      Usable defaultCores readText (load readText false) ∧
      defaultCores.cores.find? (takes tunnel.protocol tunnel.accepts) = some wireguard ∧
      (s.addNode defaultCores readText tunnel).1 = .error (.core "anixcore")) ∧
    ∃ s : State Bool, Steps (step defaultCores readText) (initial readText fun _ ↦ true) s ∧
      Usable defaultCores readText (load readText true) ∧
      defaultCores.cores.find? (takes vless.protocol vless.accepts) = some anixcore ∧
      (s.addNode defaultCores readText vless).1 = .error .unmarshal := by
  have hone (text : Bool) : exec (step defaultCores readText) (initial readText fun _ ↦ text)
      [.addNode vless] = some ((initial readText fun _ ↦ text).addNode defaultCores readText
        vless).2 := rfl
  refine ⟨?_, ?_⟩
  · exact ⟨_, steps_of_exec (hone false), ⟨rfl, false, rfl, rfl⟩, rfl, rfl⟩
  · exact ⟨_, steps_of_exec (hone true), ⟨rfl, true, rfl, rfl⟩, rfl, rfl⟩

end AnixAgent.Cores.Selection
