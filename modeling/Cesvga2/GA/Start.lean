import Cesvga2.Basic
import Cesvga2.Handles.Once
import Cesvga2.Runs.Prefix

/-! `ceStart` and `ceStop` of the graphics accelerator plug-in. A start takes a reference to the
accelerator, opens a connection to it and reads two settings over it. Its failure exits run into the
end of the good path, which publishes whatever connection the instance has noted. A connection and a
reference are told apart from every other by the order in which IOKit handed them out. -/

namespace Cesvga2.GA

open Handles

/-- The fields of `GAType` that starting and stopping use; `none` is the null port. -/
structure Instance where
  context : Option ℕ
  accelerator : Option ℕ
  framebufferIndex : ℕ
  configVal1 : ℕ
  configVal2 : ℕ

/-- As `_allocGAType` leaves it. -/
def Instance.alloc : Instance := ⟨none, none, 0, 0, 0⟩

/-- The instances, the globals `this_ga` and `this_ga_ctx`, and what IOKit was asked to open,
retain, close and release. -/
structure State (ι : Type*) where
  me : ι → Instance
  thisGa : Option ι
  thisGaCtx : Option ℕ
  connections : Ledger
  references : Ledger

/-- What the IOKit calls of one `ceStart` answer and leave in their outputs. -/
structure Answers where
  findAccelerator : IOReturn
  framebufferIndex : ℕ
  serviceOpen : IOReturn
  getConfig : IOReturn
  output0 : ℕ
  readConfigs : IOReturn
  outputStruct : ℕ

def ceReset : Option Instance → IOReturn
  | none => .badArgument
  | some me => if me.context = none then .notReady else .success

namespace State

variable {ι : Type*} [DecidableEq ι]

/-- Before the first call. -/
def start : State ι := ⟨fun _ => .alloc, none, none, .empty, .empty⟩

def set (s : State ι) (i : ι) (v : Instance) : State ι := { s with me := Function.update s.me i v }

/-- The label `good_exit`. -/
def goodExit (s : State ι) (i : ι) (rc : IOReturn) : IOReturn × State ι :=
  (rc, { s with thisGa := some i, thisGaCtx := (s.me i).context })

/-- The label `cleanup`, which runs on into `good_exit`. The answers of the two calls are not looked
at. -/
def cleanup (s : State ι) (i : ι) (rc : IOReturn) (context accelerator : Option ℕ) :
    IOReturn × State ι :=
  { s with
    connections := s.connections.finishHeld context
    references := s.references.finishHeld accelerator }.goodExit i rc

/-- What `ceStart` does over a connection that it has opened and noted. -/
def configure (s : State ι) (i : ι) (context accelerator : ℕ) (ans : Answers) :
    IOReturn × State ι :=
  -- stored before the code is looked at
  let s := s.set i { s.me i with configVal1 := u32 ans.output0 }
  if ans.getConfig ≠ .success then s.cleanup i ans.getConfig (some context) (some accelerator)
  else if ans.readConfigs ≠ .success then
    s.cleanup i ans.readConfigs (some context) (some accelerator)
  else
    let s := s.set i { s.me i with configVal2 := ans.outputStruct }
    let rc := ceReset (some (s.me i))
    if rc ≠ .success then s.cleanup i rc (some context) (some accelerator)
    -- what `useAccelUpdates` answers is not looked at
    else s.goodExit i rc

def ceStart (s : State ι) (me : Option ι) (service : ℕ) (ans : Answers) : IOReturn × State ι :=
  match me with
  | none => (.badArgument, s)
  | some i =>
    if service = 0 then (.badArgument, s)
    else
      let s := s.set i { s.me i with framebufferIndex := ans.framebufferIndex }
      if ans.findAccelerator ≠ .success then (ans.findAccelerator, s)
      else
        let accelerator := s.references.made
        let s := { s with references := s.references.make }
        if ans.serviceOpen ≠ .success then s.cleanup i ans.serviceOpen none (some accelerator)
        else
          let context := s.connections.made
          let s := { s with connections := s.connections.make }
          let s := s.set i { s.me i with accelerator := some accelerator, context := some context }
          s.configure i context accelerator ans

/-- `ceFlush` changes none of the fields. -/
def ceStop (s : State ι) (me : Option ι) : IOReturn × State ι :=
  match me with
  | none => (.badArgument, s)
  | some i =>
    let s := { s with thisGa := none, thisGaCtx := none }
    match (s.me i).accelerator with
    | none => (.success, s)
    | some accelerator =>
      let s := { s with
        connections := s.connections.finishHeld (s.me i).context
        references := s.references.finish accelerator }
      (.success, s.set i { s.me i with accelerator := none, context := none })

end State

/-- The calls of the interface; any instance may be named, and any IOKit call may fail. -/
inductive Call (ι : Type*) where
  | start (me : Option ι) (service : ℕ) (ans : Answers)
  | stop (me : Option ι)

def Call.me {ι : Type*} : Call ι → Option ι
  | .start me _ _ => me
  | .stop me => me

variable {ι : Type*} [DecidableEq ι]

def State.call (s : State ι) : Call ι → State ι
  | .start me service ans => (s.ceStart me service ans).2
  | .stop me => (s.ceStop me).2

/-! ### The ports alone -/

/-- The part of the state that says who has which connection and reference. -/
structure Ports (ι : Type*) where
  context : ι → Option ℕ
  accelerator : ι → Option ℕ
  thisGaCtx : Option ℕ
  connections : Ledger
  references : Ledger

def State.ports (s : State ι) : Ports ι where
  context i := (s.me i).context
  accelerator i := (s.me i).accelerator
  thisGaCtx := s.thisGaCtx
  connections := s.connections
  references := s.references

namespace Ports

/-- `IOServiceOpen` failed: the reference is given back. -/
def refused (p : Ports ι) (i : ι) : Ports ι :=
  { p with
    thisGaCtx := p.context i
    references := p.references.make.finish p.references.made }

/-- The instance notes a new connection and a new reference, whatever it had. -/
def opened (p : Ports ι) (i : ι) : Ports ι where
  context := Function.update p.context i (some p.connections.made)
  accelerator := Function.update p.accelerator i (some p.references.made)
  thisGaCtx := some p.connections.made
  connections := p.connections.make
  references := p.references.make

/-- What `cleanup` does after the connection was noted. -/
def failed (p : Ports ι) (i : ι) : Ports ι :=
  { p.opened i with
    connections := p.connections.make.finish p.connections.made
    references := p.references.make.finish p.references.made }

def stopped (p : Ports ι) (i : ι) : Ports ι where
  context := Function.update p.context i none
  accelerator := Function.update p.accelerator i none
  thisGaCtx := none
  connections := p.connections.finishHeld (p.context i)
  references := p.references.finishHeld (p.accelerator i)

/-- The five things that a call may do to the ports. -/
inductive Step (p : Ports ι) : Option ι → Ports ι → Prop
  | same {me : Option ι} : Step p me p
  | refused (i : ι) : Step p (some i) (p.refused i)
  | opened (i : ι) : Step p (some i) (p.opened i)
  | failed (i : ι) : Step p (some i) (p.failed i)
  | stopped (i : ι) : Step p (some i) (p.stopped i)

/-- An instance notes a connection exactly when it notes a reference. -/
def Paired (p : Ports ι) : Prop := ∀ i, p.context i = none ↔ p.accelerator i = none

end Ports

/-- A call that opens a connection. -/
def Answers.Opens (ans : Answers) (service : ℕ) : Prop :=
  service ≠ 0 ∧ ans.findAccelerator = .success ∧ ans.serviceOpen = .success

def Answers.Configured (ans : Answers) : Prop :=
  ans.getConfig = .success ∧ ans.readConfigs = .success

namespace State

variable {s : State ι} {i : ι} {service : ℕ} {ans : Answers}

theorem ports_set (s : State ι) (i : ι) (v : Instance) : (s.set i v).ports =
    { s.ports with
      context := Function.update s.ports.context i v.context
      accelerator := Function.update s.ports.accelerator i v.accelerator } := by
  simp only [ports, set, Ports.mk.injEq, and_true]
  constructor <;> funext j <;> by_cases hj : j = i
  · rw [hj, Function.update_self, Function.update_self]
  · rw [Function.update_of_ne hj, Function.update_of_ne hj]
  · rw [hj, Function.update_self, Function.update_self]
  · rw [Function.update_of_ne hj, Function.update_of_ne hj]

/-- The settings are no part of the ports. -/
theorem ports_set_of_same {v : Instance} (hc : v.context = (s.me i).context)
    (ha : v.accelerator = (s.me i).accelerator) : (s.set i v).ports = s.ports := by
  rw [ports_set, hc, ha]
  exact congrArg₂ (fun c a => { s.ports with context := c, accelerator := a })
    (Function.update_eq_self i s.ports.context) (Function.update_eq_self i s.ports.accelerator)

omit [DecidableEq ι] in
theorem ports_goodExit {p : Ports ι} {rc : IOReturn} (h : s.ports = p) :
    (s.goodExit i rc).2.ports = { p with thisGaCtx := p.context i } := by
  rw [← h]
  rfl

omit [DecidableEq ι] in
theorem ports_cleanup {p : Ports ι} {rc : IOReturn} {context accelerator : Option ℕ}
    (h : s.ports = p) : (s.cleanup i rc context accelerator).2.ports =
      { p with
        thisGaCtx := p.context i
        connections := p.connections.finishHeld context
        references := p.references.finishHeld accelerator } := by
  rw [← h]
  rfl

/-- A start that opens no connection leaves what the instance has noted. -/
theorem ports_ceStart_of_not_opens (h : ¬ ans.Opens service) :
    (s.ceStart (some i) service ans).2.ports = s.ports ∨
      (s.ceStart (some i) service ans).2.ports = s.ports.refused i := by
  have hset : (s.set i { s.me i with framebufferIndex := ans.framebufferIndex }).ports = s.ports :=
    ports_set_of_same rfl rfl
  by_cases hservice : service = 0
  · left
    simp only [ceStart, if_pos hservice]
  by_cases hfind : ans.findAccelerator = .success
  · have hopen : ans.serviceOpen ≠ .success := fun ho => h ⟨hservice, hfind, ho⟩
    right
    simp only [ceStart, if_neg hservice, ne_eq, hfind, not_true_eq_false, if_false, hopen,
      not_false_eq_true, if_true]
    exact congrArg (fun p => p.refused i) hset
  · left
    simp only [ceStart, if_neg hservice, ne_eq, hfind, not_false_eq_true, if_true]
    exact hset

theorem ports_configure_failed (s : State ι) (i : ι) (context accelerator : ℕ)
    (h : ¬ ans.Configured) : (s.configure i context accelerator ans).2.ports =
      { s.ports with
        thisGaCtx := s.ports.context i
        connections := s.connections.finish context
        references := s.references.finish accelerator } := by
  have hset : (s.set i { s.me i with configVal1 := u32 ans.output0 }).ports = s.ports :=
    ports_set_of_same rfl rfl
  by_cases hget : ans.getConfig = .success
  · have hread : ans.readConfigs ≠ .success := fun hr => h ⟨hget, hr⟩
    simp only [configure, ne_eq, hget, hread, not_true_eq_false, not_false_eq_true, if_false,
      if_true]
    exact ports_cleanup hset
  · simp only [configure, ne_eq, hget, not_false_eq_true, if_true]
    exact ports_cleanup hset

/-- `ceReset` fails only without a connection. -/
theorem ports_configure (s : State ι) (i : ι) (context accelerator : ℕ) (h : ans.Configured)
    (hme : (s.me i).context ≠ none) : (s.configure i context accelerator ans).2.ports =
      { s.ports with thisGaCtx := s.ports.context i } := by
  obtain ⟨hget, hread⟩ := h
  have hreset : ∀ v : Instance, v.context = (s.me i).context → ceReset (some v) = .success :=
    fun v hv => if_neg (by rwa [hv])
  simp only [configure, ne_eq, hget, hread, not_true_eq_false, if_false]
  rw [hreset _ (by simp [set]), if_neg (by simp)]
  refine ports_goodExit ?_
  rw [ports_set_of_same, ports_set_of_same]
  all_goals rfl

/-- The state in which `ceStart` has noted its connection. -/
theorem ports_noted (s : State ι) (i : ι) (index : ℕ) :
    (({ s.set i { s.me i with framebufferIndex := index } with
      references := s.references.make, connections := s.connections.make } : State ι).set i
        { (s.set i { s.me i with framebufferIndex := index }).me i with
          accelerator := some s.references.made, context := some s.connections.made }).ports =
      { s.ports.opened i with thisGaCtx := s.thisGaCtx } := by
  have hset : (s.set i { s.me i with framebufferIndex := index }).ports = s.ports :=
    ports_set_of_same rfl rfl
  rw [ports_set]
  exact congrArg (fun p : Ports ι => { s.ports.opened i with
    context := Function.update p.context i (some s.connections.made)
    accelerator := Function.update p.accelerator i (some s.references.made)
    thisGaCtx := s.thisGaCtx }) hset

theorem ports_ceStart_failed (h : ans.Opens service) (hc : ¬ ans.Configured) :
    (s.ceStart (some i) service ans).2.ports = s.ports.failed i := by
  obtain ⟨hservice, hfind, hopen⟩ := h
  simp only [ceStart, if_neg hservice, ne_eq, hfind, hopen, not_true_eq_false, if_false]
  refine (ports_configure_failed _ i _ _ hc).trans ?_
  refine (congrArg (fun p : Ports ι => { p with
      thisGaCtx := p.context i
      connections := p.connections.finish s.connections.made
      references := p.references.finish s.references.made })
    (ports_noted s i ans.framebufferIndex)).trans ?_
  simp [Ports.failed, Ports.opened, ports]

theorem ports_ceStart_opened (h : ans.Opens service) (hc : ans.Configured) :
    (s.ceStart (some i) service ans).2.ports = s.ports.opened i := by
  obtain ⟨hservice, hfind, hopen⟩ := h
  simp only [ceStart, if_neg hservice, ne_eq, hfind, hopen, not_true_eq_false, if_false]
  refine (ports_configure _ i _ _ hc (by simp [set])).trans ?_
  refine (congrArg (fun p : Ports ι => { p with thisGaCtx := p.context i })
    (ports_noted s i ans.framebufferIndex)).trans ?_
  simp [Ports.opened]

/-- `ceStop` looks at the reference before it closes the connection. -/
theorem ports_ceStop (h : s.ports.Paired) (i : ι) :
    (s.ceStop (some i)).2.ports = s.ports.stopped i := by
  cases ha : (s.me i).accelerator with
  | none =>
    have hc : s.ports.context i = none := (h i).mpr ha
    have ha' : s.ports.accelerator i = none := ha
    simp only [ceStop, ha, Ports.stopped, hc, ha', Ledger.finishHeld]
    rw [← hc, Function.update_eq_self]
    rw [hc, ← ha', Function.update_eq_self]
    rfl
  | some accelerator =>
    have ha' : s.ports.accelerator i = some accelerator := ha
    simp only [ceStop, ha, Ports.stopped, ha', Ledger.finishHeld]
    exact ports_set _ i _

/-! ### Calls that keep the account -/

/-- A start that opens a connection is made on an instance that has none, and the settings can be
read over it. -/
def Clean (s : State ι) : Call ι → Prop
  | .start (some i) service ans =>
    ans.Opens service → (s.me i).context = none ∧ ans.Configured
  | _ => True

variable {c : Call ι}

/-- What a clean call does to the ports. -/
theorem ports_call_clean (hp : s.ports.Paired) (hc : s.Clean c) :
    (s.call c).ports = s.ports ∨ ∃ i, c.me = some i ∧
      ((s.call c).ports = s.ports.refused i ∨
        (s.ports.context i = none ∧ (s.call c).ports = s.ports.opened i) ∨
        (s.call c).ports = s.ports.stopped i) := by
  match c with
  | .start none _ _ => exact .inl rfl
  | .stop none => exact .inl rfl
  | .stop (some i) => exact .inr ⟨i, rfl, .inr (.inr (ports_ceStop hp i))⟩
  | .start (some i) service ans =>
    by_cases ho : ans.Opens service
    · exact .inr ⟨i, rfl, .inr (.inl ⟨(hc ho).1, ports_ceStart_opened ho (hc ho).2⟩)⟩
    · rcases ports_ceStart_of_not_opens (s := s) (i := i) ho with h | h
      · exact .inl h
      · exact .inr ⟨i, rfl, .inl h⟩

/-- A call that is not clean leaves a closed connection in the instance, or drops an open one. -/
theorem ports_call_of_not_clean (hc : ¬ s.Clean c) : ∃ i, c.me = some i ∧
    ((s.call c).ports = s.ports.failed i ∨
      (s.ports.context i ≠ none ∧ (s.call c).ports = s.ports.opened i)) := by
  match c with
  | .start none _ _ => exact absurd trivial hc
  | .stop _ => exact absurd trivial hc
  | .start (some i) service ans =>
    obtain ⟨ho, hne⟩ := not_forall.mp hc
    refine ⟨i, rfl, ?_⟩
    by_cases hcfg : ans.Configured
    · exact .inr ⟨fun hn => hne ⟨hn, hcfg⟩, ports_ceStart_opened ho hcfg⟩
    · exact .inl (ports_ceStart_failed ho hcfg)

theorem step_call (hp : s.ports.Paired) (c : Call ι) : s.ports.Step c.me (s.call c).ports := by
  by_cases hc : s.Clean c
  · rcases ports_call_clean hp hc with h | ⟨i, hi, h | ⟨-, h⟩ | h⟩
    · rw [h]
      exact .same
    · rw [h, hi]
      exact .refused i
    · rw [h, hi]
      exact .opened i
    · rw [h, hi]
      exact .stopped i
  · obtain ⟨i, hi, h | ⟨-, h⟩⟩ := ports_call_of_not_clean hc
    · rw [h, hi]
      exact .failed i
    · rw [h, hi]
      exact .opened i

end State

namespace Ports

variable {p p' : Ports ι} {me : Option ι} {i : ι} {k : ℕ}

theorem Paired.update (hp : p.Paired) (i : ι) {c a : Option ℕ} (h : c = none ↔ a = none) (j : ι) :
    Function.update p.context i c j = none ↔ Function.update p.accelerator i a j = none := by
  by_cases hj : j = i
  · rwa [hj, Function.update_self, Function.update_self]
  · rw [Function.update_of_ne hj, Function.update_of_ne hj]
    exact hp j

theorem Step.paired (h : p.Step me p') (hp : p.Paired) : p'.Paired := by
  cases h with
  | same | refused i => exact hp
  | opened i | failed i => exact hp.update i (by simp)
  | stopped i => exact hp.update i Iff.rfl

/-- A call leaves the instances alone that it does not name. -/
theorem Step.context_of_ne (h : p.Step me p') (hi : me ≠ some i) : p'.context i = p.context i := by
  cases h with
  | same | refused j => rfl
  | opened j | failed j | stopped j =>
    exact Function.update_of_ne (fun he => hi (congrArg some he.symm)) _ _

/-- A connection that was dropped stays open for good. -/
theorem Step.leaked (h : p.Step me p') (hk : p.connections.Leaked p.context k) :
    p'.connections.Leaked p'.context k := by
  cases h with
  | same | refused i => exact hk
  | opened i => exact hk.make i
  | failed i => exact (hk.make i).finish hk.1.ne_made
  | stopped i => exact hk.finishHeld i

/-- The account of connections and references: what is open is noted in one instance, the rest was
closed once, and the global is noted in some instance. -/
structure Inv (p : Ports ι) : Prop where
  paired : p.Paired
  connections : p.connections.Sound p.context
  references : p.references.Sound p.accelerator
  global : ∀ {k}, p.thisGaCtx = some k → ∃ i, p.context i = some k

omit [DecidableEq ι] in
theorem Inv.refused (h : p.Inv) (i : ι) : (p.refused i).Inv :=
  ⟨h.paired, h.connections, h.references.make_finish, fun hk => ⟨i, hk⟩⟩

theorem Inv.opened (h : p.Inv) (hi : p.context i = none) : (p.opened i).Inv where
  paired := (Step.opened i).paired h.paired
  connections := h.connections.make hi
  references := h.references.make ((h.paired i).mp hi)
  global hk := ⟨i, (Function.update_self ..).trans hk⟩

theorem Inv.stopped (h : p.Inv) (i : ι) : (p.stopped i).Inv where
  paired := (Step.stopped i).paired h.paired
  connections := h.connections.finishHeld i
  references := h.references.finishHeld i
  global := nofun

omit [DecidableEq ι] in
theorem Inv.start : (State.start : State ι).ports.Inv :=
  ⟨fun _ => Iff.rfl, .empty, .empty, nofun⟩

/-- The global is null or an open connection. -/
def GlobalOpen (p : Ports ι) : Prop := ∀ k, p.thisGaCtx = some k → p.connections.Open k

omit [DecidableEq ι] in
theorem Inv.globalOpen (h : p.Inv) : p.GlobalOpen := by
  intro k hk
  obtain ⟨i, hi⟩ := h.global hk
  exact h.connections.live hi

theorem not_globalOpen_failed (p : Ports ι) (i : ι) : ¬ (p.failed i).GlobalOpen :=
  fun h => Ledger.not_open_finish (h _ rfl)

end Ports

/-! ### Whole sequences of calls -/

theorem State.inv_call {s : State ι} {c : Call ι} (h : s.ports.Inv) (hc : s.Clean c) :
    (s.call c).ports.Inv := by
  rcases State.ports_call_clean h.paired hc with hp | ⟨i, -, hp | ⟨hi, hp⟩ | hp⟩
  · rwa [hp]
  · rw [hp]
    exact h.refused i
  · rw [hp]
    exact h.opened hi
  · rw [hp]
    exact h.stopped i

theorem State.paired_call (s : State ι) (c : Call ι) (h : s.ports.Paired) :
    (s.call c).ports.Paired :=
  (s.step_call h c).paired h

/-- A `ceStop` of each of the plug-ins. -/
def State.shutDown (s : State ι) (plugins : List ι) : State ι :=
  (plugins.map fun i => Call.stop (some i)).foldl State.call s

theorem State.inv_shutDown {s : State ι} (h : s.ports.Inv) (plugins : List ι) :
    (s.shutDown plugins).ports.Inv := by
  induction plugins generalizing s with
  | nil => exact h
  | cons i plugins ih => exact ih (s.inv_call h trivial)

theorem State.context_shutDown {s : State ι} (h : s.ports.Paired) {plugins : List ι} {i : ι}
    (hi : i ∉ plugins → s.ports.context i = none) :
    (s.shutDown plugins).ports.context i = none := by
  induction plugins generalizing s with
  | nil => exact hi (by simp)
  | cons j plugins ih =>
    have hstop : (s.call (.stop (some j))).ports = s.ports.stopped j := s.ports_ceStop h j
    refine ih (s.paired_call _ h) fun hmem => ?_
    rw [hstop]
    by_cases hij : i = j
    · exact hij ▸ Function.update_self ..
    · exact (Function.update_of_ne hij _ _).trans (hi (by simp [hij, hmem]))

/-- An instance that no call names has no connection. -/
theorem State.context_of_not_named {i : ι} {calls : List (Call ι)}
    (h : ∀ c ∈ calls, c.me ≠ some i) {s : State ι} (hs : s.ports.Paired) :
    (calls.foldl State.call s).ports.context i = s.ports.context i := by
  induction calls generalizing s with
  | nil => rfl
  | cons c calls ih =>
    have hstep := s.step_call hs c
    refine (ih (fun c hc => h c (List.mem_cons_of_mem _ hc)) (s.paired_call c hs)).trans ?_
    exact hstep.context_of_ne (h c List.mem_cons_self)

/-- Over the calls and the final `ceStop` of every instance that they name, each connection is
closed once and each reference released once; and the global is never a closed connection. -/
def Accounted (calls : List (Call ι)) : Prop :=
  (∀ plugins : List ι, (∀ c ∈ calls, ∀ i, c.me = some i → i ∈ plugins) →
    ((calls.foldl State.call .start).shutDown plugins).connections.Once ∧
      ((calls.foldl State.call .start).shutDown plugins).references.Once) ∧
  Runs.Always State.call (fun s => ∀ k, s.thisGaCtx = some k → s.connections.Open k) .start calls

/-- No open connection was dropped, and the global is not closed. -/
def Ports.Kept (p : Ports ι) : Prop :=
  (∀ k, ¬ p.connections.Leaked p.context k) ∧ p.GlobalOpen

theorem kept_iff_clean (calls : List (Call ι)) :
    Runs.Always State.call (fun s => s.ports.Kept) .start calls ↔
      Runs.Each State.call State.Clean .start calls := by
  refine Runs.always_iff_each (I := fun s => s.ports.Inv) .start
    (fun s h => ⟨h.connections.not_leaked, h.globalOpen⟩) (fun s c h hc => s.inv_call h hc) ?_
  intro s c h hc hkept
  obtain ⟨i, -, hp | ⟨hi, hp⟩⟩ := State.ports_call_of_not_clean hc
  · rw [hp] at hkept
    exact s.ports.not_globalOpen_failed i hkept.2
  · obtain ⟨k, hk⟩ := Option.ne_none_iff_exists'.mp hi
    rw [hp] at hkept
    exact hkept.1 k (h.connections.leaked hk)

theorem State.leaked_foldl {k : ℕ} {s : State ι} (hs : s.ports.Paired)
    (hk : s.ports.connections.Leaked s.ports.context k) (calls : List (Call ι)) :
    (calls.foldl State.call s).ports.connections.Leaked
      (calls.foldl State.call s).ports.context k :=
  (Runs.foldl_of_step (I := fun s : State ι =>
      s.ports.Paired ∧ s.ports.connections.Leaked s.ports.context k)
    (fun s c h => ⟨s.paired_call c h.1, (s.step_call h.1 c).leaked h.2⟩) ⟨hs, hk⟩ calls).2

/-- The instances that the calls name. -/
def named (calls : List (Call ι)) : List ι := calls.filterMap Call.me

/-- **Starting and stopping.** Every connection is closed and every reference released exactly once,
and the global is never closed, exactly if every start that opens a connection finds the instance
without one and can read both settings. -/
theorem accounted_iff (calls : List (Call ι)) :
    Accounted calls ↔ Runs.Each State.call State.Clean .start calls := by
  constructor
  · rintro ⟨honce, hglobal⟩
    refine (kept_iff_clean calls).mp fun done hdone => ⟨fun k hk => ?_, hglobal done hdone⟩
    obtain ⟨rest, rfl⟩ := hdone
    have hpaired : (done.foldl State.call .start).ports.Paired :=
      Runs.foldl_of_step (I := fun s : State ι => s.ports.Paired)
        (fun s c h => s.paired_call c h) Ports.Inv.start.paired done
    have hend := State.leaked_foldl hpaired hk
      (rest ++ (named (done ++ rest)).map fun i => Call.stop (some i))
    refine hend.not_once ?_
    have := (honce (named (done ++ rest)) fun c hc i hi => List.mem_filterMap.mpr ⟨c, hc, hi⟩).1
    rwa [State.shutDown, ← List.foldl_append, List.append_assoc, List.foldl_append] at this
  · intro hclean
    have hinv : (calls.foldl State.call .start).ports.Inv :=
      Runs.foldl_of_each (I := fun s : State ι => s.ports.Inv) .start
        (fun s c h hc => s.inv_call h hc) hclean
    refine ⟨fun plugins hplugins => ?_, fun done hdone =>
      ((kept_iff_clean calls).mpr hclean done hdone).2⟩
    have hend := State.inv_shutDown hinv plugins
    have hnone : ∀ i, ((calls.foldl State.call .start).shutDown plugins).ports.context i = none :=
      fun i => State.context_shutDown hinv.paired fun hi =>
        State.context_of_not_named (fun c hc he => hi (hplugins c hc i he)) Ports.Inv.start.paired
    exact ⟨hend.connections.once hnone,
      hend.references.once fun i => (hend.paired i).mp (hnone i)⟩

/-- A start whose connection opens and then refuses the first request. -/
def configFails : Call Unit :=
  .start (some ()) 1 ⟨.success, 0, .success, .error, 0, .success, 0⟩

/-- The failed start closes its connection and publishes it; the stop closes it again. -/
theorem configFails_closes_twice :
    ¬ Accounted [configFails] ∧
      (State.start.call configFails).thisGaCtx = some 0 ∧
      (State.start.call configFails).connections.ends 0 = 1 ∧
      ((State.start.call configFails).shutDown [()]).connections.ends 0 = 2 ∧
      ((State.start.call configFails).shutDown [()]).references.ends 0 = 2 := by
  refine ⟨?_, rfl, rfl, rfl, rfl⟩
  rintro ⟨-, hglobal⟩
  have hopen := hglobal [configFails] List.prefix_rfl 0 rfl
  exact absurd hopen.2 (by decide)

end Cesvga2.GA
