import Cesvga2.Runs.Prefix
import Mathlib.Logic.Function.Basic

/-! Who brings the framebuffer to the screen. With `SVGA_CAP_TRACES` the device notices stores by
itself; otherwise a timer asks for updates again and again. A client may take both over with
`useAccelUpdates`. The timer's action, `setDisplayMode` and `useAccelUpdates` run in threads of
their own and test `m_accel_updates` without a lock. As long as calls of `useAccelUpdates` do not
overlap, the timer is not lost between them. -/

namespace Cesvga2.FB.Refresh

variable {ι task : Type}

/-- Where a thread is: before the step of that name. -/
inductive Pc (task : Type) where
  | idle
  /-- `refreshTimerAction`. -/
  | update
  | timerTest
  | timerSchedule
  /-- `setDisplayMode`, from where it has found the mode. -/
  | modeTest₁
  | modeCancel
  | setMode
  | modeTest₂
  | modeSchedule
  /-- `useAccelUpdates` of the accelerator. -/
  | ownerTest (t : task) (state : Bool)
  | ownerStore (t : task) (state : Bool)
  /-- `useAccelUpdates` of the framebuffer. -/
  | compare (state : Bool)
  | store (state : Bool)
  | arm (state : Bool)
  | traces (state : Bool)
  deriving DecidableEq, Repr

/-- The device has `SVGA_CAP_TRACES`; there is a timer. -/
structure Config where
  capTraces : Bool
  refreshCall : Bool
  deriving DecidableEq, Repr

/-- `m_accel_updates`, `m_updating_ga`, whether the timer is to fire, the register
`SVGA_REG_TRACES`, and the threads. -/
structure State (ι task : Type) where
  accelUpdates : Bool
  updatingGA : Option task
  scheduled : Bool
  traces : Bool
  pc : ι → Pc task

/-- A thread takes up one of the calls, the timer fires in it, or it goes on. -/
inductive Act (ι task : Type) where
  | fire (i : ι)
  | setDisplayMode (i : ι)
  | useAccelUpdates (i : ι) (t : task) (state : Bool)
  | step (i : ι)
  deriving DecidableEq, Repr

namespace State

variable [DecidableEq ι] [DecidableEq task] (C : Config) (s : State ι task)

def goto (i : ι) (pc : Pc task) : State ι task := { s with pc := Function.update s.pc i pc }

def scheduleRefreshTimer : State ι task :=
  if C.refreshCall then { s with scheduled := true } else s

def cancelRefreshTimer : State ι task :=
  if C.refreshCall then { s with scheduled := false } else s

def stepThread (i : ι) : State ι task :=
  match s.pc i with
  | .idle => s
  | .update => s.goto i .timerTest
  | .timerTest => s.goto i (if s.accelUpdates then .idle else .timerSchedule)
  | .timerSchedule => (s.scheduleRefreshTimer C).goto i .idle
  | .modeTest₁ => s.goto i (if s.accelUpdates then .setMode else .modeCancel)
  | .modeCancel => (s.cancelRefreshTimer C).goto i .setMode
  | .setMode => s.goto i .modeTest₂
  | .modeTest₂ => s.goto i (if s.accelUpdates then .idle else .modeSchedule)
  | .modeSchedule => (s.scheduleRefreshTimer C).goto i .idle
  | .ownerTest t state =>
    s.goto i (if s.updatingGA ≠ none ∧ s.updatingGA ≠ some t then .idle else .ownerStore t state)
  | .ownerStore t state =>
    { s with updatingGA := if state then some t else none }.goto i (.compare state)
  | .compare state => s.goto i (if state = s.accelUpdates then .idle else .store state)
  | .store state => { s with accelUpdates := state }.goto i (.arm state)
  | .arm state =>
    (if state then s.cancelRefreshTimer C else s.scheduleRefreshTimer C).goto i (.traces state)
  | .traces state => (if C.capTraces then { s with traces := !state } else s).goto i .idle

def exec : Act ι task → State ι task
  | .fire i => if s.scheduled ∧ s.pc i = .idle then { s with scheduled := false }.goto i .update
      else s
  | .setDisplayMode i => if s.pc i = .idle then s.goto i .modeTest₁ else s
  | .useAccelUpdates i t state => if s.pc i = .idle then s.goto i (.ownerTest t state) else s
  | .step i => s.stepThread C i

/-- After `start`. -/
def init : State ι task := ⟨false, none, C.refreshCall, true, fun _ => .idle⟩

end State

/-- The thread is in `useAccelUpdates`. -/
def Pc.inCall : Pc task → Bool
  | .ownerTest _ _ | .ownerStore _ _ | .compare _ | .store _ | .arm _ | .traces _ => true
  | _ => false

namespace State

/-- Calls of `useAccelUpdates` do not overlap. -/
def Serial (s : State ι task) : Act ι task → Prop
  | .useAccelUpdates _ _ _ => ∀ j, (s.pc j).inCall = false
  | _ => True

/-- No thread is in a call. -/
def Quiet (s : State ι task) : Prop := ∀ i, s.pc i = .idle

/-- The updates are the client's exactly while one has taken them over; else the device notices
stores, or the timer is to fire. -/
structure Kept (C : Config) (s : State ι task) : Prop where
  owner : s.accelUpdates = s.updatingGA.isSome
  traces : C.capTraces = true → s.traces = !s.accelUpdates
  timer : C.refreshCall = true → s.accelUpdates = false → s.scheduled = true

end State

/-! ### The invariant -/

/-- The thread will look at `m_accel_updates` or schedule the timer before it is done. -/
def Pc.Owes : Pc task → Prop
  | .update | .timerTest | .timerSchedule | .setMode | .modeTest₂ | .modeSchedule => True
  | .arm state => state = false
  | _ => False

/-- The call has changed `m_updating_ga`. -/
def Pc.changes : Pc task → Bool
  | .compare _ | .store _ | .arm _ | .traces _ => true
  | _ => false

namespace State

/-- What a thread in `useAccelUpdates` relies on. -/
def Relies (C : Config) (s : State ι task) : Pc task → Prop
  | .compare state | .store state =>
    s.updatingGA.isSome = state ∧ (C.capTraces = true → s.traces = !s.accelUpdates)
  | .arm state | .traces state => s.updatingGA.isSome = state ∧ s.accelUpdates = state
  | _ => True

structure Inv (C : Config) (s : State ι task) : Prop where
  serial : ∀ i j, (s.pc i).inCall = true → (s.pc j).inCall = true → i = j
  relies : ∀ i, s.Relies C (s.pc i)
  owner : (∀ i, (s.pc i).changes = false) → s.accelUpdates = s.updatingGA.isSome
  traces : (∀ i, (s.pc i).changes = false) → C.capTraces = true → s.traces = !s.accelUpdates
  timer : C.refreshCall = true → s.accelUpdates = false →
    s.scheduled = true ∨ ∃ i, (s.pc i).Owes

variable {C : Config} {s u : State ι task} {i : ι} {pc : Pc task}

theorem inv_init (C : Config) : (init C : State ι task).Inv C where
  serial _ _ h := absurd h (by simp [init, Pc.inCall])
  relies _ := trivial
  owner _ := rfl
  traces _ _ := rfl
  timer h _ := .inl h

theorem Inv.kept (h : s.Inv C) (hq : s.Quiet) : s.Kept C := by
  have hnone : ∀ i, (s.pc i).changes = false := fun i => by rw [hq i]; rfl
  refine ⟨h.owner hnone, h.traces hnone, fun hcall haccel => ?_⟩
  refine (h.timer hcall haccel).resolve_right fun ⟨i, hi⟩ => ?_
  rw [hq i] at hi
  exact hi

/-! ### One thread moves -/

theorem relies_of_not_inCall (h : pc.inCall = false) : s.Relies C pc := by
  cases pc with
  | compare _ | store _ | arm _ | traces _ => cases h
  | _ => trivial

theorem changes_of_not_inCall (h : pc.inCall = false) : pc.changes = false := by
  cases pc with
  | compare _ | store _ | arm _ | traces _ => cases h
  | _ => rfl

theorem Inv.alone (h : s.Inv C) (hi : (s.pc i).inCall = true) :
    ∀ j ≠ i, (s.pc j).inCall = false :=
  fun j hj => eq_false_of_ne_true fun hin => hj (h.serial j i hin hi)

/-- Before `m_updating_ga` is changed, everything agrees. -/
theorem Inv.agree (h : s.Inv C) (hi : (s.pc i).changes = false)
    (halone : ∀ j ≠ i, (s.pc j).inCall = false) : s.accelUpdates = s.updatingGA.isSome ∧
      (C.capTraces = true → s.traces = !s.accelUpdates) := by
  have hall : ∀ j, (s.pc j).changes = false := by
    intro j
    by_cases hj : j = i
    · rw [hj]
      exact hi
    · exact changes_of_not_inCall (halone j hj)
  exact ⟨h.owner hall, h.traces hall⟩

/-- Someone else sees to the timer. -/
theorem Inv.timer_other (h : s.Inv C) (pc : Pc task) (hi : ¬ (s.pc i).Owes)
    (hcall : C.refreshCall = true) (haccel : s.accelUpdates = false) :
    s.scheduled = true ∨ pc.Owes ∨ ∃ j ≠ i, (s.pc j).Owes := by
  refine (h.timer hcall haccel).imp_right fun ⟨j, hj⟩ => .inr ⟨j, ?_, hj⟩
  rintro rfl
  exact hi hj

theorem schedule_eq (s : State ι task) :
    s.scheduleRefreshTimer C = { s with scheduled := C.refreshCall || s.scheduled } := by
  unfold scheduleRefreshTimer
  cases C.refreshCall <;> rfl

theorem cancel_eq (s : State ι task) :
    s.cancelRefreshTimer C = { s with scheduled := !C.refreshCall && s.scheduled } := by
  unfold cancelRefreshTimer
  cases C.refreshCall <;> rfl

variable [DecidableEq ι]

theorem goto_pc_of_ne {j : ι} (hj : j ≠ i) : (s.goto i pc).pc j = s.pc j :=
  Function.update_of_ne hj ..

theorem goto_pc_self : (s.goto i pc).pc i = pc := Function.update_self ..

/-- Thread `i` goes to `pc` in `u`, where the others are as in `s`. -/
theorem Inv.goto (h : s.Inv C) (hpcs : u.pc = s.pc)
    (hserial : pc.inCall = true → ∀ j ≠ i, (s.pc j).inCall = false)
    (hothers : ∀ j ≠ i, u.Relies C (s.pc j)) (hrelies : u.Relies C pc)
    (hagree : pc.changes = false → (∀ j ≠ i, (s.pc j).changes = false) →
      u.accelUpdates = u.updatingGA.isSome ∧ (C.capTraces = true → u.traces = !u.accelUpdates))
    (htimer : C.refreshCall = true → u.accelUpdates = false →
      u.scheduled = true ∨ pc.Owes ∨ ∃ j ≠ i, (s.pc j).Owes) : (u.goto i pc).Inv C := by
  have hself : (u.goto i pc).pc i = pc := goto_pc_self
  have hother : ∀ j ≠ i, (u.goto i pc).pc j = s.pc j := fun j hj =>
    (goto_pc_of_ne hj).trans (congrFun hpcs j)
  have hagreed : (∀ j, ((u.goto i pc).pc j).changes = false) →
      u.accelUpdates = u.updatingGA.isSome ∧
        (C.capTraces = true → u.traces = !u.accelUpdates) := by
    refine fun hall => hagree (hself ▸ hall i) fun j hj => ?_
    rw [← hother j hj]
    exact hall j
  refine ⟨fun j k hj hk => ?_, fun j => ?_, fun hall => (hagreed hall).1,
    fun hall => (hagreed hall).2, fun hcall haccel => ?_⟩
  · by_cases hji : j = i
    · by_cases hki : k = i
      · rw [hji, hki]
      · rw [hji, hself] at hj
        rw [hother k hki, hserial hj k hki] at hk
        cases hk
    · rw [hother j hji] at hj
      by_cases hki : k = i
      · rw [hki, hself] at hk
        rw [hserial hk j hji] at hj
        cases hj
      · rw [hother k hki] at hk
        exact h.serial j k hj hk
  · by_cases hj : j = i
    · rw [hj, hself]
      exact hrelies
    · rw [hother j hj]
      exact hothers j hj
  · rcases htimer hcall haccel with hs | ho | ⟨j, hj, ho⟩
    · exact .inl hs
    · exact .inr ⟨i, by rw [hself]; exact ho⟩
    · exact .inr ⟨j, by rw [hother j hj]; exact ho⟩

/-- A thread outside `useAccelUpdates` may change the timer. -/
theorem Inv.outside (h : s.Inv C) (hi : (s.pc i).inCall = false) (hpc : pc.inCall = false)
    (sched : Bool) (htimer : C.refreshCall = true → s.accelUpdates = false →
      sched = true ∨ pc.Owes ∨ ∃ j ≠ i, (s.pc j).Owes) :
    ({ s with scheduled := sched }.goto i pc).Inv C := by
  refine h.goto (u := { s with scheduled := sched }) rfl (fun hin => ?_) (fun j _ => h.relies j)
    (relies_of_not_inCall hpc) (fun _ hothers => ?_) htimer
  · rw [hpc] at hin
    cases hin
  · have hall : ∀ j, (s.pc j).changes = false := by
      intro j
      by_cases hj : j = i
      · rw [hj]
        exact changes_of_not_inCall hi
      · exact hothers j hj
    exact ⟨h.owner hall, h.traces hall⟩

/-- The thread in `useAccelUpdates` is alone there. -/
theorem Inv.inside (h : s.Inv C) (hpcs : u.pc = s.pc)
    (halone : ∀ j ≠ i, (s.pc j).inCall = false) (hrelies : u.Relies C pc)
    (hagree : pc.changes = false → u.accelUpdates = u.updatingGA.isSome ∧
      (C.capTraces = true → u.traces = !u.accelUpdates))
    (htimer : C.refreshCall = true → u.accelUpdates = false →
      u.scheduled = true ∨ pc.Owes ∨ ∃ j ≠ i, (s.pc j).Owes) : (u.goto i pc).Inv C :=
  h.goto hpcs (fun _ => halone) (fun j hj => relies_of_not_inCall (halone j hj)) hrelies
    (fun hpc _ => hagree hpc) htimer

/-- A thread that neither reads nor changes the timer. -/
theorem Inv.pass (h : s.Inv C) (hi : (s.pc i).inCall = false) (hpc : pc.inCall = false)
    (htimer : s.accelUpdates = false → (s.pc i).Owes → pc.Owes) : (s.goto i pc).Inv C := by
  refine h.outside hi hpc s.scheduled fun hcall haccel => ?_
  by_cases ho : (s.pc i).Owes
  · exact .inr (.inl (htimer haccel ho))
  · exact h.timer_other pc ho hcall haccel

theorem Inv.schedule (h : s.Inv C) (hi : (s.pc i).inCall = false) :
    ((s.scheduleRefreshTimer C).goto i .idle).Inv C := by
  rw [schedule_eq]
  refine h.outside hi rfl _ fun hcall _ => .inl ?_
  rw [hcall, Bool.true_or]

variable [DecidableEq task]

theorem Inv.step (h : s.Inv C) (i : ι) : (s.stepThread C i).Inv C := by
  unfold stepThread
  have hrelies := h.relies i
  have htimer := h.timer_other (i := i)
  cases hpc : s.pc i with
  | idle => exact h
  | update => exact h.pass (by rw [hpc]; rfl) rfl fun _ _ => trivial
  | timerTest =>
    cases haccel : s.accelUpdates with
    | true => exact h.pass (by rw [hpc]; rfl) rfl (by simp [haccel])
    | false => exact h.pass (by rw [hpc]; rfl) rfl fun _ _ => trivial
  | timerSchedule => exact h.schedule (by rw [hpc]; rfl)
  | modeTest₁ =>
    cases haccel : s.accelUpdates with
    | true => exact h.pass (by rw [hpc]; rfl) rfl (by simp [haccel])
    | false => exact h.pass (by rw [hpc]; rfl) rfl fun _ ho => by rw [hpc] at ho; exact ho
  | modeCancel =>
    rw [cancel_eq]
    exact h.outside (by rw [hpc]; rfl) rfl _ fun _ _ => .inr (.inl trivial)
  | setMode => exact h.pass (by rw [hpc]; rfl) rfl fun _ _ => trivial
  | modeTest₂ =>
    cases haccel : s.accelUpdates with
    | true => exact h.pass (by rw [hpc]; rfl) rfl (by simp [haccel])
    | false => exact h.pass (by rw [hpc]; rfl) rfl fun _ _ => trivial
  | modeSchedule => exact h.schedule (by rw [hpc]; rfl)
  | ownerTest t state =>
    have halone := h.alone (i := i) (by rw [hpc]; rfl)
    have hagree := h.agree (i := i) (by rw [hpc]; rfl) halone
    rw [hpc] at htimer
    dsimp only
    split_ifs
    · exact h.inside rfl halone trivial (fun _ => hagree) (htimer _ id)
    · exact h.inside rfl halone trivial (fun _ => hagree) (htimer _ id)
  | ownerStore t state =>
    have halone := h.alone (i := i) (by rw [hpc]; rfl)
    have hagree := h.agree (i := i) (by rw [hpc]; rfl) halone
    rw [hpc] at htimer
    refine h.inside rfl halone ⟨?_, hagree.2⟩ (by simp [Pc.changes]) (htimer _ id)
    cases state <;> rfl
  | compare state =>
    have halone := h.alone (i := i) (by rw [hpc]; rfl)
    rw [hpc] at hrelies htimer
    dsimp only
    split_ifs with hsame
    · exact h.inside rfl halone trivial (fun _ => ⟨(hrelies.1.trans hsame).symm, hrelies.2⟩)
        (htimer _ id)
    · exact h.inside rfl halone hrelies (by simp [Pc.changes]) (htimer _ id)
  | store state =>
    have halone := h.alone (i := i) (by rw [hpc]; rfl)
    rw [hpc] at hrelies
    exact h.inside rfl halone ⟨hrelies.1, rfl⟩ (by simp [Pc.changes])
      fun _ haccel => .inr (.inl haccel)
  | arm state =>
    have halone := h.alone (i := i) (by rw [hpc]; rfl)
    rw [hpc] at hrelies
    dsimp only
    cases state with
    | true =>
      rw [if_pos rfl, cancel_eq]
      refine h.inside rfl halone hrelies (by simp [Pc.changes]) fun _ haccel => ?_
      exact Bool.noConfusion (hrelies.2.symm.trans haccel)
    | false =>
      rw [if_neg Bool.false_ne_true, schedule_eq]
      refine h.inside rfl halone hrelies (by simp [Pc.changes]) fun hcall _ => .inl ?_
      rw [hcall, Bool.true_or]
  | traces state =>
    have halone := h.alone (i := i) (by rw [hpc]; rfl)
    rw [hpc] at hrelies htimer
    obtain ⟨howner, haccel⟩ := hrelies
    dsimp only
    split_ifs with hcap
    · refine h.inside rfl halone trivial (fun _ => ⟨haccel.trans howner.symm, fun _ => ?_⟩)
        (htimer _ id)
      exact congrArg not haccel.symm
    · exact h.inside rfl halone trivial (fun _ => ⟨haccel.trans howner.symm, by simp [hcap]⟩)
        (htimer _ id)

theorem Inv.exec (h : s.Inv C) {a : Act ι task} (ha : s.Serial a) : (s.exec C a).Inv C := by
  cases a with
  | fire i =>
    rw [State.exec]
    split_ifs with hfire
    · exact h.outside (by rw [hfire.2]; rfl) rfl _ fun _ _ => .inr (.inl trivial)
    · exact h
  | setDisplayMode i =>
    rw [State.exec]
    split_ifs with hidle
    · exact h.pass (by rw [hidle]; rfl) rfl fun _ ho => by rw [hidle] at ho; exact ho
    · exact h
  | useAccelUpdates i t state =>
    rw [State.exec]
    split_ifs with hidle
    · refine h.inside rfl (fun j _ => ha j) trivial
        (fun _ => h.agree (i := i) (changes_of_not_inCall (ha i)) fun j _ => ha j)
        (h.timer_other _ ?_)
      rw [hidle]
      exact id
    · exact h
  | step i => exact h.step i

/-- Whenever all threads are done, the updates are the client's that has taken them over, or the
device notices stores, or the timer is to fire. -/
theorem kept_of_serial (C : Config) (acts : List (Act ι task))
    (h : Runs.Each (exec C) Serial (init C) acts)
    (hq : (acts.foldl (exec C) (init C)).Quiet) : (acts.foldl (exec C) (init C)).Kept C := by
  have hinv : (acts.foldl (exec C) (init C)).Inv C :=
    Runs.foldl_of_each (inv_init C) (fun _ _ hs ha => hs.exec ha) h
  exact hinv.kept hq

/-- A client takes the updates over while the timer's action is between its test of
`m_accel_updates` and `scheduleRefreshTimer`. -/
def takenOver : List (Act Bool Bool) :=
  [.fire false, .step false, .step false, .useAccelUpdates true true true, .step true, .step true,
    .step true, .step true, .step true, .step true, .step false]

theorem kept_of_serial_takenOver :
    Runs.Each (exec ⟨false, true⟩) Serial (init ⟨false, true⟩) takenOver ∧
      (takenOver.foldl (exec ⟨false, true⟩) (init ⟨false, true⟩)).Kept ⟨false, true⟩ := by
  have hserial : Runs.Each (exec ⟨false, true⟩) Serial (init ⟨false, true⟩) takenOver := by
    simp only [takenOver, Runs.each_cons, Runs.each_nil, Serial, and_true, true_and]
    decide
  refine ⟨hserial, kept_of_serial _ _ hserial fun i => ?_⟩
  cases i <;> rfl

/-- Two calls of one task that overlap: the second finds `m_accel_updates` not yet set. -/
def overlapping : List (Act Bool Bool) :=
  [.useAccelUpdates true true true, .step true, .step true, .step true,
    .useAccelUpdates false true false, .step false, .step false, .step false,
    .step true, .step true, .step true]

-- No client has the updates, and the timer is cancelled all the same.
example : let s := overlapping.foldl (exec ⟨false, true⟩) (init ⟨false, true⟩)
    (∀ i, s.pc i = .idle) ∧ s.updatingGA = none ∧ s.accelUpdates = true ∧ s.scheduled = false := by
  decide

end State

end Cesvga2.FB.Refresh
