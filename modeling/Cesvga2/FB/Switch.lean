import Cesvga2.Fair.Rank

/-! One thread in `CustomSwitchStepWait` and any number of calls of `CustomSwitchStepSet`, step by
step. There is no lock: the value may change between the test of the loop, the registration with
`assert_wait`, the second look and `thread_block`. -/

namespace Cesvga2.FB.Switch

/-- Where the waiting thread is: before the step of that name. -/
inductive WaiterPc where
  | test
  | assertWait
  | recheck
  | wakeup
  | block
  | returned
  deriving DecidableEq, Repr

/-- Where a call of `CustomSwitchStepSet` is. -/
inductive SetterPc where
  | store
  | wakeup
  | returned
  deriving DecidableEq, Repr

variable {ι : Type*}

/-- `m_custom_switch`, whether the waiter is registered for its address, and where everyone is. -/
structure State (ι : Type*) where
  customSwitch : ℕ
  registered : Bool
  waiter : WaiterPc
  setter : ι → SetterPc

inductive Actor (ι : Type*) where
  | waiter
  | setter (i : ι)
  deriving DecidableEq, Repr

/-- A step of `CustomSwitchStepWait(value)`, none while the thread sleeps: `thread_block` returns
only to a thread that is no longer registered. -/
def State.stepWait (value : ℕ) (s : State ι) : Option (State ι) :=
  match s.waiter with
  | .test => some { s with waiter := if s.customSwitch ≠ value then .assertWait else .returned }
  | .assertWait => some { s with registered := true, waiter := .recheck }
  | .recheck => some { s with waiter := if s.customSwitch = value then .wakeup else .block }
  | .wakeup => some { s with registered := false, waiter := .block }
  | .block => if s.registered then none else some { s with waiter := .test }
  | .returned => none

/-- A step of a call of `CustomSwitchStepSet(value)`. -/
def State.stepSet [DecidableEq ι] (value : ℕ) (i : ι) (s : State ι) : Option (State ι) :=
  match s.setter i with
  | .store =>
    some { s with customSwitch := value, setter := Function.update s.setter i .wakeup }
  | .wakeup => some { s with registered := false, setter := Function.update s.setter i .returned }
  | .returned => none

variable [DecidableEq ι]

/-- A step of one actor; call `i` of `CustomSwitchStepSet` is for `values i`. -/
def State.step (value : ℕ) (values : ι → ℕ) (s : State ι) : Actor ι → Option (State ι)
  | .waiter => s.stepWait value
  | .setter i => s.stepSet (values i) i

/-- Before anyone has moved. -/
def State.initial (customSwitch : ℕ) : State ι := ⟨customSwitch, false, .test, fun _ => .store⟩

/-- An interleaving: at every moment one actor takes a step, or none. -/
structure Run (value : ℕ) (values : ι → ℕ) (σ : ℕ → State ι) (mover : ℕ → Option (Actor ι)) :
    Prop where
  start : ∃ customSwitch, σ 0 = State.initial customSwitch
  move : ∀ n l, mover n = some l → (σ n).step value values l = some (σ (n + 1))
  idle : ∀ n, mover n = none → σ (n + 1) = σ n

/-- Who is expected to go on: the waiter unless it sleeps or has returned, and a call that has
stored its value. No call has to begin. -/
def Enabled : Actor ι → State ι → Prop
  | .waiter, s => s.waiter ≠ .returned ∧ (s.waiter = .block → s.registered = false)
  | .setter i, s => s.setter i = .wakeup

/-! ### What a step can do -/

variable {value : ℕ} {values : ι → ℕ} {s s' : State ι} {l : Actor ι}

variable (value values) in
/-- The steps, each with what it finds. -/
inductive Moves (s : State ι) : Actor ι → State ι → Prop
  | differs (hpc : s.waiter = .test) (hne : s.customSwitch ≠ value) :
    Moves s .waiter { s with waiter := .assertWait }
  | done (hpc : s.waiter = .test) (heq : s.customSwitch = value) :
    Moves s .waiter { s with waiter := .returned }
  | register (hpc : s.waiter = .assertWait) :
    Moves s .waiter { s with registered := true, waiter := .recheck }
  | changed (hpc : s.waiter = .recheck) (heq : s.customSwitch = value) :
    Moves s .waiter { s with waiter := .wakeup }
  | unchanged (hpc : s.waiter = .recheck) (hne : s.customSwitch ≠ value) :
    Moves s .waiter { s with waiter := .block }
  | wakeSelf (hpc : s.waiter = .wakeup) :
    Moves s .waiter { s with registered := false, waiter := .block }
  | woken (hpc : s.waiter = .block) (hreg : s.registered = false) :
    Moves s .waiter { s with waiter := .test }
  | store (i : ι) (hpc : s.setter i = .store) :
    Moves s (.setter i)
      { s with customSwitch := values i, setter := Function.update s.setter i .wakeup }
  | wake (i : ι) (hpc : s.setter i = .wakeup) :
    Moves s (.setter i)
      { s with registered := false, setter := Function.update s.setter i .returned }

theorem moves_of_stepWait (h : s.stepWait value = some s') : Moves value values s .waiter s' := by
  simp only [State.stepWait] at h
  cases hpc : s.waiter with
  | test =>
    rw [hpc] at h
    cases h
    by_cases hval : s.customSwitch = value
    · rw [if_neg (not_not.mpr hval)]
      exact .done hpc hval
    · rw [if_pos hval]
      exact .differs hpc hval
  | assertWait =>
    rw [hpc] at h
    cases h
    exact .register hpc
  | recheck =>
    rw [hpc] at h
    cases h
    by_cases hval : s.customSwitch = value
    · rw [if_pos hval]
      exact .changed hpc hval
    · rw [if_neg hval]
      exact .unchanged hpc hval
  | wakeup =>
    rw [hpc] at h
    cases h
    exact .wakeSelf hpc
  | block =>
    rw [hpc] at h
    dsimp only at h
    split_ifs at h with hreg
    cases h
    exact .woken hpc (eq_false_of_ne_true hreg)
  | returned =>
    rw [hpc] at h
    cases h

theorem moves_of_stepSet {i : ι} (h : s.stepSet (values i) i = some s') :
    Moves value values s (.setter i) s' := by
  simp only [State.stepSet] at h
  cases hpc : s.setter i with
  | store =>
    rw [hpc] at h
    cases h
    exact .store i hpc
  | wakeup =>
    rw [hpc] at h
    cases h
    exact .wake i hpc
  | returned =>
    rw [hpc] at h
    cases h

theorem moves_of_step (h : s.step value values l = some s') : Moves value values s l s' := by
  cases l with
  | waiter => exact moves_of_stepWait h
  | setter i => exact moves_of_stepSet h

/-! ### No lost wake-up -/

/-- A thread that sleeps although the value is the one it waits for will be woken: the value was
stored after the thread had looked at it, by a call that has not come to its wake-up. -/
def NoLostWakeup (value : ℕ) (s : State ι) : Prop :=
  s.waiter = .block → s.registered = true → s.customSwitch = value →
    ∃ i, s.setter i = .wakeup

/-- A call that stores the value is to come to its wake-up, and the thread goes to sleep only if it
has found another value. -/
theorem Moves.noLostWakeup (hmove : Moves value values s l s') : NoLostWakeup value s' := by
  cases hmove with
  | differs hpc hne => exact fun hblock => absurd hblock nofun
  | done hpc heq => exact fun hblock => absurd hblock nofun
  | register hpc => exact fun hblock => absurd hblock nofun
  | changed hpc heq => exact fun hblock => absurd hblock nofun
  | unchanged hpc hne => exact fun _ _ heq => absurd heq hne
  | wakeSelf hpc => exact fun _ hreg => absurd hreg nofun
  | woken hpc hreg => exact fun hblock => absurd hblock nofun
  | store i hpc => exact fun _ _ _ => ⟨i, Function.update_self i _ _⟩
  | wake i hpc => exact fun _ hreg => absurd hreg nofun

section

variable {σ : ℕ → State ι} {mover : ℕ → Option (Actor ι)} {n : ℕ}

theorem Run.moves (h : Run value values σ mover) (hl : mover n = some l) :
    Moves value values (σ n) l (σ (n + 1)) := moves_of_step (h.move n l hl)

theorem Run.noLostWakeup (h : Run value values σ mover) (n : ℕ) : NoLostWakeup value (σ n) := by
  induction n with
  | zero =>
    obtain ⟨customSwitch, hstart⟩ := h.start
    rw [hstart]
    exact fun hblock => absurd hblock nofun
  | succ n ih =>
    cases hl : mover n with
    | none => rwa [h.idle n hl]
    | some l => exact (h.moves hl).noLostWakeup

end

/-! ### The waiter returns -/

/-- The steps the waiter has before it at most, once the value stays what it waits for. -/
def remaining : WaiterPc → Bool → ℕ
  | .returned, _ => 0
  | .test, _ => 1
  | .block, false => 2
  | .block, true => 3
  | .wakeup, _ => 3
  | .recheck, _ => 4
  | .assertWait, _ => 5

def rank (s : State ι) : ℕ := remaining s.waiter s.registered

/-- Who brings the waiter on: itself, or where it sleeps a call that has stored the value. -/
def Helpful : Actor ι → State ι → Prop
  | .waiter, s => s.waiter ≠ .returned ∧ (s.waiter = .block → s.registered = false)
  | .setter i, s => s.waiter = .block ∧ s.registered = true ∧ s.setter i = .wakeup

theorem remaining_eq_zero_iff (pc : WaiterPc) (registered : Bool) :
    remaining pc registered = 0 ↔ pc = .returned := by
  cases pc <;> cases registered <;> decide

theorem remaining_mono (pc : WaiterPc) (registered : Bool) :
    remaining pc false ≤ remaining pc registered := by
  cases pc <;> cases registered <;> decide

/-- As long as the value is the one that is waited for, the waiter's own steps lower the rank. -/
theorem Moves.rank_lt (h : Moves value values s .waiter s') (hval : s.customSwitch = value) :
    rank s' < rank s := by
  unfold rank
  cases h with
  | differs hpc hne => exact absurd hval hne
  | unchanged hpc hne => exact absurd hval hne
  | woken hpc hreg =>
    dsimp only
    rw [hpc, hreg]
    decide
  | done hpc _ | register hpc | changed hpc _ | wakeSelf hpc =>
    dsimp only
    rw [hpc]
    cases s.registered <;> decide

theorem Moves.rank_le {i : ι} (h : Moves value values s (.setter i) s') : rank s' ≤ rank s := by
  cases h with
  | store _ hpc => exact le_rfl
  | wake _ hpc => exact remaining_mono s.waiter s.registered

/-- The wake-up of a thread that sleeps. -/
theorem Moves.rank_lt_of_helpful {i : ι} (h : Moves value values s (.setter i) s')
    (hi : Helpful (.setter i) s) : rank s' < rank s := by
  obtain ⟨hblock, hreg, hpc'⟩ := hi
  cases h with
  | store _ hpc => exact absurd (hpc.symm.trans hpc') nofun
  | wake _ hpc =>
    simp only [rank, hblock, hreg]
    decide

omit [DecidableEq ι] in
/-- Until it has returned there is someone to bring the waiter on. -/
theorem NoLostWakeup.exists_helpful (h : NoLostWakeup value s) (hval : s.customSwitch = value)
    (hpc : s.waiter ≠ .returned) : ∃ l, Helpful l s := by
  by_cases hsleeps : s.waiter = .block ∧ s.registered = true
  · obtain ⟨i, hi⟩ := h hsleeps.1 hsleeps.2 hval
    exact ⟨.setter i, hsleeps.1, hsleeps.2, hi⟩
  · refine ⟨.waiter, hpc, fun hblock => ?_⟩
    exact eq_false_of_ne_true fun hreg => hsleeps ⟨hblock, hreg⟩

omit [DecidableEq ι] in
theorem Helpful.enabled (h : Helpful l s) : Enabled l s := by
  cases l with
  | waiter => exact h
  | setter i => exact h.2.2

/-- A thread that sleeps takes no step. -/
theorem Moves.awake (h : Moves value values s .waiter s') (hblock : s.waiter = .block) :
    s.registered = false := by
  cases h with
  | woken _ hreg => exact hreg
  | differs hpc _ | done hpc _ | register hpc | changed hpc _ | unchanged hpc _ | wakeSelf hpc =>
    exact absurd (hblock.symm.trans hpc) nofun

/-- The steps of others leave a helper in its place, unless they help themselves. -/
theorem Helpful.moves {k : Actor ι} (h : Helpful l s) (hne : k ≠ l)
    (hmove : Moves value values s k s') (hrank : rank s' = rank s) : Helpful l s' := by
  cases l with
  | waiter =>
    cases hmove with
    | store i hpc => exact h
    | wake i hpc => exact ⟨h.1, fun _ => rfl⟩
    | _ => exact absurd rfl hne
  | setter i =>
    obtain ⟨hblock, hreg, hi⟩ := h
    cases k with
    | waiter => exact absurd (hreg.symm.trans (hmove.awake hblock)) nofun
    | setter j =>
      by_cases hj : s.setter j = .wakeup
      · exact absurd hrank (hmove.rank_lt_of_helpful ⟨hblock, hreg, hj⟩).ne
      · cases hmove with
        | store _ hpc =>
          have hij : i ≠ j := fun hij => hne (congrArg _ hij.symm)
          exact ⟨hblock, hreg, (Function.update_of_ne hij _ _).trans hi⟩
        | wake _ hpc => exact absurd hpc hj

/-- In a fair interleaving, once the value stays what the thread waits for, the thread returns. -/
theorem customSwitchStepWait_returns {σ : ℕ → State ι} {mover : ℕ → Option (Actor ι)}
    (hrun : Run value values σ mover) (hfair : Fair.WeaklyFair σ mover Enabled) {N : ℕ}
    (hval : ∀ n, N ≤ n → (σ n).customSwitch = value) : ∃ n, (σ n).waiter = .returned := by
  have hhelped : Fair.Helped σ mover Enabled Helpful rank N := by
    constructor
    · intro n hn
      cases hl : mover n with
      | none => rw [hrun.idle n hl]
      | some l =>
        cases l with
        | waiter => exact ((hrun.moves hl).rank_lt (hval n hn)).le
        | setter i => exact (hrun.moves hl).rank_le
    · intro n hn hrank
      refine (hrun.noLostWakeup n).exists_helpful (hval n hn) fun hpc => hrank ?_
      exact (remaining_eq_zero_iff _ _).mpr hpc
    · exact fun n _ l hl => hl.enabled
    · intro n hn l hhelp hl
      cases l with
      | waiter => exact (hrun.moves hl).rank_lt (hval n hn)
      | setter i => exact (hrun.moves hl).rank_lt_of_helpful hhelp
    · intro n hn l hhelp hne hrank
      cases hk : mover n with
      | none => rwa [hrun.idle n hk]
      | some k => exact hhelp.moves (fun hkl => hne (hkl ▸ hk)) (hrun.moves hk) hrank
  obtain ⟨n, -, hzero⟩ := hhelped.eventually_zero hfair
  exact ⟨n, (remaining_eq_zero_iff _ _).mp hzero⟩

/-! ### A thread that goes to sleep just before the value is stored -/

/-- One thread waits for 2, one call stores it. -/
def sleeperStates : ℕ → State Unit
  | 0 => .initial 1
  | 1 => ⟨1, false, .assertWait, fun _ => .store⟩
  | 2 => ⟨1, true, .recheck, fun _ => .store⟩
  | 3 => ⟨1, true, .block, fun _ => .store⟩
  | 4 => ⟨2, true, .block, fun _ => .wakeup⟩
  | 5 => ⟨2, false, .block, fun _ => .returned⟩
  | 6 => ⟨2, false, .test, fun _ => .returned⟩
  | _ => ⟨2, false, .returned, fun _ => .returned⟩

def sleeperMover : ℕ → Option (Actor Unit)
  | 0 | 1 | 2 => some .waiter
  | 3 | 4 => some (.setter ())
  | 5 | 6 => some .waiter
  | _ => none

theorem run_sleeper : Run 2 (fun _ => 2) sleeperStates sleeperMover := by
  refine ⟨⟨1, rfl⟩, fun n l hl => ?_, fun n hl => ?_⟩
  · match n with
    | 0 | 1 | 2 | 3 | 4 | 5 | 6 => cases hl; rfl
    | n + 7 => cases hl
  · match n with
    | 0 | 1 | 2 | 3 | 4 | 5 | 6 => cases hl
    | n + 7 => rfl

theorem weaklyFair_sleeper : Fair.WeaklyFair sleeperStates sleeperMover Enabled := by
  intro l n hn
  have hlast := hn (n + 7) (Nat.le_add_right n 7)
  cases l with
  | waiter => exact absurd rfl hlast.1
  | setter i => exact absurd hlast nofun

/-- It is woken and returns. -/
theorem customSwitchStepWait_sleeper :
    Run 2 (fun _ => 2) sleeperStates sleeperMover ∧
      (sleeperStates 4).waiter = .block ∧ (sleeperStates 4).registered = true ∧
      ∃ n, (sleeperStates n).waiter = .returned := by
  refine ⟨run_sleeper, rfl, rfl,
    customSwitchStepWait_returns run_sleeper weaklyFair_sleeper (N := 4) fun n hn => ?_⟩
  match n, hn with
  | 4, _ | 5, _ | 6, _ => rfl
  | n + 7, _ => rfl

end Cesvga2.FB.Switch
