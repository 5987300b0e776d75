import Cesvga2.Wire.Matched

/-! A helper call from its reservation to its return, with the device at work in
between. Whether it is refused depends on its size and the size of the ring only,
so what a list of calls has issued is known from their sizes. -/

namespace Cesvga2.Wire

open Relation (ReflTransGen)
open Cesvga2.Fifo (World Act Dev Pc fifoMin fifoMax fifoStop fifoNextCmd fifoReserved
  fifoNumRegs bounceBufferSize)

/-! ### The size of the ring -/

section Ring

variable {w : World} {act : Act} {i : ℕ}

/-- The guest's stores miss `MIN` and `MAX`. -/
theorem reg_not_mem_targets (hi : Fifo.Inv w) (hl : act.Legal w) (hn : i < fifoNumRegs)
    (hnext : i ≠ fifoNextCmd) (hres : i ≠ fifoReserved) : i ∉ act.targets w := by
  obtain ⟨N, unread, ahead, rest, hL, -, -, hp⟩ := hi
  cases act with
  | retry => exact fun hm => hres (List.mem_singleton.mp hm)
  | fill k v =>
    simp only [Act.targets]
    split_ifs
    · exact List.not_mem_nil
    · rw [hL.next_eq, List.mem_singleton]
      omega
  | store =>
    obtain ⟨s, ss, hpc⟩ := hl
    rw [hpc] at hp
    simp only [Act.targets, hpc, List.mem_singleton]
    cases hp with
    | committing hs hroom h0 =>
      cases hs with
      | reserved hs => exact hres
      | put hr hs => exact Nat.ne_of_lt (hn.trans_le (Nat.le_add_right _ _))
      | publish hr hs => exact hnext
  | _ => exact List.not_mem_nil

theorem exec_fifoSize : (act.exec w).dev.fifoSize = w.dev.fifoSize := by
  cases act with
  | reserve bytes =>
    simp only [Act.exec]
    split_ifs <;> rfl
  | retry =>
    simp only [Act.exec]
    split
    · cases w.dev.reservePass _ with
      | inPlace =>
        simp only [Dev.afterPass]
        split_ifs <;> rfl
      | _ => rfl
    · rfl
  | fill k v =>
    simp only [Act.exec, Dev.fill]
    split_ifs <;> rfl
  | commit bytes =>
    simp only [Act.exec]
    split_ifs <;> rfl
  | store =>
    simp only [Act.exec]
    split <;> rfl
  | consume => rfl

/-- `MAX` stays the size of FIFO memory, which is larger than the registers. -/
theorem max_eq (hw : Fifo.Reachable w) : w.dev.fifo fifoMax = w.dev.fifoSize ∧
    fifoNumRegs * 4 < w.dev.fifoSize ∧ w.dev.fifoSize < 2 ^ 32 := by
  induction hw with
  | start hs =>
    obtain ⟨d₀, rfl⟩ := hs.init
    have hlt : (d₀.fifoInit true).2.fifoSize < 2 ^ 32 := by
      have := hs.aperture
      simp only [bounceBufferSize] at this
      omega
    exact ⟨d₀.fifoInit_regs.2.1, hs.room, hlt⟩
  | step act h hl ih =>
    have ht : fifoMax ∉ act.targets _ :=
      reg_not_mem_targets h.inv hl (by decide) (by decide) (by decide)
    rw [exec_fifoSize, Fifo.exec_fifo (by decide) ht]
    exact ih

end Ring

/-! ### One call -/

variable {s s' s'' : Driver} {c : Call} {ok : Bool}

theorem Step.fifoSize (hs : Step s s') : s'.world.dev.fifoSize = s.world.dev.fifoSize := by
  cases hs <;> exact exec_fifoSize

/-- Outside any call, with all stores made. -/
structure Ready (s : Driver) : Prop where
  reach : Reachable s
  prog : s.prog = .idle
  pc : s.world.pc = .idle

/-- One call of a helper and what it returned. -/
inductive Attempt (c : Call) (s : Driver) : Bool → Driver → Prop
  | refused (hr : s.world.dev.rejects c.bytes) : Attempt c s false s
  | issued {s' : Driver} (hr : ¬ s.world.dev.rejects c.bytes)
      (hrun : ReflTransGen Step (s.begun c) s') (hprog : s'.prog = .idle)
      (hpc : s'.world.pc = .idle) : Attempt c s true s'

/-- Nothing is reserved between calls. -/
theorem Reachable.unreserved (h : Reachable s) (hprog : s.prog = .idle) :
    s.world.dev.reservedSize = 0 := by
  induction h with
  | start hs => exact hs.unreserved
  | @reserve s _ c hp _ ih =>
    by_cases hrej : s.world.dev.rejects c.bytes
    · simp only [Act.exec, if_pos hrej]
      exact ih hp
    · simp only [if_neg hrej] at hprog
      cases hprog
  | retry =>
    dsimp only at hprog
    split_ifs at hprog
  | fill => cases hprog
  | @commitAll s hs c k hp hk ih =>
    have hsize := hs.inv.prog
    rw [hp] at hsize
    exact reservedSize_commit (by rw [hsize.2.1]; omega)
  | abandon => exact reservedSize_commit rfl
  | store _ _ ih => exact reservedSize_store.trans (ih hprog)
  | consume _ _ ih => exact ih hprog

/-- The ring, in bytes. -/
def Driver.ring (s : Driver) : ℕ := s.world.dev.fifoSize - fifoNumRegs * 4

/-- The size tests of `FIFOReserve` that a request of `n` bytes passes on a ring of `ring`. -/
def Accepts (ring n : ℕ) : Prop := n ≤ bounceBufferSize ∧ n ≤ ring ∧ n % 4 = 0

instance (ring n : ℕ) : Decidable (Accepts ring n) := inferInstanceAs (Decidable (_ ∧ _ ∧ _))

theorem Ready.rejects_iff (h : Ready s) {n : ℕ} :
    ¬ s.world.dev.rejects n ↔ Accepts s.ring n := by
  obtain ⟨hmax, hroom, hlt⟩ := max_eq h.reach.inv.fifo
  obtain ⟨N, unread, ahead, rest, hL, -⟩ := h.reach.inv.fifo.inv
  have hmin : s.world.dev.fifo fifoMin = fifoNumRegs * 4 := by rw [hL.min_eq, Nat.mul_comm]
  rw [Dev.rejects, hmax, hmin, sub32_of_le hroom.le hlt, h.reach.unreserved h.prog, Accepts,
    Driver.ring]
  simp only [ne_eq, not_true_eq_false, or_false, not_or, not_lt, not_not]

/-- Where a run is that began with the call `c`. -/
def Underway (c : Call) (issued : List Call) (s : Driver) : Prop :=
  (s.prog = .reserving c ∧ s.issued = issued) ∨ (∃ k, s.prog = .filling c k ∧ s.issued = issued) ∨
    (s.prog = .idle ∧ s.issued = issued ++ [c])

theorem Underway.step {l : List Call} (h : Underway c l s) (hs : Step s s') :
    Underway c l s' := by
  cases hs with
  | retry hprog =>
    rcases h with ⟨hp, hi⟩ | ⟨k, hp, -⟩ | ⟨hp, -⟩
    · cases hp.symm.trans hprog
      dsimp only [Underway]
      split_ifs
      · exact Or.inr (Or.inl ⟨0, rfl, hi⟩)
      · exact Or.inl ⟨rfl, hi⟩
    · cases hp.symm.trans hprog
    · cases hp.symm.trans hprog
  | fill hprog =>
    rcases h with ⟨hp, -⟩ | ⟨k, hp, hi⟩ | ⟨hp, -⟩
    · cases hp.symm.trans hprog
    · cases hp.symm.trans hprog
      exact Or.inr (Or.inl ⟨_, rfl, hi⟩)
    · cases hp.symm.trans hprog
  | commitAll hprog =>
    rcases h with ⟨hp, -⟩ | ⟨k, hp, hi⟩ | ⟨hp, -⟩
    · cases hp.symm.trans hprog
    · cases hp.symm.trans hprog
      exact Or.inr (Or.inr ⟨rfl, congrArg (· ++ [c]) hi⟩)
    · cases hp.symm.trans hprog
  | store => exact h
  | consume => exact h

theorem Attempt.spec (h : Ready s) (ha : Attempt c s ok s') :
    Ready s' ∧ s'.ring = s.ring ∧ s'.issued = s.issued ++ (if ok then [c] else []) ∧
      (ok = true ↔ Accepts s.ring c.bytes) := by
  cases ha with
  | refused hr =>
    exact ⟨h, rfl, by simp, nofun, fun hc => absurd hr (h.rejects_iff.mpr hc)⟩
  | issued hr hrun hprog hpc =>
    have hbegun := h.reach.begun h.prog h.pc hr
    have hall : ∀ t, ReflTransGen Step (s.begun c) t →
        t.world.dev.fifoSize = (s.begun c).world.dev.fifoSize ∧ Underway c s.issued t := by
      intro t ht
      induction ht with
      | refl => exact ⟨rfl, Or.inl ⟨rfl, rfl⟩⟩
      | tail _ hs ih => exact ⟨hs.fifoSize.trans ih.1, ih.2.step hs⟩
    obtain ⟨hsize, hunder⟩ := hall s' hrun
    refine ⟨⟨hbegun.steps hrun, hprog, hpc⟩, ?_, ?_, fun _ => h.rejects_iff.mp hr, fun _ => rfl⟩
    · rw [Driver.ring, hsize, Driver.ring]
      exact congrArg (· - fifoNumRegs * 4) exec_fifoSize
    · rcases hunder with ⟨hp, -⟩ | ⟨k, hp, -⟩ | ⟨-, hi⟩
      · cases hp.symm.trans hprog
      · cases hp.symm.trans hprog
      · exact hi

/-! ### Calls in a row -/

/-- A function that makes these calls in turn. Where the results are checked it leaves at the
first that was refused. -/
inductive Runs (checked : Bool) : List Call → Driver → Driver → Prop
  | nil {s : Driver} : Runs checked [] s s
  | exit {s s' : Driver} {c : Call} {cs : List Call} (ha : Attempt c s false s')
      (hc : checked = true) : Runs checked (c :: cs) s s'
  | next {s s' s'' : Driver} {c : Call} {cs : List Call} {ok : Bool} (ha : Attempt c s ok s')
      (hok : checked = true → ok = true) (hr : Runs checked cs s' s'') :
      Runs checked (c :: cs) s s''

/-- Of checked calls those before the first that is too large are issued, of unchecked calls
all that are not. -/
theorem Runs.issued {checked : Bool} {cs : List Call} (h : Ready s) (hr : Runs checked cs s s') :
    s'.issued = s.issued ++ (if checked then cs.takeWhile fun c => Accepts s.ring c.bytes
      else cs.filter fun c => Accepts s.ring c.bytes) := by
  induction hr with
  | nil => split_ifs <;> simp
  | exit ha hc =>
    obtain ⟨-, -, hi, hok⟩ := ha.spec h
    have hno : ¬ Accepts _ _ := fun hacc => nomatch hok.mpr hacc
    rw [hi, if_pos hc]
    simp [hno]
  | @next s s₁ s₂ c cs ok ha hchk _ ih =>
    obtain ⟨hready, hring, hi, hok⟩ := ha.spec h
    rw [ih hready, hi, hring]
    cases ok with
    | true =>
      have hacc := hok.mp rfl
      cases checked <;> simp [hacc]
    | false =>
      have hno : ¬ Accepts s.ring c.bytes := fun hacc => nomatch hok.mpr hacc
      cases checked with
      | true => cases hchk rfl
      | false => simp [hno]

end Cesvga2.Wire
