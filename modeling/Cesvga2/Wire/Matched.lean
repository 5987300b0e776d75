import Cesvga2.Wire.Driver

/-! Every reservation is matched by a commit. The helpers that can leave before
they reserve, or commit something other than all of their reservation, have the
paths of their own listed; the others reserve the size of their command and
commit it whole. What is written into a reservation does not matter here. A
commit of a size that is not a multiple of four would leave the reservation
standing, and a later `FIFOReserve` would fail; no path has one. -/

namespace Cesvga2.Wire

open Cesvga2.Fifo (World Act Dev Pc bounceBufferSize fifoMin fifoMax fifoNumRegs)

/-! ### Paths through the helpers -/

/-- `count_bits`, of 32 bits. -/
def countBits (mask : ℕ) : ℕ :=
  let mask := ((mask &&& 0xAAAAAAAA) >>> 1) + (mask &&& 0x55555555)
  let mask := ((mask &&& 0xCCCCCCCC) >>> 2) + (mask &&& 0x33333333)
  let mask := ((mask &&& 0xF0F0F0F0) >>> 4) + (mask &&& 0x0F0F0F0F)
  let mask := ((mask &&& 0xFF00FF00) >>> 8) + (mask &&& 0x00FF00FF)
  ((mask &&& 0xFFFF0000) >>> 16) + (mask &&& 0x0000FFFF)

/-- The public command helpers with any arguments, those that begin a command together with
the commit by their caller. -/
inductive Routine where
  /-- A helper that always reserves its command and commits all of it. -/
  | helper (h : Helper)
  /-- `FIFOReserveCmd` and `FIFOReserveEscape`, with `FIFOCommitAll`. -/
  | reserveCmd (type bytes : ℕ)
  | reserveEscape (nsid bytes : ℕ)
  | insertFence (hasFenceCap : Bool)
  | defineAlphaCursor (width height bytespp : ℕ)
  | beginVideoSetRegs (numItems : ℕ)
  | videoSetRegsInRange (minReg maxReg : ℕ)
  | videoSetRegsWithMask (regMask : ℕ)
  | videoSetReg
  | remapGMR2 (hasSuffix : Bool) (suffixSize : ℕ)
  | defineShader (bytecodeLen : ℕ)
  | setShaderConst (ctype : ℕ)

namespace Routine

/-- The argument that `BeginVideoSetRegs` passes on to `FIFOReserve`. -/
def videoBytes (numItems : ℕ) : ℕ := (fifoReserveEscape 0 (u64 (8 + u64 (numItems * 8))) []).bytes

/-- `sizeof *cmd + width * height * bytespp`, the product being of 32 bits. -/
def cursorBytes (width height bytespp : ℕ) : ℕ := 20 + u32 (u32 (width * height) * bytespp)

/-- The argument of `SVGADevice::FIFOReserve`, unless the helper returns before. -/
def reserve : Routine → Option ℕ
  | helper h => some (h.cmd.write []).bytes
  | reserveCmd type bytes => some (fifoReserveCmd type bytes []).bytes
  | reserveEscape nsid bytes => some (fifoReserveEscape nsid bytes []).bytes
  | insertFence hasFenceCap => if hasFenceCap then some 8 else none
  | defineAlphaCursor width height bytespp =>
    some (fifoReserveCmd 22 (cursorBytes width height bytespp) []).bytes
  | beginVideoSetRegs numItems => some (videoBytes numItems)
  | videoSetRegsInRange minReg maxReg =>
    if maxReg < minReg then none else some (videoBytes (u32 (sub32 maxReg minReg + 1)))
  | videoSetRegsWithMask regMask =>
    if regMask = 0 then none else some (videoBytes (countBits regMask))
  | videoSetReg => some (videoBytes 1)
  | remapGMR2 hasSuffix suffixSize =>
    if hasSuffix = false ∧ suffixSize ≠ 0 then none
    else some (fifoReserveCmd 42 (u64 (16 + suffixSize)) []).bytes
  | defineShader bytecodeLen =>
    if bytecodeLen % 4 ≠ 0 then none
    else some (fifoReserve3D 1059 (u64 (12 + bytecodeLen)) []).bytes
  | setShaderConst _ => some (fifoReserve3D 1062 32 []).bytes

end Routine

/-- `FIFOCommitAll`, or `FIFOCommit` of a number of bytes. -/
inductive Finish where
  | all
  | bytes (n : ℕ)

/-- The argument of `FIFOCommit`. -/
def Finish.argument (d : Dev) : Finish → ℕ
  | all => d.reservedSize
  | bytes n => n

/-- How a reservation that was granted ends. -/
def Routine.finish : Routine → Finish
  | defineAlphaCursor width height bytespp =>
    .bytes (u64 (4 + cursorBytes width height bytespp))
  -- a constant of an unknown type is given up
  | setShaderConst ctype => if ctype ≤ 2 then .all else .bytes 0
  | _ => .all

def Finish.Aligned : Finish → Prop
  | all => True
  | bytes n => n % 4 = 0

/-- A commit of a fixed size is of whole words where the reservation was. -/
theorem Routine.aligned_finish (c : Routine) {n : ℕ} (hn : c.reserve = some n) (h4 : n % 4 = 0) :
    c.finish.Aligned := by
  cases c with
  | defineAlphaCursor width height bytespp =>
    simp only [reserve, fifoReserveCmd, Option.some.injEq] at hn
    simp only [finish, Finish.Aligned, Nat.add_comm 4]
    rwa [hn]
  | setShaderConst ctype =>
    simp only [finish]
    split_ifs
    · trivial
    · exact Nat.zero_mod 4
  | _ => trivial

/-! ### Runs -/

/-- Between two commands, in the loop of `FIFOReserve`, or with a reservation to commit. -/
inductive Stage where
  | idle
  | reserving (f : Finish)
  | filling (f : Finish)

structure Session where
  world : World
  stage : Stage

namespace Session

/-- A helper up to its reservation: it may return early or be refused. -/
def call (s : Session) (c : Routine) : Session :=
  match c.reserve with
  | none => s
  | some n =>
    { world := (Act.reserve n).exec s.world
      stage := if s.world.dev.rejects n then .idle else .reserving c.finish }

/-- Sequences of commands, with the device at work. -/
inductive Reachable : Session → Prop
  | start {d₀ d : Dev} (h : d₀.fifoInit true = (true, d)) :
    Reachable ⟨⟨d, .idle, [], [], []⟩, .idle⟩
  | call {s : Session} (h : Reachable s) (c : Routine) (hstage : s.stage = .idle)
      (hpc : s.world.pc = .idle) : Reachable (s.call c)
  | retry {s : Session} (h : Reachable s) {f : Finish} (hstage : s.stage = .reserving f) :
      Reachable
        { world := Act.retry.exec s.world
          stage := if (Act.retry.exec s.world).pc = .idle then .filling f else .reserving f }
  | fill {s : Session} (h : Reachable s) {f : Finish} (hstage : s.stage = .filling f) {i v : ℕ}
      (hi : 4 * i < s.world.dev.reservedSize) :
      Reachable { s with world := (Act.fill i v).exec s.world }
  | commit {s : Session} (h : Reachable s) {f : Finish} (hstage : s.stage = .filling f) :
      Reachable ⟨(Act.commit (f.argument s.world.dev)).exec s.world, .idle⟩
  | store {s : Session} (h : Reachable s) (hl : Act.store.Legal s.world) :
      Reachable { s with world := Act.store.exec s.world }
  | consume {s : Session} (h : Reachable s) (hl : Act.consume.Legal s.world) :
      Reachable { s with world := Act.consume.exec s.world }

end Session

/-- What the reservation is at each stage. -/
def Stage.Holds (d : Dev) : Stage → Prop
  | idle => d.reservedSize = 0
  | reserving f => d.reservedSize % 4 = 0 ∧ f.Aligned
  | filling f => d.reservedSize % 4 = 0 ∧ f.Aligned

theorem Stage.Holds.congr {d d' : Dev} {t : Stage} (h : t.Holds d)
    (he : d'.reservedSize = d.reservedSize) : t.Holds d' := by
  cases t with
  | idle => exact he.trans h
  | _ => exact ⟨by rw [he]; exact h.1, h.2⟩

variable {s : Session} {w : World}

theorem retry_granted {n : ℕ} (hpc : w.pc = .reserving n) (hroom : w.dev.reservePass n ≠ .full) :
    (Act.retry.exec w).pc = .idle := by
  simp only [Act.exec, hpc, if_neg hroom]

theorem reservedSize_retry : (Act.retry.exec w).dev.reservedSize = w.dev.reservedSize := by
  simp only [Act.exec]
  split
  · exact w.dev.afterPass_reservedSize _ _
  · rfl

theorem reservedSize_fill {i v : ℕ} :
    ((Act.fill i v).exec w).dev.reservedSize = w.dev.reservedSize := by
  simp only [Act.exec, Dev.fill]
  split_ifs <;> rfl

theorem reservedSize_store : (Act.store.exec w).dev.reservedSize = w.dev.reservedSize := by
  simp only [Act.exec]
  split <;> rfl

/-- A commit of whole words ends the reservation. -/
theorem reservedSize_commit {n : ℕ} (hn : n % 4 = 0) :
    ((Act.commit n).exec w).dev.reservedSize = 0 := by
  simp only [Act.exec, hn, ne_eq, not_true_eq_false, false_or]
  split_ifs with h0
  · exact h0
  · rfl

theorem Session.call_granted {c : Routine} {n : ℕ} (hn : c.reserve = some n)
    (hrej : ¬ s.world.dev.rejects n) : s.call c =
      ⟨{ s.world with dev := { s.world.dev with reservedSize := n }, pc := .reserving n },
        .reserving c.finish⟩ := by
  simp only [call, hn, Act.exec, if_neg hrej]

theorem Session.holds_call (h : s.stage.Holds s.world.dev) (hstage : s.stage = .idle)
    (c : Routine) : (s.call c).stage.Holds (s.call c).world.dev := by
  cases hn : c.reserve with
  | none => simpa only [call, hn] using h
  | some n =>
    by_cases hrej : s.world.dev.rejects n
    · rw [hstage] at h
      simpa only [call, hn, Act.exec, if_pos hrej] using h
    · have h4 : n % 4 = 0 := by
        simp only [Dev.rejects, not_or, not_not] at hrej
        exact hrej.2.2.1
      rw [call_granted hn hrej]
      exact ⟨h4, c.aligned_finish hn h4⟩

theorem Session.Reachable.holds (h : s.Reachable) : s.stage.Holds s.world.dev := by
  induction h with
  | @start d₀ d h =>
    have hz : (d₀.fifoInit true).1 = true → (d₀.fifoInit true).2.reservedSize = 0 := by
      simp only [Dev.fifoInit, Bool.true_eq_false, if_false]
      split_ifs
      · rintro ⟨⟩
      · rintro ⟨⟩
      · exact fun _ => rfl
    rw [h] at hz
    exact hz rfl
  | call _ c hstage _ ih => exact holds_call ih hstage c
  | @retry s _ f hstage ih =>
    rw [hstage] at ih
    have hf : (Stage.filling f).Holds (Act.retry.exec s.world).dev :=
      ⟨by rw [reservedSize_retry]; exact ih.1, ih.2⟩
    dsimp only
    split_ifs
    · exact hf
    · exact hf
  | fill _ _ _ ih => exact ih.congr reservedSize_fill
  | @commit s _ f hstage ih =>
    rw [hstage] at ih
    refine reservedSize_commit ?_
    cases f with
    | all => exact ih.1
    | bytes n => exact ih.2
  | store _ _ ih => exact ih.congr reservedSize_store
  | consume _ _ ih => exact ih

/-- Between commands nothing is reserved, and `FIFOReserve` refuses a command for
its own size only. -/
theorem reservedSize_eq_zero (h : s.Reachable) (hstage : s.stage = .idle) :
    s.world.dev.reservedSize = 0 ∧ ∀ bytes, s.world.dev.rejects bytes ↔
      bounceBufferSize < bytes ∨
        sub32 (s.world.dev.fifo fifoMax) (s.world.dev.fifo fifoMin) < bytes ∨ bytes % 4 ≠ 0 := by
  have h0 : s.world.dev.reservedSize = 0 := by
    have := h.holds
    rwa [hstage] at this
  refine ⟨h0, fun bytes => ?_⟩
  simp [Dev.rejects, h0]

/-- A ring of sixteen words. -/
def roomyDev : Dev := { Fifo.smallDev with fifoSize := (fifoNumRegs + 16) * 4 }

/-- The session in which `SetShaderConst` of an unknown type has reserved. -/
def constantBegun : Session :=
  Session.call ⟨⟨(roomyDev.fifoInit true).2, .idle, [], [], []⟩, .idle⟩ (.setShaderConst 7)

/-- The same after its `FIFOCommit(0)`. -/
def badConstant : Session := ⟨(Act.commit 0).exec (Act.retry.exec constantBegun.world), .idle⟩

theorem reachable_badConstant : badConstant.Reachable := by
  have hinit : roomyDev.fifoInit true = (true, (roomyDev.fifoInit true).2) :=
    Prod.ext (by decide +kernel) rfl
  have hbegun : constantBegun =
      ⟨⟨{ (roomyDev.fifoInit true).2 with reservedSize := 40 }, .reserving 40, [], [], []⟩,
        .reserving (.bytes 0)⟩ :=
    Session.call_granted (n := 40) (by decide) (by decide +kernel)
  have hroom : (roomyDev.fifoInit true).2.reservePass 40 ≠ .full := by decide +kernel
  have hpc : (Act.retry.exec constantBegun.world).pc = .idle := by
    rw [hbegun]
    exact retry_granted rfl hroom
  have hstage : constantBegun.stage = .reserving (.bytes 0) := by rw [hbegun]
  have hcalled : constantBegun.Reachable :=
    (Session.Reachable.start hinit).call (.setShaderConst 7) rfl rfl
  have hfilled := hcalled.retry hstage
  rw [if_pos hpc] at hfilled
  exact hfilled.commit (f := .bytes 0) rfl

theorem reservedSize_badConstant : badConstant.world.dev.reservedSize = 0 :=
  (reservedSize_eq_zero reachable_badConstant rfl).1

end Cesvga2.Wire
