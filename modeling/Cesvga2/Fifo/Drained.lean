import Cesvga2.Fifo.Stream

/-! `FIFOReserve` on a FIFO that the device has emptied. The ring always keeps
one word free, so that a full ring and an empty one differ; the guards let a
request through that is as large as the whole ring, and such a request waits for
room that the device cannot make. -/

namespace Cesvga2.Fifo

variable {d : Dev} {next bytes : ℕ} {w : World}

/-- The device as `FIFOInit` sets it up, once all that was written before `next`
is consumed. -/
def Dev.drained (d : Dev) (next : ℕ) : Dev :=
  ((d.fifoInit true).2.write fifoNextCmd next).write fifoStop next

theorem Dev.drained_regs (d : Dev) (next : ℕ) :
    (d.drained next).fifo fifoMin = fifoNumRegs * 4 ∧
    (d.drained next).fifo fifoMax = d.fifoSize ∧
    (d.drained next).fifo fifoNextCmd = next ∧ (d.drained next).fifo fifoStop = next := by
  have hregs := d.fifoInit_regs
  have hsize : (d.fifoInit true).2.fifoSize = d.fifoSize := by
    simp only [Dev.fifoInit, Bool.true_eq_false, if_false]
    split_ifs <;> rfl
  exact ⟨hregs.1, hregs.2.1.trans hsize, rfl, rfl⟩

/-- The first pass finds no room exactly for the size of the ring. -/
theorem Dev.reservePass_drained (hsize : d.fifoSize < 2 ^ 32) (hmin : fifoNumRegs * 4 ≤ next)
    (hmax : next < d.fifoSize) (hb : ¬ (d.drained next).rejects bytes) :
    (d.drained next).reservePass bytes = .full ↔ bytes = d.fifoSize - fifoNumRegs * 4 := by
  obtain ⟨h1, h2, h3, h4⟩ := d.drained_regs next
  have hring : sub32 d.fifoSize (fifoNumRegs * 4) = d.fifoSize - fifoNumRegs * 4 :=
    sub32_of_le (by omega) hsize
  have hroom : u32 (sub32 d.fifoSize next + sub32 next (fifoNumRegs * 4)) =
      d.fifoSize - fifoNumRegs * 4 := by
    rw [sub32_of_le hmax.le hsize, sub32_of_le hmin (by omega), u32_of_lt (by omega)]
    omega
  have hle : bytes ≤ d.fifoSize - fifoNumRegs * 4 := by
    simp only [rejects, h1, h2, hring, not_or, not_lt] at hb
    exact hb.2.1
  simp only [reservePass, h1, h2, h3, h4, hroom, le_refl, if_true]
  split_ifs with hfit hcap hfull
  · exact ⟨by rintro ⟨⟩, fun _ => by omega⟩
  · exact ⟨by rintro ⟨⟩, fun _ => by omega⟩
  · exact ⟨fun _ => by omega, fun _ => rfl⟩
  · exact ⟨by rintro ⟨⟩, fun _ => by omega⟩

/-- `FIFOReserve` through its first pass. -/
def World.reserveOnce (w : World) (bytes : ℕ) : World :=
  Act.retry.exec ((Act.reserve bytes).exec w)

theorem reserveOnce_eq (hb : ¬ w.dev.rejects bytes) : w.reserveOnce bytes =
    { w with
      dev := ({ w.dev with reservedSize := bytes } : Dev).afterPass bytes (w.dev.reservePass bytes)
      pc := if w.dev.reservePass bytes = .full then .reserving bytes else .idle } := by
  rw [World.reserveOnce, Act.exec, if_neg hb]
  rfl

/-- With nothing unread, a request that passes the guards is granted at once
unless it is for the whole ring. -/
theorem reserve_drained_iff (hsize : d.fifoSize < 2 ^ 32) (hmin : fifoNumRegs * 4 ≤ next)
    (hmax : next < d.fifoSize) (hw : w.dev = d.drained next)
    (hb : ¬ w.dev.rejects bytes) :
    (w.reserveOnce bytes).pc = .idle ↔ bytes ≠ d.fifoSize - fifoNumRegs * 4 := by
  rw [reserveOnce_eq hb, hw, ← not_iff_not, ne_eq, not_not,
    ← Dev.reservePass_drained hsize hmin hmax (hw ▸ hb)]
  by_cases hfull : (d.drained next).reservePass bytes = .full
  · simp [hfull]
  · simp [hfull]

/-- A ring of four words and a request for all four. -/
theorem not_reserve_drained :
    ¬ (smallDev.drained (fifoNumRegs * 4)).rejects 16 ∧
    (World.reserveOnce ⟨smallDev.drained (fifoNumRegs * 4), .idle, [], [], []⟩ 16).pc =
      .reserving 16 := by
  decide +kernel

theorem reserve_drained_smallDev :
    (World.reserveOnce ⟨smallDev.drained (fifoNumRegs * 4 + 8), .idle, [], [], []⟩ 12).pc =
      .idle := by
  have hw : (⟨smallDev.drained (fifoNumRegs * 4 + 8), .idle, [], [], []⟩ : World).dev =
      smallDev.drained (fifoNumRegs * 4 + 8) := rfl
  exact (reserve_drained_iff (by decide) (by decide) (by decide) hw (by decide +kernel)).mpr
    (by decide)

end Cesvga2.Fifo
