import Cesvga2.Fifo.Device
import Cesvga2.Rings.Window

/-! The ring of the FIFO. Seen from `FIFOInit` on, the device has consumed some words
and `NEXT_CMD` has passed some more; the ring holds the ones between, at their
absolute positions modulo the number of ring words. What `FIFOReserve` grants is
free room in it. -/

namespace Cesvga2.Fifo

open Rings

/-- The ring has `N` words, `h` words are consumed, `unread` lies between `STOP` and
`NEXT_CMD`, and `ahead` is stored after it. -/
structure Laid (d : Dev) (N h : ℕ) (unread ahead : List ℕ) : Prop where
  pos : 0 < N
  aperture : 4 * (fifoNumRegs + N) + bounceBufferSize ≤ 2 ^ 32
  min_eq : d.fifo fifoMin = 4 * fifoNumRegs
  max_eq : d.fifo fifoMax = 4 * (fifoNumRegs + N)
  stop_eq : d.fifo fifoStop = 4 * (fifoNumRegs + h % N)
  next_eq : d.fifo fifoNextCmd = 4 * (fifoNumRegs + (h + unread.length) % N)
  holds : Holds N (fun j => d.fifo (fifoNumRegs + j)) h (unread ++ ahead)

variable {d : Dev} {N h bytes i v : ℕ} {unread ahead p : List ℕ} {w : World}

theorem Dev.write_fifo (d : Dev) (i v : ℕ) : (d.write i v).fifo = Function.update d.fifo i v := rfl

theorem write_ring (f : ℕ → ℕ) (i v : ℕ) :
    (fun j => Function.update f (fifoNumRegs + i) v (fifoNumRegs + j)) =
      Function.update (fun j => f (fifoNumRegs + j)) i v := by
  funext j
  simp only [Function.update_apply, Nat.add_left_cancel_iff]

theorem write_reg (f : ℕ → ℕ) (hi : i < fifoNumRegs) :
    (fun j => Function.update f i v (fifoNumRegs + j)) = fun j => f (fifoNumRegs + j) := by
  funext j
  exact Function.update_of_ne (by omega) _ _

namespace Laid

theorem of_fifo_eq {d' : Dev} (hL : Laid d N h unread ahead) (he : d'.fifo = d.fifo) :
    Laid d' N h unread ahead := by
  constructor
  · exact hL.pos
  · exact hL.aperture
  · rw [he, hL.min_eq]
  · rw [he, hL.max_eq]
  · rw [he, hL.stop_eq]
  · rw [he, hL.next_eq]
  · rw [he]
    exact hL.holds

/-- A store to a register other than `MIN`, `MAX`, `STOP` and `NEXT_CMD`. -/
theorem write_reserved (hL : Laid d N h unread ahead) :
    Laid (d.write fifoReserved v) N h unread ahead := by
  constructor
  · exact hL.pos
  · exact hL.aperture
  · exact hL.min_eq
  · exact hL.max_eq
  · exact hL.stop_eq
  · exact hL.next_eq
  · rw [Dev.write_fifo, write_reg _ (by decide)]
    exact hL.holds

/-- A store to the ring moves no register. -/
theorem write_slot (hL : Laid d N h unread ahead) {ahead' : List ℕ}
    (hh : Holds N (Function.update (fun j => d.fifo (fifoNumRegs + j)) i v) h (unread ++ ahead')) :
    Laid (d.write (fifoNumRegs + i) v) N h unread ahead' := by
  constructor
  · exact hL.pos
  · exact hL.aperture
  · rw [Dev.write_fifo, Function.update_of_ne (by simp only [fifoMin, fifoNumRegs]; omega),
      hL.min_eq]
  · rw [Dev.write_fifo, Function.update_of_ne (by simp only [fifoMax, fifoNumRegs]; omega),
      hL.max_eq]
  · rw [Dev.write_fifo, Function.update_of_ne (by simp only [fifoStop, fifoNumRegs]; omega),
      hL.stop_eq]
  · rw [Dev.write_fifo, Function.update_of_ne (by simp only [fifoNextCmd, fifoNumRegs]; omega),
      hL.next_eq]
  · rw [Dev.write_fifo, write_ring]
    exact hh

/-- A store right after the words ahead. -/
theorem put (hL : Laid d N h unread ahead) (hN : unread.length + ahead.length < N) :
    Laid (d.write (fifoNumRegs + (h + unread.length + ahead.length) % N) v) N h unread
      (ahead ++ [v]) := by
  apply hL.write_slot
  have hs := hL.holds.snoc (x := v) (by simpa using hN)
  rwa [List.append_assoc, List.length_append, ← Nat.add_assoc] at hs

/-- A store somewhere in the free room. -/
theorem fill {k : ℕ} (hL : Laid d N h unread []) (hk : unread.length ≤ k) (hN : k < N) :
    Laid (d.write (fifoNumRegs + (h + k) % N) v) N h unread [] := by
  apply hL.write_slot
  exact hL.holds.update (by simpa using hk) (by omega)

/-- Word `i` of a reservation granted in place. -/
theorem slot_inPlace {k : ℕ} (hL : Laid d N h unread ahead)
    (hk : (h + unread.length) % N + k ≤ N) (hi : i < k) :
    d.fifo fifoNextCmd / 4 + i = fifoNumRegs + (h + (unread.length + i)) % N := by
  have := Nat.mod_lt (h + unread.length) hL.pos
  rw [hL.next_eq, Nat.mul_div_cancel_left _ (by norm_num), ← Nat.add_assoc h,
    add_mod_of_le (p := h + unread.length) (n := i) (by omega) hL.pos, if_pos (by omega),
    Nat.add_assoc]

/-- A store to `NEXT_CMD` hands the words it passes to the device. -/
theorem publish (hL : Laid d N h unread (p ++ ahead)) :
    Laid (d.write fifoNextCmd (4 * (fifoNumRegs + (h + unread.length + p.length) % N))) N h
      (unread ++ p) ahead := by
  constructor
  · exact hL.pos
  · exact hL.aperture
  · exact hL.min_eq
  · exact hL.max_eq
  · exact hL.stop_eq
  · rw [Dev.write_fifo, Function.update_self, List.length_append, Nat.add_assoc h]
  · rw [List.append_assoc, Dev.write_fifo, write_reg _ (by decide)]
    exact hL.holds

theorem stop_word (hL : Laid d N h (v :: unread) ahead) : d.fifo (d.fifo fifoStop / 4) = v := by
  rw [hL.stop_eq, Nat.mul_div_cancel_left _ (by norm_num)]
  exact hL.holds.head

/-- The device takes one word. -/
theorem consume (hL : Laid d N h (v :: unread) ahead) :
    Laid (d.write fifoStop (if d.fifo fifoStop + 4 = d.fifo fifoMax then d.fifo fifoMin
      else d.fifo fifoStop + 4)) N (h + 1) unread ahead := by
  constructor
  · exact hL.pos
  · exact hL.aperture
  · exact hL.min_eq
  · exact hL.max_eq
  · rw [Dev.write_fifo, Function.update_self, hL.stop_eq, hL.max_eq, hL.min_eq, succ_mod hL.pos]
    split_ifs <;> omega
  · show d.fifo fifoNextCmd = _
    rw [hL.next_eq, List.length_cons, Nat.add_assoc, Nat.add_comm 1]
  · rw [Dev.write_fifo, write_reg _ (by decide)]
    exact hL.holds.tail

theorem past_lt (hL : Laid d N h unread ahead) : 4 * (fifoNumRegs + N) < 2 ^ 32 := by
  have := hL.aperture
  simp only [bounceBufferSize] at this
  omega

/-- The position of `NEXT_CMD` relative to `STOP`. -/
theorem next_mod (hL : Laid d N h unread ahead) (hN : unread.length < N) :
    (h + unread.length) % N = if h % N + unread.length < N then h % N + unread.length
      else h % N + unread.length - N :=
  add_mod_of_le hN.le hL.pos

theorem next_eq_stop_iff (hL : Laid d N h unread ahead) (hN : unread.length < N) :
    d.fifo fifoNextCmd = d.fifo fifoStop ↔ unread = [] := by
  rw [hL.next_eq, hL.stop_eq, ← List.length_eq_zero_iff, hL.next_mod hN]
  have := Nat.mod_lt h hL.pos
  split_ifs <;> omega

end Laid

/-- The unread words are those of the window between `STOP` and `NEXT_CMD`. -/
theorem World.Unread.position (hu : w.Unread i) (hL : Laid w.dev N h unread ahead)
    (hN : unread.length < N) : ∃ j < unread.length, i = fifoNumRegs + (h + j) % N := by
  have hs := Nat.mod_lt h hL.pos
  have hn := hL.next_mod hN
  simp only [World.Unread, hL.stop_eq, hL.next_eq, hL.max_eq, hL.min_eq,
    Nat.mul_div_cancel_left _ (show 0 < 4 by norm_num)] at hu
  have hj : ∀ j < unread.length, (h + j) % N = if h % N + j < N then h % N + j
      else h % N + j - N := fun j hj => add_mod_of_le (by omega) hL.pos
  split_ifs at hu with hle
  · refine ⟨i - (fifoNumRegs + h % N), ?_, ?_⟩
    · split_ifs at hn <;> omega
    · rw [hj _ (by split_ifs at hn <;> omega)]
      split_ifs at hn ⊢ <;> omega
  · obtain hu | hu := hu
    · refine ⟨i - (fifoNumRegs + h % N), ?_, ?_⟩
      · split_ifs at hn <;> omega
      · rw [hj _ (by split_ifs at hn <;> omega)]
        split_ifs at hn ⊢ <;> omega
    · refine ⟨i + N - (fifoNumRegs + h % N), ?_, ?_⟩
      · split_ifs at hn <;> omega
      · rw [hj _ (by split_ifs at hn <;> omega)]
        split_ifs at hn ⊢ <;> omega

/-! ### Reserving finds room -/

/-- With `n` of the `N` words unread and `NEXT_CMD` at word `x`, there is room for `k`
words: somewhere, and in one piece where they are granted in place. -/
def Dev.Grant.Fits (N n x k : ℕ) : Dev.Grant → Prop
  | .full => True
  | .inPlace => n + k < N ∧ x + k ≤ N
  | .bounce => n + k < N

theorem Dev.reservePass_fits (hL : Laid d N h unread []) (hN : unread.length < N) {k : ℕ} :
    (d.reservePass (4 * k)).Fits N unread.length ((h + unread.length) % N) k := by
  have hs := Nat.mod_lt h hL.pos
  have hx := Nat.mod_lt (h + unread.length) hL.pos
  have hn := hL.next_mod hN
  have hlt := hL.past_lt
  have hmax : sub32 (4 * (fifoNumRegs + N)) (4 * (fifoNumRegs + (h + unread.length) % N)) =
      4 * (N - (h + unread.length) % N) := by
    rw [sub32_of_le (by omega) (by omega)]
    omega
  have hmin : sub32 (4 * (fifoNumRegs + h % N)) (4 * fifoNumRegs) = 4 * (h % N) := by
    rw [sub32_of_le (by omega) (by omega)]
    omega
  simp only [reservePass, hL.stop_eq, hL.next_eq, hL.max_eq, hL.min_eq, hmax, hmin]
  generalize (h + unread.length) % N = x at *
  by_cases hle : h % N ≤ x
  · -- `NEXT_CMD` has not wrapped: the free room is split by the end of the ring
    have hx' : x = h % N + unread.length := by split_ifs at hn <;> omega
    rw [if_pos (by omega), u32_of_lt (by omega)]
    split_ifs <;> simp only [Grant.Fits] <;> omega
  · have hx' : x + N = h % N + unread.length := by split_ifs at hn <;> omega
    rw [if_neg (by omega)]
    split_ifs <;> simp only [Grant.Fits] <;> omega

theorem Laid.afterPass (hL : Laid d N h unread ahead) (g : Dev.Grant) :
    Laid (d.afterPass bytes g) N h unread ahead := by
  cases g with
  | full => exact hL
  | inPlace =>
    simp only [Dev.afterPass]
    split_ifs
    · apply Laid.write_reserved
      exact hL.of_fifo_eq rfl
    · exact hL.of_fifo_eq rfl
  | bounce => exact hL.of_fifo_eq rfl

end Cesvga2.Fifo
