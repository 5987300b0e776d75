import Mathlib.Data.Nat.Bitwise
import Mathlib.Tactic

/-! Bitmaps kept in words of `w` bits, and the lowest bit of a word that is clear. -/

namespace Cesvga2.Bits

section Word

variable {w : ℕ} {x : BitVec w}

/-- The lowest clear bit of a word. -/
structure Lowest (x : BitVec w) (i : ℕ) : Prop where
  lt : i < w
  clear : x.getLsbD i = false
  below : ∀ j < i, x.getLsbD j = true

theorem exists_lowest (h : x ≠ BitVec.allOnes w) : ∃ i, Lowest x i := by
  have hclear : ∃ i, i < w ∧ x.getLsbD i = false := by
    by_contra hall
    push Not at hall
    refine h (BitVec.eq_of_getLsbD_eq fun i hi => ?_)
    rw [BitVec.getLsbD_allOnes, decide_eq_true hi]
    simpa using hall i hi
  refine ⟨Nat.find hclear, (Nat.find_spec hclear).1, (Nat.find_spec hclear).2, fun j hj => ?_⟩
  have hlt := hj.trans (Nat.find_spec hclear).1
  simpa [hlt] using Nat.find_min hclear hj

/-- The word is a block of ones below its lowest clear bit. -/
theorem Lowest.toNat_eq {i : ℕ} (h : Lowest x i) :
    x.toNat = 2 ^ (i + 1) * (x.toNat / 2 ^ (i + 1)) + (2 ^ i - 1) := by
  have hlow : x.toNat % 2 ^ (i + 1) = 2 ^ i - 1 := by
    refine Nat.eq_of_testBit_eq fun j => ?_
    rw [Nat.testBit_mod_two_pow, Nat.testBit_two_pow_sub_one]
    rcases Nat.lt_trichotomy j i with hlt | rfl | hgt
    · have := h.below j hlt
      rw [BitVec.getLsbD] at this
      simp [this, hlt, hlt.trans (Nat.lt_succ_self i)]
    · have := h.clear
      rw [BitVec.getLsbD] at this
      simp [this]
    · simp [Nat.not_lt.mpr hgt, Nat.not_lt.mpr hgt.le]
  rw [← hlow, Nat.div_add_mod]

theorem Lowest.testBit_succ {i : ℕ} (h : Lowest x i) (j : ℕ) :
    (x.toNat + 1).testBit j = if j < i then false else if j = i then true else x.getLsbD j := by
  have hsum : x.toNat + 1 = 2 ^ (i + 1) * (x.toNat / 2 ^ (i + 1)) + 2 ^ i := by
    have := h.toNat_eq
    have := Nat.one_le_two_pow (n := i)
    omega
  have hpow : 2 ^ i < 2 ^ (i + 1) := Nat.pow_lt_pow_right one_lt_two (Nat.lt_succ_self i)
  rw [hsum, Nat.testBit_two_pow_mul_add _ hpow, Nat.testBit_two_pow, BitVec.getLsbD]
  split_ifs with hj hlt heq heq
  · simp
    omega
  · simp [heq]
  · omega
  · omega
  · omega
  · rw [h.toNat_eq, Nat.testBit_two_pow_mul_add _ (by omega), if_neg hj,
      ← h.toNat_eq]

/-- `~x & (x + 1)` is that bit. -/
theorem Lowest.isolate {i : ℕ} (h : Lowest x i) : ~~~x &&& (x + 1#w) = BitVec.twoPow w i := by
  refine BitVec.eq_of_getLsbD_eq fun j hj => ?_
  have hw : 0 < w := by omega
  have hone : (1#w).toNat = 1 := BitVec.toNat_one hw
  have hsucc : (x + 1#w).getLsbD j = (x.toNat + 1).testBit j := by
    rw [BitVec.getLsbD, BitVec.toNat_add, hone, Nat.testBit_mod_two_pow, decide_eq_true hj,
      Bool.true_and]
  rw [BitVec.getLsbD_and, BitVec.getLsbD_not, hsucc, h.testBit_succ, BitVec.getLsbD_twoPow,
    decide_eq_true hj, decide_eq_true h.lt, Bool.true_and, Bool.true_and]
  rcases Nat.lt_trichotomy j i with hlt | rfl | hgt
  · simp [hlt, hlt.ne']
  · simp [h.clear]
  · rw [if_neg (by omega), if_neg (by omega), decide_eq_false (by omega), Bool.not_and_self]

theorem isolate_allOnes : ~~~(BitVec.allOnes w) &&& (BitVec.allOnes w + 1#w) = 0 := by
  simp

theorem twoPow_ne_zero {i : ℕ} (h : i < w) : BitVec.twoPow w i ≠ 0 := by
  intro heq
  have := congrArg (BitVec.getLsbD · i) heq
  simp [h] at this

end Word

/-! ### Bitmaps -/

variable {w : ℕ} {m : ℕ → BitVec w} {i j k : ℕ}

/-- Bit `i` of the words `m`. -/
def bit (m : ℕ → BitVec w) (i : ℕ) : Bool := (m (i / w)).getLsbD (i % w)

def setBit (m : ℕ → BitVec w) (i : ℕ) : ℕ → BitVec w :=
  Function.update m (i / w) (m (i / w) ||| BitVec.twoPow w (i % w))

def clearBit (m : ℕ → BitVec w) (i : ℕ) : ℕ → BitVec w :=
  Function.update m (i / w) (m (i / w) &&& ~~~BitVec.twoPow w (i % w))

theorem eq_iff_div_mod : i = j ↔ i / w = j / w ∧ i % w = j % w := by
  constructor
  · rintro rfl
    exact ⟨rfl, rfl⟩
  · rintro ⟨hdiv, hmod⟩
    rw [← Nat.div_add_mod i w, ← Nat.div_add_mod j w, hdiv, hmod]

theorem bit_setBit (hw : 0 < w) : bit (setBit m i) j = (bit m j || decide (i = j)) := by
  have hlt := Nat.mod_lt i hw
  unfold bit setBit
  by_cases hdiv : j / w = i / w
  · rw [hdiv, Function.update_self, BitVec.getLsbD_or, BitVec.getLsbD_twoPow, decide_eq_true hlt,
      Bool.true_and]
    simp only [eq_iff_div_mod (w := w) (i := i), hdiv, true_and]
  · have hne : i ≠ j := by
      rintro rfl
      exact hdiv rfl
    rw [Function.update_of_ne hdiv, decide_eq_false hne, Bool.or_false]

theorem bit_clearBit (hw : 0 < w) : bit (clearBit m i) j = (bit m j && !decide (i = j)) := by
  have hi := Nat.mod_lt i hw
  have hj := Nat.mod_lt j hw
  unfold bit clearBit
  by_cases hdiv : j / w = i / w
  · rw [hdiv, Function.update_self, BitVec.getLsbD_and, BitVec.getLsbD_not,
      BitVec.getLsbD_twoPow, decide_eq_true hi, decide_eq_true hj, Bool.true_and, Bool.true_and]
    simp only [eq_iff_div_mod (w := w) (i := i), hdiv, true_and]
  · have hne : i ≠ j := by
      rintro rfl
      exact hdiv rfl
    rw [Function.update_of_ne hdiv, decide_eq_false hne, Bool.not_false, Bool.and_true]

/-- A word is full when its bits are set. -/
theorem eq_allOnes_iff (hw : 0 < w) :
    m k = BitVec.allOnes w ↔ ∀ i, i / w = k → bit m i = true := by
  constructor
  · rintro h i rfl
    rw [bit, h, BitVec.getLsbD_allOnes]
    exact decide_eq_true (Nat.mod_lt i hw)
  · intro h
    refine BitVec.eq_of_getLsbD_eq fun i hi => ?_
    have hdiv : (w * k + i) / w = k := by
      rw [Nat.mul_add_div hw, Nat.div_eq_of_lt hi, Nat.add_zero]
    have hbit := h (w * k + i) hdiv
    rw [bit, hdiv, Nat.mul_add_mod, Nat.mod_eq_of_lt hi] at hbit
    rw [hbit, BitVec.getLsbD_allOnes, decide_eq_true hi]

end Cesvga2.Bits
