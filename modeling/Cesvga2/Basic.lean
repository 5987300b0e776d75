import Mathlib.Tactic

/-! What every part of the driver shares: the IOKit return codes it hands out,
the arithmetic of its unsigned fields and the ids of host objects. -/

namespace Cesvga2

/-- The `kIOReturn…` codes of the modelled functions. -/
inductive IOReturn where
  | success
  | error
  | badArgument
  | badMedia
  | internalError
  | noMemory
  | noResources
  | notAligned
  | unsupported
  | notReady
  | cannotLock
  | noSpace
  | overrun
  | dmaError
  | notPermitted
  | noDevice
  | notWritable
  deriving DecidableEq, Repr

/-- The value a `uint32_t` keeps of `n`. -/
def u32 (n : ℕ) : ℕ := n % 2 ^ 32

theorem u32_of_lt {n : ℕ} (h : n < 2 ^ 32) : u32 n = n := Nat.mod_eq_of_lt h

theorem u32_lt (n : ℕ) : u32 n < 2 ^ 32 := Nat.mod_lt _ (by norm_num)

/-- A `uint32_t` difference; it wraps when `m` is the larger. -/
def sub32 (n m : ℕ) : ℕ := u32 (n + 2 ^ 32 - m)

theorem sub32_of_le {n m : ℕ} (hm : m ≤ n) (hn : n < 2 ^ 32) : sub32 n m = n - m := by
  simp only [sub32, u32]
  omega

/-- A signed integer as a `uint32_t`. -/
def ofInt32 (z : ℤ) : ℕ := (z % 2 ^ 32).toNat

theorem ofInt32_of_nonneg {z : ℤ} (h0 : 0 ≤ z) (hz : z < 2 ^ 32) : (ofInt32 z : ℤ) = z := by
  rw [ofInt32, Int.emod_eq_of_lt h0 hz, Int.toNat_of_nonneg h0]

/-- The value an `int` keeps of `z`. -/
def int32 (z : ℤ) : ℤ := z.bmod (2 ^ 32)

theorem int32_bounds (z : ℤ) : -2 ^ 31 ≤ int32 z ∧ int32 z < 2 ^ 31 := by
  simp only [int32, Int.bmod_def]
  split_ifs <;> omega

theorem int32_of_bounds {z : ℤ} (hl : -2 ^ 31 ≤ z) (hu : z < 2 ^ 31) : int32 z = z := by
  simp only [int32, Int.bmod_def]
  split_ifs <;> omega

/-- The value a 64-bit `size_t` keeps of `n`. -/
def u64 (n : ℕ) : ℕ := n % 2 ^ 64

theorem u64_of_lt {n : ℕ} (h : n < 2 ^ 64) : u64 n = n := Nat.mod_eq_of_lt h

/-- A `size_t` difference. -/
def sub64 (n m : ℕ) : ℕ := u64 (n + 2 ^ 64 - m)

theorem sub64_of_le {n m : ℕ} (hm : m ≤ n) (hn : n < 2 ^ 64) : sub64 n m = n - m := by
  simp only [sub64, u64]
  omega

/-- A signed integer as a `size_t`. -/
def ofInt64 (z : ℤ) : ℕ := (z % 2 ^ 64).toNat

/-- `SVGA_ID_INVALID`. -/
def idInvalid : ℕ := 0xFFFFFFFF

/-- `isIdValid`: the id is not negative as an `int`. -/
def isIdValid (id : ℕ) : Bool := id < 2 ^ 31

theorem isIdValid_idInvalid : isIdValid idInvalid = false := by decide

theorem not_isIdValid_idInvalid : ¬ isIdValid idInvalid := by decide

/-- The width of `size_t` and of pointers. -/
inductive SizeT where
  | bits32
  | bits64
  deriving DecidableEq, Repr

def SizeT.bits : SizeT → ℕ
  | .bits32 => 32
  | .bits64 => 64

end Cesvga2
