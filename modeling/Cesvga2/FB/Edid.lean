import Cesvga2.Basic
import Mathlib

/-! The EDID that `start` copies from a property, and the blocks of it that `getDDCBlock` serves.
The check of a block number is made on its product with 128, which wraps at 32 bits: from 2^25 on
the numbers of the blocks come round again. -/

namespace Cesvga2.FB

/-- `m_edid_size` and the buffer `m_edid`. -/
structure Edid where
  size : ℕ
  bytes : Option (List UInt8)
  deriving DecidableEq, Repr

/-- No buffer, as before `start`. -/
def Edid.absent : Edid := ⟨0, none⟩

/-- The part of `start` that looks for the property `EDID`; `malloc` tells whether `IOMalloc` finds
memory. -/
def setupEdid (property : Option (List UInt8)) (malloc : Bool) : Edid :=
  match property with
  | none => .absent
  | some edid =>
    let maxW := edid.length
    if maxW ≠ 0 ∧ maxW ≤ 256 then
      let size := (maxW + 127) &&& 0xFFFFFF80
      if malloc then ⟨size, some (edid ++ List.replicate (size - maxW) 0)⟩ else ⟨0, none⟩
    else .absent

def oneBlock : ℕ := 128

inductive BlockType where
  | edid
  | other (n : ℕ)
  deriving DecidableEq, Repr

/-- What `getDDCBlock` is asked for: `data` tells that the pointer is not null, `length` is what a
pointer that is not null points to. -/
structure DDCRequest where
  connectIndex : ℤ
  blockNumber : UInt32
  blockType : BlockType
  data : Bool
  length : Option ℕ
  deriving DecidableEq, Repr

/-- `getDDCBlock`: the place in the buffer that `oneBlock` bytes are copied from, or none where the
request is left to the superclass. -/
def Edid.getDDCBlock (e : Edid) (q : DDCRequest) : Option ℕ :=
  if q.connectIndex = 0 ∧ e.bytes.isSome ∧ q.blockNumber ≠ 0 ∧
      u32 (q.blockNumber.toNat * oneBlock) ≤ e.size ∧ q.blockType = .edid ∧ q.data ∧
      ∃ n ∈ q.length, oneBlock ≤ n then
    some (u32 (sub32 q.blockNumber.toNat 1 * oneBlock))
  else none

/-- A request for a block of the EDID with room for it. -/
structure DDCRequest.Sufficient (q : DDCRequest) : Prop where
  connectIndex : q.connectIndex = 0
  blockType : q.blockType = .edid
  data : q.data
  length : ∃ n ∈ q.length, oneBlock ≤ n

/-- Of this block number only bytes of the buffer are copied, and sufficient requests are served
exactly for the blocks that there are. -/
structure Edid.Serves (e : Edid) (blockNumber : UInt32) : Prop where
  within : ∀ q, q.blockNumber = blockNumber → ∀ first ∈ e.getDDCBlock q,
    ∃ bytes ∈ e.bytes, first + oneBlock ≤ bytes.length
  exact : ∀ q, q.blockNumber = blockNumber → q.Sufficient →
    ((e.getDDCBlock q).isSome ↔ 1 ≤ blockNumber.toNat ∧ blockNumber.toNat ≤ e.size / oneBlock)

/-! ### What `start` leaves behind -/

/-- No buffer, or one of one or two blocks. -/
inductive Edid.Started : Edid → Prop
  | absent : Started .absent
  | present (bytes : List UInt8) (h : bytes.length = 128 ∨ bytes.length = 256) :
    Started ⟨bytes.length, some bytes⟩

/-- The size is the length in whole blocks. -/
theorem mask_size : ∀ n ≤ 256, n ≠ 0 →
    n ≤ (n + 127) &&& 0xFFFFFF80 ∧
      ((n + 127) &&& 0xFFFFFF80 = 128 ∨ (n + 127) &&& 0xFFFFFF80 = 256) := by
  decide +kernel

theorem started_setupEdid (property : Option (List UInt8)) (malloc : Bool) :
    (setupEdid property malloc).Started := by
  cases property with
  | none => exact .absent
  | some edid =>
    dsimp only [setupEdid]
    split_ifs with hlen hmalloc
    · obtain ⟨hle, hsize⟩ := mask_size edid.length hlen.2 hlen.1
      generalize (edid.length + 127) &&& 0xFFFFFF80 = size at hle hsize
      have hbytes : (edid ++ List.replicate (size - edid.length) 0).length = size := by
        rw [List.length_append, List.length_replicate]
        omega
      rw [← hbytes] at hsize
      have hstarted := Edid.Started.present _ hsize
      rwa [hbytes] at hstarted
    · exact .absent
    · exact .absent

/-! ### The blocks that are served -/

variable {e : Edid} {blockNumber : UInt32} {q : DDCRequest}

theorem u32_mul_oneBlock (n : ℕ) : u32 (n * oneBlock) = n % 2 ^ 25 * oneBlock := by
  unfold u32 oneBlock
  omega

theorem Edid.getDDCBlock_eq (e : Edid) (q : DDCRequest) (first : ℕ) :
    e.getDDCBlock q = some first ↔ (q.connectIndex = 0 ∧ e.bytes.isSome ∧ q.blockNumber ≠ 0 ∧
      q.blockNumber.toNat % 2 ^ 25 * oneBlock ≤ e.size ∧ q.blockType = .edid ∧ q.data ∧
      ∃ n ∈ q.length, oneBlock ≤ n) ∧ first = sub32 q.blockNumber.toNat 1 % 2 ^ 25 * oneBlock := by
  unfold Edid.getDDCBlock
  rw [u32_mul_oneBlock, u32_mul_oneBlock]
  split_ifs with h
  · rw [and_iff_right h, Option.some.injEq, eq_comm]
  · exact ⟨nofun, fun h' => absurd h'.1 h⟩

theorem DDCRequest.Sufficient.isSome_iff (hq : q.Sufficient) :
    (e.getDDCBlock q).isSome ↔ e.bytes.isSome ∧ q.blockNumber ≠ 0 ∧
      q.blockNumber.toNat % 2 ^ 25 * oneBlock ≤ e.size := by
  rw [Option.isSome_iff_exists]
  simp only [Edid.getDDCBlock_eq, exists_and_left, exists_eq, and_true]
  constructor
  · rintro ⟨-, hbytes, hzero, hsize, -⟩
    exact ⟨hbytes, hzero, hsize⟩
  · rintro ⟨hbytes, hzero, hsize⟩
    exact ⟨hq.connectIndex, hbytes, hzero, hsize, hq.blockType, hq.data, hq.length⟩

/-- Without a buffer every request is left to the superclass. -/
theorem serves_absent (blockNumber : UInt32) : Edid.absent.Serves blockNumber := by
  constructor
  · intro q hq first hfirst
    exact absurd ((Edid.getDDCBlock_eq _ q first).mp hfirst).1.2.1 Bool.false_ne_true
  · rintro q rfl hq
    rw [hq.isSome_iff]
    refine ⟨fun h => absurd h.1 Bool.false_ne_true, fun h => ?_⟩
    have hsize : Edid.absent.size / oneBlock = 0 := rfl
    omega

theorem toNat_ne_zero_iff (n : UInt32) : n ≠ 0 ↔ 1 ≤ n.toNat := by
  rw [Ne, ← UInt32.toNat_inj, UInt32.toNat_zero]
  omega

/-- The block numbers that the product does not confuse. -/
theorem serves_present_iff {bytes : List UInt8} (h : bytes.length = 128 ∨ bytes.length = 256)
    (blockNumber : UInt32) :
    Edid.Serves ⟨bytes.length, some bytes⟩ blockNumber ↔
      blockNumber.toNat < 2 ^ 25 ∨ bytes.length / oneBlock < blockNumber.toNat % 2 ^ 25 := by
  constructor
  · intro hs
    -- A request that nothing but its number can refuse.
    let q : DDCRequest := ⟨0, blockNumber, .edid, true, some oneBlock⟩
    have hq : q.Sufficient := ⟨rfl, rfl, rfl, oneBlock, rfl, le_rfl⟩
    have hexact := hs.exact q rfl hq
    rw [hq.isSome_iff, toNat_ne_zero_iff] at hexact
    simp only [Option.isSome_some, true_and, q, oneBlock] at hexact ⊢
    omega
  · intro hnum
    constructor
    · rintro q rfl first hfirst
      obtain ⟨⟨-, -, hzero, hsize, -⟩, hfirst⟩ := (Edid.getDDCBlock_eq _ q first).mp hfirst
      refine ⟨bytes, rfl, ?_⟩
      rw [toNat_ne_zero_iff] at hzero
      rw [hfirst, sub32_of_le hzero q.blockNumber.toNat_lt]
      dsimp only [oneBlock] at hsize hnum ⊢
      omega
    · rintro q rfl hq
      rw [hq.isSome_iff, toNat_ne_zero_iff]
      simp only [Option.isSome_some, true_and, oneBlock] at hnum ⊢
      omega

/-- Every block number is treated rightly but those from 2^25 on that come round to 0 or to a block
of the EDID. -/
theorem setupEdid_serves_iff (property : Option (List UInt8)) (malloc : Bool)
    (blockNumber : UInt32) :
    (setupEdid property malloc).Serves blockNumber ↔
      (setupEdid property malloc).bytes = none ∨ blockNumber.toNat < 2 ^ 25 ∨
        (setupEdid property malloc).size / oneBlock < blockNumber.toNat % 2 ^ 25 := by
  generalize setupEdid property malloc = e, started_setupEdid property malloc = hstarted
  cases hstarted with
  | absent => exact iff_of_true (serves_absent blockNumber) (.inl rfl)
  | present bytes h => rw [serves_present_iff h, or_iff_right (Option.some_ne_none bytes)]

/-- Block 2^25 of an EDID of 128 bytes is copied from 2^32 - 128. -/
theorem not_serves_block_two_pow_25 :
    let e := setupEdid (some (List.replicate 128 0)) true
    e.size = 128 ∧ e.getDDCBlock ⟨0, 2 ^ 25, .edid, true, some 128⟩ = some (2 ^ 32 - 128) ∧
      ¬ e.Serves (2 ^ 25) := by
  refine ⟨by decide +kernel, by decide +kernel, fun h => ?_⟩
  obtain ⟨bytes, hbytes, hlen⟩ :=
    h.within ⟨0, 2 ^ 25, .edid, true, some 128⟩ rfl (2 ^ 32 - 128) (by decide +kernel)
  have hlength : ∀ b ∈ (setupEdid (some (List.replicate 128 0)) true).bytes, b.length = 128 := by
    decide +kernel
  rw [hlength bytes hbytes] at hlen
  exact absurd hlen (by decide)

end Cesvga2.FB
