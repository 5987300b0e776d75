import Cesvga2.Allocator.ToFree

/-! Allocation. On a heap between calls `BuddyMalloc` either reports that there
is no memory or takes the head of the first list with blocks large enough, makes
the front of it live and frees the rest. The order of a live block is found
again from the bit map. -/

namespace Cesvga2.Allocator

open Blocks Blocks.Block Links

/-- The heap between calls: nothing is in limbo and the free store is counted. -/
structure Quiet (a : Pool) (L F : Finset Block) (R : Finset ℕ) : Prop where
  heap : Heap a L F R ∅
  bytes : a.freeBytes = 4096 * ∑ β ∈ F, 2 ^ β.order

variable {a a' : Pool} {L F : Finset Block} {R M : Finset ℕ} {α β γ : Block} {k bits : ℕ}

/-! ### Accounting -/

theorem Heap.sum_add_sum (h : Heap a L F R M) :
    ∑ β ∈ L, 2 ^ β.order + ∑ β ∈ F, 2 ^ β.order = R.card := by
  rw [← Finset.sum_union h.apart, h.tiling.sum_size]

theorem Heap.card_le (h : Heap a L F R M) : R.card ≤ a.poolBlocks := by
  have := Finset.card_le_card (Finset.subset_union_left.trans h.inPool)
  rwa [Finset.card_range] at this

theorem size_le (hβ : β ∈ F) : 2 ^ β.order ≤ ∑ γ ∈ F, 2 ^ γ.order :=
  Finset.single_le_sum (f := fun γ : Block => 2 ^ γ.order) (fun _ _ => Nat.zero_le _) hβ

theorem Quiet.freeBytes_lt (h : Quiet a L F R) : a.freeBytes < 2 ^ 32 := by
  have h1 := h.heap.sum_add_sum
  have h2 := h.heap.card_le
  have h3 := h.heap.small
  rw [h.bytes]
  omega

/-- The free bytes follow from the tiled set and the live blocks. -/
theorem Heap.quiet (h : Heap a L F R ∅)
    (hb : a.freeBytes + 4096 * ∑ β ∈ L, 2 ^ β.order = 4096 * R.card) : Quiet a L F R := by
  have := h.sum_add_sum
  exact ⟨h, by omega⟩

theorem Quiet.balance (h : Quiet a L F R) :
    a.freeBytes + 4096 * ∑ β ∈ L, 2 ^ β.order = 4096 * R.card := by
  have := h.heap.sum_add_sum
  have := h.bytes
  omega

/-! ### BuddyMalloc -/

theorem findSize_cases (a : Pool) (bits : ℕ) :
    (a.findSize bits = none ∧ ∀ j, bits ≤ j → j < numSizes → a.freeList j = ournull) ∨
    ∃ k, a.findSize bits = some k ∧ bits ≤ k ∧ k < numSizes ∧ a.freeList k ≠ ournull ∧
      ∀ j, bits ≤ j → j < k → a.freeList j = ournull := by
  rcases hf : a.findSize bits with _ | k
  · refine Or.inl ⟨rfl, fun j h1 h2 => ?_⟩
    rw [Pool.findSize, List.find?_range'_eq_none] at hf
    simpa using hf j h1 (by omega)
  · rw [Pool.findSize, List.find?_range'_eq_some] at hf
    obtain ⟨h1, h2, h3⟩ := hf
    simp only [List.mem_range'_1, decide_eq_true_eq] at h1 h2
    exact Or.inr ⟨k, rfl, h2.1, by omega, h1, fun j hj hk => by simpa using h3 j hj hk⟩

/-- The list edit of `BuddyMalloc`. -/
theorem Heap.unlinked_head (h : Heap a L F R M) (hk : k < numSizes)
    (hne : a.freeList k ≠ ournull) :
    Unlinked a ⟨a.freeList k, k⟩
      ((a.setPrev (a.next (a.freeList k)) ournull).setList k (a.next (a.freeList k))) := by
  obtain ⟨hF, hprev⟩ := h.head_mem hk hne
  have hsmall : a.next (a.freeList k) ≠ ournull → a.next (a.freeList k) < 2 ^ 20 := fun hn =>
    (h.start_lt (free_mem (h.next_mem hF hn).1)).trans h.small
  refine ⟨by simp, by simp, ?_, fun hn => ?_, fun hn => absurd hprev hn, fun w _ hw _ => ?_⟩
  · simp [hprev]
  · rw [Pool.prev, Pool.setList_mem, Pool.setPrev_mem,
      if_pos ⟨hn, by rw [Pool.ptr_eq (hsmall hn)]⟩, hprev]
  · rw [Pool.setList_mem, Pool.setPrev_mem, if_neg]
    rintro ⟨hn, he⟩
    rw [Pool.ptr_eq (hsmall hn)] at he
    exact hw hn he

/-- The front of a free block becomes live and its rest is in limbo. -/
theorem Heap.front (h : Heap a L F R ∅) (hβ : β ∈ F) (hle : bits ≤ β.order)
    (hu : Unlinked a β a') (n : ℕ) :
    Heap { a'.bitSet (β.start + 2 ^ bits - 1) with freeBytes := n } (insert ⟨β.start, bits⟩ L)
      (F.erase β) ((⟨β.start, bits⟩ : Block).extent ∪ R \ β.extent)
      ((∅ ∪ β.extent) \ (⟨β.start, bits⟩ : Block).extent) := by
  have haβ : β.Aligned := h.tiling.aligned β (free_mem hβ)
  have h2 := (h.unlink hβ hu).allot (γ := ⟨β.start, bits⟩) ((pow_dvd_pow 2 hle).trans haβ)
    (lt_of_le_of_lt hle (h.free_order_lt hβ))
    ((Block.front_subset hle).trans Finset.subset_union_right)
  exact h2.frame rfl rfl (fun _ _ => rfl) fun _ _ _ _ => rfl

/-- The front of a free block becomes live and its rest is free again. -/
theorem Heap.split (h : Heap a L F R ∅) (hβ : β ∈ F) (hle : bits ≤ β.order)
    (hu : Unlinked a β a') (n : ℕ) :
    Heap (({ a'.bitSet (β.start + 2 ^ bits - 1) with freeBytes := n }).toFree
        (β.start + 2 ^ bits) β.past false)
      (insert ⟨β.start, bits⟩ L)
      (F.erase β ∪ (pieces 12 β.past (β.start + 2 ^ bits)).toFinset) R ∅ :=
  Heap.toFree_rest hle (h.tiling.extent_subset (free_mem hβ)) (h.front hβ hle hu n)

/-- The pool as `carve` passes it to `toFree`. -/
theorem Heap.carve_eq (h : Heap a L F R M) (hk : k < numSizes) (hne : a.freeList k ≠ ournull) :
    a.carve bits k = ({ ((a.setPrev (a.next (a.freeList k)) ournull).setList k
      (a.next (a.freeList k))).bitSet (a.freeList k + 2 ^ bits - 1) with
      freeBytes := sub32 a.freeBytes (2 ^ (k + minBits)) }).toFree
      (a.freeList k + 2 ^ bits) (a.freeList k + 2 ^ k) false := by
  have hptr : Pool.ptr (a.freeList k) = 1024 * a.freeList k :=
    Pool.ptr_eq ((h.start_lt (Heap.free_mem (h.head_mem hk hne).1)).trans h.small)
  simp only [Pool.carve, hptr, Pool.bitSet_freeBytes, Pool.setList_freeBytes,
    Pool.setPrev_freeBytes]
  rfl

/-- The head of a list, as `carve` finds it. -/
theorem Quiet.carve (h : Quiet a L F R) (hk : k < numSizes) (hne : a.freeList k ≠ ournull)
    (hle : bits ≤ k) :
    Quiet (a.carve bits k) (insert ⟨a.freeList k, bits⟩ L) (F.erase ⟨a.freeList k, k⟩ ∪
      (pieces 12 (a.freeList k + 2 ^ k) (a.freeList k + 2 ^ bits)).toFinset) R := by
  have hβ := (h.heap.head_mem hk hne).1
  have hsplit := h.heap.split hβ hle (h.heap.unlinked_head hk hne)
    (sub32 a.freeBytes (2 ^ (k + minBits)))
  rw [h.heap.carve_eq hk hne]
  refine hsplit.quiet ?_
  have hnew : (⟨a.freeList k, bits⟩ : Block) ∉ L := fun hL =>
    Finset.disjoint_left.mp h.heap.apart (h.heap.tiling.eq_of_mem (Heap.live_mem hL)
      (Heap.free_mem hβ) (start_mem ⟨a.freeList k, bits⟩) (start_mem ⟨a.freeList k, k⟩) ▸ hL) hβ
  have hpow : 2 ^ bits ≤ 2 ^ k := Nat.pow_le_pow_right (by norm_num) hle
  have hpos := Nat.two_pow_pos bits
  have hsize : 2 ^ k ≤ ∑ γ ∈ F, 2 ^ γ.order := size_le hβ
  have hbytes := h.bytes
  have hbal := h.balance
  have hlt := h.freeBytes_lt
  have e12 : 2 ^ (k + minBits) = 4096 * 2 ^ k := by simp only [minBits, pow_add]; omega
  rw [Finset.sum_insert hnew]
  simp only [Block.past]
  rw [toFree_freeBytes _ _ _ (u32_lt _), e12]
  simp only
  rw [sub32_of_le (by omega) hlt, u32_of_lt (by omega)]
  omega

@[simp] theorem carve_poolStart (a : Pool) (bits k : ℕ) :
    (a.carve bits k).poolStart = a.poolStart := by
  simp [Pool.carve]

/-- `BuddyMalloc` fails when every free block is too small, and else takes the
head of the first list with larger ones. -/
theorem buddyMalloc_exact (h : Quiet a L F R) (bits : ℕ) :
    (a.buddyMalloc bits = .error .noMemory ∧ ∀ β ∈ F, β.order < bits) ∨
    ∃ k, bits ≤ k ∧ k < numSizes ∧ a.freeList k ≠ ournull ∧
      (∀ j, bits ≤ j → j < k → a.freeList j = ournull) ∧
      a.buddyMalloc bits = .ok (a.poolStart + 4096 * a.freeList k, a.carve bits k) := by
  unfold Pool.buddyMalloc
  split_ifs with hfew
  · refine Or.inl ⟨rfl, fun β hβ => ?_⟩
    by_contra hle
    have hpow : 2 ^ bits ≤ 2 ^ β.order := Nat.pow_le_pow_right (by norm_num) (not_lt.mp hle)
    have hsize : 2 ^ β.order ≤ ∑ γ ∈ F, 2 ^ γ.order := size_le hβ
    rw [h.bytes, show 2 ^ (bits + minBits) = 4096 * 2 ^ bits by
      simp only [minBits, pow_add]; omega] at hfew
    omega
  rcases findSize_cases a bits with ⟨hf, hnone⟩ | ⟨k, hf, hle, hk, hne, hfirst⟩
  · refine Or.inl ⟨by rw [hf], fun β hβ => ?_⟩
    by_contra hle
    exact h.heap.list_ne hβ (hnone β.order (not_lt.mp hle) (h.heap.free_order_lt hβ))
  refine Or.inr ⟨k, hle, hk, hne, hfirst, ?_⟩
  obtain ⟨hβ, hprev⟩ := h.heap.head_mem hk hne
  have hlt : a.freeList k < a.poolBlocks := h.heap.start_lt (Heap.free_mem hβ)
  have hsmall := h.heap.small
  have hptr : Pool.ptr (a.freeList k) = 1024 * a.freeList k := Pool.ptr_eq (by omega)
  have hnext : ¬ (a.mem (1024 * a.freeList k + 2) ≠ ournull ∧
      a.corrupt (a.mem (1024 * a.freeList k + 2)) 1 (a.freeList k)) := by
    rintro ⟨hn, hc⟩
    obtain ⟨h1, h2, -⟩ := h.heap.next_mem hβ hn
    exact h.heap.not_corrupt h1 h2 hc
  have htrail : a.mem (1024 * a.freeList k + 1024 * 2 ^ k - 1) = k + lenOffset := by
    rw [← Nat.mul_add]
    exact h.heap.trailer _ hβ
  rw [hf]
  simp only [hptr, Pool.offMagic, Pool.offPrev, Pool.offNext, Pool.words_eq, Nat.add_zero]
  rw [if_neg (by omega), if_neg (by rw [not_not]; exact h.heap.header _ hβ),
    if_neg (by rw [not_not]; exact hprev), if_neg (by rw [not_not]; exact htrail), if_neg hnext,
    u32_of_lt (by simp only [minBits]; omega)]
  simp only [minBits]
  rw [mul_comm]
  rfl

theorem buddyMalloc_cases (h : Quiet a L F R) (bits : ℕ) :
    a.buddyMalloc bits = .error .noMemory ∨
    ∃ k, bits ≤ k ∧ k < numSizes ∧ a.freeList k ≠ ournull ∧
      a.buddyMalloc bits = .ok (a.poolStart + 4096 * a.freeList k, a.carve bits k) := by
  rcases buddyMalloc_exact h bits with ⟨he, -⟩ | ⟨k, hle, hk, hne, -, he⟩
  · exact Or.inl he
  · exact Or.inr ⟨k, hle, hk, hne, he⟩

/-! ### BuddyAllocSize -/

/-- Within a live block only the last bit is set. -/
theorem Heap.bitTest_live (h : Heap a L F R M) (hα : α ∈ L) {n : ℕ} (hn : n ∈ α.extent) :
    a.bitTest n = true ↔ n + 1 = α.past := by
  have hR : n ∈ R := h.tiling.extent_subset (live_mem hα) hn
  have hlt := Finset.mem_range.mp (h.inPool (Finset.mem_union_left M hR))
  rw [h.bits n hlt]
  constructor
  · rintro (hout | ⟨γ, hγ, he⟩)
    · exact absurd (Finset.mem_union_left M hR) hout
    · have hγn : n ∈ γ.extent := by
        have := γ.start_lt_past
        simp only [mem_extent]
        omega
      rwa [h.tiling.eq_of_mem (live_mem hα) (live_mem hγ) hn hγn]
  · exact fun he => Or.inr ⟨α, hα, he⟩

theorem Heap.allocSizeLoop (h : Heap a L F R M) (hα : α ∈ L) : ∀ (fuel j : ℕ),
    fuel + j = numSizes → j ≤ α.order → a.allocSizeLoop α.start fuel j = .ok α.order
  | 0, j, hf, hj => by
    have := h.order_lt α (live_mem hα)
    omega
  | fuel + 1, j, hf, hj => by
    have hpast := h.tile_past_le (live_mem hα)
    have hal : α.start % 2 ^ j = 0 := Nat.dvd_iff_mod_eq_zero.mp
      ((pow_dvd_pow 2 hj).trans (h.tiling.aligned α (live_mem hα)))
    have hpow : 2 ^ j ≤ 2 ^ α.order := Nat.pow_le_pow_right (by norm_num) hj
    have hpos := Nat.two_pow_pos j
    simp only [Block.past] at hpast
    have hin : α.start + 2 ^ j - 1 ∈ α.extent := by
      simp only [mem_extent, Block.past]
      omega
    rw [Pool.allocSizeLoop, if_neg (by omega)]
    split_ifs with hbit
    · rw [h.bitTest_live hα hin] at hbit
      have heq : 2 ^ j = 2 ^ α.order := by simp only [Block.past] at hbit; omega
      rw [Nat.pow_right_injective le_rfl heq]
    · refine allocSizeLoop h hα fuel (j + 1) (by omega) (lt_of_le_of_ne hj fun he => hbit ?_)
      rw [h.bitTest_live hα hin, he]
      simp only [Block.past]
      have := Nat.two_pow_pos α.order
      omega

/-- The address of a block. -/
def Pool.addr (a : Pool) (α : Block) : ℕ := a.poolStart + 4096 * α.start

theorem Heap.buddyAllocSize (h : Heap a L F R M) (hα : α ∈ L) :
    a.buddyAllocSize (a.addr α) = .ok α.order := by
  have hlt := h.start_lt (live_mem hα)
  have hoff : a.addr α - a.poolStart = 4096 * α.start := by simp [Pool.addr]
  have hdiv : 4096 * α.start / 2 ^ 12 = α.start := by omega
  rw [Pool.buddyAllocSize, if_neg (by simp [Pool.addr])]
  simp only [hoff, minBits, hdiv]
  rw [if_neg (by omega), if_neg (by omega)]
  exact h.allocSizeLoop hα numSizes 0 rfl (Nat.zero_le _)

end Cesvga2.Allocator
