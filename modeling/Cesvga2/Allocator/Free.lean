import Cesvga2.Allocator.Malloc

/-! Freeing. The merge loop trusts the trailer of a buddy only when the buddy's
last bit is clear; on a heap that bit and the block in limbo together show that
a free block ends there. The loop then ends with a block whose buddy is not
free, and no test of the lists fails on the way. -/

namespace Cesvga2.Allocator

open Blocks Blocks.Block Links

variable {a a' : Pool} {L F : Finset Block} {R M : Finset ℕ} {α β γ : Block}

/-! ### Unlinking a buddy -/

/-- A pool that differs from a heap's only in trailer words passes the same tests. -/
theorem Heap.not_corrupt_of_eq {b : Pool} (h : Heap a L F R M) (hβ : β ∈ F) {link off : ℕ}
    (hlink : a.mem (1024 * β.start + link) = off) (hl : link < 1023)
    (hp : b.poolBlocks = a.poolBlocks)
    (hm : ∀ n i, i < 1023 → b.mem (1024 * n + i) = a.mem (1024 * n + i)) :
    ¬ b.corrupt β.start link off := by
  refine Pool.not_corrupt (hp ▸ h.small) (hp ▸ h.start_lt (free_mem hβ)) ?_ ?_
  · exact (hm β.start 0 (by norm_num)).trans (h.header β hβ)
  · exact (hm β.start link hl).trans hlink

section Unlink

variable (h : Heap a L F R M) (hβ : β ∈ F)

include h hβ

theorem Heap.next_lt (hn : a.next β.start ≠ ournull) :
    a.next β.start < 2 ^ 20 ∧ a.next β.start ≠ β.start := by
  obtain ⟨h1, -, h3⟩ := h.next_mem hβ hn
  exact ⟨(h.start_lt (free_mem h1)).trans h.small, h3⟩

theorem Heap.prev_lt (hp : a.prev β.start ≠ ournull) : a.prev β.start < 2 ^ 20 :=
  (h.start_lt (free_mem (h.prev_mem hβ hp).1)).trans h.small

/-- No test of `unlinkBuddy` fails on a free block. -/
theorem Heap.unlinkBuddy_eq : a.unlinkBuddy β.order β.start = (.success,
    if a.prev β.start = ournull then
      (((a.write (1024 * β.past - 1) 0).setPrev (a.next β.start) ournull).setList β.order
        (a.next β.start)).bzero (1024 * β.start) 3
    else
      (((a.write (1024 * β.past - 1) 0).setPrev (a.next β.start) (a.prev β.start)).write
        (Pool.ptr (a.prev β.start) + 2) (a.next β.start)).bzero (1024 * β.start) 3) := by
  have hsmall := h.small
  have hpast := h.tile_past_le (free_mem hβ)
  have hlt := β.start_lt_past
  have hptr : Pool.ptr β.start = 1024 * β.start := Pool.ptr_eq (by omega)
  have hptr' : Pool.ptr (β.start + 2 ^ β.order) = 1024 * β.past :=
    Pool.ptr_eq (show β.past < 2 ^ 20 by omega)
  set b := a.write (1024 * β.past - 1) 0 with hb
  have hmem : ∀ n i, i < 1023 → b.mem (1024 * n + i) = a.mem (1024 * n + i) := fun n i hi => by
    rw [hb, Pool.write_mem, if_neg (by omega)]
  have hmagic : b.mem (1024 * β.start) = magic :=
    (hmem β.start 0 (by norm_num)).trans (h.header β hβ)
  have hprev : b.mem (1024 * β.start + 1) = a.prev β.start := hmem β.start 1 (by norm_num)
  have hnext : b.mem (1024 * β.start + 2) = a.next β.start := hmem β.start 2 (by norm_num)
  have hnc : ¬ (a.next β.start ≠ ournull ∧ b.corrupt (a.next β.start) 1 β.start) := by
    rintro ⟨hn, hc⟩
    obtain ⟨h1, h2, -⟩ := h.next_mem hβ hn
    exact h.not_corrupt_of_eq (b := b) h1 h2 (by norm_num) rfl hmem hc
  simp only [Pool.unlinkBuddy, hptr, hptr', ← hb, Pool.offMagic, Pool.offPrev, Pool.offNext,
    Nat.add_zero, hmagic, hprev, hnext, ne_eq, not_true_eq_false, if_false]
  rw [if_neg (show ¬ b.freeList β.order = ournull from h.list_ne hβ)]
  by_cases hp : a.prev β.start = ournull
  · rw [if_pos hp, if_neg hnc, if_pos hp]
  · obtain ⟨h1, h2, -⟩ := h.prev_mem hβ hp
    have hpc : ¬ b.corrupt (a.prev β.start) 2 β.start :=
      h.not_corrupt_of_eq h1 h2 (by norm_num) rfl hmem
    rw [if_neg hp, if_neg hpc, if_neg hnc, if_neg hp]

/-- The first block of a list. -/
theorem Heap.unlinked_first (hp : a.prev β.start = ournull) : Unlinked a β
    ((((a.write (1024 * β.past - 1) 0).setPrev (a.next β.start) ournull).setList β.order
      (a.next β.start)).bzero (1024 * β.start) 3) := by
  have hlt := β.start_lt_past
  refine ⟨by simp, by simp, by simp [hp], fun hn => ?_, fun hn => absurd hp hn,
    fun w hw hn _ => ?_⟩
  · obtain ⟨h1, h2⟩ := h.next_lt hβ hn
    rw [Pool.prev, Pool.bzero_mem, if_neg (by omega), Pool.setList_mem, Pool.setPrev_mem,
      if_pos ⟨hn, by rw [Pool.ptr_eq h1]⟩, hp]
  · simp only [mem_extent, not_and, not_lt] at hw
    rw [Pool.bzero_mem, if_neg (by omega), Pool.setList_mem, Pool.setPrev_mem, if_neg,
      Pool.write_mem, if_neg (by omega)]
    rintro ⟨hne, he⟩
    rw [Pool.ptr_eq (h.next_lt hβ hne).1] at he
    exact hn hne he

theorem Heap.unlinked_inner (hp : a.prev β.start ≠ ournull) : Unlinked a β
    ((((a.write (1024 * β.past - 1) 0).setPrev (a.next β.start) (a.prev β.start)).write
      (Pool.ptr (a.prev β.start) + 2) (a.next β.start)).bzero (1024 * β.start) 3) := by
  have hlt := β.start_lt_past
  obtain ⟨-, -, hne⟩ := h.prev_mem hβ hp
  rw [Pool.ptr_eq (h.prev_lt hβ hp)]
  refine ⟨by simp, by simp, by simp [hp], fun hn => ?_, fun _ => ?_, fun w hw hn hpw => ?_⟩
  · obtain ⟨h1, h2⟩ := h.next_lt hβ hn
    rw [Pool.prev, Pool.bzero_mem, if_neg (by omega), Pool.write_mem, if_neg (by omega),
      Pool.setPrev_mem, if_pos ⟨hn, by rw [Pool.ptr_eq h1]⟩]
  · rw [Pool.next, Pool.bzero_mem, if_neg (by omega), Pool.write_mem, if_pos rfl]
  · simp only [mem_extent, not_and, not_lt] at hw
    have := hpw hp
    rw [Pool.bzero_mem, if_neg (by omega), Pool.write_mem, if_neg (by omega), Pool.setPrev_mem,
      if_neg, Pool.write_mem, if_neg (by omega)]
    rintro ⟨hne, he⟩
    rw [Pool.ptr_eq (h.next_lt hβ hne).1] at he
    exact hn hne he

theorem Heap.unlinkBuddy :
    ∃ a', a.unlinkBuddy β.order β.start = (.success, a') ∧ Unlinked a β a' ∧
      a'.freeBytes = a.freeBytes ∧ a'.poolStart = a.poolStart := by
  refine ⟨_, h.unlinkBuddy_eq hβ, ?_⟩
  by_cases hp : a.prev β.start = ournull
  · rw [if_pos hp]
    exact ⟨h.unlinked_first hβ hp, by simp, by simp⟩
  · rw [if_neg hp]
    exact ⟨h.unlinked_inner hβ hp, by simp, by simp⟩

end Unlink

/-! ### The merge loop -/

/-- Where the buddy of the block in limbo has its last bit clear, a free block
ends, no larger than the buddy. -/
theorem Heap.exists_free (h : Heap a L F R γ.extent) (hγ : γ.Aligned)
    (hp : γ.buddy.past ≤ a.poolBlocks) (hb : a.bitTest (γ.buddy.past - 1) = false) :
    ∃ δ ∈ F, δ.past = γ.buddy.past := by
  have hlt := γ.buddy.start_lt_past
  have hlast := last_mem γ.buddy
  have hbits := h.bits (γ.buddy.past - 1) (by omega)
  rw [hb] at hbits
  simp only [Bool.false_eq_true, false_iff, not_or, not_not, not_exists, not_and] at hbits
  obtain ⟨hin, hnolive⟩ := hbits
  have hR : γ.buddy.past - 1 ∈ R := (Finset.mem_union.mp hin).resolve_right fun hm =>
    Finset.disjoint_left.mp (disjoint_buddy hγ) hm hlast
  obtain ⟨δ, hδ, hδn⟩ := h.tiling.mem_iff.mp hR
  have hδa := h.tiling.aligned δ hδ
  -- a larger tile would reach over the block in limbo
  have hord : δ.order ≤ γ.order := by
    by_contra hgt
    have hpar : γ.buddy.past - 1 ∈ γ.parent.extent := by
      rw [parent_extent hγ]
      exact Finset.mem_union_right _ hlast
    have hsub := Block.extent_subset (parent_aligned hγ) hδa (show γ.order + 1 ≤ δ.order by omega)
      hpar hδn
    have hstart : γ.start ∈ δ.extent := hsub (by
      rw [parent_extent hγ]
      exact Finset.mem_union_left _ γ.start_mem)
    exact h.ne_of_limbo hδ hstart γ.start_mem
  have hsub := Block.extent_subset hδa (buddy_aligned hγ) hord hδn hlast
  have hend : δ.past = γ.buddy.past := by
    have hδlt := δ.start_lt_past
    have h1 := hsub (last_mem δ)
    simp only [mem_extent] at h1 hδn
    omega
  rcases Finset.mem_union.mp hδ with hL | hF
  · exact absurd (show γ.buddy.past - 1 + 1 = δ.past by omega) (hnolive δ hL)
  · exact ⟨δ, hF, hend⟩

/-- The bits of a free block are clear. -/
theorem Heap.bitTest_free (h : Heap a L F R M) (hβ : β ∈ F) {n : ℕ} (hn : n ∈ β.extent) :
    a.bitTest n = false := by
  have hle := h.tile_past_le (free_mem hβ)
  rw [Bool.eq_false_iff]
  intro hb
  rcases (h.bits n ((mem_extent.mp hn).2.trans_le hle)).mp hb with hout | ⟨γ, hγ, he⟩
  · exact hout (Finset.mem_union_left M (h.tiling.extent_subset (free_mem hβ) hn))
  · have hγn : n ∈ γ.extent := by
      have := γ.start_lt_past
      simp only [mem_extent]
      omega
    have := h.tiling.eq_of_mem (live_mem hγ) (free_mem hβ) hγn hn
    exact Finset.disjoint_left.mp h.apart hγ (this ▸ hβ)

/-- The order that the trailer of a free block gives back. -/
theorem Heap.trueBits (h : Heap a L F R M) (hβ : β ∈ F) :
    sub32 (a.mem (Pool.ptr β.past - 1)) lenOffset = β.order := by
  have ho := h.free_order_lt hβ
  rw [Pool.ptr_eq ((h.tile_past_le (free_mem hβ)).trans_lt h.small), h.trailer β hβ,
    sub32_of_le (Nat.le_add_left _ _) (by simp only [numSizes, lenOffset] at *; omega)]
  omega

/-- What the merge loop leaves: a block in limbo, no smaller, whose buddy is not
free, over the same released blocks and with the same count of free bytes. -/
structure Merged (a : Pool) (L F : Finset Block) (R : Finset ℕ) (a' : Pool)
    (F' : Finset Block) (γ' : Block) : Prop where
  heap : Heap a' L F' (R \ γ'.extent) γ'.extent
  aligned : γ'.Aligned
  order_lt : γ'.order < numSizes
  extent_subset : γ'.extent ⊆ R
  subset : F' ⊆ F
  buddy : γ'.order < 12 → γ'.buddy ∉ F'
  freeBytes : a'.freeBytes = a.freeBytes
  poolStart : a'.poolStart = a.poolStart

/-- One turn of the merge loop: it ends where the buddy is not free, and else
unlinks the buddy and goes on with the parent. -/
theorem Heap.merge_cases (h : Heap a L F R γ.extent) (hγ : γ.Aligned) (fuel : ℕ) :
    (γ.buddy ∉ F ∧
      Pool.mergeLoop (fuel + 1) a γ.order γ.start = (.success, a, γ.order, γ.start)) ∨
    ∃ a₁, γ.buddy ∈ F ∧ Unlinked a γ.buddy a₁ ∧ a₁.freeBytes = a.freeBytes ∧
      a₁.poolStart = a.poolStart ∧ Pool.mergeLoop (fuel + 1) a γ.order γ.start =
        Pool.mergeLoop fuel a₁ γ.parent.order γ.parent.start := by
  have hpast : (γ.start ^^^ 2 ^ γ.order) + 2 ^ γ.order = γ.buddy.past := rfl
  rw [Pool.mergeLoop]
  simp only [hpast]
  split_ifs with hout hbit hbig hbits
  · exact Or.inl ⟨fun hb => by have := h.tile_past_le (free_mem hb); omega, rfl⟩
  · refine Or.inl ⟨fun hb => ?_, rfl⟩
    rw [h.bitTest_free hb (last_mem γ.buddy)] at hbit
    cases hbit
  · -- the trailer read is that of a free block
    obtain ⟨δ, hδ, hend⟩ := h.exists_free hγ (by omega) (by simpa using hbit)
    rw [← hend, h.trueBits hδ] at hbig
    exact absurd hbig (not_le.mpr (h.free_order_lt hδ))
  · exact Or.inl ⟨fun hb => hbits (h.trueBits hb), rfl⟩
  · obtain ⟨δ, hδ, hend⟩ := h.exists_free hγ (by omega) (by simpa using hbit)
    rw [← hend, h.trueBits hδ, not_not] at hbits
    obtain rfl : δ = γ.buddy := by
      have hs : δ.start = γ.buddy.start := by
        simp only [Block.past, hbits, buddy_order] at hend
        omega
      cases δ
      simp only at hs hbits
      rw [hs, hbits]
      rfl
    obtain ⟨a₁, he, hu, hbytes, hpool⟩ := h.unlinkBuddy hδ
    have hmeet : a.unlinkBuddy γ.order (γ.start ^^^ 2 ^ γ.order) = (.success, a₁) := he
    refine Or.inr ⟨a₁, hδ, hu, hbytes, hpool, ?_⟩
    rw [hmeet]
    simp only [Block.parent, min_comm γ.start]
    rfl

/-- The unlinked buddy joins the block in limbo. -/
theorem Heap.merge_parent (h : Heap a L F (R \ γ.extent) γ.extent) (hγ : γ.Aligned)
    (hb : γ.buddy ∈ F) (hu : Unlinked a γ.buddy a') :
    Heap a' L (F.erase γ.buddy) (R \ γ.parent.extent) γ.parent.extent := by
  rw [parent_extent hγ, ← Finset.sup_eq_union, ← sdiff_sdiff_left]
  exact h.unlink hb hu

theorem Heap.mergeLoop : ∀ (fuel : ℕ) {a : Pool} {F : Finset Block} {γ : Block},
    Heap a L F (R \ γ.extent) γ.extent → γ.extent ⊆ R → γ.Aligned → fuel + γ.order = 12 →
    ∃ a' F' γ', Pool.mergeLoop fuel a γ.order γ.start = (.success, a', γ'.order, γ'.start) ∧
      Merged a L F R a' F' γ'
  | 0, a, F, γ, h, hR, hγ, hf =>
    ⟨a, F, γ, rfl, h, hγ, by simp only [numSizes]; omega, hR, subset_rfl, fun hlt => by omega,
      rfl, rfl⟩
  | fuel + 1, a, F, γ, h, hR, hγ, hf => by
    rcases h.merge_cases hγ fuel with ⟨hb, he⟩ | ⟨a₁, hb, hu, hbytes, hpool, he⟩
    · exact ⟨a, F, γ, he, h, hγ, by simp only [numSizes]; omega, hR, subset_rfl, fun _ => hb,
        rfl, rfl⟩
    · have hsub : γ.buddy.extent ⊆ R :=
        (h.tiling.extent_subset (free_mem hb)).trans Finset.sdiff_subset
      obtain ⟨a', F', γ', he', hm⟩ := mergeLoop fuel (h.merge_parent hγ hb hu)
        (parent_extent hγ ▸ Finset.union_subset hR hsub) (parent_aligned hγ)
        (show fuel + (γ.order + 1) = 12 by omega)
      exact ⟨a', F', γ', he.trans he', hm.heap, hm.aligned, hm.order_lt, hm.extent_subset,
        hm.subset.trans (Finset.erase_subset _ _), hm.buddy, hm.freeBytes.trans hbytes,
        hm.poolStart.trans hpool⟩

/-! ### Free -/

/-- The end of `Free` pushes the merged block. -/
theorem Heap.addFree (h : Heap a L F R M) (ho : γ.order < numSizes)
    (hM : γ.extent ⊆ M) (oldBits : ℕ) :
    ∃ a', a.addFree γ.order γ.start oldBits = (.success, a') ∧ Pushed a γ a' ∧
      a'.freeBytes = u32 (a.freeBytes + 4096 * 2 ^ oldBits) ∧ a'.poolStart = a.poolStart := by
  have hpast := h.past_le (hM.trans Finset.subset_union_right)
  have hlt := γ.start_lt_past
  have hsmall := h.small
  have hsum : γ.past = γ.start + 2 ^ γ.order := rfl
  have hptr : Pool.ptr γ.start = 1024 * γ.start := Pool.ptr_eq (by omega)
  have hhead : a.freeList γ.order ≠ ournull → _ := h.head_out ho hM
  have e12 : 2 ^ (oldBits + minBits) = 4096 * 2 ^ oldBits := by simp only [minBits, pow_add]; omega
  set b := (a.write (1024 * γ.start) magic).write (1024 * γ.start + 1) ournull with hb
  have hok : ¬ (a.freeList γ.order ≠ ournull ∧ b.corrupt (a.freeList γ.order) 1 ournull) := by
    rintro ⟨hne, hc⟩
    obtain ⟨h1, h2⟩ := h.head_mem ho hne
    have hout := (hhead hne).2
    simp only [mem_extent, not_and, not_lt] at hout
    refine Pool.not_corrupt (a := b) (n := a.freeList γ.order) hsmall
      (h.start_lt (free_mem h1)) ?_ ?_ hc
    · rw [hb, Pool.write_mem, if_neg (by omega), Pool.write_mem, if_neg (by omega)]
      exact h.header _ h1
    · rw [hb, Pool.write_mem, if_neg (by omega), Pool.write_mem, if_neg (by omega)]
      exact h2
  simp only [Pool.addFree, hptr, Pool.offMagic, Pool.offPrev, Pool.offNext, Nat.add_zero, ← hb,
    Pool.words_eq, e12]
  rw [show b.freeList = a.freeList from rfl, if_neg hok]
  refine ⟨_, rfl, Pushed.of_mem (by simp [hb]) (by simp [hb]) (by simp [hb])
    (fun hne => (hhead hne).2) fun w => ?_, by simp [hb], by simp [hb]⟩
  simp only [Pool.setList_mem, Pool.write_mem, Pool.setPrev_mem, hb]
  by_cases hne : a.freeList γ.order = ournull
  · simp only [hne, ne_eq, not_true_eq_false, false_and, if_false]
    split_ifs <;> omega
  · obtain ⟨h1, h2⟩ := hhead hne
    simp only [mem_extent, not_and, not_lt] at h2
    simp only [hne, ne_eq, not_false_eq_true, true_and, Pool.ptr_eq h1]
    split_ifs <;> omega

/-- `Free` of a live block merges it from its own order on. -/
theorem Heap.free_eq (h : Heap a L F R M) (h0 : 0 < a.poolStart) (hα : α ∈ L) {a₁ : Pool}
    (he : Pool.mergeLoop (12 - α.order) (a.bitClear (α.past - 1)) α.order α.start =
      (.success, a₁, γ.order, γ.start)) :
    a.free (a.addr α) = a₁.addFree γ.order γ.start α.order := by
  have hsmall := h.small
  have hlt := h.start_lt (Heap.live_mem hα)
  have hoff : a.addr α - a.poolStart = 4096 * α.start := by simp [Pool.addr]
  rw [Pool.free, if_neg (by simp only [Pool.addr]; omega), h.buddyAllocSize hα]
  simp only [hoff, minBits]
  rw [show 4096 * α.start / 2 ^ 12 = α.start by omega, u32_of_lt (by omega)]
  have he' : Pool.mergeLoop (numSizes - 1 - α.order)
      (a.bitClear (α.start + 2 ^ α.order - 1)) α.order α.start = _ := he
  rw [he']

/-- Freeing a live block succeeds, and what it adds to the free blocks is a
block whose buddy is not free. -/
theorem Quiet.free (h : Quiet a L F R) (h0 : 0 < a.poolStart) (hα : α ∈ L) :
    ∃ a' F' γ, a.free (a.addr α) = (.success, a') ∧ a'.poolStart = a.poolStart ∧
      Quiet a' (L.erase α) (insert γ F') R ∧ F' ⊆ F ∧ γ.Aligned ∧
      (γ.order < 12 → γ.buddy ∉ F') := by
  have hsmall := h.heap.small
  have ho := h.heap.order_lt α (Heap.live_mem hα)
  have hsub : α.extent ⊆ R := h.heap.tiling.extent_subset (Heap.live_mem hα)
  have hd := h.heap.drop hα
  rw [Finset.empty_union] at hd
  obtain ⟨a₁, F', γ, he, hm⟩ := hd.mergeLoop (12 - α.order) hsub
    (h.heap.tiling.aligned α (Heap.live_mem hα)) (by simp only [numSizes] at ho; omega)
  obtain ⟨a₂, he₂, hpush, hbytes, hpool⟩ := hm.heap.addFree hm.order_lt subset_rfl α.order
  have hfin := hm.heap.push hm.aligned hm.order_lt subset_rfl hpush
  rw [Finset.sdiff_self, Finset.union_sdiff_of_subset hm.extent_subset] at hfin
  refine ⟨a₂, F', γ, ?_, ?_, hfin.quiet ?_, hm.subset, hm.aligned, hm.buddy⟩
  · rw [h.heap.free_eq h0 hα he]
    exact he₂
  · rw [hpool, hm.poolStart, Pool.bitClear_poolStart]
  · have hbal := h.balance
    have hsum := Finset.add_sum_erase L (fun β : Block => 2 ^ β.order) hα
    have hcard := h.heap.card_le
    rw [hbytes, hm.freeBytes, Pool.bitClear_freeBytes, u32_of_lt (by omega)]
    omega

end Cesvga2.Allocator
