import Cesvga2.Allocator.Runs

/-! When `Malloc` succeeds and what it takes. The lists hold every free block
and the byte count bounds the largest, so neither early exit refuses a request
that a free block could serve; the block taken is of the smallest sufficient
order, and what is split off it is free again. -/

namespace Cesvga2.Allocator

open Blocks Blocks.Block Links

variable {a : Pool} {L F : Finset Block} {R : Finset ℕ} {σ : Sys} {bytes k : ℕ}

/-- The free store after `carve` is the free store without the new block. -/
theorem Quiet.carve_extents (h : Quiet a L F R) {r bits : ℕ} (hr : r < numSizes)
    (hne : a.freeList r ≠ ournull) (hle : bits ≤ r) :
    (a.carve bits r).freeBlocks.biUnion extent =
      a.freeBlocks.biUnion extent \ (⟨a.freeList r, bits⟩ : Block).extent := by
  have hq := h.carve hr hne hle
  have hβ := (h.heap.head_mem hr hne).1
  have hfree := h.heap.tiling.subset (C := F) Finset.subset_union_right
  have hcut := (hfree.erase hβ).cover
  have hfront := Block.front_subset (β := ⟨a.freeList r, r⟩) hle
  have hin := hfree.extent_subset hβ
  have hpieces := (tiling_pieces 12 (a.freeList r + 2 ^ r) (a.freeList r + 2 ^ bits)).cover
  rw [hq.heap.freeBlocks_eq, h.heap.freeBlocks_eq, Finset.union_biUnion, hcut, hpieces]
  have hrest : Finset.Ico (a.freeList r + 2 ^ bits) (a.freeList r + 2 ^ r) =
      (⟨a.freeList r, r⟩ : Block).extent \ (⟨a.freeList r, bits⟩ : Block).extent :=
    (Block.extent_sdiff_front (β := ⟨a.freeList r, r⟩) hle).symm
  rw [hrest]
  ext n
  have h1 := @hfront n
  have h2 := @hin n
  simp only [Finset.mem_union, Finset.mem_sdiff]
  tauto

/-- The block `β` serves a request of order `k` from `a`: it is free and of the
smallest sufficient order. -/
structure Serves (a : Pool) (k : ℕ) (β : Block) : Prop where
  free : β ∈ a.freeBlocks
  le : k ≤ β.order
  least : ∀ γ ∈ a.freeBlocks, k ≤ γ.order → β.order ≤ γ.order

/-- `Malloc` of a request of order `k` is `BuddyMalloc` of that order, or fails
where no free block is that large. -/
theorem Quiet.malloc_exact (h : Quiet a L F R) (hk : IsLeast {k | bytes ≤ 4096 * 2 ^ k} k) :
    ((∃ r, a.malloc bytes = .error r) ∧ ∀ β ∈ F, β.order < k) ∨
    ∃ r, Serves a k ⟨a.freeList r, r⟩ ∧ r < numSizes ∧ a.freeList r ≠ ournull ∧
      Pool.sizeBits bytes = some k ∧
      a.malloc bytes = .ok (a.addr ⟨a.freeList r, k⟩, a.carve k r) := by
  rcases sizeBits_of_isLeast hk with hb | ⟨hb, hlt⟩
  · rcases buddyMalloc_exact h k with ⟨he, hF⟩ | ⟨r, hle, hr, hne, hfirst, he⟩
    · exact Or.inl ⟨⟨.noMemory, by rw [Pool.malloc, hb]; exact he⟩, hF⟩
    · refine Or.inr ⟨r, ⟨?_, hle, fun γ hγ hkγ => ?_⟩, hr, hne, hb, by
        rw [Pool.malloc, hb]; exact he⟩
      · rw [h.heap.freeBlocks_eq]
        exact (h.heap.head_mem hr hne).1
      · rw [h.heap.freeBlocks_eq] at hγ
        by_contra hgt
        exact h.heap.list_ne hγ (hfirst γ.order hkγ (not_le.mp hgt))
  · exact Or.inl ⟨⟨.noResources, by rw [Pool.malloc, hb]⟩,
      fun β hβ => (h.heap.free_order_lt hβ).trans hlt⟩

/-- What a successful `Malloc` of order `k` that returned `p` has done: the new
live block is the front of a free block of the smallest sufficient order, and the
free store is what it was without the new block. -/
structure Allotted (σ σ' : Sys) (k p : ℕ) (β : Block) : Prop where
  serves : Serves σ.pool k β
  address : p = σ.pool.addr β
  fresh : ⟨β.start, k⟩ ∉ σ.live
  live : σ'.live = insert ⟨β.start, k⟩ σ.live
  size : σ'.pool.buddyAllocSize p = .ok k
  others : σ.pool.freeBlocks.erase β ⊆ σ'.pool.freeBlocks
  rest : σ'.pool.freeBlocks.biUnion extent =
    σ.pool.freeBlocks.biUnion extent \ (⟨β.start, k⟩ : Block).extent

theorem Quiet.allotted (h : Quiet σ.pool σ.live F σ.released) {r : ℕ} (hr : r < numSizes)
    (hs : Serves σ.pool k ⟨σ.pool.freeList r, r⟩) (hne : σ.pool.freeList r ≠ ournull)
    (hb : Pool.sizeBits bytes = some k)
    (he : σ.pool.malloc bytes = .ok (σ.pool.addr ⟨σ.pool.freeList r, k⟩, σ.pool.carve k r)) :
    Allotted σ ((Op.malloc bytes).exec σ) k (σ.pool.addr ⟨σ.pool.freeList r, k⟩)
      ⟨σ.pool.freeList r, r⟩ := by
  have hexec : (Op.malloc bytes).exec σ =
      ⟨σ.pool.carve k r, insert ⟨σ.pool.freeList r, k⟩ σ.live, σ.released⟩ := by
    simp only [Op.exec, he, blockAt_addr σ.pool hb]
  have hq := h.carve hr hne hs.le
  have hβ := (h.heap.head_mem hr hne).1
  rw [hexec]
  refine ⟨hs, rfl, fun hL => ?_, rfl, ?_, ?_, h.carve_extents hr hne hs.le⟩
  · exact Finset.disjoint_left.mp h.heap.apart (h.heap.tiling.eq_of_mem (Heap.live_mem hL)
      (Heap.free_mem hβ) (start_mem ⟨σ.pool.freeList r, k⟩)
      (start_mem ⟨σ.pool.freeList r, r⟩) ▸ hL) hβ
  · have haddr : σ.pool.addr ⟨σ.pool.freeList r, k⟩ =
        (σ.pool.carve k r).addr ⟨σ.pool.freeList r, k⟩ := by
      simp only [Pool.addr, carve_poolStart]
    rw [haddr]
    exact hq.heap.buddyAllocSize (Finset.mem_insert_self _ _)
  · rw [hq.heap.freeBlocks_eq, h.heap.freeBlocks_eq]
    exact Finset.subset_union_left

/-- `Malloc` succeeds exactly when a free block is large enough, takes one of the
smallest sufficient order, and changes nothing when it fails. -/
theorem malloc_succeeds_iff (h : Reachable σ) (hk : IsLeast {k | bytes ≤ 4096 * 2 ^ k} k) :
    ((∃ p a', σ.pool.malloc bytes = .ok (p, a')) ↔ ∃ β ∈ σ.pool.freeBlocks, k ≤ β.order) ∧
    (∀ p a', σ.pool.malloc bytes = .ok (p, a') →
      ((Op.malloc bytes).exec σ).pool = a' ∧
        ∃ β, Allotted σ ((Op.malloc bytes).exec σ) k p β) ∧
    ∀ r, σ.pool.malloc bytes = .error r → (Op.malloc bytes).exec σ = σ := by
  obtain ⟨-, F, hq⟩ := h.quiet
  have hF := hq.heap.freeBlocks_eq
  have herr : ∀ r, σ.pool.malloc bytes = .error r → (Op.malloc bytes).exec σ = σ := fun r he => by
    simp only [Op.exec, he]
  rcases hq.malloc_exact hk with ⟨⟨r, he⟩, hsmall⟩ | ⟨r, hs, hr, hne, hb, he⟩
  · refine ⟨⟨?_, ?_⟩, ?_, herr⟩
    · rintro ⟨p, a', he'⟩
      rw [he] at he'
      cases he'
    · rintro ⟨β, hβ, hle⟩
      exact absurd (hsmall β (hF ▸ hβ)) (not_lt.mpr hle)
    · intro p a' he'
      rw [he] at he'
      cases he'
  · refine ⟨⟨fun _ => ⟨_, hs.free, hs.le⟩, fun _ => ⟨_, _, he⟩⟩, fun p a' he' => ?_, herr⟩
    obtain ⟨rfl, rfl⟩ : σ.pool.addr ⟨σ.pool.freeList r, k⟩ = p ∧ σ.pool.carve k r = a' := by
      rw [he] at he'
      cases he'
      exact ⟨rfl, rfl⟩
    exact ⟨by simp only [Op.exec, he], _, hq.allotted hr hs hne hb he⟩

/-- Three blocks' worth of bytes round up to order two. -/
theorem malloc_succeeds_smallSys :
    ∃ β, Allotted smallSys ((Op.malloc 12288).exec smallSys) 2 20480 β :=
  have hk : IsLeast {k | 12288 ≤ 4096 * 2 ^ k} 2 := ⟨by norm_num, fun j hj => by
    by_contra hlt
    have hpow : 2 ^ j ≤ 2 ^ 1 := Nat.pow_le_pow_right (by norm_num) (by omega)
    have hfit : 12288 ≤ 4096 * 2 ^ j := hj
    omega⟩
  ((malloc_succeeds_iff reachable_smallSys hk).2.1 20480 (smallSys.pool.carve 2 2) rfl).2

end Cesvga2.Allocator
