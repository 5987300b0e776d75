import Cesvga2.Allocator.Runs

/-! The allocator's own tests. On a heap between calls `Check` walks every free
list to its end, counts its blocks and finds the free bytes in balance; and no
call that a client may make in a reachable state takes an exit for corruption
or for a bad pointer. -/

namespace Cesvga2.Allocator

open Blocks Blocks.Block Links

variable {a : Pool} {L F : Finset Block} {R M : Finset ℕ} {σ : Sys} {k : ℕ}

/-- From any point of a free list the walk of `Check` counts what is left. -/
theorem Heap.checkList (h : Heap a L F R M) (hk : k < numSizes) :
    ∀ (l₂ l₁ : List ℕ) (fuel : ℕ), a.freeOffsets k = l₁ ++ l₂ → l₂.length ≤ fuel →
      a.checkList k fuel (l₂.headD ournull) (l₁.getLastD ournull) = .ok l₂.length
  | [], _, 0, _, _ => rfl
  | [], _, _ + 1, _, _ => by simp [Pool.checkList]
  | b :: l₂, l₁, fuel + 1, he, hf => by
    obtain ⟨hl, hF⟩ := h.linked_freeOffsets hk
    have hb : b ∈ a.freeOffsets k := by simp [he]
    have hβ := (hF b).mp hb
    have hne : b ≠ ournull := fun hn => hl.fresh (hn ▸ hb)
    have hlt : b < a.poolBlocks := h.start_lt (free_mem hβ)
    have hptr : Pool.ptr b = 1024 * b := Pool.ptr_eq (hlt.trans h.small)
    obtain ⟨hprev, hnext⟩ := hl.links l₁ b l₂ he
    have hbits : a.map.testAny b (b + 2 ^ k) = false := Map.testAny_of_forall fun n h1 h2 =>
      h.bitTest_free hβ (mem_extent.mpr ⟨h1, h2⟩)
    have hhead : a.mem (1024 * b) = magic := h.header _ hβ
    have hback : a.mem (1024 * b + 1) = l₁.getLastD ournull := hprev
    have htrail : a.mem (1024 * b + 1024 * 2 ^ k - 1) = k + lenOffset := by
      rw [← Nat.mul_add]
      exact h.trailer _ hβ
    have ih := Heap.checkList h hk l₂ (l₁ ++ [b]) fuel (by simp [he]) (by simpa using hf)
    rw [List.getLastD_concat, ← hnext] at ih
    rw [List.headD_cons, Pool.checkList, if_neg hne, if_neg (by omega)]
    simp only [hbits, hptr, Pool.words_eq, Pool.offMagic, Pool.offPrev, Pool.offNext, Nat.add_zero,
      Bool.false_eq_true, if_false]
    rw [if_neg (not_not.mpr hhead), if_neg (not_not.mpr hback), if_neg (not_not.mpr htrail)]
    have ih' : a.checkList k fuel (a.mem (1024 * b + 2)) b = .ok l₂.length := ih
    rw [ih']
    rfl

theorem Heap.checkList_all (h : Heap a L F R M) (hk : k < numSizes) :
    a.checkList k (a.poolBlocks / 2 ^ k) (a.freeList k) ournull =
      .ok (a.freeOffsets k).length := by
  obtain ⟨hl, hF⟩ := h.linked_freeOffsets hk
  have hlen := h.length_le hl.nodup hF
  have hfuel : (a.freeOffsets k).length ≤ a.poolBlocks / 2 ^ k :=
    (Nat.le_div_iff_mul_le (Nat.two_pow_pos k)).mpr hlen
  have := h.checkList hk (a.freeOffsets k) [] _ rfl hfuel
  rwa [← hl.head_eq] at this

/-- The blocks on the list of order `k`, counted in blocks of the least order. -/
def Pool.listStore (a : Pool) (k : ℕ) : ℕ := (a.freeOffsets k).length * 2 ^ k

theorem Heap.checkSizes (h : Heap a L F R M) (sizes : List ℕ) (hs : ∀ k ∈ sizes, k < numSizes) :
    ∀ seen, seen + (sizes.map a.listStore).sum < 2 ^ 32 →
      a.checkSizes sizes seen = (.success, sizes.map fun k => (a.freeOffsets k).length,
        seen + (sizes.map a.listStore).sum) := by
  induction sizes with
  | nil => intro seen _; simp [Pool.checkSizes]
  | cons k sizes ih =>
    intro seen hlt
    rw [List.map_cons, List.sum_cons] at hlt
    have hseen : u32 (seen + (a.freeOffsets k).length * 2 ^ k) = seen + a.listStore k :=
      u32_of_lt (by simp only [Pool.listStore] at hlt; omega)
    rw [Pool.checkSizes, h.checkList_all (hs k (by simp))]
    simp only [hseen]
    rw [ih (fun j hj => hs j (by simp [hj])) (seen + a.listStore k) (by omega), List.map_cons,
      List.map_cons, List.sum_cons, Nat.add_assoc]

/-- The lists hold the free blocks. -/
theorem Heap.sum_listStore (h : Heap a L F R M) :
    ((List.range numSizes).map a.listStore).sum = ∑ β ∈ F, 2 ^ β.order := by
  have hdisj : ((Finset.range numSizes : Finset ℕ) : Set ℕ).PairwiseDisjoint fun k =>
      (a.freeOffsets k).toFinset.image fun b => (⟨b, k⟩ : Block) := by
    intro j _ k _ hne
    refine Finset.disjoint_left.mpr fun β h1 h2 => hne ?_
    obtain ⟨b, -, rfl⟩ := Finset.mem_image.mp h1
    obtain ⟨c, -, he⟩ := Finset.mem_image.mp h2
    exact (congrArg Block.order he).symm
  rw [← h.freeBlocks_eq, Pool.freeBlocks, Finset.sum_biUnion hdisj, ← List.sum_toFinset _
    List.nodup_range, List.toFinset_range]
  refine Finset.sum_congr rfl fun k hk => ?_
  obtain ⟨hl, -⟩ := h.linked_freeOffsets (Finset.mem_range.mp hk)
  rw [Finset.sum_image fun b _ c _ he => congrArg Block.start he]
  simp only [Finset.sum_const, List.toFinset_card_of_nodup hl.nodup, smul_eq_mul, Pool.listStore]

/-- `Check` succeeds and counts the blocks on every list. -/
theorem Quiet.check (h : Quiet a L F R) :
    a.check = (.success, (List.range numSizes).map fun k => (a.freeOffsets k).length) := by
  have hsum := h.heap.sum_listStore
  have hall := h.heap.sum_add_sum
  have hcard := h.heap.card_le
  have hsmall := h.heap.small
  have hbytes := h.bytes
  have hsizes := h.heap.checkSizes (List.range numSizes) (fun k hk => List.mem_range.mp hk) 0
    (by omega)
  rw [Pool.check, hsizes]
  simp only [hsum, Nat.zero_add, minBits]
  rw [u32_of_lt (by omega), if_neg (by omega)]

/-- In a reachable state nothing that a client may call reports corruption or a
bad pointer. -/
theorem no_corruption_exit (h : Reachable σ) :
    (∀ bits, σ.pool.buddyMalloc bits ≠ .error .internalError) ∧
    (∀ β ∈ σ.live, σ.pool.buddyAllocSize (σ.pool.addr β) = .ok β.order ∧
      (σ.pool.free (σ.pool.addr β)).1 = .success ∧
      ∀ size, (σ.pool.realloc (σ.pool.addr β) size).1 ∈
        ({.success, .noMemory, .noResources} : Finset IOReturn)) ∧
    σ.pool.check.1 = .success := by
  obtain ⟨h0, F, hq⟩ := h.quiet
  refine ⟨fun bits hb => ?_, fun β hβ => ⟨hq.heap.buddyAllocSize hβ, ?_, fun size => ?_⟩, ?_⟩
  · rcases buddyMalloc_cases hq bits with he | ⟨k, -, -, -, he⟩
    · rw [he] at hb; cases hb
    · rw [he] at hb; cases hb
  · obtain ⟨a', F', he, -⟩ := hq.free_kept h0 hβ
    rw [he]
  · obtain ⟨r, new, a', L', F', he, hres, -⟩ := hq.realloc h0 hβ size
    rw [he]
    cases hres with
    | freed _ => simp
    | resized _ _ => simp
    | failed hr => rcases hr with rfl | rfl <;> simp
  · rw [hq.check]

theorem no_corruption_exit_smallSys :
    (smallSys.pool.free (smallSys.pool.addr ⟨0, 1⟩)).1 = .success ∧
      smallSys.pool.check.1 = .success := by
  obtain ⟨-, hlive, hcheck⟩ := no_corruption_exit reachable_smallSys
  exact ⟨(hlive ⟨0, 1⟩ (by rw [live_smallSys]; simp)).2.1, hcheck⟩

end Cesvga2.Allocator
