import Cesvga2.Allocator.Heap

/-! Putting a range of blocks on the free lists. The two inner loops of `toFree`
find the largest block that fits whatever size the last one had, so the outer
loop frees the greedy cut of the range, piece by piece. -/

namespace Cesvga2.Allocator

open Blocks Blocks.Block Links

variable {a a' : Pool} {L F : Finset Block} {R M : Finset ℕ} {β γ : Block} {i past first : ℕ}

/-! ### One block -/

/-- The memory after a push, whatever the order of its writes. -/
theorem Pushed.of_mem (hb : a'.poolBlocks = a.poolBlocks) (hm : a'.map = a.map)
    (hl : a'.freeList = Function.update a.freeList γ.order γ.start)
    (hhead : a.freeList γ.order ≠ ournull → a.freeList γ.order ∉ γ.extent)
    (hmem : ∀ w, a'.mem w = if w = 1024 * γ.start then magic
      else if w = 1024 * γ.start + 1 then ournull
      else if w = 1024 * γ.start + 2 then a.freeList γ.order
      else if w = 1024 * γ.past - 1 then γ.order + lenOffset
      else if a.freeList γ.order ≠ ournull ∧ w = 1024 * a.freeList γ.order + 1 then γ.start
      else a.mem w) : Pushed a γ a' := by
  have hlt := γ.start_lt_past
  refine ⟨hb, hm, hl, ?_, ?_, ?_, ?_, fun hne => ?_, fun w hw hne => ?_⟩
  · rw [hmem, if_pos rfl]
  · rw [Pool.prev, hmem, if_neg (by omega), if_pos rfl]
  · rw [Pool.next, hmem, if_neg (by omega), if_neg (by omega), if_pos rfl]
  · rw [hmem, if_neg (by omega), if_neg (by omega), if_neg (by omega), if_pos rfl]
  · have hout := hhead hne
    simp only [mem_extent, not_and, not_lt] at hout
    rw [Pool.prev, hmem, if_neg (by omega), if_neg (by omega), if_neg (by omega),
      if_neg (by omega), if_pos ⟨hne, rfl⟩]
  · simp only [mem_extent, not_and, not_lt] at hw
    rw [hmem, if_neg (by omega), if_neg (by omega), if_neg (by omega), if_neg (by omega),
      if_neg fun h => hne h.1 h.2]

theorem makeFree_pushed (hγ : γ.past < 2 ^ 20)
    (hhead : a.freeList γ.order ≠ ournull →
      a.freeList γ.order < 2 ^ 20 ∧ a.freeList γ.order ∉ γ.extent) :
    Pushed a γ (a.makeFree γ.start γ.order false) := by
  have hlt := γ.start_lt_past
  have hpast : γ.past = γ.start + 2 ^ γ.order := rfl
  have hptr : Pool.ptr γ.start = 1024 * γ.start := Pool.ptr_eq (by omega)
  refine Pushed.of_mem (by simp [Pool.makeFree]) (by simp [Pool.makeFree])
    (by simp [Pool.makeFree]) (fun h => (hhead h).2) fun w => ?_
  simp only [Pool.makeFree, Bool.false_eq_true, if_false, Pool.setList_mem, Pool.setPrev_mem,
    Pool.write_mem, Pool.write_freeList, hptr, Pool.words_eq, Pool.offMagic, Pool.offPrev,
    Pool.offNext]
  by_cases hne : a.freeList γ.order = ournull
  · simp only [hne, ne_eq, not_true_eq_false, false_and, if_false]
    split_ifs <;> omega
  · obtain ⟨h1, h2⟩ := hhead hne
    simp only [mem_extent, not_and, not_lt] at h2
    simp only [hne, ne_eq, not_false_eq_true, true_and, Pool.ptr_eq h1]
    split_ifs <;> omega

@[simp] theorem makeFree_poolStart (a : Pool) (i k : ℕ) :
    (a.makeFree i k false).poolStart = a.poolStart := by
  simp [Pool.makeFree]

@[simp] theorem makeFree_poolBlocks (a : Pool) (i k : ℕ) :
    (a.makeFree i k false).poolBlocks = a.poolBlocks := by
  simp [Pool.makeFree]

@[simp] theorem makeFree_freeBytes (a : Pool) (i k : ℕ) :
    (a.makeFree i k false).freeBytes = u32 (a.freeBytes + 2 ^ (k + minBits)) := by
  simp [Pool.makeFree]

/-- A block of limbo may be pushed on the list of its order. -/
theorem Heap.head_out (h : Heap a L F R M) (ho : γ.order < numSizes) (hM : γ.extent ⊆ M)
    (hne : a.freeList γ.order ≠ ournull) :
    a.freeList γ.order < 2 ^ 20 ∧ a.freeList γ.order ∉ γ.extent := by
  have hF := (h.head_mem ho hne).1
  refine ⟨(h.start_lt (free_mem hF)).trans h.small, fun hm => ?_⟩
  exact h.ne_of_limbo (free_mem hF) (start_mem ⟨_, γ.order⟩) (hM hm)

theorem Heap.makeFree (h : Heap a L F R M) (hγ : γ.Aligned) (ho : γ.order < numSizes)
    (hM : γ.extent ⊆ M) :
    Heap (a.makeFree γ.start γ.order false) L (insert γ F) (γ.extent ∪ R) (M \ γ.extent) := by
  refine h.push hγ ho hM (makeFree_pushed ?_ (h.head_out ho hM))
  exact (h.past_le (hM.trans Finset.subset_union_right)).trans_lt h.small

/-! ### The loops -/

theorem fits_iff (past i t : ℕ) : Fits past i t ↔ ¬ (past < i + 2 ^ t ∨ i % 2 ^ t ≠ 0) := by
  simp only [Fits, Nat.dvd_iff_mod_eq_zero]
  omega

theorem growSize_spec : ∀ {fuel t : ℕ}, fuel + t = 12 →
    t ≤ Pool.growSize i past fuel t ∧ Pool.growSize i past fuel t ≤ 12 ∧
    (Pool.growSize i past fuel t < 12 → ¬ Fits past i (Pool.growSize i past fuel t + 1))
  | 0, t, h => by
    obtain rfl : t = 12 := by omega
    simp [Pool.growSize]
  | fuel + 1, t, h => by
    rw [Pool.growSize]
    split_ifs with h1 h2
    · exact ⟨le_rfl, by omega, fun _ hf => (fits_iff _ _ _).mp hf (Or.inl h1)⟩
    · exact ⟨le_rfl, by omega, fun _ hf => (fits_iff _ _ _).mp hf (Or.inr h2)⟩
    · obtain ⟨h3, h4, h5⟩ := @growSize_spec fuel (t + 1) (by omega)
      exact ⟨by omega, h4, h5⟩

theorem shrinkSize_spec (hi : i < past) : ∀ t : ℕ, ∃ s ≤ t,
    Pool.shrinkSize i past t = some s ∧ Fits past i s ∧ (s < t → ¬ Fits past i (s + 1))
  | 0 => ⟨0, le_rfl, by simp only [Pool.shrinkSize]; rw [if_neg (by omega)], fits_zero hi, by simp⟩
  | t + 1 => by
    rw [Pool.shrinkSize]
    split_ifs with h
    · obtain ⟨s, h1, h2, h3, h4⟩ := shrinkSize_spec hi t
      refine ⟨s, by omega, h2, h3, fun _ hf => ?_⟩
      rcases Nat.lt_or_ge s t with hst | hst
      · exact h4 hst hf
      · obtain rfl : s = t := by omega
        exact (fits_iff _ _ _).mp hf h
    · exact ⟨t + 1, le_rfl, rfl, (fits_iff _ _ _).mpr h, by simp⟩

/-- From any starting size the two inner loops end at the largest size. -/
theorem shrinkSize_growSize (hi : i < past) {t : ℕ} (ht : t ≤ 12) :
    Pool.shrinkSize i past (Pool.growSize i past (numSizes - 1 - t) t) =
      some (largest 12 past i) := by
  have hfuel : numSizes - 1 - t + t = 12 := by simp only [numSizes]; omega
  obtain ⟨-, h1, h2⟩ := @growSize_spec i past _ _ hfuel
  obtain ⟨s, h3, h4, h5, h6⟩ := shrinkSize_spec hi (Pool.growSize i past (numSizes - 1 - t) t)
  rw [h4, largest_eq (by omega) h5 fun hlt => ?_]
  rcases Nat.lt_or_ge s (Pool.growSize i past (numSizes - 1 - t) t) with hs | hs
  · exact h6 hs
  · rw [le_antisymm h3 hs] at hlt ⊢
    exact h2 hlt

/-- One piece after another goes on its list. -/
def freePieces (a : Pool) (zap : Bool) (l : List Block) : Pool :=
  l.foldl (fun a β => a.makeFree β.start β.order zap) a

theorem toFreeLoop_eq {zap : Bool} : ∀ (fuel : ℕ) (a : Pool) (i t : ℕ), past - i ≤ fuel → t ≤ 12 →
    Pool.toFreeLoop past zap fuel a i t = freePieces a zap (pieces 12 past i)
  | 0, a, i, t, hf, _ => by
    rw [pieces_of_le (by omega)]
    rfl
  | fuel + 1, a, i, t, hf, ht => by
    rw [Pool.toFreeLoop]
    split_ifs with hi
    · rw [shrinkSize_growSize hi ht, pieces_of_lt hi]
      have := Nat.two_pow_pos (largest 12 past i)
      exact toFreeLoop_eq fuel _ _ _ (by omega) (largest_le 12 past i)
    · rw [pieces_of_le (by omega)]
      rfl

theorem toFree_eq (a : Pool) (first past : ℕ) (zap : Bool) :
    a.toFree first past zap = freePieces a zap (pieces 12 past first) :=
  toFreeLoop_eq _ a first 0 le_rfl (by norm_num)

/-! ### A range of blocks -/

theorem tiling_tail {l : List Block} {S : Finset ℕ} (hS : Tiling (β :: l).toFinset S)
    (hβ : β ∉ l) : Tiling l.toFinset (S \ β.extent) := by
  have := hS.erase (show β ∈ (β :: l).toFinset by simp)
  rwa [List.toFinset_cons, Finset.erase_insert (by simpa using hβ)] at this

theorem Heap.freePieces {l : List Block} {S : Finset ℕ} (h : Heap a L F R M)
    (hl : ∀ β ∈ l, β.order < numSizes) (hS : Tiling l.toFinset S) (hnd : l.Nodup) (hM : S ⊆ M) :
    Heap (freePieces a false l) L (F ∪ l.toFinset) (R ∪ S) (M \ S) := by
  induction l generalizing a F R M S with
  | nil =>
    obtain rfl : S = ∅ := by simpa using hS.cover.symm
    simpa [Allocator.freePieces] using h
  | cons β l ih =>
    obtain ⟨hβl, hnd⟩ := List.nodup_cons.mp hnd
    have hβ : β ∈ (β :: l).toFinset := by simp
    have hβS : β.extent ⊆ S := hS.extent_subset hβ
    have h1 := h.makeFree (hS.aligned β hβ) (hl β (by simp)) (hβS.trans hM)
    have h2 := ih h1 (fun γ hγ => hl γ (by simp [hγ])) (tiling_tail hS hβl) hnd
      (Finset.sdiff_subset_sdiff hM le_rfl)
    have e1 : F ∪ (β :: l).toFinset = insert β F ∪ l.toFinset := by
      rw [List.toFinset_cons, Finset.union_insert, Finset.insert_union]
    have e2 : R ∪ S = β.extent ∪ R ∪ S \ β.extent := by
      ext n
      have := @hβS n
      simp only [Finset.mem_union, Finset.mem_sdiff]
      tauto
    have e3 : M \ S = (M \ β.extent) \ (S \ β.extent) := by
      ext n
      have := @hβS n
      simp only [Finset.mem_sdiff]
      tauto
    rw [e1, e2, e3]
    exact h2

theorem nodup_pieces (past i : ℕ) : (pieces 12 past i).Nodup := by
  induction i using pieces.induct 12 past with
  | case1 i h ih =>
    rw [pieces_of_lt h, List.nodup_cons]
    refine ⟨fun hm => ?_, ih⟩
    have h1 := (mem_pieces _ _ hm).2.1
    have h2 := Nat.two_pow_pos (largest 12 past i)
    simp only at h1
    omega
  | case2 i h => simp [pieces_of_le (not_lt.mp h)]

theorem pieces_order_lt {past i : ℕ} : ∀ β ∈ pieces 12 past i, β.order < numSizes := by
  intro β hβ
  have := largest_le 12 past β.start
  rw [(mem_pieces i β hβ).2.2.2]
  simp only [numSizes]
  omega

/-- The whole range leaves limbo, cut greedily. -/
theorem Heap.toFree (h : Heap a L F R M) (hM : Finset.Ico first past ⊆ M) :
    Heap (a.toFree first past false) L (F ∪ (pieces 12 past first).toFinset)
      (R ∪ Finset.Ico first past) (M \ Finset.Ico first past) := by
  rw [toFree_eq]
  exact h.freePieces pieces_order_lt (tiling_pieces 12 past first) (nodup_pieces past first) hM

/-- The rest of a block whose front has an owner leaves limbo. -/
theorem Heap.toFree_rest {β : Block} {k : ℕ} (hk : k ≤ β.order) (hsub : β.extent ⊆ R)
    (h : Heap a L F ((⟨β.start, k⟩ : Block).extent ∪ R \ β.extent)
      ((∅ ∪ β.extent) \ (⟨β.start, k⟩ : Block).extent)) :
    Heap (a.toFree (β.start + 2 ^ k) β.past false) L
      (F ∪ (pieces 12 β.past (β.start + 2 ^ k)).toFinset) R ∅ := by
  have hfront := Block.front_subset hk
  rw [Finset.empty_union] at h
  have hfree := h.toFree (Block.extent_sdiff_front hk).ge
  have hR : (⟨β.start, k⟩ : Block).extent ∪ R \ β.extent ∪
      Finset.Ico (β.start + 2 ^ k) β.past = R := by
    rw [← Block.extent_sdiff_front hk, Finset.union_right_comm,
      Finset.union_sdiff_of_subset hfront, Finset.union_sdiff_of_subset hsub]
  rwa [hR, Block.extent_sdiff_front hk, Finset.sdiff_self] at hfree

@[simp] theorem toFree_poolStart (a : Pool) (first past : ℕ) :
    (a.toFree first past false).poolStart = a.poolStart := by
  rw [toFree_eq]
  generalize pieces 12 past first = l
  induction l generalizing a with
  | nil => rfl
  | cons β l ih => exact (ih _).trans (makeFree_poolStart a β.start β.order)

@[simp] theorem toFree_poolBlocks (a : Pool) (first past : ℕ) :
    (a.toFree first past false).poolBlocks = a.poolBlocks := by
  rw [toFree_eq]
  generalize pieces 12 past first = l
  induction l generalizing a with
  | nil => rfl
  | cons β l ih => exact (ih _).trans (makeFree_poolBlocks a β.start β.order)

theorem freePieces_freeBytes (a : Pool) (l : List Block) (ha : a.freeBytes < 2 ^ 32) :
    (freePieces a false l).freeBytes =
      u32 (a.freeBytes + 4096 * (l.map fun β => 2 ^ β.order).sum) := by
  induction l generalizing a with
  | nil => simpa [freePieces] using (u32_of_lt ha).symm
  | cons β l ih =>
    have h1 := ih (a.makeFree β.start β.order false) (by
      rw [makeFree_freeBytes]
      exact u32_lt _)
    rw [makeFree_freeBytes] at h1
    refine h1.trans ?_
    simp only [u32, minBits, pow_add, List.map_cons, List.sum_cons]
    omega

theorem toFree_freeBytes (a : Pool) (first past : ℕ) (ha : a.freeBytes < 2 ^ 32) :
    (a.toFree first past false).freeBytes = u32 (a.freeBytes + 4096 * (past - first)) := by
  rw [toFree_eq, freePieces_freeBytes a _ ha]
  have := (tiling_pieces 12 past first).sum_size
  rw [List.sum_toFinset _ (nodup_pieces past first), Nat.card_Ico] at this
  rw [this]

/-! ### What stands on the lists, whatever the pool holds -/

theorem ptr_mod (off : ℕ) : Pool.ptr off % 1024 = 0 := by
  simp only [Pool.ptr, minBits, u32]
  omega

/-- The words after `makeFree`, the back links apart: those may be written for the old head too. -/
theorem makeFree_mem {zap : Bool} {w : ℕ} (hγ : γ.past ≤ 2 ^ 20) (hw : w % 1024 ≠ 1) :
    (a.makeFree γ.start γ.order zap).mem w =
      if w = 1024 * γ.past - 1 then γ.order + lenOffset
      else if w = 1024 * γ.start + 2 then a.freeList γ.order
      else if w = 1024 * γ.start then magic
      else if zap = true ∧ 1024 * γ.start ≤ w ∧ w < 1024 * γ.past then 0
      else a.mem w := by
  have hlt := γ.start_lt_past
  have hpast : γ.past = γ.start + 2 ^ γ.order := rfl
  have hptr : Pool.ptr γ.start = 1024 * γ.start := Pool.ptr_eq (by omega)
  have hhead : w ≠ Pool.ptr (a.freeList γ.order) + 1 := fun he => by
    have := ptr_mod (a.freeList γ.order)
    omega
  cases zap with
  | false =>
    simp only [Pool.makeFree, Bool.false_eq_true, if_false, Pool.setList_mem, Pool.setPrev_mem,
      Pool.write_mem, Pool.write_freeList, hptr, Pool.words_eq, Pool.offMagic, Pool.offPrev,
      Pool.offNext, hhead, and_false, false_and]
    split_ifs <;> omega
  | true =>
    simp only [Pool.makeFree, if_true, Pool.setList_mem, Pool.setPrev_mem, Pool.write_mem,
      Pool.bzero_mem, Pool.write_freeList, Pool.bzero_freeList, hptr, Pool.words_eq, Pool.offMagic,
      Pool.offPrev, Pool.offNext, hhead, and_false, true_and, if_false]
    split_ifs <;> omega

theorem makeFree_freeList (a : Pool) (i k : ℕ) (zap : Bool) :
    (a.makeFree i k zap).freeList = Function.update a.freeList k i := by
  cases zap <;> simp [Pool.makeFree]

/-- The pool `a'` is `a` with the blocks `l` on top of the free lists, the last one first; the old
lists follow. Outside the blocks only back links may have changed. -/
structure Stacked (a : Pool) (l : List Block) (a' : Pool) : Prop where
  lists : ∀ k, Leads a'.next (a'.freeList k)
    ((l.filter fun β => β.order = k).map Block.start).reverse (a.freeList k)
  header : ∀ β ∈ l, a'.mem (1024 * β.start) = magic
  trailer : ∀ β ∈ l, a'.mem (1024 * β.past - 1) = β.order + lenOffset
  kept : ∀ b j, j < 1024 → j ≠ Pool.offPrev → (∀ β ∈ l, b ∉ β.extent) →
    a'.mem (1024 * b + j) = a.mem (1024 * b + j)

theorem Stacked.nil (a : Pool) : Stacked a [] a :=
  ⟨fun _ => rfl, by simp, by simp, fun _ _ _ _ _ => rfl⟩

/-- `makeFree` writes no words of other blocks, back links apart. -/
theorem makeFree_mem_of_notMem {zap : Bool} {b j : ℕ} (hγ : γ.past ≤ 2 ^ 20) (hj : j < 1024)
    (hprev : j ≠ Pool.offPrev) (hb : b ∉ γ.extent) :
    (a.makeFree γ.start γ.order zap).mem (1024 * b + j) = a.mem (1024 * b + j) := by
  have hlt := γ.start_lt_past
  simp only [mem_extent, not_and, not_lt] at hb
  simp only [Pool.offPrev] at hprev
  rw [makeFree_mem hγ (by omega), if_neg (by omega), if_neg (by omega), if_neg (by omega),
    if_neg (by omega)]

section Written

variable {zap : Bool} (hγ : γ.past ≤ 2 ^ 20)

include hγ

theorem makeFree_next : (a.makeFree γ.start γ.order zap).next γ.start = a.freeList γ.order := by
  have hlt := γ.start_lt_past
  rw [Pool.next, makeFree_mem hγ (by omega), if_neg (by omega), if_pos rfl]

theorem makeFree_header : (a.makeFree γ.start γ.order zap).mem (1024 * γ.start) = magic := by
  have hlt := γ.start_lt_past
  rw [makeFree_mem hγ (by omega), if_neg (by omega), if_neg (by omega), if_pos rfl]

theorem makeFree_trailer :
    (a.makeFree γ.start γ.order zap).mem (1024 * γ.past - 1) = γ.order + lenOffset := by
  have hlt := γ.start_lt_past
  rw [makeFree_mem hγ (by omega), if_pos rfl]

end Written

namespace Stacked

variable {l : List Block} {zap : Bool} (h : Stacked a l a') (hγ : γ.past ≤ 2 ^ 20)
  (hd : ∀ β ∈ l, Disjoint β.extent γ.extent)

include h hγ hd

/-- The new block stands on top of its list. -/
theorem lists_makeFree (k : ℕ) : Leads (a'.makeFree γ.start γ.order zap).next
    ((a'.makeFree γ.start γ.order zap).freeList k)
    (((l ++ [γ]).filter fun β => β.order = k).map Block.start).reverse (a.freeList k) := by
  have hbehind : Leads (a'.makeFree γ.start γ.order zap).next (a'.freeList k)
      ((l.filter fun β => β.order = k).map Block.start).reverse (a.freeList k) := by
    refine (h.lists k).congr fun c hc => ?_
    obtain ⟨β, hβ, rfl⟩ := List.mem_map.mp (List.mem_reverse.mp hc)
    have hstart := Finset.disjoint_left.mp (hd β (List.mem_of_mem_filter hβ)) β.start_mem
    exact makeFree_mem_of_notMem hγ (by norm_num) (by decide) hstart
  rw [makeFree_freeList]
  by_cases hk : k = γ.order
  · subst hk
    rw [Function.update_self, List.filter_append, List.filter_singleton, decide_eq_true rfl,
      cond_true, List.map_append, List.reverse_append]
    have htop : (a'.makeFree γ.start γ.order zap).next γ.start = a'.freeList γ.order :=
      makeFree_next hγ
    exact ⟨rfl, htop ▸ hbehind⟩
  · have hf : (l ++ [γ]).filter (fun β => β.order = k) = l.filter fun β => β.order = k := by
      simp [List.filter_append, Ne.symm hk]
    rw [hf, Function.update_of_ne hk]
    exact hbehind

/-- One more block, apart from the others. -/
theorem snoc : Stacked a (l ++ [γ]) (a'.makeFree γ.start γ.order zap) := by
  refine ⟨h.lists_makeFree hγ hd, fun β hβ => ?_, fun β hβ => ?_, fun b j hj hprev hb => ?_⟩
  · rcases List.mem_append.mp hβ with hβ | hβ
    · have hstart := Finset.disjoint_left.mp (hd β hβ) β.start_mem
      have hheader : (a'.makeFree γ.start γ.order zap).mem (1024 * β.start + 0) =
          a'.mem (1024 * β.start + 0) :=
        makeFree_mem_of_notMem hγ (by norm_num) (by decide) hstart
      exact hheader.trans (h.header β hβ)
    · obtain rfl := List.mem_singleton.mp hβ
      exact makeFree_header hγ
  · rcases List.mem_append.mp hβ with hβ | hβ
    · have hlast := Finset.disjoint_left.mp (hd β hβ) β.last_mem
      have hw : 1024 * β.past - 1 = 1024 * (β.past - 1) + 1023 := by
        have := β.start_lt_past
        omega
      rw [hw, makeFree_mem_of_notMem hγ (by norm_num) (by decide) hlast, ← hw]
      exact h.trailer β hβ
    · obtain rfl := List.mem_singleton.mp hβ
      exact makeFree_trailer hγ
  · rw [makeFree_mem_of_notMem hγ hj hprev (hb γ (by simp))]
    exact h.kept b j hj hprev fun β hβ => hb β (by simp [hβ])

end Stacked

theorem stacked_freePieces (a : Pool) (zap : Bool) {l : List Block}
    (hpast : ∀ β ∈ l, β.past ≤ 2 ^ 20)
    (hd : l.Pairwise fun β γ => Disjoint β.extent γ.extent) :
    Stacked a l (freePieces a zap l) := by
  induction l using List.reverseRecOn with
  | nil => exact Stacked.nil a
  | append_singleton l γ ih =>
    obtain ⟨hl, -, hγ⟩ := List.pairwise_append.mp hd
    rw [freePieces, List.foldl_append]
    exact (ih (fun β hβ => hpast β (by simp [hβ])) hl).snoc (hpast γ (by simp))
      fun β hβ => hγ β hβ γ (by simp)

/-- The list `l` cuts `[first, past)` into aligned blocks up to the top order, each the largest one
that fits where it starts. -/
structure Cut (top first past : ℕ) (l : List Block) : Prop where
  disjoint : l.Pairwise fun β γ => Disjoint β.extent γ.extent
  cover : l.toFinset.biUnion extent = Finset.Ico first past
  aligned : ∀ β ∈ l, 2 ^ β.order ∣ β.start
  order_le : ∀ β ∈ l, β.order ≤ top
  past_le : ∀ β ∈ l, β.start + 2 ^ β.order ≤ past
  largest : ∀ β ∈ l, ∀ k ≤ top, 2 ^ k ∣ β.start → β.start + 2 ^ k ≤ past → k ≤ β.order

theorem cut_pieces (first past : ℕ) : Cut 12 first past (pieces 12 past first) where
  disjoint := by
    have htiling := (tiling_pieces 12 past first).disjoint
    refine (nodup_pieces past first).pairwise_of_forall_ne fun β hβ γ hγ hne => ?_
    exact htiling (by simpa using hβ) (by simpa using hγ) hne
  cover := (tiling_pieces 12 past first).cover
  aligned β hβ := (mem_pieces first β hβ).1
  order_le β hβ := by
    rw [(mem_pieces first β hβ).2.2.2]
    exact largest_le 12 past β.start
  past_le β hβ := (mem_pieces first β hβ).2.2.1
  largest β hβ k hk hdvd hfit := by
    rw [(mem_pieces first β hβ).2.2.2]
    exact Nat.le_findGreatest hk ⟨hdvd, hfit⟩

/-- **Putting a range on the free lists.** The loop of `toFree` ends within one pass for each block
number of the range. It leaves the greedy cut of the range on top of the free lists, whatever the
lists held; and if the lists were sound and the range in limbo, they are sound again with just the
blocks of the cut added. -/
theorem toFree_cut (a : Pool) (first past : ℕ) (zap : Bool) (hsmall : a.poolBlocks < 2 ^ 20)
    (hpast : past ≤ a.poolBlocks) :
    (∀ fuel, past - first ≤ fuel →
      Pool.toFreeLoop past zap fuel a first 0 = a.toFree first past zap) ∧
    ∃ l : List Block, Cut 12 first past l ∧ Stacked a l (a.toFree first past zap) ∧
      (zap = false → ∀ L F R M, Heap a L F R M → Finset.Ico first past ⊆ M →
        Heap (a.toFree first past zap) L (F ∪ l.toFinset) (R ∪ Finset.Ico first past)
          (M \ Finset.Ico first past)) := by
  refine ⟨fun fuel hfuel => ?_, pieces 12 past first, cut_pieces first past, ?_, ?_⟩
  · rw [toFree_eq]
    exact toFreeLoop_eq fuel a first 0 hfuel (by norm_num)
  · rw [toFree_eq]
    refine stacked_freePieces a zap (fun β hβ => ?_) (cut_pieces first past).disjoint
    exact (((cut_pieces first past).past_le β hβ).trans hpast).trans hsmall.le
  · rintro rfl L F R M h hM
    exact h.toFree hM

/-- A pool of eight blocks, none of them released yet. -/
def eightBlocks : Pool :=
  { poolStart := 0, poolBlocks := 8, freeList := fun _ => ournull, map := fun _ => 0xFF#8,
    freeBytes := 0, mem := fun _ => 0 }

theorem toFree_cut_eightBlocks : eightBlocks.poolBlocks < 2 ^ 20 ∧ 7 ≤ eightBlocks.poolBlocks ∧
    ∃ l : List Block, Cut 12 1 7 l ∧ Stacked eightBlocks l (eightBlocks.toFree 1 7 true) := by
  obtain ⟨-, l, hcut, hstacked, -⟩ := toFree_cut eightBlocks 1 7 true (by decide) (by decide)
  exact ⟨by decide, by decide, l, hcut, hstacked⟩

end Cesvga2.Allocator
