import Cesvga2.Allocator.Runs

/-! What the allocator writes. Its own words lie in free blocks and in blocks on
the way to the lists, so no call changes a word of a block that stays live.
`Realloc` copies a block before it frees it, and the bytes a client had are at
the front of the block it gets. -/

namespace Cesvga2.Allocator

open Blocks Blocks.Block Links

variable {a a' : Pool} {L F : Finset Block} {R M : Finset ℕ} {α β γ : Block} {w bits k : ℕ}

/-! ### List edits -/

namespace Heap

theorem free_word_ne (h : Heap a L F R M) (hα : α ∈ L) (hw : w / 1024 ∈ α.extent) (hβ : β ∈ F) :
    w / 1024 ∉ β.extent := fun hm =>
  Finset.disjoint_left.mp h.apart hα
    (h.tiling.eq_of_mem (live_mem hα) (free_mem hβ) hw hm ▸ hβ)

theorem link_word_ne (h : Heap a L F R M) (hα : α ∈ L) (hw : w / 1024 ∈ α.extent) {b j i : ℕ}
    (hb : (⟨b, j⟩ : Block) ∈ F) (hi : i < 1024) : w ≠ 1024 * b + i := by
  rintro rfl
  rw [start_word hi] at hw
  exact h.free_word_ne (w := 1024 * b) hα (by rwa [Nat.mul_div_cancel_left _ (by norm_num)]) hb
    (by rw [Nat.mul_div_cancel_left _ (by norm_num)]; exact start_mem ⟨b, j⟩)

theorem push_live (h : Heap a L F R M) (ho : γ.order < numSizes) (hM : γ.extent ⊆ M)
    (hp : Pushed a γ a') (hα : α ∈ L) (hw : w / 1024 ∈ α.extent) : a'.mem w = a.mem w :=
  hp.rest w (fun hm => h.ne_of_limbo (live_mem hα) hw (hM hm)) fun hne =>
    h.link_word_ne hα hw (h.head_mem ho hne).1 (by norm_num)

theorem unlink_live (h : Heap a L F R M) (hβ : β ∈ F) (hu : Unlinked a β a') (hα : α ∈ L)
    (hw : w / 1024 ∈ α.extent) : a'.mem w = a.mem w :=
  hu.rest w (h.free_word_ne hα hw hβ)
    (fun hne => h.link_word_ne hα hw (h.next_mem hβ hne).1 (by norm_num))
    fun hne => h.link_word_ne hα hw (h.prev_mem hβ hne).1 (by norm_num)

end Heap

/-! ### Calls -/

theorem Heap.makeFree_live (h : Heap a L F R M) (ho : γ.order < numSizes) (hM : γ.extent ⊆ M)
    (hα : α ∈ L) (hw : w / 1024 ∈ α.extent) :
    (a.makeFree γ.start γ.order false).mem w = a.mem w := by
  refine h.push_live ho hM (makeFree_pushed ?_ (h.head_out ho hM)) hα hw
  exact (h.past_le (hM.trans Finset.subset_union_right)).trans_lt h.small

theorem Heap.freePieces_live {l : List Block} {S : Finset ℕ} (h : Heap a L F R M)
    (hl : ∀ β ∈ l, β.order < numSizes) (hS : Tiling l.toFinset S) (hnd : l.Nodup) (hM : S ⊆ M)
    (hα : α ∈ L) (hw : w / 1024 ∈ α.extent) : (Allocator.freePieces a false l).mem w = a.mem w := by
  induction l generalizing a F R M S with
  | nil => rfl
  | cons β l ih =>
    obtain ⟨hβl, hnd⟩ := List.nodup_cons.mp hnd
    have hβ : β ∈ (β :: l).toFinset := by simp
    have hβM : β.extent ⊆ M := (hS.extent_subset hβ).trans hM
    have ho : β.order < numSizes := hl β (by simp)
    have h1 := h.makeFree (hS.aligned β hβ) ho hβM
    exact (ih h1 (fun γ hγ => hl γ (by simp [hγ])) (tiling_tail hS hβl) hnd
      (Finset.sdiff_subset_sdiff hM le_rfl)).trans (h.makeFree_live ho hβM hα hw)

theorem Heap.toFree_live {first past : ℕ} (h : Heap a L F R M) (hM : Finset.Ico first past ⊆ M)
    (hα : α ∈ L) (hw : w / 1024 ∈ α.extent) :
    (a.toFree first past false).mem w = a.mem w := by
  rw [toFree_eq]
  exact h.freePieces_live pieces_order_lt (tiling_pieces 12 past first) (nodup_pieces past first)
    hM hα hw

theorem Heap.carve_live (h : Heap a L F R ∅) (hk : k < numSizes) (hne : a.freeList k ≠ ournull)
    (hle : bits ≤ k) (hα : α ∈ L) (hw : w / 1024 ∈ α.extent) :
    (a.carve bits k).mem w = a.mem w := by
  have hβ := (h.head_mem hk hne).1
  have hu := h.unlinked_head hk hne
  have hfront := h.front hβ hle hu (sub32 a.freeBytes (2 ^ (k + minBits)))
  rw [Finset.empty_union, Block.extent_sdiff_front (β := ⟨a.freeList k, k⟩) hle] at hfront
  have hmem := h.unlink_live hβ hu hα hw
  rw [h.carve_eq hk hne]
  exact (hfront.toFree_live subset_rfl (Finset.mem_insert_of_mem hα) hw).trans hmem

theorem Quiet.malloc_live (h : Quiet a L F R) {bytes p : ℕ} (hm : a.malloc bytes = .ok (p, a'))
    (hα : α ∈ L) (hw : w / 1024 ∈ α.extent) : a'.mem w = a.mem w := by
  rw [Pool.malloc] at hm
  cases hb : Pool.sizeBits bytes with
  | none => rw [hb] at hm; cases hm
  | some k =>
    rw [hb] at hm
    rcases buddyMalloc_cases h k with he | ⟨r, hle, hr, hne, he⟩
    · cases he.symm.trans hm
    · cases he.symm.trans hm
      exact h.heap.carve_live hr hne hle hα hw

/-- The merge loop writes in free blocks only. -/
theorem Heap.mergeLoop_live : ∀ (fuel : ℕ) {a : Pool} {F : Finset Block} {γ : Block},
    Heap a L F (R \ γ.extent) γ.extent → γ.Aligned → α ∈ L → w / 1024 ∈ α.extent →
    (Pool.mergeLoop fuel a γ.order γ.start).2.1.mem w = a.mem w
  | 0, _, _, _, _, _, _, _ => rfl
  | fuel + 1, a, F, γ, h, hγ, hα, hw => by
    rcases h.merge_cases hγ fuel with ⟨-, he⟩ | ⟨a₁, hb, hu, -, -, he⟩
    · rw [he]
    · rw [he]
      exact (mergeLoop_live fuel (h.merge_parent hγ hb hu) (parent_aligned hγ) hα hw).trans
        (h.unlink_live hb hu hα hw)

theorem Quiet.free_live (h : Quiet a L F R) (h0 : 0 < a.poolStart) (hα : α ∈ L)
    (hβ : β ∈ L.erase α) (hw : w / 1024 ∈ β.extent) :
    (a.free (a.addr α)).2.mem w = a.mem w := by
  have ho := h.heap.order_lt α (Heap.live_mem hα)
  have hal := h.heap.tiling.aligned α (Heap.live_mem hα)
  have hd := h.heap.drop hα
  rw [Finset.empty_union] at hd
  obtain ⟨a₁, F', γ, he, hm⟩ := hd.mergeLoop (12 - α.order)
    (h.heap.tiling.extent_subset (Heap.live_mem hα)) hal (by simp only [numSizes] at ho; omega)
  obtain ⟨a₂, he₂, hpush, -, -⟩ := hm.heap.addFree hm.order_lt subset_rfl α.order
  have hmerge := hd.mergeLoop_live (12 - α.order) hal hβ hw
  rw [he] at hmerge
  rw [h.heap.free_eq h0 hα he, he₂]
  exact (hm.heap.push_live hm.order_lt subset_rfl hpush hβ hw).trans hmerge

theorem Quiet.shrink_live (h : Quiet a L F R) (hα : α ∈ L) (hk : k < α.order)
    (hβ : β ∈ insert ⟨α.start, k⟩ (L.erase α)) (hw : w / 1024 ∈ β.extent) :
    (((a.bitSet (α.start + 2 ^ k - 1)).bitClear (α.past - 1)).toFree
      (α.start + 2 ^ k) α.past false).mem w = a.mem w := by
  have hcut := h.heap.cut hα hk
  rw [Finset.empty_union, Block.extent_sdiff_front hk.le] at hcut
  exact hcut.toFree_live subset_rfl hβ hw

/-! ### Realloc -/

/-- The word at `i` within a block. -/
theorem word_mem {i : ℕ} (hi : i < 1024 * 2 ^ β.order) :
    (1024 * β.start + i) / 1024 ∈ β.extent := by
  simp only [mem_extent, Block.past]
  omega

/-- The words of the old block that the new one has room for are at its front,
and the other live blocks have the words they had. -/
structure Carried (a : Pool) (L : Finset Block) (α : Block) (a' : Pool) (β : Block) : Prop where
  front : ∀ i < 1024 * 2 ^ α.order, i < 1024 * 2 ^ β.order →
    a'.mem (1024 * β.start + i) = a.mem (1024 * α.start + i)
  others : ∀ γ ∈ L.erase α, ∀ i < 1024 * 2 ^ γ.order,
    a'.mem (1024 * γ.start + i) = a.mem (1024 * γ.start + i)

theorem Quiet.carried_shrunk (h : Quiet a L F R) (hα : α ∈ L) (hk : k < α.order) :
    Carried a L α (((a.bitSet (α.start + 2 ^ k - 1)).bitClear (α.past - 1)).toFree
      (α.start + 2 ^ k) α.past false) ⟨α.start, k⟩ :=
  ⟨fun _ _ hi => h.shrink_live hα hk (Finset.mem_insert_self _ _) (word_mem hi),
    fun _ hγ _ hi => h.shrink_live hα hk (Finset.mem_insert_of_mem hγ) (word_mem hi)⟩

theorem Quiet.carried_moved (h : Quiet a L F R) (h0 : 0 < a.poolStart) (hα : α ∈ L)
    {size s : ℕ} {a₁ a₂ : Pool} {F₁ : Finset Block} (hle : α.order ≤ k)
    (hm : a.malloc size = .ok (a.addr ⟨s, k⟩, a₁))
    (hdis : ∀ β ∈ L, Disjoint β.extent (⟨s, k⟩ : Block).extent)
    (hkept : Kept a F R a₁ (insert ⟨s, k⟩ L) F₁)
    (hfree : (a₁.memcpy (1024 * s) (1024 * α.start) (Pool.words α.order)).free (a.addr α) =
      (.success, a₂)) : Carried a L α a₂ ⟨s, k⟩ := by
  set b := a₁.memcpy (1024 * s) (1024 * α.start) (Pool.words α.order) with hb
  have haddr : b.addr α = a.addr α := congrArg (· + 4096 * α.start) hkept.poolStart
  have hlive : ∀ γ ∈ (insert ⟨s, k⟩ L : Finset Block).erase α, ∀ i < 1024 * 2 ^ γ.order,
      a₂.mem (1024 * γ.start + i) = b.mem (1024 * γ.start + i) := fun γ hγ i hi => by
    have := (hkept.memcpy hle).free_live (show 0 < b.poolStart from hkept.poolStart ▸ h0)
      (Finset.mem_insert_of_mem hα) hγ (word_mem hi)
    rwa [haddr, hfree] at this
  have hne : (⟨s, k⟩ : Block) ≠ α := fun he =>
    Finset.disjoint_left.mp (hdis α hα) α.start_mem (he ▸ start_mem ⟨s, k⟩)
  refine ⟨fun i hi hi' => ?_, fun γ hγ i hi => ?_⟩
  · rw [hlive ⟨s, k⟩ (Finset.mem_erase.mpr ⟨hne, Finset.mem_insert_self _ _⟩) i hi', hb,
      Pool.memcpy]
    simp only [Pool.words_eq]
    rw [if_pos (by omega), show 1024 * s + i - 1024 * s = i by omega]
    exact h.malloc_live hm hα (word_mem hi)
  · have hγL := Finset.mem_of_mem_erase hγ
    have hout := Finset.disjoint_left.mp (hdis γ hγL) (word_mem hi)
    have hpow : 2 ^ α.order ≤ 2 ^ k := Nat.pow_le_pow_right (by norm_num) hle
    simp only [mem_extent, Block.past, not_and, not_lt] at hout
    rw [hlive γ (Finset.mem_erase.mpr ⟨Finset.ne_of_mem_erase hγ,
      Finset.mem_insert_of_mem hγL⟩) i hi, hb, Pool.memcpy]
    simp only [Pool.words_eq]
    rw [if_neg (by omega)]
    exact h.malloc_live hm hγL (word_mem hi)

/-- The byte at offset `n` of the pool. -/
def Pool.byte (a : Pool) (n : ℕ) : ℕ := a.mem (n / 4) / 256 ^ (n % 4) % 256

theorem byte_eq {n n' i : ℕ} (h : a'.mem (1024 * n' + i / 4) = a.mem (1024 * n + i / 4)) :
    a'.byte (4096 * n' + i) = a.byte (4096 * n + i) := by
  simp only [Pool.byte]
  rw [show (4096 * n' + i) / 4 = 1024 * n' + i / 4 by omega,
    show (4096 * n + i) / 4 = 1024 * n + i / 4 by omega,
    show (4096 * n' + i) % 4 = i % 4 by omega, show (4096 * n + i) % 4 = i % 4 by omega, h]

/-- What a successful `Realloc` of `α` to `size` bytes leaves, the block `β` being
returned: it is large enough and begins with the contents of `α`, and every other
live block has its extent and its bytes. -/
structure Moved (σ σ' : Sys) (α : Block) (size : ℕ) (β : Block) : Prop where
  live : σ'.live = insert β (σ.live.erase α)
  fresh : β ∉ σ.live.erase α
  size_le : size ≤ 4096 * 2 ^ β.order
  sizes : ∀ γ ∈ σ'.live, σ'.pool.buddyAllocSize (σ.pool.addr γ) = .ok γ.order
  contents : ∀ i < min (4096 * 2 ^ α.order) size,
    σ'.pool.byte (4096 * β.start + i) = σ.pool.byte (4096 * α.start + i)
  others : ∀ γ ∈ σ.live.erase α, ∀ i < 4096 * 2 ^ γ.order,
    σ'.pool.byte (4096 * γ.start + i) = σ.pool.byte (4096 * γ.start + i)

variable {σ : Sys} {size : ℕ}

theorem Reachable.moved (h : Reachable σ) (hα : α ∈ σ.live)
    (he : σ.pool.realloc (σ.pool.addr α) size = (.success, some (σ.pool.addr β), a'))
    (hk : Pool.sizeBits size = some β.order) (hfresh : β ∉ σ.live.erase α)
    (hc : Carried σ.pool σ.live α a' β) :
    Moved σ ((Op.realloc (σ.pool.addr α) size).exec σ) α size β := by
  obtain ⟨h0, F, hq⟩ := h.quiet
  have hexec : (Op.realloc (σ.pool.addr α) size).exec σ =
      ⟨a', insert β (σ.live.erase α), σ.released⟩ := by
    simp only [Op.exec, he, hq.heap.filter_addr hα, blockAt_addr σ.pool hk]
  have hlegal : (Op.realloc (σ.pool.addr α) size).Legal σ := ⟨α, hα, rfl⟩
  obtain ⟨F', hkept, -⟩ := exec_kept hq h0 hlegal rfl
  have hle := le_of_sizeBits hk
  rw [show 2 ^ (β.order + minBits) = 4096 * 2 ^ β.order by simp only [minBits, pow_add]; omega]
    at hle
  rw [hexec] at hkept ⊢
  refine ⟨rfl, hfresh, hle, fun γ hγ => ?_, fun i hi => ?_, fun γ hγ i hi => ?_⟩
  · have haddr : a'.addr γ = σ.pool.addr γ := congrArg (· + 4096 * γ.start) hkept.poolStart
    rw [← haddr]
    exact hkept.quiet.heap.buddyAllocSize hγ
  · exact byte_eq (hc.front (i / 4) (by omega) (by omega))
  · exact byte_eq (hc.others γ hγ (i / 4) (by omega))

/-- A successful `Realloc` carries the contents over and leaves every other live
block alone; one that fails changes nothing. -/
theorem realloc_carries (h : Reachable σ) (hα : α ∈ σ.live) (hs : size ≠ 0) :
    (∃ β, σ.pool.realloc (σ.pool.addr α) size = (.success, some (σ.pool.addr β),
        ((Op.realloc (σ.pool.addr α) size).exec σ).pool) ∧
      Moved σ ((Op.realloc (σ.pool.addr α) size).exec σ) α size β) ∨
    ∃ r, r ≠ .success ∧ σ.pool.realloc (σ.pool.addr α) size = (r, none, σ.pool) ∧
      (Op.realloc (σ.pool.addr α) size).exec σ = σ := by
  obtain ⟨h0, F, hq⟩ := h.quiet
  obtain ⟨r, new, a', he, hpath⟩ := hq.realloc_path h0 hα hs
  have hpool : r = .success → ∀ p, new = some p →
      ((Op.realloc (σ.pool.addr α) size).exec σ).pool = a' := by
    rintro rfl p rfl
    simp only [Op.exec, he]
  cases hpath with
  | failed hr =>
    refine Or.inr ⟨r, by rcases hr with rfl | rfl <;> decide, he, ?_⟩
    rcases hr with rfl | rfl <;> simp only [Op.exec, he]
  | kept hk =>
    refine Or.inl ⟨α, by rw [hpool rfl _ rfl]; exact he, h.moved hα he hk (by simp) ?_⟩
    exact ⟨fun _ _ _ => rfl, fun _ _ _ _ => rfl⟩
  | @shrunk k hk hlt =>
    refine Or.inl ⟨⟨α.start, k⟩, by rw [hpool rfl _ rfl]; exact he, h.moved hα he hk
      (fun hm => ?_) (hq.carried_shrunk hα hlt)⟩
    exact Finset.ne_of_mem_erase hm (hq.heap.tiling.eq_of_mem
      (Heap.live_mem (Finset.mem_of_mem_erase hm)) (Heap.live_mem hα)
      (start_mem ⟨α.start, k⟩) α.start_mem)
  | @moved s k a₁ _ F₁ hk hle hm hdis hkept hfree =>
    refine Or.inl ⟨⟨s, k⟩, by rw [hpool rfl _ rfl]; exact he, h.moved hα he hk (fun hL => ?_)
      (hq.carried_moved h0 hα hle hm hdis hkept hfree)⟩
    exact Finset.disjoint_left.mp (hdis _ (Finset.mem_of_mem_erase hL)) (start_mem ⟨s, k⟩)
      (start_mem ⟨s, k⟩)

/-- The two blocks of `smallSys` are resized to four. -/
theorem realloc_carries_smallSys : ∃ β, smallSys.pool.realloc 4096 16384 = (.success,
      some (smallSys.pool.addr β), ((Op.realloc 4096 16384).exec smallSys).pool) ∧
    Moved smallSys ((Op.realloc 4096 16384).exec smallSys) ⟨0, 1⟩ 16384 β := by
  have hlive : (⟨0, 1⟩ : Block) ∈ smallSys.live := by
    rw [live_smallSys]
    simp
  rcases realloc_carries reachable_smallSys hlive (show 16384 ≠ 0 by norm_num)
    with h | ⟨r, hr, he, -⟩
  · exact h
  · have hok : (smallSys.pool.realloc (smallSys.pool.addr ⟨0, 1⟩) 16384).1 = .success := by
      decide +kernel
    rw [he] at hok
    exact absurd hok hr

end Cesvga2.Allocator
