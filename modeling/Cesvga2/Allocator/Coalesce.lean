import Cesvga2.Allocator.Runs

/-! Coalescing. When the pool is released in ranges that begin and end on
boundaries of the largest order, or end with the pool, no block below that order
is ever free together with its buddy. The free blocks are then the only reduced
tiling of what they cover, so with nothing live they are again those that the
releases left. -/

namespace Cesvga2.Allocator

open Blocks Blocks.Block Links

variable {F : Finset Block} {σ σ₀ : Sys}

/-- `SVGA_FB_MAX_TRACEABLE_SIZE`, the bytes of a block of the largest order. -/
def maxTraceableSize : ℕ := 2 ^ (numSizes - 1 + minBits)

/-- Pools set up by releases on boundaries of the largest order. -/
inductive SetUp : Sys → Prop
  | init {mem : ℕ → ℕ} {start bytes : ℕ} {ioMalloc : Bool} {a : Pool} (h0 : 0 < start)
      (h : Pool.init mem start bytes ioMalloc = .ok a) : SetUp ⟨a, ∅, ∅⟩
  | release {σ : Sys} {s e : ℕ} (h : SetUp σ) (hl : (Op.release s e).Legal σ)
      (hs : maxTraceableSize ∣ s)
      (he : maxTraceableSize ∣ e ∨ e = σ.pool.poolBlocks * 2 ^ minBits) :
      SetUp ((Op.release s e).exec σ)

/-- `setupAllocator` from the mapping of video memory on: the store past the
traceable size is released first, the traceable store only when it is not the
front buffer. A failure of the second release is ignored after a first one. -/
def setupAllocator (mem : ℕ → ℕ) (p length : ℕ) (ioMalloc haveFrontBuffer : Bool) :
    Except IOReturn Sys :=
  let s := length / 2 ^ minBits * 2 ^ minBits
  if p = 0 ∨ s = 0 then .error .noMemory
  else match Pool.init mem p s ioMalloc with
  | .error r => .error r
  | .ok a =>
    let σ : Sys := ⟨a, ∅, ∅⟩
    if maxTraceableSize < s then
      if (a.release maxTraceableSize s).1 = .success then
        let σ := (Op.release maxTraceableSize s).exec σ
        .ok (if haveFrontBuffer then (Op.release 0 maxTraceableSize).exec σ else σ)
      else .error (a.release maxTraceableSize s).1
    else if haveFrontBuffer then
      if (a.release 0 s).1 = .success then .ok ((Op.release 0 s).exec σ)
      else .error (a.release 0 s).1
    else .ok σ

/-- What clients reach from `σ₀` without further releases. -/
inductive Later (σ₀ : Sys) : Sys → Prop
  | refl : Later σ₀ σ₀
  | step {σ : Sys} {op : Op} (h : Later σ₀ σ) (hl : op.Legal σ) (hr : op.isRelease = false) :
      Later σ₀ (op.exec σ)

/-- The pieces of a range that starts on a boundary of the largest order and ends
on one or with the pool: the parent of a smaller piece runs past the pool. -/
theorem pieces_parent {n s e : ℕ} (hs : 2 ^ 12 ∣ s) (he : 2 ^ 12 ∣ e ∨ e = n) :
    ∀ β ∈ pieces 12 e s, β.order < 12 → n < β.buddy.past := by
  intro β hβ ho
  have hdvd : ∀ t ≤ 12, 2 ^ t ∣ s := fun t ht => (pow_dvd_pow 2 ht).trans hs
  obtain ⟨h1, h2⟩ :=
    pieces_tail s (fun t ht _ => hdvd t ht) (fun t _ _ ht => hdvd (t + 1) ht) β hβ ho
  have hal : Aligned ⟨β.start, β.order + 1⟩ := h1
  have hpast : β.buddy.past = β.start + 2 ^ (β.order + 1) := by
    rw [show β = ⟨β.start, β.order⟩ from rfl, buddy_left hal]
    simp only [Block.past, pow_succ]
    omega
  rw [hpast]
  rcases he with he | rfl
  · -- between two boundaries every piece has the largest order
    exfalso
    have hle := (mem_pieces s β hβ).2.2.1
    have hlt := β.start_lt_past
    have hdiv : 2 ^ (β.order + 1) ∣ e := (pow_dvd_pow 2 (show β.order + 1 ≤ 12 by omega)).trans he
    have := Nat.le_of_dvd (show 0 < e - β.start by omega) (Nat.dvd_sub hdiv h1)
    omega
  · exact h2

/-- After the releases nothing is live, and the buddy of a free block below the
largest order lies outside the pool. -/
theorem SetUp.quiet (h : SetUp σ) :
    0 < σ.pool.poolStart ∧ σ.live = ∅ ∧ ∃ F, Quiet σ.pool σ.live F σ.released ∧
      ∀ β ∈ F, β.order < 12 → σ.pool.poolBlocks < β.buddy.past := by
  induction h with
  | init h0 h =>
    obtain ⟨hq, hs⟩ := quiet_init h
    exact ⟨hs ▸ h0, rfl, ∅, hq, by simp⟩
  | @release σ s e h hl hs he ih =>
    obtain ⟨h0, hlive, F, hq, hF⟩ := ih
    rcases exec_release hq hl with hx | ⟨a', hx, hstart, hblocks, hsm, hem, -, hq'⟩
    · rw [hx]; exact ⟨h0, hlive, F, hq, hF⟩
    rw [hx]
    refine ⟨hstart ▸ h0, hlive, _, hq', fun β hβ ho => ?_⟩
    simp only [hblocks]
    rcases Finset.mem_union.mp hβ with hβ | hβ
    · exact hF β hβ ho
    · simp only [maxTraceableSize, numSizes, minBits] at hs he
      refine pieces_parent ?_ ?_ β (List.mem_toFinset.mp hβ) ho
      · omega
      · omega

theorem SetUp.reduced (h : SetUp σ) :
    0 < σ.pool.poolStart ∧ ∃ F, Quiet σ.pool σ.live F σ.released ∧ Reduced 12 F := by
  obtain ⟨h0, -, F, hq, hF⟩ := h.quiet
  refine ⟨h0, F, hq, fun β hβ ho hb => ?_⟩
  have h1 := hF β hβ ho
  have h2 := hq.heap.tile_past_le (Heap.free_mem hb)
  omega

theorem Later.reduced (h₀ : SetUp σ₀) (h : Later σ₀ σ) :
    0 < σ.pool.poolStart ∧ σ.released = σ₀.released ∧
      ∃ F, Quiet σ.pool σ.live F σ.released ∧ Reduced 12 F := by
  induction h with
  | refl =>
    obtain ⟨h0, F, hq, hr⟩ := h₀.reduced
    exact ⟨h0, rfl, F, hq, hr⟩
  | step h hl hnr ih =>
    obtain ⟨h0, hrel, F, hq, hr⟩ := ih
    obtain ⟨F', hk, hrel'⟩ := exec_kept hq h0 hl hnr
    exact ⟨hk.poolStart ▸ h0, hrel'.trans hrel, F', hrel' ▸ hk.quiet, hk.reduced hr⟩

/-- No block below the largest order is free together with its buddy, and when
nothing is live the free blocks are those right after the releases. -/
theorem coalesced (h₀ : SetUp σ₀) (h : Later σ₀ σ) :
    (∀ β ∈ σ.pool.freeBlocks, β.order < numSizes - 1 → β.buddy ∉ σ.pool.freeBlocks) ∧
    (σ.live = ∅ → σ.pool.freeBlocks = σ₀.pool.freeBlocks) := by
  obtain ⟨-, hrel, F, hq, hr⟩ := h.reduced h₀
  rw [hq.heap.freeBlocks_eq]
  refine ⟨hr, fun hlive => ?_⟩
  obtain ⟨-, hlive₀, -⟩ := h₀.quiet
  obtain ⟨-, G₀, hg₀, hr₀⟩ := h₀.reduced
  rw [hg₀.heap.freeBlocks_eq]
  have ht := hq.heap.tiling
  have ht₀ := hg₀.heap.tiling
  rw [hlive, Finset.empty_union, hrel] at ht
  rw [hlive₀, Finset.empty_union] at ht₀
  have hle : ∀ {a L F R M}, Heap a L F R M → ∀ β ∈ F, β.order ≤ 12 := fun hh β hβ =>
    Nat.lt_succ_iff.mp (hh.free_order_lt hβ)
  exact ht.unique ht₀ hr hr₀ (hle hq.heap) (hle hg₀.heap)

theorem exec_release_released (σ : Sys) (s e : ℕ) : ((Op.release s e).exec σ).released ⊆
    σ.released ∪ Finset.Ico (s / 2 ^ minBits) (e / 2 ^ minBits) := by
  simp only [Op.exec]
  split
  · exact subset_rfl
  · exact Finset.subset_union_left

/-- The driver's own set-up is of this kind. -/
theorem setUp_of_setupAllocator {mem : ℕ → ℕ} {p length : ℕ} {ioMalloc haveFrontBuffer : Bool}
    (h : setupAllocator mem p length ioMalloc haveFrontBuffer = .ok σ) : SetUp σ := by
  rw [setupAllocator] at h
  set s := length / 2 ^ minBits * 2 ^ minBits with hs
  by_cases hz : p = 0 ∨ s = 0
  · rw [if_pos hz] at h; cases h
  rw [if_neg hz] at h
  cases hi : Pool.init mem p s ioMalloc with
  | error r => rw [hi] at h; cases h
  | ok a =>
  simp only [hi] at h
  have hinit : SetUp ⟨a, ∅, ∅⟩ := .init (by omega) hi
  have hend : s = a.poolBlocks * 2 ^ minBits := by
    rw [(init_eq hi).2, hs, Nat.mul_div_cancel _ (by positivity)]
  by_cases hbig : maxTraceableSize < s
  · rw [if_pos hbig] at h
    have hhigh : SetUp ((Op.release maxTraceableSize s).exec ⟨a, ∅, ∅⟩) :=
      hinit.release (Finset.disjoint_empty_right _) (dvd_refl _) (Or.inr hend)
    have hlow : (Op.release 0 maxTraceableSize).Legal
        ((Op.release maxTraceableSize s).exec ⟨a, ∅, ∅⟩) := by
      refine Finset.disjoint_of_subset_right (exec_release_released _ _ _) ?_
      rw [Finset.empty_union]
      exact Finset.Ico_disjoint_Ico_consecutive _ _ _
    split_ifs at h with hok hfb
    · cases h
      exact hhigh.release hlow (Nat.dvd_zero _) (Or.inl (dvd_refl _))
    · cases h
      exact hhigh
  · rw [if_neg hbig] at h
    split_ifs at h with hfb hok
    · cases h
      exact hinit.release (Finset.disjoint_empty_right _) (Nat.dvd_zero _) (Or.inr hend)
    · cases h
      exact hinit

/-- Twenty blocks, set up and then used: a block is cut from a free one, freed
again and merged back. -/
def usedSys (σ : Sys) : Sys := (Op.free 69632).exec ((Op.malloc 5000).exec σ)

def freshSys : Sys := (Op.release 0 81920).exec
  ⟨⟨4096, 20, fun _ => ournull, fun _ => 0xFF#8, 0, fun _ => 0⟩, ∅, ∅⟩

theorem coalesced_freshSys : (usedSys freshSys).live = ∅ ∧
    (usedSys freshSys).pool.freeBlocks = freshSys.pool.freeBlocks := by
  have h₀ : SetUp freshSys :=
    .release (@SetUp.init (fun _ => 0) 4096 81920 true _ (by norm_num) rfl)
      (Finset.disjoint_empty_right _) (Nat.dvd_zero _) (Or.inr rfl)
  have hlive : (usedSys freshSys).live = ∅ := by decide +kernel
  have h : Later freshSys (usedSys freshSys) :=
    .step (.step .refl trivial rfl) ⟨⟨16, 1⟩, by decide +kernel, by decide +kernel⟩ rfl
  exact ⟨hlive, (coalesced h₀ h).2 hlive⟩

end Cesvga2.Allocator
