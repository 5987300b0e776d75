import Cesvga2.Allocator.Realloc

/-! The allocator together with its clients: the pool, the blocks the clients
hold and the blocks released to the pool so far. Clients release fresh ranges,
allocate, free and resize what they hold, and write what they like inside it.
Every state they can reach has a well-formed heap. -/

namespace Cesvga2.Allocator

open Blocks Blocks.Block Links

structure Sys where
  pool : Pool
  live : Finset Block
  released : Finset ℕ

inductive Op where
  | release (startOffsetBytes endOffsetBytes : ℕ)
  | malloc (bytes : ℕ)
  | free (storage : ℕ)
  | realloc (storage size : ℕ)
  | write (w v : ℕ)

/-- The block a client holds that was given the address `p` for `bytes` bytes. -/
def Pool.blockAt (a : Pool) (p bytes : ℕ) : Block :=
  ⟨(p - a.poolStart) / 2 ^ minBits, (Pool.sizeBits bytes).getD 0⟩

namespace Op

/-- What clients may do: release ranges never released before, free and resize
blocks they hold, write words of blocks they hold. -/
def Legal (σ : Sys) : Op → Prop
  | release s e => Disjoint (Finset.Ico (s / 2 ^ minBits) (e / 2 ^ minBits)) σ.released
  | malloc _ => True
  | free p => ∃ β ∈ σ.live, p = σ.pool.addr β
  | realloc p _ => ∃ β ∈ σ.live, p = σ.pool.addr β
  | write w _ => ∃ β ∈ σ.live, w / 1024 ∈ β.extent

/-- The call, and what the clients hold after it by the results it returned. -/
def exec (σ : Sys) : Op → Sys
  | release s e =>
    match σ.pool.release s e with
    | (.success, a) =>
      ⟨a, σ.live, σ.released ∪ Finset.Ico (s / 2 ^ minBits) (e / 2 ^ minBits)⟩
    | (_, a) => ⟨a, σ.live, σ.released⟩
  | malloc n =>
    match σ.pool.malloc n with
    | .ok (p, a) => ⟨a, insert (σ.pool.blockAt p n) σ.live, σ.released⟩
    | .error _ => σ
  | free p =>
    match σ.pool.free p with
    | (.success, a) => ⟨a, σ.live.filter fun β => σ.pool.addr β ≠ p, σ.released⟩
    | (_, a) => ⟨a, σ.live, σ.released⟩
  | realloc p n =>
    match σ.pool.realloc p n with
    | (.success, none, a) => ⟨a, σ.live.filter fun β => σ.pool.addr β ≠ p, σ.released⟩
    | (.success, some q, a) =>
      ⟨a, insert (σ.pool.blockAt q n) (σ.live.filter fun β => σ.pool.addr β ≠ p), σ.released⟩
    | (_, _, a) => ⟨a, σ.live, σ.released⟩
  | write w v => ⟨σ.pool.write w (u32 v), σ.live, σ.released⟩

def isRelease : Op → Bool
  | release _ _ => true
  | _ => false

end Op

/-- The states that follow `Init`. The mapping of video memory is never at
address zero. -/
inductive Reachable : Sys → Prop
  | init {mem : ℕ → ℕ} {start bytes : ℕ} {ioMalloc : Bool} {a : Pool} (h0 : 0 < start)
      (h : Pool.init mem start bytes ioMalloc = .ok a) : Reachable ⟨a, ∅, ∅⟩
  | step {σ : Sys} {op : Op} (h : Reachable σ) (hl : op.Legal σ) : Reachable (op.exec σ)

/-! ### The free blocks of a pool -/

/-- The blocks met along the free list of one order. -/
def Pool.freeOffsets (a : Pool) (k : ℕ) : List ℕ :=
  Linked.walk ournull a.next a.poolBlocks (a.freeList k)

def Pool.freeBlocks (a : Pool) : Finset Block :=
  (Finset.range numSizes).biUnion fun k => (a.freeOffsets k).toFinset.image fun b => ⟨b, k⟩

variable {a : Pool} {L F : Finset Block} {R M : Finset ℕ} {α β : Block} {σ : Sys} {op : Op}

theorem Heap.length_le (h : Heap a L F R M) {k : ℕ} {l : List ℕ} (hnd : l.Nodup)
    (hl : ∀ b, b ∈ l ↔ (⟨b, k⟩ : Block) ∈ F) : l.length * 2 ^ k ≤ a.poolBlocks := by
  have hinj : Set.InjOn (fun b => (⟨b, k⟩ : Block)) (l.toFinset : Set ℕ) := by
    intro b _ c _ he
    exact congrArg Block.start he
  have hsub : l.toFinset.image (fun b => (⟨b, k⟩ : Block)) ⊆ F := by
    intro β hβ
    obtain ⟨b, hb, rfl⟩ := Finset.mem_image.mp hβ
    exact (hl b).mp (List.mem_toFinset.mp hb)
  calc l.length * 2 ^ k
      = ∑ _b ∈ l.toFinset, 2 ^ k := by
        rw [Finset.sum_const, List.toFinset_card_of_nodup hnd, smul_eq_mul]
    _ = ∑ β ∈ l.toFinset.image (fun b => (⟨b, k⟩ : Block)), 2 ^ β.order := by
        rw [Finset.sum_image hinj]
    _ ≤ ∑ β ∈ F, 2 ^ β.order := Finset.sum_le_sum_of_subset hsub
    _ ≤ R.card := by
        have := h.sum_add_sum
        omega
    _ ≤ a.poolBlocks := h.card_le

/-- The walk along a list meets its blocks. -/
theorem Heap.linked_freeOffsets (h : Heap a L F R M) {k : ℕ} (hk : k < numSizes) :
    Linked ournull a.prev a.next (a.freeList k) (a.freeOffsets k) ∧
      ∀ b, b ∈ a.freeOffsets k ↔ (⟨b, k⟩ : Block) ∈ F := by
  obtain ⟨l, hl, hF⟩ := h.lists k hk
  have hlen := h.length_le hl.nodup hF
  have heq : a.freeOffsets k = l :=
    hl.walk_eq ((Nat.le_mul_of_pos_right _ (Nat.two_pow_pos k)).trans hlen)
  rw [heq]
  exact ⟨hl, hF⟩

theorem Heap.freeBlocks_eq (h : Heap a L F R M) : a.freeBlocks = F := by
  ext β
  simp only [Pool.freeBlocks, Finset.mem_biUnion, Finset.mem_range, Finset.mem_image,
    List.mem_toFinset]
  constructor
  · rintro ⟨k, hk, b, hb, rfl⟩
    exact ((h.linked_freeOffsets hk).2 b).mp hb
  · intro hβ
    have ho := h.free_order_lt hβ
    exact ⟨β.order, ho, β.start, ((h.linked_freeOffsets ho).2 β.start).mpr hβ, rfl⟩

/-! ### Steps -/

theorem Heap.filter_addr (h : Heap a L F R M) (hα : α ∈ L) :
    (L.filter fun β => a.addr β ≠ a.addr α) = L.erase α := by
  ext β
  rw [Finset.mem_filter, Finset.mem_erase, and_comm]
  refine and_congr_left fun hβ => not_congr ⟨fun he => ?_, fun he => by rw [he]⟩
  have hs : β.start = α.start := by
    simp only [Pool.addr] at he
    omega
  exact h.tiling.eq_of_mem (live_mem hβ) (live_mem hα) β.start_mem (hs ▸ α.start_mem)

theorem blockAt_addr (a : Pool) {s k bytes : ℕ} (h : Pool.sizeBits bytes = some k) :
    a.blockAt (a.addr ⟨s, k⟩) bytes = ⟨s, k⟩ := by
  simp only [Pool.blockAt, Pool.addr, h, Option.getD_some, Block.mk.injEq, and_true, minBits]
  omega

/-- Every call other than a release keeps the heap over the same blocks. -/
theorem exec_kept (h : Quiet σ.pool σ.live F σ.released) (h0 : 0 < σ.pool.poolStart)
    (hl : op.Legal σ) (hr : op.isRelease = false) :
    ∃ F', Kept σ.pool F σ.released (op.exec σ).pool (op.exec σ).live F' ∧
      (op.exec σ).released = σ.released := by
  cases op with
  | release s e => cases hr
  | malloc n =>
    simp only [Op.exec]
    rcases h.malloc n with (hm | hm) | ⟨s, k, a', F', hb, hm, -, -, hk⟩
    · rw [hm]; exact ⟨F, h.kept, rfl⟩
    · rw [hm]; exact ⟨F, h.kept, rfl⟩
    · rw [hm]
      simp only [blockAt_addr σ.pool hb]
      exact ⟨F', hk, trivial⟩
  | free p =>
    obtain ⟨α, hα, rfl⟩ := hl
    obtain ⟨a', F', he, hk⟩ := h.free_kept h0 hα
    simp only [Op.exec, he, h.heap.filter_addr hα]
    exact ⟨F', hk, trivial⟩
  | realloc p n =>
    obtain ⟨α, hα, rfl⟩ := hl
    obtain ⟨r, new, a', L', F', he, hres, hk⟩ := h.realloc h0 hα n
    simp only [Op.exec, he]
    cases hres with
    | freed hn =>
      simp only [h.heap.filter_addr hα]
      exact ⟨F', hk, trivial⟩
    | resized hn hb =>
      simp only [h.heap.filter_addr hα, blockAt_addr σ.pool hb]
      exact ⟨F', hk, trivial⟩
    | failed hf =>
      rcases hf with rfl | rfl
      · exact ⟨F', hk, rfl⟩
      · exact ⟨F', hk, rfl⟩
  | write w v =>
    obtain ⟨α, hα, hw⟩ := hl
    exact ⟨F, ⟨h.write hα hw (u32 v), rfl, id⟩, rfl⟩

/-- A release of a fresh range keeps the heap and adds the range. -/
theorem exec_release (h : Quiet σ.pool σ.live F σ.released) {s e : ℕ}
    (hl : (Op.release s e).Legal σ) :
    (Op.release s e).exec σ = σ ∨
    ∃ a', (Op.release s e).exec σ =
        ⟨a', σ.live, σ.released ∪ Finset.Ico (s / 4096) (e / 4096)⟩ ∧
      a'.poolStart = σ.pool.poolStart ∧ a'.poolBlocks = σ.pool.poolBlocks ∧
      s % 4096 = 0 ∧ e % 4096 = 0 ∧ e / 4096 ≤ σ.pool.poolBlocks ∧
      Quiet a' σ.live (F ∪ (pieces 12 (e / 4096) (s / 4096)).toFinset)
        (σ.released ∪ Finset.Ico (s / 4096) (e / 4096)) := by
  simp only [Op.exec]
  rcases h.release hl with he | ⟨a', he, h1, h2, h3, h4, h5, h6⟩
  · rw [he]; exact Or.inl rfl
  · rw [he]; exact Or.inr ⟨a', rfl, h1, h5, h2, h3, h4, h6⟩

theorem init_eq {mem : ℕ → ℕ} {start bytes : ℕ} {ioMalloc : Bool}
    (h : Pool.init mem start bytes ioMalloc = .ok a) : bytes < 2 ^ 32 ∧
    a = ⟨start, bytes / 2 ^ minBits, fun _ => ournull, fun _ => 0xFF#8, 0, mem⟩ := by
  rw [Pool.init] at h
  by_cases h1 : start % 2 ^ minBits = 0
  swap
  · rw [if_pos h1] at h; cases h
  by_cases h2 : 2 ^ 32 ≤ bytes
  · rw [if_neg (not_not.mpr h1), if_pos h2] at h; cases h
  rw [if_neg (not_not.mpr h1), if_neg h2] at h
  cases ioMalloc with
  | false => cases h
  | true =>
    cases h
    exact ⟨not_le.mp h2, rfl⟩

/-- The heap right after `Init`: everything marked, nothing free. -/
theorem quiet_init {mem : ℕ → ℕ} {start bytes : ℕ} {ioMalloc : Bool}
    (h : Pool.init mem start bytes ioMalloc = .ok a) :
    Quiet a ∅ ∅ ∅ ∧ a.poolStart = start := by
  obtain ⟨hlt, rfl⟩ := init_eq h
  refine ⟨⟨⟨?_, ?_, ?_, ?_, ?_, ?_, ?_, ?_, ?_, ?_⟩, ?_⟩, rfl⟩
  · exact Tiling.empty
  · exact Finset.disjoint_empty_left _
  · simp
  · simp only [minBits]
    omega
  · simp
  · simp
  · intro n _
    have hone : ∀ k < 8, (0xFF#8).getLsbD k = true := by decide
    simp only [Pool.bitTest, Map.bitTest_eq, hone _ (show 7 - n % 8 < 8 by omega)]
    simp
  · exact fun k _ => ⟨[], Linked.empty _ _ _, by simp⟩
  · simp
  · simp
  · simp

/-- Every reachable state has a heap between calls. -/
theorem Reachable.quiet (h : Reachable σ) :
    0 < σ.pool.poolStart ∧ ∃ F, Quiet σ.pool σ.live F σ.released := by
  induction h with
  | init h0 h =>
    obtain ⟨hq, hs⟩ := quiet_init h
    exact ⟨hs ▸ h0, ∅, hq⟩
  | @step σ op h hl ih =>
    obtain ⟨h0, F, hq⟩ := ih
    by_cases hr : op.isRelease
    · obtain ⟨s, e, rfl⟩ : ∃ s e, op = .release s e := by
        cases op with
        | release s e => exact ⟨s, e, rfl⟩
        | _ => cases hr
      rcases exec_release hq hl with he | ⟨a', he, hs, -, -, -, -, hq'⟩
      · rw [he]; exact ⟨h0, F, hq⟩
      · rw [he]; exact ⟨hs ▸ h0, _, hq'⟩
    · obtain ⟨F', hk, hrel⟩ := exec_kept hq h0 hl (by simpa using hr)
      exact ⟨hk.poolStart ▸ h0, F', hrel ▸ hk.quiet⟩

/-! ### The heap invariant -/

/-- The partition of the pool between clients and free lists, as the bit map, the
byte count and the lists record it. -/
structure WellFormed (σ : Sys) : Prop where
  live_ne_free : Disjoint σ.live σ.pool.freeBlocks
  disjoint : ((σ.live ∪ σ.pool.freeBlocks : Finset Block) : Set Block).PairwiseDisjoint extent
  aligned : ∀ β ∈ σ.live ∪ σ.pool.freeBlocks, β.Aligned
  cover : (σ.live ∪ σ.pool.freeBlocks).biUnion extent = σ.released
  bits : ∀ n < σ.pool.poolBlocks,
    σ.pool.bitTest n = true ↔ (∃ β ∈ σ.live, n + 1 = β.past) ∨ n ∉ σ.released
  freeBytes : σ.pool.freeBytes = 4096 * (σ.pool.freeBlocks.biUnion extent).card
  lists : ∀ k < numSizes,
    Linked ournull σ.pool.prev σ.pool.next (σ.pool.freeList k) (σ.pool.freeOffsets k)
  header : ∀ k < numSizes, ∀ b ∈ σ.pool.freeOffsets k, σ.pool.mem (1024 * b) = magic
  trailer : ∀ k < numSizes, ∀ b ∈ σ.pool.freeOffsets k,
    σ.pool.mem (1024 * (b + 2 ^ k) - 1) = k + lenOffset

theorem Quiet.wellFormed (h : Quiet σ.pool σ.live F σ.released) : WellFormed σ := by
  have hF := h.heap.freeBlocks_eq
  have hfree : Tiling F (F.biUnion extent) := h.heap.tiling.subset Finset.subset_union_right
  refine ⟨?_, ?_, ?_, ?_, ?_, ?_, fun k hk => (h.heap.linked_freeOffsets hk).1, ?_, ?_⟩
  · rw [hF]; exact h.heap.apart
  · rw [hF]; exact h.heap.tiling.disjoint
  · rw [hF]; exact h.heap.tiling.aligned
  · rw [hF]; exact h.heap.tiling.cover
  · intro n hn
    rw [h.heap.bits n hn, Finset.union_empty, or_comm]
  · rw [hF, ← hfree.sum_size]; exact h.bytes
  · intro k hk b hb
    exact h.heap.header _ (((h.heap.linked_freeOffsets hk).2 b).mp hb)
  · intro k hk b hb
    exact h.heap.trailer _ (((h.heap.linked_freeOffsets hk).2 b).mp hb)

theorem wellFormed_of_reachable (h : Reachable σ) : WellFormed σ := by
  obtain ⟨-, F, hq⟩ := h.quiet
  exact hq.wellFormed

/-- Sixteen blocks at address 4096, all released, two of them held by a client. -/
def smallSys : Sys :=
  (Op.malloc 5000).exec ((Op.release 0 65536).exec
    ⟨⟨4096, 16, fun _ => ournull, fun _ => 0xFF#8, 0, fun _ => 0⟩, ∅, ∅⟩)

theorem reachable_smallSys : Reachable smallSys :=
  .step (.step (@Reachable.init (fun _ => 0) 4096 65536 true _ (by norm_num) rfl)
    (Finset.disjoint_empty_right _)) trivial

theorem live_smallSys : smallSys.live = {⟨0, 1⟩} := by decide +kernel

theorem wellFormed_smallSys : smallSys.live = {⟨0, 1⟩} ∧ WellFormed smallSys :=
  ⟨live_smallSys, wellFormed_of_reachable reachable_smallSys⟩

end Cesvga2.Allocator
