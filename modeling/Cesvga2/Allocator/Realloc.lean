import Cesvga2.Allocator.Free

/-! Sizes, `Malloc`, `Realloc` and `Release` on a heap between calls. Each keeps
the heap, and the first two also keep the free blocks reduced: what is split off
a block has its buddy over the live front of that block. -/

namespace Cesvga2.Allocator

open Blocks Blocks.Block Links

variable {a a' : Pool} {L F F' : Finset Block} {R R' M : Finset ℕ} {α β γ : Block}

/-! ### Rounding sizes -/

theorem sizeBitsLoop_spec {bytes : ℕ} : ∀ {fuel bits k : ℕ},
    Pool.sizeBitsLoop bytes fuel bits = some k →
    bits ≤ k ∧ k ≤ bits + fuel ∧ bytes ≤ 2 ^ (k + minBits) ∧
      ∀ j, bits ≤ j → j < k → 2 ^ (j + minBits) < bytes
  | 0, bits, k, h => by
    rw [Pool.sizeBitsLoop] at h
    split_ifs at h with hlt
    cases h
    exact ⟨le_rfl, le_rfl, by omega, fun j h1 h2 => by omega⟩
  | fuel + 1, bits, k, h => by
    rw [Pool.sizeBitsLoop] at h
    split_ifs at h with hlt
    · obtain ⟨h1, h2, h3, h4⟩ := sizeBitsLoop_spec h
      refine ⟨by omega, by omega, h3, fun j hj hk => ?_⟩
      rcases Nat.lt_or_ge bits j with hb | hb
      · exact h4 j hb hk
      · rwa [le_antisymm hb hj]
    · cases h
      exact ⟨le_rfl, by omega, by omega, fun j h1 h2 => by omega⟩

theorem le_of_sizeBits {bytes k : ℕ} (h : Pool.sizeBits bytes = some k) :
    bytes ≤ 2 ^ (k + minBits) := (sizeBitsLoop_spec h).2.2.1

theorem lt_of_sizeBitsLoop_none {bytes : ℕ} : ∀ {fuel bits : ℕ},
    Pool.sizeBitsLoop bytes fuel bits = none →
    ∀ j, bits ≤ j → j ≤ bits + fuel → 2 ^ (j + minBits) < bytes
  | 0, bits, h, j, h1, h2 => by
    obtain rfl : j = bits := by omega
    rw [Pool.sizeBitsLoop] at h
    split_ifs at h with hlt
    exact hlt
  | fuel + 1, bits, h, j, h1, h2 => by
    rw [Pool.sizeBitsLoop] at h
    split_ifs at h with hlt
    rcases Nat.eq_or_lt_of_le h1 with rfl | h1
    · exact hlt
    · exact lt_of_sizeBitsLoop_none h j h1 (by omega)

/-- A size is rounded up to the least order that holds it, where that is at most
`numSizes`. -/
theorem sizeBits_of_isLeast {bytes k : ℕ} (hk : IsLeast {k | bytes ≤ 4096 * 2 ^ k} k) :
    Pool.sizeBits bytes = some k ∨ (Pool.sizeBits bytes = none ∧ numSizes < k) := by
  have e12 : ∀ j, 2 ^ (j + minBits) = 4096 * 2 ^ j := fun j => by
    simp only [minBits, pow_add]; omega
  have hfit : bytes ≤ 2 ^ (k + minBits) := by rw [e12]; exact hk.1
  cases hb : Pool.sizeBits bytes with
  | none =>
    refine Or.inr ⟨rfl, ?_⟩
    by_contra hle
    exact absurd (lt_of_sizeBitsLoop_none hb k (Nat.zero_le _) (by omega)) (not_lt.mpr hfit)
  | some j =>
    obtain ⟨-, -, h3, h4⟩ := sizeBitsLoop_spec hb
    rw [e12] at h3
    refine Or.inl (congrArg some (le_antisymm ?_ (hk.2 h3)))
    by_contra hlt
    exact absurd (h4 k (Nat.zero_le _) (not_le.mp hlt)) (not_lt.mpr hfit)

theorem sizeBitsLoop_eq {bytes : ℕ} (n : ℕ) : ∀ fuel bits : ℕ, n ≤ fuel →
    bytes ≤ 2 ^ (bits + n + minBits) →
    Pool.sizeBitsLoop bytes fuel bits = some (Pool.canBitsLoop bytes n bits) := by
  induction n with
  | zero =>
    intro fuel bits _ hle
    rw [Nat.add_zero] at hle
    cases fuel <;> rw [Pool.sizeBitsLoop, if_neg (not_lt.mpr hle), Pool.canBitsLoop]
  | succ n ih =>
    intro fuel bits hn hle
    obtain ⟨fuel, rfl⟩ : ∃ m, fuel = m + 1 := ⟨fuel - 1, by omega⟩
    rw [Pool.sizeBitsLoop, Pool.canBitsLoop]
    split_ifs
    · refine ih fuel (bits + 1) (by omega) ?_
      rwa [show bits + 1 + n = bits + (n + 1) by omega]
    · rfl

/-- For a size that fits a block of order `bits`, `Realloc` and `Malloc` round
alike. -/
theorem sizeBits_eq {bytes bits : ℕ} (hb : bits < numSizes) (h : bytes ≤ 2 ^ (bits + minBits)) :
    Pool.sizeBits bytes = some (Pool.canBitsLoop bytes bits 0) :=
  sizeBitsLoop_eq bits numSizes 0 hb.le (by rwa [Nat.zero_add])

theorem canBitsLoop_le (bytes : ℕ) : ∀ n bits : ℕ, Pool.canBitsLoop bytes n bits ≤ bits + n
  | 0, bits => le_rfl
  | n + 1, bits => by
    rw [Pool.canBitsLoop]
    split_ifs
    · have := canBitsLoop_le bytes n (bits + 1)
      omega
    · omega

/-! ### Reduced free blocks -/

/-- New free blocks whose buddies reach over a live block keep the free blocks
reduced. -/
theorem Heap.reduced (h : Heap a' L F' R' M) (hr : Reduced 12 F)
    (hF : ∀ δ ∈ F', δ ∈ F ∨ ∃ α ∈ L, α.start ∈ δ.buddy.extent) : Reduced 12 F' := by
  have hno : ∀ δ ∈ F', ∀ α ∈ L, α.start ∉ δ.extent := fun δ hδ α hα hm =>
    Finset.disjoint_left.mp h.apart hα
      (h.tiling.eq_of_mem (live_mem hα) (free_mem hδ) α.start_mem hm ▸ hδ)
  intro δ hδ ho hb
  rcases hF δ hδ with h1 | ⟨α, hα, hm⟩
  · rcases hF δ.buddy hb with h2 | ⟨α, hα, hm⟩
    · exact hr δ h1 ho h2
    · rw [buddy_buddy] at hm
      exact hno δ hδ α hα hm
  · exact hno δ.buddy hb α hα hm

/-- The pieces split off a block have their buddies over its start. -/
theorem start_mem_buddy {s r b : ℕ} (ha : 2 ^ r ∣ s) (hr : r ≤ 12) (hb : b ≤ r) :
    ∀ δ ∈ pieces 12 (s + 2 ^ r) (s + 2 ^ b), s ∈ δ.buddy.extent := by
  intro δ hδ
  obtain ⟨h1, h2⟩ := mem_pieces_split ha hr (r - b) b (by omega) δ hδ
  have hal : Aligned ⟨s, δ.order + 1⟩ := (pow_dvd_pow 2 h2).trans ha
  have hδe : δ = ⟨s + 2 ^ δ.order, δ.order⟩ := by rw [← h1]
  rw [hδe, buddy_right hal]
  exact start_mem ⟨s, δ.order⟩

/-! ### Malloc -/

/-- What a call leaves: a heap over the same released blocks whose free blocks
are reduced if they were. -/
structure Kept (a : Pool) (F : Finset Block) (R : Finset ℕ) (a' : Pool) (L' F' : Finset Block) :
    Prop where
  quiet : Quiet a' L' F' R
  poolStart : a'.poolStart = a.poolStart
  reduced : Reduced 12 F → Reduced 12 F'

theorem Quiet.kept (h : Quiet a L F R) : Kept a F R a L F := ⟨h, rfl, id⟩

theorem Quiet.carve_kept (h : Quiet a L F R) {k bits : ℕ} (hk : k < numSizes)
    (hne : a.freeList k ≠ ournull) (hle : bits ≤ k) :
    ∃ F', Kept a F R (a.carve bits k) (insert ⟨a.freeList k, bits⟩ L) F' := by
  have hβ := (h.heap.head_mem hk hne).1
  have hal := h.heap.tiling.aligned _ (Heap.free_mem hβ)
  have hq := h.carve hk hne hle
  refine ⟨_, hq, carve_poolStart a bits k, fun hr => hq.heap.reduced hr fun δ hδ => ?_⟩
  rcases Finset.mem_union.mp hδ with hδ | hδ
  · exact Or.inl (Finset.mem_of_mem_erase hδ)
  · refine Or.inr ⟨_, Finset.mem_insert_self _ _, ?_⟩
    exact start_mem_buddy hal (Nat.lt_succ_iff.mp hk) hle δ (List.mem_toFinset.mp hδ)

theorem Quiet.malloc (h : Quiet a L F R) (bytes : ℕ) :
    (a.malloc bytes = .error .noMemory ∨ a.malloc bytes = .error .noResources) ∨
    ∃ s k a' F', Pool.sizeBits bytes = some k ∧
      a.malloc bytes = .ok (a.addr ⟨s, k⟩, a') ∧ (⟨s, k⟩ : Block).extent ⊆ R ∧
      (∀ β ∈ L, Disjoint β.extent (⟨s, k⟩ : Block).extent) ∧
      Kept a F R a' (insert ⟨s, k⟩ L) F' := by
  rw [Pool.malloc]
  cases hb : Pool.sizeBits bytes with
  | none => exact Or.inl (Or.inr rfl)
  | some k =>
    rcases buddyMalloc_cases h k with he | ⟨r, hle, hr, hne, he⟩
    · exact Or.inl (Or.inl he)
    · obtain ⟨F', hk⟩ := h.carve_kept hr hne hle
      have htil := hk.quiet.heap.tiling
      have hmem : (⟨a.freeList r, k⟩ : Block) ∈ insert ⟨a.freeList r, k⟩ L ∪ F' :=
        Heap.live_mem (Finset.mem_insert_self _ _)
      have hnew : (⟨a.freeList r, k⟩ : Block) ∉ L := fun hL => by
        have hF := (h.heap.head_mem hr hne).1
        exact Finset.disjoint_left.mp h.heap.apart (h.heap.tiling.eq_of_mem (Heap.live_mem hL)
          (Heap.free_mem hF) (start_mem ⟨a.freeList r, k⟩) (start_mem ⟨a.freeList r, r⟩) ▸ hL) hF
      refine Or.inr ⟨a.freeList r, k, _, F', rfl, he, htil.extent_subset hmem, fun β hβ => ?_, hk⟩
      refine htil.disjoint_of_ne (Heap.live_mem (Finset.mem_insert_of_mem hβ)) hmem ?_
      rintro rfl
      exact hnew hβ

/-! ### Client memory -/

/-- Writes into live blocks leave the heap alone. -/
theorem Heap.live_writes (h : Heap a L F R M) (hp : a'.poolBlocks = a.poolBlocks)
    (hl : a'.freeList = a.freeList) (hmap : a'.map = a.map)
    (hm : ∀ w, (∀ β ∈ L, w / 1024 ∉ β.extent) → a'.mem w = a.mem w) : Heap a' L F R M := by
  refine h.frame hp hl (fun n _ => by simp only [Pool.bitTest, hmap]) fun β hβ w hw => ?_
  refine hm w fun γ hγ hwγ => Finset.disjoint_left.mp h.apart hγ ?_
  rwa [h.tiling.eq_of_mem (live_mem hγ) (free_mem hβ) hwγ hw]

theorem Quiet.write (h : Quiet a L F R) (hα : α ∈ L) {w : ℕ} (hw : w / 1024 ∈ α.extent)
    (v : ℕ) : Quiet (a.write w v) L F R := by
  refine ⟨h.heap.live_writes rfl rfl rfl fun q hq => ?_, h.bytes⟩
  rw [Pool.write_mem, if_neg]
  rintro rfl
  exact hq α hα hw

theorem Quiet.memcpy (h : Quiet a L F R) (hα : α ∈ L) (src n : ℕ) (hn : n ≤ 1024 * 2 ^ α.order) :
    Quiet (a.memcpy (1024 * α.start) src n) L F R := by
  refine ⟨h.heap.live_writes rfl rfl rfl fun q hq => ?_, h.bytes⟩
  have hout := hq α hα
  simp only [mem_extent, Block.past] at hout
  simp only [Pool.memcpy]
  rw [if_neg (by omega)]

/-! ### Realloc -/

theorem Quiet.free_kept (h : Quiet a L F R) (h0 : 0 < a.poolStart) (hα : α ∈ L) :
    ∃ a' F', a.free (a.addr α) = (.success, a') ∧ Kept a F R a' (L.erase α) F' := by
  obtain ⟨a', F', γ, he, hp, hq, hsub, hγ, hb⟩ := h.free h0 hα
  exact ⟨a', insert γ F', he, hq, hp, fun hr => (hr.subset hsub).insert hb (buddy_ne hγ)⟩

/-- The results of `Realloc` of the live block `α`: the code, what was stored
through `newPtr` and the live blocks afterwards. -/
inductive Realloced (a : Pool) (L : Finset Block) (α : Block) (size : ℕ) :
    IOReturn → Option ℕ → Finset Block → Prop
  | freed (h0 : size = 0) : Realloced a L α size .success none (L.erase α)
  | resized {s k : ℕ} (h0 : size ≠ 0) (hk : Pool.sizeBits size = some k) :
      Realloced a L α size .success (some (a.addr ⟨s, k⟩)) (insert ⟨s, k⟩ (L.erase α))
  | failed {r : IOReturn} (hr : r = .noMemory ∨ r = .noResources) :
      Realloced a L α size r none L

/-- The front of a live block stays live and its rest is in limbo. The source
sets the new end before it clears the old one. -/
theorem Heap.cut (h : Heap a L F R ∅) (hα : α ∈ L) {k : ℕ} (hk : k < α.order) :
    Heap ((a.bitSet (α.start + 2 ^ k - 1)).bitClear (α.past - 1))
      (insert ⟨α.start, k⟩ (L.erase α)) F ((⟨α.start, k⟩ : Block).extent ∪ R \ α.extent)
      ((∅ ∪ α.extent) \ (⟨α.start, k⟩ : Block).extent) := by
  have hpow : 2 ^ k < 2 ^ α.order := Nat.pow_lt_pow_right (by norm_num) hk
  have hpos := Nat.two_pow_pos k
  set ω : Block := ⟨α.start, k⟩ with hω
  have h2 := (h.drop hα).allot (γ := ω)
    ((pow_dvd_pow 2 hk.le).trans (h.tiling.aligned α (Heap.live_mem hα)))
    (hk.trans (h.order_lt α (Heap.live_mem hα)))
    ((Block.front_subset hk.le).trans Finset.subset_union_right)
  refine h2.frame rfl rfl (fun n _ => ?_) fun _ _ _ _ => rfl
  have hne : ω.past - 1 ≠ α.past - 1 := by
    simp only [Block.past, hω]
    omega
  simp only [Pool.bitTest, Pool.bitSet, Pool.bitClear, Map.bitTest_bitSet,
    Map.bitTest_bitClear]
  have hend : α.start + 2 ^ k - 1 = ω.past - 1 := rfl
  rw [hend]
  by_cases hn : n = ω.past - 1
  · simp [hn, hne]
  · simp [hn]

/-- The shrinking path: the front stays live and the rest is freed. -/
theorem Quiet.shrink (h : Quiet a L F R) (hα : α ∈ L) {k : ℕ} (hk : k < α.order) :
    ∃ F', Kept a F R (((a.bitSet (α.start + 2 ^ k - 1)).bitClear (α.past - 1)).toFree
      (α.start + 2 ^ k) α.past false) (insert ⟨α.start, k⟩ (L.erase α)) F' := by
  have ho := h.heap.order_lt α (Heap.live_mem hα)
  have hal := h.heap.tiling.aligned α (Heap.live_mem hα)
  have hsub : α.extent ⊆ R := h.heap.tiling.extent_subset (Heap.live_mem hα)
  have hpow : 2 ^ k < 2 ^ α.order := Nat.pow_lt_pow_right (by norm_num) hk
  have hpos := Nat.two_pow_pos k
  have hlt := h.heap.small
  set ω : Block := ⟨α.start, k⟩ with hω
  have h4 := Heap.toFree_rest hk.le hsub (h.heap.cut hα hk)
  refine ⟨_, h4.quiet ?_, by simp, fun hr => h4.reduced hr fun δ hδ => ?_⟩
  · have hbal := h.balance
    have hsum := Finset.add_sum_erase L (fun β : Block => 2 ^ β.order) hα
    have hcard := h.heap.card_le
    have hnew : ω ∉ L.erase α := fun hm => by
      have := h.heap.tiling.eq_of_mem (Heap.live_mem (Finset.mem_of_mem_erase hm))
        (Heap.live_mem hα) ω.start_mem α.start_mem
      exact Finset.ne_of_mem_erase hm this
    have hbytes : ((a.bitSet (α.start + 2 ^ k - 1)).bitClear (α.past - 1)).freeBytes < 2 ^ 32 :=
      h.freeBytes_lt
    rw [toFree_freeBytes _ _ _ hbytes, Finset.sum_insert hnew]
    simp only [Pool.bitSet_freeBytes, Pool.bitClear_freeBytes, Block.past, hω]
    rw [u32_of_lt (by omega)]
    omega
  · rcases Finset.mem_union.mp hδ with hδ | hδ
    · exact Or.inl hδ
    · refine Or.inr ⟨ω, Finset.mem_insert_self _ _, ?_⟩
      exact start_mem_buddy hal (Nat.lt_succ_iff.mp ho) hk.le δ (List.mem_toFinset.mp hδ)

/-- The ways of `Realloc` of the live block `α` to a size other than zero: the
code, what was stored through `newPtr` and the pool. -/
inductive ReallocPath (a : Pool) (L F : Finset Block) (R : Finset ℕ) (α : Block) (size : ℕ) :
    IOReturn → Option ℕ → Pool → Prop
  | failed {r : IOReturn} (hr : r = .noMemory ∨ r = .noResources) :
      ReallocPath a L F R α size r none a
  | kept (hk : Pool.sizeBits size = some α.order) :
      ReallocPath a L F R α size .success (some (a.addr α)) a
  | shrunk {k : ℕ} (hk : Pool.sizeBits size = some k) (hlt : k < α.order) :
      ReallocPath a L F R α size .success (some (a.addr ⟨α.start, k⟩))
        (((a.bitSet (α.start + 2 ^ k - 1)).bitClear (α.past - 1)).toFree
          (α.start + 2 ^ k) α.past false)
  | moved {s k : ℕ} {a₁ a₂ : Pool} {F₁ : Finset Block} (hk : Pool.sizeBits size = some k)
      (hle : α.order ≤ k) (hm : a.malloc size = .ok (a.addr ⟨s, k⟩, a₁))
      (hdis : ∀ β ∈ L, Disjoint β.extent (⟨s, k⟩ : Block).extent)
      (hkept : Kept a F R a₁ (insert ⟨s, k⟩ L) F₁)
      (hfree : (a₁.memcpy (1024 * s) (1024 * α.start) (Pool.words α.order)).free (a.addr α) =
        (.success, a₂)) :
      ReallocPath a L F R α size .success (some (a.addr ⟨s, k⟩)) a₂

/-- The copy into the new block leaves a heap in which the old one is live. -/
theorem Kept.memcpy {s k : ℕ} (h : Kept a F R a' (insert ⟨s, k⟩ L) F') (hle : α.order ≤ k) :
    Quiet (a'.memcpy (1024 * s) (1024 * α.start) (Pool.words α.order)) (insert ⟨s, k⟩ L) F' R :=
  h.quiet.memcpy (Finset.mem_insert_self ⟨s, k⟩ L) _ _ (by
    rw [Pool.words_eq]
    exact Nat.mul_le_mul_left _ (Nat.pow_le_pow_right (by norm_num) hle))

theorem Quiet.realloc_path (h : Quiet a L F R) (h0 : 0 < a.poolStart) (hα : α ∈ L) {size : ℕ}
    (hs : size ≠ 0) :
    ∃ r new a', a.realloc (a.addr α) size = (r, new, a') ∧ ReallocPath a L F R α size r new a' := by
  have ho := h.heap.order_lt α (Heap.live_mem hα)
  have hlt := h.heap.start_lt (Heap.live_mem hα)
  have hsmall := h.heap.small
  have hoff : a.addr α - a.poolStart = 4096 * α.start := by simp [Pool.addr]
  rw [Pool.realloc, if_neg hs, if_neg (by simp only [Pool.addr]; omega),
    h.heap.buddyAllocSize hα]
  by_cases hgrow : 2 ^ (α.order + minBits) < size
  · simp only [if_pos hgrow]
    rcases h.malloc size with hfail | ⟨s, k, a₁, F₁, hbits, hm, -, hdis, hk⟩
    · rcases hfail with hm | hm
      · exact ⟨.noMemory, none, a, by rw [hm], .failed (Or.inl rfl)⟩
      · exact ⟨.noResources, none, a, by rw [hm], .failed (Or.inr rfl)⟩
    · have hord : α.order ≤ k := by
        have := hgrow.trans_le (le_of_sizeBits hbits)
        have := (Nat.pow_lt_pow_iff_right (by norm_num)).mp this
        omega
      have hdst : (a.addr ⟨s, k⟩ - a.poolStart) / 4 = 1024 * s := by
        simp only [Pool.addr]
        omega
      have hsrc : (a.addr α - a.poolStart) / 4 = 1024 * α.start := by omega
      obtain ⟨a₂, F₂, he, -⟩ := (hk.memcpy hord).free_kept
        (show 0 < a₁.poolStart from hk.poolStart ▸ h0) (Finset.mem_insert_of_mem hα)
      have haddr : (a₁.memcpy (1024 * s) (1024 * α.start) (Pool.words α.order)).addr α =
          a.addr α := congrArg (· + 4096 * α.start) hk.poolStart
      rw [haddr] at he
      refine ⟨.success, some (a.addr ⟨s, k⟩), a₂, ?_, .moved hbits hord hm hdis hk he⟩
      rw [hm]
      simp only [hk.poolStart, hdst, hsrc, he]
  · simp only [if_neg hgrow]
    have hbits := sizeBits_eq ho (not_lt.mp hgrow)
    have hcan := canBitsLoop_le size α.order 0
    by_cases hkeep : α.order ≤ Pool.canBitsLoop size α.order 0
    · rw [show Pool.canBitsLoop size α.order 0 = α.order by omega] at hbits
      rw [if_pos hkeep]
      exact ⟨.success, some (a.addr α), a, rfl, .kept hbits⟩
    · rw [if_neg hkeep, hoff, show 4096 * α.start / 2 ^ minBits = α.start by
        simp only [minBits]; omega, u32_of_lt (by omega)]
      exact ⟨.success, _, _, rfl, .shrunk hbits (not_le.mp hkeep)⟩

theorem Quiet.realloc (h : Quiet a L F R) (h0 : 0 < a.poolStart) (hα : α ∈ L) (size : ℕ) :
    ∃ r new a' L' F', a.realloc (a.addr α) size = (r, new, a') ∧
      Realloced a L α size r new L' ∧ Kept a F R a' L' F' := by
  by_cases hs : size = 0
  · obtain ⟨a', F', he, hk⟩ := h.free_kept h0 hα
    exact ⟨.success, none, a', _, F', by rw [Pool.realloc, if_pos hs, he], .freed hs, hk⟩
  obtain ⟨r, new, a', he, hpath⟩ := h.realloc_path h0 hα hs
  cases hpath with
  | failed hr => exact ⟨_, _, _, L, F, he, .failed hr, h.kept⟩
  | kept hk =>
    have hres := Realloced.resized (a := a) (L := L) (α := α) (s := α.start) hs hk
    rw [Finset.insert_erase hα] at hres
    exact ⟨_, _, _, L, F, he, hres, h.kept⟩
  | shrunk hk hlt =>
    obtain ⟨F', hkept⟩ := h.shrink hα hlt
    exact ⟨_, _, _, _, F', he, .resized hs hk, hkept⟩
  | @moved s k a₁ _ F₁ hk hle hm hdis hkept hfree =>
    have hne : (⟨s, k⟩ : Block) ≠ α := fun he =>
      Finset.disjoint_left.mp (hdis α hα) α.start_mem (he ▸ start_mem ⟨s, k⟩)
    have haddr : (a₁.memcpy (1024 * s) (1024 * α.start) (Pool.words α.order)).addr α =
        a.addr α := congrArg (· + 4096 * α.start) hkept.poolStart
    obtain ⟨a₂, F₂, he₂, hk₂⟩ := (hkept.memcpy hle).free_kept
      (show 0 < a₁.poolStart from hkept.poolStart ▸ h0) (Finset.mem_insert_of_mem hα)
    rw [haddr, hfree] at he₂
    cases he₂
    refine ⟨_, _, _, _, F₂, he, .resized hs hk, ?_⟩
    rw [← Finset.erase_insert_of_ne hne]
    exact ⟨hk₂.quiet, hk₂.poolStart.trans hkept.poolStart,
      fun hr => hk₂.reduced (hkept.reduced hr)⟩

/-! ### Release -/

theorem Heap.clearAll (h : Heap a L F R ∅) {s e : ℕ} (he : e ≤ a.poolBlocks)
    (hd : Disjoint (Finset.Ico s e) R) :
    Heap { a with map := a.map.clearAll s e } L F R (Finset.Ico s e) := by
  refine ⟨h.tiling, h.apart, h.order_lt, h.small, ?_, hd.symm, fun n hn => ?_, h.lists, h.header,
    h.trailer⟩
  · refine Finset.union_subset (Finset.subset_union_left.trans h.inPool) fun n hn => ?_
    simp only [Finset.mem_Ico, Finset.mem_range] at hn ⊢
    omega
  · have hb := h.bits n hn
    simp only [Pool.bitTest, Map.bitTest_clearAll, Finset.union_empty, Finset.mem_union,
      Finset.mem_Ico, not_or, Bool.and_eq_true, Bool.not_eq_true', decide_eq_false_iff_not] at hb ⊢
    rw [hb]
    constructor
    · rintro ⟨h1 | h1, h2⟩
      · exact Or.inl ⟨h1, h2⟩
      · exact Or.inr h1
    · rintro (h1 | ⟨β, hβ, hend⟩)
      · exact ⟨Or.inl h1.1, h1.2⟩
      · refine ⟨Or.inr ⟨β, hβ, hend⟩, fun hm => ?_⟩
        have hlt := β.start_lt_past
        refine Finset.disjoint_left.mp hd (Finset.mem_Ico.mpr hm)
          (h.tiling.extent_subset (live_mem hβ) ?_)
        simp only [mem_extent]
        omega

/-- A range that was never released goes to the free lists, cut greedily; a
refused call changes nothing. -/
theorem Quiet.release (h : Quiet a L F R) {s e : ℕ}
    (hd : Disjoint (Finset.Ico (s / 4096) (e / 4096)) R) :
    a.release s e = (.badArgument, a) ∨
    ∃ a', a.release s e = (.success, a') ∧ a'.poolStart = a.poolStart ∧
      s % 4096 = 0 ∧ e % 4096 = 0 ∧ e / 4096 ≤ a.poolBlocks ∧
      a'.poolBlocks = a.poolBlocks ∧
      Quiet a' L (F ∪ (pieces 12 (e / 4096) (s / 4096)).toFinset)
        (R ∪ Finset.Ico (s / 4096) (e / 4096)) := by
  rw [Pool.release]
  simp only [minBits, show (2 : ℕ) ^ 12 = 4096 by norm_num]
  split_ifs with h1 h2 h3
  · exact Or.inl rfl
  · exact Or.inl rfl
  · exact Or.inl rfl
  right
  simp only [not_or, not_le, not_lt] at h3
  have hall : a.map.testAll (s / 4096) (e / 4096) = true := by
    refine Map.testAll_of_forall fun n hs he => (h.heap.bits n (by omega)).mpr (Or.inl ?_)
    rw [Finset.union_empty]
    exact Finset.disjoint_left.mp hd (Finset.mem_Ico.mpr ⟨hs, he⟩)
  rw [Map.clearCheck, if_pos hall]
  have hc := h.heap.clearAll h3.2 hd
  have hf := hc.toFree subset_rfl
  rw [Finset.sdiff_self] at hf
  refine ⟨_, rfl, by simp, not_not.mp h1, not_not.mp h2, h3.2, by simp, hf.quiet ?_⟩
  have hbal := h.balance
  have hcard := hf.card_le
  have hlt := h.heap.small
  have hbytes :
      ({ a with map := a.map.clearAll (s / 4096) (e / 4096) } : Pool).freeBytes < 2 ^ 32 :=
    h.freeBytes_lt
  rw [Finset.card_union_of_disjoint hd.symm, Nat.card_Ico, toFree_poolBlocks] at hcard
  rw [Finset.card_union_of_disjoint hd.symm, Nat.card_Ico, toFree_freeBytes _ _ _ hbytes]
  simp only at hcard ⊢
  rw [u32_of_lt (by omega)]
  omega

end Cesvga2.Allocator
