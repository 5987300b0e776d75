import Cesvga2.Allocator.Runs

/-! One client of the allocator, that keeps the address of one block and frees and resizes it.
Every other live block is left alone. -/

namespace Cesvga2.Allocator

open Blocks Blocks.Block

section

variable {a a' : Pool} {L F : Finset Block} {R : Finset ℕ} {α : Block} {size q : ℕ}

theorem Quiet.eq_of_addr (h : Quiet a L F R) {β : Block} (hα : α ∈ L) (hβ : β ∈ L)
    (he : a.addr β = a.addr α) : β = α := by
  have hs : β.start = α.start := by
    simp only [Pool.addr] at he
    omega
  exact h.heap.tiling.eq_of_mem (Heap.live_mem hβ) (Heap.live_mem hα) β.start_mem
    (hs ▸ α.start_mem)

/-- A block that was resized is not where another one is. -/
theorem Quiet.realloc_fresh (h : Quiet a L F R) (h0 : 0 < a.poolStart) (hα : α ∈ L)
    (hq : (a.realloc (a.addr α) size).2.1 = some q) {γ : Block} (hγ : γ ∈ L) (hne : γ ≠ α) :
    a.addr γ ≠ q := by
  by_cases hs : size = 0
  · rw [Pool.realloc, if_pos hs] at hq
    cases hq
  obtain ⟨r, new, a', he, hpath⟩ := h.realloc_path h0 hα hs
  rw [he] at hq
  cases hpath with
  | failed _ => cases hq
  | kept _ =>
    cases hq
    exact fun heq => hne (h.eq_of_addr hα hγ heq)
  | shrunk _ _ =>
    cases hq
    exact fun heq => hne (h.eq_of_addr hα hγ heq)
  | @moved s k _ _ _ _ _ _ hdis _ _ =>
    cases hq
    intro heq
    have hstart : s = γ.start := by
      simp only [Pool.addr] at heq
      omega
    exact Finset.disjoint_left.mp (hdis γ hγ) γ.start_mem (hstart ▸ start_mem ⟨s, k⟩)

end

variable {σ : Sys} {rest : Finset Block} {p bytes : ℕ}

/-- The live blocks are those of `rest` and the one at the client's address. -/
structure Holds (rest : Finset Block) (σ : Sys) (ptr : Option ℕ) : Prop where
  reach : Reachable σ
  null : ptr = none → σ.live = rest
  block : ∀ p ∈ ptr, ∃ β ∉ rest, p = σ.pool.addr β ∧ σ.live = insert β rest

theorem Holds.free (h : Holds rest σ (some p)) : Holds rest ((Op.free p).exec σ) none := by
  obtain ⟨β, hβ, rfl, hlive⟩ := h.block p rfl
  have hmem : β ∈ σ.live := hlive ▸ Finset.mem_insert_self β rest
  obtain ⟨h0, F, hq⟩ := h.reach.quiet
  obtain ⟨a', F', he, -⟩ := hq.free_kept h0 hmem
  refine ⟨.step h.reach ⟨β, hmem, rfl⟩, fun _ => ?_, nofun⟩
  have hexec : ((Op.free (σ.pool.addr β)).exec σ).live = σ.live.erase β := by
    simp only [Op.exec, he, hq.heap.filter_addr hmem]
  rw [hexec, hlive, Finset.erase_insert hβ]

theorem filter_addr_ne_zero (h0 : 0 < σ.pool.poolStart) :
    (σ.live.filter fun β => σ.pool.addr β ≠ 0) = σ.live :=
  Finset.filter_true_of_mem fun β _ => by simp only [Pool.addr]; omega

/-- A reallocation of no block is an allocation, and of no bytes none at all. -/
theorem Holds.realloc_null (h : Holds rest σ none) :
    Holds rest ((Op.realloc 0 bytes).exec σ) (σ.pool.realloc 0 bytes).2.1 := by
  obtain ⟨h0, F, hq⟩ := h.reach.quiet
  by_cases hb : bytes = 0
  · subst hb
    have he : σ.pool.realloc 0 0 = (.success, none, σ.pool) := rfl
    simp only [Op.exec, he, filter_addr_ne_zero h0]
    exact h
  · have hlive := h.null rfl
    rcases hq.malloc bytes with (hm | hm) | ⟨s, k, a', F', hbits, hm, -, hdis, hk⟩
    · have he : σ.pool.realloc 0 bytes = (.noMemory, none, σ.pool) := by
        simp only [Pool.realloc, if_neg hb, hm, if_true]
      simp only [Op.exec, he]
      exact h
    · have he : σ.pool.realloc 0 bytes = (.noResources, none, σ.pool) := by
        simp only [Pool.realloc, if_neg hb, hm, if_true]
      simp only [Op.exec, he]
      exact h
    · have he : σ.pool.realloc 0 bytes = (.success, some (σ.pool.addr ⟨s, k⟩), a') := by
        simp only [Pool.realloc, if_neg hb, hm, if_true]
      have hexec : (Op.realloc 0 bytes).exec σ = (Op.malloc bytes).exec σ := by
        simp only [Op.exec, he, hm, filter_addr_ne_zero h0]
      have hnew : (⟨s, k⟩ : Block) ∉ rest := fun hmem =>
        Finset.disjoint_left.mp (hdis _ (hlive ▸ hmem)) (start_mem _) (start_mem ⟨s, k⟩)
      rw [hexec]
      refine ⟨.step h.reach trivial, ?_, ?_⟩
      · rw [he]
        rintro ⟨⟩
      · rw [he]
        rintro _ ⟨⟩
        simp only [Op.exec, hm, blockAt_addr σ.pool hbits, hlive]
        exact ⟨_, hnew, congrArg (· + 4096 * s) hk.poolStart.symm, rfl⟩

/-- Without its pointer, the block counts among the rest. -/
theorem Holds.lost (h : Holds rest σ (some p)) : ∃ β ∉ rest, Holds (insert β rest) σ none := by
  obtain ⟨β, hβ, -, hlive⟩ := h.block p rfl
  exact ⟨β, hβ, h.reach, fun _ => hlive, nofun⟩

/-- A reallocation moves the block or resizes it in place, or fails and leaves all as it is. -/
theorem Holds.realloc_block (h : Holds rest σ (some p)) (hb : bytes ≠ 0) :
    (σ.pool.realloc p bytes).1 = .success ∧
      (∃ q, (σ.pool.realloc p bytes).2.1 = some q ∧
        Holds rest ((Op.realloc p bytes).exec σ) (some q)) ∨
    (σ.pool.realloc p bytes).1 ≠ .success ∧ (σ.pool.realloc p bytes).2.1 = none ∧
      Holds rest ((Op.realloc p bytes).exec σ) (some p) := by
  obtain ⟨α, hα, rfl, hlive⟩ := h.block p rfl
  have hmem : α ∈ σ.live := hlive ▸ Finset.mem_insert_self α rest
  obtain ⟨h0, F, hq⟩ := h.reach.quiet
  have hreach : Reachable ((Op.realloc (σ.pool.addr α) bytes).exec σ) :=
    .step h.reach ⟨α, hmem, rfl⟩
  have hrest : σ.live.erase α = rest := by rw [hlive, Finset.erase_insert hα]
  obtain ⟨r, new, a', L', F', he, hres, hk⟩ := hq.realloc h0 hmem bytes
  have haddr : ∀ β, a'.addr β = σ.pool.addr β := fun β =>
    congrArg (· + 4096 * β.start) hk.poolStart
  cases hres with
  | freed hzero => exact absurd hzero hb
  | @resized s k _ hbits =>
    refine .inl ⟨by rw [he], _, by rw [he], hreach, by rintro ⟨⟩, ?_⟩
    rintro _ ⟨⟩
    have hexec : (Op.realloc (σ.pool.addr α) bytes).exec σ =
        ⟨a', insert ⟨s, k⟩ rest, σ.released⟩ := by
      simp only [Op.exec, he, hq.heap.filter_addr hmem, blockAt_addr σ.pool hbits, hrest]
    rw [hexec]
    refine ⟨⟨s, k⟩, fun hnew => ?_, (haddr _).symm, rfl⟩
    rw [← hrest, Finset.mem_erase] at hnew
    exact hq.realloc_fresh h0 hmem (by rw [he]) hnew.2 hnew.1 rfl
  | failed hr =>
    have hexec : (Op.realloc (σ.pool.addr α) bytes).exec σ = ⟨a', σ.live, σ.released⟩ := by
      rcases hr with rfl | rfl <;> simp only [Op.exec, he]
    refine .inr ⟨by rw [he]; rcases hr with rfl | rfl <;> rintro ⟨⟩, by rw [he], hreach,
      by rintro ⟨⟩, ?_⟩
    rintro _ ⟨⟩
    rw [hexec]
    exact ⟨α, hα, (haddr α).symm, hlive⟩

end Cesvga2.Allocator
