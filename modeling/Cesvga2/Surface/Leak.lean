import Cesvga2.Surface.Owner
import Cesvga2.Allocator.Client
import Cesvga2.Runs.Prefix

/-! The VRAM blocks of a surface. A reallocation that fails leaves the old block with the
allocator, but its null result takes the place of the surface's only pointer. That block is never
freed. As long as no block fails to grow, a release leaves the blocks that there were before the
first call. -/

namespace Cesvga2.Surface

open Allocator (Holds)
open Blocks (Block)

namespace Holder

variable {h : Holder} {e : Faults} {rest : Finset Block} {size p : ℕ}

/-- The part of the holder that is about VRAM. -/
def memory (h : Holder) : Allocator.Sys × Option ℕ := (h.vram, h.backing.self)

theorem memory_sync : h.sync.memory = h.memory := by
  unfold sync
  split_ifs <;> rfl

theorem memory_complete : h.complete.memory = h.memory := by
  unfold complete unwire
  split
  · split_ifs <;> exact memory_sync
  · exact memory_sync

theorem memory_discard : h.discard.memory = h.memory := by
  unfold discard
  split_ifs <;> rfl

theorem memory_attach (gartPtr : ℕ) : (h.attach e gartPtr).2.memory = h.memory := by
  have hprep : ∀ h : Holder, (h.prepare e).2.memory = h.memory := by
    intro h
    unfold prepare obtainGMR
    split
    · rfl
    · split
      · rfl
      · dsimp only
        split_ifs <;> rfl
  unfold attach
  split <;> rename_i heq
  all_goals
    have := hprep { h with backing := { h.backing with md := some h.backing.size } }
    rw [heq] at this
    exact this

theorem memory_finish (before after : Surf) (rc : IOReturn) (c : Call) :
    (h.finish e before after rc c).memory = h.memory := by
  unfold finish
  split
  · split_ifs
    · exact memory_sync
    · rfl
  · split
    · split_ifs <;> rfl
    · rfl
  · split
    · split_ifs <;> rfl
    · rfl
  · rfl

/-! ### What the allocator has -/

/-- The live blocks are the rest and the block that is held. -/
def Keeps (rest : Finset Block) (h : Holder) : Prop := Holds rest h.memory.1 h.memory.2

theorem Keeps.releaseBacking (k : Keeps rest h) : Keeps rest h.releaseBacking := by
  have hmem : h.complete.discard.memory = h.memory := memory_discard.trans memory_complete
  have k' : Keeps rest h.complete.discard := by
    unfold Keeps
    rw [hmem]
    exact k
  unfold Holder.releaseBacking vramFree
  split
  next p hself =>
    have hblock : Holds rest h.complete.discard.vram (some p) := hself ▸ k'
    exact hblock.free
  next hself =>
    have hnull : Holds rest h.complete.discard.vram none := hself ▸ k'
    exact hnull

theorem Keeps.forWrap (k : Keeps rest h) : Keeps rest h.forWrap := by
  unfold Holder.forWrap
  split_ifs
  · exact k
  · exact k.releaseBacking

theorem self_of_classify (hc : h.backing.classify = 2) : h.backing.self = none := by
  by_contra hne
  simp [Backing.classify, Option.isSome_iff_ne_none.mpr hne] at hc

theorem classify_of_self (hself : h.backing.self = some p) : h.backing.classify = 1 := by
  simp [Backing.classify, hself]

theorem Keeps.forRealloc (k : Keeps rest h) :
    Keeps rest h.forRealloc ∧ h.forRealloc.backing.self = h.backing.self := by
  have hmem : h.complete.discard.memory = h.memory := memory_discard.trans memory_complete
  unfold Holder.forRealloc
  split
  · refine ⟨?_, congrArg Prod.snd hmem⟩
    unfold Keeps
    rw [hmem]
    exact k
  next hc => exact ⟨k.releaseBacking, (self_of_classify hc).symm⟩
  · exact ⟨k, rfl⟩

/-- `VRAMRealloc` succeeds for the block at `p`. -/
def Resizes (h : Holder) (e : Faults) (p size : ℕ) : Prop :=
  e.vramFails = false ∧ (h.vram.pool.realloc p size).1 = .success

theorem memory_resize :
    (h.resize e size).memory = ((h.vramRealloc e size).2, (h.vramRealloc e size).1) := rfl

theorem Keeps.resize_null (k : Keeps rest h) (hself : h.backing.self = none) :
    Keeps rest (h.resize e size) := by
  have hnull : Holds rest h.vram none := hself ▸ k
  unfold Keeps
  rw [memory_resize, vramRealloc, hself]
  split_ifs
  · exact hnull
  · exact hnull.realloc_null

/-- A block is resized, or lost. -/
theorem Keeps.resize_block (k : Keeps rest h) (hself : h.backing.self = some p)
    (hsize : size ≠ 0) :
    (h.Resizes e p size → Keeps rest (h.resize e size)) ∧
    (¬ h.Resizes e p size → ∃ β ∉ rest, Keeps (insert β rest) (h.resize e size)) := by
  have hblock : Holds rest h.vram (some p) := hself ▸ k
  unfold Resizes Keeps
  rw [memory_resize, vramRealloc, hself]
  cases e.vramFails with
  | true => exact ⟨nofun, fun _ => hblock.lost⟩
  | false =>
    rcases hblock.realloc_block hsize with ⟨hrc, q, hq, hkeep⟩ | ⟨hrc, hq, hkeep⟩
    · refine ⟨fun _ => ?_, fun hno => absurd ⟨rfl, hrc⟩ hno⟩
      simp only [Option.getD_some, hq, Bool.false_eq_true, if_false]
      exact hkeep
    · refine ⟨fun hyes => absurd hyes.2 hrc, fun _ => ?_⟩
      simp only [Option.getD_some, hq, Bool.false_eq_true, if_false]
      exact hkeep.lost

/-- No block that has to grow fails to. -/
def Grows (h : Holder) (e : Faults) (client : ClientBacking) (size : ℕ) : Prop :=
  client.addr = 0 → ∀ p, h.backing.self = some p → h.backing.size < size → h.Resizes e p size

theorem memory_inVRAM (offset : ℕ) : ({ h with
    backing := { h.backing with offset := offset, gmr := .vram }, fence := 0 } : Holder).memory =
    h.memory := rfl

/-- Once the block is resized, the rest of `allocBacking` does nothing to VRAM. -/
theorem memory_place (clientAddr : ℕ) : (h.place e clientAddr).2.memory = h.memory := by
  unfold place allocGMRBacking
  split
  · split_ifs
    · exact memory_attach 0
    · rfl
  · exact memory_inVRAM _

theorem Keeps.wrapClientBacking (k : Keeps rest h) (client : ClientBacking) :
    Keeps rest (h.wrapClientBacking e client size).2 := by
  unfold Holder.wrapClientBacking
  split_ifs
  · exact k
  · unfold Keeps
    rw [memory_attach]
    exact k.forWrap
  · exact k.forWrap

theorem Keeps.allocBacking (k : Keeps rest h) (client : ClientBacking) (clientAddr : ℕ) :
    (h.Grows e client size → Keeps rest (h.allocBacking e client size clientAddr).2) ∧
    (¬ h.Grows e client size →
      ∃ β ∉ rest, Keeps (insert β rest) (h.allocBacking e client size clientAddr).2) := by
  by_cases hc : client.addr = 0
  swap
  · refine ⟨fun _ => ?_, fun hno => absurd (fun h0 => absurd h0 hc) hno⟩
    rw [Holder.allocBacking, if_pos hc]
    exact k.wrapClientBacking client
  by_cases hkeep : h.backing.classify = 1 ∧ size ≤ h.backing.size
  · refine ⟨fun _ => ?_, fun hno => absurd (fun _ _ _ hlt => ?_) hno⟩
    · rw [Holder.allocBacking, if_neg (not_not.mpr hc), if_pos hkeep]
      exact k
    · exact absurd hkeep.2 (Nat.not_le.mpr hlt)
  obtain ⟨kr, hself⟩ := k.forRealloc
  rw [Holder.allocBacking, if_neg (not_not.mpr hc), if_neg hkeep]
  unfold Keeps
  rw [memory_place]
  cases hp : h.backing.self with
  | none =>
    refine ⟨fun _ => kr.resize_null (hself.trans hp), fun hno => absurd (fun _ p hsome => ?_) hno⟩
    exact absurd (hp.symm.trans hsome) nofun
  | some p =>
    have hclass : h.backing.classify = 1 := classify_of_self hp
    have hlt : h.backing.size < size := Nat.not_le.mp fun hle => hkeep ⟨hclass, hle⟩
    have hvram : h.forRealloc.vram = h.vram := by
      rw [Holder.forRealloc, hclass]
      exact congrArg Prod.fst (memory_discard.trans memory_complete)
    obtain ⟨hgood, hbad⟩ := kr.resize_block (e := e) (hself.trans hp) (Nat.ne_zero_of_lt hlt)
    have hiff : h.Grows e client size ↔ h.forRealloc.Resizes e p size := by
      unfold Resizes
      rw [hvram]
      refine ⟨fun hg => hg hc p hp hlt, fun hr _ q hq _ => ?_⟩
      cases hp.symm.trans hq
      exact hr
    rw [hiff]
    exact ⟨hgood, hbad⟩

end Holder

/-! ### Runs -/

namespace Owner

variable {o : Owner} {rest : Finset Block}

/-- The condition on an action: no block that it has to grow fails to. -/
def Grows (o : Owner) : Act → Prop
  | .call c e => o.surf.allocates c = true → o.holder.Grows e o.surf.client o.surf.scale.size
  | _ => True

theorem keeps_exec (a : Act) (k : o.holder.Keeps rest) :
    (o.Grows a → (o.exec a).holder.Keeps rest) ∧
    (¬ o.Grows a → ∃ β ∉ rest, (o.exec a).holder.Keeps (insert β rest)) := by
  cases a with
  | call c e =>
    obtain ⟨g, hg⟩ := result_backing (o := o) (c := c) (e := e)
    have hmem : (o.exec (.call c e)).holder.memory = (o.allocated c e).memory := by
      have hself : (o.result c e).2.backing.self = (o.allocated c e).backing.self := by
        rw [hg]
        rfl
      have hvram := congrArg Prod.fst (Holder.memory_finish (h := o.allocated c e) (e := e) o.surf
        (o.result c e).2 (o.result c e).1 c)
      exact Prod.ext hvram hself
    unfold Holder.Keeps
    rw [hmem]
    unfold allocated Grows
    by_cases ha : o.surf.allocates c = true
    · rw [if_pos ha]
      have hiff : (o.surf.allocates c = true →
          o.holder.Grows e o.surf.client o.surf.scale.size) ↔
          o.holder.Grows e o.surf.client o.surf.scale.size := forall_prop_of_true ha
      simp only [hiff]
      exact k.allocBacking o.surf.client o.surf.screen.clientAddr
    · rw [if_neg ha]
      exact ⟨fun _ => k, fun hno => absurd (fun hyes => absurd hyes ha) hno⟩
  | release => exact ⟨fun _ => k.releaseBacking, fun hno => absurd trivial hno⟩
  | otherAlloc => exact ⟨fun _ => k, fun hno => absurd trivial hno⟩
  | otherFree id =>
    refine ⟨fun _ => ?_, fun hno => absurd trivial hno⟩
    simp only [exec]
    split_ifs <;> exact k

theorem live_release (k : o.holder.Keeps rest) : (o.exec .release).vram.live = rest :=
  k.releaseBacking.null rfl

/-- After a run and a release the allocator has the blocks that it had before, exactly if no
block of the surface failed to grow. -/
theorem live_release_iff_grows (surf : Surf) (ids : Ids.Sys) (vram : Allocator.Sys)
    (hvram : Allocator.Reachable vram) (acts : List Act) :
    ((acts.foldl exec (init surf ids vram)).exec .release).vram.live = vram.live ↔
      Runs.Each exec Grows (init surf ids vram) acts := by
  refine Runs.foldl_iff_each (P := fun o : Owner => (o.exec .release).vram.live = vram.live)
    (I := fun o : Owner => o.holder.Keeps vram.live)
    (J := fun o : Owner => ∃ rest, vram.live ⊂ rest ∧ o.holder.Keeps rest)
    ⟨hvram, fun _ => rfl, nofun⟩ (fun o k => live_release k) ?_ ?_ ?_ ?_
  · rintro o ⟨rest, hss, k⟩ heq
    rw [live_release k] at heq
    exact hss.ne heq.symm
  · exact fun o a k hc => (keeps_exec a k).1 hc
  · intro o a k hc
    obtain ⟨β, hβ, k'⟩ := (keeps_exec a k).2 hc
    exact ⟨_, Finset.ssubset_insert hβ, k'⟩
  · rintro o a ⟨rest, hss, k⟩
    by_cases hc : o.Grows a
    · exact ⟨rest, hss, (keeps_exec a k).1 hc⟩
    · obtain ⟨β, hβ, k'⟩ := (keeps_exec a k).2 hc
      exact ⟨_, hss.trans (Finset.ssubset_insert hβ), k'⟩

/-- Nothing fails but what the allocators refuse. -/
def noFaults : Faults :=
  ⟨⟨none, true, none, true, true, true, true, true, true, .success⟩, false, true, none⟩

/-- A shape at the corner of the screen. -/
def shapeOf (w h : Int16) : Act :=
  .call (.setShape ⟨13, 0, 0, 0, 0, some ⟨⟨0, 0, w, h⟩, [⟨0, 0, w, h⟩]⟩, 20⟩) noFaults

/-- A lock of one page, and a second one of 32 pages, more than the allocator has. -/
def growTooFar : List Act :=
  [shapeOf 32 16, .call (.writeLock true) noFaults, .call .writeUnlock noFaults, shapeOf 256 128,
    .call (.writeLock true) noFaults]

theorem live_release_iff_grows_growTooFar :
    ¬ Runs.Each exec Grows (init newSurf ⟨.init 3, ∅, ∅⟩ Allocator.smallSys) growTooFar := by
  intro h
  exact absurd ((live_release_iff_grows newSurf _ _ Allocator.reachable_smallSys _).mpr h)
    (by decide +kernel)

/-- The page of the first lock is never freed. -/
theorem not_live_release_growTooFar :
    ((growTooFar.foldl exec (init newSurf ⟨.init 3, ∅, ∅⟩ Allocator.smallSys)).exec
      .release).vram.live ≠ Allocator.smallSys.live := by
  decide +kernel

end Owner

end Cesvga2.Surface
