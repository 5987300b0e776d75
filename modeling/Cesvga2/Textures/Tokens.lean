import Cesvga2.Textures.Slots

/-! Every handler keeps the references of the slots counted, except that of a
`VertexBuffer` token that names a texture, which fills slot 16 without a reference. -/

namespace Cesvga2.Textures.World

open Cesvga2.GL (numTextureHandles Token noTexture)

variable {n : ℕ} {w w' : World n} {c : Fin n} {i : Slot} {k t id : ℕ}

/-! ### Steps that leave the slots -/

/-- A step of the store under slots that stay. -/
theorem Inv.setStore (h : w.Inv) {m : Store} (hm : m.Inv w.held) (hg : Store.Grown w.store m) :
    ({ w with store := m } : World n).Inv where
  toSound := h.toSound.of_grown hm hg (fun _ _ _ => id) fun _ => rfl
  fbo := h.fbo

theorem fail_txs (d : Fin n) : ((w.fail c).ctxs d).txs = (w.ctxs d).txs := by
  by_cases hd : d = c <;> simp [fail, setContext, hd]

theorem fail_shared (d : Fin n) : ((w.fail c).ctxs d).shared = (w.ctxs d).shared := by
  by_cases hd : d = c <;> simp [fail, setContext, hd]

theorem fail_fbo (d : Fin n) : ((w.fail c).ctxs d).fbo = (w.ctxs d).fbo := by
  by_cases hd : d = c <;> simp [fail, setContext, hd]

theorem held_congr (h : ∀ d, (w'.ctxs d).txs = (w.ctxs d).txs) : w'.held = w.held := by
  funext t
  exact Refs.count_congr fun s _ => congrFun (h s.1) s.2

theorem Inv.fail (h : w.Inv) : (w.fail c).Inv where
  toSound := by
    refine h.toSound.of_grown ?_ (.refl _) ?_ fail_shared
    · rw [held_congr fail_txs]
      exact h.store
    · intro d j t ht
      rwa [fail_txs] at ht
  fbo := by
    intro d b hb j hj
    rw [fail_fbo] at hb
    rw [fail_txs]
    exact h.fbo d b hb j hj

theorem Inv.releaseClient (h : w.Inv) : (w.releaseClient c k id).Inv := by
  unfold World.releaseClient
  split
  · exact h.fail
  · rename_i t ht
    obtain ⟨x, hx, hxk⟩ := h.store.find ht
    have hcount := h.store.count hx
    refine h.setStore ?_ (Store.changed_deref fun m => Store.changed_deleteTexture).grown
    refine h.store.deref hx ?_ (fun _ _ => rfl) ?_ ?_
    · simp only [u32]
      omega
    · intro hr
      rw [hr] at hcount
      omega
    · intro m' hm' htex _ hz hzl
      exact hm'.deleteTexture (htex ▸ hx) hxk hz hzl

theorem Inv.markInUse (h : w.Inv) (e : TokenEnv) : (w.markInUse k e id).Inv := by
  unfold World.markInUse
  split
  · exact h
  split
  · exact h
  · rename_i x hx
    split_ifs
    · refine h.setStore ?_ (.of_textures rfl rfl)
      refine h.store.setSysObj _ ?_ (fun _ _ _ _ => rfl) h.store.live
      intro u y hy hhome hslot
      have hobj : w.store.sysObj x = w.store.sysObj y := by
        rw [Store.sysObj, Store.sysObj, hhome, hslot]
      exact ⟨by rw [hobj], rfl, by rw [hobj]; exact h.store.count hy⟩
    · exact h

/-! ### The loops over the slots -/

theorem slots_disjoint {b b' : Fbo} (h : i ∈ b.slots) (h' : i ∈ b'.slots) : b = b' := by
  revert i
  cases b <;> cases b' <;> decide

theorem ne_vertex {b : Fbo} (h : i ∈ b.slots) : i ≠ 16 := by
  revert i
  cases b <;> decide

section Loops

variable (hn : 21 * n + numTextureHandles + 1 < 2 ^ 16) (p : ℕ → ℕ)

theorem takeSlot_shared (d : Fin n) : ((w.takeSlot c i t).ctxs d).shared = (w.ctxs d).shared := by
  unfold takeSlot
  split
  · rfl
  · exact setSlot_shared d _

include hn in
theorem Inv.textureLoop (is : List Slot) (q : ℕ) (h : w.Inv)
    (hk : (w.ctxs c).shared = some k)
    (his : ∀ i ∈ is, i ≠ 16 ∧ ∀ b : Fbo, i ∉ b.slots) : (World.textureLoop c k p w is q).Inv := by
  induction is generalizing w q with
  | nil => exact h
  | cons i is ih =>
    obtain ⟨hi, hib⟩ := his i List.mem_cons_self
    have hrest : ∀ j ∈ is, j ≠ 16 ∧ ∀ b : Fbo, j ∉ b.slots :=
      fun j hj => his j (List.mem_cons_of_mem i hj)
    have hdrop := h.dropSlot (i := i) hk
    have hkd : ((w.dropSlot c k i).ctxs c).shared = some k := (dropSlot_shared c).trans hk
    unfold World.textureLoop
    dsimp only
    split
    · split
      · exact hdrop.fail
      · rename_i t ht
        have hempty : ((w.dropSlot c k i).ctxs c).txs i = none := by
          rw [dropSlot_ctxs, setSlot_txs, if_pos ⟨rfl, rfl⟩]
        refine ih _ (hdrop.takeSlot hn hkd ht hempty hi fun b hb => absurd hb (hib b)) ?_ hrest
        exact (takeSlot_shared c).trans hkd
    · exact ih q hdrop hkd hrest

include hn in
/-- The attachments of a framebuffer whose slots are empty. -/
theorem Inv.bindLoop (is : List Slot) (q : ℕ) (b : Fbo) (h : w.Inv)
    (hk : (w.ctxs c).shared = some k) (hb : (w.ctxs c).fbo b = true) (hnd : is.Nodup)
    (his : ∀ i ∈ is, i ∈ b.slots ∧ (w.ctxs c).txs i = none) :
    (World.bindLoop c k p w is q).Inv := by
  induction is generalizing w q with
  | nil => exact h
  | cons i is ih =>
    obtain ⟨hi, hnone⟩ := his i List.mem_cons_self
    obtain ⟨hnot, hnd⟩ := List.nodup_cons.mp hnd
    have hrest : ∀ j ∈ is, j ∈ b.slots ∧ (w.ctxs c).txs j = none :=
      fun j hj => his j (List.mem_cons_of_mem i hj)
    unfold World.bindLoop
    split_ifs
    · exact ih (q + 4) h hk hb hnd hrest
    · split
      · exact h.fail
      · rename_i t ht
        have hown : ∀ b' : Fbo, i ∈ b'.slots → (w.ctxs c).fbo b' = true :=
          fun b' hb' => slots_disjoint hi hb' ▸ hb
        obtain ⟨x, hx, -⟩ := h.store.find ht
        refine ih (q + 4) (h.takeSlot hn hk ht hnone (ne_vertex hi) hown)
          ((takeSlot_shared c).trans hk) ?_ hnd ?_
        · rw [takeSlot_ctxs ⟨x, hx⟩, setSlot_fbo]
          exact hb
        · intro j hj
          refine ⟨(hrest j hj).1, ?_⟩
          rw [takeSlot_ctxs ⟨x, hx⟩, setSlot_txs, if_neg]
          · exact (hrest j hj).2
          · rintro ⟨-, rfl⟩
            exact hnot hj

theorem setFbo_txs (d : Fin n) (b : Fbo) (v : Bool) :
    ((w.setFbo c b v).ctxs d).txs = (w.ctxs d).txs := by
  by_cases hd : d = c <;> simp [setFbo, setContext, hd]

theorem setFbo_shared (d : Fin n) (b : Fbo) (v : Bool) :
    ((w.setFbo c b v).ctxs d).shared = (w.ctxs d).shared := by
  by_cases hd : d = c <;> simp [setFbo, setContext, hd]

theorem setFbo_fbo (d : Fin n) (b b' : Fbo) (v : Bool) :
    ((w.setFbo c b v).ctxs d).fbo b' = if d = c ∧ b' = b then v else (w.ctxs d).fbo b' := by
  by_cases hd : d = c
  · subst hd
    simp [setFbo, setContext, Function.update_apply]
  · simp [setFbo, setContext, hd]

theorem Sound.setFbo (h : w.Sound) (b : Fbo) (v : Bool) : (w.setFbo c b v).Sound := by
  refine h.of_grown ?_ (.refl _) ?_ fun d => setFbo_shared d b v
  · rw [held_congr fun d => setFbo_txs d b v]
    exact h.store
  · intro d j t ht
    rwa [setFbo_txs] at ht

/-- A descriptor may come at any time, and may go when its slots are empty. -/
theorem Inv.setFbo (h : w.Inv) (b : Fbo) (v : Bool)
    (hv : v = false → ∀ i ∈ b.slots, (w.ctxs c).txs i = none) : (w.setFbo c b v).Inv where
  toSound := h.toSound.setFbo b v
  fbo := by
    intro d b' hb' j hj
    rw [setFbo_fbo] at hb'
    rw [setFbo_txs]
    split_ifs at hb' with hd
    · obtain ⟨rfl, rfl⟩ := hd
      exact hv hb' j hj
    · exact h.fbo d b' hb' j hj

include hn in
theorem Inv.bindFBO (h : w.Inv) (hk : (w.ctxs c).shared = some k) (e : TokenEnv) (b : Fbo) :
    (w.bindFBO c k e b p).Inv := by
  have hnd : (b.slots.take (min (p 3) 2)).Nodup :=
    (List.take_sublist _ _).nodup (by cases b <;> decide)
  have hmem : ∀ i ∈ b.slots.take (min (p 3) 2), i ∈ b.slots := fun i => List.mem_of_mem_take
  unfold World.bindFBO
  split_ifs with hb hmalloc
  · obtain ⟨hinv, hshared, hfbo, hnone⟩ := h.dropSlots b.slots hk
    refine hinv.bindLoop hn p _ 4 b hshared (by rw [hfbo, hb]) hnd ?_
    exact fun i hi => ⟨hmem i hi, hnone i (.inl (hmem i hi))⟩
  · have hset := h.setFbo (c := c) b true fun hv => Bool.noConfusion hv
    refine hset.bindLoop hn p _ 4 b ((setFbo_shared c b true).trans hk) ?_ hnd ?_
    · rw [setFbo_fbo, if_pos ⟨rfl, rfl⟩]
    · intro i hi
      rw [setFbo_txs]
      exact ⟨hmem i hi, h.fbo c b (Bool.eq_false_iff.mpr hb) i (hmem i hi)⟩
  · exact h.fail

theorem Inv.unbindFBO (h : w.Inv) (hk : (w.ctxs c).shared = some k) (b : Fbo) :
    (w.unbindFBO c k b).Inv := by
  unfold World.unbindFBO
  split_ifs
  · obtain ⟨hinv, -, -, hnone⟩ := h.dropSlots b.slots hk
    exact hinv.setFbo b false fun _ i hi => hnone i (.inl hi)
  · exact h

theorem units_free (i : Slot) (hi : i ∈ units) : i ≠ 16 ∧ ∀ b : Fbo, i ∉ b.slots := by
  have hb : i ∉ Fbo.draw.slots ∧ i ∉ Fbo.read.slots := by
    revert i
    decide
  refine ⟨?_, fun b => ?_⟩
  · revert i
    decide
  · cases b
    · exact hb.1
    · exact hb.2

include hn in
/-- Every handler keeps the invariant, that of `VertexBuffer` when it finds no texture. -/
theorem Inv.process (h : w.Inv) (hk : (w.ctxs c).shared = some k) (e : TokenEnv) (t : Token)
    (hv : t = .vertexBuffer → w.store.findTextureBuffer k (p 1) = none) :
    (w.process c k e p t).Inv := by
  cases t with
  | textureVolatile => exact h.releaseClient
  | textureNonVolatile => exact (h.markInUse e).releaseClient
  | bindDrawFBO => exact h.bindFBO hn p hk e .draw
  | bindReadFBO => exact h.bindFBO hn p hk e .read
  | unbindDrawFBO => exact h.unbindFBO hk .draw
  | unbindReadFBO => exact h.unbindFBO hk .read
  | texture => exact h.textureLoop hn p units 2 hk units_free
  | noTex =>
    simp only [World.process]
    split_ifs
    · exact h.releaseClient
    · exact h.dropSlot hk
  | vertexBuffer =>
    simp only [World.process, hv rfl]
    exact h.fail
  | noVertexBuffer =>
    simp only [World.process]
    rw [setSlot_none_of_none (h.vertex c)]
    exact h
  | texSubImage2D => exact h.releaseClient
  | copyPixelsDst => exact h.releaseClient
  | copyPixelsSrcFBO => exact h.releaseClient
  | asyncReadDrawBuffer => exact h.releaseClient
  | _ => exact h

end Loops

end Cesvga2.Textures.World
