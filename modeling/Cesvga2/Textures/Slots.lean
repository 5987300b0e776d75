import Cesvga2.Textures.Context
import Cesvga2.Textures.Grown

/-! The slots of the contexts as holders of references. Every token but `VertexBuffer`
takes a reference for a slot that it fills and gives up the reference of a slot that it
empties, so the low half of a reference count stays the number of slots and links that
lead to the texture. -/

namespace Cesvga2.Textures.World

open Cesvga2.GL (numTextureHandles Token)

variable {n : ℕ} {w w' : World n} {c : Fin n} {i : Slot} {k t id : ℕ}

def slots (w : World n) (s : Fin n × Slot) : Option ℕ := (w.ctxs s.1).txs s.2

/-- The number of slots that hold `t`. -/
def held (w : World n) (t : ℕ) : ℕ := Refs.count Finset.univ w.slots t

theorem held_le (w : World n) (t : ℕ) : w.held t ≤ 21 * n := by
  have hcard : (Finset.univ : Finset (Fin n × Slot)).card = 21 * n := by simp [Nat.mul_comm]
  exact hcard ▸ Refs.count_le_card

@[simp] theorem setSlot_slots (v : Option ℕ) :
    (w.setSlot c i v).slots = Function.update w.slots (c, i) v := by
  funext s
  obtain ⟨d, j⟩ := s
  by_cases hd : d = c
  · subst hd
    by_cases hj : j = i <;> simp [slots, setSlot, setContext, hj]
  · simp [slots, setSlot, setContext, hd]

theorem held_fill (h : (w.ctxs c).txs i = none) :
    (w.setSlot c i (some t)).held = Store.oneMore w.held t := by
  funext u
  rw [held, setSlot_slots, Refs.count_fill (f := w.slots) (Finset.mem_univ (c, i)) h,
    Store.oneMore, held]
  simp only [eq_comm]

theorem held_empty (h : (w.ctxs c).txs i = some t) :
    Store.oneMore (w.setSlot c i none).held t = w.held := by
  funext u
  rw [held, ← Refs.count_empty (Finset.mem_univ (c, i)) h, Store.oneMore, held, setSlot_slots]
  simp only [eq_comm]

/-- The references that the slots hold are counted, and a context only holds textures of
its own shared object. -/
structure Sound (w : World n) : Prop where
  store : w.store.Inv w.held
  shared : ∀ {c i t}, (w.ctxs c).txs i = some t →
    ∃ x, w.store.textures t = some x ∧ (w.ctxs c).shared = some x.home
  vertex : ∀ c, (w.ctxs c).txs 16 = none

/-- The invariant of the contexts; the slots of a framebuffer are filled only while its
descriptor is there. -/
structure Inv (w : World n) : Prop extends Sound w where
  fbo : ∀ c b, (w.ctxs c).fbo b = false → ∀ i ∈ b.slots, (w.ctxs c).txs i = none

/-- A store whose textures stay with their shared objects, under slots that only lose. -/
theorem Sound.of_grown (h : w.Sound) (hs : w'.store.Inv w'.held)
    (hg : Store.Grown w.store w'.store)
    (hslot : ∀ c i t, (w'.ctxs c).txs i = some t → (w.ctxs c).txs i = some t)
    (hshared : ∀ c, (w'.ctxs c).shared = (w.ctxs c).shared) : w'.Sound where
  store := hs
  shared := by
    intro c i t ht
    obtain ⟨x, hx, hxs⟩ := h.shared (hslot c i t ht)
    obtain ⟨x', hx'⟩ := hs.live (Refs.count_pos (Finset.mem_univ (c, i)) ht)
    obtain ⟨y, hy, hyx⟩ := hg.home hx' (h.store.fresh hx)
    obtain rfl : x = y := Option.some.inj (hx.symm.trans hy)
    exact ⟨x', hx', by rw [hshared, hxs, hyx]⟩
  vertex := by
    intro c
    cases ht : (w'.ctxs c).txs 16 with
    | none => rfl
    | some t => rw [← hslot c 16 t ht, h.vertex c]

/-! ### Emptying a slot -/

theorem setSlot_txs (d : Fin n) (j : Slot) (v : Option ℕ) :
    ((w.setSlot c i v).ctxs d).txs j = if d = c ∧ j = i then v else (w.ctxs d).txs j := by
  have := congrFun (setSlot_slots (w := w) (c := c) (i := i) v) (d, j)
  simpa [slots, Function.update_apply] using this

theorem setSlot_shared (d : Fin n) (v : Option ℕ) :
    ((w.setSlot c i v).ctxs d).shared = (w.ctxs d).shared := by
  by_cases hd : d = c <;> simp [setSlot, setContext, hd]

theorem setSlot_fbo (d : Fin n) (v : Option ℕ) :
    ((w.setSlot c i v).ctxs d).fbo = (w.ctxs d).fbo := by
  by_cases hd : d = c <;> simp [setSlot, setContext, hd]

theorem setSlot_none_of_none (h : (w.ctxs c).txs i = none) : w.setSlot c i none = w := by
  rw [setSlot, ← h, Function.update_eq_self, setContext, Function.update_eq_self]

theorem dropSlot_ctxs : (w.dropSlot c k i).ctxs = (w.setSlot c i none).ctxs := by
  unfold dropSlot
  split
  · rename_i h
    rw [setSlot_none_of_none h]
  · rfl

/-- A context without the slot `i`. -/
theorem Sound.emptied (h : w.Sound) (hs : w'.store.Inv w'.held)
    (hg : Store.Grown w.store w'.store) (hc : w'.ctxs = (w.setSlot c i none).ctxs) : w'.Sound := by
  refine h.of_grown hs hg ?_ ?_
  · intro d j t ht
    rw [hc, setSlot_txs] at ht
    split_ifs at ht
    exact ht
  · intro d
    rw [hc, setSlot_shared]

theorem Sound.dropSlot (h : w.Sound) (hk : (w.ctxs c).shared = some k) :
    (w.dropSlot c k i).Sound := by
  unfold World.dropSlot
  split
  · exact h
  · rename_i t ht
    obtain ⟨x, hx, hxs⟩ := h.shared ht
    have hxk : x.home = k := Option.some.inj (hxs.symm.trans hk)
    have hone : w.store.Inv (Store.oneMore (w.setSlot c i none).held t) := by
      rw [held_empty ht]
      exact h.store
    refine h.emptied (c := c) (i := i) ?_
      (Store.changed_deref fun m => Store.changed_deleteTexture).grown rfl
    change (w.store.deref t 1 fun m => m.deleteTexture k t).Inv (w.setSlot c i none).held
    refine hone.derefOne hx fun m' hm' htex _ hz hzl => ?_
    exact hm'.deleteTexture (htex ▸ hx) hxk hz hzl

theorem dropSlot_shared (d : Fin n) : ((w.dropSlot c k i).ctxs d).shared = (w.ctxs d).shared := by
  rw [dropSlot_ctxs, setSlot_shared]

theorem Inv.dropSlot (h : w.Inv) (hk : (w.ctxs c).shared = some k) : (w.dropSlot c k i).Inv where
  toSound := h.toSound.dropSlot hk
  fbo := by
    intro d b hb j hj
    rw [dropSlot_ctxs] at hb ⊢
    rw [setSlot_fbo] at hb
    rw [setSlot_txs]
    split_ifs
    · rfl
    · exact h.fbo d b hb j hj

/-- Emptying the slots of a list. -/
theorem Inv.dropSlots (is : List Slot) (h : w.Inv) (hk : (w.ctxs c).shared = some k) :
    (w.dropSlots c k is).Inv ∧ ((w.dropSlots c k is).ctxs c).shared = some k ∧
      ((w.dropSlots c k is).ctxs c).fbo = (w.ctxs c).fbo ∧
      ∀ j, (j ∈ is ∨ (w.ctxs c).txs j = none) → ((w.dropSlots c k is).ctxs c).txs j = none := by
  induction is generalizing w with
  | nil => exact ⟨h, hk, rfl, fun j hj => hj.resolve_left List.not_mem_nil⟩
  | cons i is ih =>
    obtain ⟨hinv, hshared, hfbo, hnone⟩ := ih (w := w.dropSlot c k i) (h.dropSlot hk)
      ((dropSlot_shared c).trans hk)
    refine ⟨hinv, hshared, ?_, fun j hj => hnone j ?_⟩
    · exact hfbo.trans (by rw [dropSlot_ctxs, setSlot_fbo])
    · rw [dropSlot_ctxs, setSlot_txs]
      by_cases hji : j = i
      · simp [hji]
      · simpa [hji] using hj

/-! ### Filling a slot -/

section Fill

variable (hn : 21 * n + numTextureHandles + 1 < 2 ^ 16)

include hn in
/-- A reference of the client turns into one of the slot. -/
theorem Inv.takeSlot (h : w.Inv) (hk : (w.ctxs c).shared = some k)
    (hf : w.store.findTextureBuffer k id = some t) (hempty : (w.ctxs c).txs i = none)
    (hi : i ≠ 16) (hfbo : ∀ b : Fbo, i ∈ b.slots → (w.ctxs c).fbo b = true) :
    (w.takeSlot c i t).Inv := by
  obtain ⟨x, hx, hxk⟩ := h.store.find hf
  have hcount := h.store.count hx
  have hheld := w.held_le t
  have hlinks := h.store.links_le t
  have hadd : (w.store.fetchAndAdd x (2 ^ 32 - 0xFFFF)).Inv (w.setSlot c i (some t)).held := by
    rw [held_fill hempty]
    refine h.store.fetchAndAdd hx ?_ fun u hu => Store.oneMore_of_ne hu
    simp only [Store.oneMore_self, u32]
    omega
  simp only [World.takeSlot, hx]
  refine ⟨⟨hadd, ?_, ?_⟩, ?_⟩
  · intro d j u hu
    have hu' : ((w.setSlot c i (some t)).ctxs d).txs j = some u := hu
    change ∃ y, w.store.textures u = some y ∧
      ((w.setSlot c i (some t)).ctxs d).shared = some y.home
    rw [setSlot_txs] at hu'
    rw [setSlot_shared]
    split_ifs at hu' with hdj
    · obtain rfl := Option.some.inj hu'
      exact ⟨x, hx, by rw [hdj.1, hk, hxk]⟩
    · exact h.shared hu'
  · intro d
    change ((w.setSlot c i (some t)).ctxs d).txs 16 = none
    rw [setSlot_txs, if_neg fun hd => hi hd.2.symm]
    exact h.vertex d
  · intro d b hb j hj
    change ((w.setSlot c i (some t)).ctxs d).fbo b = false at hb
    change ((w.setSlot c i (some t)).ctxs d).txs j = none
    rw [setSlot_fbo] at hb
    rw [setSlot_txs, if_neg]
    · exact h.fbo d b hb j hj
    · rintro ⟨rfl, rfl⟩
      rw [hfbo b hj] at hb
      exact Bool.noConfusion hb

theorem takeSlot_ctxs (hx : w.store.Live t) :
    (w.takeSlot c i t).ctxs = (w.setSlot c i (some t)).ctxs := by
  obtain ⟨x, hx⟩ := hx
  simp only [World.takeSlot, hx]
  rfl

end Fill

end Cesvga2.Textures.World
