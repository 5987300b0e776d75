import Cesvga2.Textures.Tokens

/-! The whole protocol: any interleaving of device calls, client writes, `connectClient`
calls, tokens and `CleanupApp` on any number of contexts. As long as textures that are in
use are not deleted by id, contexts change their shared object only when their slots are
empty and no `VertexBuffer` token names a texture, no slot and no link leads to a released
texture and every reference is counted. -/

namespace Cesvga2.Textures

open Cesvga2.GL (numTextureHandles Token)

namespace World

variable {n : ℕ} {w w' : World n} {c : Fin n} {k t : ℕ}

/-! ### `CleanupApp` -/

/-- The textures that a loop has collected can be deleted: no one holds them. -/
structure Spare (m : Store) (held : ℕ → ℕ) (k : ℕ) (ts : List ℕ) : Prop where
  nodup : ts.Nodup
  home : ∀ t ∈ ts, ∃ x, m.textures t = some x ∧ x.home = k
  held : ∀ t ∈ ts, held t = 0
  links : ∀ t ∈ ts, m.links t = 0

variable {m : Store} {held : ℕ → ℕ} {ts : List ℕ}

theorem Spare.delete (ts : List ℕ) (h : m.Inv held)
    (hs : Spare m held k ts) : (ts.foldl (fun m t => m.deleteTexture k t) m).Inv held := by
  induction ts generalizing m with
  | nil => exact h
  | cons t ts ih =>
    obtain ⟨x, hx, hxk⟩ := hs.home t List.mem_cons_self
    obtain ⟨hnot, hnd⟩ := List.nodup_cons.mp hs.nodup
    have hdel := h.deleteTexture hx hxk (hs.held t List.mem_cons_self)
      (hs.links t List.mem_cons_self)
    refine ih (m := m.deleteTexture k t) hdel
      ⟨hnd, ?_, fun u hu => hs.held u (List.mem_cons_of_mem t hu), ?_⟩
    · intro u hu
      obtain ⟨y, hy, hyk⟩ := hs.home u (List.mem_cons_of_mem t hu)
      have hut : u ≠ t := by
        rintro rfl
        exact hnot hu
      -- nothing is linked to `u`, so `t` is not
      have hlu : x.linkedAgp ≠ some u := by
        intro hl
        have hzero := hs.links u (List.mem_cons_of_mem t hu)
        exact Refs.count_eq_zero.mp hzero t (Finset.mem_range.mpr (h.fresh hx))
          (Store.link_eq_some.mpr ⟨x, hx, hl⟩)
      obtain ⟨d, hd⟩ : ∃ d, m.next = d + 1 := ⟨m.next - 1, by have := h.fresh hx; omega⟩
      refine ⟨y, ?_, hyk⟩
      rw [Store.deleteTexture, hd, h.delete_textures hx hut hlu, hy]
    · intro u hu
      have hzero := hs.links u (List.mem_cons_of_mem t hu)
      have hle := Store.links_deleteTexture_le (k := k) m t u
      omega

theorem Spare.nil : Spare m held k [] :=
  ⟨List.nodup_nil, fun _ ht => absurd ht List.not_mem_nil, fun _ ht => absurd ht List.not_mem_nil,
    fun _ ht => absurd ht List.not_mem_nil⟩

theorem Spare.append (hs : Spare m held k ts) (hnot : t ∉ ts)
    (hhome : ∃ x, m.textures t = some x ∧ x.home = k) (hheld : held t = 0)
    (hlinks : m.links t = 0) : Spare m held k (ts ++ [t]) := by
  refine ⟨List.nodup_append.mpr ⟨hs.nodup, List.nodup_singleton t, ?_⟩, ?_, ?_, ?_⟩
  · rintro u hu v hv rfl
    exact hnot (List.mem_singleton.mp hv ▸ hu)
  all_goals
    intro u hu
    rcases List.mem_append.mp hu with hu | hu
  · exact hs.home u hu
  · exact List.mem_singleton.mp hu ▸ hhome
  · exact hs.held u hu
  · exact List.mem_singleton.mp hu ▸ hheld
  · exact hs.links u hu
  · exact List.mem_singleton.mp hu ▸ hlinks

/-- One slot of the loop of `CleanupApp`. -/
theorem Sound.cleanupSlot {s : World n × List ℕ} (h : s.1.Sound)
    (hk : (s.1.ctxs c).shared = some k) (hs : Spare s.1.store s.1.held k s.2) (i : Slot) :
    let s' := World.cleanupSlot c s i
    s'.1.Sound ∧ s'.1.ctxs = (s.1.setSlot c i none).ctxs ∧
      Spare s'.1.store s'.1.held k s'.2 := by
  obtain ⟨w, ts⟩ := s
  dsimp only at h hk hs
  simp only [World.cleanupSlot]
  cases ht : (w.ctxs c).txs i with
  | none =>
    rw [setSlot_none_of_none ht]
    exact ⟨h, rfl, hs⟩
  | some t =>
    obtain ⟨x, hx, hxs⟩ := h.shared ht
    have hxk : x.home = k := Option.some.inj (hxs.symm.trans hk)
    have hone : w.store.Inv (Store.oneMore (w.setSlot c i none).held t) := by
      rw [held_empty ht]
      exact h.store
    have hcount := hone.count hx
    rw [Store.oneMore_self] at hcount
    have hsub : (w.store.fetchAndAdd x (2 ^ 32 - 1)).Inv (w.setSlot c i none).held := by
      refine hone.fetchAndAdd hx ?_ fun u hu => (Store.oneMore_of_ne hu).symm
      simp only [u32]
      omega
    have hle : ∀ u, (w.setSlot c i none).held u ≤ w.held u := by
      intro u
      rw [← held_empty ht]
      exact Nat.le_add_right _ _
    simp only [hx]
    refine ⟨h.emptied (c := c) (i := i) hsub (.of_textures rfl rfl) rfl, rfl, ?_⟩
    change Spare (w.store.fetchAndAdd x (2 ^ 32 - 1)) (w.setSlot c i none).held k _
    have hkeep : Spare (w.store.fetchAndAdd x (2 ^ 32 - 1)) (w.setSlot c i none).held k ts :=
      ⟨hs.nodup, hs.home, fun u hu => Nat.le_zero.mp ((hs.held u hu) ▸ hle u), hs.links⟩
    split_ifs with hr
    · rw [hr] at hcount
      have hnot : t ∉ ts := by
        intro hmem
        have hzero : w.held t = 0 := hs.held t hmem
        have hpos : 0 < w.held t := Refs.count_pos (f := w.slots) (Finset.mem_univ (c, i)) ht
        omega
      refine hkeep.append hnot ⟨x, hx, hxk⟩ (by omega) ?_
      change w.store.links t = 0
      omega
    · exact hkeep

/-- The loop of `CleanupApp` over the slots of a list. -/
theorem Sound.cleanupSlots (is : List Slot) {s : World n × List ℕ} (h : s.1.Sound)
    (hk : (s.1.ctxs c).shared = some k) (hs : Spare s.1.store s.1.held k s.2) :
    let s' := is.foldl (World.cleanupSlot c) s
    s'.1.Sound ∧ Spare s'.1.store s'.1.held k s'.2 ∧
      (∀ d, (s'.1.ctxs d).fbo = (s.1.ctxs d).fbo) ∧
      (∀ d j, d ≠ c → (s'.1.ctxs d).txs j = (s.1.ctxs d).txs j) ∧
      ∀ j, (j ∈ is ∨ (s.1.ctxs c).txs j = none) → (s'.1.ctxs c).txs j = none := by
  induction is generalizing s with
  | nil =>
    exact ⟨h, hs, fun _ => rfl, fun _ _ _ => rfl, fun j hj => hj.resolve_left List.not_mem_nil⟩
  | cons i is ih =>
    obtain ⟨hsound, hctxs, hspare⟩ := h.cleanupSlot hk hs i
    have hk' : ((World.cleanupSlot c s i).1.ctxs c).shared = some k := by
      rw [hctxs, setSlot_shared, hk]
    obtain ⟨hsound', hspare', hfbo, hother, hnone⟩ := ih hsound hk' hspare
    refine ⟨hsound', hspare', fun d => ?_, fun d j hd => ?_, fun j hj => hnone j ?_⟩
    · rw [List.foldl_cons, hfbo, hctxs, setSlot_fbo]
    · rw [List.foldl_cons, hother d j hd, hctxs, setSlot_txs, if_neg fun hdj => hd hdj.1]
    · rw [hctxs, setSlot_txs]
      by_cases hji : j = i
      · simp [hji]
      · simpa [hji] using hj

theorem Inv.cleanupApp (h : w.Inv) : (w.cleanupApp c).Inv := by
  unfold World.cleanupApp
  dsimp only
  have hsound : ((w.setFbo c .draw false).setFbo c .read false).Sound :=
    (h.toSound.setFbo .draw false).setFbo .read false
  set v := (w.setFbo c .draw false).setFbo c .read false with hv
  have hvfbo : ∀ d b, d ≠ c → (v.ctxs d).fbo b = (w.ctxs d).fbo b := by
    intro d b hd
    rw [hv, setFbo_fbo, if_neg fun hdb => hd hdb.1, setFbo_fbo, if_neg fun hdb => hd hdb.1]
  have hvtxs : ∀ d, (v.ctxs d).txs = (w.ctxs d).txs := by
    intro d
    rw [hv, setFbo_txs, setFbo_txs]
  cases hk : (v.ctxs c).shared with
  | none =>
    refine ⟨hsound, fun d b hb j hj => ?_⟩
    by_cases hd : d = c
    · subst hd
      cases ht : (v.ctxs d).txs j with
      | none => rfl
      | some t =>
        -- a context without a shared object holds nothing
        obtain ⟨x, -, hx⟩ := hsound.shared ht
        rw [hk] at hx
        exact absurd hx.symm (Option.some_ne_none _)
    · rw [hvtxs]
      exact h.fbo d b (hvfbo d b hd ▸ hb) j hj
  | some k =>
    obtain ⟨hsound', hspare, hfbo, hother, hnone⟩ :=
      hsound.cleanupSlots (s := (v, [])) (List.finRange 21) hk .nil
    dsimp only at hfbo hother hnone
    set s := (List.finRange 21).foldl (World.cleanupSlot c) (v, []) with hs
    refine ⟨hsound'.of_grown (Spare.delete s.2 hsound'.store hspare)
      (Store.changed_deleteTextures s.2).grown
      (fun _ _ _ => id) fun _ => rfl, ?_⟩
    intro d b hb j hj
    change (s.1.ctxs d).fbo b = false at hb
    change (s.1.ctxs d).txs j = none
    by_cases hd : d = c
    · subst hd
      exact hnone j (.inl (List.mem_finRange j))
    · rw [hfbo, hvfbo d b hd] at hb
      rw [hother d j hd, hvtxs]
      exact h.fbo d b hb j hj

/-! ### Runs -/

theorem Inv.connectClient (h : w.Inv)
    (hempty : (w.ctxs c).shared = some k ∨ ∀ i, (w.ctxs c).txs i = none) :
    (w.connectClient c k).1.Inv := by
  unfold World.connectClient
  split_ifs
  · exact h
  have htxs : ∀ d, ((w.setContext c { w.ctxs c with shared := some k }).ctxs d).txs
      = (w.ctxs d).txs := by
    intro d
    by_cases hd : d = c <;> simp [setContext, hd]
  have hfbo : ∀ d, ((w.setContext c { w.ctxs c with shared := some k }).ctxs d).fbo
      = (w.ctxs d).fbo := by
    intro d
    by_cases hd : d = c <;> simp [setContext, hd]
  refine ⟨⟨?_, ?_, ?_⟩, ?_⟩
  · rw [held_congr htxs]
    exact h.store
  · intro d i t ht
    rw [htxs] at ht
    obtain ⟨x, hx, hxs⟩ := h.shared ht
    refine ⟨x, hx, ?_⟩
    by_cases hd : d = c
    · subst hd
      rcases hempty with hk | hnone
      · simpa [setContext, ← hxs] using hk.symm
      · rw [hnone i] at ht
        exact absurd ht.symm (Option.some_ne_none t)
    · simpa [setContext, hd] using hxs
  · intro d
    rw [htxs]
    exact h.vertex d
  · intro d b hb j hj
    rw [hfbo] at hb
    rw [htxs]
    exact h.fbo d b hb j hj

end World

/-- The actions that respect the slots: device calls as in `Call.Careful`, a change of the
shared object with empty slots only, and no `VertexBuffer` token that names a texture. -/
def Action.Careful {n : ℕ} (w : World n) : Action n → Prop
  | .device call => call.Careful w.held w.store
  | .connectClient c k => (w.ctxs c).shared = some k ∨ ∀ i, (w.ctxs c).txs i = none
  | .token c lion _ p => GL.dispatch lion (p 0) = some .vertexBuffer →
      ∀ k, (w.ctxs c).shared = some k → w.store.findTextureBuffer k (p 1) = none
  | .cleanupApp _ => True

namespace World

variable {n : ℕ} {w₀ w : World n}

/-- One careful action. -/
theorem Inv.exec (hn : 21 * n + numTextureHandles + 1 < 2 ^ 16) (h : w.Inv) (a : Action n)
    (ha : a.Careful w) : (w.exec a).Inv := by
  cases a with
  | device call =>
    refine h.setStore (h.store.exec (fun t => ?_) call ha) (Store.changed_exec w.store call).grown
    have := w.held_le t
    omega
  | connectClient c k => exact h.connectClient ha
  | token c lion e p =>
    simp only [World.exec, World.token]
    split
    · rename_i k t hk ht
      refine h.process hn p hk e t fun htv => ?_
      exact ha (htv ▸ ht) k hk
    · exact h
  | cleanupApp c => exact h.cleanupApp

def Step (w w' : World n) : Prop := ∃ a : Action n, a.Careful w ∧ w' = w.exec a

theorem Inv.run (hn : 21 * n + numTextureHandles + 1 < 2 ^ 16) (h : w₀.Inv)
    (hr : Relation.ReflTransGen Step w₀ w) : w.Inv := by
  induction hr with
  | refl => exact h
  | tail _ hstep ih =>
    obtain ⟨a, ha, rfl⟩ := hstep
    exact ih.exec hn a ha

/-- Contexts that have just been opened, over shared objects without textures. -/
def fresh (task : ℕ → ℕ) (owner : Fin n → ℕ) : World n :=
  ⟨Store.fresh task, fun c => ⟨owner c, none, fun _ => none, fun _ => false, false⟩⟩

theorem inv_fresh (task : ℕ → ℕ) (owner : Fin n → ℕ) : (fresh task owner).Inv where
  store := by
    have hheld : (fresh task owner).held = fun _ => 0 := by
      funext t
      exact Refs.count_eq_zero.mpr fun _ _ h => absurd h.symm (Option.some_ne_none t)
    rw [hheld]
    exact Store.inv_fresh task
  shared := fun h => absurd h.symm (Option.some_ne_none _)
  vertex := fun _ => rfl
  fbo := fun _ _ _ _ _ => rfl

/-- Every slot and every link of a live texture leads to a texture that has not been
released. -/
def NoDangling (w : World n) : Prop :=
  (∀ c i t, (w.ctxs c).txs i = some t → w.store.Live t) ∧
    ∀ t x l, w.store.textures t = some x → x.linkedAgp = some l → w.store.Live l

/-- The low half of the reference count of a live texture is the number of slots and of
links that lead to it. -/
def Counted (w : World n) : Prop :=
  ∀ t x, w.store.textures t = some x →
    (w.store.sysObj x).refcount % 2 ^ 16 = w.held t + w.store.links t

theorem noDangling_of_careful (hn : 21 * n + numTextureHandles + 1 < 2 ^ 16) (task : ℕ → ℕ)
    (owner : Fin n → ℕ) (hr : Relation.ReflTransGen Step (fresh task owner) w) :
    w.NoDangling := by
  have h := (inv_fresh task owner).run hn hr
  constructor
  · intro c i t ht
    obtain ⟨x, hx, -⟩ := h.shared ht
    exact ⟨x, hx⟩
  · intro t x l hx hl
    obtain ⟨-, y, hy, -⟩ := h.store.linked hx hl
    exact ⟨y, hy⟩

theorem counted_of_careful (hn : 21 * n + numTextureHandles + 1 < 2 ^ 16) (h₀ : w₀.Inv)
    (hr : Relation.ReflTransGen Step w₀ w) : w.Counted :=
  fun _ _ hx => (h₀.run hn hr).store.count hx

/-! ### Runs on one context -/

section Small

/-- The words of a token with its upper byte and its operands. -/
def words (upper : ℕ) (ops : List ℕ) (j : ℕ) : ℕ := ((upper <<< 24) :: ops)[j]?.getD 0

def calm : TokenEnv := ⟨true, false⟩

instance neZero_context : NeZero 1 := ⟨one_ne_zero⟩

def connected : World 1 :=
  ((fresh (fun _ => 0) fun _ => 0).exec (.connectClient 0 0)).exec (.device Store.newVertexBuffer)

/-- Unit 0 is given texture 0. -/
def bindUnit : Action 1 := .token 0 false calm (words 32 [1, 0, 0, 0])

def bindVertexBuffer : Action 1 := .token 0 false calm (words 52 [0])

theorem run_connected : Relation.ReflTransGen Step (fresh (fun _ => 0) fun _ => 0) connected :=
  .tail (.single ⟨.connectClient 0 0, .inr fun _ => rfl, rfl⟩)
    ⟨.device Store.newVertexBuffer, trivial, rfl⟩

theorem careful_bindUnit : bindUnit.Careful connected :=
  fun h => absurd h (by decide)

theorem noDangling_bindUnit : (connected.exec bindUnit).NoDangling ∧
    ((connected.exec bindUnit).ctxs 0).txs 0 = some 0 :=
  ⟨noDangling_of_careful (by decide) (fun _ => 0) (fun _ => 0)
    (run_connected.tail ⟨bindUnit, careful_bindUnit, rfl⟩), by decide +kernel⟩

/-- A texture in a slot is deleted by its id: the slot is left dangling. -/
theorem dangling_deleteTexture :
    ¬ ((connected.exec bindUnit).exec (.device (.deleteTexture 0 0))).NoDangling := by
  have hslot : (((connected.exec bindUnit).exec (.device (.deleteTexture 0 0))).ctxs 0).txs 0
      = some 0 := by decide +kernel
  have hgone : ((connected.exec bindUnit).exec (.device (.deleteTexture 0 0))).store.textures 0
      = none := by decide +kernel
  intro h
  obtain ⟨x, hx⟩ := h.1 0 0 0 hslot
  rw [hgone] at hx
  exact Option.some_ne_none x hx.symm

theorem counted_bindUnit : (connected.exec bindUnit).Counted ∧
    (connected.exec bindUnit).held 0 = 1 :=
  ⟨counted_of_careful (by decide) ((inv_fresh _ _).run (by decide) run_connected)
    (.single ⟨bindUnit, careful_bindUnit, rfl⟩), by decide +kernel⟩

/-- A `VertexBuffer` token fills slot 16 without a reference. -/
theorem uncounted_vertexBuffer :
    connected.Counted ∧ ¬ (connected.exec bindVertexBuffer).Counted := by
  constructor
  · exact fun _ _ hx => ((inv_fresh _ _).run (by decide) run_connected).store.count hx
  · have htex : (connected.exec bindVertexBuffer).store.textures 0
        = some ⟨.vb, 0, 0, none, 0, 0, 0, false⟩ := by decide +kernel
    have hcount : ((connected.exec bindVertexBuffer).store.sysObj
        ⟨.vb, 0, 0, none, 0, 0, 0, false⟩).refcount % 2 ^ 16 = 0 := by decide +kernel
    have hheld : (connected.exec bindVertexBuffer).held 0 = 1 := by decide +kernel
    intro h
    have := h 0 _ htex
    omega

end Small

end World

end Cesvga2.Textures
