import Cesvga2.Textures.Atomic

/-! Whole runs of `new_texture` and `new_agpref_texture` calls and of deletions of the textures they
return. Every step keeps the registries accounting for each other and every retain with a live
texture, so the handle table, the texture list and the system objects stay in correspondence. -/

namespace Cesvga2.Textures

open Cesvga2.GL (numTextureHandles)

namespace Store

variable {m : Store} {k t : ℕ} {idle : Set ℕ} {x : TextureBuffer}

/-- The entries of the handle table, the nodes of the texture list and the system objects in use
of a shared object correspond to each other: an entry to the texture it holds, and a texture to its
system object. -/
structure OneToOne (m : Store) (k : ℕ) : Prop where
  nodup : (m.shareds k).textureList.Nodup
  handles : Set.BijOn (m.shareds k).handleTable
    {i | i < numTextureHandles ∧ ((m.shareds k).handleTable i).isSome}
    (some '' {t | t ∈ (m.shareds k).textureList})
  sysObjs : Set.BijOn (fun t => (m.textures t).map fun x => (x.home, x.slot))
    {t | t ∈ (m.shareds k).textureList}
    ((fun i => some (k, i)) '' {i | i < numSysObjs ∧ ((m.shareds k).sysObjs i).inUse = true})

theorem Full.handles_bijOn (h : m.Full (fun _ => 0) ∅ idle) (k : ℕ) :
    Set.BijOn (m.shareds k).handleTable
      {i | i < numTextureHandles ∧ ((m.shareds k).handleTable i).isSome}
      (some '' {t | t ∈ (m.shareds k).textureList}) := by
  refine ⟨?_, ?_, ?_⟩
  · rintro i ⟨-, hi⟩
    obtain ⟨t, ht⟩ := Option.isSome_iff_exists.mp hi
    obtain ⟨-, x, hx, rfl, -⟩ := h.inv.handle ht
    exact ⟨t, h.listed hx (Set.notMem_empty t), ht.symm⟩
  · rintro i ⟨-, hi⟩ j - hij
    obtain ⟨t, ht⟩ := Option.isSome_iff_exists.mp hi
    obtain ⟨-, x, hx, -, hxi⟩ := h.inv.handle ht
    obtain ⟨-, y, hy, -, hyj⟩ := h.inv.handle (hij.symm.trans ht)
    rw [← hxi, ← hyj, Option.some.inj (hx.symm.trans hy)]
  · rintro _ ⟨t, ht, rfl⟩
    obtain ⟨x, hx, rfl⟩ := h.inv.listed ht
    have hnamed := h.inv.named hx
    exact ⟨_, ⟨(h.inv.handle hnamed).1, Option.isSome_iff_exists.mpr ⟨t, hnamed⟩⟩, hnamed⟩

theorem Full.sysObjs_bijOn (h : m.Full (fun _ => 0) ∅ idle) (k : ℕ) :
    Set.BijOn (fun t => (m.textures t).map fun x => (x.home, x.slot))
      {t | t ∈ (m.shareds k).textureList}
      ((fun i => some (k, i)) ''
        {i | i < numSysObjs ∧ ((m.shareds k).sysObjs i).inUse = true}) := by
  refine ⟨?_, ?_, ?_⟩
  · intro t ht
    obtain ⟨x, hx, rfl⟩ := h.inv.listed ht
    exact ⟨x.slot, ⟨h.slot hx, (h.inv.place hx).1⟩, by simp only [hx, Option.map_some]⟩
  · intro t ht u hu htu
    obtain ⟨x, hx, -⟩ := h.inv.listed ht
    obtain ⟨y, hy, -⟩ := h.inv.listed hu
    simp only [hx, hy, Option.map_some, Option.some.injEq, Prod.mk.injEq] at htu
    exact h.inv.sysObj_inj hx hy htu.1 htu.2
  · rintro _ ⟨i, ⟨-, hi⟩, rfl⟩
    obtain ⟨t, x, hx, rfl, rfl⟩ := h.used hi
    exact ⟨t, h.listed hx (Set.notMem_empty t), by simp only [hx, Option.map_some]⟩

theorem Full.oneToOne (h : m.Full (fun _ => 0) ∅ idle) (k : ℕ) : m.OneToOne k :=
  ⟨h.inv.nodup k, h.handles_bijOn k, h.sysObjs_bijOn k⟩

theorem full_fresh (task : ℕ → ℕ) : (fresh task).Full (fun _ => 0) ∅ ∅ :=
  ⟨inv_fresh task, nofun, nofun, nofun, nofun, nofun⟩

/-- Only AGP textures are linked to. -/
theorem Inv.links_of_ne_agp {held : ℕ → ℕ} (h : m.Inv held) (hx : m.textures t = some x)
    (htype : x.type ≠ .agp) : m.links t = 0 := by
  refine Refs.count_eq_zero.mpr fun u _ hu => htype ?_
  obtain ⟨z, hz, hzl⟩ := link_eq_some.mp hu
  obtain ⟨-, y, hy, hagp, -⟩ := h.linked hz hzl
  rwa [Option.some.inj (hx.symm.trans hy)]

end Store

namespace Holdings

variable {task : ℕ → ℕ} {w : Holdings} {k t : ℕ}

/-- What every run keeps. A texture that a call returned is live until it is deleted. -/
structure Inv (w : Holdings) : Prop where
  full : w.store.Full (fun _ => 0) ∅ ∅
  accounts : w.Accounts
  returned : ∀ {t k}, w.returned t = some k →
    ∃ x, w.store.textures t = some x ∧ x.home = k ∧ x.type ≠ .agp

theorem inv_fresh (task : ℕ → ℕ) : (fresh task).Inv where
  full := Store.full_fresh task
  accounts := ⟨nofun, nofun, fun _ => (Refs.count_eq_zero.mpr nofun).symm⟩
  returned := nofun

theorem Inv.outcome (h : w.Inv) (c : NewCall) : Outcome w c.home (c.run w) := by
  cases c with
  | newTexture => exact outcome_newTexture h.full h.accounts ..
  | newAgprefTexture => exact outcome_newAgprefTexture h.full h.accounts ..

theorem Inv.after (h : w.Inv) (c : NewCall) : (c.after w).Inv := by
  have hout := h.outcome c
  have hkeeps : ∀ {t k}, (c.run w).1.returned t = some k →
      ∃ x, (c.run w).1.store.textures t = some x ∧ x.home = k ∧ x.type ≠ .agp := by
    intro t k ht
    rw [hout.since.returned] at ht
    obtain ⟨x, hx, hk, htype⟩ := h.returned ht
    exact ⟨x, hout.since.keeps hx htype, hk, htype⟩
  unfold NewCall.after
  rcases hr : c.run w with ⟨w', _ | t⟩ <;> rw [hr] at hout hkeeps
  · exact ⟨hout.full, hout.since.accounts, hkeeps⟩
  · refine ⟨hout.full, ⟨hout.since.accounts.live, hout.since.accounts.lt,
      hout.since.accounts.retains⟩, fun {u k} hu => ?_⟩
    dsimp only at hu
    rw [Function.update_apply] at hu
    split_ifs at hu with hut
    · obtain rfl := Option.some.inj hu
      exact hut ▸ hout.made t rfl
    · exact hkeeps hu

theorem Inv.delete (h : w.Inv) (ht : w.returned t = some k) : (w.delete k t).Inv := by
  obtain ⟨x, hx, hk, htype⟩ := h.returned ht
  have hinv := h.full.inv
  obtain ⟨n, hn⟩ : ∃ n, w.store.next = n + 1 :=
    Nat.exists_eq_succ_of_ne_zero (Nat.ne_of_gt (Nat.zero_lt_of_lt (hinv.fresh hx)))
  have hstore : (w.deleteTexture k t).store = w.store.deleteTextureInternal (n + 2) k t := by
    rw [Holdings.deleteTexture, store_deleteTextureInternal, hn]
  have haccounts := h.accounts.delete (k := k) (w.store.next + 1) t
  have hfull := h.full.delete (d := n) hx hk (hinv.links_of_ne_agp hx htype)
  rw [Set.empty_sdiff, ← hstore] at hfull
  refine ⟨hfull, ⟨haccounts.live, haccounts.lt, haccounts.retains⟩, fun {u j} hu => ?_⟩
  replace hu : Function.update w.returned t none u = some j := hu
  rw [Function.update_apply] at hu
  split_ifs at hu with hut
  obtain ⟨y, hy, hyj, hytype⟩ := h.returned hu
  have hlink : x.linkedAgp ≠ some u := by
    intro hl
    obtain ⟨-, z, hz, hagp, -⟩ := hinv.linked hx hl
    exact hytype (Option.some.inj (hy.symm.trans hz) ▸ hagp)
  refine ⟨y, ?_, hyj, hytype⟩
  change (w.deleteTexture k t).store.textures u = some y
  rw [hstore, hinv.delete_textures hx hut hlink, hy]

theorem Reachable.inv (h : Reachable task w) : w.Inv := by
  induction h with
  | init => exact inv_fresh task
  | new _ c ih => exact ih.after c
  | delete _ ht ih => exact ih.delete ht

/-- In every run the registries correspond to each other, AGP textures are counted exactly and are
only there for others, and a call that fails leaves the textures, their counts and the retained
descriptors as they were. -/
theorem textures_accounted (h : Reachable task w) :
    (∀ k, w.store.OneToOne k) ∧
    (∀ t x, w.store.textures t = some x → x.type = .agp →
      (w.store.sysObj x).refcount = w.store.links t ∧ 1 ≤ (w.store.sysObj x).refcount) ∧
    ∀ c : NewCall, (c.run w).2 = none →
      (c.run w).1.store.view = w.store.view ∧ (c.run w).1.md = w.md ∧
      (c.run w).1.retains = w.retains := by
  have hinv := h.inv
  refine ⟨hinv.full.oneToOne, fun t x hx hagp => ?_, fun c hnone => ?_⟩
  · have hcount := hinv.full.refcount_eq hx
    have hlinks := hinv.full.agp hx hagp (Set.notMem_empty t)
    omega
  · have hback := (hinv.outcome c).failed hnone
    exact ⟨hback.view, hback.md hinv.full.inv hinv.accounts,
      hback.retains hinv.full.inv hinv.accounts⟩

/-- A call for an out-of-band texture whose mapping is made or not. -/
def oobCall (clientMap : Bool) : NewCall :=
  let env : Env := ⟨2 ^ 20, true, 0, fun _ => .same, true, true, ⟨true, true⟩, ⟨true, true⟩, true,
    clientMap, true⟩
  .newTexture 0 4096 8192 100 ⟨env, true, true, 7, fun _ => 8, 9⟩

/-- The second call finds the AGP texture of the first and fails. -/
theorem textures_accounted_oobCall :
    let w := (oobCall true).after (fresh fun _ => 0)
    w.returned 1 = some 0 ∧ ((oobCall false).run w).2 = none ∧
      ((oobCall false).run w).1.store.view = w.store.view :=
  ⟨by decide +kernel, by decide +kernel,
    ((textures_accounted (.new .init (oobCall true))).2.2 (oobCall false) (by decide +kernel)).1⟩

end Holdings

end Cesvga2.Textures
