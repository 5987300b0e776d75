import Cesvga2.Textures.Client

/-! What can happen to the textures. Whatever a call does, it releases textures, changes some and
makes new ones under new names. So a texture with an old name was there before and belongs to the
same shared object, and a name is never used again. -/

namespace Cesvga2.Textures.Store

/-- One change to the textures. -/
inductive Touch (m : Store) : Store → Prop
  | keep {m'} (hn : m'.next = m.next) (ht : m'.textures = m.textures) : Touch m m'
  | release {m'} (t : ℕ) (hn : m'.next = m.next)
      (ht : m'.textures = Function.update m.textures t none) : Touch m m'
  | set {t x y} (hx : m.textures t = some x) (hy : y.home = x.home) :
      Touch m (m.setTexture t (some y))
  | make {m'} (x : TextureBuffer) (hn : m'.next = m.next + 1)
      (ht : m'.textures = Function.update m.textures m.next (some x)) : Touch m m'

/-- Changes to the textures, one after the other. -/
def Changed : Store → Store → Prop := Relation.ReflTransGen Touch

/-- `m'` has the textures of `m` that are left and new ones. -/
structure Grown (m m' : Store) : Prop where
  next : m.next ≤ m'.next
  home : ∀ {t x'}, m'.textures t = some x' → t < m.next →
    ∃ x, m.textures t = some x ∧ x.home = x'.home

/-- The names of the textures are below the next one. -/
def Named (m : Store) : Prop := ∀ t x, m.textures t = some x → t < m.next

variable {m m' m₁ m₂ : Store} {k t n : ℕ} {x y : TextureBuffer}

namespace Grown

theorem refl (m : Store) : Grown m m := ⟨le_rfl, fun hx _ => ⟨_, hx, rfl⟩⟩

theorem trans (h₁ : Grown m m₁) (h₂ : Grown m₁ m₂) : Grown m m₂ where
  next := h₁.next.trans h₂.next
  home := by
    intro t x' hx' ht
    obtain ⟨y, hy, hyx⟩ := h₂.home hx' (ht.trans_le h₁.next)
    obtain ⟨x, hx, hxy⟩ := h₁.home hy ht
    exact ⟨x, hx, hxy.trans hyx⟩

theorem of_textures (hn : m'.next = m.next) (ht : m'.textures = m.textures) : Grown m m' :=
  ⟨hn.ge, fun hx _ => ⟨_, ht ▸ hx, rfl⟩⟩

end Grown

theorem Touch.grown (h : Touch m m') : Grown m m' := by
  cases h with
  | keep hn ht => exact .of_textures hn ht
  | release t hn ht =>
    refine ⟨hn.ge, ?_⟩
    intro u x' hx' _
    rw [ht, Function.update_apply] at hx'
    split_ifs at hx'
    exact ⟨x', hx', rfl⟩
  | set hx hy =>
    refine ⟨le_rfl, ?_⟩
    intro u x' hx' _
    rw [setTexture_textures] at hx'
    split_ifs at hx' with hu
    · obtain rfl := Option.some.inj hx'
      exact ⟨_, hu ▸ hx, hy.symm⟩
    · exact ⟨x', hx', rfl⟩
  | make x hn ht =>
    refine ⟨hn ▸ Nat.le_succ _, ?_⟩
    intro u x' hx' hu
    rw [ht, Function.update_of_ne hu.ne] at hx'
    exact ⟨x', hx', rfl⟩

theorem Touch.named (h : Touch m m') (hm : m.Named) : m'.Named := by
  cases h with
  | keep hn ht =>
    intro u x' hx'
    rw [hn]
    exact hm u x' (ht ▸ hx')
  | release t hn ht =>
    intro u x' hx'
    rw [ht, Function.update_apply] at hx'
    split_ifs at hx'
    exact hn ▸ hm u x' hx'
  | set hx hy =>
    intro u x' hx'
    rw [setTexture_textures] at hx'
    split_ifs at hx' with hu
    · rw [hu]
      exact hm _ _ hx
    · exact hm u x' hx'
  | make x hn ht =>
    intro u x' hx'
    rw [ht, Function.update_apply] at hx'
    rw [hn]
    split_ifs at hx' with hu
    · exact hu ▸ Nat.lt_succ_self _
    · exact Nat.lt_succ_of_lt (hm u x' hx')

namespace Changed

theorem refl (m : Store) : Changed m m := Relation.ReflTransGen.refl

theorem trans (h₁ : Changed m m₁) (h₂ : Changed m₁ m₂) : Changed m m₂ :=
  Relation.ReflTransGen.trans h₁ h₂

theorem of_textures (hn : m'.next = m.next) (ht : m'.textures = m.textures) : Changed m m' :=
  .single (.keep hn ht)

theorem setTexture (hx : m.textures t = some x) (hy : y.home = x.home) :
    Changed m (m.setTexture t (some y)) := .single (.set hx hy)

theorem grown (h : Changed m m') : Grown m m' := by
  induction h with
  | refl => exact .refl m
  | tail _ hstep ih => exact ih.trans hstep.grown

theorem named (h : Changed m m') (hm : m.Named) : m'.Named := by
  induction h with
  | refl => exact hm
  | tail _ hstep ih => exact hstep.named ih

end Changed

/-! ### Deletion -/

theorem changed_freeTexture : Changed m (m.freeTexture k t x) :=
  .single (.release t freeTexture_next freeTexture_textures)

theorem changed_deref {del : Store → Store} (hdel : ∀ m : Store, Changed m (del m)) :
    Changed m (m.deref t n del) := by
  unfold deref
  split
  · exact .refl m
  · rename_i x hx
    have hadd : Changed m (m.fetchAndAdd x (2 ^ 32 - n)) := .of_textures rfl rfl
    split_ifs
    · exact hadd.trans (hdel _)
    · exact hadd

theorem changed_deleteTextureInternal (depth : ℕ) :
    ∀ (m : Store) (t : ℕ), Changed m (deleteTextureInternal depth m k t) := by
  induction depth with
  | zero => exact fun m _ => .refl m
  | succ depth ih =>
    intro m t
    unfold deleteTextureInternal
    split
    · exact .refl m
    · rename_i x hx
      dsimp only
      split
      · -- the texture may be gone before its link is cleared: it is released in any case
        rename_i l _ hl
        refine (changed_deref (m := m) (t := l) (n := 1) fun m' => ih m' l).trans
          (.single (.release t ?_ ?_))
        · exact freeTexture_next
        · change (freeTexture _ k t x).textures = _
          rw [freeTexture_textures]
          exact Function.update_idem ..
      · exact changed_freeTexture.trans (.of_textures rfl rfl)

theorem changed_deleteTexture : Changed m (m.deleteTexture k t) :=
  changed_deleteTextureInternal _ m t

theorem changed_deleteTextures (ts : List ℕ) :
    Changed m (ts.foldl (fun m t => m.deleteTexture k t) m) := by
  induction ts generalizing m with
  | nil => exact .refl m
  | cons t ts ih => exact changed_deleteTexture.trans ih

/-! ### Making textures -/

theorem changed_commonTextureInit (type : TexType) (e : InitEnv) :
    Changed m (m.commonTextureInit k type e).1 := by
  unfold commonTextureInit
  split_ifs
  · exact .refl m
  rcases allocBufHandle_cases m k m.next with hnone | ⟨i, -, -, hsome⟩
  · rw [hnone]
    exact .refl m
  rw [hsome]
  dsimp only
  rcases allocClientShared_cases (m.setHandle k i (some m.next)) k e.map with
    hnone | ⟨j, -, hj⟩
  · rw [hnone]
    unfold freeBufHandle
    dsimp only
    split_ifs <;> exact .of_textures rfl rfl
  · rw [hj]
    refine .single (.make ⟨type, k, j, none, 0, 0, 0, false⟩ rfl ?_)
    dsimp only
    rw [setSysObj_textures, mapClientSysObjs_textures, setHandle_textures]

section Agp

variable (e : Env) (offset addr size : ℕ)

theorem changed_commonAgp : Changed m (m.commonAgp e k offset addr size).1 := by
  unfold commonAgp
  have hinit := changed_commonTextureInit (m := m) (k := k) .agp e.agpInit
  cases hr : m.commonTextureInit k .agp e.agpInit with
  | mk m' o =>
    rw [hr] at hinit
    cases o with
    | none => exact hinit
    | some t =>
      dsimp only
      split
      · exact hinit
      · rename_i x hx
        exact hinit.trans ((Changed.setTexture hx (by rfl)).trans (.of_textures rfl rfl))

theorem changed_wrapAgp : Changed m (m.wrapAgp e k offset addr size).1 := by
  unfold wrapAgp
  split_ifs
  · exact .refl m
  · exact .refl m
  · exact changed_commonAgp e offset addr size

theorem changed_newAgpTexture (pixels textureSize : ℕ) :
    Changed m (m.newAgpTexture e k pixels textureSize).1 := by
  unfold newAgpTexture
  dsimp only
  split_ifs
  · exact .refl m
  · exact .refl m
  · exact changed_commonAgp e ..
  · rcases searchAgp_cases e m (pixels % pageSize) (pixels - pixels % pageSize)
      (roundPage (pixels % pageSize + textureSize)) (m.shareds k).textureList with
      habsent | ⟨t, -, x, hx, -, hreuse | ⟨md, hmd⟩⟩
    · rw [habsent]
      exact changed_wrapAgp e ..
    · rw [hreuse]
      dsimp only
      split_ifs <;> exact .of_textures rfl rfl
    · rw [hmd]
      have hset := Changed.setTexture (y := { x with memChanged := true }) hx rfl
      cases md with
      | true => exact hset.trans (changed_commonAgp e ..)
      | false => exact hset.trans (changed_wrapAgp e ..)

end Agp

section Types

variable (e : Env)

theorem changed_cleanAgp (p : Option ℕ) : Changed m (m.cleanAgp k p) := by
  cases p with
  | none => exact .refl m
  | some l =>
    simp only [cleanAgp]
    split
    · exact .refl m
    · split_ifs
      · exact changed_deleteTexture
      · exact .refl m

theorem changed_linkAgp (t l : ℕ) : Changed m (m.linkAgp t l) := by
  unfold linkAgp
  split
  · rename_i x y hx hy
    exact Changed.trans (Changed.setTexture hx (by rfl)) (.of_textures rfl rfl)
  · exact .refl m

theorem changed_newTextureOver (size : ℕ) (type : TexType) (p : Option ℕ) :
    Changed m (m.newTextureOver e k size type p).1 := by
  unfold newTextureOver
  split
  · exact changed_cleanAgp p
  have hinit := changed_commonTextureInit (m := m) (k := k) type e.init
  cases hr : m.commonTextureInit k type e.init with
  | mk m' o =>
    rw [hr] at hinit
    cases o with
    | none => exact hinit.trans (changed_cleanAgp p)
    | some t =>
      dsimp only
      split
      · exact hinit
      · split
        · exact hinit.trans (changed_freeTexture.trans (changed_cleanAgp p))
        · cases p with
          | none => exact hinit.trans (.of_textures rfl rfl)
          | some l => exact hinit.trans ((changed_linkAgp t l).trans (.of_textures rfl rfl))

theorem changed_newTexture (size₀ size₁ pixels textureSize : ℕ) :
    Changed m (m.newTexture e k size₀ size₁ pixels textureSize).1 := by
  unfold newTexture
  split_ifs
  · have hagp := changed_newAgpTexture (m := m) (k := k) e pixels textureSize
    cases hr : m.newAgpTexture e k pixels textureSize with
    | mk m' o =>
      rw [hr] at hagp
      cases o with
      | none => exact hagp
      | some p => exact hagp.trans (changed_newTextureOver e ..)
  · exact changed_newTextureOver e ..
  · exact changed_newTextureOver e ..

theorem changed_newAgprefTexture (pixels₁ pixels₂ textureSize : ℕ) :
    Changed m (m.newAgprefTexture e k pixels₁ pixels₂ textureSize).1 := by
  unfold newAgprefTexture
  have hagp := changed_newAgpTexture (m := m) (k := k) e pixels₂ textureSize
  cases hr : m.newAgpTexture e k pixels₂ textureSize with
  | mk m₁ o =>
    rw [hr] at hagp
    cases o with
    | none => exact hagp
    | some p =>
      dsimp only
      have hinit := changed_commonTextureInit (m := m₁) (k := k) .agpref e.init
      cases hr' : m₁.commonTextureInit k .agpref e.init with
      | mk m₂ o' =>
        rw [hr'] at hinit
        have hboth := hagp.trans hinit
        cases o' with
        | none => exact hboth.trans (changed_cleanAgp (m := m₂) (some p))
        | some t =>
          dsimp only
          split
          · rename_i x y hx hy
            exact hboth.trans ((Changed.setTexture hx (by rfl)).trans
              ((changed_linkAgp t p).trans (.of_textures rfl rfl)))
          · exact hboth

theorem changed_newSurfaceTexture : Changed m (m.newSurfaceTexture e k).1 := by
  unfold newSurfaceTexture
  split_ifs
  · exact .refl m
  have hinit := changed_commonTextureInit (m := m) (k := k) .surface e.init
  cases hr : m.commonTextureInit k .surface e.init with
  | mk m' o =>
    rw [hr] at hinit
    cases o with
    | none => exact hinit
    | some t => exact hinit.trans (.of_textures rfl rfl)

theorem changed_make (d : NewTextureData) : Changed m (d.make e m k).1 := by
  unfold NewTextureData.make
  split
  · exact changed_newSurfaceTexture e
  · exact .refl m
  · exact changed_newTexture e ..
  · exact changed_newAgprefTexture e ..
  · exact changed_newTexture e ..
  · exact changed_newTexture e ..
  · exact .refl m
  · exact .refl m

end Types

theorem changed_exec (m : Store) (c : Call) : Changed m (m.exec c) := by
  cases c with
  | newTexture k d e =>
    have hmake := changed_make (m := m) (k := k) e d
    simp only [exec, Device.newTexture]
    split_ifs
    · exact .refl m
    · exact .refl m
    · exact .refl m
    · cases hr : d.make e m k with
      | mk m' o =>
        rw [hr] at hmake
        cases o <;> exact hmake
  | deleteTexture k textureId =>
    simp only [exec, Device.deleteTexture]
    split
    · exact .refl m
    · exact changed_deleteTexture
  | writeSysObj k i o =>
    simp only [exec, writeSysObj]
    split_ifs
    · exact .of_textures rfl rfl
    · exact .refl m

end Cesvga2.Textures.Store
