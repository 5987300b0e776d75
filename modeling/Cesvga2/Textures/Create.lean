import Cesvga2.Textures.Init

/-! Every call that makes a texture keeps the registries' invariant, whichever of its
allocations fail: an AGP texture made for a call that fails later is deleted again unless
something else refers to it. -/

namespace Cesvga2.Textures.Store

open Cesvga2.GL (numTextureHandles)

variable {m : Store} {held : ℕ → ℕ} {k l t : ℕ} {x y : TextureBuffer}

/-- The AGP textures of a shared object. -/
def IsAgp (m : Store) (k l : ℕ) : Prop := ∃ y, m.textures l = some y ∧ y.type = .agp ∧ y.home = k

namespace Inv

/-- The fields the registries do not rest on may be written freely. -/
theorem amend (h : m.Inv held) (hx : m.textures t = some x) (hhome : y.home = x.home)
    (hslot : y.slot = x.slot) (htype : y.type = x.type) (hlink : y.linkedAgp = x.linkedAgp) :
    (m.setTexture t (some y)).Inv held := by
  refine h.setTexture hx hhome hslot htype (fun l hl => ?_) fun l => by rw [hlink]
  rw [htype, hhome]
  exact h.linked hx (hlink ▸ hl)

theorem linkTextureAtHead (h : m.Inv held) (hx : m.textures t = some x) (hk : x.home = k)
    (ht : t ∉ (m.shareds k).textureList) : (m.linkTextureAtHead k t).Inv held := by
  refine h.setList (List.nodup_cons.mpr ⟨ht, h.nodup k⟩) fun u hu => ?_
  rcases List.mem_cons.mp hu with rfl | hu
  · exact ⟨x, hx, hk⟩
  · exact h.listed hu

theorem cleanAgp (h : m.Inv held) {p : Option ℕ}
    (hp : ∀ l y, p = some l → m.textures l = some y → y.home = k) :
    (m.cleanAgp k p).Inv held := by
  cases p with
  | none => exact h
  | some l =>
    simp only [Store.cleanAgp]
    split
    · exact h
    · rename_i y hy
      split_ifs with hr
      · have hcount := h.count hy
        rw [hr] at hcount
        exact h.deleteTexture hy (hp l y rfl hy) (by omega) (by omega)
      · exact h

theorem linkAgp (h : m.Inv held) (hx : m.textures t = some x) (hxl : x.linkedAgp = none)
    (hxt : x.type.isLinked = true) (hl : m.IsAgp x.home l)
    (hb : held l + numTextureHandles + 1 < 2 ^ 16) : (m.linkAgp t l).Inv held := by
  obtain ⟨y, hy, hyt, hyh⟩ := hl
  have hlinks := h.links_le l
  have hcount := h.count hy
  have hadd : (m.fetchAndAdd y 1).Inv (oneMore held l) := by
    refine h.fetchAndAdd hy ?_ fun u hu => oneMore_of_ne hu
    simp only [oneMore_self, u32]
    omega
  simp only [Store.linkAgp, hx, hy]
  refine Inv.setTexture (m := m.fetchAndAdd y 1) hadd hx rfl rfl rfl ?_ ?_
  · intro l' hl'
    obtain rfl := Option.some.inj hl'
    exact ⟨hxt, y, hy, hyt, hyh⟩
  · intro u
    simp [hxl, oneMore, eq_comm]

/-- The end of the calls that make a texture with a link. -/
theorem linkAgpAtHead (h : m.Inv held) (hx : m.textures t = some x) (hk : x.home = k)
    (ht : t ∉ (m.shareds k).textureList) (hxl : x.linkedAgp = none)
    (hxt : x.type.isLinked = true) (hl : m.IsAgp k l)
    (hb : held l + numTextureHandles + 1 < 2 ^ 16) :
    ((m.linkAgp t l).linkTextureAtHead k t).Inv held := by
  have hlink := h.linkAgp hx hxl hxt (hk.symm ▸ hl) hb
  obtain ⟨y, hy, -⟩ := hl
  have heq : m.linkAgp t l
      = (m.setTexture t (some { x with linkedAgp := some l })).fetchAndAdd y 1 := by
    simp only [Store.linkAgp, hx, hy]
  refine hlink.linkTextureAtHead (x := { x with linkedAgp := some l }) ?_ hk ?_
  · simp [heq, Store.fetchAndAdd]
  · simpa [heq, Store.fetchAndAdd] using ht

end Inv

/-- A call kept the invariant, and a texture that it gave has `P`. -/
def Yields (held : ℕ → ℕ) (P : Store → ℕ → Prop) (r : Store × Option ℕ) : Prop :=
  r.1.Inv held ∧ ∀ t, r.2 = some t → P r.1 t

theorem Inv.yields_none {P : Store → ℕ → Prop} (h : m.Inv held) : Yields held P (m, none) :=
  ⟨h, fun _ ht => absurd ht.symm (Option.some_ne_none _)⟩

/-! ### AGP textures -/

section Agp

variable (e : Env) {offset addr size : ℕ}

theorem yields_commonAgp (h : m.Inv held) :
    Yields held (IsAgp · k) (m.commonAgp e k offset addr size) := by
  unfold commonAgp
  rcases commonTextureInit_cases (k := k) h .agp e.agpInit with hnone | ⟨m', id, i, hsome, hm⟩
  · rw [hnone]
    exact h.yields_none
  rw [hsome]
  dsimp only
  rw [hm.texture]
  have hy := (hm.inv h).amend (y := ⟨.agp, k, i, none, offset, addr, size, false⟩)
    hm.texture rfl rfl
    rfl rfl
  refine ⟨hy.linkTextureAtHead (setTexture_self ..) rfl (hm.not_listed h k), ?_⟩
  intro t ht
  obtain rfl := Option.some.inj ht
  exact ⟨⟨.agp, k, i, none, offset, addr, size, false⟩, by simp [linkTextureAtHead], rfl, rfl⟩

theorem yields_wrapAgp (h : m.Inv held) :
    Yields held (IsAgp · k) (m.wrapAgp e k offset addr size) := by
  unfold wrapAgp
  split_ifs
  · exact h.yields_none
  · exact h.yields_none
  · exact yields_commonAgp e h

/-- The walk over the list ends at a live AGP texture of the list or finds none. -/
theorem searchAgp_cases (m : Store) (offset addr size : ℕ) (ts : List ℕ) :
    m.searchAgp e offset addr size ts = .absent ∨
      ∃ t ∈ ts, ∃ x, m.textures t = some x ∧ x.type = .agp ∧
        (m.searchAgp e offset addr size ts = .reuse t ∨
          ∃ md, m.searchAgp e offset addr size ts = .changed t x md) := by
  induction ts with
  | nil => exact .inl rfl
  | cons t ts ih =>
    unfold searchAgp
    cases hx : m.textures t with
    | none => exact .inl rfl
    | some x =>
      dsimp only
      split_ifs with hmatch
      · have hagp : x.type = .agp := by
          simp only [matchesAgp, Bool.decide_and, Bool.and_eq_true, decide_eq_true_eq] at hmatch
          exact hmatch.1
        refine .inr ⟨t, List.mem_cons_self, x, hx, hagp, ?_⟩
        cases e.persistent t
        · exact .inl rfl
        · exact .inr ⟨true, rfl⟩
        · exact .inr ⟨false, rfl⟩
      · rcases ih with ih | ⟨u, hu, hrest⟩
        · exact .inl ih
        · exact .inr ⟨u, List.mem_cons_of_mem _ hu, hrest⟩

theorem Inv.moveToHead (h : m.Inv held) (ht : t ∈ (m.shareds k).textureList) :
    ((m.unlinkTexture k t).linkTextureAtHead k t).Inv held := by
  obtain ⟨x, hx, hk⟩ := h.listed ht
  refine h.unlinkTexture.linkTextureAtHead hx hk ?_
  simp only [Store.unlinkTexture, setList_textureList, if_pos]
  exact (h.nodup k).not_mem_erase

theorem yields_newAgpTexture (h : m.Inv held) (pixels textureSize : ℕ) :
    Yields held (IsAgp · k) (m.newAgpTexture e k pixels textureSize) := by
  unfold newAgpTexture
  dsimp only
  split_ifs
  · exact h.yields_none
  · exact h.yields_none
  · exact yields_commonAgp e h
  · rcases searchAgp_cases e m (pixels % pageSize) (pixels - pixels % pageSize)
      (roundPage (pixels % pageSize + textureSize)) (m.shareds k).textureList with
      habsent | ⟨t, ht, x, hx, hagp, hreuse | ⟨md, hmd⟩⟩
    · rw [habsent]
      exact yields_wrapAgp e h
    · rw [hreuse]
      have hk : x.home = k := by
        obtain ⟨z, hz, hzk⟩ := h.listed ht
        rwa [Option.some.inj (hx.symm.trans hz)]
      dsimp only
      split_ifs
      · exact ⟨h, fun u hu => Option.some.inj hu ▸ ⟨x, hx, hagp, hk⟩⟩
      · exact ⟨h.moveToHead ht, fun u hu => Option.some.inj hu ▸ ⟨x, hx, hagp, hk⟩⟩
    · rw [hmd]
      have hx' := h.amend (y := { x with memChanged := true }) hx rfl rfl rfl rfl
      cases md with
      | true => exact yields_commonAgp e hx'
      | false => exact yields_wrapAgp e hx'

end Agp

/-! ### The other types -/

section Types

variable (e : Env) (hb : ∀ t, held t + numTextureHandles + 1 < 2 ^ 16)

theorem IsAgp.made {m' : Store} {objectId : ℕ} {z : TextureBuffer} (hl : m.IsAgp k l)
    (h : m.Inv held) (hm : Made m m' k objectId z) : m'.IsAgp k l := by
  obtain ⟨y, hy, hrest⟩ := hl
  exact ⟨y, hm.texture_other h hy, hrest⟩

/-- A texture that was just made is freed again. -/
theorem Made.inv_freeTexture {m' : Store} {objectId : ℕ} {z : TextureBuffer}
    (hm : Made m m' k objectId z) (h : m.Inv held) : (m'.freeTexture k m.next z).Inv held := by
  have hz := h.held_eq_zero (Made.not_live h)
  have hlz := h.links_eq_zero (Made.not_live h)
  exact (hm.inv h).freeTexture hm.texture hm.home hm.linkedAgp hz ((hm.links _).trans hlz)
    (hm.not_listed h)

include hb in
theorem inv_newTextureOver (h : m.Inv held) {size : ℕ} {type : TexType} {p : Option ℕ}
    (hp : ∀ l, p = some l → type.isLinked = true ∧ m.IsAgp k l) :
    (m.newTextureOver e k size type p).1.Inv held := by
  have hclean : ∀ {m' : Store}, m'.Inv held →
      (∀ l y, m'.textures l = some y → m.textures l = some y ∨ y.home = k) →
      (m'.cleanAgp k p).Inv held := by
    intro m' h' hsub
    refine h'.cleanAgp fun l y hl hy => ?_
    obtain ⟨-, z, hz, -, hzk⟩ := hp l hl
    rcases hsub l y hy with hy | hy
    · rwa [Option.some.inj (hy.symm.trans hz)]
    · exact hy
  unfold newTextureOver
  split
  · exact hclean h fun _ _ => .inl
  rcases commonTextureInit_cases (k := k) h type e.init with hnone | ⟨m', id, i, hsome, hm⟩
  · rw [hnone]
    exact hclean h fun _ _ => .inl
  rw [hsome]
  dsimp only
  rw [hm.texture]
  dsimp only
  split
  · refine hclean (hm.inv_freeTexture h) fun l y hy => .inl ?_
    rw [freeTexture_textures, hm.textures, Function.update_idem, Function.update_apply] at hy
    split_ifs at hy
    exact hy
  · cases p with
    | none => exact (hm.inv h).linkTextureAtHead hm.texture rfl (hm.not_listed h k)
    | some l =>
      obtain ⟨hty, hl⟩ := hp l rfl
      exact (hm.inv h).linkAgpAtHead hm.texture rfl (hm.not_listed h k) rfl hty (hl.made h hm)
        (hb l)

include hb in
theorem inv_newTexture (h : m.Inv held) (size₀ size₁ pixels textureSize : ℕ) :
    (m.newTexture e k size₀ size₁ pixels textureSize).1.Inv held := by
  unfold newTexture
  split_ifs
  · obtain ⟨hagp, hp⟩ := yields_newAgpTexture (k := k) e h pixels textureSize
    cases hr : m.newAgpTexture e k pixels textureSize with
    | mk m' p =>
      rw [hr] at hagp hp
      cases p with
      | none => exact hagp
      | some p =>
        refine inv_newTextureOver e hb hagp fun l hl => ⟨rfl, ?_⟩
        exact hp l hl
  · exact inv_newTextureOver e hb h fun l hl => absurd hl.symm (Option.some_ne_none l)
  · exact inv_newTextureOver e hb h fun l hl => absurd hl.symm (Option.some_ne_none l)

include hb in
theorem inv_newAgprefTexture (h : m.Inv held) (pixels₁ pixels₂ textureSize : ℕ) :
    (m.newAgprefTexture e k pixels₁ pixels₂ textureSize).1.Inv held := by
  unfold newAgprefTexture
  obtain ⟨hagp, hp⟩ := yields_newAgpTexture (k := k) e h pixels₂ textureSize
  cases hr : m.newAgpTexture e k pixels₂ textureSize with
  | mk m₁ p =>
    rw [hr] at hagp hp
    cases p with
    | none => exact hagp
    | some l =>
      have hl : m₁.IsAgp k l := hp l rfl
      dsimp only
      rcases commonTextureInit_cases (k := k) hagp .agpref e.init with
        hnone | ⟨m', id, i, hsome, hm⟩
      · rw [hnone]
        dsimp only
        refine Inv.cleanAgp (m := m₁) hagp fun l' y hl' hy => ?_
        obtain rfl := Option.some.inj hl'
        obtain ⟨z, hz, -, hzk⟩ := hl
        rwa [Option.some.inj (hy.symm.trans hz)]
      · rw [hsome]
        obtain ⟨y, hy, hyt, hyk⟩ := hl.made hagp hm
        have hne : l ≠ m₁.next := by
          obtain ⟨z, hz, -⟩ := hl
          exact Nat.ne_of_lt (hagp.fresh hz)
        simp only [hm.texture, hy]
        refine Inv.linkAgpAtHead ((hm.inv hagp).amend hm.texture rfl rfl rfl rfl)
          (setTexture_self ..) rfl (hm.not_listed hagp k) rfl rfl ⟨y, ?_, hyt, hyk⟩ (hb l)
        rw [setTexture_textures, if_neg hne, hy]

theorem inv_newSurfaceTexture (h : m.Inv held) : (m.newSurfaceTexture e k).1.Inv held := by
  unfold newSurfaceTexture
  split_ifs
  · exact h
  rcases commonTextureInit_cases (k := k) h .surface e.init with hnone | ⟨m', id, i, hsome, hm⟩
  · rw [hnone]
    exact h
  · rw [hsome]
    exact (hm.inv h).linkTextureAtHead hm.texture rfl (hm.not_listed h k)

include hb in
/-- A `new_texture` call keeps the invariant whatever its environment answers. -/
theorem inv_deviceNewTexture (h : m.Inv held) (d : NewTextureData) :
    (Device.newTexture m k d e).1.Inv held := by
  have hmake : (d.make e m k).1.Inv held := by
    unfold NewTextureData.make
    split
    · exact inv_newSurfaceTexture e h
    · exact h
    · exact inv_newTexture e hb h ..
    · exact inv_newAgprefTexture e hb h ..
    · exact inv_newTexture e hb h ..
    · exact inv_newTexture e hb h ..
    · exact h
    · exact h
  unfold Device.newTexture
  split_ifs
  · exact h
  · exact h
  · exact h
  · cases hr : d.make e m k with
    | mk m' p =>
      rw [hr] at hmake
      cases p <;> exact hmake

end Types

end Cesvga2.Textures.Store
