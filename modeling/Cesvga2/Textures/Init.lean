import Cesvga2.Textures.Delete

/-! `common_texture_init`: a call that fails leaves the store as it was, and a call that
succeeds adds one texture with an entry of the handle table and a system object that no
other texture has. -/

namespace Cesvga2.Textures.Store

open Cesvga2.GL (numTextureHandles)

variable {m : Store} {held : ℕ → ℕ} {k i t : ℕ} {x z : TextureBuffer}

/-! ### The array of system objects -/

@[simp] theorem mapClientSysObjs_textures : (m.mapClientSysObjs k).textures = m.textures := by
  unfold mapClientSysObjs
  split_ifs <;> rfl

@[simp] theorem mapClientSysObjs_handleTable (j : ℕ) :
    ((m.mapClientSysObjs k).shareds j).handleTable = (m.shareds j).handleTable := by
  unfold mapClientSysObjs
  split_ifs
  · rfl
  · by_cases hj : j = k <;> simp [modify, hj]

@[simp] theorem mapClientSysObjs_textureList (j : ℕ) :
    ((m.mapClientSysObjs k).shareds j).textureList = (m.shareds j).textureList := by
  unfold mapClientSysObjs
  split_ifs
  · rfl
  · by_cases hj : j = k <;> simp [modify, hj]

theorem mapClientSysObjs_map (j : ℕ) : ((m.mapClientSysObjs k).shareds j).clientSysObjsMap
    = (decide (j = k) || (m.shareds j).clientSysObjsMap) := by
  unfold mapClientSysObjs
  split_ifs with hk
  · by_cases hj : j = k <;> simp [hj, hk]
  · by_cases hj : j = k <;> simp [modify, hj]

/-- Clearing the array touches no texture: there is none before it is there. -/
theorem mapClientSysObjs_sysObj (hx : (m.shareds x.home).clientSysObjsMap = true) :
    (m.mapClientSysObjs k).sysObj x = m.sysObj x := by
  unfold mapClientSysObjs
  split_ifs with hk
  · rfl
  · have hne : x.home ≠ k := by
      rintro rfl
      exact hk hx
    simp [sysObj, modify, hne]

/-- A call of `alloc_client_shared` fails and does nothing, or takes a place not in use. -/
theorem allocClientShared_cases (m : Store) (k : ℕ) (map : Bool) :
    m.allocClientShared k map = (m, none) ∨
      ∃ i, (((m.mapClientSysObjs k).shareds k).sysObjs i).inUse = false ∧
        m.allocClientShared k map =
          ((m.mapClientSysObjs k).setSysObj k i { SysObject.zero with inUse := true },
            some i) := by
  unfold allocClientShared
  split_ifs with hmap
  · exact .inl rfl
  · dsimp only
    split
    · rename_i hnone
      refine .inl ?_
      cases hk : (m.shareds k).clientSysObjsMap with
      | true => simp [mapClientSysObjs, hk]
      | false =>
        -- the array has just been cleared
        have hzero := List.find?_eq_none.mp hnone 0 (List.mem_range.mpr (by decide))
        simp [mapClientSysObjs, hk, modify, SysObject.zero] at hzero
    · rename_i i hi
      exact .inr ⟨i, by simpa using List.find?_some hi, rfl⟩

theorem allocBufHandle_cases (m : Store) (k t : ℕ) :
    m.allocBufHandle k t = (m, none) ∨
      ∃ i, i < numTextureHandles ∧ (m.shareds k).handleTable i = none ∧
        m.allocBufHandle k t = (m.setHandle k i (some t), some i) := by
  unfold allocBufHandle
  split
  · exact .inl rfl
  · rename_i i hi
    exact .inr ⟨i, List.mem_range.mp (List.mem_of_find?_eq_some hi),
      by simpa using List.find?_some hi, rfl⟩

theorem setHandle_setHandle (hi : (m.shareds k).handleTable i = none) :
    (m.setHandle k i (some t)).setHandle k i none = m := by
  simp only [setHandle, modify, Function.update_self, Function.update_idem]
  rw [show Function.update (m.shareds k).handleTable i none = (m.shareds k).handleTable by
    rw [← hi, Function.update_eq_self]]
  rw [Function.update_eq_self]

/-! ### A new texture -/

/-- The store after a texture was made: `z` is new and everything else is as before. -/
structure Made (m m' : Store) (k objectId : ℕ) (z : TextureBuffer) : Prop where
  lt : objectId < numTextureHandles
  unused : (m.shareds k).handleTable objectId = none
  textures : m'.textures = Function.update m.textures m.next (some z)
  next : m'.next = m.next + 1
  handleTable : ∀ j n, (m'.shareds j).handleTable n
    = if j = k ∧ n = objectId then some m.next else (m.shareds j).handleTable n
  textureList : ∀ j, (m'.shareds j).textureList = (m.shareds j).textureList
  map : ∀ j, (m'.shareds j).clientSysObjsMap = (decide (j = k) || (m.shareds j).clientSysObjsMap)
  home : z.home = k
  linkedAgp : z.linkedAgp = none
  sysObj : m'.sysObj z = ⟨objectId, 0, true⟩
  other : ∀ {t x}, m.textures t = some x → m'.sysObj x = m.sysObj x

theorem commonTextureInit_cases (h : m.Inv held) (type : TexType) (e : InitEnv) :
    m.commonTextureInit k type e = (m, none) ∨
      ∃ m' objectId i, m.commonTextureInit k type e = (m', some m.next) ∧
        Made m m' k objectId ⟨type, k, i, none, 0, 0, 0, false⟩ := by
  unfold commonTextureInit
  split_ifs
  · exact .inl rfl
  rcases allocBufHandle_cases m k m.next with hnone | ⟨objectId, hlt, hfree, hsome⟩
  · rw [hnone]
    exact .inl rfl
  rw [hsome]
  dsimp only
  rcases allocClientShared_cases (m.setHandle k objectId (some m.next)) k e.map with
    hnone | ⟨i, huse, hi⟩
  · rw [hnone]
    dsimp only
    rw [freeBufHandle, if_pos ⟨hlt, by simp⟩, setHandle_setHandle hfree]
    exact .inl rfl
  · rw [hi]
    refine .inr ⟨_, objectId, i, rfl, ?_⟩
    have hmapped : ∀ {t x}, m.textures t = some x →
        ((m.setHandle k objectId (some m.next)).shareds x.home).clientSysObjsMap = true := by
      intro t x hx
      rw [setHandle_map]
      exact (h.place hx).2
    refine ⟨hlt, hfree, by simp, rfl, ?_, ?_, ?_, rfl, rfl, ?_, ?_⟩
    · intro j n
      simp
    · intro j
      simp
    · intro j
      simp [mapClientSysObjs_map]
    · change ((((m.setHandle k objectId (some m.next)).mapClientSysObjs k).setSysObj
        k i _).setSysObj k i _).sysObj _ = _
      simp
    · intro t x hx
      change ((((m.setHandle k objectId (some m.next)).mapClientSysObjs k).setSysObj
        k i _).setSysObj k i _).sysObj _ = _
      have hsame := mapClientSysObjs_sysObj (k := k) (hmapped hx)
      have hother : ¬ (x.home = k ∧ x.slot = i) := by
        rintro ⟨rfl, rfl⟩
        have hin := (h.place hx).1
        rw [← setHandle_sysObj m x.home objectId x (some m.next), ← hsame, sysObj, huse] at hin
        exact Bool.noConfusion hin
      rw [setSysObj_sysObj, if_neg hother, setSysObj_sysObj, if_neg hother, hsame,
        setHandle_sysObj]

namespace Made

variable {m' : Store} {objectId : ℕ}

theorem not_live (h : m.Inv held) : ¬ m.Live m.next := fun ⟨_, hx⟩ => (h.fresh hx).false

theorem texture (hm : Made m m' k objectId z) : m'.textures m.next = some z := by
  rw [hm.textures, Function.update_self]

theorem texture_other (hm : Made m m' k objectId z) (h : m.Inv held)
    (hx : m.textures t = some x) : m'.textures t = some x := by
  rw [hm.textures, Function.update_of_ne (Nat.ne_of_lt (h.fresh hx)), hx]

theorem links (hm : Made m m' k objectId z) (t : ℕ) : m'.links t = m.links t := by
  have hnew : m'.link m.next = none := by
    rw [link, hm.texture, Option.bind_some, hm.linkedAgp]
  rw [Store.links, Store.links, hm.next, Refs.count_range_succ, hnew,
    if_neg (Option.some_ne_none t).symm, Nat.add_zero]
  refine Refs.count_congr fun u hu => ?_
  rw [link, link, hm.textures, Function.update_of_ne (Nat.ne_of_lt (Finset.mem_range.mp hu))]

theorem not_listed (hm : Made m m' k objectId z) (h : m.Inv held) (j : ℕ) :
    m.next ∉ (m'.shareds j).textureList := by
  rw [hm.textureList]
  exact h.not_listed (not_live h)

theorem inv (hm : Made m m' k objectId z) (h : m.Inv held) : m'.Inv held := by
  have hcases : ∀ {t x}, m'.textures t = some x →
      (t = m.next ∧ x = z) ∨ m.textures t = some x := by
    intro t x hx
    rw [hm.textures, Function.update_apply] at hx
    split_ifs at hx with ht
    · exact .inl ⟨ht, (Option.some.inj hx).symm⟩
    · exact .inr hx
  refine ⟨?_, ?_, ?_, ?_, ?_, ?_, ?_, ?_, ?_⟩
  · intro j n t ht
    rw [hm.handleTable] at ht
    split_ifs at ht with hjn
    · obtain rfl := Option.some.inj ht
      exact ⟨hjn.2 ▸ hm.lt, z, hm.texture, hm.home.trans hjn.1.symm, by rw [hm.sysObj, hjn.2]⟩
    · obtain ⟨hlt, x, hx, hxj, hid⟩ := h.handle ht
      exact ⟨hlt, x, hm.texture_other h hx, hxj, by rw [hm.other hx, hid]⟩
  · intro t x hx
    rw [hm.handleTable]
    rcases hcases hx with ⟨rfl, rfl⟩ | hx
    · rw [if_pos ⟨hm.home, by rw [hm.sysObj]⟩]
    · have hnamed := h.named hx
      rw [hm.other hx, if_neg, hnamed]
      rintro ⟨hk, hid⟩
      rw [hk, hid, hm.unused] at hnamed
      exact (Option.some_ne_none t).symm hnamed
  · intro t x hx
    rw [hm.map]
    rcases hcases hx with ⟨rfl, rfl⟩ | hx
    · simp [hm.sysObj, hm.home]
    · simp [hm.other hx, h.place hx]
  · intro j t ht
    rw [hm.textureList] at ht
    obtain ⟨x, hx, hxj⟩ := h.listed ht
    exact ⟨x, hm.texture_other h hx, hxj⟩
  · intro j
    rw [hm.textureList]
    exact h.nodup j
  · intro t x l hx hl
    rcases hcases hx with ⟨rfl, rfl⟩ | hx
    · rw [hm.linkedAgp] at hl
      exact absurd hl.symm (Option.some_ne_none l)
    · obtain ⟨hty, y, hy, hyt, hyh⟩ := h.linked hx hl
      exact ⟨hty, y, hm.texture_other h hy, hyt, hyh⟩
  · intro t x hx
    rw [hm.next]
    rcases hcases hx with ⟨rfl, rfl⟩ | hx
    · omega
    · have := h.fresh hx
      omega
  · intro t x hx
    rw [hm.links]
    rcases hcases hx with ⟨rfl, rfl⟩ | hx
    · rw [hm.sysObj, h.held_eq_zero (not_live h), h.links_eq_zero (not_live h)]
      rfl
    · rw [hm.other hx]
      exact h.count hx
  · intro t ht
    obtain ⟨x, hx⟩ := h.live ht
    exact ⟨x, hm.texture_other h hx⟩

end Made

end Cesvga2.Textures.Store
