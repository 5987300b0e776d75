import Cesvga2.Textures.Client

/-! The registries account for each other: what is in use in one is in use in the others. Beyond the
invariant of the registries, every live texture is on the list of its shared object, every system
object in use is that of a texture, reference counts are exact, and AGP textures are only there for
the textures linked to them. A call in progress may have made a texture that is not on its list yet
and an AGP texture that nothing is linked to. -/

namespace Cesvga2.Textures.Store

/-- `off` are the textures that are not on their list, `idle` the AGP textures without a link. -/
structure Full (m : Store) (held : ℕ → ℕ) (off idle : Set ℕ) : Prop where
  inv : m.Inv held
  slot : ∀ {t x}, m.textures t = some x → x.slot < numSysObjs
  used : ∀ {k i}, ((m.shareds k).sysObjs i).inUse = true →
    ∃ t x, m.textures t = some x ∧ x.home = k ∧ x.slot = i
  small : ∀ {t x}, m.textures t = some x → (m.sysObj x).refcount < 2 ^ 16
  listed : ∀ {t x}, m.textures t = some x → t ∉ off → t ∈ (m.shareds x.home).textureList
  agp : ∀ {t x}, m.textures t = some x → x.type = .agp → t ∉ idle → 0 < m.links t

variable {m m' : Store} {held held' : ℕ → ℕ} {off off' idle idle' : Set ℕ} {k l t u n d : ℕ}
  {x y : TextureBuffer}

theorem Full.refcount_eq (h : m.Full held off idle) (hx : m.textures t = some x) :
    (m.sysObj x).refcount = held t + m.links t := by
  rw [← h.inv.count hx, Nat.mod_eq_of_lt (h.small hx)]

theorem setSysObj_sysObjs (m : Store) (k i j n : ℕ) (o : SysObject) :
    ((m.setSysObj k i o).shareds j).sysObjs n =
      if j = k ∧ n = i then o else (m.shareds j).sysObjs n := by
  by_cases hj : j = k
  · subst hj
    simp [setSysObj, modify, Function.update_apply]
  · simp [setSysObj, modify, hj]

theorem setHandle_sysObjs (m : Store) (k i j : ℕ) (v : Option ℕ) :
    ((m.setHandle k i v).shareds j).sysObjs = (m.shareds j).sysObjs := by
  by_cases hj : j = k <;> simp [setHandle, modify, hj]

/-! ### One update at a time -/

namespace Full

/-- A texture may change as long as its place stays. An AGP texture that loses its last link is
idle. -/
theorem setTexture (h : m.Full held off idle) (hx : m.textures t = some x)
    (hhome : y.home = x.home) (hslot : y.slot = x.slot) (htype : y.type = x.type)
    (hinv : (m.setTexture t (some y)).Inv held')
    (hidle : ∀ l, l ∉ idle' → l ∉ idle ∧ x.linkedAgp ≠ some l ∨ y.linkedAgp = some l) :
    (m.setTexture t (some y)).Full held' off idle' := by
  have hcases : ∀ {u z}, (m.setTexture t (some y)).textures u = some z →
      u = t ∧ z = y ∨ u ≠ t ∧ m.textures u = some z := by
    intro u z hz
    rw [setTexture_textures] at hz
    split_ifs at hz with hu
    · exact .inl ⟨hu, (Option.some.inj hz).symm⟩
    · exact .inr ⟨hu, hz⟩
  have hobj : m.sysObj y = m.sysObj x := by rw [sysObj, sysObj, hhome, hslot]
  refine ⟨hinv, ?_, ?_, ?_, ?_, ?_⟩
  · intro u z hz
    obtain ⟨rfl, rfl⟩ | ⟨-, hz⟩ := hcases hz
    · exact hslot ▸ h.slot hx
    · exact h.slot hz
  · intro j i hi
    obtain ⟨u, z, hz, hzh, hzs⟩ := h.used hi
    rcases eq_or_ne u t with rfl | hu
    · obtain rfl : x = z := Option.some.inj (hx.symm.trans hz)
      exact ⟨u, y, setTexture_self .., hhome.trans hzh, hslot.trans hzs⟩
    · exact ⟨u, z, by rw [setTexture_textures, if_neg hu, hz], hzh, hzs⟩
  · intro u z hz
    rw [setTexture_sysObj]
    obtain ⟨rfl, rfl⟩ | ⟨-, hz⟩ := hcases hz
    · exact hobj ▸ h.small hx
    · exact h.small hz
  · intro u z hz hu
    obtain ⟨rfl, rfl⟩ | ⟨-, hz⟩ := hcases hz
    · exact hhome ▸ h.listed hx hu
    · exact h.listed hz hu
  · intro u z hz hagp hu
    have hlinks := links_setTexture (h.inv.fresh hx) (some y) u
    have hlink : m.link t = x.linkedAgp := by rw [link, hx, Option.bind_some]
    rw [hlink, Option.bind_some] at hlinks
    rcases hidle u hu with ⟨hu, hnot⟩ | hgets
    · have hpos : 0 < m.links u := by
        obtain ⟨rfl, rfl⟩ | ⟨-, hz⟩ := hcases hz
        · exact h.agp hx (htype ▸ hagp) hu
        · exact h.agp hz hagp hu
      rw [if_neg hnot] at hlinks
      omega
    · rw [if_pos hgets] at hlinks
      split_ifs at hlinks with hwas
      · have hpos : 0 < m.links u :=
          Refs.count_pos (Finset.mem_range.mpr (h.inv.fresh hx)) (hlink.trans hwas)
        omega
      · omega

/-- The fields the registries do not rest on may be written freely. -/
theorem amend (h : m.Full held off idle) (hx : m.textures t = some x) (hhome : y.home = x.home)
    (hslot : y.slot = x.slot) (htype : y.type = x.type) (hlink : y.linkedAgp = x.linkedAgp) :
    (m.setTexture t (some y)).Full held off idle := by
  refine h.setTexture hx hhome hslot htype (h.inv.amend hx hhome hslot htype hlink) fun l hl => ?_
  by_cases hxl : x.linkedAgp = some l
  · exact .inr (hlink.trans hxl)
  · exact .inl ⟨hl, hxl⟩

/-- A list may change as long as no texture is lost. -/
theorem setList (h : m.Full held off idle) {ts : List ℕ} (hinv : (m.setList k ts).Inv held)
    (hts : ∀ {u z}, m.textures u = some z → z.home = k → u ∉ off' → u ∈ ts)
    (hoff : ∀ {u z}, m.textures u = some z → z.home ≠ k → u ∉ off' → u ∉ off) :
    (m.setList k ts).Full held off' idle := by
  have hobjs : ∀ j, ((m.setList k ts).shareds j).sysObjs = (m.shareds j).sysObjs := by
    intro j
    by_cases hj : j = k <;> simp [Store.setList, modify, hj]
  refine ⟨hinv, h.slot, fun hi => h.used (by rwa [hobjs] at hi), ?_, ?_, h.agp⟩
  · intro u z hz
    rw [setList_sysObj]
    exact h.small hz
  · intro u z hz hu
    rw [setList_textureList]
    split_ifs with hk
    · exact hts hz hk hu
    · exact h.listed hz (hoff hz hk hu)

theorem linkTextureAtHead (h : m.Full held off idle) (hx : m.textures t = some x)
    (hk : x.home = k) (ht : t ∉ (m.shareds k).textureList) :
    (m.linkTextureAtHead k t).Full held (off \ {t}) idle := by
  refine h.setList (h.inv.linkTextureAtHead hx hk ht) ?_ ?_
  · intro u z hz hzk hu
    rcases eq_or_ne u t with rfl | hne
    · exact List.mem_cons_self
    · exact List.mem_cons_of_mem t (hzk ▸ h.listed hz fun hoff => hu ⟨hoff, hne⟩)
  · intro u z hz hzk hu hoff
    refine hu ⟨hoff, ?_⟩
    rintro rfl
    exact hzk ((Option.some.inj (hz.symm.trans hx)) ▸ hk)

theorem unlinkTexture (h : m.Full held off idle) :
    (m.unlinkTexture k t).Full held (insert t off) idle := by
  refine h.setList h.inv.unlinkTexture ?_ fun _ _ hu hoff => hu (.inr hoff)
  intro u z hz hzk hu
  have hne : u ≠ t := fun heq => hu (.inl heq)
  exact (List.mem_erase_of_ne hne).mpr (hzk ▸ h.listed hz fun hoff => hu (.inr hoff))

theorem moveToHead (h : m.Full held ∅ idle) (ht : t ∈ (m.shareds k).textureList) :
    ((m.unlinkTexture k t).linkTextureAtHead k t).Full held ∅ idle := by
  obtain ⟨x, hx, hk⟩ := h.inv.listed ht
  have hout : t ∉ ((m.unlinkTexture k t).shareds k).textureList := by
    simp only [Store.unlinkTexture, setList_textureList, if_pos]
    exact (h.inv.nodup k).not_mem_erase
  have hmoved := h.unlinkTexture.linkTextureAtHead hx hk hout
  rwa [insert_empty_eq, sdiff_self] at hmoved

/-- The count of one texture changes. -/
theorem fetchAndAdd (h : m.Full held off idle)
    (hinv : (m.fetchAndAdd x n).Inv held') (hr : u32 ((m.sysObj x).refcount + n) < 2 ^ 16)
    (hidle : ∀ u ∈ idle, u ∈ idle' ∨ 0 < m.links u) :
    (m.fetchAndAdd x n).Full held' off idle' := by
  have hlinks : (m.fetchAndAdd x n).links = m.links := links_congr rfl rfl
  refine ⟨hinv, h.slot, ?_, ?_, ?_, ?_⟩
  · intro j i hi
    refine h.used ?_
    rw [Store.fetchAndAdd, setSysObj_sysObjs] at hi
    split_ifs at hi with hsame
    · rw [hsame.1, hsame.2]
      exact hi
    · exact hi
  · intro u z hz
    rw [Store.fetchAndAdd, setSysObj_sysObj]
    split_ifs with hsame
    · exact hr
    · exact h.small hz
  · intro u z hz hu
    rw [Store.fetchAndAdd, setSysObj_textureList]
    exact h.listed hz hu
  · intro u z hz hagp hu
    rw [hlinks]
    by_cases hmem : u ∈ idle
    · exact (hidle u hmem).resolve_left hu
    · exact h.agp hz hagp hmem

/-- A texture that nothing refers to and that is on no list can be freed. -/
theorem freeTexture (h : m.Full held off idle) (hx : m.textures t = some x) (hk : x.home = k)
    (hl : x.linkedAgp = none) (hheld : held t = 0) (hlinks : m.links t = 0)
    (hlist : ∀ j, t ∉ (m.shareds j).textureList) :
    (m.freeTexture k t x).Full held (off \ {t}) (idle \ {t}) := by
  have hinv := h.inv.freeTexture hx hk hl hheld hlinks hlist
  have hold {u z} := of_freeTexture (m := m) (k := k) (t := t) (x := x) (u := u) (z := z)
  have hkept {u z} := to_freeTexture (m := m) (k := k) (t := t) (x := x) (u := u) (z := z)
  have hrest := links_freeTexture (k := k) hx hl
  rw [h.inv.freeTexture_eq hx hk] at hinv hold hkept hrest ⊢
  refine ⟨hinv, fun hz => h.slot (hold hz).2, ?_, ?_, ?_, ?_⟩
  · intro j i hi
    rw [setTexture_shareds, setSysObj_sysObjs] at hi
    split_ifs at hi with hplace
    · cases hi
    rw [setHandle_sysObjs] at hi
    obtain ⟨u, z, hz, hzj, hzi⟩ := h.used hi
    refine ⟨u, z, hkept ?_ hz, hzj, hzi⟩
    rintro rfl
    obtain rfl : x = z := Option.some.inj (hx.symm.trans hz)
    exact hplace ⟨hzj.symm.trans hk, hzi.symm⟩
  · intro u z hz
    obtain ⟨hne, hz⟩ := hold hz
    rw [setTexture_sysObj, setSysObj_sysObj, setHandle_sysObj]
    split_ifs
    · exact Nat.two_pow_pos 16
    · exact h.small hz
  · intro u z hz hu
    obtain ⟨hne, hz⟩ := hold hz
    simpa using h.listed hz fun hoff => hu ⟨hoff, hne⟩
  · intro u z hz hagp hu
    obtain ⟨hne, hz⟩ := hold hz
    rw [hrest]
    exact h.agp hz hagp fun hidle => hu ⟨hidle, hne⟩

end Full

/-! ### A new texture -/

theorem mapClientSysObjs_inUse {j i : ℕ}
    (h : (((m.mapClientSysObjs k).shareds j).sysObjs i).inUse = true) :
    ((m.shareds j).sysObjs i).inUse = true := by
  unfold mapClientSysObjs at h
  split_ifs at h
  · exact h
  · rcases eq_or_ne j k with rfl | hj
    · simp [modify, SysObject.zero] at h
    · simpa [modify, hj] using h

/-- The system object taken is one of the array, and no other comes into use. -/
theorem allocClientShared_place {map : Bool} {i : ℕ}
    (h : m.allocClientShared k map = (m', some i)) :
    i < numSysObjs ∧ ∀ j n, ((m'.shareds j).sysObjs n).inUse = true →
      j = k ∧ n = i ∨ ((m.shareds j).sysObjs n).inUse = true := by
  unfold allocClientShared at h
  split_ifs at h
  · cases h
  dsimp only at h
  split at h
  · cases h
  · next hfind =>
    cases h
    refine ⟨List.mem_range.mp (List.mem_of_find?_eq_some hfind), fun j n hn => ?_⟩
    rw [setSysObj_sysObjs] at hn
    split_ifs at hn with hplace
    · exact .inl hplace
    · exact .inr (mapClientSysObjs_inUse hn)

theorem commonTextureInit_place {type : TexType} {e : InitEnv}
    (h : m.commonTextureInit k type e = (m', some t)) (hx : m'.textures t = some x) :
    x.slot < numSysObjs ∧ ∀ j n, ((m'.shareds j).sysObjs n).inUse = true →
      j = k ∧ n = x.slot ∨ ((m.shareds j).sysObjs n).inUse = true := by
  unfold commonTextureInit at h
  split_ifs at h
  · cases h
  split at h
  · cases h
  next m₁ id hhandle =>
  split at h
  · cases h
  next m₂ i hplace =>
  cases h
  obtain ⟨hlt, huse⟩ := allocClientShared_place hplace
  simp only [Function.update_self, Option.some.injEq] at hx
  subst hx
  refine ⟨hlt, fun j n hn => ?_⟩
  change (((m₂.setSysObj k i ⟨id, 0, true⟩).shareds j).sysObjs n).inUse = true at hn
  rw [setSysObj_sysObjs] at hn
  split_ifs at hn with hsame
  · exact .inl hsame
  · refine (huse j n hn).imp_right fun h₁ => ?_
    rcases allocBufHandle_cases m k m.next with hnone | ⟨id', -, -, hsome⟩
    · rw [hnone] at hhandle
      cases hhandle
    · rw [hsome] at hhandle
      cases hhandle
      rwa [setHandle_sysObjs] at h₁

/-- The registries with a new texture, which is on no list yet and idle. -/
theorem Full.commonTextureInit (h : m.Full held off idle) (type : TexType) (e : InitEnv) :
    m.commonTextureInit k type e = (m, none) ∨
      ∃ m' objectId i, m.commonTextureInit k type e = (m', some m.next) ∧
        Made m m' k objectId ⟨type, k, i, none, 0, 0, 0, false⟩ ∧
        m'.Full held (insert m.next off) (insert m.next idle) := by
  refine (commonTextureInit_cases h.inv type e).imp_right ?_
  rintro ⟨m', objectId, i, hsome, hm⟩
  obtain ⟨hlt, huse⟩ := commonTextureInit_place hsome hm.texture
  have hcases : ∀ {u z}, m'.textures u = some z →
      u = m.next ∧ z = ⟨type, k, i, none, 0, 0, 0, false⟩ ∨ m.textures u = some z := by
    intro u z hz
    rw [hm.textures, Function.update_apply] at hz
    split_ifs at hz with hu
    · exact .inl ⟨hu, (Option.some.inj hz).symm⟩
    · exact .inr hz
  refine ⟨m', objectId, i, hsome, hm, hm.inv h.inv, ?_, ?_, ?_, ?_, ?_⟩
  · intro u z hz
    obtain ⟨-, rfl⟩ | hz := hcases hz
    · exact hlt
    · exact h.slot hz
  · intro j n hn
    obtain ⟨rfl, rfl⟩ | hn := huse j n hn
    · exact ⟨m.next, _, hm.texture, rfl, rfl⟩
    · obtain ⟨u, z, hz, hplace⟩ := h.used hn
      exact ⟨u, z, hm.texture_other h.inv hz, hplace⟩
  · intro u z hz
    obtain ⟨-, rfl⟩ | hz := hcases hz
    · rw [hm.sysObj]
      exact Nat.two_pow_pos 16
    · rw [hm.other hz]
      exact h.small hz
  · intro u z hz hu
    obtain ⟨rfl, -⟩ | hz := hcases hz
    · exact absurd (Set.mem_insert ..) hu
    · rw [hm.textureList]
      exact h.listed hz fun hoff => hu (.inr hoff)
  · intro u z hz hagp hu
    obtain ⟨rfl, -⟩ | hz := hcases hz
    · exact absurd (Set.mem_insert ..) hu
    · rw [hm.links]
      exact h.agp hz hagp fun hidle => hu (.inr hidle)

namespace Full

theorem mono (h : m.Full held off idle)
    (hidle : ∀ {t x}, m.textures t = some x → x.type = .agp → t ∈ idle → t ∈ idle') :
    m.Full held off idle' :=
  ⟨h.inv, h.slot, h.used, h.small, h.listed, fun hx hagp ht =>
    h.agp hx hagp fun hmem => ht (hidle hx hagp hmem)⟩

/-! ### Links -/

theorem linkAgp (h : m.Full held off idle) (hx : m.textures t = some x)
    (hxl : x.linkedAgp = none) (hxt : x.type.isLinked = true) (hl : m.IsAgp x.home l)
    (hb : held l + GL.numTextureHandles + 1 < 2 ^ 16) :
    (m.linkAgp t l).Full held off (idle \ {l}) := by
  have hinv := h.inv.linkAgp hx hxl hxt hl hb
  obtain ⟨y, hy, hyt, hyh⟩ := hl
  have hlinks := h.inv.links_le l
  have hcount := h.refcount_eq hy
  have hr : u32 ((m.sysObj y).refcount + 1) < 2 ^ 16 := by
    simp only [u32]
    omega
  have hadd : (m.fetchAndAdd y 1).Full (oneMore held l) off idle := by
    refine h.fetchAndAdd (h.inv.fetchAndAdd hy ?_ fun u hu => oneMore_of_ne hu) hr fun u => .inl
    simp only [oneMore_self, u32]
    omega
  simp only [Store.linkAgp, hx, hy] at hinv ⊢
  refine Full.setTexture (m := m.fetchAndAdd y 1) hadd hx rfl rfl rfl hinv fun u hu => ?_
  by_cases hul : u = l
  · exact .inr (hul ▸ rfl)
  · exact .inl ⟨fun hmem => hu ⟨hmem, hul⟩, by simp [hxl]⟩

/-! ### Deletion -/

theorem deleteUnlinked (h : m.Full held ∅ idle) (hx : m.textures t = some x) (hk : x.home = k)
    (hl : x.linkedAgp = none) (hheld : held t = 0) (hlinks : m.links t = 0) :
    (deleteTextureInternal (d + 1) m k t).Full held ∅ (idle \ {t}) := by
  rw [delete_of_not_linked hx hl, unlinkTexture_freeTexture hk]
  have hfree := (h.unlinkTexture (k := k) (t := t)).freeTexture hx hk hl hheld hlinks ?_
  · rwa [insert_empty_eq, sdiff_self] at hfree
  · intro j hj
    simp only [Store.unlinkTexture, setList_textureList] at hj
    split_ifs at hj with hjk
    · exact (h.inv.nodup k).not_mem_erase hj
    · obtain ⟨z, hz, hzj⟩ := h.inv.listed hj
      obtain rfl : x = z := Option.some.inj (hx.symm.trans hz)
      exact hjk (hzj.symm.trans hk)

/-- A reference to an AGP texture is given up; the last one takes the texture with it. -/
theorem derefOne (h : m.Full (oneMore held l) ∅ (insert l idle)) (hy : m.textures l = some y)
    (hk : y.home = k) (hl : y.linkedAgp = none) (hheld : held l = 0) :
    (m.deref l 1 fun m => deleteTextureInternal (d + 1) m k l).Full held ∅ idle := by
  have hcount := h.refcount_eq hy
  have hsmall := h.small hy
  rw [oneMore_self, hheld] at hcount
  have hr : u32 ((m.sysObj y).refcount + (2 ^ 32 - 1)) = m.links l := by
    simp only [u32]
    omega
  have hinv : (m.fetchAndAdd y (2 ^ 32 - 1)).Inv held := by
    refine h.inv.fetchAndAdd hy ?_ fun u hu => (oneMore_of_ne hu).symm
    rw [hr, hheld]
    omega
  have hlt : u32 ((m.sysObj y).refcount + (2 ^ 32 - 1)) < 2 ^ 16 := by omega
  rw [deref_of_not_linked hy hl]
  split_ifs with hlast
  · have hadd := h.fetchAndAdd hinv hlt fun u => .inl
    have hdelete := hadd.deleteUnlinked (d := d) hy hk hl hheld (show m.links l = 0 by omega)
    rw [delete_of_not_linked (m := m.fetchAndAdd y (2 ^ 32 - 1)) hy hl] at hdelete
    exact hdelete.mono fun _ _ hmem => hmem.1.resolve_left hmem.2
  · refine h.fetchAndAdd hinv hlt fun u hu => hu.symm.imp_right fun hul => ?_
    rw [hul]
    omega

theorem delete (h : m.Full (fun _ => 0) ∅ idle) (hx : m.textures t = some x) (hk : x.home = k)
    (hlinks : m.links t = 0) :
    (deleteTextureInternal (d + 2) m k t).Full (fun _ => 0) ∅ (idle \ {t}) := by
  cases hl : x.linkedAgp with
  | none => exact h.deleteUnlinked hx hk hl rfl hlinks
  | some l =>
    obtain ⟨-, hne, y, hy, hyh, hyl⟩ := h.inv.linkedTo hx hl
    have hy' : (m.setTexture t (some { x with linkedAgp := none })).textures l = some y := by
      rw [setTexture_textures, if_neg hne, hy]
    obtain ⟨m₁, hm₁, hdelete, hxt, hlt⟩ := h.inv.delete_linked (k := k) (d := d) hx hl hlinks
    have hcut : (m.setTexture t (some { x with linkedAgp := none })).Full (oneMore (fun _ => 0) l)
        ∅ (insert l idle) := by
      refine h.setTexture hx rfl rfl rfl (h.inv.cutLink hx hl) fun u hu => .inl ⟨?_, ?_⟩
      · exact fun hmem => hu (.inr hmem)
      · exact fun hul => hu (.inl (Option.some.inj (hl.symm.trans hul)).symm)
    have hdrop : m₁.Full (fun _ => 0) ∅ idle := by
      rw [hm₁]
      exact hcut.derefOne hy' (hyh.trans hk) hyl rfl
    rw [hdelete]
    exact hdrop.deleteUnlinked hxt hk rfl rfl hlt

end Full

/-! ### What a failed call leaves -/

/-- A texture but for `mem_changed`, and its reference count. -/
def view (m : Store) (t : ℕ) : Option (TextureBuffer × ℕ) :=
  (m.textures t).map fun x => ({ x with memChanged := false }, (m.sysObj x).refcount)

theorem view_eq_none : m.view t = none ↔ m.textures t = none := Option.map_eq_none_iff

theorem view_setList {ts : List ℕ} : (m.setList k ts).view = m.view := by
  funext u
  simp [view]

theorem view_setTexture {v : Option TextureBuffer} : (m.setTexture t v).view =
    Function.update m.view t
      (v.map fun x => ({ x with memChanged := false }, (m.sysObj x).refcount)) := by
  funext u
  simp only [view, setTexture_textures, Function.update_apply, setTexture_sysObj]
  split_ifs <;> rfl

theorem view_memChanged (hx : m.textures t = some x) :
    (m.setTexture t (some { x with memChanged := true })).view = m.view := by
  rw [view_setTexture, ← Function.update_eq_self t m.view, Function.update_idem]
  simp only [view, hx, Option.map_some]
  rfl

theorem Made.view {objectId : ℕ} (hm : Made m m' k objectId x) :
    m'.view = Function.update m.view m.next (some ({ x with memChanged := false }, 0)) := by
  funext u
  rw [Store.view, hm.textures, Function.update_apply, Function.update_apply]
  split_ifs with hu
  · rw [Option.map_some, hm.sysObj]
  · rw [Store.view]
    cases hz : m.textures u with
    | none => rfl
    | some z => rw [Option.map_some, Option.map_some, hm.other hz]

theorem Inv.view_freeTexture (h : m.Inv held) (hx : m.textures t = some x) (hk : x.home = k) :
    (m.freeTexture k t x).view = Function.update m.view t none := by
  rw [h.freeTexture_eq hx hk, view_setTexture, Option.map_none]
  funext u
  rw [Function.update_apply, Function.update_apply]
  split_ifs with hu
  · rfl
  · simp only [view, setSysObj_textures, setHandle_textures]
    cases hz : m.textures u with
    | none => rfl
    | some z =>
      rw [Option.map_some, Option.map_some, setSysObj_sysObj, setHandle_sysObj, if_neg]
      rintro ⟨hzk, hzs⟩
      exact hu (h.sysObj_inj hz hx (hzk.trans hk.symm) hzs)

theorem Inv.view_deleteUnlinked (h : m.Inv held) (hx : m.textures t = some x) (hk : x.home = k)
    (hl : x.linkedAgp = none) :
    (deleteTextureInternal (d + 1) m k t).view = Function.update m.view t none := by
  rw [delete_of_not_linked hx hl, Store.unlinkTexture, view_setList, h.view_freeTexture hx hk]

end Cesvga2.Textures.Store
