import Cesvga2.Refs.Count
import Cesvga2.Textures.Device

/-! What the registries of the shared objects keep true. Each live texture has one entry
of the handle table and one system object, links lead to live AGP textures, and the low
half of a reference count is the number of references the kernel holds. The references
held outside the store (by the slots of the contexts, or by a call in progress) are a
parameter of the invariant. -/

namespace Cesvga2.Textures.Store

open Cesvga2.GL (numTextureHandles)

/-- The texture that `u` is linked to. -/
def link (m : Store) (u : ℕ) : Option ℕ := (m.textures u).bind (·.linkedAgp)

/-- The number of live textures whose `linked_agp` is `t`. -/
def links (m : Store) (t : ℕ) : ℕ := Refs.count (Finset.range m.next) m.link t

def Live (m : Store) (t : ℕ) : Prop := ∃ x, m.textures t = some x

/-- The invariant of a store to whose textures `held` references are held elsewhere. -/
structure Inv (m : Store) (held : ℕ → ℕ) : Prop where
  handle : ∀ {k i t}, (m.shareds k).handleTable i = some t →
    i < numTextureHandles ∧ ∃ x, m.textures t = some x ∧ x.home = k ∧ (m.sysObj x).objectId = i
  named : ∀ {t x}, m.textures t = some x →
    (m.shareds x.home).handleTable (m.sysObj x).objectId = some t
  place : ∀ {t x}, m.textures t = some x →
    (m.sysObj x).inUse = true ∧ (m.shareds x.home).clientSysObjsMap = true
  listed : ∀ {k t}, t ∈ (m.shareds k).textureList → ∃ x, m.textures t = some x ∧ x.home = k
  nodup : ∀ k, (m.shareds k).textureList.Nodup
  linked : ∀ {t x l}, m.textures t = some x → x.linkedAgp = some l →
    x.type.isLinked = true ∧ ∃ y, m.textures l = some y ∧ y.type = .agp ∧ y.home = x.home
  fresh : ∀ {t x}, m.textures t = some x → t < m.next
  count : ∀ {t x}, m.textures t = some x →
    (m.sysObj x).refcount % 2 ^ 16 = held t + m.links t
  live : ∀ {t}, 0 < held t → m.Live t

variable {m : Store} {held held' : ℕ → ℕ} {k i l t u : ℕ} {x y : TextureBuffer}

theorem link_eq_some : m.link u = some t ↔ ∃ x, m.textures u = some x ∧ x.linkedAgp = some t := by
  simp [link, Option.bind_eq_some_iff]

namespace Inv

/-- No two live textures have one system object. -/
theorem sysObj_inj (h : m.Inv held) (hx : m.textures t = some x) (hy : m.textures u = some y)
    (hhome : x.home = y.home) (hslot : x.slot = y.slot) : t = u := by
  have hobj : m.sysObj x = m.sysObj y := by rw [sysObj, sysObj, hhome, hslot]
  have hxt := h.named hx
  rw [hobj, hhome, h.named hy] at hxt
  exact (Option.some.inj hxt).symm

theorem links_eq_zero (h : m.Inv held) (ht : ¬ m.Live t) : m.links t = 0 := by
  refine Refs.count_eq_zero.mpr fun u _ hu => ht ?_
  obtain ⟨x, hx, hl⟩ := link_eq_some.mp hu
  obtain ⟨-, y, hy, -⟩ := h.linked hx hl
  exact ⟨y, hy⟩

theorem held_eq_zero (h : m.Inv held) (ht : ¬ m.Live t) : held t = 0 :=
  Nat.eq_zero_of_not_pos fun hp => ht (h.live hp)

/-- The textures that are linked to one have entries of their own in its table. -/
theorem links_le (h : m.Inv held) (t : ℕ) : m.links t ≤ numTextureHandles := by
  let key : ℕ → ℕ := fun u => ((m.textures u).map fun x => (m.sysObj x).objectId).getD 0
  refine Refs.count_le_of_injOn key _ ?_ ?_
  · intro u _ hu
    obtain ⟨x, hx, -⟩ := link_eq_some.mp hu
    have := (h.handle (h.named hx)).1
    simpa [key, hx] using this
  · intro u _ v _ hu hv huv
    obtain ⟨x, hx, hxl⟩ := link_eq_some.mp hu
    obtain ⟨y, hy, hyl⟩ := link_eq_some.mp hv
    obtain ⟨-, z, hz, -, hzx⟩ := h.linked hx hxl
    obtain ⟨-, z', hz', -, hzy⟩ := h.linked hy hyl
    obtain rfl : z = z' := Option.some.inj (hz.symm.trans hz')
    have hid : (m.sysObj x).objectId = (m.sysObj y).objectId := by simpa [key, hx, hy] using huv
    have hxu := h.named hx
    rw [hid, ← hzx, hzy, h.named hy] at hxu
    exact (Option.some.inj hxu).symm

theorem not_listed (h : m.Inv held) (ht : ¬ m.Live t) : t ∉ (m.shareds k).textureList :=
  fun hm => ht ((h.listed hm).imp fun _ hx => hx.1)

/-! ### One update at a time -/

/-- A system object may be rewritten as long as its texture's entries stay. -/
theorem setSysObj (h : m.Inv held) (o : SysObject)
    (hown : ∀ t x, m.textures t = some x → x.home = k → x.slot = i →
      o.objectId = (m.sysObj x).objectId ∧ o.inUse = true ∧
        o.refcount % 2 ^ 16 = held' t + m.links t)
    (hrest : ∀ t x, m.textures t = some x → ¬ (x.home = k ∧ x.slot = i) → held' t = held t)
    (hlive : ∀ {t}, 0 < held' t → m.Live t) : (m.setSysObj k i o).Inv held' where
  handle := by
    intro j n t hn
    rw [setSysObj_handleTable] at hn
    obtain ⟨hlt, x, hx, hj, hid⟩ := h.handle hn
    refine ⟨hlt, x, hx, hj, ?_⟩
    rw [setSysObj_sysObj]
    split_ifs with hown'
    · rw [(hown t x hx hown'.1 hown'.2).1, hid]
    · exact hid
  named := by
    intro t x hx
    rw [setSysObj_handleTable, setSysObj_sysObj]
    split_ifs with hown'
    · rw [(hown t x hx hown'.1 hown'.2).1]
      exact h.named hx
    · exact h.named hx
  place := by
    intro t x hx
    rw [setSysObj_map, setSysObj_sysObj]
    split_ifs with hown'
    · exact ⟨(hown t x hx hown'.1 hown'.2).2.1, (h.place hx).2⟩
    · exact h.place hx
  listed := by
    intro j t ht
    rw [setSysObj_textureList] at ht
    exact h.listed ht
  nodup := fun j => by rw [setSysObj_textureList]; exact h.nodup j
  linked := h.linked
  fresh := h.fresh
  count := by
    intro t x hx
    rw [setSysObj_sysObj]
    split_ifs with hown'
    · exact (hown t x hx hown'.1 hown'.2).2.2
    · rw [hrest t x hx hown']
      exact h.count hx
  live := hlive

/-- Rewriting the system object of `t` alone. -/
theorem setRefcount (h : m.Inv held) (hx : m.textures t = some x) {r : ℕ}
    (hr : r % 2 ^ 16 = held' t + m.links t) (hrest : ∀ u, u ≠ t → held' u = held u) :
    (m.setSysObj x.home x.slot { m.sysObj x with refcount := r }).Inv held' := by
  refine h.setSysObj _ ?_ ?_ ?_
  · intro u y hy hhome hslot
    obtain rfl := h.sysObj_inj hx hy hhome.symm hslot.symm
    obtain rfl : x = y := Option.some.inj (hx.symm.trans hy)
    exact ⟨rfl, (h.place hx).1, hr⟩
  · intro u y hy hne
    refine hrest u fun hut => hne ?_
    subst hut
    obtain rfl : x = y := Option.some.inj (hx.symm.trans hy)
    exact ⟨rfl, rfl⟩
  · intro u hu
    by_cases hut : u = t
    · exact ⟨x, hut ▸ hx⟩
    · exact h.live (hrest u hut ▸ hu)

theorem setList (h : m.Inv held) {ts : List ℕ} (hn : ts.Nodup)
    (hts : ∀ t ∈ ts, ∃ x, m.textures t = some x ∧ x.home = k) : (m.setList k ts).Inv held where
  handle := by
    intro j n t hn
    rw [setList_handleTable] at hn
    simpa using h.handle hn
  named := by
    intro t x hx
    simpa using h.named hx
  place := by
    intro t x hx
    simpa using h.place hx
  listed := by
    intro j t ht
    rw [setList_textureList] at ht
    split_ifs at ht with hj
    · exact hj ▸ hts t ht
    · exact h.listed ht
  nodup := by
    intro j
    rw [setList_textureList]
    split_ifs
    · exact hn
    · exact h.nodup j
  linked := h.linked
  fresh := h.fresh
  count := by
    intro t x hx
    rw [setList_sysObj]
    exact h.count hx
  live := h.live

end Inv

theorem link_setTexture (v : Option TextureBuffer) :
    (m.setTexture t v).link = Function.update m.link t (v.bind (·.linkedAgp)) := by
  funext u
  simp only [link, setTexture_textures, Function.update_apply]
  split_ifs <;> rfl

theorem links_setTexture (ht : t < m.next) (v : Option TextureBuffer) (l : ℕ) :
    (m.setTexture t v).links l + (if m.link t = some l then 1 else 0)
      = m.links l + if v.bind (·.linkedAgp) = some l then 1 else 0 := by
  rw [links, link_setTexture]
  exact Refs.count_update (Finset.mem_range.mpr ht) _

theorem links_congr {m' : Store} (hn : m'.next = m.next) (h : m'.link = m.link) :
    m'.links = m.links := by
  funext u
  rw [links, links, hn, h]

namespace Inv

section SetTexture

variable (hx : m.textures t = some x) (hhome : y.home = x.home) (hslot : y.slot = x.slot)
  (htype : y.type = x.type)

include hx hhome hslot htype

/-- A texture of the new store is the old one in a place of its own. -/
theorem of_setTexture {z : TextureBuffer} (hz : (m.setTexture t (some y)).textures u = some z) :
    ∃ z', m.textures u = some z' ∧ z.home = z'.home ∧ z.type = z'.type ∧
      m.sysObj z = m.sysObj z' ∧ (u = t → z = y) ∧ (u ≠ t → z = z') := by
  rw [setTexture_textures] at hz
  split_ifs at hz with hu
  · obtain rfl := Option.some.inj hz
    refine ⟨x, hu ▸ hx, hhome, htype, ?_, fun _ => rfl, fun hne => absurd hu hne⟩
    rw [sysObj, sysObj, hhome, hslot]
  · exact ⟨z, hz, rfl, rfl, rfl, fun he => absurd he hu, fun _ => rfl⟩

theorem to_setTexture {z' : TextureBuffer} (hz' : m.textures u = some z') :
    ∃ z, (m.setTexture t (some y)).textures u = some z ∧ z.home = z'.home ∧
      z.type = z'.type ∧ m.sysObj z = m.sysObj z' := by
  rw [setTexture_textures]
  split_ifs with hu
  · obtain rfl : x = z' := Option.some.inj (hx.symm.trans (hu ▸ hz'))
    exact ⟨y, rfl, hhome, htype, by rw [sysObj, sysObj, hhome, hslot]⟩
  · exact ⟨z', hz', rfl, rfl, rfl⟩

end SetTexture

/-- What is held after a link was dropped was held, or is what the link led to. -/
theorem live_of_held (h : m.Inv held) (hx : m.textures t = some x)
    (hheld : ∀ l, held' l + (if y.linkedAgp = some l then 1 else 0)
      = held l + if x.linkedAgp = some l then 1 else 0) (hu : 0 < held' u) : m.Live u := by
  by_cases hp : 0 < held u
  · exact h.live hp
  by_cases hl : x.linkedAgp = some u
  · obtain ⟨-, w, hw, -⟩ := h.linked hx hl
    exact ⟨w, hw⟩
  · have := hheld u
    rw [if_neg hl] at this
    omega

/-- A live texture may change as long as its place stays. A link that it loses is a
reference in hand, and a link that it gains was one. -/
theorem setTexture (h : m.Inv held) (hx : m.textures t = some x) (hhome : y.home = x.home)
    (hslot : y.slot = x.slot) (htype : y.type = x.type)
    (hlink : ∀ l, y.linkedAgp = some l → y.type.isLinked = true ∧
      ∃ z, m.textures l = some z ∧ z.type = .agp ∧ z.home = y.home)
    (hheld : ∀ l, held' l + (if y.linkedAgp = some l then 1 else 0)
      = held l + if x.linkedAgp = some l then 1 else 0) :
    (m.setTexture t (some y)).Inv held' := by
  refine ⟨?_, ?_, ?_, ?_, h.nodup, ?_, ?_, ?_, ?_⟩
  · intro k i u hu
    obtain ⟨hi, z', hz', hk, hid⟩ := h.handle hu
    obtain ⟨z, hz, hzh, -, hzo⟩ := to_setTexture hx hhome hslot htype hz'
    exact ⟨hi, z, hz, hzh.trans hk, by rw [setTexture_sysObj, hzo, hid]⟩
  · intro u z hz
    obtain ⟨z', hz', hzh, -, hzo, -⟩ := of_setTexture hx hhome hslot htype hz
    rw [setTexture_sysObj, setTexture_shareds, hzo, hzh]
    exact h.named hz'
  · intro u z hz
    obtain ⟨z', hz', hzh, -, hzo, -⟩ := of_setTexture hx hhome hslot htype hz
    rw [setTexture_sysObj, setTexture_shareds, hzo, hzh]
    exact h.place hz'
  · intro k u hu
    obtain ⟨z', hz', hk⟩ := h.listed hu
    obtain ⟨z, hz, hzh, -⟩ := to_setTexture hx hhome hslot htype hz'
    exact ⟨z, hz, hzh.trans hk⟩
  · intro u z l hz hl
    obtain ⟨z', hz', hzh, hzt, -, hself, hother⟩ := of_setTexture hx hhome hslot htype hz
    have hz'l : z.type.isLinked = true ∧
        ∃ w, m.textures l = some w ∧ w.type = .agp ∧ w.home = z.home := by
      by_cases hu : u = t
      · obtain rfl := hself hu
        exact hlink l hl
      · obtain rfl := hother hu
        exact h.linked hz' hl
    obtain ⟨hzl, w', hw', hwt, hwh⟩ := hz'l
    obtain ⟨w, hw, hwh', hwt', -⟩ := to_setTexture hx hhome hslot htype hw'
    exact ⟨hzl, w, hw, hwt'.trans hwt, hwh'.trans hwh⟩
  · intro u z hz
    obtain ⟨z', hz', -⟩ := of_setTexture hx hhome hslot htype hz
    exact h.fresh hz'
  · intro u z hz
    obtain ⟨z', hz', -, -, hzo, -⟩ := of_setTexture hx hhome hslot htype hz
    have hcount := h.count hz'
    have hlinks := links_setTexture (h.fresh hx) (some y) u
    have hu := hheld u
    rw [link, hx] at hlinks
    simp only [Option.bind_some] at hlinks
    rw [setTexture_sysObj, hzo]
    omega
  · intro u hu
    obtain ⟨z', hz'⟩ := h.live_of_held hx hheld hu
    exact (to_setTexture hx hhome hslot htype hz').imp fun _ hz => hz.1

end Inv

/-! ### Freeing a texture -/

theorem freeTexture_textures : (m.freeTexture k t x).textures
    = Function.update m.textures t none := by
  simp only [freeTexture, freeClientShared, freeBufHandle]
  split_ifs <;> rfl

theorem of_freeTexture {z : TextureBuffer} (hz : (m.freeTexture k t x).textures u = some z) :
    u ≠ t ∧ m.textures u = some z := by
  rw [freeTexture_textures, Function.update_apply] at hz
  split_ifs at hz with hu
  exact ⟨hu, hz⟩

theorem to_freeTexture {z : TextureBuffer} (hu : u ≠ t) (hz : m.textures u = some z) :
    (m.freeTexture k t x).textures u = some z := by
  rw [freeTexture_textures, Function.update_of_ne hu, hz]

theorem freeTexture_next : (m.freeTexture k t x).next = m.next := by
  simp only [freeTexture, freeClientShared, freeBufHandle]
  split_ifs <;> rfl

theorem links_freeTexture (hx : m.textures t = some x) (hl : x.linkedAgp = none) :
    (m.freeTexture k t x).links = m.links := by
  refine links_congr freeTexture_next (funext fun u => ?_)
  rw [link, link, freeTexture_textures, Function.update_apply]
  split_ifs with hu
  · rw [hu, hx, Option.bind_some, hl]
    rfl
  · rfl

namespace Inv

theorem freeTexture_eq (h : m.Inv held) (hx : m.textures t = some x) (hk : x.home = k) :
    m.freeTexture k t x = ((m.setHandle k (m.sysObj x).objectId none).setSysObj k x.slot
      .zero).setTexture t none := by
  have hnamed := h.named hx
  rw [hk] at hnamed
  rw [freeTexture, freeBufHandle, if_pos ⟨(h.handle hnamed).1, hnamed⟩, freeClientShared, hk]

/-- The system objects of all other textures stay. -/
theorem freeTexture_sysObj (h : m.Inv held) (hx : m.textures t = some x) (hk : x.home = k)
    (hu : u ≠ t) (hy : m.textures u = some y) : (m.freeTexture k t x).sysObj y = m.sysObj y := by
  rw [h.freeTexture_eq hx hk, setTexture_sysObj, setSysObj_sysObj, setHandle_sysObj, if_neg]
  rintro ⟨hyk, hys⟩
  exact hu (h.sysObj_inj hy hx (hyk.trans hk.symm) hys)

theorem freeTexture_handleTable (h : m.Inv held) (hx : m.textures t = some x) (hk : x.home = k)
    (j n : ℕ) : ((m.freeTexture k t x).shareds j).handleTable n =
      if j = k ∧ n = (m.sysObj x).objectId then none else (m.shareds j).handleTable n := by
  rw [h.freeTexture_eq hx hk, setTexture_shareds, setSysObj_handleTable, setHandle_handleTable]

/-- A texture that nothing refers to and that is on no list can be freed. -/
theorem freeTexture (h : m.Inv held) (hx : m.textures t = some x) (hk : x.home = k)
    (hl : x.linkedAgp = none) (hheld : held t = 0) (hlinks : m.links t = 0)
    (hlist : ∀ j, t ∉ (m.shareds j).textureList) : (m.freeTexture k t x).Inv held := by
  have hne : ∀ {u z}, m.textures u = some z → z.linkedAgp ≠ some t := fun hz hzl =>
    Refs.count_eq_zero.mp hlinks _ (Finset.mem_range.mpr (h.fresh hz))
      (link_eq_some.mpr ⟨_, hz, hzl⟩)
  refine ⟨?_, ?_, ?_, ?_, ?_, ?_, ?_, ?_, ?_⟩
  · intro j n u hn
    rw [h.freeTexture_handleTable hx hk] at hn
    split_ifs at hn with hjn
    obtain ⟨hlt, z, hz, hzj, hid⟩ := h.handle hn
    have hu : u ≠ t := by
      rintro rfl
      obtain rfl : x = z := Option.some.inj (hx.symm.trans hz)
      exact hjn ⟨hzj.symm.trans hk, hid.symm⟩
    exact ⟨hlt, z, to_freeTexture hu hz, hzj, by rw [h.freeTexture_sysObj hx hk hu hz, hid]⟩
  · intro u z hz
    obtain ⟨hu, hz⟩ := of_freeTexture hz
    have hzn := h.named hz
    rw [h.freeTexture_sysObj hx hk hu hz, h.freeTexture_handleTable hx hk, if_neg]
    · exact hzn
    · rintro ⟨hzk, hid⟩
      have hxn := h.named hx
      rw [← hid, hk, ← hzk, hzn] at hxn
      exact hu (Option.some.inj hxn)
  · intro u z hz
    obtain ⟨hu, hz⟩ := of_freeTexture hz
    rw [h.freeTexture_sysObj hx hk hu hz, h.freeTexture_eq hx hk]
    simpa using h.place hz
  · intro j u hu
    have hu' : u ∈ (m.shareds j).textureList := by simpa [h.freeTexture_eq hx hk] using hu
    obtain ⟨z, hz, hzj⟩ := h.listed hu'
    exact ⟨z, to_freeTexture (fun hut => hlist j (hut ▸ hu')) hz, hzj⟩
  · intro j
    simpa [h.freeTexture_eq hx hk] using h.nodup j
  · intro u z l hz hzl
    obtain ⟨-, hz⟩ := of_freeTexture hz
    obtain ⟨hty, w, hw, hwt, hwh⟩ := h.linked hz hzl
    exact ⟨hty, w, to_freeTexture (fun hlt => hne hz (hlt ▸ hzl)) hw, hwt, hwh⟩
  · intro u z hz
    rw [freeTexture_next]
    exact h.fresh (of_freeTexture hz).2
  · intro u z hz
    obtain ⟨hu, hz⟩ := of_freeTexture hz
    rw [h.freeTexture_sysObj hx hk hu hz, links_freeTexture hx hl]
    exact h.count hz
  · intro u hu
    obtain ⟨z, hz⟩ := h.live hu
    exact ⟨z, to_freeTexture (by rintro rfl; omega) hz⟩

end Inv

end Cesvga2.Textures.Store
