import Cesvga2.Textures.Registry

/-! Giving up references. A reference in hand is given up by taking one from the count;
the texture is deleted when nothing is left, and its own link is then a reference in
hand. The registries keep their invariant as long as no one else holds the texture. -/

namespace Cesvga2.Textures.Store

/-- The references held with one more to `t` in hand. -/
def oneMore (held : ℕ → ℕ) (t u : ℕ) : ℕ := held u + if u = t then 1 else 0

variable {m : Store} {held held' : ℕ → ℕ} {k l n t u d : ℕ} {x y : TextureBuffer}

@[simp] theorem oneMore_self : oneMore held t t = held t + 1 := by simp [oneMore]

@[simp] theorem oneMore_of_ne (h : u ≠ t) : oneMore held t u = held u := by simp [oneMore, h]

/-! ### Deleting a texture without a link -/

theorem unlinkTexture_freeTexture (hk : x.home = k) :
    (m.freeTexture k t x).unlinkTexture k t = (m.unlinkTexture k t).freeTexture k t x := by
  have hid : ((m.unlinkTexture k t).sysObj x).objectId = (m.sysObj x).objectId := by
    simp [unlinkTexture]
  have htab : ((m.unlinkTexture k t).shareds k).handleTable = (m.shareds k).handleTable := by
    simp [unlinkTexture]
  rw [freeTexture, freeTexture, hid, freeBufHandle, freeBufHandle, htab]
  split_ifs <;>
    simp [freeClientShared, hk, unlinkTexture, setHandle, setSysObj, setList, setTexture, modify]

theorem delete_of_not_linked (hx : m.textures t = some x) (hl : x.linkedAgp = none) :
    deleteTextureInternal (d + 1) m k t = (m.freeTexture k t x).unlinkTexture k t := by
  rw [deleteTextureInternal, hx]
  simp only [hl]
  cases x.type.isLinked <;> rfl

namespace Inv

theorem unlinkTexture (h : m.Inv held) : (m.unlinkTexture k t).Inv held :=
  h.setList ((h.nodup k).erase t) fun _ hu => h.listed (List.mem_of_mem_erase hu)

/-- A texture without a link that no one holds can be deleted. -/
theorem deleteUnlinked (h : m.Inv held) (hx : m.textures t = some x) (hk : x.home = k)
    (hl : x.linkedAgp = none) (hheld : held t = 0) (hlinks : m.links t = 0) :
    (deleteTextureInternal (d + 1) m k t).Inv held := by
  rw [delete_of_not_linked hx hl, unlinkTexture_freeTexture hk]
  refine (h.unlinkTexture (k := k) (t := t)).freeTexture hx hk hl hheld hlinks ?_
  intro j hj
  simp only [Store.unlinkTexture, setList_textureList] at hj
  split_ifs at hj with hjk
  · exact (h.nodup k).not_mem_erase hj
  · obtain ⟨z, hz, hzj⟩ := h.listed hj
    obtain rfl : x = z := Option.some.inj (hx.symm.trans hz)
    exact hjk (hzj.symm.trans hk)

/-! ### Giving up a reference -/

theorem fetchAndAdd (h : m.Inv held) (hx : m.textures t = some x)
    (hr : u32 ((m.sysObj x).refcount + n) % 2 ^ 16 = held' t + m.links t)
    (hrest : ∀ u, u ≠ t → held' u = held u) : (m.fetchAndAdd x n).Inv held' :=
  h.setRefcount hx hr hrest

theorem deref (h : m.Inv held) (hx : m.textures t = some x) {del : Store → Store}
    (hr : u32 ((m.sysObj x).refcount + (2 ^ 32 - n)) % 2 ^ 16 = held' t + m.links t)
    (hrest : ∀ u, u ≠ t → held' u = held u)
    (hn : (m.sysObj x).refcount = n → held' t = 0 ∧ m.links t = 0)
    (hdel : ∀ m' : Store, m'.Inv held' → m'.textures = m.textures → m'.next = m.next →
      held' t = 0 → m'.links t = 0 → (del m').Inv held') : (m.deref t n del).Inv held' := by
  have hadd := h.fetchAndAdd hx hr hrest
  rw [Store.deref, hx]
  dsimp only
  split_ifs with hrn
  · obtain ⟨hheld, hlinks⟩ := hn hrn
    exact hdel _ hadd rfl rfl hheld hlinks
  · exact hadd

/-- Giving up a reference in hand. -/
theorem derefOne (h : m.Inv (oneMore held t)) (hx : m.textures t = some x) {del : Store → Store}
    (hdel : ∀ m' : Store, m'.Inv held → m'.textures = m.textures → m'.next = m.next →
      held t = 0 → m'.links t = 0 → (del m').Inv held) : (m.deref t 1 del).Inv held := by
  have hcount := h.count hx
  rw [oneMore_self] at hcount
  refine h.deref hx ?_ (fun u hu => (oneMore_of_ne hu).symm) ?_ hdel
  · simp only [u32]
    omega
  · intro hr
    rw [hr] at hcount
    omega

end Inv

/-! ### Deleting any texture -/

section Linked

theorem deref_of_not_linked (hy : m.textures l = some y) (hl : y.linkedAgp = none) :
    (m.deref l n fun m => deleteTextureInternal (d + 1) m k l)
      = if (m.sysObj y).refcount = n then
          ((m.fetchAndAdd y (2 ^ 32 - n)).freeTexture k l y).unlinkTexture k l
        else m.fetchAndAdd y (2 ^ 32 - n) := by
  rw [deref, hy]
  dsimp only
  rw [delete_of_not_linked (m := m.fetchAndAdd y (2 ^ 32 - n)) hy hl]

/-- What giving up references to a texture without a link can do to the textures. -/
theorem deref_textures (hy : m.textures l = some y) (hl : y.linkedAgp = none) :
    let m' := m.deref l n fun m => deleteTextureInternal (d + 1) m k l
    m'.next = m.next ∧ (m'.textures = m.textures ∨ m'.textures = Function.update m.textures l none)
      := by
  dsimp only
  rw [deref_of_not_linked hy hl]
  split_ifs
  · exact ⟨freeTexture_next, .inr freeTexture_textures⟩
  · exact ⟨rfl, .inl rfl⟩

theorem deref_links (hy : m.textures l = some y) (hl : y.linkedAgp = none) :
    (m.deref l n fun m => deleteTextureInternal (d + 1) m k l).links = m.links := by
  obtain ⟨hn, ht⟩ := deref_textures (n := n) (k := k) (d := d) hy hl
  refine links_congr hn (funext fun u => ?_)
  rcases ht with ht | ht
  · rw [link, link, ht]
  · rw [link, link, ht, Function.update_apply]
    split_ifs with hu
    · rw [hu, hy, Option.bind_some, hl]
      rfl
    · rfl

theorem setTexture_comm (hne : l ≠ t) (v w : Option TextureBuffer) :
    (m.setTexture l w).setTexture t v = (m.setTexture t v).setTexture l w := by
  simp only [setTexture, Function.update_comm hne]

theorem setTexture_freeTexture (hne : l ≠ t) (v : Option TextureBuffer) :
    ((m.freeTexture k l y).unlinkTexture k l).setTexture t v
      = ((m.setTexture t v).freeTexture k l y).unlinkTexture k l := by
  have hfree : ∀ n, (m.setTexture t v).freeBufHandle k l n
      = (m.freeBufHandle k l n).setTexture t v := by
    intro n
    rw [freeBufHandle, freeBufHandle, setTexture_shareds]
    split_ifs <;> rfl
  rw [freeTexture, freeTexture, hfree]
  exact congrArg (fun m : Store => m.unlinkTexture k l) (setTexture_comm hne v none)

theorem setTexture_deref (hy : m.textures l = some y) (hl : y.linkedAgp = none) (hne : l ≠ t)
    (v : Option TextureBuffer) :
    (m.deref l n fun m => deleteTextureInternal (d + 1) m k l).setTexture t v
      = (m.setTexture t v).deref l n fun m => deleteTextureInternal (d + 1) m k l := by
  have hy' : (m.setTexture t v).textures l = some y := by rw [setTexture_textures, if_neg hne, hy]
  rw [deref_of_not_linked hy hl, deref_of_not_linked hy' hl, setTexture_sysObj]
  split_ifs
  · exact setTexture_freeTexture hne v
  · rfl

end Linked

namespace Inv

/-- A link leads to another texture, and no further. -/
theorem linkedTo (h : m.Inv held) (hx : m.textures t = some x) (hl : x.linkedAgp = some l) :
    x.type.isLinked = true ∧ l ≠ t ∧
      ∃ y, m.textures l = some y ∧ y.home = x.home ∧ y.linkedAgp = none := by
  obtain ⟨hty, y, hy, hyt, hyh⟩ := h.linked hx hl
  refine ⟨hty, ?_, y, hy, hyh, ?_⟩
  · rintro rfl
    obtain rfl : x = y := Option.some.inj (hx.symm.trans hy)
    simp [hyt, TexType.isLinked] at hty
  · cases hyl : y.linkedAgp with
    | none => rfl
    | some l' => simpa [hyt, TexType.isLinked] using (h.linked hy hyl).1

/-- With its link cut, a texture's reference is in hand. -/
theorem cutLink (h : m.Inv held) (hx : m.textures t = some x) (hl : x.linkedAgp = some l) :
    (m.setTexture t (some { x with linkedAgp := none })).Inv (oneMore held l) := by
  refine h.setTexture hx rfl rfl rfl (fun l' hl' => by simp at hl') fun u => ?_
  simp [hl, oneMore, eq_comm]

/-- Deleting a texture with a link gives up the reference first. -/
theorem delete_linked (h : m.Inv held) (hx : m.textures t = some x) (hl : x.linkedAgp = some l)
    (hlinks : m.links t = 0) :
    ∃ m₁, m₁ = ((m.setTexture t (some { x with linkedAgp := none })).deref l 1 fun m =>
        deleteTextureInternal (d + 1) m k l) ∧
      deleteTextureInternal (d + 2) m k t = deleteTextureInternal 1 m₁ k t ∧
      m₁.textures t = some { x with linkedAgp := none } ∧ m₁.links t = 0 := by
  obtain ⟨hty, hne, y, hy, hyh, hyl⟩ := h.linkedTo hx hl
  set x' : TextureBuffer := { x with linkedAgp := none } with hx'
  have hy' : (m.setTexture t (some x')).textures l = some y := by
    rw [setTexture_textures, if_neg hne, hy]
  have hxt : ((m.setTexture t (some x')).deref l 1 fun m =>
      deleteTextureInternal (d + 1) m k l).textures t = some x' := by
    have hself : (m.setTexture t (some x')).textures t = some x' := setTexture_self ..
    rcases (deref_textures (n := 1) (k := k) (d := d) hy' hyl).2 with ht | ht
    · rw [ht, hself]
    · rw [ht, Function.update_of_ne hne.symm, hself]
  refine ⟨_, rfl, ?_, hxt, ?_⟩
  · rw [delete_of_not_linked hxt rfl, deleteTextureInternal, hx]
    simp only [hty, hl]
    rw [setTexture_deref hy hyl hne]
    rfl
  · rw [deref_links hy' hyl]
    have hcount := links_setTexture (h.fresh hx) (some x') t
    simp only [hx', link, hx, Option.bind_some, hl, Option.some.injEq, hne, hlinks] at hcount
    simpa using hcount

/-- A texture that no one holds can be deleted; its link is a reference given up. -/
theorem delete (h : m.Inv held) (hx : m.textures t = some x) (hk : x.home = k)
    (hheld : held t = 0) (hlinks : m.links t = 0) :
    (deleteTextureInternal (d + 2) m k t).Inv held := by
  cases hl : x.linkedAgp with
  | none => exact h.deleteUnlinked hx hk hl hheld hlinks
  | some l =>
    obtain ⟨-, hne, y, hy, hyh, hyl⟩ := h.linkedTo hx hl
    have hy' : (m.setTexture t (some { x with linkedAgp := none })).textures l = some y := by
      rw [setTexture_textures, if_neg hne, hy]
    obtain ⟨m₁, hm₁, hdelete, hxt, hlt⟩ := h.delete_linked (k := k) (d := d) hx hl hlinks
    have hdrop : m₁.Inv held := by
      rw [hm₁]
      exact (h.cutLink hx hl).derefOne hy' fun m' hm' htex _ hz hzl =>
        hm'.deleteUnlinked (htex ▸ hy') (hyh.trans hk) hyl hz hzl
    rw [hdelete]
    exact hdrop.deleteUnlinked hxt hk rfl hheld hlt

theorem deleteTexture (h : m.Inv held) (hx : m.textures t = some x) (hk : x.home = k)
    (hheld : held t = 0) (hlinks : m.links t = 0) : (m.deleteTexture k t).Inv held := by
  obtain ⟨n, hn⟩ : ∃ n, m.next = n + 1 := ⟨m.next - 1, by have := h.fresh hx; omega⟩
  rw [Store.deleteTexture, hn]
  exact h.delete hx hk hheld hlinks

/-! ### What deletion leaves -/

/-- Only a texture and the one it is linked to can go. -/
theorem delete_textures (h : m.Inv held) (hx : m.textures t = some x) (hu : u ≠ t)
    (hlu : x.linkedAgp ≠ some u) :
    (deleteTextureInternal (d + 2) m k t).textures u = m.textures u := by
  cases hl : x.linkedAgp with
  | none =>
    rw [delete_of_not_linked hx hl]
    change (m.freeTexture k t x).textures u = _
    rw [freeTexture_textures, Function.update_of_ne hu]
  | some l =>
    obtain ⟨hty, -, y, hy, -, hyl⟩ := h.linkedTo hx hl
    have hul : u ≠ l := by
      rintro rfl
      exact hlu hl
    rw [deleteTextureInternal, hx]
    simp only [hty, hl]
    change (Store.freeTexture _ k t x).textures u = _
    rw [freeTexture_textures, Function.update_of_ne hu, setTexture_textures, if_neg hu]
    rcases (deref_textures (n := 1) (k := k) (d := d) hy hyl).2 with ht | ht
    · rw [ht]
    · rw [ht, Function.update_of_ne hul]

end Inv

/-- `m'` has no texture and no link that `m` has not. -/
def Cut (m m' : Store) : Prop :=
  m'.next = m.next ∧ ∀ u l, m'.link u = some l → m.link u = some l

theorem Cut.refl (m : Store) : Cut m m := ⟨rfl, fun _ _ => id⟩

theorem Cut.trans {m₁ m₂ : Store} (h₁ : Cut m m₁) (h₂ : Cut m₁ m₂) : Cut m m₂ :=
  ⟨h₂.1.trans h₁.1, fun u l hl => h₁.2 u l (h₂.2 u l hl)⟩

theorem Cut.setTexture (v : Option TextureBuffer) (hv : v.bind (·.linkedAgp) = none) :
    Cut m (m.setTexture t v) := by
  refine ⟨rfl, fun u l hl => ?_⟩
  rw [link_setTexture, hv, Function.update_apply] at hl
  split_ifs at hl
  exact hl

theorem cut_freeTexture : Cut m (m.freeTexture k t x) := by
  have hcut : Cut m (m.setTexture t none) := .setTexture none rfl
  refine ⟨freeTexture_next, fun u l hl => hcut.2 u l ?_⟩
  rwa [link, freeTexture_textures] at hl

theorem cut_deleteTextureInternal (depth : ℕ) :
    ∀ (m : Store) (t : ℕ), Cut m (deleteTextureInternal depth m k t) := by
  induction depth with
  | zero => exact fun m _ => .refl m
  | succ depth ih =>
    intro m t
    unfold deleteTextureInternal
    split
    · exact .refl m
    · refine Cut.trans ?_ cut_freeTexture
      split
      · refine Cut.trans ?_ (.setTexture _ rfl)
        unfold deref
        split
        · exact .refl m
        · split_ifs
          · exact ih _ _
          · exact .refl m
      · exact .refl m

/-- Deletion adds no link to any texture. -/
theorem links_deleteTexture_le (m : Store) (t u : ℕ) :
    (m.deleteTexture k t).links u ≤ m.links u := by
  obtain ⟨hn, hl⟩ := cut_deleteTextureInternal (k := k) (m.next + 1) m t
  rw [links, deleteTexture, hn]
  exact Refs.count_mono fun v _ hv => hl v u hv

end Cesvga2.Textures.Store
