import Cesvga2.Textures.Descriptors

/-! A call that makes a texture does all of it or nothing. The AGP texture that an out-of-band
texture or a reference needs is found on the list or made first; if the call fails after that, an
AGP texture that was made for it goes again. -/

namespace Cesvga2.Textures.Holdings

open Store (Full IsAgp Made)

variable {w w₁ w' : Holdings} {m : Store} {e : MdEnv} {k p t d offset addr size : ℕ}
  {idle : Set ℕ}

/-! ### Calls in progress -/

/-- What a call in progress leaves alone: textures other than AGP textures and what was there of
the descriptors. -/
structure Since (w w' : Holdings) : Prop where
  accounts : w'.Accounts
  next : w.store.next ≤ w'.store.next
  keeps : ∀ {u x}, w.store.textures u = some x → x.type ≠ .agp → w'.store.textures u = some x
  md : ∀ u, u < w.store.next → w'.md u = w.md u
  returned : w'.returned = w.returned

theorem Since.refl (h : w.Accounts) : Since w w :=
  ⟨h, le_rfl, fun hx _ => hx, fun _ _ => rfl, rfl⟩

theorem Since.trans (h₁ : Since w w₁) (h₂ : Since w₁ w') : Since w w' where
  accounts := h₂.accounts
  next := h₁.next.trans h₂.next
  keeps hx hne := h₂.keeps (h₁.keeps hx hne) hne
  md u hu := (h₂.md u (hu.trans_le h₁.next)).trans (h₁.md u hu)
  returned := h₂.returned.trans h₁.returned

theorem Since.setStore (h : w.Accounts) (hnext : w.store.next ≤ m.next)
    (hkeeps : ∀ {u x}, w.store.textures u = some x → x.type ≠ .agp → m.textures u = some x)
    (hlive : ∀ u, w.store.Live u → m.Live u) : Since w (w.setStore m) :=
  ⟨h.setStore (fun hu => hlive _ (h.live hu)) hnext, hnext, hkeeps, fun _ _ => rfl, rfl⟩

/-- The textures and their counts are those from before. -/
structure Back (w w' : Holdings) (idle : Set ℕ) : Prop where
  since : Since w w'
  full : w'.store.Full (fun _ => 0) ∅ idle
  view : w'.store.view = w.store.view

theorem Back.refl (hfull : w.store.Full (fun _ => 0) ∅ idle) (h : w.Accounts) : Back w w idle :=
  ⟨.refl h, hfull, rfl⟩

theorem Back.trans {idle' : Set ℕ} (h₁ : Back w w₁ idle') (h₂ : Back w₁ w' idle) :
    Back w w' idle :=
  ⟨h₁.since.trans h₂.since, h₂.full, h₂.view.trans h₁.view⟩

/-- With the textures, the descriptors are back too. -/
theorem Back.md (h : Back w w' idle) (hinv : w.store.Inv fun _ => 0) (hw : w.Accounts) :
    w'.md = w.md := by
  funext u
  by_cases hu : u < w.store.next
  · exact h.since.md u hu
  rw [hw.md_of_next_le (Nat.not_lt.mp hu)]
  cases hmd : w'.md u with
  | none => rfl
  | some d =>
    obtain ⟨x, hx⟩ := h.since.accounts.live hmd
    have hview : w.store.view u ≠ none := by
      rw [← h.view, Ne, Store.view_eq_none, hx]
      nofun
    obtain ⟨y, hy⟩ :=
      Option.ne_none_iff_exists'.mp fun hnone => hview (Store.view_eq_none.mpr hnone)
    exact absurd (hinv.fresh hy) hu

theorem Back.retains (h : Back w w' idle) (hinv : w.store.Inv fun _ => 0) (hw : w.Accounts) :
    w'.retains = w.retains := by
  funext c
  rw [h.since.accounts.retains, hw.retains, h.md hinv hw]
  refine Refs.count_range_of_le h.since.next fun i hi hmd => ?_
  exact absurd (hw.lt hmd) (Nat.not_lt.mpr hi)

/-- There is one AGP texture more, which nothing is linked to. -/
structure NewAgp (w w' : Holdings) (p : ℕ) : Prop where
  since : Since w w'
  full : w'.store.Full (fun _ => 0) ∅ {p}
  fresh : w.store.next ≤ p
  view : ∃ y, w'.store.view = Function.update w.store.view p (some (y, 0))

theorem NewAgp.trans (h₁ : NewAgp w w₁ p) (h₂ : Back w₁ w' {p}) : NewAgp w w' p := by
  obtain ⟨y, hy⟩ := h₁.view
  exact ⟨h₁.since.trans h₂.since, h₂.full, h₁.fresh, y, h₂.view.trans hy⟩

theorem NewAgp.of_back (h₁ : Back w w₁ idle) (h₂ : NewAgp w₁ w' p) : NewAgp w w' p := by
  obtain ⟨y, hy⟩ := h₂.view
  exact ⟨h₁.since.trans h₂.since, h₂.full, h₁.since.next.trans h₂.fresh, y, h₁.view ▸ hy⟩

/-! ### AGP textures -/

/-- A call with the AGP texture that it has, if any: an old one, or one that it made. -/
def Stage (w w' : Holdings) (k : ℕ) : Option ℕ → Prop
  | none => Back w w' ∅
  | some p => w'.store.IsAgp k p ∧ (Back w w' ∅ ∨ NewAgp w w' p)

theorem Stage.of_back {q : Option ℕ} (h₁ : Back w w₁ ∅) (h₂ : Stage w₁ w' k q) :
    Stage w w' k q := by
  cases q with
  | none => exact Back.trans h₁ h₂
  | some p => exact ⟨h₂.1, h₂.2.imp h₁.trans fun h => .of_back h₁ h⟩

/-- The registries with a new AGP texture. -/
theorem store_commonAgp {e : Env} (h : m.Full (fun _ => 0) ∅ ∅) :
    m.commonAgp e k offset addr size = (m, none) ∨
      ∃ m' y, m.commonAgp e k offset addr size = (m', some m.next) ∧
        m'.Full (fun _ => 0) ∅ {m.next} ∧
        m'.textures = Function.update m.textures m.next (some y) ∧ y.type = .agp ∧ y.home = k ∧
        m'.next = m.next + 1 ∧ m'.view = Function.update m.view m.next (some (y, 0)) := by
  unfold Store.commonAgp
  rcases h.commonTextureInit (k := k) .agp e.agpInit with hnone | ⟨m', id, i, hsome, hm, hm'⟩
  · rw [hnone]
    exact .inl rfl
  rw [hsome]
  dsimp only
  rw [hm.texture]
  refine .inr ⟨_, ⟨.agp, k, i, none, offset, addr, size, false⟩, rfl, ?_, ?_, rfl, rfl, hm.next, ?_⟩
  · have hamend := hm'.amend (y := ⟨.agp, k, i, none, offset, addr, size, false⟩) hm.texture rfl rfl
      rfl rfl
    have hlink := hamend.linkTextureAtHead (Store.setTexture_self ..) rfl (hm.not_listed h.inv k)
    rwa [insert_empty_eq, sdiff_self] at hlink
  · change (m'.setTexture m.next _).textures = _
    rw [Store.setTexture, hm.textures, Function.update_idem]
  · rw [Store.linkTextureAtHead, Store.view_setList, Store.view_setTexture, hm.view,
      Function.update_idem, Option.map_some]
    have hobj : m'.sysObj ⟨.agp, k, i, none, offset, addr, size, false⟩ = ⟨id, 0, true⟩ := hm.sysObj
    rw [hobj]

/-- Nothing is done, or an AGP texture is made. -/
theorem stage_commonAgp (hfull : w.store.Full (fun _ => 0) ∅ ∅) (h : w.Accounts) :
    Stage w ((w.retain d).commonAgp e k offset addr size d).1 k
      ((w.retain d).commonAgp e k offset addr size d).2 := by
  have hinv := hfull.inv
  rcases store_commonAgp hfull with hnone | ⟨m, y, hsome, hm, htextures, hagp, hhome, hnext, hview⟩
  · rw [commonAgp, show (w.retain d).store.commonAgp e.toEnv k offset addr size = _ from hnone]
    change Back w ((w.retain d).release d) ∅
    rw [release_retain]
    exact .refl hfull h
  rw [commonAgp, show (w.retain d).store.commonAgp e.toEnv k offset addr size = _ from hsome]
  have hself : m.textures w.store.next = some y := by rw [htextures, Function.update_self]
  have hold : ∀ {u x}, w.store.textures u = some x → m.textures u = some x := by
    intro u x hx
    rw [htextures, Function.update_of_ne (Nat.ne_of_lt (hinv.fresh hx)), hx]
  have hsince : Since w (w.setStore m) := by
    refine .setStore h (by omega) (fun hx _ => hold hx) ?_
    rintro u ⟨x, hx⟩
    exact ⟨x, hold hx⟩
  have hback : (((w.setStore m).retain d).setMd w.store.next (some d)).Accounts :=
    hsince.accounts.back ⟨y, hself⟩ (by change _ < m.next; omega) (h.md_of_next_le le_rfl)
  refine ⟨⟨y, hself, hagp, hhome⟩, .inr ⟨⟨hback, hsince.next, hsince.keeps, ?_, rfl⟩, hm, le_rfl,
    _, hview⟩⟩
  intro u hu
  exact Function.update_of_ne (Nat.ne_of_lt hu) ..

theorem stage_wrapAgp (hfull : w.store.Full (fun _ => 0) ∅ ∅) (h : w.Accounts) :
    Stage w (w.wrapAgp e k offset addr size).1 k (w.wrapAgp e k offset addr size).2 := by
  unfold wrapAgp
  split_ifs
  · exact Back.refl hfull h
  · exact Back.refl hfull h
  · exact stage_commonAgp hfull h

/-- The descriptor of a texture has changed. -/
theorem back_memChanged (hfull : w.store.Full (fun _ => 0) ∅ ∅) (h : w.Accounts)
    {x : TextureBuffer} (hx : w.store.textures t = some x) (hagp : x.type = .agp) :
    Back w (w.setStore (w.store.setTexture t (some { x with memChanged := true }))) ∅ := by
  have hcases : ∀ u y, w.store.textures u = some y → u ≠ t →
      (w.store.setTexture t (some { x with memChanged := true })).textures u = some y := by
    intro u y hy hu
    rw [Store.setTexture_textures, if_neg hu, hy]
  refine ⟨.setStore h le_rfl ?_ ?_, hfull.amend hx rfl rfl rfl rfl, Store.view_memChanged hx⟩
  · intro u y hy hne
    refine hcases u y hy ?_
    rintro rfl
    exact hne (Option.some.inj (hy.symm.trans hx) ▸ hagp)
  · rintro u ⟨y, hy⟩
    by_cases hu : u = t
    · rw [hu]
      exact ⟨_, Store.setTexture_self ..⟩
    · exact ⟨y, hcases u y hy hu⟩

/-- A texture of the list comes to its head. -/
theorem back_moveToHead (hfull : w.store.Full (fun _ => 0) ∅ ∅) (h : w.Accounts)
    (ht : t ∈ (w.store.shareds k).textureList) :
    Back w (w.setStore ((w.store.unlinkTexture k t).linkTextureAtHead k t)) ∅ := by
  refine ⟨.setStore h le_rfl (fun hx _ => hx) fun _ hu => hu, hfull.moveToHead ht, ?_⟩
  change (Store.linkTextureAtHead _ k t).view = _
  rw [Store.linkTextureAtHead, Store.view_setList, Store.unlinkTexture, Store.view_setList]

theorem stage_newAgpTexture (hfull : w.store.Full (fun _ => 0) ∅ ∅) (h : w.Accounts)
    (pixels textureSize : ℕ) : Stage w (w.newAgpTexture e k pixels textureSize).1 k
      (w.newAgpTexture e k pixels textureSize).2 := by
  unfold newAgpTexture
  dsimp only
  split_ifs
  · exact Back.refl hfull h
  · exact Back.refl hfull h
  · exact stage_commonAgp hfull h
  rcases Store.searchAgp_cases e.toEnv w.store (pixels % pageSize) (pixels - pixels % pageSize)
    (roundPage (pixels % pageSize + textureSize)) (w.store.shareds k).textureList with
    habsent | ⟨t, ht, x, hx, hagp, hreuse | ⟨md, hmd⟩⟩
  · rw [habsent]
    exact stage_wrapAgp hfull h
  · rw [hreuse]
    dsimp only
    rw [askPersistent_eq]
    have hagp : w.store.IsAgp k t := by
      obtain ⟨y, hy, hyk⟩ := hfull.inv.listed ht
      exact ⟨x, hx, hagp, Option.some.inj (hy.symm.trans hx) ▸ hyk⟩
    split_ifs
    · exact ⟨hagp, .inl (.refl hfull h)⟩
    · exact ⟨hagp, .inl (back_moveToHead hfull h ht)⟩
  · rw [hmd]
    have hback := back_memChanged hfull h hx hagp
    cases md with
    | true => exact .of_back hback (stage_commonAgp hback.full hback.since.accounts)
    | false => exact .of_back hback (stage_wrapAgp hback.full hback.since.accounts)

/-! ### Failures -/

theorem md_discard {u : ℕ} (hu : u ≠ t) : (w.discard t).md u = w.md u := by
  unfold discard
  split
  · rfl
  · exact Function.update_of_ne hu ..

theorem md_deleteTexture {x : TextureBuffer} {u : ℕ} (hx : w.store.textures t = some x)
    (hl : x.linkedAgp = none) (hu : u ≠ t) : (w.deleteTexture k t).md u = w.md u := by
  rw [deleteTexture, deleteTextureInternal, hx]
  simp only [hl]
  rw [md_discard hu]
  cases x.type.isLinked <;> rfl

/-- An AGP texture that was made goes again. -/
theorem NewAgp.deleteTexture (h : NewAgp w w' p) (hinv : w.store.Inv fun _ => 0)
    {y : TextureBuffer} (hy : w'.store.textures p = some y) (hagp : y.type = .agp)
    (hhome : y.home = k) (hzero : (w'.store.sysObj y).refcount = 0) :
    Back w (w'.deleteTexture k p) ∅ := by
  have hl : y.linkedAgp = none := by
    cases hl : y.linkedAgp with
    | none => rfl
    | some l => simpa [hagp, TexType.isLinked] using (h.full.inv.linked hy hl).1
  have hlinks : w'.store.links p = 0 := by
    have hcount := h.full.refcount_eq hy
    omega
  have hstore : (w'.deleteTexture k p).store = w'.store.deleteTexture k p :=
    store_deleteTextureInternal ..
  have htextures : (w'.store.deleteTexture k p).textures =
      Function.update w'.store.textures p none := by
    rw [Store.deleteTexture, Store.delete_of_not_linked hy hl]
    exact Store.freeTexture_textures
  refine ⟨⟨Accounts.delete _ h.since.accounts p, ?_, ?_, ?_, ?_⟩, ?_, ?_⟩
  · rw [hstore, Store.deleteTexture, (Store.cut_deleteTextureInternal ..).1]
    exact h.since.next
  · intro u x hx hne
    have hx' := h.since.keeps hx hne
    rw [hstore, htextures, Function.update_of_ne, hx']
    rintro rfl
    exact hne (Option.some.inj (hx'.symm.trans hy) ▸ hagp)
  · intro u hu
    rw [md_deleteTexture hy hl (Nat.ne_of_lt (hu.trans_le h.fresh)), h.since.md u hu]
  · rw [Holdings.deleteTexture, returned_deleteTextureInternal, h.since.returned]
  · rw [hstore]
    have hfull := h.full.deleteUnlinked (d := w'.store.next) hy hhome hl rfl hlinks
    rwa [sdiff_self] at hfull
  · obtain ⟨z, hview⟩ := h.view
    have hnone : w.store.view p = none := Store.view_eq_none.mpr <| by
      cases hx : w.store.textures p with
      | none => rfl
      | some x => exact absurd (hinv.fresh hx) (Nat.not_lt.mpr h.fresh)
    rw [hstore, Store.deleteTexture, h.full.inv.view_deleteUnlinked hy hhome hl, hview,
      Function.update_idem, ← hnone, Function.update_eq_self]

/-- What is left of a call that fails. -/
theorem Stage.cleanAgp {p : Option ℕ} (h : Stage w w' k p) (hinv : w.store.Inv fun _ => 0) :
    Back w (w'.cleanAgp k p) ∅ := by
  cases p with
  | none => exact h
  | some p =>
    obtain ⟨⟨y, hy, hagp, hhome⟩, hback | hnew⟩ := h
    · have hlinks := hback.full.agp hy hagp (Set.notMem_empty p)
      have hcount := hback.full.refcount_eq hy
      rw [Holdings.cleanAgp, hy]
      dsimp only
      rw [if_neg (by omega)]
      exact hback
    · obtain ⟨z, hview⟩ := hnew.view
      have hzero : (w'.store.sysObj y).refcount = 0 := by
        have hp := congrFun hview p
        rw [Store.view, hy, Function.update_self, Option.map_some] at hp
        exact (Prod.mk.inj (Option.some.inj hp)).2
      rw [Holdings.cleanAgp, hy]
      dsimp only
      rw [if_pos hzero]
      exact hnew.deleteTexture hinv hy hagp hhome hzero

theorem isAgp_congr {m' : Store} (h : m'.view = m.view) (hp : m.IsAgp k p) : m'.IsAgp k p := by
  obtain ⟨y, hy, hagp, hhome⟩ := hp
  have hview := congrFun h p
  rw [Store.view, Store.view, hy, Option.map_some] at hview
  obtain ⟨z, hz, heq⟩ := Option.map_eq_some_iff.mp hview
  have hzy := (Prod.mk.inj heq).1
  exact ⟨z, hz, (congrArg TextureBuffer.type hzy).trans hagp,
    (congrArg TextureBuffer.home hzy).trans hhome⟩

/-- A step that changes nothing keeps the stage of a call. -/
theorem Stage.step {q : Option ℕ} (h : Stage w w₁ k q)
    (hstep : ∀ idle, w₁.store.Full (fun _ => 0) ∅ idle → Back w₁ w' idle) : Stage w w' k q := by
  cases q with
  | none => exact Back.trans h (hstep ∅ (Back.full h))
  | some p =>
    obtain ⟨hagp, hback | hnew⟩ := h
    · have hnext := hstep ∅ hback.full
      exact ⟨isAgp_congr hnext.view hagp, .inl (hback.trans hnext)⟩
    · have hnext := hstep {p} hnew.full
      exact ⟨isAgp_congr hnext.view hagp, .inr (hnew.trans hnext)⟩

theorem Stage.since {q : Option ℕ} (h : Stage w w' k q) : Since w w' := by
  cases q with
  | none => exact Back.since h
  | some p => exact h.2.elim Back.since NewAgp.since

/-- Only the AGP texture of the call can be idle. -/
theorem Stage.full {q : Option ℕ} (h : Stage w w' k q) :
    w'.store.Full (fun _ => 0) ∅ {p | q = some p} := by
  cases q with
  | none => exact (Back.full h).mono fun _ _ hmem => hmem.elim
  | some p =>
    obtain ⟨-, hback | hnew⟩ := h
    · exact hback.full.mono fun _ _ hmem => hmem.elim
    · exact hnew.full.mono fun _ _ hmem => congrArg some (Set.mem_singleton_iff.mp hmem).symm

/-- A texture that was just made is freed again. -/
theorem back_freeTexture {type : TexType} {env : Store.InitEnv} {z : TextureBuffer}
    (hsome : w.store.commonTextureInit k type env = (m, some t)) (hz : m.textures t = some z)
    (h : w.Accounts) (hfull : w.store.Full (fun _ => 0) ∅ idle) :
    Back w (w.setStore (m.freeTexture k t z)) idle := by
  have hinv := hfull.inv
  obtain ⟨rfl, id, hm, hm'⟩ : t = w.store.next ∧ ∃ id, Made w.store m k id z ∧
      m.Full (fun _ => 0) (insert w.store.next ∅) (insert w.store.next idle) := by
    rcases hfull.commonTextureInit (k := k) type env with hnone | ⟨m', id, i, hnew, hm, hm'⟩
    · cases hsome.symm.trans hnone
    · cases hsome.symm.trans hnew
      cases hz.symm.trans hm.texture
      exact ⟨rfl, id, hm, hm'⟩
  have htextures : (m.freeTexture k w.store.next z).textures =
      Function.update w.store.textures w.store.next none := by
    rw [Store.freeTexture_textures, hm.textures, Function.update_idem]
  have hold : ∀ {u x}, w.store.textures u = some x →
      (m.freeTexture k w.store.next z).textures u = some x := by
    intro u x hx
    rw [htextures, Function.update_of_ne (Nat.ne_of_lt (hinv.fresh hx)), hx]
  have hlinks : m.links w.store.next = 0 :=
    (hm.links _).trans (hinv.links_eq_zero (Made.not_live hinv))
  refine ⟨.setStore h ?_ (fun hx _ => hold hx) ?_, ?_, ?_⟩
  · rw [Store.freeTexture_next, hm.next]
    omega
  · rintro u ⟨x, hx⟩
    exact ⟨x, hold hx⟩
  · have hfree := hm'.freeTexture hm.texture hm.home hm.linkedAgp rfl hlinks (hm.not_listed hinv)
    rw [insert_empty_eq, sdiff_self] at hfree
    exact hfree.mono fun _ _ hmem => hmem.1.resolve_left hmem.2
  · have hnone : w.store.view w.store.next = none := Store.view_eq_none.mpr <| by
      cases hx : w.store.textures w.store.next with
      | none => rfl
      | some x => exact absurd (hinv.fresh hx) (Nat.lt_irrefl _)
    change (m.freeTexture k w.store.next z).view = w.store.view
    rw [hm'.inv.view_freeTexture hm.texture hm.home, hm.view, Function.update_idem, ← hnone,
      Function.update_eq_self]

/-! ### Whole calls -/

/-- What a call has done: all or nothing. -/
structure Outcome (w : Holdings) (k : ℕ) (r : Holdings × Option ℕ) : Prop where
  since : Since w r.1
  full : r.1.store.Full (fun _ => 0) ∅ ∅
  failed : r.2 = none → Back w r.1 ∅
  made : ∀ t, r.2 = some t →
    ∃ x, r.1.store.textures t = some x ∧ x.home = k ∧ x.type ≠ .agp

theorem Back.outcome (h : Back w w' ∅) : Outcome w k (w', none) :=
  ⟨h.since, h.full, fun _ => h, nofun⟩

theorem release_back (hmd : w.md t = none) :
    (((w.retain d).setMd t (some d)).release d).setMd t none = w := by
  simp only [retain, setMd, release, Function.update_idem, Function.update_self,
    Nat.add_sub_cancel, Function.update_eq_self]
  rw [← hmd, Function.update_eq_self]

/-- The store of a call that succeeds: the new texture `t` is in its place. -/
structure Placed (m m' : Store) (k t : ℕ) : Prop where
  full : m'.Full (fun _ => 0) ∅ ∅
  next : m.next ≤ m'.next
  lt : t < m'.next
  keeps : ∀ {u x}, m.textures u = some x → m'.textures u = some x
  made : ∃ x, m'.textures t = some x ∧ x.home = k ∧ x.type ≠ .agp

theorem Placed.since (h : Placed w.store m k t) (hw : w.Accounts) : Since w (w.setStore m) := by
  refine .setStore hw h.next (fun hx _ => h.keeps hx) ?_
  rintro u ⟨x, hx⟩
  exact ⟨x, h.keeps hx⟩

theorem Placed.outcome (h : Placed w₁.store m k t) (hsince : Since w w₁) :
    Outcome w k (w₁.setStore m, some t) :=
  ⟨hsince.trans (h.since hsince.accounts), h.full, nofun, fun _ ht => Option.some.inj ht ▸ h.made⟩

/-- A texture with a descriptor of its own. -/
theorem Placed.outcome_back (h : Placed w₁.store m k t) (hsince : Since w w₁)
    (ht : w₁.store.next ≤ t) :
    Outcome w k (((w₁.setStore m).retain d).setMd t (some d), some t) := by
  have hstore := h.since hsince.accounts
  obtain ⟨x, hx, -⟩ := h.made
  have hback : (((w₁.setStore m).retain d).setMd t (some d)).Accounts :=
    hstore.accounts.back ⟨x, hx⟩ h.lt (hsince.accounts.md_of_next_le ht)
  have hafter : Since w₁ (((w₁.setStore m).retain d).setMd t (some d)) := by
    refine ⟨hback, hstore.next, hstore.keeps, fun u hu => ?_, rfl⟩
    exact Function.update_of_ne (Nat.ne_of_lt (hu.trans_le ht)) ..
  exact ⟨hsince.trans hafter, h.full, nofun, fun _ ht => Option.some.inj ht ▸ h.made⟩

section Place

variable {id l : ℕ} {x y z : TextureBuffer} {m' : Store}

theorem placed_linkTextureAtHead (hinv : m.Inv fun _ => 0) (hm : Made m m' k id z)
    (hfull : m'.Full (fun _ => 0) (insert m.next ∅) (insert m.next ∅)) (hz : z.type ≠ .agp) :
    Placed m (m'.linkTextureAtHead k m.next) k m.next := by
  have hlink := hfull.linkTextureAtHead hm.texture hm.home (hm.not_listed hinv k)
  rw [insert_empty_eq, sdiff_self] at hlink
  have hnext : (m'.linkTextureAtHead k m.next).next = m.next + 1 := hm.next
  refine ⟨hlink.mono fun {t x} hx hagp ht => ?_, by omega, by omega,
    fun hx => hm.texture_other hinv hx, z, hm.texture, hm.home, hz⟩
  obtain rfl := Set.mem_singleton_iff.mp ht
  exact absurd (Option.some.inj (hm.texture.symm.trans hx) ▸ hagp) hz

/-- A new texture is linked to an AGP texture. -/
theorem placed_linkAgp (hinv : m.Inv fun _ => 0)
    (hfull : m'.Full (fun _ => 0) (insert m.next ∅) (insert m.next {l}))
    (hnext : m'.next = m.next + 1) (htextures : m'.textures = Function.update m.textures m.next x)
    (hlist : m.next ∉ (m'.shareds k).textureList) (hl : m.IsAgp k l) (hk : x.home = k)
    (hxl : x.linkedAgp = none) (hxt : x.type.isLinked = true) :
    Placed m ((m'.linkAgp m.next l).linkTextureAtHead k m.next) k m.next := by
  obtain ⟨y, hy, hyt, hyk⟩ := hl
  have hx : m'.textures m.next = some x := by rw [htextures, Function.update_self]
  have hold : ∀ {u z}, m.textures u = some z → u ≠ m.next ∧ m'.textures u = some z := by
    intro u z hz
    have hu := Nat.ne_of_lt (hinv.fresh hz)
    exact ⟨hu, by rw [htextures, Function.update_of_ne hu, hz]⟩
  have hlinked := hfull.linkAgp hx hxl hxt ⟨y, (hold hy).2, hyt, hyk.trans hk.symm⟩ (by decide)
  have heq : m'.linkAgp m.next l =
      (m'.setTexture m.next (some { x with linkedAgp := some l })).fetchAndAdd y 1 := by
    simp only [Store.linkAgp, hx, (hold hy).2]
  have hself : (m'.linkAgp m.next l).textures m.next = some { x with linkedAgp := some l } := by
    rw [heq]
    exact Store.setTexture_self ..
  have hout : m.next ∉ ((m'.linkAgp m.next l).shareds k).textureList := by
    rw [heq, Store.fetchAndAdd, Store.setSysObj_textureList]
    exact hlist
  have hhead := hlinked.linkTextureAtHead hself hk hout
  rw [insert_empty_eq, sdiff_self] at hhead
  have hagp : x.type ≠ .agp := by
    intro hagp
    simp [hagp, TexType.isLinked] at hxt
  have hnext' : ((m'.linkAgp m.next l).linkTextureAtHead k m.next).next = m.next + 1 := by
    rw [heq]
    exact hnext
  refine ⟨hhead.mono fun {t z} hz hzt ht => ?_, by omega, by omega, fun {u z} hz => ?_,
    _, hself, hk, hagp⟩
  · obtain rfl := ht.1.resolve_right ht.2
    exact hagp ((congrArg TextureBuffer.type (Option.some.inj (hself.symm.trans hz))).trans hzt)
  · rw [heq]
    change (m'.setTexture m.next _).textures u = _
    rw [Store.setTexture_textures, if_neg (hold hz).1, (hold hz).2]

end Place

theorem outcome_newTextureOver {type : TexType} {q : Option ℕ} (hinv : w.store.Inv fun _ => 0)
    (h : Stage w w₁ k q) (hq : ∀ l, q = some l → type.isLinked = true) (htype : type ≠ .agp) :
    Outcome w k (w₁.newTextureOver e k type q) := by
  have hinv₁ := h.full.inv
  have haccounts := h.since.accounts
  unfold newTextureOver
  split
  · exact (h.cleanAgp hinv).outcome
  rcases h.full.commonTextureInit (k := k) type e.init with hnone | ⟨m, id, i, hsome, hm, hm'⟩
  · rw [hnone]
    exact (h.cleanAgp hinv).outcome
  rw [hsome]
  dsimp only
  rw [hm.texture]
  dsimp only
  have hfreed := h.step fun idle => back_freeTexture hsome hm.texture haccounts
  split
  · exact (hfreed.cleanAgp hinv).outcome
  split
  · have hmd : (w₁.setStore m).md w₁.store.next = none := haccounts.md_of_next_le le_rfl
    rw [release_back hmd]
    exact (hfreed.cleanAgp hinv).outcome
  cases q with
  | none =>
    have hplaced := placed_linkTextureAtHead hinv₁ hm
      (hm'.mono fun _ _ hmem => hmem.imp_right fun h => nomatch h) htype
    exact hplaced.outcome_back h.since le_rfl
  | some l =>
    have hplaced := placed_linkAgp hinv₁
      (hm'.mono fun _ _ hmem => hmem.imp_right fun h => (Option.some.inj h).symm) hm.next
      hm.textures (hm.not_listed hinv₁ k) h.1 rfl rfl (hq l rfl)
    exact hplaced.outcome_back h.since le_rfl

theorem outcome_newTexture (hfull : w.store.Full (fun _ => 0) ∅ ∅) (h : w.Accounts)
    (size₁ pixels textureSize : ℕ) :
    Outcome w k (w.newTexture e k size₁ pixels textureSize) := by
  have hstart : Stage w w k none := Back.refl hfull h
  unfold newTexture
  split_ifs
  · have hagp := stage_newAgpTexture (k := k) (e := e) hfull h pixels textureSize
    rcases hr : w.newAgpTexture e k pixels textureSize with ⟨w₁, _ | p⟩ <;> rw [hr] at hagp
    · exact Back.outcome hagp
    · exact outcome_newTextureOver hfull.inv hagp (fun _ _ => rfl) nofun
  · exact outcome_newTextureOver hfull.inv hstart nofun nofun
  · exact outcome_newTextureOver hfull.inv hstart nofun nofun

theorem outcome_newAgprefTexture (hfull : w.store.Full (fun _ => 0) ∅ ∅) (h : w.Accounts)
    (pixels₁ pixels₂ textureSize : ℕ) :
    Outcome w k (w.newAgprefTexture e k pixels₁ pixels₂ textureSize) := by
  unfold newAgprefTexture
  have hagp := stage_newAgpTexture (k := k) (e := e) hfull h pixels₂ textureSize
  rcases hr : w.newAgpTexture e k pixels₂ textureSize with ⟨w₁, _ | p⟩ <;> rw [hr] at hagp
  · exact Back.outcome hagp
  dsimp only at hagp ⊢
  have hinv₁ := hagp.full.inv
  rcases hagp.full.commonTextureInit (k := k) .agpref e.init with
    hnone | ⟨m, id, i, hsome, hm, hm'⟩
  · rw [hnone]
    exact (hagp.cleanAgp hfull.inv).outcome
  rw [hsome]
  obtain ⟨y, hy, -⟩ := hagp.1
  simp only [hm.texture, hm.texture_other hinv₁ hy]
  have hidle : m.Full (fun _ => 0) (insert w₁.store.next ∅) (insert w₁.store.next {p}) :=
    hm'.mono fun _ _ hmem => hmem.imp_right fun h => (Option.some.inj h).symm
  -- `agp_addr` is written before the link
  generalize (if pixels₁ ≠ 0 then sub64 pixels₁ y.agpAddr else 0) = addr
  refine Placed.outcome ?_ hagp.since
  refine placed_linkAgp (x := ⟨.agpref, k, i, none, 0, addr, 0, false⟩) hinv₁
    (hidle.amend hm.texture rfl rfl rfl rfl) hm.next ?_ (hm.not_listed hinv₁ k) hagp.1 rfl rfl rfl
  rw [Store.setTexture, hm.textures, Function.update_idem]

end Cesvga2.Textures.Holdings
