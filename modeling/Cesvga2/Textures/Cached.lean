import Cesvga2.Runs.Prefix
import Cesvga2.Textures.Hosts

/-! Which cached ids still name the surface they were cached for. A texture has at most one host
surface of its own, from its first use until it is deleted, and its name is not used again. So the
id that `SAMPLER_STATE` binds names the surface that it named when `MAP_STATE` cached it exactly if
whoever had that surface has kept it since. Nothing takes an id out of the cache when its texture
goes. -/

namespace Cesvga2.Textures

open Cesvga2.GL (Token noTexture)
open Cesvga2.IPP (stateOf)
open Cesvga2.Leases (Table)
open Cesvga2.Loops (Meets)

/-! ### What the actions do to the textures -/

namespace World

variable {n : ℕ} {w : World n} {c : Fin n} {i : Slot} {k t id : ℕ} {e : TokenEnv} {p : ℕ → ℕ}

open Store (Changed changed_deref changed_deleteTexture changed_deleteTextures changed_exec)

theorem changed_dropSlot : Changed w.store (w.dropSlot c k i).store := by
  unfold dropSlot
  split
  · exact .refl _
  · exact changed_deref fun _ => changed_deleteTexture

theorem changed_dropSlots (is : List Slot) : Changed w.store (w.dropSlots c k is).store := by
  induction is generalizing w with
  | nil => exact .refl _
  | cons i is ih => exact changed_dropSlot.trans ih

theorem changed_takeSlot : Changed w.store (w.takeSlot c i t).store := by
  unfold takeSlot
  split
  · exact .refl _
  · exact .of_textures rfl rfl

theorem changed_releaseClient : Changed w.store (w.releaseClient c k id).store := by
  unfold releaseClient
  split
  · exact .refl _
  · exact changed_deref fun _ => changed_deleteTexture

theorem changed_markInUse : Changed w.store (w.markInUse k e id).store := by
  unfold markInUse
  split
  · exact .refl _
  split
  · exact .refl _
  · split_ifs
    · exact .of_textures rfl rfl
    · exact .refl _

theorem changed_textureLoop (is : List Slot) (q : ℕ) :
    Changed w.store (textureLoop c k p w is q).store := by
  induction is generalizing w q with
  | nil => exact .refl _
  | cons i is ih =>
    unfold textureLoop
    dsimp only
    split_ifs
    · split
      · exact changed_dropSlot
      · exact changed_dropSlot.trans (changed_takeSlot.trans (ih _))
    · exact changed_dropSlot.trans (ih _)

theorem changed_bindLoop (is : List Slot) (q : ℕ) :
    Changed w.store (bindLoop c k p w is q).store := by
  induction is generalizing w q with
  | nil => exact .refl _
  | cons i is ih =>
    unfold bindLoop
    split_ifs
    · exact ih _
    · split
      · exact .refl _
      · exact changed_takeSlot.trans (ih _)

theorem changed_bindFBO (b : Fbo) : Changed w.store (w.bindFBO c k e b p).store := by
  unfold bindFBO
  split_ifs
  · exact (changed_dropSlots _).trans (changed_bindLoop _ _)
  · exact changed_bindLoop (w := w.setFbo c b true) _ _
  · exact .refl _

theorem changed_unbindFBO (b : Fbo) : Changed w.store (w.unbindFBO c k b).store := by
  unfold unbindFBO
  split_ifs
  · exact changed_dropSlots _
  · exact .refl _

theorem changed_process (t : Token) : Changed w.store (w.process c k e p t).store := by
  cases t with
  | textureVolatile => exact changed_releaseClient
  | textureNonVolatile => exact changed_markInUse.trans changed_releaseClient
  | bindDrawFBO => exact changed_bindFBO .draw
  | bindReadFBO => exact changed_bindFBO .read
  | unbindDrawFBO => exact changed_unbindFBO .draw
  | unbindReadFBO => exact changed_unbindFBO .read
  | texture => exact changed_textureLoop units 2
  | noTex =>
    simp only [process]
    split_ifs
    · exact changed_releaseClient
    · exact changed_dropSlot
  | vertexBuffer =>
    simp only [process]
    split <;> exact .refl _
  | texSubImage2D => exact changed_releaseClient
  | copyPixelsDst => exact changed_releaseClient
  | copyPixelsSrcFBO => exact changed_releaseClient
  | asyncReadDrawBuffer => exact changed_releaseClient
  | _ => exact .refl _

theorem changed_cleanupSlots (is : List Slot) (s : World n × List ℕ) :
    Changed s.1.store (is.foldl (cleanupSlot c) s).1.store := by
  induction is generalizing s with
  | nil => exact .refl _
  | cons i is ih =>
    refine Changed.trans ?_ (ih _)
    unfold cleanupSlot
    split
    · exact .refl _
    split
    · exact .refl _
    · exact .of_textures rfl rfl

theorem changed_exec_world (a : Action n) : Changed w.store (w.exec a).store := by
  cases a with
  | device call => exact changed_exec w.store call
  | connectClient c k =>
    simp only [World.exec, connectClient]
    split_ifs <;> exact .refl _
  | token c lion e p =>
    simp only [World.exec, token]
    split
    · exact changed_process _
    · exact .refl _
  | cleanupApp c =>
    simp only [World.exec, cleanupApp]
    split
    · exact .refl _
    · have hslots := changed_cleanupSlots (c := c) (List.finRange 21)
        ((w.setFbo c .draw false).setFbo c .read false, [])
      exact Changed.trans hslots (changed_deleteTextures _)

end World

/-! ### Host surfaces -/

namespace Hosts

variable {T T₀ : Hosts} {m m' : Store} {o : Holder} {t i : ℕ}

/-- The host surfaces of textures are those of live ones, and a texture that has lost one is
gone for good. -/
structure Of (T : Hosts) (m : Store) : Prop where
  sound : T.Sound
  live : ∀ {o t i}, o.textureOf = some t → T.id o = some i → m.Live t
  dead : ∀ {o t}, o.textureOf = some t → T.lost o ≠ 0 → t < m.next ∧ ¬ m.Live t

/-- The host surfaces at an earlier time. -/
structure Past (T₀ T : Hosts) : Prop where
  sound : T₀.Sound
  since : Table.Since T₀ T
  unlost : ∀ {o t i}, o.textureOf = some t → T₀.id o = some i → T₀.lost o = 0

theorem Of.past (h : T.Of m) : Past T T where
  sound := h.sound
  since := .refl T
  unlost := by
    intro o t i ho hi
    by_contra hlost
    exact (h.dead ho hlost).2 (h.live ho hi)

/-- Who had a surface then has it still exactly if nothing was lost since; for a texture, if it
has not been deleted. -/
theorem Of.same_iff (h : T.Of m) (hp : Past T₀ T) {b : Bound} (hc : b.cached = T₀)
    (hh : b.hosts = T) (hs : b.store = m) : b.Denotes ↔ b.Kept := by
  subst hc hh hs
  refine imp_congr_right fun _ => ?_
  rw [hp.since.same_iff hp.sound]
  refine exists_congr fun o => and_congr_right fun hid => ?_
  unfold Bound.Keeps
  split
  · rename_i t ho
    rw [hp.unlost ho hid]
    constructor
    · intro hlost
      exact h.live ho (hp.since.kept hid (hlost.trans (hp.unlost ho hid).symm)).1
    · intro hlive
      by_contra hlost
      exact (h.dead ho hlost).2 hlive
  · rfl

/-! ### Finalizing textures -/

/-- The holders that go with the textures of a list. -/
def surfacesOf (ts : List ℕ) : List Holder := ts.flatMap fun t => [.yuvShadow t, .texture t]

theorem mem_surfacesOf {ts : List ℕ} : o ∈ surfacesOf ts ↔ ∃ t ∈ ts, o.textureOf = some t := by
  rw [surfacesOf, List.mem_flatMap]
  refine exists_congr fun t => and_congr_right fun _ => ?_
  cases o <;> simp [Holder.textureOf]

theorem foldl_finalizeTexture (ts : List ℕ) :
    ts.foldl finalizeTexture T = T.releaseAll (surfacesOf ts) := by
  induction ts generalizing T with
  | nil => rfl
  | cons t ts ih =>
    rw [List.foldl_cons, ih]
    rfl

/-- The holders that `finalizeDeleted` makes let go. -/
def goners (T : Hosts) (m : Store) : List Holder :=
  surfacesOf ((T.holders.filterMap Holder.textureOf).filter fun t => (m.textures t).isNone)

theorem finalizeDeleted_eq : T.finalizeDeleted m = T.releaseAll (T.goners m) :=
  foldl_finalizeTexture _

theorem not_live_of_mem_goners (ho : o.textureOf = some t) (h : o ∈ T.goners m) : ¬ m.Live t := by
  obtain ⟨u, hu, hou⟩ := mem_surfacesOf.mp h
  obtain rfl : t = u := Option.some.inj (ho.symm.trans hou)
  rintro ⟨x, hx⟩
  have := (List.mem_filter.mp hu).2
  rw [hx] at this
  cases this

theorem live_of_not_mem_goners (ho : o.textureOf = some t) (hmem : o ∈ T.holders)
    (h : o ∉ T.goners m) : m.Live t := by
  cases hx : m.textures t with
  | some x => exact ⟨x, hx⟩
  | none =>
    refine absurd (mem_surfacesOf.mpr ⟨t, List.mem_filter.mpr ⟨?_, ?_⟩, ho⟩) h
    · exact List.mem_filterMap.mpr ⟨o, hmem, ho⟩
    · rw [hx]
      rfl

theorem Of.finalizeDeleted (h : T.Of m) (hm : m.Named) (hc : Store.Changed m m') :
    (T.finalizeDeleted m').Of m' := by
  rw [finalizeDeleted_eq]
  refine ⟨h.sound.releaseAll _, ?_, ?_⟩
  · intro o t i ho hi
    rw [Table.releaseAll_id] at hi
    split_ifs at hi with hmem
    exact live_of_not_mem_goners ho (h.sound.holders hi) hmem
  · intro o t ho hlost
    have hbefore : t < m.next := by
      by_cases hzero : T.lost o = 0
      · -- something was lost just now, so there was a surface and a live texture
        cases hi : T.id o with
        | none => exact absurd ((Table.releaseAll_lost_of_none _ hi).trans hzero) hlost
        | some i =>
          obtain ⟨x, hx⟩ := h.live ho hi
          exact hm t x hx
      · exact (h.dead ho hzero).1
    refine ⟨hbefore.trans_le hc.grown.next, ?_⟩
    by_cases hmem : o ∈ T.goners m'
    · exact not_live_of_mem_goners ho hmem
    · rw [Table.releaseAll_lost _ hmem] at hlost
      rintro ⟨x', hx'⟩
      obtain ⟨x, hx, -⟩ := hc.grown.home hx' hbefore
      exact (h.dead ho hlost).2 ⟨x, hx⟩

theorem Past.finalizeDeleted (h : Past T₀ T) (hT : T.Sound) :
    Past T₀ (T.finalizeDeleted m) := by
  rw [finalizeDeleted_eq]
  exact ⟨h.sound, h.since.releaseAll _ h.sound hT, h.unlost⟩

/-! ### Creating and destroying -/

/-- A step that leaves the surfaces of textures alone or gives one to a live texture. -/
structure Steps (T : Hosts) (m : Store) (T' : Hosts) : Prop where
  of : T.Of m → T'.Of m
  past : ∀ {T₀}, T.Of m → Past T₀ T → Past T₀ T'

theorem Steps.refl : Steps T m T := ⟨id, fun _ => id⟩

theorem Steps.trans {T' T'' : Hosts} (h : Steps T m T') (h' : Steps T' m T'') : Steps T m T'' :=
  ⟨fun hT => h'.of (h.of hT), fun hT hp => h'.past (h.of hT) (h.past hT hp)⟩

theorem steps_acquire (ho : ∀ t, o.textureOf = some t → m.Live t) : Steps T m (T.acquire o i) where
  of h := by
    refine ⟨h.sound.acquire, ?_, ?_⟩
    · intro p t j hp hj
      by_cases hpo : p = o
      · exact ho t (hpo ▸ hp)
      · rw [Table.acquire_id hpo] at hj
        exact h.live hp hj
    · intro p t hp hlost
      rw [Table.acquire_lost] at hlost
      exact h.dead hp hlost
  past h hp := ⟨hp.sound, hp.since.acquire hp.sound h.sound, hp.unlost⟩

theorem steps_apply (op : HostOp) : Steps T m (T.apply op) := by
  unfold Hosts.apply
  split_ifs with hop
  · exact .refl
  have hnone : ∀ {p t}, p.textureOf = some t → p ≠ op.holder := by
    rintro p t hp rfl
    exact hop (by rw [hp]; rfl)
  cases op with
  | createSurface o sid =>
    refine steps_acquire fun t ho => ?_
    exact absurd rfl (hnone ho)
  | resizeSurface o =>
    dsimp only [HostOp.holder] at hnone ⊢
    refine ⟨fun h => ⟨h.sound.replace, ?_, ?_⟩,
      fun h hp => ⟨hp.sound, hp.since.replace hp.sound h.sound, hp.unlost⟩⟩
    · intro p t j hp hj
      rw [Table.replace_id] at hj
      exact h.live hp hj
    · intro p t hp hlost
      rw [Table.replace_lost (hnone hp)] at hlost
      exact h.dead hp hlost
  | destroySurface o =>
    dsimp only [HostOp.holder] at hnone ⊢
    refine ⟨fun h => ⟨h.sound.release, ?_, ?_⟩,
      fun h hp => ⟨hp.sound, hp.since.release hp.sound h.sound, hp.unlost⟩⟩
    · intro p t j hp hj
      rw [Table.release_id, if_neg (hnone hp)] at hj
      exact h.live hp hj
    · intro p t hp hlost
      rw [Table.release_lost (hnone hp)] at hlost
      exact h.dead hp hlost

theorem steps_foldl_apply (ops : List HostOp) : Steps T m (ops.foldl Hosts.apply T) := by
  induction ops generalizing T with
  | nil => exact .refl
  | cons op ops ih => exact (steps_apply op).trans ih

theorem steps_createHostSurface (hx : m.Live t) (e : SurfaceEnv) (type : TexType) :
    Steps T m (T.createHostSurface e type t) := by
  have htex : Steps T m (T.acquire (.texture t) e.sid) := by
    refine steps_acquire fun u hu => ?_
    cases hu
    exact hx
  unfold createHostSurface
  cases type with
  | agpref =>
    dsimp only
    split_ifs
    · exact .refl
    · refine htex.trans (steps_acquire fun u hu => ?_)
      cases hu
      exact hx
    · exact htex
    · exact .refl
    · exact .refl
  | std | oob =>
    dsimp only
    split_ifs <;> first | exact .refl | exact htex
  | _ => split_ifs <;> exact .refl

/-- The surface id of a texture is the one that `create_host_surface_for_texture` leaves in it. -/
theorem createHostSurface_id (e : SurfaceEnv) (headers : ℕ → Header) (tx : Texture)
    (hid : T.id (.texture t) = tx.surfaceId) (hfree : T.object e.sid = none) :
    Meets (fun r => (T.createHostSurface e tx.type t).id (.texture t) = r.2.1.surfaceId)
      (fun _ => True) (createHostSurfaceForTexture e headers tx) := by
  have htrue : ∀ x : Except Fault Define, Meets (fun _ => True) (fun _ => True) x := by
    intro x
    cases x <;> trivial
  unfold createHostSurfaceForTexture createHostSurface
  refine Meets.ite (fun hp => ?_) fun hp => ?_
  · rw [if_pos hp]
    exact hid
  rw [if_neg hp]
  refine Meets.ite (fun htype => ?_) fun _ => ?_
  · rw [htype]
    exact (congrArg (Table.id · _) (ite_self T)).trans hid
  refine Meets.ite (fun hs => ?_) fun hs => ?_
  · rw [hid, if_pos hs]
    exact hid
  have hnew : (T.acquire (.texture t) e.sid).id (.texture t) = some e.sid := by
    rw [Table.acquire, hid, hfree, if_neg (by simpa using hs)]
    exact Function.update_self ..
  rw [hid, if_neg hs]
  cases tx.type with
  | agpref =>
    dsimp only
    refine Meets.ite (fun hl => ?_) fun hl => ?_
    · rw [if_pos hl]
      change T.id _ = Texture.surfaceId (if e.needYuvShadow then _ else _)
      split_ifs <;> exact hid
    rw [if_neg hl]
    refine Meets.ite (fun hy => ?_) fun hy => ?_
    · refine (htrue _).bind fun _ _ => (htrue _).bind fun _ _ => ?_
      rw [if_pos hy]
      have hne : Holder.texture t ≠ .yuvShadow t := nofun
      exact (Table.acquire_id hne).trans hnew
    · refine (htrue _).bind fun _ _ => ?_
      rw [if_neg hy]
      exact hnew
  | std | oob =>
    dsimp only
    refine Meets.ite (fun hm => ?_) fun hm => Meets.ite (fun hl => ?_) fun hl => ?_
    · rw [if_pos hm]
      exact hid
    · rw [if_neg hm, if_pos hl]
      exact hid
    · rw [if_neg hm, if_neg hl]
      exact (htrue _).bind fun _ _ => hnew
  | _ => exact hid

end Hosts

/-! ### Runs -/

namespace Machine

variable {n : ℕ} {m : Machine n} {c : Fin n} {k : ℕ}

structure Inv (m : Machine n) : Prop where
  named : m.world.store.Named
  hosts : m.hosts.Of m.world.store
  past : ∀ c i, Hosts.Past ((m.streams c).cachedIn i) m.hosts
  log : ∀ b ∈ m.log, b.Denotes ↔ b.Kept

theorem inv_fresh (task : ℕ → ℕ) (owner : Fin n → ℕ) : (fresh task owner).Inv where
  named := nofun
  hosts := ⟨Table.sound_empty, nofun, fun _ h => absurd rfl h⟩
  past _ _ := ⟨Table.sound_empty, .refl _, nofun⟩
  log := nofun

theorem Inv.setWorld (h : m.Inv) {w : World n} (hw : Store.Changed m.world.store w.store) :
    (m.setWorld w).Inv where
  named := hw.named h.named
  hosts := h.hosts.finalizeDeleted h.named hw
  past c i := (h.past c i).finalizeDeleted h.hosts.sound
  log := h.log

theorem Inv.setHosts (h : m.Inv) {T : Hosts} (hT : Hosts.Steps m.hosts m.world.store T) :
    ({ m with hosts := T } : Machine n).Inv :=
  ⟨h.named, hT.of h.hosts, fun c i => hT.past h.hosts (h.past c i), h.log⟩

theorem Inv.setStream (h : m.Inv) {d : Downstream} (hd : ∀ i, Hosts.Past (d.cachedIn i) m.hosts) :
    (m.setStream c d).Inv := by
  refine ⟨h.named, h.hosts, fun c' i => ?_, h.log⟩
  by_cases hc : c' = c
  · rw [hc]
    change Hosts.Past ((Function.update m.streams c d c).cachedIn i) m.hosts
    rw [Function.update_self]
    exact hd i
  · change Hosts.Past ((Function.update m.streams c d c').cachedIn i) m.hosts
    rw [Function.update_of_ne hc]
    exact h.past c' i

theorem Inv.enqueue (h : m.Inv) (w : ℕ → ℕ) : (m.enqueue c w).Inv := h.setStream (h.past c)

/-- One command; what it binds was cached earlier, and what it caches is named now. -/
theorem Inv.execute (h : m.Inv) (e : CommandEnv) (w : ℕ → ℕ) : (m.execute c e w).Inv := by
  have hcached : ∀ i, Hosts.Past (if caches w i then m.hosts else (m.streams c).cachedIn i)
      m.hosts := by
    intro i
    split_ifs
    · exact h.hosts.past
    · exact h.past c i
  have hset := (h.setStream (c := c)
    (d := { m.streams c with
      binder := ((m.streams c).binder.exec e.ipp w).1
      cachedIn := fun i => if caches w i then m.hosts else (m.streams c).cachedIn i })
    hcached).setHosts (Hosts.steps_foldl_apply e.ops)
  refine ⟨hset.named, hset.hosts, hset.past, fun b hb => ?_⟩
  rcases List.mem_append.mp hb with hold | hnew
  · exact h.log b hold
  · unfold bound at hnew
    split_ifs at hnew
    · obtain ⟨s, -, rfl⟩ := List.mem_map.mp hnew
      exact h.hosts.same_iff (h.past c s.2) rfl rfl rfl
    · cases hnew

theorem Inv.executeAll (ws : List (ℕ → ℕ)) (h : m.Inv) (e : ℕ → CommandEnv) :
    (executeAll c ws e m).Inv := by
  induction ws generalizing m e with
  | nil => exact h
  | cons w ws ih => exact ih (h.execute (e 0) w) _

theorem Inv.submit (h : m.Inv) (e : ℕ → CommandEnv) : (m.submit c e).Inv := by
  have hall := h.executeAll (c := c) (m.streams c).pending e
  exact hall.setStream (hall.past c)

/-- Submitting leaves the contexts and the textures. -/
theorem executeAll_world (ws : List (ℕ → ℕ)) (e : ℕ → CommandEnv) :
    (executeAll c ws e m).world = m.world := by
  induction ws generalizing m e with
  | nil => rfl
  | cons w ws ih => exact ih _

theorem submit_world (e : ℕ → CommandEnv) : (m.submit c e).world = m.world :=
  executeAll_world _ e

theorem getTexture_world (u : UnitEnv) (t : ℕ) (x : TextureBuffer) :
    (m.getTexture c u t x).world = m.world := by
  unfold getTexture
  split_ifs
  · exact submit_world u.submit
  · rfl

theorem Inv.getTexture (h : m.Inv) (u : UnitEnv) {t : ℕ} {x : TextureBuffer}
    (hx : m.world.store.textures t = some x) : (m.getTexture c u t x).Inv := by
  unfold Machine.getTexture
  split_ifs
  · refine (h.submit (c := c) u.submit).setHosts ?_
    cases u.create with
    | none => exact .refl
    | some e =>
      refine Hosts.steps_createHostSurface ⟨x, ?_⟩ e x.type
      rw [submit_world]
      exact hx
  · exact h

theorem Inv.textureLoop (is : List Slot) (h : m.Inv) (u : Slot → UnitEnv) (p v : ℕ → ℕ)
    (q count : ℕ) : (textureLoop c k u p is q count v m).Inv := by
  induction is generalizing m v q count with
  | nil => exact h.enqueue _
  | cons i is ih =>
    have hdrop : (m.setWorld (m.world.dropSlot c k i)).Inv := h.setWorld World.changed_dropSlot
    unfold Machine.textureLoop
    dsimp only
    split_ifs
    · split
      · exact hdrop.setWorld (.refl _)
      · split
        · exact ih hdrop v _ _
        · rename_i x hx
          exact ih ((hdrop.getTexture (u i) hx).setWorld World.changed_takeSlot) _ _ _
    · exact ih hdrop v q count

/-- The contexts and the textures go their own way. -/
theorem textureLoop_world (is : List Slot) (u : Slot → UnitEnv) (p v : ℕ → ℕ) (q count : ℕ) :
    (textureLoop c k u p is q count v m).world = World.textureLoop c k p m.world is q := by
  induction is generalizing m v q count with
  | nil => rfl
  | cons i is ih =>
    unfold Machine.textureLoop World.textureLoop
    dsimp only [setWorld]
    split_ifs
    · cases hfind : (m.world.dropSlot c k i).store.findTextureBuffer k (p q) with
      | none => rfl
      | some t =>
        dsimp only
        cases hx : (m.world.dropSlot c k i).store.textures t with
        | none => rw [ih, World.takeSlot, hx]
        | some x =>
          dsimp only
          rw [ih, getTexture_world]
    · rw [ih]

theorem token_world (lion : Bool) (e : TokenEnv) (u : Slot → UnitEnv) (p : ℕ → ℕ) :
    (m.token c lion e u p).world =
      if (m.world.ctxs c).streamError then m.world else m.world.token c lion e p := by
  unfold Machine.token
  split_ifs
  · rfl
  · split
    · rename_i k hk ht
      rw [textureLoop_world, World.token, hk, ht]
      rfl
    · rfl

/-- Every valid id that a command binds to a sampler is among those that are looked at. -/
theorem mem_bound {e : IPP.Env} {w : ℕ → ℕ} {s sid : ℕ} (hv : isIdValid sid = true)
    (h : .texture s sid ∈ ((m.streams c).binder.exec e w).2) : ∃ b ∈ m.bound c w, b.sid = sid := by
  unfold IPP.Binder.exec at h
  cases hstate : stateOf (w 0) with
  | none =>
    rw [hstate] at h
    cases h
  | some st =>
    rw [hstate] at h
    cases st with
    | samplerState =>
      rw [bound, if_pos hstate]
      unfold IPP.Binder.samplerState at h
      rcases List.mem_append.mp h with hun | hbound
      · unfold IPP.Binder.unbindSamplers at hun
        split_ifs at hun
        · obtain ⟨i, -, hi⟩ := List.mem_map.mp hun
          cases hi
          cases hv
        · cases hun
      · obtain ⟨x, hx, hxs⟩ := List.mem_map.mp hbound
        obtain ⟨y, hy, rfl⟩ := List.mem_map.mp hx
        cases hxs
        exact ⟨_, List.mem_map.mpr ⟨y, hy, rfl⟩, rfl⟩
    | bufInfo =>
      unfold IPP.bufInfo at h
      dsimp only at h
      split_ifs at h <;> simp at h
    | _ => cases h

theorem Inv.token (h : m.Inv) (lion : Bool) (e : TokenEnv) (u : Slot → UnitEnv) (p : ℕ → ℕ) :
    (m.token c lion e u p).Inv := by
  unfold Machine.token
  split_ifs
  · exact h
  · split
    · exact h.textureLoop World.units u p p 2 0
    · exact h.setWorld (World.changed_exec_world (.token c lion e p))

theorem Inv.exec (h : m.Inv) (a : Event n) : (m.exec a).Inv := by
  cases a with
  | device call => exact h.setWorld (World.changed_exec_world _)
  | connectClient c k => exact h.setWorld (World.changed_exec_world _)
  | cleanupApp c => exact h.setWorld (World.changed_exec_world _)
  | start c =>
    have hset : (m.setWorld (m.world.setContext c
        { m.world.ctxs c with streamError := false })).Inv := h.setWorld (.refl _)
    exact hset.setStream (hset.past c)
  | token c lion e u p => exact h.token lion e u p
  | command c w =>
    simp only [Machine.exec]
    split_ifs
    · exact h
    · exact h.enqueue w
  | submit c e => exact h.submit e
  | createHostSurface t e =>
    simp only [Machine.exec]
    split
    · exact h
    · rename_i x hx
      exact h.setHosts (Hosts.steps_createHostSurface ⟨x, hx⟩ e x.type)
  | surface op => exact h.setHosts (Hosts.steps_apply op)

/-- In every run the valid ids that are bound name the surfaces they were cached for exactly if,
each time, whoever had the surface then has kept it. -/
theorem denotes_iff_kept (task : ℕ → ℕ) (owner : Fin n → ℕ) (l : List (Event n)) :
    (∀ b ∈ ((fresh task owner).run l).log, b.Denotes) ↔
      ∀ b ∈ ((fresh task owner).run l).log, b.Kept := by
  have h : ((fresh task owner).run l).Inv :=
    Runs.foldl_of_step (fun _ a hm => hm.exec a) (inv_fresh task owner) l
  exact forall₂_congr h.log

/-! ### A texture that goes -/

def plainCommand : ℕ → CommandEnv := fun _ => ⟨⟨true, true, 0⟩, []⟩

/-- A standard texture whose only reference is the client's. -/
def oneStandard : List (Event 1) :=
  [.connectClient 0 0, .device (.newTexture 0 ⟨8, 1, 1, 0, 1, 0, 1, 0, 0⟩ Store.kind),
    .device (.writeSysObj 0 0 ⟨0, 0x10000, true⟩)]

/-- The load of unit 0 creates host surface 7. -/
def loadSeven : Slot → UnitEnv :=
  fun _ => ⟨plainCommand, some ⟨true, 7, 0, false, true, .success⟩, none⟩

/-- A stream gives unit 0 the texture; the next one takes it away and binds sampler 0 to unit 0. -/
def staleSampler : List (Event 1) :=
  oneStandard ++
    [.start 0, .token 0 false World.calm loadSeven (World.words 32 [1, 0, 0, 0]),
      .submit 0 plainCommand,
      .start 0, .token 0 false World.calm loadSeven (World.words 36 [noTexture]),
      .command 0 fun k => [0x7D010003, 1, 0, 0, 0].getD k 0, .submit 0 plainCommand]

/-- The id 7 is bound when its surface, which it named when it was cached, has been destroyed. -/
theorem not_denotes_staleSampler :
    ¬ ∀ b ∈ ((fresh (fun _ => 0) fun _ => 0).run staleSampler).log, b.Denotes := by
  have hlog : ((fresh (fun _ => 0) fun _ => 0).run staleSampler).log.map
      (fun b => (b.sid, b.cached.object b.sid, b.hosts.object b.sid)) = [(7, some 0, none)] := by
    decide +kernel
  obtain ⟨b, hb, hsid⟩ := List.mem_map.mp (hlog ▸ List.mem_singleton_self _)
  rw [Prod.mk.injEq, Prod.mk.injEq] at hsid
  intro h
  obtain ⟨x, -, hx⟩ := h b hb (by rw [hsid.1]; rfl)
  rw [hsid.2.2] at hx
  cases hx

end Machine

end Cesvga2.Textures
