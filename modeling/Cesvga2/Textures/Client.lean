import Mathlib.Logic.Relation
import Cesvga2.Textures.Create

/-! The registries against the client of a device, who makes and deletes textures and
writes to the system objects in between. The kernel reads a texture's name and the use
of a place back from there, so the registries are sound only as long as the client
leaves these alone; and `delete_texture` looks at no reference count. -/

namespace Cesvga2.Textures

open Cesvga2.GL (numTextureHandles)

/-- The calls that respect the references the kernel holds, `held` of them outside the
store: a texture is deleted by its id only when nothing refers to it, and a write to the
system object of a live texture leaves its name, its use and the low half of its
reference count. -/
def Call.Careful (held : ℕ → ℕ) (m : Store) : Call → Prop
  | .newTexture _ _ _ => True
  | .deleteTexture k textureId => ∀ t, m.findTextureBuffer k (u32 textureId) = some t →
      held t = 0 ∧ m.links t = 0
  | .writeSysObj k i o => ∀ t x, m.textures t = some x → x.home = k → x.slot = i →
      o.objectId = (m.sysObj x).objectId ∧ o.inUse = true ∧
        o.refcount % 2 ^ 16 = (m.sysObj x).refcount % 2 ^ 16

namespace Store

variable {m m' : Store} {held : ℕ → ℕ} {k t id : ℕ}

theorem Inv.find (h : m.Inv held) (hf : m.findTextureBuffer k id = some t) :
    ∃ x, m.textures t = some x ∧ x.home = k := by
  unfold findTextureBuffer at hf
  split_ifs at hf
  obtain ⟨-, x, hx, hk, -⟩ := h.handle hf
  exact ⟨x, hx, hk⟩

/-- One careful call of the client. -/
theorem Inv.exec (h : m.Inv held) (hb : ∀ t, held t + numTextureHandles + 1 < 2 ^ 16) (c : Call)
    (hc : c.Careful held m) : (m.exec c).Inv held := by
  cases c with
  | newTexture k d e => exact inv_deviceNewTexture e hb h d
  | deleteTexture k textureId =>
    simp only [Store.exec, Device.deleteTexture]
    split
    · exact h
    · rename_i t ht
      obtain ⟨x, hx, hk⟩ := h.find ht
      obtain ⟨hheld, hlinks⟩ := hc t ht
      exact h.deleteTexture hx hk hheld hlinks
  | writeSysObj k i o =>
    simp only [Store.exec, Store.writeSysObj]
    split_ifs
    · refine h.setSysObj o (fun t x hx hk hi => ?_) (fun _ _ _ _ => rfl) h.live
      obtain ⟨hid, huse, hr⟩ := hc t x hx hk hi
      exact ⟨hid, huse, hr.trans (h.count hx)⟩
    · exact h

/-- The shared objects of tasks that have made no texture yet. -/
def fresh (task : ℕ → ℕ) : Store :=
  ⟨fun _ => none, fun k => ⟨task k, fun _ => none, false, fun _ => .zero, []⟩, 0⟩

theorem inv_fresh (task : ℕ → ℕ) : (fresh task).Inv fun _ => 0 where
  handle := fun h => absurd h.symm (Option.some_ne_none _)
  named := fun h => absurd h.symm (Option.some_ne_none _)
  place := fun h => absurd h.symm (Option.some_ne_none _)
  listed := fun h => absurd h List.not_mem_nil
  nodup := fun _ => List.nodup_nil
  linked := fun h => absurd h.symm (Option.some_ne_none _)
  fresh := fun h => absurd h.symm (Option.some_ne_none _)
  count := fun h => absurd h.symm (Option.some_ne_none _)
  live := fun h => absurd h (Nat.lt_irrefl 0)

/-- Every entry of a handle table is a live texture, and no two live textures have one
system object. -/
def Registered (m : Store) : Prop :=
  (∀ k i t, (m.shareds k).handleTable i = some t → m.Live t) ∧
    ∀ t u x y, m.textures t = some x → m.textures u = some y → x.home = y.home →
      x.slot = y.slot → t = u

theorem Inv.registered (h : m.Inv held) : m.Registered := by
  constructor
  · intro k i t ht
    obtain ⟨-, x, hx, -⟩ := h.handle ht
    exact ⟨x, hx⟩
  · intro t u x y hx hy
    exact h.sysObj_inj hx hy

/-- A careful call, when no context is there to hold a texture. -/
def Step (m m' : Store) : Prop := ∃ c : Call, c.Careful (fun _ => 0) m ∧ m' = m.exec c

theorem registered_of_careful (task : ℕ → ℕ) (hr : Relation.ReflTransGen Step (fresh task) m) :
    m.Registered := by
  suffices hinv : m.Inv fun _ => 0 from hinv.registered
  induction hr with
  | refl => exact inv_fresh task
  | tail _ hstep ih =>
    obtain ⟨c, hc, rfl⟩ := hstep
    exact ih.exec (fun _ => by decide) c hc

/-- Every allocation succeeds and every descriptor is the one it was. -/
def kind : Env :=
  ⟨2 ^ 32, true, 4096, fun _ => .same, true, true, ⟨true, true⟩, ⟨true, true⟩, true, true, true⟩

/-- A vertex buffer of one page. -/
def vertexBuffer : NewTextureData := ⟨3, 1, 1, 0, 1, 0, 0, 0, 0⟩

def newVertexBuffer : Call := .newTexture 0 vertexBuffer kind

theorem textures_newVertexBuffer : ((fresh fun _ => 0).exec newVertexBuffer).textures =
    Function.update (fun _ => none) 0 (some ⟨.vb, 0, 0, none, 0, 0, 0, false⟩) := rfl

/-- The client takes two references to a new texture and deletes it. -/
theorem registered_newVertexBuffer :
    let write := Call.writeSysObj 0 0 ⟨0, 2 <<< 16, true⟩
    let m := ((fresh fun _ => 0).exec newVertexBuffer).exec write
    m.Registered ∧ (m.exec (.deleteTexture 0 0)).Registered ∧
      m.textures 0 = some ⟨.vb, 0, 0, none, 0, 0, 0, false⟩ ∧
      (m.exec (.deleteTexture 0 0)).textures 0 = none := by
  intro write m
  have hnew : Relation.ReflTransGen Step (fresh fun _ => 0)
      ((fresh fun _ => 0).exec newVertexBuffer) := .single ⟨newVertexBuffer, trivial, rfl⟩
  have hwrite : Relation.ReflTransGen Step (fresh fun _ => 0) m := by
    refine hnew.tail ⟨write, fun t x hx _ _ => ?_, rfl⟩
    rw [textures_newVertexBuffer, Function.update_apply] at hx
    split_ifs at hx
    cases hx
    decide +kernel
  refine ⟨registered_of_careful (fun _ => 0) hwrite, ?_, by decide +kernel, by decide +kernel⟩
  refine registered_of_careful (fun _ => 0) (hwrite.tail ⟨.deleteTexture 0 0, fun t ht => ?_, rfl⟩)
  have hfound : m.findTextureBuffer 0 (u32 0) = some 0 := by decide +kernel
  obtain rfl : 0 = t := Option.some.inj (hfound.symm.trans ht)
  decide +kernel

/-- A client that renames a texture before deleting it leaves its entry behind; one that
calls a place free gets it for a second texture. -/
theorem not_registered_written :
    ¬ (((fresh fun _ => 0).exec newVertexBuffer |>.exec (.writeSysObj 0 0 ⟨1, 0, true⟩)).exec
        (.deleteTexture 0 0)).Registered ∧
      ¬ (((fresh fun _ => 0).exec newVertexBuffer |>.exec (.writeSysObj 0 0 ⟨0, 0, false⟩)).exec
        newVertexBuffer).Registered := by
  constructor
  · set m := ((fresh fun _ => 0).exec newVertexBuffer |>.exec (.writeSysObj 0 0 ⟨1, 0, true⟩)).exec
      (.deleteTexture 0 0) with hm
    have hentry : (m.shareds 0).handleTable 0 = some 0 ∧ m.textures 0 = none := by
      rw [hm]
      decide +kernel
    rintro ⟨hlive, -⟩
    obtain ⟨x, hx⟩ := hlive 0 0 0 hentry.1
    rw [hentry.2] at hx
    exact Option.some_ne_none x hx.symm
  · set m := ((fresh fun _ => 0).exec newVertexBuffer |>.exec (.writeSysObj 0 0 ⟨0, 0, false⟩)).exec
      newVertexBuffer with hm
    have hboth : m.textures 0 = some ⟨.vb, 0, 0, none, 0, 0, 0, false⟩ ∧
        m.textures 1 = some ⟨.vb, 0, 0, none, 0, 0, 0, false⟩ := by
      rw [hm]
      decide +kernel
    rintro ⟨-, hone⟩
    exact absurd (hone 0 1 _ _ hboth.1 hboth.2 rfl rfl) (by decide)

end Store

end Cesvga2.Textures
