import Cesvga2.GL.Rewrite
import Cesvga2.Textures.Load

/-! The textures of a `Texture` token. The handler looks each texture up by its id, loads it and
writes its host surface to the entry, so an entry shows a texture as its own load has left it. -/

namespace Cesvga2.GL

open Cesvga2.IPP (Binder Regs Reached bitSelect)
open Cesvga2.Textures (Header Texture TransferEnv allocAndLoadTexture allocAndLoad_kept)

/-- `decipher_format`; 0 is `SVGA3D_FORMAT_INVALID`. -/
def decipherFormat (mapsurf mt : ℕ) : ℕ :=
  match mapsurf, mt with
  | 1, 1 | 1, 5 => 11
  | 1, 0 | 1, 4 => 32
  | 2, 0 => 3
  | 2, 1 => 5
  | 2, 2 => 6
  | 2, 3 => 14
  | 2, 5 => 27
  | 2, 6 => 21
  | 2, 8 => 13
  | 3, 0 => 2
  | 3, 2 => 1
  | 3, 4 => 28
  | 3, 7 => 30
  | 3, 8 => 26
  | 3, 10 => 31
  | 3, 11 => 40
  | 3, 12 => 39
  | 5, 0 => 42
  | 5, 1 => 43
  | 6, 0 => 15
  | 6, 1 => 17
  | 6, 2 => 19
  | _, _ => 0

/-- The format in the second dword of an entry. -/
def formatOf (d0 : ℕ) : ℕ := decipherFormat (bitSelect d0 7 3) (bitSelect d0 3 4)

/-- What a unit meets: the handle that goes with the texture it had, what the client has in the
system object of its new texture, and the rest of the driver during the load. -/
structure UnitEnv (D : Type) where
  deleted : Option ℕ
  vstate : BitVec 8
  pageoff : ℕ → BitVec 16
  pageon : ℕ → BitVec 16
  transfer : TransferEnv D
  headers : ℕ → Header
  device : D

/-- A texture with the drawable that it is linked to. -/
structure Tex where
  tx : Texture
  linked : Option GLSurface

namespace Tex

/-- The texture as `write_tex_data` sees it. -/
def host (x : Tex) : Host :=
  if x.tx.type = .surface then .surface x.linked else .texture (x.tx.surfaceId.getD idInvalid)

variable {D : Type} (u : UnitEnv D) (inUse : Bool) (d0 d1 : ℕ) (tx : Texture)

/-- The handler fills in the format before the load. -/
def setFormat : Texture :=
  if tx.surfaceFormat = 0 then { tx with surfaceFormat := formatOf d0 } else tx

/-- `get_texture` does not look at the result of the load. -/
def getTexture : Texture :=
  if inUse then
    match allocAndLoadTexture u.transfer u.headers
        { tx with vstate := u.vstate, pageoff := u.pageoff, pageon := u.pageon } u.device with
    | .ok (_, tx, _) => tx
    | .error _ => tx
  else tx

/-- What `write_tex_data` takes from the entry. -/
def describe : Texture :=
  let width := bitSelect d0 10 11 + 1
  let pitch := (d1 / 2 ^ 21 + 1) % 2 ^ 11 * 4
  { tx with
    surfaceFormat := formatOf d0
    width := width
    height := bitSelect d0 21 11 + 1
    depth := bitSelect d1 0 8 + 1
    pitch := if pitch ≠ 0 then pitch else if tx.pitch = 0 then width * tx.bytespp % 2 ^ 32
      else tx.pitch }

/-- A texture after its unit. -/
def enter (x : Tex) : Tex :=
  { x with tx := describe d0 d1 (getTexture u inUse (setFormat d0 x.tx)) }

end Tex

section Table

variable {D : Type} (e : Env) (w : ℕ → ℕ) (u : ℕ → UnitEnv D) (T : ℕ → Option Tex)

/-- The id that the entry of a unit names. -/
def nameAt (i : ℕ) : ℕ := w (entry w i)

/-- The drop of the texture that the unit had. -/
def UnitEnv.drop (u : UnitEnv D) (T : ℕ → Option Tex) : ℕ → Option Tex :=
  u.deleted.elim T fun id => Function.update T id none

/-- The textures by their ids after `i` units; there is one texture behind an id, whichever unit
looks it up. -/
def table : ℕ → ℕ → Option Tex
  | 0 => T
  | i + 1 =>
    let T' := (u i).drop (table i)
    if (w 1).testBit i then
      Function.update T' (nameAt w i) ((T' (nameAt w i)).map
        (Tex.enter (u i) (e.inUse i) (w (entry w i + 1)) (w (entry w i + 2))))
    else T'

/-- The answers to the handler are those of the table. -/
structure Env.Loads : Prop where
  found : ∀ i, (w 1).testBit i = true →
    e.findTextureBuffer i (nameAt w i) = ((u i).drop (table e w u T i) (nameAt w i)).isSome
  format : ∀ i, (w 1).testBit i = true → ∀ x ∈ (u i).drop (table e w u T i) (nameAt w i),
    e.formatInvalid i = decide (x.tx.surfaceFormat = 0)
  word : ∀ i, (w 1).testBit i = true → ∀ x ∈ table e w u T (i + 1) (nameAt w i),
    e.word i = x.host.writeTexData (nameAt w i)

end Table

/-! ### A texture keeps its host surface -/

section Kept

variable {D : Type} {e : Env} {w : ℕ → ℕ} {u : ℕ → UnitEnv D} {T : ℕ → Option Tex}

theorem Tex.getTexture_kept (v : UnitEnv D) (inUse : Bool) (tx : Texture) :
    (getTexture v inUse tx).type = tx.type ∧
      ((getTexture v inUse tx).surfaceId = tx.surfaceId ∨ tx.surfaceId = none ∧ inUse = true) := by
  unfold getTexture
  split_ifs with hin
  · have hkept := allocAndLoad_kept v.transfer v.headers
      { tx with vstate := v.vstate, pageoff := v.pageoff, pageon := v.pageon } v.device
    split
    next heq =>
      rw [heq] at hkept
      exact ⟨hkept.1, hkept.2.imp_right fun hnone => ⟨hnone, hin⟩⟩
    next => exact ⟨rfl, .inl rfl⟩
  · exact ⟨rfl, .inl rfl⟩

/-- An entry leaves the host surface of a texture, unless its load creates the first one. -/
theorem Tex.enter_host (v : UnitEnv D) (inUse : Bool) (d0 d1 : ℕ) (x : Tex) :
    (x.enter v inUse d0 d1).host = x.host ∨ x.host = .texture idInvalid ∧ inUse = true := by
  obtain ⟨htype, hsid⟩ := getTexture_kept v inUse (setFormat d0 x.tx)
  have hformat : (setFormat d0 x.tx).type = x.tx.type ∧
      (setFormat d0 x.tx).surfaceId = x.tx.surfaceId := by
    unfold setFormat
    split_ifs <;> exact ⟨rfl, rfl⟩
  rw [hformat.1] at htype
  rw [hformat.2] at hsid
  have hhost : (x.enter v inUse d0 d1).host = if x.tx.type = .surface then .surface x.linked
      else .texture ((getTexture v inUse (setFormat d0 x.tx)).surfaceId.getD idInvalid) := by
    rw [← htype]
    rfl
  rw [hhost, host]
  split_ifs with hsurface
  · exact .inl rfl
  · rcases hsid with hsame | ⟨hnone, hin⟩
    · exact .inl (by rw [hsame])
    · exact .inr ⟨by rw [hnone, Option.getD_none], hin⟩

theorem UnitEnv.mem_drop {v : UnitEnv D} {id : ℕ} {x : Tex} (h : x ∈ v.drop T id) : x ∈ T id := by
  unfold drop at h
  cases hdel : v.deleted with
  | none => rwa [hdel] at h
  | some k =>
    rw [hdel, Option.elim_some, Function.update_apply] at h
    split_ifs at h
    · cases h
    · exact h

/-- What a texture is after a unit, from what it was before. -/
theorem mem_table_succ {i id : ℕ} {y : Tex} (hy : y ∈ table e w u T (i + 1) id) :
    ∃ x ∈ table e w u T i id, y.host = x.host ∨ x.host = .texture idInvalid ∧
      (w 1).testBit i = true ∧ nameAt w i = id ∧ e.inUse i = true := by
  rw [table] at hy
  split_ifs at hy with hbit
  · rw [Function.update_apply] at hy
    split_ifs at hy with hid
    · obtain ⟨x, hx, rfl⟩ := Option.mem_map.mp hy
      refine ⟨x, hid ▸ UnitEnv.mem_drop hx, ?_⟩
      refine (x.enter_host _ _ _ _).imp_right fun h => ⟨h.1, hbit, hid.symm, h.2⟩
    · exact ⟨y, UnitEnv.mem_drop hy, .inl rfl⟩
  · exact ⟨y, UnitEnv.mem_drop hy, .inl rfl⟩

/-- A texture that is still there has the host surface it had, or had none and a later unit that
names it has loaded it. -/
theorem host_of_mem_table {i n id : ℕ} {x y : Tex} (hin : i ≤ n) (hx : x ∈ table e w u T i id)
    (hy : y ∈ table e w u T n id) : y.host = x.host ∨ x.host = .texture idInvalid ∧
      ∃ j, i ≤ j ∧ j < n ∧ (w 1).testBit j = true ∧ nameAt w j = id ∧ e.inUse j = true := by
  induction n, hin using Nat.le_induction generalizing y with
  | base =>
    obtain rfl : x = y := Option.mem_unique hx hy
    exact .inl rfl
  | succ n hin ih =>
    obtain ⟨z, hz, hstep⟩ := mem_table_succ hy
    rcases ih hz with hsame | ⟨hnone, j, hij, hjn, hj⟩
    · rw [hsame] at hstep
      exact hstep.imp_right fun h => ⟨h.1, n, hin, n.lt_succ_self, h.2⟩
    · exact .inr ⟨hnone, j, hij, hjn.trans n.lt_succ_self, hj⟩

/-- The texture that an entry names is there after the entry's unit. -/
theorem exists_mem_table {i : ℕ} (hbit : (w 1).testBit i = true) (hloads : e.Loads w u T)
    (hfind : e.findTextureBuffer i (nameAt w i) = true) :
    ∃ x, x ∈ table e w u T (i + 1) (nameAt w i) := by
  rw [hloads.found i hbit, Option.isSome_iff_exists] at hfind
  obtain ⟨x, hx⟩ := hfind
  refine ⟨x.enter (u i) (e.inUse i) (w (entry w i + 1)) (w (entry w i + 2)), ?_⟩
  rw [table, if_pos hbit, Function.update_self, hx]
  rfl

end Kept

/-- Once its handler is done, the pipeline processor takes the dwords of a token as whole
commands and comes to the next token. A `Texture` token caches for each unit the host surface
that the texture named by its entry has after the entry's own load. That is still its host
surface at the end of the token, unless it had none and a later entry loads it again. -/
theorem handle_decodes {D : Type} (lion : Bool) (e : Env) (s : Info) (t : Token)
    (ht : s.token lion = some t) (hs : t.Shaped s.word s.length)
    (hok : (s.handle lion e).streamError = false) (u : ℕ → UnitEnv D) (T : ℕ → Option Tex)
    (hloads : t = .texture → e.Loads s.word u T) (env : ℕ → IPP.Env) (r : Regs) (b : Binder) :
    ∃ m b' l,
      Reached env (s.handle lion e).word s.length (.start r b) m s.length b' l ∧
      (t = .texture → ∀ i,
        ((s.word 1).testBit i = true →
          ∃ x ∈ table e s.word u T (i + 1) (nameAt s.word i), x.host.unready = false →
            b'.surfaceIds i = x.host.sid false ∧
            ∀ y ∈ table e s.word u T 16 (nameAt s.word i), b'.surfaceIds i = y.host.sid false ∨
              x.host = .texture idInvalid ∧ ∃ j, i < j ∧ j < 16 ∧ (s.word 1).testBit j = true ∧
                nameAt s.word j = nameAt s.word i ∧ e.inUse j = true) ∧
        ((s.word 1).testBit i = false → b'.surfaceIds i = b.surfaceIds i)) := by
  obtain ⟨m, b', l, hreached, hids⟩ := handle_reached ht hs hok env r b
  refine ⟨m, b', l, hreached, fun htex i => ⟨fun hbit => ?_, (hids htex i).2⟩⟩
  obtain ⟨hlt, hword, hfind⟩ := (hids htex i).1 hbit
  obtain ⟨x, hx⟩ := exists_mem_table hbit (hloads htex) hfind
  refine ⟨x, hx, fun hready => ?_⟩
  have hcached : b'.surfaceIds i = x.host.sid false := by
    rw [hword, (hloads htex).word i hbit x hx]
    exact Host.getTexData_eq_sid hready
  refine ⟨hcached, fun y hy => ?_⟩
  rcases host_of_mem_table (by omega) hx hy with hsame | ⟨hnone, hlater⟩
  · exact .inl (by rw [hcached, hsame])
  · exact .inr ⟨hnone, hlater⟩

/-! A texture without a host surface that two entries name; `d0` is the second dword of the first
of them, 0 for no format. -/

def twice (d0 i : ℕ) : ℕ :=
  [1, 32 <<< 24 ||| 8, 3, 3, d0, 0, 3, 384, 0].getD (i - 7) 0

def twiceEnv (d0 : ℕ) : Env :=
  { oneTexture with
    inUse := fun _ => true
    formatInvalid := fun i => decide (i = 0 ∨ d0 = 0)
    word := fun i => if i = 0 ∧ d0 = 0 then idInvalid else 1 }

def twiceToken (d0 : ℕ) : Info := (Info.start (twice d0)).step false (twiceEnv d0)

def twiceUnit : UnitEnv Unit :=
  ⟨none, 0, fun _ => 3, fun _ => 0, Textures.smoothly, fun _ => ⟨1, 0, 8, 2, 8, 1⟩, ()⟩

def twiceTable (id : ℕ) : Option Tex :=
  if id = 3 then some ⟨{ Textures.cubeTexture with surfaceFormat := 0 }, none⟩ else none

theorem loads_twice {d0 : ℕ} (h : d0 = 0 ∨ d0 = 384) :
    (twiceEnv d0).Loads (twiceToken d0).word (fun _ => twiceUnit) twiceTable := by
  have hbit : ∀ i, ((twiceToken d0).word 1).testBit i = true → i = 0 ∨ i = 1 := by
    intro i hi
    have hmask : (twiceToken d0).word 1 = 3 := by
      rcases h with rfl | rfl <;> decide +kernel
    rw [hmask] at hi
    have := testBit_lt (n := 2) (by decide) hi
    omega
  constructor <;> intro i hi <;> obtain rfl | rfl := hbit i hi <;> obtain rfl | rfl := h <;>
    decide +kernel

theorem shaped_twice {d0 : ℕ} (h : d0 = 0 ∨ d0 = 384) :
    (twiceToken d0).token false = some .texture ∧
      Token.texture.Shaped (twiceToken d0).word (twiceToken d0).length ∧
      ((twiceToken d0).handle false (twiceEnv d0)).streamError = false := by
  obtain rfl | rfl := h
  · exact ⟨rfl, ⟨by decide +kernel, by decide +kernel⟩, by decide +kernel⟩
  · exact ⟨rfl, ⟨by decide +kernel, by decide +kernel⟩, by decide +kernel⟩

/-- With a format in the first entry its load creates the host surface. -/
theorem handle_decodes_twice : ∃ m b' l,
    Reached (fun _ => ⟨true, true, 0⟩) ((twiceToken 384).handle false (twiceEnv 384)).word 8
        (.start ⟨fun _ => 0, 0, ⟨0, 0, 0, 0⟩⟩ ⟨fun _ => idInvalid, fun _ => false⟩) m 8 b' l ∧
      b'.surfaceIds 0 = 1 ∧ b'.surfaceIds 2 = idInvalid := by
  obtain ⟨ht, hs, hok⟩ := shaped_twice (.inr rfl)
  obtain ⟨m, b', l, hreached, hids⟩ := handle_decodes false (twiceEnv 384) (twiceToken 384)
    .texture ht hs hok (fun _ => twiceUnit) twiceTable (fun _ => loads_twice (.inr rfl))
    (fun _ => ⟨true, true, 0⟩) ⟨fun _ => 0, 0, ⟨0, 0, 0, 0⟩⟩ ⟨fun _ => idInvalid, fun _ => false⟩
  refine ⟨m, b', l, hreached, ?_, (hids rfl 2).2 (by decide +kernel)⟩
  obtain ⟨x, hx, hcached⟩ := (hids rfl 0).1 (by decide +kernel)
  have hhost : x.host = .texture 1 := by
    have hmap := congrArg (Option.map Tex.host) hx
    exact Option.some.inj (hmap.symm.trans (by decide +kernel))
  rw [hhost] at hcached
  exact (hcached rfl).1

/-- Without one the second load does, after unit 0 was given none. -/
theorem not_caches_twice : ∃ (e : Env) (s : Info) (u : ℕ → UnitEnv Unit) (T : ℕ → Option Tex),
    s.token false = some .texture ∧ Token.texture.Shaped s.word s.length ∧
      (s.handle false e).streamError = false ∧ e.Loads s.word u T ∧
      (s.word 1).testBit 0 = true ∧
      (table e s.word u T 16 (nameAt s.word 0)).map Tex.host = some (.texture 1) ∧
      ∀ env r b, ∃ m b' l,
        Reached env (s.handle false e).word s.length (.start r b) m s.length b' l ∧
          b'.surfaceIds 0 = idInvalid := by
  obtain ⟨ht, hs, hok⟩ := shaped_twice (.inl rfl)
  refine ⟨twiceEnv 0, twiceToken 0, fun _ => twiceUnit, twiceTable, ht, hs, hok,
    loads_twice (.inl rfl), by decide +kernel, by decide +kernel, fun env r b => ?_⟩
  obtain ⟨m, b', l, hreached, hids⟩ := handle_reached ht hs hok env r b
  exact ⟨m, b', l, hreached, ((hids rfl 0).1 (by decide +kernel)).2.1⟩

end Cesvga2.GL
