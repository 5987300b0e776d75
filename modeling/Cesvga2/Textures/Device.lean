import Cesvga2.Textures.Store

/-! Making textures, and the calls of the device's client: `new_texture` for each
texture type, `delete_texture` of an id, and what the client writes to the system
objects in between. What the kernel's memory services answer is the environment of a
call. -/

namespace Cesvga2.Textures

/-- What `withPersistentMemoryDescriptor` gives for a texture's descriptor. -/
inductive Persistent where
  | same
  | other
  | absent
  deriving DecidableEq, Repr

/-- What one call finds outside the store. `limit` is the largest size allowed;
`persistent` is asked about the textures on the list. -/
structure Env where
  limit : ℕ
  agpBuffer : Bool
  agpBytes : ℕ
  persistent : ℕ → Persistent
  region : Bool
  addressRange : Bool
  agpInit : Store.InitEnv
  init : Store.InitEnv
  buffer : Bool
  clientMap : Bool
  surface : Bool

def pageSize : ℕ := 4096

def roundPage (n : ℕ) : ℕ := u64 (n + (pageSize - 1)) / pageSize * pageSize

namespace Store

variable (e : Env)

/-! ### AGP textures -/

/-- How the walk over the texture list of `new_agp_texture` ends. -/
inductive Search where
  | reuse (t : ℕ)
  | changed (t : ℕ) (x : TextureBuffer) (md : Bool)
  | absent

/-- The textures for the client memory at `addr`. -/
def matchesAgp (offset addr size : ℕ) (x : TextureBuffer) : Bool :=
  x.type = .agp ∧ x.memChanged = false ∧ x.agpOffsetInPage = offset ∧ x.agpAddr = addr ∧
    x.agpSize = size

def searchAgp (m : Store) (offset addr size : ℕ) : List ℕ → Search
  | [] => .absent
  | t :: ts =>
    match m.textures t with
    | none => .absent
    | some x =>
      if matchesAgp offset addr size x then
        match e.persistent t with
        | .same => .reuse t
        | .other => .changed t x true
        | .absent => .changed t x false
      else searchAgp m offset addr size ts

/-- The end of `new_agp_texture` from its label `common` on. -/
def commonAgp (m : Store) (k offset addr size : ℕ) : Store × Option ℕ :=
  match m.commonTextureInit k .agp e.agpInit with
  | (m, none) => (m, none)
  | (m, some t) =>
    match m.textures t with
    | none => (m, none)
    | some x =>
      ((m.setTexture t (some { x with
          agpOffsetInPage := offset
          agpAddr := addr
          agpSize := size
          memChanged := false })).linkTextureAtHead k t, some t)

/-- The part of `new_agp_texture` that makes a descriptor of the client's memory. -/
def wrapAgp (m : Store) (k offset addr size : ℕ) : Store × Option ℕ :=
  if e.region = false then (m, none)
  else if e.addressRange = false then (m, none)
  else m.commonAgp e k offset addr size

def newAgpTexture (m : Store) (k pixels textureSize : ℕ) : Store × Option ℕ :=
  let offset := pixels % pageSize
  let size := roundPage (offset + textureSize)
  let addr := pixels - offset
  if e.limit < size then (m, none)
  else if addr = 0 then
    if e.agpBuffer = false then (m, none) else m.commonAgp e k offset e.agpBytes size
  else
    match m.searchAgp e offset addr size (m.shareds k).textureList with
    | .reuse t =>
      (if (m.shareds k).textureList.head? = some t then m
        else (m.unlinkTexture k t).linkTextureAtHead k t, some t)
    | .changed t x true =>
      (m.setTexture t (some { x with memChanged := true })).commonAgp e k offset addr size
    | .changed t x false =>
      (m.setTexture t (some { x with memChanged := true })).wrapAgp e k offset addr size
    | .absent => m.wrapAgp e k offset addr size

/-! ### The other types -/

/-- The label `clean1` of `new_texture`: an AGP texture nothing refers to goes. -/
def cleanAgp (m : Store) (k : ℕ) : Option ℕ → Store
  | none => m
  | some p =>
    match m.textures p with
    | none => m
    | some y => if (m.sysObj y).refcount = 0 then m.deleteTexture k p else m

/-- Sets `linked_agp` and takes a reference to the AGP texture. -/
def linkAgp (m : Store) (t l : ℕ) : Store :=
  match m.textures t, m.textures l with
  | some x, some y => (m.setTexture t (some { x with linkedAgp := some l })).fetchAndAdd y 1
  | _, _ => m

/-- `new_texture` once the AGP texture `p` of an out-of-band texture is there. -/
def newTextureOver (m : Store) (k size : ℕ) (type : TexType) (p : Option ℕ) : Store × Option ℕ :=
  if e.limit < size then (m.cleanAgp k p, none)
  else
    match m.commonTextureInit k type e.init with
    | (m, none) => (m.cleanAgp k p, none)
    | (m, some t) =>
      match m.textures t with
      | none => (m, none)
      | some x =>
        if e.buffer = false ∨ e.clientMap = false then
          ((m.freeTexture k t x).cleanAgp k p, none)
        else
          match p with
          | none => (m.linkTextureAtHead k t, some t)
          | some l => ((m.linkAgp t l).linkTextureAtHead k t, some t)

def newTexture (m : Store) (k size₀ size₁ pixels textureSize : ℕ) : Store × Option ℕ :=
  if pixels ≠ 0 ∧ textureSize ≠ 0 then
    match m.newAgpTexture e k pixels textureSize with
    | (m, none) => (m, none)
    | (m, some p) => m.newTextureOver e k (roundPage (size₀ + 0x900)) .oob (some p)
  else if size₁ ≠ 0 then m.newTextureOver e k (roundPage (size₀ + 0x900)) .std none
  else m.newTextureOver e k (roundPage (size₀ + 0x80)) .vb none

def newAgprefTexture (m : Store) (k pixels₁ pixels₂ textureSize : ℕ) : Store × Option ℕ :=
  match m.newAgpTexture e k pixels₂ textureSize with
  | (m, none) => (m, none)
  | (m, some p) =>
    match m.commonTextureInit k .agpref e.init with
    | (m, none) => (m.cleanAgp k (some p), none)
    | (m, some t) =>
      match m.textures t, m.textures p with
      | some x, some y =>
        (((m.setTexture t (some { x with
            agpAddr := if pixels₁ ≠ 0 then sub64 pixels₁ y.agpAddr else 0 })).linkAgp t p)
          |>.linkTextureAtHead k t, some t)
      | _, _ => (m, none)

def newSurfaceTexture (m : Store) (k : ℕ) : Store × Option ℕ :=
  if e.surface = false then (m, none)
  else
    match m.commonTextureInit k .surface e.init with
    | (m, none) => (m, none)
    | (m, some t) => (m.linkTextureAtHead k t, some t)

end Store

/-! ### The calls of the device's client -/

/-- The fields of `VendorNewTextureDataStruc` that `new_texture` reads. -/
structure NewTextureData where
  type : ℕ
  numFaces : ℕ
  numMipmaps : ℕ
  minMipmap : ℕ
  bytespp : ℕ
  size₀ : ℕ
  size₁ : ℕ
  pixels₀ : ℕ
  pixels₁ : ℕ
  deriving Repr

def TexType.ofCode (code : ℕ) : Option TexType :=
  [none, some .surface, some .iosurface, some .vb, some .agp, none, some .agpref, none, some .std,
    some .oob][code]?.join

/-- The texture of a `new_texture` call by its type. -/
def NewTextureData.make (d : NewTextureData) (e : Env) (m : Store) (k : ℕ) : Store × Option ℕ :=
  match TexType.ofCode d.type with
  | some .surface => m.newSurfaceTexture e k
  | some .iosurface => (m, none)
  | some .vb => m.newTexture e k d.size₀ 0 0 0
  | some .agpref => m.newAgprefTexture e k d.pixels₀ d.pixels₁ d.size₀
  | some .std => m.newTexture e k d.size₀ d.size₁ 0 0
  | some .oob => m.newTexture e k d.size₀ d.size₁ d.pixels₁ (u32 d.pixels₀)
  | some .agp => (m, none)
  | none => (m, none)

namespace Device

def newTexture (m : Store) (k : ℕ) (d : NewTextureData) (e : Env) : Store × IOReturn :=
  if d.numFaces ≠ 1 ∧ d.numFaces ≠ 6 then (m, .badArgument)
  else if 12 < d.minMipmap + d.numMipmaps then (m, .badArgument)
  else if 2 < d.type ∧ d.bytespp = 0 then (m, .badArgument)
  else
    match d.make e m k with
    | (m, none) => (m, .noResources)
    -- `initializeTexture` has no failure
    | (m, some _) => (m, .success)

def deleteTexture (m : Store) (k textureId : ℕ) : Store × IOReturn :=
  match m.findTextureBuffer k (u32 textureId) with
  | none => (m, .success)
  | some t => (m.deleteTexture k t, .success)

end Device

/-- What the client of a device can do to the textures of its shared object `k`. -/
inductive Call where
  | newTexture (k : ℕ) (d : NewTextureData) (e : Env)
  | deleteTexture (k textureId : ℕ)
  | writeSysObj (k i : ℕ) (o : SysObject)

/-- The array of system objects is the client's as well once it is mapped. -/
def Store.writeSysObj (m : Store) (k i : ℕ) (o : SysObject) : Store :=
  if (m.shareds k).clientSysObjsMap ∧ i < numSysObjs then m.setSysObj k i o else m

def Store.exec (m : Store) : Call → Store
  | .newTexture k d e => (Device.newTexture m k d e).1
  | .deleteTexture k textureId => (Device.deleteTexture m k textureId).1
  | .writeSysObj k i o => m.writeSysObj k i o

end Cesvga2.Textures
