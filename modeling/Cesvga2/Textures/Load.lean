import Cesvga2.Loops.Checked
import Cesvga2.Textures.Client

/-! Moving textures between client memory and the host: the host surface of a texture, the load of
the images that are paged off and the page-off of those that are paged on. A texture begins with
72 headers in memory that the client writes, 12 for each of 6 faces. Every index and every divisor
is checked where the code uses it, so that a use out of bounds is a fault of the model. -/

namespace Cesvga2.Textures

open Cesvga2.Loops (Meets)

/-- What the kernel reads of a `GLDTextureHeader`. -/
structure Header where
  pixelsInClient : ℕ
  offsetInClient : ℕ
  widthBytes : ℕ
  height : ℕ
  pitch : ℕ
  depth : ℕ

/-- The AGP texture that a texture is linked to, as far as a load reads it. -/
structure LinkedAgp where
  vstate : BitVec 8
  agpSize : ℕ

/-- What `Device::new_texture` takes from the descriptor. -/
structure Geometry where
  type : TexType
  numFaces : ℕ
  numMipmaps : ℕ
  minMipmap : ℕ
  bytespp : ℕ

/-- A texture with the system object it shares with the client. -/
structure Texture extends Geometry where
  width : ℕ
  height : ℕ
  depth : ℕ
  pitch : ℕ
  agpAddr : ℕ
  surfaceFormat : ℕ
  surfaceId : Option ℕ
  yuvShadow : Option ℕ
  linkedAgp : Option LinkedAgp
  vstate : BitVec 8
  pageoff : ℕ → BitVec 16
  pageon : ℕ → BitVec 16

/-- A use out of bounds, by its index, and a division by 0. -/
inductive Fault where
  | header (i : ℕ)
  | face (i : ℕ)
  | page (i : ℕ)
  | mipSize (i : ℕ)
  | divide
  deriving DecidableEq, Repr

section Checks

variable {ε : Type} (fault : Fault → ε)

/-- Header `i` of the table that `mapGLDTextureHeader` maps. -/
def headerAt (headers : ℕ → Header) (i : ℕ) : Except ε Header :=
  if i < 72 then .ok (headers i) else .error (fault (.header i))

def divide (n d : ℕ) : Except ε ℕ := if d = 0 then .error (fault .divide) else .ok (n / d)

/-- A page word of one face. -/
def pageAt (pages : ℕ → BitVec 16) (face : ℕ) : Except ε (BitVec 16) :=
  if face < 6 then .ok (pages face) else .error (fault (.page face))

end Checks

/-! ### The define-surface command -/

/-- A command that `BeginDefineSurface` has reserved, with as many sizes. -/
structure Define where
  sid : ℕ
  flags : ℕ
  format : ℕ
  faces : ℕ → ℕ
  sizes : List (ℕ × ℕ × ℕ)

def beginDefineSurface (sid flags format numMipSizes : ℕ) : Define :=
  ⟨sid, flags, format, fun _ => 0, List.replicate numMipSizes (0, 0, 0)⟩

namespace Define

/-- `faces[face].numMipLevels = n`. -/
def setFace (c : Define) (face n : ℕ) : Except Fault Define :=
  if face < 6 then .ok { c with faces := Function.update c.faces face n }
  else .error (.face face)

def setSize (c : Define) (i : ℕ) (size : ℕ × ℕ × ℕ) : Except Fault Define :=
  if i < c.sizes.length then .ok { c with sizes := c.sizes.set i size } else .error (.mipSize i)

end Define

namespace Texture

variable (tx : Texture)

/-- `isPagedOff` and `isPagedOn`; the first looks at its arguments. -/
def isPagedOff (face mipmap : ℕ) : Bool :=
  decide (face < 6 ∧ mipmap < 16) && (tx.pageoff face &&& ~~~tx.pageon face).getLsbD mipmap

def isPagedOn (face mipmap : ℕ) : Except Fault Bool := do
  let off ← pageAt id tx.pageoff face
  let on ← pageAt id tx.pageon face
  return (~~~off &&& on).getLsbD mipmap

def areAnyPagedOff : Bool :=
  (List.range 6).any fun i => tx.pageoff i &&& ~~~tx.pageon i ≠ 0

/-- The images in the order of the loops over faces and mipmaps. -/
def images : List (ℕ × ℕ) :=
  (List.range tx.numFaces).flatMap fun face => (List.range tx.numMipmaps).map fun mipmap =>
    (face, mipmap)

/-- `agp_size` of the AGP texture. -/
def agpSize : ℕ := (tx.linkedAgp.map LinkedAgp.agpSize).getD 0

/-- The header of an image: the loops start at `min_mipmap` and go on by 12 for each face. -/
def headerIndex (image : ℕ × ℕ) : ℕ := tx.minMipmap + 12 * image.1 + image.2

end Texture

/-- What `create_host_surface_for_texture` finds outside the texture. -/
structure SurfaceEnv where
  provider : Bool
  /-- The results of `AllocSurfaceID`. -/
  sid : ℕ
  shadowSid : ℕ
  needYuvShadow : Bool
  lock3D : Bool
  map : IOReturn

/-- The size of one image is defined if it has pixels; `i` is its place in the command. -/
def defineImage (tx : Texture) (headers : ℕ → Header) (c : Define) (image : ℕ × ℕ) (i : ℕ) :
    Except Fault Define := do
  let h ← headerAt id headers (tx.headerIndex image)
  if h.pixelsInClient = 0 then return c
  let width ← divide id h.widthBytes tx.bytespp
  c.setSize i (width, h.height, h.depth)

def defineFace (tx : Texture) (headers : ℕ → Header) (c : Define) (face : ℕ) :
    Except Fault Define := do
  let c ← c.setFace face tx.numMipmaps
  (List.range tx.numMipmaps).foldlM
    (fun c mipmap => defineImage tx headers c (face, mipmap) (face * tx.numMipmaps + mipmap)) c

/-- A surface of one image, without looking at headers. -/
def defineOne (tx : Texture) (sid flags format : ℕ) : Except Fault Define := do
  let c ← (beginDefineSurface sid flags format 1).setFace 0 1
  c.setSize 0 (tx.width, tx.height, tx.depth)

/-- `SVGA3D_SURFACE_…` and the formats that the flags depend on. -/
def surfaceFlags (tx : Texture) : ℕ :=
  if tx.surfaceFormat = 9 ∨ tx.surfaceFormat = 8 then 128
  else if tx.numFaces = 6 then 32 ||| 1 else 32

/-- The result is that of the function with the texture after it and the commands. -/
def createHostSurfaceForTexture (e : SurfaceEnv) (headers : ℕ → Header) (tx : Texture) :
    Except Fault (IOReturn × Texture × List Define) :=
  if ¬ e.provider then .ok (.notReady, tx, [])
  else if tx.type = .surface then .ok (.success, tx, [])
  else if tx.surfaceId.isSome then .ok (.success, tx, [])
  else
    match tx.type with
    | .agpref =>
      if ¬ e.lock3D then
        .ok (.notReady, if e.needYuvShadow then { tx with yuvShadow := none } else tx, [])
      else if e.needYuvShadow then do
        let c ← defineOne tx e.sid (32 ||| 64) 2
        let shadow ← defineOne tx e.shadowSid 0 tx.surfaceFormat
        return (.success, { tx with surfaceId := some e.sid, yuvShadow := some e.shadowSid },
          [c, shadow])
      else do
        let c ← defineOne tx e.sid 32 tx.surfaceFormat
        return (.success, { tx with surfaceId := some e.sid }, [c])
    | .std | .oob =>
      if e.map ≠ .success then .ok (e.map, tx, [])
      else if ¬ e.lock3D then .ok (.notReady, tx, [])
      else do
        let c ← (List.range tx.numFaces).foldlM (defineFace tx headers)
          (beginDefineSurface e.sid (surfaceFlags tx) tx.surfaceFormat
            (tx.numFaces * tx.numMipmaps))
        return (.success, { tx with surfaceId := some e.sid }, [c])
    | _ => .ok (.unsupported, tx, [])

/-! ### Loads and page-offs -/

/-- One call of `surfaceDMA3DEx`. -/
structure Transfer where
  write : Bool
  sid : ℕ
  image : ℕ × ℕ
  y : ℕ
  w : ℕ
  h : ℕ
  d : ℕ
  gmrId : ℕ
  offset : ℕ
  pitch : ℕ
  suffixFlags : ℕ

/-- What a load or a page-off finds outside the texture; `D` is all that transfers act on. -/
structure TransferEnv (D : Type) extends SurfaceEnv where
  /-- `mapGLDTextureHeader` of the load itself. -/
  mapHeaders : IOReturn
  /-- `prepare` of the transfer buffer and the GMR id it leaves. -/
  prepare : IOReturn
  gmrId : ℕ
  surfaceDMA3DEx : Transfer → D → IOReturn × D

/-- How a loop over the images ends early. -/
inductive Stop (D : Type) where
  | fault (f : Fault)
  | exit (rc : IOReturn) (d : D)

variable {D : Type}

/-- The outcome of a transfer whose result is looked at. -/
def sent : IOReturn × D → Except (Stop D) D
  | (rc, d) => if rc = .success then .ok d else .error (.exit rc d)

/-- A page-off or a load may leave its loop by `goto clean2`. -/
def leave : Except (Stop D) D → Except Fault (IOReturn × D)
  | .ok d => .ok (.success, d)
  | .error (.exit rc d) => .ok (rc, d)
  | .error (.fault f) => .error f

/-- The transfer of an image that is paged off. The last scan line of an out-of-band image goes on
its own if the whole image would reach past the end of the AGP memory. -/
def loadImage (e : TransferEnv D) (headers : ℕ → Header) (tx : Texture) (sid : ℕ) (d : D)
    (image : ℕ × ℕ) : Except (Stop D) D := do
  let h ← headerAt .fault headers (tx.headerIndex image)
  if h.pixelsInClient = 0 ∨ tx.isPagedOff image.1 image.2 = false then return d
  let w ← divide .fault h.widthBytes tx.bytespp
  let whole : Transfer :=
    ⟨true, sid, image, 0, w, h.height, h.depth, e.gmrId, h.offsetInClient, h.pitch, 3⟩
  if tx.type = .oob ∧ h.depth = 1 ∧ tx.agpSize < h.offsetInClient + h.height * h.pitch then
    let rows := sub32 h.height 1
    let (_, d) := e.surfaceDMA3DEx { whole with h := rows } d
    sent (e.surfaceDMA3DEx { whole with
      y := rows
      h := 1
      offset := u64 (h.offsetInClient + rows * h.pitch)
      pitch := h.widthBytes
      suffixFlags := 2 } d)
  else sent (e.surfaceDMA3DEx whole d)

/-- The words of `dst` with those of `src` for the first `n` faces. -/
def orPages (dst src : ℕ → BitVec 16) (n : ℕ) : Except Fault (ℕ → BitVec 16) :=
  (List.range n).foldlM (fun pages face => do
    let old ← pageAt id pages face
    let more ← pageAt id src face
    return Function.update pages face (old ||| more)) dst

/-- The part of `alloc_and_load_texture` for a texture with headers, once they are mapped. -/
def loadImages (e : TransferEnv D) (headers : ℕ → Header) (tx : Texture) (d : D) :
    Except Fault (IOReturn × Texture × D) := do
  let (rc, tx, _) ← createHostSurfaceForTexture e.toSurfaceEnv headers tx
  if rc ≠ .success then return (rc, tx, d)
  if e.prepare ≠ .success then return (e.prepare, tx, d)
  let (rc, d) ← leave (tx.images.foldlM (loadImage e headers tx (tx.surfaceId.getD 0)) d)
  if rc ≠ .success then return (rc, tx, d)
  let pageon ← orPages tx.pageon tx.pageoff tx.numFaces
  return (.success, { tx with pageon := pageon }, d)

/-- The part of `alloc_and_load_texture` for a reference to AGP memory; the result of the transfer
is not looked at. -/
def loadAgpref (e : TransferEnv D) (headers : ℕ → Header) (tx : Texture) (d : D) :
    Except Fault (IOReturn × Texture × D) := do
  let (rc, tx, _) ← createHostSurfaceForTexture e.toSurfaceEnv headers tx
  if rc ≠ .success then return (rc, tx, d)
  if e.prepare ≠ .success then return (e.prepare, tx, d)
  let sid := (tx.yuvShadow <|> tx.surfaceId).getD 0
  let (_, d) := e.surfaceDMA3DEx
    ⟨true, sid, (0, 0), 0, tx.width, tx.height, tx.depth, e.gmrId, tx.agpAddr, tx.pitch, 3⟩ d
  return (.success, tx, d)

def allocAndLoadTexture (e : TransferEnv D) (headers : ℕ → Header) (tx : Texture) (d : D) :
    Except Fault (IOReturn × Texture × D) :=
  if ¬ e.provider then .ok (.notReady, tx, d)
  else if tx.surfaceFormat = 0 then .ok (.notReady, tx, d)
  else if tx.type = .surface then .ok (.success, tx, d)
  else if tx.vstate &&& 0x10 ≠ 0 then .ok (.success, { tx with vstate := tx.vstate ||| 2 }, d)
  else
    match tx.type, tx.linkedAgp with
    | .agpref, none => .ok (.badArgument, tx, d)
    | .agpref, some l =>
      if l.vstate &&& 0x10 ≠ 0 then .ok (.success, { tx with vstate := tx.vstate ||| 2 }, d)
      else loadAgpref e headers tx d
    | .std, _ =>
      if ¬ tx.areAnyPagedOff then .ok (.success, tx, d)
      else if e.mapHeaders ≠ .success then .ok (e.mapHeaders, tx, d)
      else loadImages e headers tx d
    | .oob, none =>
      if ¬ tx.areAnyPagedOff then .ok (.success, tx, d) else .ok (.badArgument, tx, d)
    | .oob, some l =>
      if ¬ tx.areAnyPagedOff then .ok (.success, tx, d)
      else if l.vstate &&& 0x10 ≠ 0 then .ok (.success, { tx with vstate := tx.vstate ||| 2 }, d)
      else if e.mapHeaders ≠ .success then .ok (e.mapHeaders, tx, d)
      else loadImages e headers tx d
    | _, _ => .ok (.unsupported, tx, d)

/-- The transfer of an image that is paged on. -/
def pageoffImage (e : TransferEnv D) (headers : ℕ → Header) (tx : Texture) (sid : ℕ) (d : D)
    (image : ℕ × ℕ) : Except (Stop D) D := do
  let h ← headerAt .fault headers (tx.headerIndex image)
  if h.pixelsInClient = 0 then return d
  let pagedOn ← (tx.isPagedOn image.1 image.2).mapError .fault
  if ¬ pagedOn then return d
  let w ← divide .fault h.widthBytes tx.bytespp
  sent (e.surfaceDMA3DEx
    ⟨false, sid, image, 0, w, h.height, h.depth, e.gmrId, h.offsetInClient, h.pitch, 2⟩ d)

def pageoffDirtyTexture (e : TransferEnv D) (headers : ℕ → Header) (tx : Texture) (d : D) :
    Except Fault (IOReturn × Texture × D) :=
  if tx.vstate &&& 0x11 ≠ 0 then .ok (.success, { tx with vstate := tx.vstate ||| 2 }, d)
  else if ¬ e.provider then .ok (.notReady, tx, d)
  else
    match tx.surfaceId with
    | none => .ok (.notReady, tx, d)
    | some sid =>
      if tx.type ≠ .std ∧ tx.type ≠ .oob then .ok (.unsupported, tx, d)
      else if tx.type = .oob ∧ tx.linkedAgp.isNone then .ok (.badArgument, tx, d)
      else if e.mapHeaders ≠ .success then .ok (e.mapHeaders, tx, d)
      else if e.prepare ≠ .success then .ok (e.prepare, tx, d)
      else do
        let (rc, d) ← leave (tx.images.foldlM (pageoffImage e headers tx sid) d)
        if rc ≠ .success then return (rc, tx, d)
        let pageoff ← orPages tx.pageoff tx.pageon tx.numFaces
        let linkedAgp := if tx.type = .oob then
            tx.linkedAgp.map fun l => { l with vstate := l.vstate &&& ~~~0x20 }
          else tx.linkedAgp
        return (.success, { tx with
          pageoff := pageoff
          vstate := tx.vstate &&& ~~~0x20
          linkedAgp := linkedAgp }, d)

/-! ### Host surfaces -/

/-- A texture before and after a load: only one without a host surface can have got one. -/
def Texture.Kept (tx tx' : Texture) : Prop :=
  tx'.type = tx.type ∧ (tx'.surfaceId = tx.surfaceId ∨ tx.surfaceId = none)

section Kept

variable {headers : ℕ → Header} {tx : Texture}

theorem Texture.Kept.refl (tx : Texture) : tx.Kept tx := ⟨rfl, .inl rfl⟩

theorem createHostSurface_kept (e : SurfaceEnv) :
    Meets (fun r => tx.Kept r.2.1) (fun _ => True) (createHostSurfaceForTexture e headers tx) := by
  unfold createHostSurfaceForTexture
  refine .ite (fun _ => .refl tx) fun _ => .ite (fun _ => .refl tx) fun _ =>
    .ite (fun _ => .refl tx) fun hnone => ?_
  have hnew : ∀ tx' : Texture, tx'.type = tx.type → tx.Kept tx' := fun tx' htype =>
    ⟨htype, .inr (by simpa using hnone)⟩
  cases tx.type with
  | agpref =>
    refine .ite (fun _ => hnew _ ?_) fun _ => .ite (fun _ => ?_) fun _ => ?_
    · split_ifs <;> rfl
    · exact (Meets.trivial _).bind fun _ _ => (Meets.trivial _).bind fun _ _ => hnew _ rfl
    · exact (Meets.trivial _).bind fun _ _ => hnew _ rfl
  | std | oob =>
    exact .ite (fun _ => .refl tx) fun _ => .ite (fun _ => .refl tx) fun _ =>
      (Meets.trivial _).bind fun _ _ => hnew _ rfl
  | _ => exact .refl tx

theorem loadImages_kept (e : TransferEnv D) (d : D) :
    Meets (fun r => tx.Kept r.2.1) (fun _ => True) (loadImages e headers tx d) := by
  refine (createHostSurface_kept e.toSurfaceEnv).bind fun r hr => ?_
  refine .ite (fun _ => hr) fun _ => .ite (fun _ => hr) fun _ => ?_
  refine (Meets.trivial _).bind fun _ _ => .ite (fun _ => hr) fun _ => ?_
  exact (Meets.trivial _).bind fun _ _ => hr

theorem loadAgpref_kept (e : TransferEnv D) (d : D) :
    Meets (fun r => tx.Kept r.2.1) (fun _ => True) (loadAgpref e headers tx d) :=
  (createHostSurface_kept e.toSurfaceEnv).bind fun _ hr =>
    .ite (fun _ => hr) fun _ => .ite (fun _ => hr) fun _ => hr

theorem allocAndLoad_kept (e : TransferEnv D) (headers : ℕ → Header) (tx : Texture) (d : D) :
    Meets (fun r => tx.Kept r.2.1) (fun _ => True) (allocAndLoadTexture e headers tx d) := by
  have himages : Meets (fun r => tx.Kept r.2.1) (fun _ => True)
      (if e.mapHeaders ≠ .success then .ok (e.mapHeaders, tx, d) else loadImages e headers tx d) :=
    .ite (fun _ => .refl tx) fun _ => loadImages_kept e d
  unfold allocAndLoadTexture
  refine .ite (fun _ => .refl tx) fun _ => .ite (fun _ => .refl tx) fun _ =>
    .ite (fun _ => .refl tx) fun _ => .ite (fun _ => .refl tx) fun _ => ?_
  split
  · exact .refl tx
  · exact .ite (fun _ => .refl tx) fun _ => loadAgpref_kept e d
  · exact .ite (fun _ => .refl tx) fun _ => himages
  · exact .ite (fun _ => .refl tx) fun _ => .refl tx
  · exact .ite (fun _ => .refl tx) fun _ => .ite (fun _ => .refl tx) fun _ => himages
  · exact .refl tx

end Kept

/-! ### Bounds -/

/-- What `Device::new_texture` makes sure of. -/
structure Geometry.Sound (g : Geometry) : Prop where
  faces : g.numFaces ≤ 6
  mipmaps : g.minMipmap + g.numMipmaps ≤ 12
  bytespp : g.type = .std ∨ g.type = .oob → g.bytespp ≠ 0

/-- No fault. -/
def Stop.NoFault : Stop D → Prop
  | .fault _ => False
  | .exit _ _ => True

section Bounds

variable {e : TransferEnv D} {headers : ℕ → Header} {tx : Texture} {face mipmap : ℕ}

theorem mem_images {image : ℕ × ℕ} : image ∈ tx.images ↔
    image.1 < tx.numFaces ∧ image.2 < tx.numMipmaps := by
  obtain ⟨face, mipmap⟩ := image
  simp [Texture.images]

theorem Geometry.Sound.headerIndex_lt (h : tx.Sound) (hf : face < tx.numFaces)
    (hm : mipmap < tx.numMipmaps) : tx.headerIndex (face, mipmap) < 72 := by
  have := h.faces
  have := h.mipmaps
  simp only [Texture.headerIndex]
  omega

theorem headerAt_eq {ε : Type} {fault : Fault → ε} {i : ℕ} (h : i < 72) :
    headerAt fault headers i = .ok (headers i) := if_pos h

theorem divide_eq {ε : Type} {fault : Fault → ε} {n d : ℕ} (h : d ≠ 0) :
    divide fault n d = .ok (n / d) := if_neg h

theorem pageAt_eq {ε : Type} {fault : Fault → ε} {pages : ℕ → BitVec 16} (h : face < 6) :
    pageAt fault pages face = .ok (pages face) := if_pos h

/-! #### The host surface -/

variable {c : Define}

/-- Each image has its place in the command. -/
theorem defineImage_meets (h : tx.Sound) (hb : tx.bytespp ≠ 0) (hf : face < tx.numFaces)
    (hm : mipmap < tx.numMipmaps) (hc : c.sizes.length = tx.numFaces * tx.numMipmaps) :
    Meets (fun c' : Define => c'.sizes.length = tx.numFaces * tx.numMipmaps) (fun _ => False)
      (defineImage tx headers c (face, mipmap) (face * tx.numMipmaps + mipmap)) := by
  have hplace : face * tx.numMipmaps + mipmap < c.sizes.length := by
    calc face * tx.numMipmaps + mipmap < (face + 1) * tx.numMipmaps := by
          rw [Nat.add_mul, Nat.one_mul]
          omega
      _ ≤ tx.numFaces * tx.numMipmaps := Nat.mul_le_mul_right _ hf
      _ = c.sizes.length := hc.symm
  rw [defineImage, headerAt_eq (h.headerIndex_lt hf hm)]
  refine Meets.ite (fun _ => hc) fun _ => ?_
  rw [divide_eq hb]
  change Meets _ _ (c.setSize _ _)
  rw [Define.setSize, if_pos hplace]
  exact (List.length_set).trans hc

theorem defineFace_meets (h : tx.Sound) (hb : tx.bytespp ≠ 0) (hf : face < tx.numFaces)
    (hc : c.sizes.length = tx.numFaces * tx.numMipmaps) :
    Meets (fun c' : Define => c'.sizes.length = tx.numFaces * tx.numMipmaps) (fun _ => False)
      (defineFace tx headers c face) := by
  rw [defineFace, Define.setFace, if_pos (hf.trans_le h.faces)]
  exact Meets.foldlM hc fun mipmap hm c' hc' =>
    defineImage_meets h hb hf (List.mem_range.mp hm) hc'

theorem defineFaces_meets (h : tx.Sound) (hb : tx.bytespp ≠ 0) (headers : ℕ → Header)
    (sid flags format : ℕ) :
    Meets (fun c : Define => c.sizes.length = tx.numFaces * tx.numMipmaps) (fun _ => False)
      ((List.range tx.numFaces).foldlM (defineFace tx headers)
        (beginDefineSurface sid flags format (tx.numFaces * tx.numMipmaps))) :=
  Meets.foldlM List.length_replicate fun _ hf _ hc =>
    defineFace_meets h hb (List.mem_range.mp hf) hc

/-- The function has no fault and leaves all but the ids of the texture. -/
theorem createHostSurface_meets (h : tx.Sound) (e : SurfaceEnv) :
    Meets (fun r => ∃ sid shadow, r.2.1 = { tx with surfaceId := sid, yuvShadow := shadow })
      (fun _ => False) (createHostSurfaceForTexture e headers tx) := by
  have hsame : ∃ sid shadow, tx = { tx with surfaceId := sid, yuvShadow := shadow } :=
    ⟨_, _, rfl⟩
  unfold createHostSurfaceForTexture
  refine Meets.ite (fun _ => hsame) fun _ => ?_
  refine Meets.ite (fun _ => hsame) fun _ => ?_
  refine Meets.ite (fun _ => hsame) fun _ => ?_
  have himages : tx.bytespp ≠ 0 → Meets
      (fun r : IOReturn × Texture × List Define =>
        ∃ sid shadow, r.2.1 = { tx with surfaceId := sid, yuvShadow := shadow }) (fun _ => False)
      (if e.map ≠ .success then .ok (e.map, tx, [])
        else if ¬ e.lock3D then .ok (.notReady, tx, [])
        else do
          let c ← (List.range tx.numFaces).foldlM (defineFace tx headers)
            (beginDefineSurface e.sid (surfaceFlags tx) tx.surfaceFormat
              (tx.numFaces * tx.numMipmaps))
          return (.success, { tx with surfaceId := some e.sid }, [c])) := by
    intro hb
    refine Meets.ite (fun _ => hsame) fun _ => Meets.ite (fun _ => hsame) fun _ => ?_
    exact (defineFaces_meets h hb headers ..).bind fun c _ => ⟨some e.sid, tx.yuvShadow, rfl⟩
  split
  · refine Meets.ite (fun _ => ?_) fun _ => Meets.ite (fun _ => ?_) fun _ => ?_
    · exact Meets.pure (by
        split_ifs
        · exact ⟨tx.surfaceId, none, rfl⟩
        · exact hsame)
    · exact ⟨some e.sid, some e.shadowSid, rfl⟩
    · exact ⟨some e.sid, tx.yuvShadow, rfl⟩
  · next htype => exact himages (h.bytespp (.inl htype))
  · next htype => exact himages (h.bytespp (.inr htype))
  · exact hsame

/-! #### Loads and page-offs -/

variable {image : ℕ × ℕ} {sid n : ℕ} {d : D}

theorem sent_meets (r : IOReturn × D) : Meets (fun _ => True) Stop.NoFault (sent r) :=
  Meets.ite (fun _ => trivial) fun _ => trivial

theorem leave_meets {x : Except (Stop D) D} (hx : Meets (fun _ => True) Stop.NoFault x) :
    Meets (fun _ => True) (fun _ => False) (leave x) := by
  match x, hx with
  | .ok d, _ => trivial
  | .error (.exit rc d), _ => trivial
  | .error (.fault f), hx => exact hx

theorem loadImage_meets (h : tx.Sound) (hb : tx.bytespp ≠ 0) (hi : image ∈ tx.images) :
    Meets (fun _ => True) Stop.NoFault (loadImage e headers tx sid d image) := by
  obtain ⟨hf, hm⟩ := mem_images.mp hi
  rw [loadImage, headerAt_eq (h.headerIndex_lt hf hm)]
  refine Meets.ite (fun _ => trivial) fun _ => ?_
  rw [divide_eq hb]
  exact Meets.ite (fun _ => sent_meets _) fun _ => sent_meets _

theorem isPagedOn_eq (hf : face < 6) : tx.isPagedOn face mipmap =
    .ok ((~~~tx.pageoff face &&& tx.pageon face).getLsbD mipmap) := by
  rw [Texture.isPagedOn, pageAt_eq hf, pageAt_eq hf]
  rfl

theorem pageoffImage_meets (h : tx.Sound) (hb : tx.bytespp ≠ 0) (hi : image ∈ tx.images) :
    Meets (fun _ => True) Stop.NoFault (pageoffImage e headers tx sid d image) := by
  obtain ⟨hf, hm⟩ := mem_images.mp hi
  rw [pageoffImage, headerAt_eq (h.headerIndex_lt hf hm), isPagedOn_eq (hf.trans_le h.faces)]
  refine Meets.ite (fun _ => trivial) fun _ => Meets.ite (fun _ => trivial) fun _ => ?_
  rw [divide_eq hb]
  exact sent_meets _

theorem orPages_meets {dst src : ℕ → BitVec 16} (hn : n ≤ 6) :
    Meets (fun _ => True) (fun _ => False) (orPages dst src n) := by
  refine Meets.foldlM trivial fun face hf pages _ => ?_
  have hlt : face < 6 := (List.mem_range.mp hf).trans_le hn
  rw [pageAt_eq hlt, pageAt_eq hlt]
  trivial

theorem loadImages_meets (h : tx.Sound) (hb : tx.bytespp ≠ 0) :
    Meets (fun r => r.2.1.toGeometry = tx.toGeometry) (fun _ => False)
      (loadImages e headers tx d) := by
  refine (createHostSurface_meets h e.toSurfaceEnv).bind ?_
  rintro ⟨rc, tx', cs⟩ ⟨sid, shadow, rfl⟩
  have hloop : ∀ i ∈ ({ tx with surfaceId := sid, yuvShadow := shadow } : Texture).images, ∀ d,
      True → Meets (fun _ => True) Stop.NoFault (loadImage e headers
        { tx with surfaceId := sid, yuvShadow := shadow } (sid.getD 0) d i) :=
    fun i hi d _ => loadImage_meets h hb hi
  refine Meets.ite (fun _ => rfl) fun _ => Meets.ite (fun _ => rfl) fun _ => ?_
  refine (leave_meets (Meets.foldlM trivial hloop)).bind fun r _ => ?_
  refine Meets.ite (fun _ => rfl) fun _ => ?_
  exact (orPages_meets h.faces).bind fun _ _ => rfl

theorem loadAgpref_meets (h : tx.Sound) :
    Meets (fun r => r.2.1.toGeometry = tx.toGeometry) (fun _ => False)
      (loadAgpref e headers tx d) := by
  refine (createHostSurface_meets h e.toSurfaceEnv).bind ?_
  rintro ⟨rc, tx', cs⟩ ⟨sid, shadow, rfl⟩
  exact Meets.ite (fun _ => rfl) fun _ => Meets.ite (fun _ => rfl) fun _ => rfl

/-- A load has no fault and leaves the geometry. -/
theorem allocAndLoad_meets (h : tx.Sound) :
    Meets (fun r => r.2.1.toGeometry = tx.toGeometry) (fun _ => False)
      (allocAndLoadTexture e headers tx d) := by
  unfold allocAndLoadTexture
  refine Meets.ite (fun _ => rfl) fun _ => Meets.ite (fun _ => rfl) fun _ => ?_
  refine Meets.ite (fun _ => rfl) fun _ => Meets.ite (fun _ => rfl) fun _ => ?_
  split
  · exact rfl
  · exact Meets.ite (fun _ => rfl) fun _ => loadAgpref_meets h
  · next htype =>
    exact Meets.ite (fun _ => rfl) fun _ => Meets.ite (fun _ => rfl) fun _ =>
      loadImages_meets h (h.bytespp (.inl htype))
  · exact Meets.ite (fun _ => rfl) fun _ => rfl
  · next htype _ =>
    exact Meets.ite (fun _ => rfl) fun _ => Meets.ite (fun _ => rfl) fun _ =>
      Meets.ite (fun _ => rfl) fun _ => loadImages_meets h (h.bytespp (.inr htype))
  · exact rfl

theorem pageoffDirty_meets (h : tx.Sound) :
    Meets (fun _ => True) (fun _ => False) (pageoffDirtyTexture e headers tx d) := by
  unfold pageoffDirtyTexture
  refine Meets.ite (fun _ => trivial) fun _ => Meets.ite (fun _ => trivial) fun _ => ?_
  split
  · trivial
  · refine Meets.ite (fun _ => trivial) fun htype => Meets.ite (fun _ => trivial) fun _ => ?_
    refine Meets.ite (fun _ => trivial) fun _ => Meets.ite (fun _ => trivial) fun _ => ?_
    have hb := h.bytespp (by tauto)
    refine (leave_meets (Meets.foldlM trivial fun image hi d _ =>
      pageoffImage_meets h hb hi)).bind fun r _ => ?_
    refine Meets.ite (fun _ => trivial) fun _ => ?_
    exact (orPages_meets h.faces).bind fun _ _ => trivial

end Bounds

/-! ### The descriptors that are accepted -/

/-- The geometry of the texture `x` made for a descriptor. The bytes of a pixel of a surface are
the surface's own. -/
structure NewTextureData.Describes (d : NewTextureData) (x : TextureBuffer) (g : Geometry) :
    Prop where
  type : g.type = x.type
  numFaces : g.numFaces = d.numFaces
  numMipmaps : g.numMipmaps = d.numMipmaps
  minMipmap : g.minMipmap = d.minMipmap
  bytespp : d.type ≠ 1 → g.bytespp = d.bytespp

theorem Store.type_of_commonTextureInit {m m' : Store} {k t : ℕ} {type : TexType}
    {e : Store.InitEnv} {x : TextureBuffer} (h : m.commonTextureInit k type e = (m', some t))
    (hx : m'.textures t = some x) : x.type = type := by
  unfold Store.commonTextureInit at h
  split_ifs at h
  · cases h
  · split at h
    · cases h
    · split at h
      · cases h
      · cases h
        simp only [Function.update_self] at hx
        cases hx
        rfl

/-- Only surfaces have a code below those whose descriptors name the bytes of a pixel. -/
theorem NewTextureData.lt_type {d : NewTextureData} {e : Env} {m : Store} {k t : ℕ}
    {x : TextureBuffer} (ht : (d.make e m k).2 = some t)
    (hx : (d.make e m k).1.textures t = some x) (htype : x.type ≠ .surface) : 2 < d.type := by
  by_contra hle
  have hcode : d.type = 0 ∨ d.type = 1 ∨ d.type = 2 := by omega
  rcases hcode with h | h | h
  · simp [make, h, TexType.ofCode] at ht
  · simp only [make, h, TexType.ofCode] at ht hx
    change (m.newSurfaceTexture e k).2 = some t at ht
    change (m.newSurfaceTexture e k).1.textures t = some x at hx
    unfold Store.newSurfaceTexture at ht hx
    split_ifs at ht hx
    cases hinit : m.commonTextureInit k .surface e.init with
    | mk m' o =>
      rw [hinit] at ht hx
      cases o with
      | none => cases ht
      | some u =>
        cases ht
        exact htype (Store.type_of_commonTextureInit hinit hx)
  · simp [make, h, TexType.ofCode] at ht

theorem Device.sound_of_newTexture {d : NewTextureData} {e : Env} {m : Store} {k t : ℕ}
    {x : TextureBuffer} {g : Geometry} (hd : (Device.newTexture m k d e).2 = .success)
    (ht : (d.make e m k).2 = some t) (hx : (d.make e m k).1.textures t = some x)
    (hg : d.Describes x g) : g.Sound := by
  unfold Device.newTexture at hd
  split_ifs at hd with hfaces hmipmaps hbytespp
  refine ⟨?_, ?_, fun htype => ?_⟩
  · rw [hg.numFaces]
    omega
  · rw [hg.minMipmap, hg.numMipmaps]
    omega
  · rw [hg.type] at htype
    have hcode := NewTextureData.lt_type ht hx (by rcases htype with h | h <;> simp [h])
    rw [hg.bytespp (by omega)]
    omega

/-- Whatever the client writes to the headers and the page words, the three functions stay in
bounds for a texture whose descriptor was accepted. -/
theorem accesses_in_bounds {d : NewTextureData} {e : Env} {m : Store} {k t : ℕ} {x : TextureBuffer}
    (hd : (Device.newTexture m k d e).2 = .success) (ht : (d.make e m k).2 = some t)
    (hx : (d.make e m k).1.textures t = some x) (tx : Texture) (hg : d.Describes x tx.toGeometry)
    (headers : ℕ → Header) (env : TransferEnv D) (dev : D) (f : Fault) :
    createHostSurfaceForTexture env.toSurfaceEnv headers tx ≠ .error f ∧
      allocAndLoadTexture env headers tx dev ≠ .error f ∧
      pageoffDirtyTexture env headers tx dev ≠ .error f := by
  have hsound := Device.sound_of_newTexture hd ht hx hg
  refine ⟨?_, ?_, ?_⟩
  · obtain ⟨r, hr, -⟩ := (createHostSurface_meets hsound env.toSurfaceEnv).exists_ok
    rw [hr]
    nofun
  · obtain ⟨r, hr, -⟩ := (allocAndLoad_meets hsound).exists_ok
    rw [hr]
    nofun
  · obtain ⟨r, hr, -⟩ := (pageoffDirty_meets hsound).exists_ok
    rw [hr]
    nofun

/-- A cube map with the last two mipmaps of each face. -/
def cubeMap : NewTextureData := ⟨8, 6, 2, 10, 4, 0, 1, 0, 0⟩

/-- The texture of `cubeMap`, with every image paged off. -/
def cubeTexture : Texture :=
  ⟨⟨.std, 6, 2, 10, 4⟩, 2, 2, 1, 8, 0, 2, none, none, none, 0, fun _ => 3, fun _ => 0⟩

def smoothly : TransferEnv Unit :=
  ⟨⟨true, 1, 2, false, true, .success⟩, .success, .success, 0, fun _ d => (.success, d)⟩

theorem accesses_in_bounds_cubeMap :
    allocAndLoadTexture smoothly (fun _ => ⟨1, 0x900, 8, 2, 8, 1⟩) cubeTexture () ≠
      .error .divide := by
  have hd : (Device.newTexture (Store.fresh fun _ => 0) 0 cubeMap Store.kind).2 = .success := by
    decide +kernel
  have hx : (cubeMap.make Store.kind (Store.fresh fun _ => 0) 0).1.textures 0 =
      some ⟨.std, 0, 0, none, 0, 0, 0, false⟩ := by
    decide +kernel
  exact (accesses_in_bounds hd (by decide +kernel) hx cubeTexture
    ⟨rfl, rfl, rfl, rfl, fun _ => rfl⟩ _ smoothly () _).2.1

end Cesvga2.Textures
