import Cesvga2.Surface.Backing

/-! The calls on a surface that set its scale and shape, lock it and flush it. -/

namespace Cesvga2.Surface

namespace Surf

/-! ### Scale -/

/-- `set_scale` copies the client's scaling as it is; `none` is a missing or a short
structure. -/
def setScale (s : Surf) : Option Scaling → IOReturn × Surf
  | none => (.badArgument, s)
  | some scaling => (.success, { s with scale := scaling }.calculateScaleParameters false)

/-- The source and the buffer both become `w` by `h` pixels. -/
def identityScale (s : Surf) (w h : Int16) : Surf :=
  { s with scale := { s.scale with
      buffer := ⟨0, 0, w, h⟩
      sourceW := w
      sourceH := h } }

/-- `context_scale_surface` with the option `kIOBlitFixedSource`, or without. -/
def contextScaleSurface (s : Surf) (fixedSource : Bool) (width height : ℕ) : IOReturn × Surf :=
  if fixedSource then
    (.success, (s.identityScale (.ofNat width) (.ofNat height)).calculateScaleParameters false)
  else (.success, s)

/-! ### Shape -/

/-- The arguments of `set_shape_backing_length_ext`. -/
structure Shape where
  options : ℕ
  framebufferIndex : ℕ
  backing : ℕ
  rowbytes : ℕ
  backingLength : ℕ
  rgn : Option Region
  rgnSize : ℕ
  deriving DecidableEq, Repr

/-- The client's memory that a shape names, checked against its bounds. -/
def Shape.client (a : Shape) (bpp : ℕ) (bounds : Bounds) : Except IOReturn ClientBacking :=
  let minRowBytes := u64 (ofInt64 bounds.w.toInt * bpp)
  let given := a.rowbytes ≠ 0 ∧ a.rowbytes < 2 ^ 63
  if given ∧ a.rowbytes < minRowBytes then .error .overrun
  else
    let rowbytes := if given then a.rowbytes else minRowBytes
    let minSize := u64 (ofInt64 bounds.h.toInt * rowbytes)
    if a.backingLength ≠ 0 ∧ a.backingLength < minSize then .error .overrun
    else .ok ⟨a.backing, rowbytes, if a.backingLength = 0 then minSize else a.backingLength⟩

/-- Whether a shape's scale is that of the framebuffer: the window server's surface
shadows it unless backings are packed. -/
def shadowsGFB (s : Surf) : Bool := s.wID = 1 ∧ ¬ s.packedBacking

/-- The source and buffer that a shape of these bounds sets. -/
def shapeGeometry (s : Surf) (bounds : Bounds) : Surf :=
  if s.shadowsGFB then
    { s with scale := { s.scale with
        buffer := bounds
        sourceW := .ofInt s.screen.width
        sourceH := .ofInt s.screen.height } }
  else s.identityScale bounds.w bounds.h

def shapeScale (s : Surf) (bounds : Bounds) : Surf :=
  (s.shapeGeometry bounds).calculateScaleParameters s.shadowsGFB

/-- The shape is kept and sets the scale. -/
def keepShape (s : Surf) (a : Shape) (r : Region) (e : Env) : IOReturn × Surf :=
  if e.shape then
    (.success, { { s with lastRegion := some r, framebufferIndex := a.framebufferIndex }.shapeScale
      r.bounds with skipWriteLockOnce := s.skipWriteLockOnce || (s.wID = 1 ∧ a.options = 5) })
  else (.noMemory, { s with client := .absent })

/-- A shape first drops the last one and the client's memory. -/
def clearShape (s : Surf) : Surf :=
  { s with
    lastRegion := none
    framebufferIndex := if s.lastRegion.isSome then 0 else s.framebufferIndex
    client := .absent }

/-- New client memory makes the descriptor of the old stale. -/
def setClient (s : Surf) (client : ClientBacking) : Surf :=
  { s with
    client := client
    backing := { s.backing with gartPtr := if s.backing.gartPtr = 0 then 0 else 2 } }

/-- The shape is acted on, after `clearShape`. -/
def reshape (s : Surf) (a : Shape) (r : Region) (e : Env) : IOReturn × Surf :=
  if ¬ a.options.testBit 0 then (.unsupported, s)
  else if ¬ (a.options.testBit 2 ∧ a.options.testBit 3) then (.success, s)
  else if ¬ s.videoMode ∧ r.isEmpty then
    if s.wID = 1 then (.success, s)
    else (.success, (s.identityScale r.bounds.w r.bounds.h).calculateScaleParameters false)
  else if ¬ s.haveID then (.notReady, s)
  else if a.backing = 0 then s.keepShape a r e
  else match a.client s.bpp r.bounds with
    | .error rc => (rc, s)
    | .ok client => (s.setClient client).keepShape a r e

/-- `set_shape_backing_length_ext`; `set_shape` passes no backing. -/
def setShape (s : Surf) (a : Shape) (e : Env) : IOReturn × Surf :=
  match a.rgn with
  | none => (.badArgument, s)
  | some r =>
    if a.rgnSize < r.bytes then (.badArgument, s)
    else if 4096 < a.rgnSize then (.noSpace, s)
    else s.clearShape.reshape a r e

/-! ### Locks -/

/-- `allocBacking` and `mapBacking`, which fails only for want of a mapping. -/
def allocAndMap (s : Surf) (e : Env) : Bool × Surf :=
  match s.allocBacking e with
  | (true, s') => (e.mapped, s')
  | (false, s') => (false, s')

/-- Memory of the client's is not mapped again. -/
def allocForRead (s : Surf) (e : Env) : Bool × Surf :=
  if s.isClientBackingValid then s.allocBacking e else s.allocAndMap e

theorem allocAndMap_snd {s : Surf} {e : Env} : (s.allocAndMap e).2 = (s.allocBacking e).2 := by
  unfold allocAndMap
  split <;> rename_i h <;> rw [h]

theorem allocForRead_snd {s : Surf} {e : Env} : (s.allocForRead e).2 = (s.allocBacking e).2 := by
  unfold allocForRead
  split_ifs
  · rfl
  · exact allocAndMap_snd

theorem allocForRead_fst {s : Surf} {e : Env} :
    (s.allocForRead e).1 = ((s.allocBacking e).1 && (s.isClientBackingValid || e.mapped)) := by
  unfold allocForRead allocAndMap
  split_ifs with hclient
  · simp [hclient]
  · rw [eq_false_of_ne_true hclient]
    split <;> rename_i h <;> rw [h] <;> simp

/-- `surfaceDMA3DEx` with a box and a place in memory. A command that finds no room in the FIFO is
lost, and the result is the same. -/
def surfaceDMA3DEx (e : Env) : IOReturn := if e.have3D then .success else .noDevice

/-- `copyGLSurfaceToBacking`; a surface with no context left leaves GL mode. -/
def copyGLSurfaceToBacking (s : Surf) (e : Env) : IOReturn × Surf :=
  if s.rtDirty = false ∧ 0 < s.attachCount then (.success, s)
  else (surfaceDMA3DEx e, { s with
    rtDirty := false
    glMode := s.glMode && decide (0 < s.attachCount) })

/-- The end of a read lock. -/
def finishReadLock (s : Surf) (e : Env) : IOReturn × Surf :=
  if s.glMode then s.copyGLSurfaceToBacking e else (.success, s)

/-- The locks take the room for their result; `info` tells that it is large enough. -/
def readLock (s : Surf) (info : Bool) (e : Env) : IOReturn × Surf :=
  if ¬ info then (.badArgument, s)
  else if ¬ (s.haveID ∧ s.isSourceValid) then (.notReady, s)
  else if s.lockRead then (.cannotLock, s)
  else if s.isClientBackingValid ∧ ¬ s.glMode then { s with lockRead := true }.finishReadLock e
  else
    match { s with lockRead := true }.allocForRead e with
    | (true, s) => s.finishReadLock e
    | (false, s) => (.noMemory, { s with lockRead := false })

def readUnlock (s : Surf) : IOReturn × Surf := (.success, { s with lockRead := false })

/-- The lock bit, unless the lock is to be skipped once. -/
def takeWriteLock (s : Surf) : Surf :=
  if s.skipWriteLockOnce then { s with skipWriteLockOnce := false }
  else { s with lockWrite := true }

def writeLock (s : Surf) (info : Bool) (e : Env) : IOReturn × Surf :=
  if ¬ info then (.badArgument, s)
  else if ¬ (s.haveID ∧ s.isSourceValid) then (.notReady, s)
  else if ¬ s.skipWriteLockOnce ∧ s.lockWrite then (.cannotLock, s)
  else if s.isClientBackingValid then (.success, s.takeWriteLock)
  else
    match s.takeWriteLock.allocAndMap e with
    | (true, s) => (.success, s)
    | (false, s) => (.noMemory, { s with lockWrite := false })

def writeUnlock (s : Surf) : IOReturn × Surf := (.success, { s with lockWrite := false })

def contextLockMemory (s : Surf) (info : Bool) (e : Env) : IOReturn × Surf :=
  if ¬ info then (.badArgument, s)
  else if ¬ (s.haveID ∧ s.isSourceValid) then (.notReady, s)
  else if s.lockContext then (.cannotLock, s)
  else
    match { s with lockContext := true }.allocAndMap e with
    | (true, s) => (.success, s)
    | (false, s) => (.noMemory, { s with lockContext := false })

def contextUnlockMemory (s : Surf) : IOReturn × Surf := (.success, { s with lockContext := false })

/-! ### Flush -/

end Surf

/-- A rectangle of guest memory, in pixels from the guest image's origin. -/
structure Box where
  x : ℤ
  y : ℤ
  w : ℤ
  h : ℤ
  deriving DecidableEq, Repr

/-- What the device is told to read from guest memory. -/
structure Transfer where
  gmr : Gmr
  offset : ℕ
  pitch : ℕ
  boxes : List Box
  deriving DecidableEq, Repr

/-- The boxes of a region, moved by the source delta. -/
def Region.boxes (r : Region) (dx dy : ℤ) : List Box :=
  r.rects.map fun b => ⟨b.x.toInt + dx, b.y.toInt + dy, b.w.toInt, b.h.toInt⟩

inductive DMAType where
  | direct
  | copy
  | stretch
  | screenDirect
  | screenVia3D
  | gfb
  deriving DecidableEq, Repr

namespace Surf

/-- How a flush gets the pixels out. -/
def dmaType (s : Surf) (r : Region) (e : Env) : Except IOReturn DMAType :=
  if s.haveScreenObject then
    if s.format = .x8r8g8b8 ∧ s.isIdentityScale r then .ok .screenDirect
    else if e.have3D then .ok .screenVia3D else .error .unsupported
  else if s.haveMasterSurface then
    if ¬ s.isIdentityScale r then .ok .stretch
    else if s.format = .x8r8g8b8 ∧ s.directBlit then .ok .direct
    else .ok .copy
  else if s.format ≠ .x8r8g8b8 ∨ ¬ s.isIdentityScale r then .error .unsupported
  else .ok .gfb

/-- The guest image and its boxes for one kind of output. `mem_offset_in_gmr` is cut to
32 bits for the device. -/
def transfer (s : Surf) (boxes : List Box) : Transfer where
  gmr := s.backing.gmr
  offset := u32 (s.backing.offset + s.scale.offset)
  pitch := s.scale.pitch
  boxes := boxes

/-- `set_region(&tmpRegion.r, 0, 0, width, height)` for the whole buffer. -/
def bufferBoxes (s : Surf) : List Box :=
  [⟨0, 0, s.scale.buffer.w.toInt, s.scale.buffer.h.toInt⟩]

/-- The boxes of the last region, seen from the buffer's origin. -/
def regionBoxes (r : Region) : List Box := r.boxes (-r.bounds.x.toInt) (-r.bounds.y.toInt)

/-- The transfers from guest memory; `gfb` copies with the CPU. -/
def output (s : Surf) (r : Region) (e : Env) : DMAType → Except IOReturn (List Transfer)
  | .direct | .screenDirect => if e.dma then .ok [s.transfer (regionBoxes r)] else .error .dmaError
  | .copy =>
    if ¬ e.created then .error .noResources
    else if e.dma then .ok [s.transfer (regionBoxes r)] else .error .dmaError
  | .stretch | .screenVia3D =>
    if ¬ e.created then .error .noResources
    else if e.dma then .ok [s.transfer s.bufferBoxes] else .error .dmaError
  | .gfb => .ok []

/-- `surface_flush`, with the transfers that it starts. -/
def flush (s : Surf) (framebufferMask : ℕ) (e : Env) : IOReturn × List Transfer :=
  match s.lastRegion with
  | none => (.notReady, [])
  | some r =>
    if ¬ (s.haveID ∧ s.isBackingValid) then (.notReady, [])
    else if s.videoMode ∨ ¬ framebufferMask.testBit s.framebufferIndex then (.success, [])
    else if s.glMode then (e.presented, [])
    else match s.dmaType r e with
      | .error rc => (rc, [])
      | .ok type =>
        match s.output r e type with
        | .error rc => (rc, [])
        | .ok transfers => (e.presented, transfers)

end Surf

/-- The calls of a client and of a 2D context. -/
inductive Call where
  | setScale (scaling : Option Scaling)
  | setShape (a : Surf.Shape)
  | contextScaleSurface (fixedSource : Bool) (width height : ℕ)
  | readLock (info : Bool)
  | readUnlock
  | writeLock (info : Bool)
  | writeUnlock
  | contextLockMemory (info : Bool)
  | contextUnlockMemory
  | flush (framebufferMask : ℕ)
  deriving DecidableEq, Repr

/-- A call's return code and the surface after it; a flush changes nothing of it. -/
def Surf.exec (s : Surf) (e : Env) : Call → IOReturn × Surf
  | .setScale scaling => s.setScale scaling
  | .setShape a => s.setShape a e
  | .contextScaleSurface fixedSource width height => s.contextScaleSurface fixedSource width height
  | .readLock info => s.readLock info e
  | .readUnlock => s.readUnlock
  | .writeLock info => s.writeLock info e
  | .writeUnlock => s.writeUnlock
  | .contextLockMemory info => s.contextLockMemory info e
  | .contextUnlockMemory => s.contextUnlockMemory
  | .flush framebufferMask => ((s.flush framebufferMask e).1, s)

end Cesvga2.Surface
