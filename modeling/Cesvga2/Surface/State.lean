import Cesvga2.Basic

/-! The state of one surface: its geometry, the memory that backs it and the locks. -/

namespace Cesvga2.Surface

def pageSize : ℕ := 4096

/-- `IOAccelBounds`. -/
structure Bounds where
  x : Int16
  y : Int16
  w : Int16
  h : Int16
  deriving DecidableEq, Repr

/-- `IOAccelDeviceRegion`. -/
structure Region where
  bounds : Bounds
  rects : List Bounds
  deriving DecidableEq, Repr

/-- `IOACCEL_SIZEOF_DEVICE_REGION`; a `size_t` of 64 bits holds it for any 32-bit number of
rectangles. -/
def Region.bytes (r : Region) : ℕ := 12 + r.rects.length * 8

/-- A region whose first rectangle is empty. -/
def Region.isEmpty (r : Region) : Bool :=
  r.rects.head?.any fun b => b.w ≤ 0 ∨ b.h ≤ 0

/-- `IOAccelSurfaceScaling` with the three reserved words that the driver keeps. -/
structure Scaling where
  buffer : Bounds
  sourceW : Int16
  sourceH : Int16
  /-- `reserved[0]`, the bytes of the source in whole pages. -/
  size : ℕ
  /-- `reserved[1]`. -/
  pitch : ℕ
  /-- `reserved[2]`, the bytes from the source's start to the buffer's. -/
  offset : ℕ
  deriving DecidableEq, Repr

/-- Memory that the client of the surface provides; none if the address is 0. -/
structure ClientBacking where
  addr : ℕ
  rowbytes : ℕ
  size : ℕ
  deriving DecidableEq, Repr

def ClientBacking.absent : ClientBacking := ⟨0, 0, 0⟩

/-- What `m_backing.vtb.gmr_id` names. -/
inductive Gmr where
  | invalid
  | vram
  | id (n : ℕ)
  deriving DecidableEq, Repr

/-- The surface's memory: a block of VRAM (`self`) or a memory descriptor, of which
the model keeps the length. -/
structure Backing where
  self : Option ℕ
  md : Option ℕ
  offset : ℕ
  size : ℕ
  gmr : Gmr
  /-- 0 for the kernel's descriptor, 1 for the client's, 2 once the client's is stale. -/
  gartPtr : ℕ
  deriving DecidableEq, Repr

def Backing.empty : Backing := ⟨.none, .none, 0, 0, .invalid, 0⟩

def Backing.isValid (b : Backing) : Bool := b.self.isSome || b.md.isSome

/-- What `getScreenInfo` told the surface about the framebuffer. -/
structure ScreenInfo where
  fbSize : ℕ
  width : ℤ
  height : ℤ
  clientAddr : ℕ
  rowBytes : ℕ
  deriving DecidableEq, Repr

inductive Format where
  | x8r8g8b8
  | a8r8g8b8
  | x1r5g5b5
  | yuy2
  | uyvy
  deriving DecidableEq, Repr

structure Surf where
  haveID : Bool
  haveMasterSurface : Bool
  videoMode : Bool
  directBlit : Bool
  haveScreenObject : Bool
  skipWriteLockOnce : Bool
  glMode : Bool
  lockRead : Bool
  lockWrite : Bool
  lockContext : Bool
  wID : ℕ
  format : Format
  /-- `m_bytes_per_pixel`. -/
  bpp : ℕ
  backing : Backing
  client : ClientBacking
  lastRegion : Option Region
  framebufferIndex : ℕ
  scale : Scaling
  screen : ScreenInfo
  /-- The option `CE1_OPTION_AC_PACKED_BACKING`. -/
  packedBacking : Bool
  attachCount : ℤ
  rtDirty : Bool
  deriving DecidableEq, Repr

namespace Surf

def isBackingValid (s : Surf) : Bool := s.backing.isValid

def isSourceValid (s : Surf) : Bool := 0 < s.scale.sourceW ∧ 0 < s.scale.sourceH

def isClientBackingValid (s : Surf) : Bool := s.client.addr ≠ 0

def isIdentityScale (s : Surf) (r : Region) : Bool :=
  s.scale.buffer.w = r.bounds.w ∧ s.scale.buffer.h = r.bounds.h

end Surf

/-- A surface of 32-bit pixels after `set_id_mode`, on a screen of 640 by 480 pixels. -/
def newSurf : Surf where
  haveID := true
  haveMasterSurface := true
  videoMode := false
  directBlit := true
  haveScreenObject := false
  skipWriteLockOnce := false
  glMode := false
  lockRead := false
  lockWrite := false
  lockContext := false
  wID := 7
  format := .x8r8g8b8
  bpp := 4
  backing := .empty
  client := .absent
  lastRegion := none
  framebufferIndex := 0
  scale := ⟨⟨0, 0, 0, 0⟩, 0, 0, 0, 0, 0⟩
  screen := ⟨0, 640, 480, 0, 2560⟩
  packedBacking := false
  attachCount := 0
  rtDirty := false

/-- `round_up_to_power2` for pages. -/
def roundUp (n : ℕ) : ℕ := u32 (n + (pageSize - 1)) / pageSize * pageSize

def pageResidue (addr : ℕ) : ℕ := addr % pageSize

/-- Where the pitch and the size of the source come from. -/
def Surf.sourcePitch (s : Surf) (fromGFB : Bool) : ℕ :=
  if fromGFB then s.screen.rowBytes
  else if s.isClientBackingValid then u32 s.client.rowbytes
  else u32 (ofInt32 s.scale.sourceW.toInt * s.bpp)

def Surf.sourceSize (s : Surf) (fromGFB : Bool) : ℕ :=
  if fromGFB then u32 s.screen.fbSize
  else if s.isClientBackingValid then u32 (s.client.size + pageResidue s.client.addr)
  else u32 (ofInt32 s.scale.sourceH.toInt * s.sourcePitch false)

def Surf.calculateScaleParameters (s : Surf) (fromGFB : Bool) : Surf :=
  { s with
    scale := { s.scale with
      size := roundUp (s.sourceSize fromGFB)
      pitch := s.sourcePitch fromGFB
      offset := u32 (ofInt32 s.scale.buffer.y.toInt * s.sourcePitch fromGFB +
        ofInt32 s.scale.buffer.x.toInt * s.bpp) } }

end Cesvga2.Surface
