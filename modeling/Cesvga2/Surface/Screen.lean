import Cesvga2.Surface.State
import Cesvga2.Planes.Image

/-! The commands that move pixels between guest memory, host surfaces and screens, what the
device does with them, and the functions of the accelerator that issue them. The ring takes
every command. -/

namespace Cesvga2.Surface

open Planes

def Bounds.rect (b : Bounds) : Rect :=
  ⟨b.x.toInt, b.y.toInt, b.x.toInt + b.w.toInt, b.y.toInt + b.h.toInt⟩

def Region.cover (r : Region) : List Rect := r.rects.map Bounds.rect

/-- `SVGA3dCopyBox` of a flat image, and `SVGA3dCopyRect`. -/
structure CopyBox where
  x : ℕ
  y : ℕ
  w : ℕ
  h : ℕ
  srcx : ℕ
  srcy : ℕ
  deriving DecidableEq, Repr

def CopyBox.rect (b : CopyBox) : Rect := ⟨b.x, b.y, b.x + b.w, b.y + b.h⟩

/-- `SVGA3dGuestImage`. -/
structure GuestImage where
  gmr : Gmr
  offset : ℕ
  pitch : ℕ
  deriving DecidableEq, Repr

inductive Cmd where
  | defineSurface (sid width height : ℕ)
  | destroySurface (sid : ℕ)
  | surfaceDMA (guest : GuestImage) (sid : ℕ) (boxes : List CopyBox)
  | surfaceCopy (src dst : ℕ) (boxes : List CopyBox)
  | surfaceStretchBlt (src dst : ℕ) (srcBox dstBox : Rect)
  | present (sid : ℕ) (rects : List CopyBox)
  | defineGMRFB (guest : GuestImage)
  | blitGMRFBToScreen (srcX srcY : ℤ) (destRect : Rect) (screen : ℕ)
  | blitSurfaceToScreen (sid : ℕ) (srcRect : Rect) (screen : ℕ) (destRect : Rect)
      (clipRects : List Rect)
  deriving DecidableEq, Repr

/-! ### The device -/

variable {α : Type*}

/-- How the device stretches one rectangle to another. -/
structure Scaler (α : Type*) where
  sample : Rect → Rect → Source α → Source α
  same_size : ∀ (src dst : Rect) (f : Source α),
    src.right - src.left = dst.right - dst.left → src.bottom - src.top = dst.bottom - dst.top →
    ∀ x y, dst.Has x y →
      sample src dst f x y = f (x - dst.left + src.left) (y - dst.top + src.top)

/-- Guest memory is read in pixels of 32 bits; `fresh` is what a new surface happens to hold,
and `front` the screen of a device without screen objects. -/
structure Device (α : Type*) where
  guest : Gmr → ℕ → α
  fresh : ℤ → ℤ → α
  surfaces : ℕ → Option (Image α)
  screens : ℕ → Image α
  front : Image α
  gmrfb : GuestImage

/-- Every box is drawn from its own place in the source. -/
def copy (src : Source α) (boxes : List CopyBox) (i : Image α) : Image α :=
  boxes.foldl
    (fun i b => i.draw [b.rect] fun x y => src (x - b.x + b.srcx) (y - b.y + b.srcy)) i

/-- The clip rectangles are measured from the corner of the destination; without any the whole of
it is drawn. -/
def clipped (destRect : Rect) (clipRects : List Rect) : List Rect :=
  if clipRects = [] then [destRect]
  else clipRects.map fun c => (c.shift destRect.left destRect.top).inter destRect

namespace Device

variable (σ : Scaler α) (d : Device α)

def pixels (g : GuestImage) : Source α := fun x y =>
  if 0 ≤ x ∧ 0 ≤ y then some (d.guest g.gmr (g.offset + y.toNat * g.pitch + 4 * x.toNat)) else none

def modify (sid : ℕ) (f : Image α → Image α) : Device α :=
  { d with surfaces := Function.update d.surfaces sid ((d.surfaces sid).map f) }

def drawScreen (screen : ℕ) (rs : List Rect) (f : Source α) : Device α :=
  { d with screens := Function.update d.screens screen ((d.screens screen).draw rs f) }

def exec : Cmd → Device α
  | .defineSurface sid width height =>
    { d with surfaces := Function.update d.surfaces sid (some ⟨width, height, d.fresh⟩) }
  | .destroySurface sid => { d with surfaces := Function.update d.surfaces sid none }
  | .surfaceDMA guest sid boxes => d.modify sid (copy (d.pixels guest) boxes)
  | .surfaceCopy src dst boxes =>
    (d.surfaces src).elim d fun i => d.modify dst (copy i.read boxes)
  | .surfaceStretchBlt src dst srcBox dstBox =>
    (d.surfaces src).elim d fun i => d.modify dst (·.draw [dstBox] (σ.sample srcBox dstBox i.read))
  | .present sid rects =>
    (d.surfaces sid).elim d fun i => { d with front := copy i.read rects d.front }
  | .defineGMRFB guest => { d with gmrfb := guest }
  | .blitGMRFBToScreen srcX srcY destRect screen =>
    d.drawScreen screen [destRect] fun x y =>
      d.pixels d.gmrfb (x - destRect.left + srcX) (y - destRect.top + srcY)
  | .blitSurfaceToScreen sid srcRect screen destRect clipRects =>
    (d.surfaces sid).elim d fun i =>
      d.drawScreen screen (clipped destRect clipRects) (σ.sample srcRect destRect i.read)

def run (cmds : List Cmd) : Device α := cmds.foldl (exec σ) d

variable {d}

/-- Rectangles of a screen that are drawn one after the other from one source. -/
theorem drawScreen_drawScreen {screen : ℕ} {r : Rect} {rs : List Rect} {f : Source α} :
    (d.drawScreen screen [r] f).drawScreen screen rs f = d.drawScreen screen (r :: rs) f := by
  simp only [drawScreen, Function.update_self, Function.update_idem, Image.draw_draw]

theorem drawScreen_nil {screen : ℕ} {f : Source α} : d.drawScreen screen [] f = d := by
  simp only [drawScreen, Image.draw_nil, Function.update_eq_self]

end Device

/-! ### The accelerator -/

/-- `ExtraInfo`. -/
structure ExtraInfo where
  memGmr : Gmr
  memOffset : ℕ
  memPitch : ℕ
  srcDeltaX : ℤ
  srcDeltaY : ℤ
  dstDeltaX : ℤ
  dstDeltaY : ℤ
  deriving DecidableEq, Repr

/-- Only the deltas of the source are set after `bzero`. -/
def ExtraInfo.source (srcDeltaX srcDeltaY : ℤ) : ExtraInfo :=
  ⟨.id 0, 0, 0, srcDeltaX, srcDeltaY, 0, 0⟩

def ExtraInfo.guestImage (e : ExtraInfo) : GuestImage := ⟨e.memGmr, u32 e.memOffset, u32 e.memPitch⟩

/-- The loop over the rectangles in `surfaceDMA2D`, `surfaceCopy` and `surfacePresentAutoSync`. -/
def ExtraInfo.box (e : ExtraInfo) (b : Bounds) : CopyBox where
  x := ofInt32 (b.x.toInt + e.dstDeltaX)
  y := ofInt32 (b.y.toInt + e.dstDeltaY)
  w := ofInt32 b.w.toInt
  h := ofInt32 b.h.toInt
  srcx := ofInt32 (b.x.toInt + e.srcDeltaX)
  srcy := ofInt32 (b.y.toInt + e.srcDeltaY)

/-- `convert_rect`. -/
def convertRect (b : Bounds) (dx dy : ℤ) : Rect := b.rect.shift dx dy

/-- A box of `surfaceStretch`. -/
def stretchBox (b : Bounds) : Rect :=
  let x : ℤ := ofInt32 b.x.toInt
  let y : ℤ := ofInt32 b.y.toInt
  ⟨x, y, x + ofInt32 b.w.toInt, y + ofInt32 b.h.toInt⟩

/-- The accelerator with its master surface and the next two ids of `AllocSurfaceID`, which are
not in use. -/
structure Accel where
  haveSVGA3D : Bool
  haveScreenObject : Bool
  master : ℕ
  aux₀ : ℕ
  aux₁ : ℕ
  aux₀_ne : aux₀ ≠ master
  aux₁_ne : aux₁ ≠ master
  aux_ne : aux₀ ≠ aux₁

namespace Accel

variable (a : Accel)

/-- A function that needs 3D. -/
def with3D (cmds : List Cmd) : Except IOReturn (List Cmd) :=
  if a.haveSVGA3D then .ok cmds else .error .noDevice

def withScreen (cmds : List Cmd) : Except IOReturn (List Cmd) :=
  if a.haveScreenObject then .ok cmds else .error .noDevice

def createSurface (sid : ℕ) (width height : Int16) : Except IOReturn (List Cmd) :=
  a.with3D [.defineSurface sid (ofInt32 width.toInt) (ofInt32 height.toInt)]

def destroySurface (sid : ℕ) : List Cmd := if a.haveSVGA3D then [.destroySurface sid] else []

/-- For `SVGA3D_WRITE_HOST_VRAM`. -/
def surfaceDMA2D (sid : ℕ) (r : Region) (e : ExtraInfo) : Except IOReturn (List Cmd) :=
  a.with3D [.surfaceDMA e.guestImage sid (r.rects.map e.box)]

def surfaceCopy (src dst : ℕ) (r : Region) (e : ExtraInfo) : Except IOReturn (List Cmd) :=
  a.with3D [.surfaceCopy src dst (r.rects.map e.box)]

def surfaceStretch (src dst : ℕ) (srcRect destRect : Bounds) : Except IOReturn (List Cmd) :=
  a.with3D [.surfaceStretchBlt src dst (stretchBox srcRect) (stretchBox destRect)]

def surfacePresentAutoSync (sid : ℕ) (r : Region) (e : ExtraInfo) : Except IOReturn (List Cmd) :=
  a.with3D [.present sid (r.rects.map e.box)]

def blitToScreen (screen : ℕ) (r : Region) (e : ExtraInfo) : Except IOReturn (List Cmd) :=
  a.withScreen (.defineGMRFB e.guestImage :: r.rects.map fun b =>
    .blitGMRFBToScreen (b.x.toInt + e.srcDeltaX) (b.y.toInt + e.srcDeltaY)
      (convertRect b e.dstDeltaX e.dstDeltaY) screen)

def blitSurfaceToScreen (sid screen : ℕ) (srcRect : Bounds) (r : Region) :
    Except IOReturn (List Cmd) :=
  let destRect := convertRect r.bounds 0 0
  a.withScreen [.blitSurfaceToScreen sid (convertRect srcRect 0 0) screen destRect
    (r.rects.map fun b => convertRect b (-destRect.left) (-destRect.top))]

end Accel

end Cesvga2.Surface
