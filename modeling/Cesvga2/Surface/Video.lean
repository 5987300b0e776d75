import Cesvga2.Bits.Holders
import Cesvga2.Ids.Pool
import Cesvga2.Runs.Prefix
import Cesvga2.Surface.Calls

/-! Surfaces that show video: the overlay streams of the device, the registers of each, and the
calls that give a surface a stream, flush it and take the stream away. -/

namespace Cesvga2.Surface

/-! ### Stream ids -/

/-- `AllocStreamID`: `find_bit_in_array32` on the one word of the mask. -/
def allocStreamID (mask : BitVec 32) : Option ℕ × BitVec 32 :=
  let x := ~~~mask &&& (mask + 1#32)
  if x = 0 then (none, mask) else (Ids.log232 x, mask ||| x)

/-- `FreeStreamID`. -/
def freeStreamID (mask : BitVec 32) (streamId : ℕ) : BitVec 32 :=
  if 32 ≤ streamId then mask else mask &&& ~~~BitVec.twoPow 32 streamId

theorem log232_twoPow : ∀ i < 32, Ids.log232 (BitVec.twoPow 32 i) = some i := by decide +kernel

theorem allocStreamID_cases (mask : BitVec 32) :
    allocStreamID mask = (none, mask) ∨
      ∃ k, Bits.Lowest mask k ∧ allocStreamID mask = (some k, mask ||| BitVec.twoPow 32 k) := by
  unfold allocStreamID
  by_cases h : mask = BitVec.allOnes 32
  · rw [h, Bits.isolate_allOnes]
    exact .inl rfl
  · obtain ⟨k, hk⟩ := Bits.exists_lowest h
    rw [hk.isolate, if_neg (Bits.twoPow_ne_zero hk.lt), log232_twoPow k hk.lt]
    exact .inr ⟨k, hk, rfl⟩

/-! ### Registers of a stream -/

/-- `SVGA_VIDEO_…`, in the device's order. -/
inductive VideoReg where
  | enabled
  | flags
  | dataOffset
  | format
  | colorKey
  | size
  | width
  | height
  | srcX
  | srcY
  | srcWidth
  | srcHeight
  | dstX
  | dstY
  | dstWidth
  | dstHeight
  | pitch1
  | pitch2
  | pitch3
  | dataGMRID
  | dstScreenID
  deriving DecidableEq, Repr

/-- An `SVGAOverlayUnit`, word by word. -/
abbrev OverlayUnit := VideoReg → ℕ

/-- The id as the device is told it: `SVGA_ID_INVALID`, `SVGA_GMR_FRAMEBUFFER` or the id. -/
def Gmr.word : Gmr → ℕ
  | .invalid => 2 ^ 32 - 1
  | .vram => 2 ^ 32 - 2
  | .id n => n

/-- `setVideoRegs`, for the pixel format of the stream. -/
def Surf.setVideoRegs (s : Surf) (pixelFormat : ℕ) : OverlayUnit
  | .dataOffset => u32 s.backing.offset
  | .format => pixelFormat
  | .width => ofInt32 s.scale.sourceW.toInt
  | .height => ofInt32 s.scale.sourceH.toInt
  | .srcX => ofInt32 s.scale.buffer.x.toInt
  | .srcY => ofInt32 s.scale.buffer.y.toInt
  | .srcWidth => ofInt32 s.scale.buffer.w.toInt
  | .srcHeight => ofInt32 s.scale.buffer.h.toInt
  | .pitch1 => s.scale.pitch
  | .size => u32 (ofInt32 s.scale.sourceH.toInt * s.scale.pitch)
  | .dataGMRID => s.backing.gmr.word
  | .dstScreenID => s.framebufferIndex
  | _ => 0

/-- `setVideoDest`: the whole frame is shown, or nothing of it. -/
def setVideoDest (r : Region) (unit : OverlayUnit) : OverlayUnit
  | .dstX => if r.isEmpty then 0 else ofInt32 r.bounds.x.toInt
  | .dstY => if r.isEmpty then 0 else ofInt32 r.bounds.y.toInt
  | .dstWidth => if r.isEmpty then 0 else ofInt32 r.bounds.w.toInt
  | .dstHeight => if r.isEmpty then 0 else ofInt32 r.bounds.h.toInt
  | reg => unit reg

/-- `VideoSetRegsInRange`: the device's registers of one stream after the words from `minReg` to
`maxReg` were sent. An invalid id names no stream. -/
def videoSetRegsInRange (regs : ℕ → OverlayUnit) (streamId : Option ℕ) (unit : OverlayUnit)
    (minReg maxReg : VideoReg) : ℕ → OverlayUnit :=
  match streamId with
  | none => regs
  | some k => Function.update regs k fun reg =>
      if minReg.ctorIdx ≤ reg.ctorIdx ∧ reg.ctorIdx ≤ maxReg.ctorIdx then unit reg else regs k reg

section Range

variable {regs : ℕ → OverlayUnit} {unit : OverlayUnit} {minReg maxReg : VideoReg} {k l : ℕ}

theorem videoSetRegsInRange_self :
    videoSetRegsInRange regs (some k) unit minReg maxReg k = fun reg =>
      if minReg.ctorIdx ≤ reg.ctorIdx ∧ reg.ctorIdx ≤ maxReg.ctorIdx then unit reg
      else regs k reg :=
  Function.update_self ..

theorem videoSetRegsInRange_of_ne (h : l ≠ k) :
    videoSetRegsInRange regs (some k) unit minReg maxReg l = regs l :=
  Function.update_of_ne h ..

end Range

/-! ### The surfaces and the device -/

/-- What of a surface's backing and source a stream has to know. -/
structure Frame where
  offset : ℕ
  gmrId : ℕ
  sourceW : Int16
  sourceH : Int16
  pitch : ℕ
  deriving DecidableEq, Repr

def Surf.frame (s : Surf) : Frame :=
  ⟨u32 s.backing.offset, s.backing.gmr.word, s.scale.sourceW, s.scale.sourceH, s.scale.pitch⟩

/-- The data registers tell the frame. -/
structure Tells (unit : OverlayUnit) (f : Frame) : Prop where
  dataOffset : unit .dataOffset = f.offset
  dataGMRID : unit .dataGMRID = f.gmrId
  size : unit .size = u32 (ofInt32 f.sourceH.toInt * f.pitch)
  pitch1 : unit .pitch1 = f.pitch
  width : unit .width = ofInt32 f.sourceW.toInt
  height : unit .height = ofInt32 f.sourceH.toInt

/-- A surface with its `m_video`. -/
structure Overlay where
  surf : Surf
  unit : OverlayUnit
  /-- `none` for `SVGA_ID_INVALID`. -/
  streamId : Option ℕ
  /-- `cecl_pixel_format`. -/
  pixelFormat : ℕ
  /-- The frame at the flush that enabled the stream; the driver does not keep it. -/
  shown : Frame

def Overlay.enabled (o : Overlay) : Bool := o.unit .enabled ≠ 0

/-- The surfaces, the mask of stream ids and the registers of the device's streams. -/
structure Streams (ι : Type*) where
  /-- The option `CE1_OPTION_AC_NO_YUV`. -/
  noYUV : Bool
  mask : BitVec 32
  regs : ℕ → OverlayUnit
  overlays : ι → Overlay

/-- What `Start3D` finds: screen objects, a master surface, and whether blits can be direct. -/
structure FrontBuffer where
  screen : Bool
  master : Bool
  direct : Bool
  deriving DecidableEq, Repr

namespace Surf

def haveFrontBuffer (s : Surf) : Bool := s.haveScreenObject || s.haveMasterSurface

def start3D (s : Surf) (f : FrontBuffer) : Surf :=
  if f.screen then { s with haveScreenObject := true }
  else if f.master then
    { s with haveScreenObject := false, haveMasterSurface := true, directBlit := f.direct }
  else { s with haveScreenObject := false, haveMasterSurface := false }

def cleanup3D (s : Surf) : Surf :=
  if s.haveFrontBuffer then { s with haveMasterSurface := false, haveScreenObject := false } else s

/-- The surface leaves video mode. -/
def setPlain (s : Surf) (applePixelFormat : ℕ) (f : FrontBuffer) : Surf :=
  let s := { s with videoMode := false }
  let s := if applePixelFormat = 0x42475241 then { s with format := .a8r8g8b8, bpp := 4 } else s
  if s.haveFrontBuffer then s else s.start3D f

/-- The surface enters video mode. -/
def setYUV (s : Surf) (pixelFormat : ℕ) : Surf :=
  let format := if pixelFormat = 0x59565955 then .uyvy
    else if pixelFormat = 0x32595559 then .yuy2 else s.format
  { s with videoMode := true, format := format, bpp := 2 }.cleanup3D

end Surf

namespace Streams

variable {ι : Type*} [DecidableEq ι]

def setOverlay (s : Streams ι) (i : ι) (o : Overlay) : Streams ι :=
  { s with overlays := Function.update s.overlays i o }

/-- `surface_video_off`. -/
def videoOff (s : Streams ι) (i : ι) : Streams ι :=
  let o := s.overlays i
  if ¬ (o.surf.videoMode ∧ o.enabled) then s
  else
    { s with
      mask := o.streamId.elim s.mask (freeStreamID s.mask)
      regs := videoSetRegsInRange s.regs o.streamId (fun _ => 0) .enabled .enabled
      overlays := Function.update s.overlays i
        { o with unit := Function.update o.unit .enabled 0, streamId := none } }

/-- The surface takes a stream and tells the device everything about it. -/
def startVideo (s : Streams ι) (i : ι) (r : Region) : IOReturn × Streams ι :=
  let o := s.overlays i
  match allocStreamID s.mask with
  | (none, mask) => (.noResources, { s with mask := mask }.setOverlay i { o with streamId := none })
  | (some k, mask) =>
    let unit := Function.update (setVideoDest r (o.surf.setVideoRegs o.pixelFormat)) .enabled 1
    (.success,
      { s with
        mask := mask
        regs := videoSetRegsInRange s.regs (some k) unit .enabled .dstScreenID
        overlays := Function.update s.overlays i
          { o with unit := unit, streamId := some k, shown := o.surf.frame } })

/-- `surface_flush_video`. A stream that is enabled already is flushed as it is. -/
def flushVideo (s : Streams ι) (i : ι) : IOReturn × Streams ι :=
  let o := s.overlays i
  match o.surf.lastRegion with
  | none => (.notReady, s)
  | some r =>
    if ¬ (o.surf.haveID ∧ o.surf.isBackingValid) then (.notReady, s)
    else if ¬ o.surf.videoMode then (.unsupported, s)
    else if o.enabled then (.success, s)
    else s.startVideo i r

/-- `context_set_surface`. -/
def setSurface (s : Streams ι) (i : ι) (pixelFormat applePixelFormat : ℕ) (f : FrontBuffer) :
    IOReturn × Streams ι :=
  if pixelFormat = 0 then
    let s := s.videoOff i
    let o := s.overlays i
    (.success, s.setOverlay i { o with surf := o.surf.setPlain applePixelFormat f })
  else if s.noYUV then (.unsupported, s)
  else
    let o := s.overlays i
    (.success, s.setOverlay i
      { o with
        surf := o.surf.setYUV pixelFormat
        unit := Function.update o.unit .enabled 0
        pixelFormat := pixelFormat })

/-- `videoReshape`. -/
def videoReshape (s : Streams ι) (i : ι) : Streams ι :=
  let o := s.overlays i
  match o.surf.lastRegion with
  | none => s
  | some r =>
    if ¬ (o.surf.videoMode ∧ o.enabled) then s
    else
      { s with
        regs := videoSetRegsInRange s.regs o.streamId (setVideoDest r o.unit) .dstX .dstHeight
        overlays := Function.update s.overlays i { o with unit := setVideoDest r o.unit } }

/-- A call that is not about video; a shape that is kept moves the video with it. -/
def call (s : Streams ι) (i : ι) (c : Call) (e : Env) : IOReturn × Streams ι :=
  let o := s.overlays i
  let (rc, surf) := o.surf.exec e c
  let s := s.setOverlay i { o with surf := surf }
  match c with
  | .setShape _ => (rc, if rc = .success then s.videoReshape i else s)
  | _ => (rc, s)

end Streams

/-- A call on one of the surfaces. -/
inductive VideoAct (ι : Type*) where
  | setSurface (i : ι) (pixelFormat applePixelFormat : ℕ) (f : FrontBuffer)
  | flushVideo (i : ι)
  | videoOff (i : ι)
  | call (i : ι) (c : Call) (e : Env)

namespace Streams

variable {ι : Type*} [DecidableEq ι]

def exec (s : Streams ι) : VideoAct ι → Streams ι
  | .setSurface i pixelFormat applePixelFormat f =>
    (s.setSurface i pixelFormat applePixelFormat f).2
  | .flushVideo i => (s.flushVideo i).2
  | .videoOff i => s.videoOff i
  | .call i c e => (s.call i c e).2

/-- No stream is enabled or allocated; the surfaces may be in any other state. -/
def init (noYUV : Bool) (regs : ℕ → OverlayUnit) (surfs : ι → Surf) : Streams ι where
  noYUV := noYUV
  mask := 0
  regs := regs
  overlays i := ⟨surfs i, fun _ => 0, none, 0, ⟨0, 0, 0, 0, 0⟩⟩

/-! ### What a call does to the streams -/

def on (s : Streams ι) (i : ι) : Bool := (s.overlays i).enabled

def streamId (s : Streams ι) (i : ι) : Option ℕ := (s.overlays i).streamId

def shown (s : Streams ι) (i : ι) : Frame := (s.overlays i).shown

/-- What of the state is about the streams. -/
structure View (ι : Type*) where
  mask : BitVec 32
  on : ι → Bool
  streamId : ι → Option ℕ
  shown : ι → Frame
  regs : ℕ → OverlayUnit

def view (s : Streams ι) : View ι := ⟨s.mask, s.on, s.streamId, s.shown, s.regs⟩

/-- What a call may do: keep the streams, start one or stop one. -/
inductive Moves (s t : View ι) : Prop where
  | keep (hmask : t.mask = s.mask) (hon : t.on = s.on)
      (hid : ∀ i, s.on i = true → t.streamId i = s.streamId i)
      (hshown : t.shown = s.shown) (hregs : ∀ k f, Tells (s.regs k) f → Tells (t.regs k) f)
  | start (i : ι) (k : ℕ) (f : Frame) (hoff : s.on i = false) (hk : Bits.Lowest s.mask k)
      (hmask : t.mask = s.mask ||| BitVec.twoPow 32 k) (hon : t.on = Function.update s.on i true)
      (hid : t.streamId = Function.update s.streamId i (some k))
      (hshown : t.shown = Function.update s.shown i f) (htells : Tells (t.regs k) f)
      (hregs : ∀ l, l ≠ k → t.regs l = s.regs l)
  | stop (i : ι) (k : ℕ) (hi : s.on i = true) (hk : s.streamId i = some k)
      (hmask : t.mask = s.mask &&& ~~~BitVec.twoPow 32 k)
      (hon : t.on = Function.update s.on i false)
      (hid : t.streamId = Function.update s.streamId i none)
      (hshown : t.shown = s.shown) (hregs : ∀ k f, Tells (s.regs k) f → Tells (t.regs k) f)

/-- A format with YUV pixels is set on a surface whose stream is enabled. -/
def Restarts (s : Streams ι) : VideoAct ι → Prop
  | .setSurface i pixelFormat _ _ => pixelFormat ≠ 0 ∧ s.noYUV = false ∧ s.on i = true
  | _ => False

section Overlays

variable {s t : Streams ι} {i : ι} {o : Overlay} {b : Bool} {id : Option ℕ} {f : Frame}

theorem on_eq_update (h : t.overlays = Function.update s.overlays i o) (hb : o.enabled = b) :
    t.on = Function.update s.on i b := by
  funext j
  rw [on, h, ← hb]
  exact Function.apply_update (fun _ o => Overlay.enabled o) s.overlays i o j

theorem streamId_eq_update (h : t.overlays = Function.update s.overlays i o)
    (hid : o.streamId = id) : t.streamId = Function.update s.streamId i id := by
  funext j
  rw [streamId, h, ← hid]
  exact Function.apply_update (fun _ o => Overlay.streamId o) s.overlays i o j

theorem shown_eq_update (h : t.overlays = Function.update s.overlays i o) (hf : o.shown = f) :
    t.shown = Function.update s.shown i f := by
  funext j
  rw [shown, h, ← hf]
  exact Function.apply_update (fun _ o => Overlay.shown o) s.overlays i o j

/-- The overlay of one surface changes in what is not about its stream. -/
theorem moves_of_update (h : t.overlays = Function.update s.overlays i o)
    (hmask : t.mask = s.mask) (hon : o.enabled = s.on i)
    (hid : s.on i = true → o.streamId = s.streamId i) (hshown : o.shown = s.shown i)
    (hregs : ∀ k f, Tells (s.regs k) f → Tells (t.regs k) f) : Moves s.view t.view := by
  refine .keep hmask ?_ (fun j hj => ?_) ?_ hregs
  · exact (on_eq_update h hon).trans (Function.update_eq_self i s.on)
  · show t.streamId j = s.streamId j
    rw [streamId_eq_update h rfl]
    by_cases hji : j = i
    · subst hji
      rw [Function.update_self, hid hj]
    · rw [Function.update_of_ne hji]
  · exact (shown_eq_update h hshown).trans (Function.update_eq_self i s.shown)

theorem view_setSurf (s : Streams ι) (i : ι) (surf : Surf) :
    (s.setOverlay i { s.overlays i with surf := surf }).view = s.view := by
  simp only [view, View.mk.injEq]
  refine ⟨rfl, ?_, ?_, ?_, rfl⟩
  · refine (on_eq_update (b := s.on i) rfl ?_).trans (Function.update_eq_self i s.on)
    rfl
  · refine (streamId_eq_update rfl ?_).trans (Function.update_eq_self i s.streamId)
    rfl
  · refine (shown_eq_update (f := s.shown i) rfl ?_).trans (Function.update_eq_self i s.shown)
    rfl

theorem Moves.refl (s : View ι) : Moves s s :=
  .keep rfl rfl (fun _ _ => rfl) rfl fun _ _ => id

end Overlays

variable {s : Streams ι} {i : ι}

/-- Registers that no frame is told in may change. -/
theorem tells_videoSetRegsInRange {regs : ℕ → OverlayUnit} {id : Option ℕ} {unit : OverlayUnit}
    {minReg maxReg : VideoReg} {k : ℕ} {f : Frame} (h : Tells (regs k) f)
    (hrange : (minReg, maxReg) = (.enabled, .enabled) ∨ (minReg, maxReg) = (.dstX, .dstHeight)) :
    Tells (videoSetRegsInRange regs id unit minReg maxReg k) f := by
  cases id with
  | none => exact h
  | some l =>
    by_cases hkl : k = l
    · subst hkl
      rw [videoSetRegsInRange_self]
      rcases hrange with hr | hr <;> cases hr <;>
        exact ⟨h.dataOffset, h.dataGMRID, h.size, h.pitch1, h.width, h.height⟩
    · rw [videoSetRegsInRange_of_ne hkl]
      exact h

theorem freeStreamID_of_getLsbD {mask : BitVec 32} {k : ℕ} (h : mask.getLsbD k = true) :
    freeStreamID mask k = mask &&& ~~~BitVec.twoPow 32 k :=
  if_neg (Nat.not_le.mpr (BitVec.lt_of_getLsbD h))

theorem moves_videoOff (h : Bits.Placed s.mask s.on s.streamId) (i : ι) :
    Moves s.view (s.videoOff i).view := by
  simp only [videoOff]
  split
  · exact .refl _
  · rename_i hrun
    obtain ⟨-, hon⟩ := not_not.mp hrun
    obtain ⟨k, hk, hbit⟩ := h.own i hon
    refine .stop i k hon hk ?_ (on_eq_update rfl rfl) (streamId_eq_update rfl rfl) ?_ ?_
    · show (s.overlays i).streamId.elim s.mask (freeStreamID s.mask) = _
      rw [show (s.overlays i).streamId = some k from hk]
      exact freeStreamID_of_getLsbD hbit
    · refine (shown_eq_update (f := s.shown i) rfl ?_).trans (Function.update_eq_self i s.shown)
      rfl
    · exact fun l f hf => tells_videoSetRegsInRange hf (.inl rfl)

theorem tells_startVideo (o : Overlay) (r : Region) (regs : ℕ → OverlayUnit) (k : ℕ) :
    Tells (videoSetRegsInRange regs (some k)
      (Function.update (setVideoDest r (o.surf.setVideoRegs o.pixelFormat)) .enabled 1)
      .enabled .dstScreenID k) o.surf.frame := by
  rw [videoSetRegsInRange_self]
  exact ⟨rfl, rfl, rfl, rfl, rfl, rfl⟩

theorem moves_startVideo (hoff : s.on i = false) (r : Region) :
    Moves s.view (s.startVideo i r).2.view := by
  unfold startVideo
  rcases allocStreamID_cases s.mask with hnone | ⟨k, hk, hsome⟩
  · rw [hnone]
    refine moves_of_update rfl rfl rfl (fun hon => ?_) rfl fun _ _ => id
    exact absurd (hoff.symm.trans hon) Bool.false_ne_true
  · rw [hsome]
    refine .start i k _ hoff hk rfl (on_eq_update rfl rfl) (streamId_eq_update rfl rfl)
      (shown_eq_update rfl rfl) (tells_startVideo _ r _ k) fun l hl => ?_
    exact videoSetRegsInRange_of_ne hl

theorem moves_flushVideo (s : Streams ι) (i : ι) : Moves s.view (s.flushVideo i).2.view := by
  simp only [flushVideo]
  split
  · exact .refl _
  · split
    · exact .refl _
    · split
      · exact .refl _
      · split
        · exact .refl _
        · rename_i hoff
          exact moves_startVideo (Bool.not_eq_true _ ▸ hoff) _

theorem moves_videoReshape (s : Streams ι) (i : ι) : Moves s.view (s.videoReshape i).view := by
  simp only [videoReshape]
  split
  · exact .refl _
  · split
    · exact .refl _
    · exact moves_of_update rfl rfl rfl (fun _ => rfl) rfl fun k f hf =>
        tells_videoSetRegsInRange hf (.inr rfl)

theorem moves_call (s : Streams ι) (i : ι) (c : Call) (e : Env) :
    Moves s.view (s.call i c e).2.view := by
  have hsurf := view_setSurf s i ((s.overlays i).surf.exec e c).2
  cases c with
  | setShape a =>
    simp only [call]
    split
    · exact hsurf ▸ moves_videoReshape _ i
    · exact hsurf ▸ .refl _
  | _ => exact hsurf ▸ .refl _

/-- A call that restarts no stream moves one at most. -/
theorem moves_exec (h : Bits.Placed s.mask s.on s.streamId) {a : VideoAct ι}
    (ha : ¬ s.Restarts a) : Moves s.view (s.exec a).view := by
  cases a with
  | setSurface i pixelFormat applePixelFormat f =>
    simp only [exec, setSurface]
    split
    · rw [view_setSurf]
      exact moves_videoOff h i
    · split
      · exact .refl _
      · rename_i hformat hyuv
        have hoff : s.on i = false := by
          by_contra hon
          exact ha ⟨hformat, Bool.eq_false_of_not_eq_true hyuv, Bool.eq_true_of_not_eq_false hon⟩
        exact moves_of_update rfl rfl hoff.symm (fun _ => rfl) rfl fun _ _ => id
  | flushVideo i => exact moves_flushVideo s i
  | videoOff i => exact moves_videoOff h i
  | call i c e => exact moves_call s i c e

/-- A call that restarts a stream disables it and forgets to give it back. -/
theorem view_restart {a : VideoAct ι} (ha : s.Restarts a) :
    ∃ i, s.on i = true ∧ (s.exec a).view = { s.view with on := Function.update s.on i false } := by
  cases a with
  | setSurface i pixelFormat applePixelFormat f =>
    obtain ⟨hformat, hyuv, hon⟩ := ha
    refine ⟨i, hon, ?_⟩
    simp only [exec, setSurface, if_neg hformat, hyuv, Bool.false_eq_true, if_false, view,
      View.mk.injEq]
    refine ⟨rfl, on_eq_update rfl rfl, ?_, ?_, rfl⟩
    · refine (streamId_eq_update rfl ?_).trans (Function.update_eq_self i s.streamId)
      rfl
    · refine (shown_eq_update (f := s.shown i) rfl ?_).trans (Function.update_eq_self i s.shown)
      rfl
  | flushVideo i => exact ha.elim
  | videoOff i => exact ha.elim
  | call i c e => exact ha.elim

/-! ### Allocated streams and enabled surfaces -/

/-- The allocated stream ids are those of the enabled surfaces, of which no two share one. -/
def Exact (s : Streams ι) : Prop := Bits.Held s.mask s.on s.streamId

omit [DecidableEq ι] in
theorem exact_init (noYUV : Bool) (regs : ℕ → OverlayUnit) (surfs : ι → Surf) :
    (init noYUV regs surfs).Exact where
  own _ h := absurd h (by simp [on, init, Overlay.enabled])
  inj _ _ h := absurd h (by simp [on, init, Overlay.enabled])
  used _ h := absurd h (by simp [init])

theorem Exact.exec {a : VideoAct ι} (h : s.Exact) (ha : ¬ s.Restarts a) : (s.exec a).Exact := by
  unfold Exact at h ⊢
  cases moves_exec h.toPlaced ha with
  | keep hmask hon hid _ _ =>
    rw [show (s.exec a).mask = s.mask from hmask]
    exact h.congr (fun i => congrFun hon i) hid
  | start i k f hoff hk hmask hon hid _ _ _ =>
    rw [show (s.exec a).mask = _ from hmask, show (s.exec a).on = _ from hon,
      show (s.exec a).streamId = _ from hid]
    exact h.set hoff hk
  | stop i k hi hk hmask hon hid _ _ =>
    rw [show (s.exec a).mask = _ from hmask, show (s.exec a).on = _ from hon,
      show (s.exec a).streamId = _ from hid]
    exact h.clear hi hk

/-- The stream of a surface that is restarted stays allocated and is nobody's. -/
theorem Exact.not_exec {a : VideoAct ι} (h : s.Exact) (ha : s.Restarts a) :
    ¬ (s.exec a).Exact := by
  obtain ⟨i, hon, hview⟩ := view_restart ha
  intro hexec
  have hdrop : Bits.Held (s.exec a).view.mask (s.exec a).view.on (s.exec a).view.streamId := hexec
  rw [hview] at hdrop
  exact Bits.Held.not_drop h hon hdrop

theorem exact_iff_not_restarts (noYUV : Bool) (regs : ℕ → OverlayUnit) (surfs : ι → Surf)
    (acts : List (VideoAct ι)) :
    Runs.Always exec Exact (init noYUV regs surfs) acts ↔
      Runs.Each exec (fun s a => ¬ s.Restarts a) (init noYUV regs surfs) acts :=
  Runs.always_iff_each (exact_init noYUV regs surfs) (fun _ h => h) (fun _ _ h ha => h.exec ha)
    fun _ _ h ha => h.not_exec (not_not.mp ha)

/-- A surface of 16-bit pixels that is shaped and has a page of VRAM. -/
def videoSurf : Surf :=
  { newSurf with
    lastRegion := some ⟨⟨0, 0, 32, 16⟩, [⟨0, 0, 32, 16⟩]⟩
    backing := ⟨some 4096, none, 0, 4096, .vram, 0⟩
    scale := ⟨⟨0, 0, 32, 16⟩, 32, 16, 4096, 64, 0⟩ }

/-- The surface's format is set twice, with a flush in between: the stream stays allocated and no
surface has it. -/
theorem not_exact_restarted :
    ¬ Runs.Always exec Exact (init false (fun _ _ => 0) fun _ : Unit => videoSurf)
      [.setSurface () 0x59565955 0 ⟨false, true, true⟩, .flushVideo (),
        .setSurface () 0x59565955 0 ⟨false, true, true⟩] := by
  intro h
  obtain ⟨i, hi, -⟩ := (h _ List.prefix_rfl).used 0 (by decide +kernel)
  exact absurd hi (by cases i; decide +kernel)

end Streams

end Cesvga2.Surface
