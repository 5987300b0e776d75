import Cesvga2.Surface.Screen

/-! The five ways by which `surface_flush` brings the pixels of the buffer to the master surface or
to a screen. At equal size they all do the same: each pixel of the region gets the pixel of the
buffer at its distance from the corner of the region's bounds. -/

namespace Cesvga2.Surface

open Planes

namespace Surf

variable (s : Surf) (a : Accel)

/-- What the functions check first. -/
def outputRegion : Except IOReturn Region :=
  match s.lastRegion with
  | some r => if s.isBackingValid then .ok r else .error .notReady
  | none => .error .notReady

/-- The buffer in guest memory, with the deltas of the source and of the destination. -/
def bufferInfo (srcDeltaX srcDeltaY dstDeltaX dstDeltaY : ℤ) : ExtraInfo :=
  ⟨s.backing.gmr, s.backing.offset + s.scale.offset, s.scale.pitch,
    srcDeltaX, srcDeltaY, dstDeltaX, dstDeltaY⟩

/-- `set_region(&tmpRegion.r, 0, 0, width, height)`. -/
def bufferRegion : Region :=
  let b : Bounds := ⟨0, 0, s.scale.buffer.w, s.scale.buffer.h⟩
  ⟨b, [b]⟩

def dmaOutDirect : Except IOReturn (List Cmd) := do
  let r ← s.outputRegion
  (a.surfaceDMA2D a.master r (s.bufferInfo (-r.bounds.x.toInt) (-r.bounds.y.toInt) 0 0)).mapError
    fun _ => .dmaError

def dmaOutWithCopy : Except IOReturn (List Cmd) := do
  let r ← s.outputRegion
  let deltaX := -r.bounds.x.toInt
  let deltaY := -r.bounds.y.toInt
  let define ← (a.createSurface a.aux₀ s.scale.buffer.w s.scale.buffer.h).mapError
    fun _ => .noResources
  let dma ← (a.surfaceDMA2D a.aux₀ r (s.bufferInfo deltaX deltaY deltaX deltaY)).mapError
    fun _ => .dmaError
  let copy ← (a.surfaceCopy a.aux₀ a.master r (.source deltaX deltaY)).mapError
    fun _ => .notWritable
  return define ++ dma ++ copy ++ a.destroySurface a.aux₀

def dmaOutStretchWithCopy : Except IOReturn (List Cmd) := do
  let r ← s.outputRegion
  let define₁ ← (a.createSurface a.aux₁ s.scale.buffer.w s.scale.buffer.h).mapError
    fun _ => .noResources
  let dma ← (a.surfaceDMA2D a.aux₁ s.bufferRegion (s.bufferInfo 0 0 0 0)).mapError
    fun _ => .dmaError
  let define₀ ← (a.createSurface a.aux₀ r.bounds.w r.bounds.h).mapError fun _ => .noResources
  let stretch ← (a.surfaceStretch a.aux₁ a.aux₀ s.bufferRegion.bounds
    ⟨0, 0, r.bounds.w, r.bounds.h⟩).mapError fun _ => .notWritable
  let copy ← (a.surfaceCopy a.aux₀ a.master r
    (.source (-r.bounds.x.toInt) (-r.bounds.y.toInt))).mapError fun _ => .notWritable
  return define₁ ++ dma ++ define₀ ++ stretch ++ a.destroySurface a.aux₁ ++ copy ++
    a.destroySurface a.aux₀

def screenObjectOutDirect : Except IOReturn (List Cmd) := do
  let r ← s.outputRegion
  (a.blitToScreen s.framebufferIndex r
    (s.bufferInfo (-r.bounds.x.toInt) (-r.bounds.y.toInt) 0 0)).mapError fun _ => .dmaError

def screenObjectOutVia3D : Except IOReturn (List Cmd) := do
  let r ← s.outputRegion
  let define ← (a.createSurface a.aux₀ s.scale.buffer.w s.scale.buffer.h).mapError
    fun _ => .noResources
  let dma ← (a.surfaceDMA2D a.aux₀ s.bufferRegion (s.bufferInfo 0 0 0 0)).mapError
    fun _ => .dmaError
  let blit ← (a.blitSurfaceToScreen a.aux₀ s.framebufferIndex s.bufferRegion.bounds r).mapError
    fun _ => .notWritable
  return define ++ dma ++ blit ++ a.destroySurface a.aux₀

end Surf

/-- The region of a flush at equal size: some rectangles with no negative numbers, all of them in
the bounds. -/
structure Region.Plain (r : Region) (buffer : Bounds) : Prop where
  nonempty : r.rects ≠ []
  nonneg : ∀ b ∈ r.rects, 0 ≤ b.x.toInt ∧ 0 ≤ b.y.toInt ∧ 0 ≤ b.w.toInt ∧ 0 ≤ b.h.toInt
  inside : ∀ b ∈ r.rects,
    r.bounds.x.toInt ≤ b.x.toInt ∧ b.x.toInt + b.w.toInt ≤ r.bounds.x.toInt + r.bounds.w.toInt ∧
    r.bounds.y.toInt ≤ b.y.toInt ∧ b.y.toInt + b.h.toInt ≤ r.bounds.y.toInt + r.bounds.h.toInt
  width : r.bounds.w = buffer.w
  height : r.bounds.h = buffer.h

variable {α : Type*}

/-- The pixel of the buffer window in the backing. -/
def Surf.window (s : Surf) (d : Device α) (x y : ℤ) : α :=
  d.guest s.backing.gmr
    (u32 (s.backing.offset + s.scale.offset) + y.toNat * u32 s.scale.pitch + 4 * x.toNat)

/-- The destination has the pixels of the window in the rectangles of the region, and what it had
elsewhere. -/
structure Shows (window : ℤ → ℤ → α) (r : Region) (i j : Image α) : Prop where
  extent : j.extent = i.extent
  pixel : ∀ x y, i.extent.Has x y → j.px x y =
    if Covers r.cover x y then window (x - r.bounds.x.toInt) (y - r.bounds.y.toInt) else i.px x y

/-! ### Boxes of a region -/

theorem shows_draw {window : ℤ → ℤ → α} {r : Region} {i : Image α} {f : Source α}
    (h : ∀ x y, Covers r.cover x y →
      f x y = some (window (x - r.bounds.x.toInt) (y - r.bounds.y.toInt))) :
    Shows window r i (i.draw r.cover f) := by
  refine ⟨rfl, fun x y he => ?_⟩
  rw [Image.draw_px]
  by_cases hc : Covers r.cover x y
  · rw [if_pos ⟨hc, he⟩, if_pos hc, h x y hc, Option.getD_some]
  · rw [if_neg (fun hp => hc hp.1), if_neg hc]

/-- The numbers of the box are those of the rectangle and the deltas; none is negative. -/
structure Exact (e : ExtraInfo) (b : Bounds) : Prop where
  x : 0 ≤ b.x.toInt + e.dstDeltaX ∧ b.x.toInt + e.dstDeltaX < 2 ^ 32
  y : 0 ≤ b.y.toInt + e.dstDeltaY ∧ b.y.toInt + e.dstDeltaY < 2 ^ 32
  srcx : 0 ≤ b.x.toInt + e.srcDeltaX ∧ b.x.toInt + e.srcDeltaX < 2 ^ 32
  srcy : 0 ≤ b.y.toInt + e.srcDeltaY ∧ b.y.toInt + e.srcDeltaY < 2 ^ 32
  w : 0 ≤ b.w.toInt
  h : 0 ≤ b.h.toInt

theorem ofInt32_int16 {n : Int16} (h : 0 ≤ n.toInt) : (ofInt32 n.toInt : ℤ) = n.toInt :=
  ofInt32_of_nonneg h (by have := n.toInt_lt; omega)

theorem Exact.draw_box {e : ExtraInfo} {b : Bounds} (h : Exact e b) (src : Source α) (i : Image α) :
    (i.draw [(e.box b).rect] fun x y =>
      src (x - (e.box b).x + (e.box b).srcx) (y - (e.box b).y + (e.box b).srcy)) =
    i.draw [b.rect.shift e.dstDeltaX e.dstDeltaY] fun x y =>
      src (x - e.dstDeltaX + e.srcDeltaX) (y - e.dstDeltaY + e.srcDeltaY) := by
  have hx := ofInt32_of_nonneg h.x.1 h.x.2
  have hy := ofInt32_of_nonneg h.y.1 h.y.2
  have hsx := ofInt32_of_nonneg h.srcx.1 h.srcx.2
  have hsy := ofInt32_of_nonneg h.srcy.1 h.srcy.2
  have hw := ofInt32_int16 h.w
  have hh := ofInt32_int16 h.h
  congr 1
  · simp only [CopyBox.rect, ExtraInfo.box, Rect.shift, Bounds.rect, hx, hy, hw, hh]
    congr 2 <;> ring
  · funext x y
    simp only [ExtraInfo.box, hx, hy, hsx, hsy]
    congr 1 <;> ring

/-- The boxes of a region draw its rectangles, moved by the deltas. -/
theorem copy_region {r : Region} {e : ExtraInfo} (h : ∀ b ∈ r.rects, Exact e b) (src : Source α)
    (i : Image α) :
    copy src (r.rects.map e.box) i =
      i.draw (r.cover.map (·.shift e.dstDeltaX e.dstDeltaY)) fun x y =>
        src (x - e.dstDeltaX + e.srcDeltaX) (y - e.dstDeltaY + e.srcDeltaY) := by
  rw [copy, ← Image.foldl_draw, Region.cover, List.map_map, List.foldl_map, List.foldl_map]
  refine List.foldl_ext _ _ _ fun i b hb => ?_
  exact (h b hb).draw_box src i

/-! ### The window -/

section

variable {s : Surf} {r : Region} {d : Device α} {x y : ℤ}

theorem pixels_bufferInfo (sx sy dx dy : ℤ) (hx : 0 ≤ x) (hy : 0 ≤ y) :
    d.pixels (s.bufferInfo sx sy dx dy).guestImage x y = some (s.window d x y) :=
  if_pos ⟨hx, hy⟩

/-- A pixel of the region lies in the buffer, counted from the corner of the bounds. -/
theorem Region.Plain.mem_buffer (h : r.Plain s.scale.buffer) (hc : Covers r.cover x y) :
    (0 ≤ x - r.bounds.x.toInt ∧ x - r.bounds.x.toInt < s.scale.buffer.w.toInt) ∧
      0 ≤ y - r.bounds.y.toInt ∧ y - r.bounds.y.toInt < s.scale.buffer.h.toInt := by
  obtain ⟨_, hmem, hx⟩ := hc
  obtain ⟨b, hb, rfl⟩ := List.mem_map.mp hmem
  have hin := h.inside b hb
  rw [h.width, h.height] at hin
  simp only [Rect.Has, Bounds.rect] at hx
  omega

/-- The deltas that count from the corner of the bounds, on either side. -/
theorem Region.Plain.exact (h : r.Plain s.scale.buffer) {e : ExtraInfo}
    (hsx : e.srcDeltaX = -r.bounds.x.toInt) (hsy : e.srcDeltaY = -r.bounds.y.toInt)
    (hd : e.dstDeltaX = 0 ∧ e.dstDeltaY = 0 ∨
      e.dstDeltaX = -r.bounds.x.toInt ∧ e.dstDeltaY = -r.bounds.y.toInt) :
    ∀ b ∈ r.rects, Exact e b := by
  intro b hb
  have hin := h.inside b hb
  have hnn := h.nonneg b hb
  have h1 := b.x.toInt_lt
  have h2 := b.y.toInt_lt
  have h3 := r.bounds.x.le_toInt
  have h4 := r.bounds.y.le_toInt
  constructor <;> omega

/-- A surface of the size of the buffer, with the window in it. -/
def Surf.bufferImage (s : Surf) (d : Device α) : Image α :=
  copy (d.pixels (s.bufferInfo 0 0 0 0).guestImage)
    (s.bufferRegion.rects.map (s.bufferInfo 0 0 0 0).box)
    ⟨ofInt32 s.scale.buffer.w.toInt, ofInt32 s.scale.buffer.h.toInt, d.fresh⟩

theorem has_bufferExtent {px : ℤ → ℤ → α} (hx : 0 ≤ x ∧ x < s.scale.buffer.w.toInt)
    (hy : 0 ≤ y ∧ y < s.scale.buffer.h.toInt) :
    (⟨ofInt32 s.scale.buffer.w.toInt, ofInt32 s.scale.buffer.h.toInt, px⟩ : Image α).extent.Has
      x y := by
  have hw := ofInt32_int16 (n := s.scale.buffer.w) (by omega)
  have hh := ofInt32_int16 (n := s.scale.buffer.h) (by omega)
  simp only [Rect.Has, Image.extent, hw, hh]
  omega

theorem read_bufferImage (hx : 0 ≤ x ∧ x < s.scale.buffer.w.toInt)
    (hy : 0 ≤ y ∧ y < s.scale.buffer.h.toInt) :
    (s.bufferImage d).read x y = some (s.window d x y) := by
  have hexact : ∀ b ∈ s.bufferRegion.rects, Exact (s.bufferInfo 0 0 0 0) b := by
    intro b hb
    rw [List.mem_singleton.mp hb]
    refine ⟨?_, ?_, ?_, ?_, ?_, ?_⟩ <;> simp [Surf.bufferInfo] <;> omega
  rw [Surf.bufferImage, copy_region hexact]
  refine Image.read_draw ⟨_, List.mem_singleton_self _, ?_⟩ (has_bufferExtent hx hy) ?_
  · simp [Rect.Has, Bounds.rect, Rect.shift, Surf.bufferInfo]
    omega
  · simp only [Surf.bufferInfo, sub_zero, add_zero]
    exact pixels_bufferInfo 0 0 0 0 hx.1 hy.1

/-! ### The paths -/

variable {a : Accel} {σ : Scaler α} {i : Image α}

theorem has_stretchBox (hx : 0 ≤ x ∧ x < s.scale.buffer.w.toInt)
    (hy : 0 ≤ y ∧ y < s.scale.buffer.h.toInt) : (stretchBox s.bufferRegion.bounds).Has x y := by
  have hw := ofInt32_int16 (n := s.scale.buffer.w) (by omega)
  have hh := ofInt32_int16 (n := s.scale.buffer.h) (by omega)
  have h0 : (ofInt32 (0 : Int16).toInt : ℤ) = 0 := by decide
  simp only [stretchBox, Surf.bufferRegion, Rect.Has, hw, hh, h0]
  omega

theorem Region.Plain.has_bounds (hp : r.Plain s.scale.buffer) (hc : Covers r.cover x y) :
    (convertRect r.bounds 0 0).Has x y := by
  obtain ⟨hx, hy⟩ := hp.mem_buffer hc
  rw [← hp.width] at hx
  rw [← hp.height] at hy
  simp only [convertRect, Rect.shift_zero, Bounds.rect, Rect.Has]
  omega

/-- The clip rectangles, moved back to where they came from, are those of the region. -/
theorem Region.Plain.covers_clipped (hp : r.Plain s.scale.buffer) :
    Covers (clipped (convertRect r.bounds 0 0) (r.rects.map fun b =>
      convertRect b (-(convertRect r.bounds 0 0).left) (-(convertRect r.bounds 0 0).top))) x y ↔
    Covers r.cover x y := by
  have hclip : Covers (clipped (convertRect r.bounds 0 0) (r.rects.map fun b =>
      convertRect b (-(convertRect r.bounds 0 0).left) (-(convertRect r.bounds 0 0).top))) x y ↔
      Covers r.cover x y ∧ (convertRect r.bounds 0 0).Has x y := by
    simp [clipped, hp.nonempty, Covers, convertRect, Region.cover, ← and_assoc]
  rw [hclip, and_iff_left_iff_imp]
  exact hp.has_bounds

/-- The blit of a surface that has the window to the bounds of the region, clipped to its
rectangles. -/
theorem Region.Plain.blit_shows (hp : r.Plain s.scale.buffer) {window : ℤ → ℤ → α} {f : Source α}
    (hf : ∀ x y, 0 ≤ x ∧ x < s.scale.buffer.w.toInt → 0 ≤ y ∧ y < s.scale.buffer.h.toInt →
      f x y = some (window x y)) :
    Shows window r i (i.draw (clipped (convertRect r.bounds 0 0) (r.rects.map fun b =>
        convertRect b (-(convertRect r.bounds 0 0).left) (-(convertRect r.bounds 0 0).top)))
      (σ.sample (convertRect s.bufferRegion.bounds 0 0) (convertRect r.bounds 0 0) f)) := by
  have hzero : convertRect s.bufferRegion.bounds 0 0 =
      ⟨0, 0, s.scale.buffer.w.toInt, s.scale.buffer.h.toInt⟩ := by
    simp [convertRect, Bounds.rect, Surf.bufferRegion]
  have hbounds : convertRect r.bounds 0 0 = r.bounds.rect := Rect.shift_zero _
  rw [Image.draw_congr_rects fun x y => hp.covers_clipped]
  refine shows_draw fun x y hc => ?_
  obtain ⟨hx, hy⟩ := hp.mem_buffer hc
  rw [σ.same_size _ _ _ ?_ ?_ _ _ (hp.has_bounds hc), hzero, hbounds, add_zero, add_zero]
  · exact hf _ _ hx hy
  · simp [hzero, hbounds, Bounds.rect, hp.width]
  · simp [hzero, hbounds, Bounds.rect, hp.height]

/-- The blits of the rectangles, all from the GMRFB at the same distance. -/
theorem run_blits (dx dy : ℤ) (k : ℕ) (rects : List Bounds) (d : Device α) :
    d.run σ (rects.map fun b => .blitGMRFBToScreen (b.x.toInt - dx) (b.y.toInt - dy)
      (b.rect.shift 0 0) k) =
    d.drawScreen k (rects.map Bounds.rect) fun x y => d.pixels d.gmrfb (x - dx) (y - dy) := by
  induction rects generalizing d with
  | nil => exact Device.drawScreen_nil.symm
  | cons b rects ih =>
    have hsrc : (fun x y => d.pixels d.gmrfb (x - b.rect.left + (b.x.toInt - dx))
        (y - b.rect.top + (b.y.toInt - dy))) = fun x y => d.pixels d.gmrfb (x - dx) (y - dy) := by
      funext x y
      congr 1 <;> simp only [Bounds.rect] <;> ring
    rw [List.map_cons, Device.run, List.foldl_cons, ← Device.run, ih, Device.exec, Rect.shift_zero,
      hsrc, List.map_cons]
    exact Device.drawScreen_drawScreen

/-- Without deltas of the destination the boxes draw the region itself. -/
theorem copy_cover {e : ExtraInfo} (h : ∀ b ∈ r.rects, Exact e b) (hdx : e.dstDeltaX = 0)
    (hdy : e.dstDeltaY = 0) (src : Source α) (i : Image α) :
    copy src (r.rects.map e.box) i =
      i.draw r.cover fun x y => src (x + e.srcDeltaX) (y + e.srcDeltaY) := by
  rw [copy_region h, hdx, hdy]
  simp only [Rect.shift_zero, List.map_id_fun', id, sub_zero]

/-- The region is copied from a surface that has the window. -/
theorem shows_of_read (hp : r.Plain s.scale.buffer) {f : Source α}
    (hf : ∀ x y, Covers r.cover x y →
      f (x - r.bounds.x.toInt) (y - r.bounds.y.toInt) =
        some (s.window d (x - r.bounds.x.toInt) (y - r.bounds.y.toInt))) :
    Shows (s.window d) r i (copy f
      (r.rects.map (ExtraInfo.source (-r.bounds.x.toInt) (-r.bounds.y.toInt)).box) i) := by
  rw [copy_cover (hp.exact rfl rfl (.inl ⟨rfl, rfl⟩)) rfl rfl]
  exact shows_draw hf

section

variable (hr : s.lastRegion = some r) (hb : s.isBackingValid = true)

include hr hb

theorem outputRegion_eq : s.outputRegion = .ok r := by
  simp [Surf.outputRegion, hr, hb]

theorem dmaOutDirect_eq (h3D : a.haveSVGA3D = true) :
    let e := s.bufferInfo (-r.bounds.x.toInt) (-r.bounds.y.toInt) 0 0
    s.dmaOutDirect a = .ok [.surfaceDMA e.guestImage a.master (r.rects.map e.box)] := by
  simp only [Surf.dmaOutDirect, outputRegion_eq hr hb, Accel.surfaceDMA2D, Accel.with3D, h3D]
  rfl

theorem dmaOutWithCopy_eq (h3D : a.haveSVGA3D = true) :
    let e := s.bufferInfo (-r.bounds.x.toInt) (-r.bounds.y.toInt) (-r.bounds.x.toInt)
      (-r.bounds.y.toInt)
    let e' := ExtraInfo.source (-r.bounds.x.toInt) (-r.bounds.y.toInt)
    s.dmaOutWithCopy a = .ok
      [.defineSurface a.aux₀ (ofInt32 s.scale.buffer.w.toInt) (ofInt32 s.scale.buffer.h.toInt),
        .surfaceDMA e.guestImage a.aux₀ (r.rects.map e.box),
        .surfaceCopy a.aux₀ a.master (r.rects.map e'.box), .destroySurface a.aux₀] := by
  simp only [Surf.dmaOutWithCopy, outputRegion_eq hr hb, Accel.createSurface, Accel.surfaceDMA2D,
    Accel.surfaceCopy, Accel.destroySurface, Accel.with3D, h3D]
  rfl

theorem dmaOutStretchWithCopy_eq (h3D : a.haveSVGA3D = true) :
    let e := s.bufferInfo 0 0 0 0
    let e' := ExtraInfo.source (-r.bounds.x.toInt) (-r.bounds.y.toInt)
    s.dmaOutStretchWithCopy a = .ok
      [.defineSurface a.aux₁ (ofInt32 s.scale.buffer.w.toInt) (ofInt32 s.scale.buffer.h.toInt),
        .surfaceDMA e.guestImage a.aux₁ (s.bufferRegion.rects.map e.box),
        .defineSurface a.aux₀ (ofInt32 r.bounds.w.toInt) (ofInt32 r.bounds.h.toInt),
        .surfaceStretchBlt a.aux₁ a.aux₀ (stretchBox s.bufferRegion.bounds)
          (stretchBox ⟨0, 0, r.bounds.w, r.bounds.h⟩),
        .destroySurface a.aux₁, .surfaceCopy a.aux₀ a.master (r.rects.map e'.box),
        .destroySurface a.aux₀] := by
  simp only [Surf.dmaOutStretchWithCopy, outputRegion_eq hr hb, Accel.createSurface,
    Accel.surfaceDMA2D, Accel.surfaceStretch, Accel.surfaceCopy, Accel.destroySurface,
    Accel.with3D, h3D]
  rfl

theorem screenObjectOutDirect_eq (hso : a.haveScreenObject = true) :
    let e := s.bufferInfo (-r.bounds.x.toInt) (-r.bounds.y.toInt) 0 0
    s.screenObjectOutDirect a = .ok (.defineGMRFB e.guestImage :: r.rects.map fun b =>
      .blitGMRFBToScreen (b.x.toInt - r.bounds.x.toInt) (b.y.toInt - r.bounds.y.toInt)
        (b.rect.shift 0 0) s.framebufferIndex) := by
  simp only [Surf.screenObjectOutDirect, outputRegion_eq hr hb, Accel.blitToScreen,
    Accel.withScreen, hso]
  rfl

theorem screenObjectOutVia3D_eq (h3D : a.haveSVGA3D = true) (hso : a.haveScreenObject = true) :
    let e := s.bufferInfo 0 0 0 0
    s.screenObjectOutVia3D a = .ok
      [.defineSurface a.aux₀ (ofInt32 s.scale.buffer.w.toInt) (ofInt32 s.scale.buffer.h.toInt),
        .surfaceDMA e.guestImage a.aux₀ (s.bufferRegion.rects.map e.box),
        .blitSurfaceToScreen a.aux₀ (convertRect s.bufferRegion.bounds 0 0) s.framebufferIndex
          (convertRect r.bounds 0 0) (r.rects.map fun b =>
            convertRect b (-(convertRect r.bounds 0 0).left) (-(convertRect r.bounds 0 0).top)),
        .destroySurface a.aux₀] := by
  simp only [Surf.screenObjectOutVia3D, outputRegion_eq hr hb, Accel.createSurface,
    Accel.surfaceDMA2D, Accel.blitSurfaceToScreen, Accel.destroySurface, Accel.with3D,
    Accel.withScreen, h3D, hso]
  rfl

section

variable (hp : r.Plain s.scale.buffer)

include hp

/-! #### To the master surface -/

theorem dmaOutDirect_shows (h3D : a.haveSVGA3D = true) (hi : d.surfaces a.master = some i) :
    ∃ cmds, s.dmaOutDirect a = .ok cmds ∧
      ∃ j ∈ (d.run σ cmds).surfaces a.master, Shows (s.window d) r i j := by
  refine ⟨_, dmaOutDirect_eq hr hb h3D, _,
    by simp [Device.run, Device.exec, Device.modify, hi]; rfl, ?_⟩
  rw [copy_cover (hp.exact rfl rfl (.inl ⟨rfl, rfl⟩)) rfl rfl]
  refine shows_draw fun x y hc => ?_
  obtain ⟨⟨hx, -⟩, hy, -⟩ := hp.mem_buffer hc
  exact pixels_bufferInfo _ _ _ _ hx hy

theorem dmaOutWithCopy_shows (h3D : a.haveSVGA3D = true) (hi : d.surfaces a.master = some i) :
    ∃ cmds, s.dmaOutWithCopy a = .ok cmds ∧
      ∃ j ∈ (d.run σ cmds).surfaces a.master, Shows (s.window d) r i j := by
  have hne := a.aux₀_ne
  refine ⟨_, dmaOutWithCopy_eq hr hb h3D, _, by
    simp [Device.run, Device.exec, Device.modify, hi, hne.symm]; rfl, ?_⟩
  refine shows_of_read hp fun x y hc => ?_
  obtain ⟨hx, hy⟩ := hp.mem_buffer hc
  rw [copy_region (hp.exact rfl rfl (.inr ⟨rfl, rfl⟩))]
  refine Image.read_draw (covers_shift.mpr ?_) (has_bufferExtent hx hy) ?_
  · simpa [Surf.bufferInfo] using hc
  · simp only [Surf.bufferInfo, sub_neg_eq_add, add_neg_cancel_right]
    exact pixels_bufferInfo _ _ _ _ hx.1 hy.1

/-- The window is stretched to its own size before it is copied. -/
theorem dmaOutStretchWithCopy_shows (h3D : a.haveSVGA3D = true)
    (hi : d.surfaces a.master = some i) :
    ∃ cmds, s.dmaOutStretchWithCopy a = .ok cmds ∧
      ∃ j ∈ (d.run σ cmds).surfaces a.master, Shows (s.window d) r i j := by
  have h0 := a.aux₀_ne
  have h1 := a.aux₁_ne
  have h01 := a.aux_ne
  have hbox : stretchBox ⟨0, 0, r.bounds.w, r.bounds.h⟩ = stretchBox s.bufferRegion.bounds := by
    rw [hp.width, hp.height]
    rfl
  refine ⟨_, dmaOutStretchWithCopy_eq hr hb h3D, _, by
    simp [Device.run, Device.exec, Device.modify, hi, h01, h0.symm, h1.symm, h01.symm]; rfl, ?_⟩
  refine shows_of_read hp fun x y hc => ?_
  obtain ⟨hx, hy⟩ := hp.mem_buffer hc
  have hhas := has_stretchBox (s := s) hx hy
  rw [hbox, hp.width, hp.height]
  refine Image.read_draw ⟨_, List.mem_singleton_self _, hhas⟩ (has_bufferExtent hx hy) ?_
  rw [σ.same_size _ _ _ rfl rfl _ _ hhas, sub_add_cancel, sub_add_cancel]
  exact read_bufferImage hx hy

/-! #### To a screen -/

theorem screenObjectOutDirect_shows (hso : a.haveScreenObject = true) :
    ∃ cmds, s.screenObjectOutDirect a = .ok cmds ∧
      Shows (s.window d) r (d.screens s.framebufferIndex)
        ((d.run σ cmds).screens s.framebufferIndex) := by
  refine ⟨_, screenObjectOutDirect_eq hr hb hso, ?_⟩
  rw [Device.run, List.foldl_cons, ← Device.run, run_blits]
  simp only [Device.drawScreen, Function.update_self]
  refine shows_draw fun x y hc => ?_
  obtain ⟨hx, hy⟩ := hp.mem_buffer hc
  exact pixels_bufferInfo _ _ _ _ hx.1 hy.1

theorem screenObjectOutVia3D_shows (h3D : a.haveSVGA3D = true) (hso : a.haveScreenObject = true) :
    ∃ cmds, s.screenObjectOutVia3D a = .ok cmds ∧
      Shows (s.window d) r (d.screens s.framebufferIndex)
        ((d.run σ cmds).screens s.framebufferIndex) := by
  refine ⟨_, screenObjectOutVia3D_eq hr hb h3D hso, ?_⟩
  simp only [Device.run, Device.exec, Device.modify, List.foldl_cons, List.foldl_nil,
    Function.update_self, Option.map_some, Option.elim_some, Device.drawScreen]
  exact hp.blit_shows fun x y => read_bufferImage

end

end

end

/-- At equal size all five paths show the window in the rectangles of the region, and change
nothing else of the destination, on a device that has what the path is for. -/
theorem outputs_show (σ : Scaler α) (a : Accel) (s : Surf) (d : Device α) (r : Region)
    (hr : s.lastRegion = some r) (hb : s.isBackingValid = true) (hp : r.Plain s.scale.buffer) :
    (a.haveSVGA3D = true → ∀ i, d.surfaces a.master = some i →
      (∃ cmds, s.dmaOutDirect a = .ok cmds ∧
        ∃ j ∈ (d.run σ cmds).surfaces a.master, Shows (s.window d) r i j) ∧
      (∃ cmds, s.dmaOutWithCopy a = .ok cmds ∧
        ∃ j ∈ (d.run σ cmds).surfaces a.master, Shows (s.window d) r i j) ∧
      ∃ cmds, s.dmaOutStretchWithCopy a = .ok cmds ∧
        ∃ j ∈ (d.run σ cmds).surfaces a.master, Shows (s.window d) r i j) ∧
    (a.haveScreenObject = true → ∃ cmds, s.screenObjectOutDirect a = .ok cmds ∧
      Shows (s.window d) r (d.screens s.framebufferIndex)
        ((d.run σ cmds).screens s.framebufferIndex)) ∧
    (a.haveSVGA3D = true → a.haveScreenObject = true →
      ∃ cmds, s.screenObjectOutVia3D a = .ok cmds ∧
        Shows (s.window d) r (d.screens s.framebufferIndex)
          ((d.run σ cmds).screens s.framebufferIndex)) := by
  refine ⟨fun h3D i hi => ⟨?_, ?_, ?_⟩, fun hso => ?_, fun h3D hso => ?_⟩
  · exact dmaOutDirect_shows hr hb hp h3D hi
  · exact dmaOutWithCopy_shows hr hb hp h3D hi
  · exact dmaOutStretchWithCopy_shows hr hb hp h3D hi
  · exact screenObjectOutDirect_shows hr hb hp hso
  · exact screenObjectOutVia3D_shows hr hb hp h3D hso

/-! ### A window at the left edge -/

/-- A device that always takes the pixel at the same distance from the corner. -/
def Scaler.unscaled : Scaler α where
  sample src dst f x y := f (x - dst.left + src.left) (y - dst.top + src.top)
  same_size _ _ _ _ _ _ _ _ := rfl

/-- A window of 4 by 3 pixels, of which the leftmost column and the first row are beyond the edges
of the screen. -/
def edgeRegion : Region := ⟨⟨-1, -1, 4, 3⟩, [⟨0, 0, 3, 1⟩, ⟨1, 1, 2, 1⟩]⟩

def edgeSurf : Surf :=
  { newSurf with
    haveScreenObject := true
    backing := ⟨some 4096, none, 4096, 4096, .vram, 0⟩
    lastRegion := some edgeRegion
    scale := ⟨⟨0, 0, 4, 3⟩, 4, 3, 4096, 16, 0⟩ }

def edgeAccel : Accel := ⟨true, true, 0, 1, 2, by decide, by decide, by decide⟩

/-- Every pixel of guest memory is its own address. -/
def edgeDevice : Device ℕ where
  guest _ n := n
  fresh _ _ := 0
  surfaces := Function.update (fun _ => none) 0 (some ⟨640, 480, fun _ _ => 0⟩)
  screens _ := ⟨640, 480, fun _ _ => 0⟩
  front := ⟨640, 480, fun _ _ => 0⟩
  gmrfb := ⟨.invalid, 0, 0⟩

theorem plain_edgeRegion : edgeRegion.Plain edgeSurf.scale.buffer :=
  ⟨by decide, by decide, by decide, by decide, by decide⟩

theorem outputs_show_edge :
    edgeRegion.Plain edgeSurf.scale.buffer ∧
      ∃ cmds, edgeSurf.dmaOutDirect edgeAccel = .ok cmds ∧
        ∃ j ∈ (edgeDevice.run .unscaled cmds).surfaces 0,
          Shows (edgeSurf.window edgeDevice) edgeRegion ⟨640, 480, fun _ _ => 0⟩ j :=
  ⟨plain_edgeRegion, ((outputs_show .unscaled edgeAccel edgeSurf edgeDevice edgeRegion rfl rfl
    plain_edgeRegion).1 rfl _ rfl).1⟩

end Cesvga2.Surface
