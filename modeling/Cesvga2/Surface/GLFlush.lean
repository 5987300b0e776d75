import Cesvga2.Surface.Output

/-! The flush of a surface in GL mode: its colour surface goes to a screen, or is presented where
there are no screen objects. The blit shows every window. The deltas of the present are assigned to
one variable, so that only a window at the corner of the screen is shown as it is. -/

namespace Cesvga2.Surface

open Planes

variable {α : Type*}

/-- For a surface with a last region, as `surface_flush` has it. -/
def Surf.flushGLSurface (s : Surf) (a : Accel) (colorSid : ℕ) (r : Region) :
    Except IOReturn (List Cmd) :=
  if s.haveScreenObject then
    a.blitSurfaceToScreen colorSid s.framebufferIndex ⟨0, 0, s.scale.buffer.w, s.scale.buffer.h⟩ r
  else
    let extra := ExtraInfo.source 0 0
    -- The delta of the rows is assigned to the columns as well.
    let extra := { extra with srcDeltaX := -r.bounds.x.toInt }
    let extra := { extra with srcDeltaX := -r.bounds.y.toInt }
    a.surfacePresentAutoSync colorSid r extra

/-- What the user of the surface looks at. -/
def Surf.display (s : Surf) (d : Device α) : Image α :=
  if s.haveScreenObject then d.screens s.framebufferIndex else d.front

/-- The flush shows the colour surface `c` in the rectangles of the region. -/
def Surf.Flushes (s : Surf) (a : Accel) (σ : Scaler α) (colorSid : ℕ) (r : Region) (d : Device α)
    (c : Image α) : Prop :=
  ∃ cmds, s.flushGLSurface a colorSid r = .ok cmds ∧
    ∀ x y, (s.display d).extent.Has x y → Covers r.cover x y →
      (s.display (d.run σ cmds)).px x y = c.px (x - r.bounds.x.toInt) (y - r.bounds.y.toInt)

/-- `attachGL` and `resizeGL` make the colour surface no smaller than the buffer. -/
def Surf.FitsGL (s : Surf) (c : Image α) : Prop :=
  s.scale.buffer.w.toInt ≤ c.width ∧ s.scale.buffer.h.toInt ≤ c.height

section

variable {s : Surf} {a : Accel} {σ : Scaler α} {colorSid : ℕ} {r : Region} {d : Device α}
  {c i : Image α} {x y : ℤ}

theorem Surf.FitsGL.read (h : s.FitsGL c) (hx : 0 ≤ x ∧ x < s.scale.buffer.w.toInt)
    (hy : 0 ≤ y ∧ y < s.scale.buffer.h.toInt) : c.read x y = some (c.px x y) := by
  obtain ⟨hw, hh⟩ := h
  refine Image.read_of_has ?_
  simp only [Rect.Has, Image.extent]
  omega

/-- A pixel stays as it is when the boxes over it bring the same value, or none. -/
theorem copy_px_of_same {src : Source α} {q : α} (boxes : List CopyBox) (hi : i.px x y = q)
    (h : ∀ b ∈ boxes, b.rect.Has x y →
      ∀ p ∈ src (x - b.x + b.srcx) (y - b.y + b.srcy), p = q) :
    (copy src boxes i).px x y = q := by
  induction boxes generalizing i with
  | nil => exact hi
  | cons b boxes ih =>
    refine ih ?_ fun b' hb' => h b' (List.mem_cons_of_mem b hb')
    rw [Image.draw_px]
    split
    case isTrue hc =>
      obtain ⟨⟨_, hmem, hhas⟩, -⟩ := hc
      rw [List.mem_singleton.mp hmem] at hhas
      cases hsrc : src (x - b.x + b.srcx) (y - b.y + b.srcy) with
      | none => exact hi
      | some p => exact h b List.mem_cons_self hhas p hsrc
    case isFalse => exact hi

/-! ### The blit -/

theorem flushGLSurface_blit (hs : s.haveScreenObject = true) (hso : a.haveScreenObject = true) :
    s.flushGLSurface a colorSid r = .ok
      [.blitSurfaceToScreen colorSid (convertRect s.bufferRegion.bounds 0 0) s.framebufferIndex
        (convertRect r.bounds 0 0) (r.rects.map fun b =>
          convertRect b (-(convertRect r.bounds 0 0).left) (-(convertRect r.bounds 0 0).top))] := by
  simp only [Surf.flushGLSurface, hs, Accel.blitSurfaceToScreen, Accel.withScreen, hso]
  rfl

theorem flushes_screen (hp : r.Plain s.scale.buffer) (hs : s.haveScreenObject = true)
    (hso : a.haveScreenObject = true) (hc : d.surfaces colorSid = some c) (hfit : s.FitsGL c) :
    s.Flushes a σ colorSid r d c := by
  refine ⟨_, flushGLSurface_blit hs hso, fun x y he hcov => ?_⟩
  simp only [Surf.display, hs, if_true, Device.run, Device.exec, List.foldl_cons, List.foldl_nil,
    hc, Option.elim_some, Device.drawScreen, Function.update_self] at he ⊢
  have hshow : Shows c.px r (d.screens s.framebufferIndex) _ :=
    hp.blit_shows (s := s) (σ := σ) fun x y => hfit.read
  rw [hshow.pixel x y he, if_pos hcov]

/-! ### The present -/

/-- What the present is called with. -/
def Region.presentInfo (r : Region) : ExtraInfo := .source (-r.bounds.y.toInt) 0

theorem flushGLSurface_present (hs : s.haveScreenObject = false) (h3D : a.haveSVGA3D = true) :
    s.flushGLSurface a colorSid r =
      .ok [.present colorSid (r.rects.map r.presentInfo.box)] := by
  simp only [Surf.flushGLSurface, hs, Accel.surfacePresentAutoSync, Accel.with3D, h3D]
  rfl

theorem display_present (hs : s.haveScreenObject = false) (hc : d.surfaces colorSid = some c)
    (boxes : List CopyBox) :
    s.display (d.run σ [.present colorSid boxes]) = copy c.read boxes d.front := by
  simp [Surf.display, hs, Device.run, Device.exec, hc]

theorem flushes_corner (hp : r.Plain s.scale.buffer) (hs : s.haveScreenObject = false)
    (h3D : a.haveSVGA3D = true) (hx : r.bounds.x.toInt = 0) (hy : r.bounds.y.toInt = 0)
    (hc : d.surfaces colorSid = some c) (hfit : s.FitsGL c) : s.Flushes a σ colorSid r d c := by
  refine ⟨_, flushGLSurface_present hs h3D, fun x y he hcov => ?_⟩
  have hsx : r.presentInfo.srcDeltaX = -r.bounds.x.toInt := by
    rw [hx, ← hy]
    rfl
  have hsy : r.presentInfo.srcDeltaY = -r.bounds.y.toInt := by
    rw [hy]
    rfl
  rw [display_present hs hc, copy_cover (hp.exact hsx hsy (.inl ⟨rfl, rfl⟩)) rfl rfl, hsx, hsy]
  have hshow : Shows c.px r d.front (d.front.draw r.cover fun x y =>
      c.read (x + -r.bounds.x.toInt) (y + -r.bounds.y.toInt)) :=
    shows_draw fun x y h => hfit.read (hp.mem_buffer h).1 (hp.mem_buffer h).2
  rw [Surf.display, hs] at he
  rw [hshow.pixel x y he, if_pos hcov]

/-- A colour surface with one pixel of its own. -/
def Surf.dotImage (s : Surf) (p q : α) (x y : ℤ) : Image α where
  width := s.scale.buffer.w.toInt.toNat
  height := s.scale.buffer.h.toInt.toNat
  px u v := if u = x ∧ v = y then p else q

theorem fitsGL_dotImage {p q : α} : s.FitsGL (s.dotImage p q x y) :=
  ⟨Int.self_le_toNat _, Int.self_le_toNat _⟩

/-- The boxes of the present miss the pixel that belongs at `(x, y)`. -/
theorem present_misses {p q : α} (hp : r.Plain s.scale.buffer)
    (h : ¬ (r.bounds.x.toInt = 0 ∧ r.bounds.y.toInt = 0)) (hi : i.px x y = q) :
    (copy (s.dotImage p q (x - r.bounds.x.toInt) (y - r.bounds.y.toInt)).read
      (r.rects.map r.presentInfo.box) i).px x y = q := by
  refine copy_px_of_same _ hi fun box hbox _ t ht => ?_
  obtain ⟨b, hb, rfl⟩ := List.mem_map.mp hbox
  have hnn := hp.nonneg b hb
  rw [Image.read] at ht
  split at ht
  case isFalse => exact absurd ht (Option.not_mem_none t)
  case isTrue =>
    rw [← Option.some.inj ht]
    refine if_neg fun heq => h ?_
    obtain ⟨hu, hv⟩ := heq
    have hy : (ofInt32 b.y.toInt : ℤ) = b.y.toInt := ofInt32_int16 hnn.2.1
    have hx : (ofInt32 b.x.toInt : ℤ) = b.x.toInt := ofInt32_int16 hnn.1
    simp only [Region.presentInfo, ExtraInfo.box, ExtraInfo.source, add_zero, hx, hy] at hu hv
    have hby : r.bounds.y.toInt = 0 := by omega
    rw [hby, neg_zero, add_zero, hx] at hu
    omega

/-- Some colour surface is not shown unless the window is at the corner. -/
theorem corner_of_flushes [Nontrivial α] (hp : r.Plain s.scale.buffer)
    (hs : s.haveScreenObject = false) (h3D : a.haveSVGA3D = true) (hcov : Covers r.cover x y)
    (h : ∀ (d : Device α) c, d.surfaces colorSid = some c → s.FitsGL c →
      s.Flushes a σ colorSid r d c) : r.bounds.x.toInt = 0 ∧ r.bounds.y.toInt = 0 := by
  obtain ⟨p, q, hpq⟩ := exists_pair_ne α
  by_contra hne
  let c := s.dotImage p q (x - r.bounds.x.toInt) (y - r.bounds.y.toInt)
  let d : Device α := ⟨fun _ _ => q, fun _ _ => q, fun _ => some c, fun _ => c,
    ⟨x.toNat + 1, y.toNat + 1, fun _ _ => q⟩, ⟨.invalid, 0, 0⟩⟩
  obtain ⟨cmds, hcmds, hshown⟩ := h d c rfl fitsGL_dotImage
  rw [flushGLSurface_present hs h3D] at hcmds
  have hon : (s.display d).extent.Has x y := by
    obtain ⟨_, hmem, hhas⟩ := hcov
    obtain ⟨b, hb, rfl⟩ := List.mem_map.mp hmem
    have hnn := hp.nonneg b hb
    simp only [Rect.Has, Bounds.rect] at hhas
    simp only [Surf.display, hs, Image.extent, Rect.Has, d, Bool.false_eq_true, if_false]
    omega
  have hpx := hshown x y hon hcov
  rw [← Except.ok.inj hcmds, display_present hs rfl] at hpx
  have hmiss : (copy c.read (r.rects.map r.presentInfo.box) d.front).px x y = q :=
    present_misses hp hne rfl
  have hdot : c.px (x - r.bounds.x.toInt) (y - r.bounds.y.toInt) = p := if_pos ⟨rfl, rfl⟩
  exact hpq (hdot.symm.trans (hpx.symm.trans hmiss))

end

/-- Every colour surface is shown exactly when there are screen objects, or the window is at the
corner of the screen, or the region has no pixels. -/
theorem flushes_iff_corner [Nontrivial α] (σ : Scaler α) (s : Surf) (a : Accel) (colorSid : ℕ)
    (r : Region) (hp : r.Plain s.scale.buffer) (h3D : a.haveSVGA3D = true)
    (hso : a.haveScreenObject = s.haveScreenObject) :
    (∀ (d : Device α) c, d.surfaces colorSid = some c → s.FitsGL c →
      s.Flushes a σ colorSid r d c) ↔
    s.haveScreenObject = true ∨ (r.bounds.x.toInt = 0 ∧ r.bounds.y.toInt = 0) ∨
      ∀ x y, ¬ Covers r.cover x y := by
  cases hs : s.haveScreenObject with
  | true =>
    refine iff_of_true (fun d c hc hfit => ?_) (.inl rfl)
    exact flushes_screen hp hs (hso.trans hs) hc hfit
  | false =>
    rw [or_iff_right Bool.false_ne_true]
    constructor
    · intro h
      by_contra hno
      push Not at hno
      obtain ⟨hne, x, y, hcov⟩ := hno
      exact hne (corner_of_flushes hp hs h3D hcov h).1 (corner_of_flushes hp hs h3D hcov h).2
    · rintro (⟨hx, hy⟩ | hnone) d c hc hfit
      · exact flushes_corner hp hs h3D hx hy hc hfit
      · exact ⟨_, flushGLSurface_present hs h3D, fun x y _ hcov => absurd hcov (hnone x y)⟩

/-- A window of two pixels that starts one pixel from the left edge. -/
def inset : Region := ⟨⟨1, 0, 2, 1⟩, [⟨1, 0, 2, 1⟩]⟩

def insetSurf : Surf :=
  { newSurf with
    glMode := true
    lastRegion := some inset
    scale := ⟨⟨0, 0, 2, 1⟩, 2, 1, 4096, 8, 0⟩ }

/-- Every pixel of the colour surface is its column. -/
def columns : Image ℕ := ⟨2, 1, fun x _ => x.toNat⟩

def insetDevice : Device ℕ := { edgeDevice with surfaces := fun _ => some columns }

theorem flushes_iff_corner_inset :
    inset.Plain insetSurf.scale.buffer ∧
      ¬ ∀ (d : Device ℕ) c, d.surfaces 3 = some c → insetSurf.FitsGL c →
        insetSurf.Flushes ⟨true, false, 0, 1, 2, by decide, by decide, by decide⟩ .unscaled 3 inset
          d c := by
  have hp : inset.Plain insetSurf.scale.buffer :=
    ⟨by decide, by decide, by decide, by decide, by decide⟩
  refine ⟨hp, fun h => ?_⟩
  rcases (flushes_iff_corner .unscaled insetSurf _ 3 inset hp rfl rfl).mp h with h | h | h
  · exact absurd h (by decide)
  · exact absurd h (by decide)
  · exact h 1 0 (by decide)

/-- The first pixel of the window is on the screen not the first of the colour surface. -/
theorem not_flushes_inset :
    ¬ insetSurf.Flushes ⟨true, false, 0, 1, 2, by decide, by decide, by decide⟩ .unscaled 3 inset
      insetDevice columns := by
  rintro ⟨cmds, hcmds, hshown⟩
  cases hcmds
  exact absurd (hshown 1 0 (by decide) (by decide)) (by decide)

end Cesvga2.Surface
