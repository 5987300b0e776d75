import Cesvga2.Accel.Blit
import Cesvga2.Surface.Backing
import Cesvga2.Surface.Clip
import Cesvga2.Surface.Contained

/-! `copy_surface_region_to_self` copies a region of another surface. It cuts the region where it
lies, in the caller's buffer, and gives a region without rectangles its bounds for a rectangle; that
rectangle is stored behind the region, whether there is room for it or not, and is not cut. -/

namespace Cesvga2.Surface

open Cesvga2.Accel (Side Copy genericBlitCopy)
open Planes (Rect)

/-! ### What a cut stores -/

/-- The fields of a span that are written, with 0 for its start and 4 for its length. -/
def lenStores (x : ℤ) (len size : Int16) : List ℕ :=
  let cut := size.toInt < int32 (x + len.toInt)
  (if cut then [4] else []) ++
    if (if cut then Int16.ofInt (size.toInt - x) else len) < 0 then [4] else []

def axisStores (start len : Int16) (delta : Int32) (size : Int16) : List ℕ :=
  let x := int32 (start.toInt + delta.toInt)
  if x < 0 then [0, 4] ++ lenStores 0 (.ofInt (len.toInt + x)) size else lenStores x len size

/-- The fields of a rectangle by their offsets in it; each has two bytes. -/
def Bounds.clipStores (r : Bounds) (dx dy : Int32) (buffer : Bounds) : List ℕ :=
  axisStores r.x r.w dx buffer.w ++ (axisStores r.y r.h dy buffer.h).map (· + 2)

/-- A store in the caller's buffer. -/
structure Store where
  offset : ℕ
  len : ℕ
  deriving DecidableEq, Repr

/-- Where `rect[i]` is in a region. -/
def rectOffset (i : ℕ) : ℕ := 12 + 8 * i

def Surf.clipStores (s : Surf) (region : Region) (dx dy : Int32) : List Store :=
  region.rects.zipIdx.flatMap fun (r, i) =>
    (r.clipStores dx dy s.scale.buffer).map fun o => ⟨rectOffset i + o, 2⟩

/-! ### The call -/

/-- `dst_delta`. -/
def Region.deltaX (region : Region) (destX : Int32) : Int32 := destX - region.bounds.x.toInt32

def Region.deltaY (region : Region) (destY : Int32) : Int32 := destY - region.bounds.y.toInt32

/-- `source_surface`, which can be the surface itself. -/
inductive Source where
  | null
  | itself
  | other (source : Surf)

/-- The source once the backing of the surface is allocated. -/
def Source.surf (s : Surf) : Source → Option Surf
  | .null => none
  | .itself => some s
  | .other source => some source

/-- What a call does: the stores in the caller's buffer, and the rectangles that `genericBlitCopy`
goes through, each with the copies of its rows from the first on. -/
structure Done where
  rc : IOReturn
  surf : Surf
  stores : List Store
  copies : List (Bounds × List Copy)

/-- The copies of a blit are those of its rectangles, one after the other. -/
theorem flatMap_genericBlitCopy (dst src : Side) (region : Region) (bpp : UInt8) :
    region.rects.flatMap (fun r =>
        (genericBlitCopy dst src (some { region with rects := [r] }) bpp).2) =
      (genericBlitCopy dst src (some region) bpp).2 := by
  unfold genericBlitCopy
  split_ifs <;> simp

namespace Surf

/-- The call returns before it has done anything else. -/
def leave (s : Surf) (rc : IOReturn) (stores : List Store) : Done := ⟨rc, s, stores, []⟩

/-- The region without rectangles becomes one with its bounds. -/
def fillRegion (region : Region) : List Store × Region :=
  if region.rects = [] then
    ([⟨rectOffset 0, 8⟩, ⟨0, 4⟩], { region with rects := [region.bounds] })
  else ([], region)

def side (s : Surf) (window : ℕ × ℕ) (dx dy : Int32) : Side :=
  ⟨.ofNat window.1, .ofNat window.2, .ofNat s.scale.pitch, dx, dy⟩

/-- The call once both surfaces are found to be fit. -/
def copyRegion (s : Surf) (source : Source) (destX destY : Int32) (region : Region) (e : Env)
    (dstMap srcMap : Option ℕ) : Done :=
  match s.allocBacking e with
  | (false, s) => s.leave .noMemory []
  | (true, s) =>
    let dx := region.deltaX destX
    let dy := region.deltaY destY
    let clipped := s.clipRegionToBuffer region dx dy
    let stores := s.clipStores region dx dy
    match s.obtainKernelPtrs dstMap, source.surf s with
    | .error rc, _ => s.leave rc stores
    | .ok _, none => s.leave .badArgument stores
    | .ok dst, some source =>
      match source.obtainKernelPtrs srcMap with
      | .error rc => s.leave rc stores
      | .ok src =>
        let filled := fillRegion clipped
        let dst := s.side dst dx dy
        let src := source.side src 0 0
        ⟨(genericBlitCopy dst src filled.2 (.ofNat s.bpp)).1, s, stores ++ filled.1,
          filled.2.rects.map fun r =>
            (r, (genericBlitCopy dst src (some { filled.2 with rects := [r] }) (.ofNat s.bpp)).2)⟩

/-- `copy_surface_region_to_self`. `dstMap` and `srcMap` are where the backings are mapped. -/
def copySurfaceRegionToSelf (s : Surf) (source : Source) (destX destY : Int32)
    (region : Option Region) (regionSize : ℕ) (e : Env) (dstMap srcMap : Option ℕ) : Done :=
  match source.surf s, region with
  | none, _ => s.leave .badArgument []
  | _, none => s.leave .badArgument []
  | some src, some region =>
    if regionSize < region.bytes then s.leave .badArgument []
    else if ¬ (s.haveID ∧ s.isSourceValid) then s.leave .notReady []
    else if s.glMode then s.leave .unsupported []
    else if ¬ (src.haveID ∧ src.isBackingValid) then s.leave .notReady []
    else if s.format ≠ src.format ∨ s.bpp ≠ src.bpp then s.leave .unsupported []
    else if src.glMode then s.leave .unsupported []
    else s.copyRegion source destX destY region e dstMap srcMap

end Surf

/-! ### Calls that come as far as the copy -/

variable {s : Surf} {source : Source} {destX destY dx dy : Int32} {region : Region}
  {regionSize : ℕ} {e : Env} {dstMap srcMap : Option ℕ} {buffer : Bounds}

/-- The arguments are good and both surfaces are fit for the copy. -/
structure Fit (s : Surf) (source : Source) (region : Region) (regionSize : ℕ) : Prop where
  sized : region.bytes ≤ regionSize
  target : (s.haveID ∧ s.isSourceValid) ∧ s.glMode = false
  origin : ∃ src, source.surf s = some src ∧ (src.haveID ∧ src.isBackingValid) ∧
    (s.format = src.format ∧ s.bpp = src.bpp) ∧ src.glMode = false

/-- There is memory for the surface, and both backings are mapped. -/
structure Backed (s : Surf) (source : Source) (e : Env) (dstMap srcMap : Option ℕ) : Prop where
  memory : (s.allocBacking e).1 = true
  dst : ∃ window, (s.allocBacking e).2.obtainKernelPtrs dstMap = .ok window
  src : ∃ src, source.surf (s.allocBacking e).2 = some src ∧
    ∃ window, src.obtainKernelPtrs srcMap = .ok window

theorem copy_of_fit (h : Fit s source region regionSize) :
    s.copySurfaceRegionToSelf source destX destY (some region) regionSize e dstMap srcMap =
      s.copyRegion source destX destY region e dstMap srcMap := by
  obtain ⟨src, hsrc, hready, hsame, hgl⟩ := h.origin
  unfold Surf.copySurfaceRegionToSelf
  rw [hsrc]
  dsimp only
  rw [if_neg (Nat.not_lt.mpr h.sized), if_neg (not_not.mpr h.target.1),
    if_neg (by simp [h.target.2]),
    if_neg (not_not.mpr hready), if_neg (by simp [hsame]), if_neg (by simp [hgl])]

variable (destX destY e dstMap srcMap) in
theorem copy_of_not_fit (h : ¬ Fit s source region regionSize) :
    ∃ rc, s.copySurfaceRegionToSelf source destX destY (some region) regionSize e dstMap srcMap =
      s.leave rc [] := by
  unfold Surf.copySurfaceRegionToSelf
  cases hsrc : source.surf s with
  | none => exact ⟨_, rfl⟩
  | some src =>
    dsimp only
    split_ifs with h1 h2 h3 h4 h5 h6
    any_goals exact ⟨_, rfl⟩
    refine absurd ⟨Nat.not_lt.mp h1, ⟨h2, by simpa using h3⟩, src, hsrc, h4, ?_,
      by simpa using h6⟩ h
    simpa [not_or] using h5

variable (destX destY region) in
/-- A call with memory cuts the region, fills it and hands it on. -/
theorem copyRegion_of_backed (h : Backed s source e dstMap srcMap) :
    let d := s.copyRegion source destX destY region e dstMap srcMap
    let filled := Surf.fillRegion
      (s.clipRegionToBuffer region (region.deltaX destX) (region.deltaY destY))
    d.copies.map Prod.fst = filled.2.rects ∧
      d.stores = s.clipStores region (region.deltaX destX) (region.deltaY destY) ++ filled.1 := by
  obtain ⟨window, hdst⟩ := h.dst
  obtain ⟨src, hsrc, window', hsrc'⟩ := h.src
  have halloc : s.allocBacking e = (true, (s.allocBacking e).2) := Prod.ext h.memory rfl
  unfold Surf.copyRegion
  rw [halloc]
  dsimp only
  rw [hdst, hsrc]
  dsimp only
  rw [hsrc']
  exact ⟨by rw [List.map_map]; exact List.map_id _, rfl⟩

variable (destX destY region) in
/-- One without has stored nothing but the cut. -/
theorem copyRegion_of_not_backed (h : ¬ Backed s source e dstMap srcMap) :
    let d := s.copyRegion source destX destY region e dstMap srcMap
    d.copies = [] ∧ (d.stores = [] ∨
      d.stores = s.clipStores region (region.deltaX destX) (region.deltaY destY)) := by
  unfold Surf.copyRegion
  rcases halloc : s.allocBacking e with ⟨_ | _, s'⟩
  · exact ⟨rfl, .inl rfl⟩
  have hscale : s'.scale = s.scale := (congrArg (fun r => r.2.scale) halloc).symm
  have hcut : s'.clipStores region (region.deltaX destX) (region.deltaY destY) =
      s.clipStores region (region.deltaX destX) (region.deltaY destY) := by
    rw [Surf.clipStores, hscale, Surf.clipStores]
  dsimp only
  cases hdst : s'.obtainKernelPtrs dstMap with
  | error rc => exact ⟨rfl, .inr hcut⟩
  | ok window =>
    cases hsrc : source.surf s' with
    | none => exact ⟨rfl, .inr hcut⟩
    | some src =>
      dsimp only
      cases hwindow : src.obtainKernelPtrs srcMap with
      | error rc => exact ⟨rfl, .inr hcut⟩
      | ok window' =>
        have hbacked : Backed s source e dstMap srcMap := by
          refine ⟨?_, ?_, ?_⟩ <;> rw [halloc]
          · exact ⟨window, hdst⟩
          · exact ⟨src, hsrc, window', hwindow⟩
        exact absurd hbacked h

/-! ### The region's buffer and the pixels -/

theorem lenStores_eq {x : ℤ} {len size : Int16} {o : ℕ} (ho : o ∈ lenStores x len size) :
    o = 4 := by
  simp only [lenStores, List.mem_append] at ho
  rcases ho with ho | ho
  · exact List.mem_singleton.mp (List.mem_ite_nil_right.mp ho).2
  · exact List.mem_singleton.mp (List.mem_ite_nil_right.mp ho).2

theorem axisStores_le {start len size : Int16} {delta : Int32} {o : ℕ}
    (ho : o ∈ axisStores start len delta size) : o ≤ 4 := by
  simp only [axisStores] at ho
  split_ifs at ho
  · rcases List.mem_append.mp ho with ho | ho
    · simp only [List.mem_cons, List.not_mem_nil, or_false] at ho
      omega
    · exact (lenStores_eq ho).le
  · exact (lenStores_eq ho).le

/-- The cut stores in the rectangles of the region only. -/
theorem clipStores_le {st : Store} (hst : st ∈ s.clipStores region dx dy) :
    st.offset + st.len ≤ region.bytes := by
  simp only [Surf.clipStores, List.mem_flatMap, List.mem_map, Prod.exists] at hst
  obtain ⟨r, i, hr, o, ho, rfl⟩ := hst
  have hi := (List.mem_zipIdx' hr).1
  have hle : o ≤ 6 := by
    rcases List.mem_append.mp ho with ho | ho
    · exact (axisStores_le ho).trans (by norm_num)
    · obtain ⟨o', ho', rfl⟩ := List.mem_map.mp ho
      exact Nat.add_le_add_right (axisStores_le ho') 2
  dsimp only [rectOffset, Region.bytes]
  omega

/-- What makes the call safe. The bounds of a region without rectangles have to have room behind it,
and their place in the surface has to be in the buffer; of other regions the cut has to leave
nothing outside. -/
def Region.Roomy (region : Region) (regionSize : ℕ) (destX destY : Int32) (buffer : Bounds) :
    Prop :=
  if region.rects = [] then
    20 ≤ regionSize ∧ (region.bounds.w ≤ 0 ∨ region.bounds.h ≤ 0 ∨
      (0 ≤ destX.toInt ∧ destX.toInt + region.bounds.w.toInt ≤ buffer.w.toInt) ∧
      0 ≤ destY.toInt ∧ destY.toInt + region.bounds.h.toInt ≤ buffer.h.toInt)
  else
    ∀ r ∈ region.rects, Cleared r.x r.w (region.deltaX destX) buffer.w ∨
      Cleared r.y r.h (region.deltaY destY) buffer.h ∨
      Within r.x (region.deltaX destX) buffer.w ∧ Within r.y (region.deltaY destY) buffer.h

/-- The stores stay in the caller's buffer, and the pixels of every row that is copied are moved to
pixels of the surface's buffer. -/
def Done.Safe (d : Done) (regionSize : ℕ) (dx dy : Int32) (buffer : Bounds) : Prop :=
  (∀ st ∈ d.stores, st.offset + st.len ≤ regionSize) ∧
    ∀ p ∈ d.copies, ∀ j < p.2.length, ∀ x, p.1.rect.Has x (p.1.y.toInt + j) →
      (0 ≤ x + dx.toInt ∧ x + dx.toInt < buffer.w.toInt) ∧
      0 ≤ p.1.y.toInt + j + dy.toInt ∧ p.1.y.toInt + j + dy.toInt < buffer.h.toInt

/-- No row is left out because it does not lie in both windows. -/
def Done.Complete (d : Done) : Prop :=
  ∀ p ∈ d.copies, p.1.w ≤ 0 ∨ p.1.h.toInt ≤ p.2.length

/-- The same for all the pixels of the rectangles. -/
def Done.Confined (d : Done) (regionSize : ℕ) (dx dy : Int32) (buffer : Bounds) : Prop :=
  (∀ st ∈ d.stores, st.offset + st.len ≤ regionSize) ∧
    ∀ r ∈ d.copies.map Prod.fst, ∀ x y, r.rect.Has x y →
      x ∈ inBuffer dx buffer.w ∧ y ∈ inBuffer dy buffer.h

theorem mem_inBuffer {delta : Int32} {size : Int16} {x : ℤ} :
    x ∈ inBuffer delta size ↔ 0 ≤ x + delta.toInt ∧ x + delta.toInt < size.toInt := by
  rw [inBuffer, Set.mem_Ico]
  omega

theorem Done.Confined.safe {d : Done} (h : d.Confined regionSize dx dy buffer) :
    d.Safe regionSize dx dy buffer := by
  refine ⟨h.1, fun p hp j _ x hx => ?_⟩
  obtain ⟨hin, hin'⟩ := h.2 p.1 (List.mem_map_of_mem hp) x _ hx
  exact ⟨mem_inBuffer.mp hin, mem_inBuffer.mp hin'⟩

/-- A pixel is in the row of its distance from the top. -/
theorem Done.Complete.confined {d : Done} (hc : d.Complete) (h : d.Safe regionSize dx dy buffer) :
    d.Confined regionSize dx dy buffer := by
  refine ⟨h.1, fun r hr x y hxy => ?_⟩
  obtain ⟨p, hp, rfl⟩ := List.mem_map.mp hr
  have hpix := hxy
  simp only [Rect.Has, Bounds.rect] at hxy
  obtain ⟨j, rfl⟩ : ∃ j : ℕ, y = p.1.y.toInt + j := ⟨(y - p.1.y.toInt).toNat, by omega⟩
  have hj : j < p.2.length := by
    rcases hc p hp with hw | hh
    · rw [Int16.le_iff_toInt_le, Int16.toInt_zero] at hw
      omega
    · omega
  obtain ⟨hin, hin'⟩ := h.2 p hp j hj x hpix
  exact ⟨mem_inBuffer.mpr hin, mem_inBuffer.mpr hin'⟩

theorem toInt_delta (dest : Int32) (b : Int16) :
    (dest - b.toInt32).toInt = int32 (dest.toInt - b.toInt) := by
  rw [Int32.toInt_sub, Int16.toInt_toInt32, int32]

/-- A span of the bounds is moved to `dest`. Where the delta is too large for an `int`, both sides
fail. -/
theorem span_delta_iff {b w size : Int16} {dest : Int32} (hw : 0 < w.toInt) :
    span (b, w) ⊆ inBuffer (dest - b.toInt32) size ↔
      0 ≤ dest.toInt ∧ dest.toInt + w.toInt ≤ size.toInt := by
  have hb := b.toInt_lt
  have hb' := b.le_toInt
  have hsize := size.toInt_lt
  have hdest := dest.toInt_lt
  have hdest' := dest.le_toInt
  rw [span, inBuffer, Set.Ico_subset_Ico_iff (by dsimp only; omega), toInt_delta, int32,
    Int.bmod_def]
  dsimp only
  split_ifs <;> omega

theorem bounds_within_iff : (∀ x y, region.bounds.rect.Has x y →
      x ∈ inBuffer (region.deltaX destX) buffer.w ∧ y ∈ inBuffer (region.deltaY destY) buffer.h) ↔
    region.bounds.w ≤ 0 ∨ region.bounds.h ≤ 0 ∨
      (0 ≤ destX.toInt ∧ destX.toInt + region.bounds.w.toInt ≤ buffer.w.toInt) ∧
      0 ≤ destY.toInt ∧ destY.toInt + region.bounds.h.toInt ≤ buffer.h.toInt := by
  have hsets : (∀ x y, region.bounds.rect.Has x y →
      x ∈ inBuffer (region.deltaX destX) buffer.w ∧ y ∈ inBuffer (region.deltaY destY) buffer.h) ↔
      span (region.bounds.x, region.bounds.w) ×ˢ span (region.bounds.y, region.bounds.h) ⊆
        inBuffer (region.deltaX destX) buffer.w ×ˢ inBuffer (region.deltaY destY) buffer.h := by
    simp only [Rect.Has, Bounds.rect, span, Set.subset_def, Prod.forall, Set.mem_prod, Set.mem_Ico,
      and_assoc]
  rw [hsets, Set.prod_subset_prod_iff, span_eq_empty, span_eq_empty, Int16.le_iff_toInt_le,
    Int16.le_iff_toInt_le, Int16.toInt_zero]
  by_cases hw : region.bounds.w.toInt ≤ 0
  · simp [hw]
  by_cases hh : region.bounds.h.toInt ≤ 0
  · simp [hh]
  rw [Region.deltaX, Region.deltaY, span_delta_iff (not_le.mp hw), span_delta_iff (not_le.mp hh)]
  simp only [hw, hh, false_or, or_false]

/-- A copy is confined exactly if its region has room. -/
theorem confined_copyRegion_iff (hsize : region.bytes ≤ regionSize)
    (h : Backed s source e dstMap srcMap) :
    (s.copyRegion source destX destY region e dstMap srcMap).Confined regionSize
      (region.deltaX destX) (region.deltaY destY) s.scale.buffer ↔
        region.Roomy regionSize destX destY s.scale.buffer := by
  obtain ⟨hrects, hstores⟩ := copyRegion_of_backed destX destY region h
  have hcut : ∀ st ∈ s.clipStores region (region.deltaX destX) (region.deltaY destY),
      st.offset + st.len ≤ regionSize := fun st hst => (clipStores_le hst).trans hsize
  rw [Done.Confined, hrects, hstores, List.forall_mem_append, and_iff_right hcut, Region.Roomy]
  split_ifs with hrects
  · have hnil : (s.clipRegionToBuffer region (region.deltaX destX) (region.deltaY destY)).rects =
        [] := by rw [Surf.clipRegionToBuffer, hrects, List.map_nil]
    have hroom : (∀ st ∈ [(⟨rectOffset 0, 8⟩ : Store), ⟨0, 4⟩], st.offset + st.len ≤ regionSize) ↔
        20 ≤ regionSize := by
      rw [List.forall_mem_cons, List.forall_mem_singleton, rectOffset]
      dsimp only
      omega
    rw [Surf.fillRegion, if_pos hnil, hroom, List.forall_mem_singleton, ← bounds_within_iff]
    rfl
  · have hcons : (s.clipRegionToBuffer region (region.deltaX destX) (region.deltaY destY)).rects ≠
        [] := by rwa [Surf.clipRegionToBuffer, ne_eq, List.map_eq_nil_iff]
    rw [Surf.fillRegion, if_neg hcons, and_iff_right (List.forall_mem_nil _),
      Surf.clipRegionToBuffer, List.forall_mem_map]
    exact forall₂_congr fun r _ => clip_within_iff

theorem confined_iff (s : Surf) (source : Source) (destX destY : Int32) (region : Region)
    (regionSize : ℕ) (e : Env) (dstMap srcMap : Option ℕ) :
    (s.copySurfaceRegionToSelf source destX destY (some region) regionSize e dstMap
      srcMap).Confined regionSize (region.deltaX destX) (region.deltaY destY) s.scale.buffer ↔
    (Fit s source region regionSize → Backed s source e dstMap srcMap →
      region.Roomy regionSize destX destY s.scale.buffer) := by
  by_cases hfit : Fit s source region regionSize
  · rw [copy_of_fit hfit, forall_prop_of_true hfit]
    by_cases hbacked : Backed s source e dstMap srcMap
    · rw [confined_copyRegion_iff hfit.sized hbacked, forall_prop_of_true hbacked]
    · obtain ⟨hcopies, hstores⟩ := copyRegion_of_not_backed destX destY region hbacked
      refine iff_of_true ⟨?_, ?_⟩ (absurd · hbacked)
      · rcases hstores with hstores | hstores <;> rw [hstores]
        · exact List.forall_mem_nil _
        · exact fun st hst => (clipStores_le hst).trans hfit.sized
      · rw [hcopies]
        exact List.forall_mem_nil _
  · obtain ⟨rc, hleave⟩ := copy_of_not_fit destX destY e dstMap srcMap hfit
    rw [hleave]
    exact iff_of_true ⟨List.forall_mem_nil _, List.forall_mem_nil _⟩ (absurd · hfit)

/-- The call keeps to the caller's buffer and to the pixels of the surface if it does not come as
far as the copy or its region has room, and only then if every row is copied. -/
theorem copySurfaceRegionToSelf_safe (s : Surf) (source : Source) (destX destY : Int32)
    (region : Region) (regionSize : ℕ) (e : Env) (dstMap srcMap : Option ℕ) :
    let d := s.copySurfaceRegionToSelf source destX destY (some region) regionSize e dstMap srcMap
    let safe := d.Safe regionSize (region.deltaX destX) (region.deltaY destY) s.scale.buffer
    let roomy := Fit s source region regionSize → Backed s source e dstMap srcMap →
      region.Roomy regionSize destX destY s.scale.buffer
    (roomy → safe) ∧ (d.Complete → safe → roomy) := by
  have hiff := confined_iff s source destX destY region regionSize e dstMap srcMap
  exact ⟨fun h => (hiff.mpr h).safe, fun hc h => hiff.mp (hc.confined h)⟩

/-- A surface of one pixel with its backing in VRAM. -/
def backedSurf : Surf := { pixelSurf with backing := ⟨some 4096, none, 0, 4096, .vram, 0⟩ }

/-- With room for a rectangle the pixel is copied onto itself. -/
theorem copySurfaceRegionToSelf_safe_pixel :
    let region : Region := ⟨⟨0, 0, 1, 1⟩, []⟩
    let d := backedSurf.copySurfaceRegionToSelf .itself 0 0 (some region) 20 smallEnv none none
    d.copies = [(⟨0, 0, 1, 1⟩, [⟨4096, 4096, 4⟩])] ∧
      d.Safe 20 (region.deltaX 0) (region.deltaY 0) backedSurf.scale.buffer := by
  refine ⟨by decide +kernel, (copySurfaceRegionToSelf_safe _ _ _ _ _ _ _ _ _).1 fun _ _ => ?_⟩
  rw [Region.Roomy, if_pos rfl]
  decide +kernel

/-- The bounds are stored in the 8 bytes behind a region without rectangles, and the pixel is copied
five pixels to the right of a surface of one pixel. -/
theorem not_copySurfaceRegionToSelf_safe :
    let region : Region := ⟨⟨0, 0, 1, 1⟩, []⟩
    let d := backedSurf.copySurfaceRegionToSelf .itself 5 0 (some region) 12 smallEnv none none
    region.bytes ≤ 12 ∧ ⟨12, 8⟩ ∈ d.stores ∧ region.deltaX 5 = 5 ∧
      d.copies = [(⟨0, 0, 1, 1⟩, [⟨4116, 4096, 4⟩])] ∧ backedSurf.scale.buffer.w = 1 := by
  decide +kernel

end Cesvga2.Surface
