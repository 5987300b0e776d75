import Cesvga2.Surface.Screen

/-! `clipRegionToBuffer` cuts the rectangles of a region to the buffer of a surface, to which they
are moved by a delta. It computes in `int` but keeps its results in the 16-bit fields of the
rectangles, so the cut is exact only as long as nothing is lost there. -/

namespace Cesvga2.Surface

open Planes

/-! ### One axis -/

/-- The length of a span from `x` on in a buffer of `size` pixels. -/
def clipLen (x : ℤ) (len size : Int16) : Int16 :=
  let len := if size.toInt < int32 (x + len.toInt) then .ofInt (size.toInt - x) else len
  if len < 0 then 0 else len

/-- The start and the length of a span of a rectangle, along one axis. -/
def clipAxis (start len : Int16) (delta : Int32) (size : Int16) : Int16 × Int16 :=
  let x := int32 (start.toInt + delta.toInt)
  if x < 0 then
    (.ofInt (-delta.toInt), clipLen 0 (.ofInt (len.toInt + x)) size)
  else (start, clipLen x len size)

/-- `clipRegionToBuffer` for one rectangle. -/
def Bounds.clip (r : Bounds) (dx dy : Int32) (buffer : Bounds) : Bounds where
  x := (clipAxis r.x r.w dx buffer.w).1
  y := (clipAxis r.y r.h dy buffer.h).1
  w := (clipAxis r.x r.w dx buffer.w).2
  h := (clipAxis r.y r.h dy buffer.h).2

def Surf.clipRegionToBuffer (s : Surf) (region : Region) (dx dy : Int32) : Region :=
  { region with rects := region.rects.map (·.clip dx dy s.scale.buffer) }

/-- The points of a span, and those of it that the delta moves into the buffer. -/
def span (a : Int16 × Int16) : Set ℤ := Set.Ico a.1.toInt (a.1.toInt + a.2.toInt)

def inBuffer (delta : Int32) (size : Int16) : Set ℤ :=
  Set.Ico (-delta.toInt) (size.toInt - delta.toInt)

/-- No point of the span comes to lie in the buffer. -/
def Misses (start len : Int16) (delta : Int32) (size : Int16) : Prop :=
  len ≤ 0 ∨ size ≤ 0 ∨ start.toInt + len.toInt + delta.toInt ≤ 0 ∨
    size.toInt ≤ start.toInt + delta.toInt

/-- The spans that are left without a length. One that starts before the buffer is left with the
part of its length behind the edge, one that ends behind the buffer with the distance from its start
to the edge, both reduced to 16 bits; any other keeps its length. -/
def Cleared (start len : Int16) (delta : Int32) (size : Int16) : Prop :=
  if int32 (start.toInt + delta.toInt) < 0 then
    size ≤ 0 ∨ (start.toInt + len.toInt + delta.toInt).bmod (2 ^ 16) ≤ 0
  else if size.toInt < int32 (start.toInt + len.toInt + delta.toInt) then
    (size.toInt - start.toInt - delta.toInt).bmod (2 ^ 16) ≤ 0
  else len ≤ 0

instance (start len : Int16) (delta : Int32) (size : Int16) :
    Decidable (Misses start len delta size) := inferInstanceAs (Decidable (_ ∨ _))

instance (start len : Int16) (delta : Int32) (size : Int16) :
    Decidable (Cleared start len delta size) := inferInstanceAs (Decidable (ite _ _ _))

/-- What is left of a span, if anything, comes to lie in the buffer. -/
def Within (start : Int16) (delta : Int32) (size : Int16) : Prop :=
  if start.toInt + delta.toInt < 0 then -2 ^ 15 < delta.toInt
  else start.toInt + delta.toInt < size.toInt

instance (start : Int16) (delta : Int32) (size : Int16) : Decidable (Within start delta size) :=
  inferInstanceAs (Decidable (ite _ _ _))

section Axis

variable {start len size : Int16} {delta : Int32} {x : ℤ}

theorem span_eq_empty {a : Int16 × Int16} : span a = ∅ ↔ a.2.toInt ≤ 0 := by
  rw [span, Set.Ico_eq_empty_iff]
  omega

theorem misses_iff : span (start, len) ∩ inBuffer delta size = ∅ ↔
    Misses start len delta size := by
  rw [span, inBuffer, Set.Ico_inter_Ico, Set.Ico_eq_empty_iff, Misses, Int16.le_iff_toInt_le,
    Int16.le_iff_toInt_le]
  simp only [Int16.toInt_zero]
  omega

theorem toInt_clamp (l : Int16) : (if l < 0 then 0 else l).toInt = max 0 l.toInt := by
  split_ifs with hl
  · rw [Int16.lt_iff_toInt_lt, Int16.toInt_zero] at hl
    rw [max_eq_left hl.le, Int16.toInt_zero]
  · rw [Int16.lt_iff_toInt_lt, Int16.toInt_zero, not_lt] at hl
    rw [max_eq_right hl]

theorem toInt_stored (z : ℤ) : (Int16.ofInt z).toInt = z.bmod (2 ^ 16) := Int16.toInt_ofInt

theorem stored_of_bounds {z : ℤ} (hl : -2 ^ 15 ≤ z) (hu : z < 2 ^ 15) :
    (Int16.ofInt z).toInt = z := by
  rw [toInt_stored, Int.bmod_def]
  split_ifs <;> omega

/-- The length that is left, as an integer. -/
theorem toInt_clipLen : (clipLen x len size).toInt =
    max 0 (if size.toInt < int32 (x + len.toInt) then (size.toInt - x).bmod (2 ^ 16)
      else len.toInt) := by
  rw [clipLen, toInt_clamp]
  split_ifs
  · rw [toInt_stored]
  · rfl

/-- From the edge of the buffer on the shorter of the two lengths is left. -/
theorem toInt_clipLen_zero : (clipLen 0 len size).toInt = max 0 (min size.toInt len.toInt) := by
  have hlen := len.toInt_lt
  have hlen' := len.le_toInt
  have hsize := size.toInt_lt
  have hsize' := size.le_toInt
  rw [toInt_clipLen, zero_add, sub_zero, int32_of_bounds (by omega) (by omega), ← toInt_stored,
    stored_of_bounds hsize' hsize]
  split_ifs <;> omega

/-- What an `int` has lost is lost in 16 bits anyway. -/
theorem bmod_int32 (y z : ℤ) : (y + int32 z).bmod (2 ^ 16) = (y + z).bmod (2 ^ 16) ∧
    (y - int32 z).bmod (2 ^ 16) = (y - z).bmod (2 ^ 16) := by
  simp only [int32, Int.bmod_def]
  split_ifs <;> omega

theorem cleared_iff : span (clipAxis start len delta size) = ∅ ↔
    Cleared start len delta size := by
  have hsum : int32 (int32 (start.toInt + delta.toInt) + len.toInt) =
      int32 (start.toInt + len.toInt + delta.toInt) := by
    rw [int32, int32, Int.bmod_add_bmod, int32, add_right_comm]
  rw [span_eq_empty, clipAxis, Cleared, Int16.le_iff_toInt_le, Int16.le_iff_toInt_le,
    Int16.toInt_zero, ← hsum, sub_sub, add_right_comm, add_comm _ len.toInt,
    ← (bmod_int32 len.toInt _).1, ← (bmod_int32 size.toInt _).2]
  generalize int32 (start.toInt + delta.toInt) = x
  split_ifs with hneg hcut
  · rw [toInt_clipLen_zero, toInt_stored]
    omega
  · rw [toInt_clipLen, if_pos hcut]
    omega
  · rw [toInt_clipLen, if_neg hcut]
    omega

/-- A span that meets the buffer is cut as it should, unless its new start does not fit. -/
theorem span_clipAxis (h : ¬ Misses start len delta size) :
    span (clipAxis start len delta size) = span (start, len) ∩ inBuffer delta size ↔
      -2 ^ 15 < delta.toInt := by
  have hstart := start.toInt_lt
  have hstart' := start.le_toInt
  have hlen := len.toInt_lt
  have hsize := size.toInt_lt
  simp only [Misses, Int16.le_iff_toInt_le, Int16.toInt_zero, not_or, not_le] at h
  obtain ⟨h1, h2, h3, h4⟩ := h
  have hmeet : max start.toInt (-delta.toInt) <
      min (start.toInt + len.toInt) (size.toInt - delta.toInt) := by omega
  rw [span, span, inBuffer, Set.Ico_inter_Ico, Set.Ico_eq_Ico_iff (.inr hmeet), clipAxis,
    int32_of_bounds (by omega) (by omega)]
  split_ifs with hneg
  · rw [toInt_clipLen_zero, toInt_stored, stored_of_bounds (by omega) (by omega), Int.bmod_def]
    split_ifs <;> omega
  · have hkept : (size.toInt - (start.toInt + delta.toInt)).bmod (2 ^ 16) =
        size.toInt - (start.toInt + delta.toInt) := by
      rw [← toInt_stored, stored_of_bounds (by omega) (by omega)]
    rw [toInt_clipLen, int32_of_bounds (by omega) (by omega), hkept]
    dsimp only
    split_ifs <;> omega

/-- The new start, where it is the opposite of the delta, has lost a multiple of 2^16. -/
theorem span_clipAxis_subset (h : ¬ Cleared start len delta size) :
    span (clipAxis start len delta size) ⊆ inBuffer delta size ↔ Within start delta size := by
  have hstart := start.toInt_lt
  have hstart' := start.le_toInt
  have hlen := len.toInt_lt
  have hlen' := len.le_toInt
  have hsize := size.toInt_lt
  have hsize' := size.le_toInt
  have hdelta := delta.toInt_lt
  have hdelta' := delta.le_toInt
  rw [← cleared_iff, span_eq_empty, not_le] at h
  rw [span, inBuffer, Set.Ico_subset_Ico_iff (by omega), Within]
  rw [clipAxis] at h ⊢
  have hx : int32 (start.toInt + delta.toInt) = start.toInt + delta.toInt ∨
      start.toInt + delta.toInt < -2 ^ 31 ∧ 0 ≤ int32 (start.toInt + delta.toInt) ∨
      2 ^ 31 ≤ start.toInt + delta.toInt ∧ int32 (start.toInt + delta.toInt) < 0 := by
    simp only [int32, Int.bmod_def]
    split_ifs <;> omega
  split_ifs at h ⊢ with hneg hsum
  · rw [toInt_clipLen_zero] at h ⊢
    rw [toInt_stored, Int.bmod_def]
    split_ifs <;> omega
  · rw [toInt_clipLen_zero] at h ⊢
    rw [toInt_stored, Int.bmod_def]
    split_ifs <;> omega
  · dsimp only
    omega
  · dsimp only at h ⊢
    by_cases hin : start.toInt + delta.toInt < size.toInt
    · have hfits : (size.toInt - (start.toInt + delta.toInt)).bmod (2 ^ 16) =
          size.toInt - (start.toInt + delta.toInt) := by
        rw [← toInt_stored, stored_of_bounds (by omega) (by omega)]
      have hsum' : int32 (start.toInt + delta.toInt) = start.toInt + delta.toInt := by omega
      have hend : int32 (start.toInt + delta.toInt + len.toInt) =
          start.toInt + delta.toInt + len.toInt := int32_of_bounds (by omega) (by omega)
      rw [toInt_clipLen, hsum', hfits, hend]
      split_ifs <;> omega
    · omega

end Axis

/-! ### Rectangles -/

/-- What makes the cut of a rectangle exact. One that misses the buffer has to be left without a
length along one axis, not necessarily the one along which it misses; one that meets it has to be
moved by deltas whose opposites fit in its fields. -/
def Bounds.Clips (r : Bounds) (dx dy : Int32) (buffer : Bounds) : Prop :=
  if Misses r.x r.w dx buffer.w ∨ Misses r.y r.h dy buffer.h then
    Cleared r.x r.w dx buffer.w ∨ Cleared r.y r.h dy buffer.h
  else -2 ^ 15 < dx.toInt ∧ -2 ^ 15 < dy.toInt

instance (r : Bounds) (dx dy : Int32) (buffer : Bounds) : Decidable (r.Clips dx dy buffer) :=
  inferInstanceAs (Decidable (ite _ _ _))

/-- The points of `r` that the deltas move into the buffer. -/
def Bounds.Meets (r : Bounds) (dx dy : Int32) (buffer : Bounds) (x y : ℤ) : Prop :=
  r.rect.Has x y ∧ 0 ≤ x + dx.toInt ∧ x + dx.toInt < buffer.w.toInt ∧ 0 ≤ y + dy.toInt ∧
    y + dy.toInt < buffer.h.toInt

instance (r : Bounds) (dx dy : Int32) (buffer : Bounds) (x y : ℤ) :
    Decidable (r.Meets dx dy buffer x y) := inferInstanceAs (Decidable (_ ∧ _))

variable {r buffer : Bounds} {dx dy : Int32} {x y : ℤ}

theorem has_clip_iff : (r.clip dx dy buffer).rect.Has x y ↔
    (x, y) ∈ span (clipAxis r.x r.w dx buffer.w) ×ˢ span (clipAxis r.y r.h dy buffer.h) := by
  simp only [Rect.Has, Bounds.rect, Bounds.clip, span, Set.mem_prod, Set.mem_Ico, and_assoc]

theorem meets_iff : r.Meets dx dy buffer x y ↔
    (x, y) ∈ (span (r.x, r.w) ∩ inBuffer dx buffer.w) ×ˢ
      (span (r.y, r.h) ∩ inBuffer dy buffer.h) := by
  simp only [Bounds.Meets, Rect.Has, Bounds.rect, span, inBuffer, Set.mem_prod, Set.mem_inter_iff,
    Set.mem_Ico]
  omega

theorem clip_exact_iff : (∀ x y, (r.clip dx dy buffer).rect.Has x y ↔ r.Meets dx dy buffer x y) ↔
    r.Clips dx dy buffer := by
  have hsets : (∀ x y, (r.clip dx dy buffer).rect.Has x y ↔ r.Meets dx dy buffer x y) ↔
      span (clipAxis r.x r.w dx buffer.w) ×ˢ span (clipAxis r.y r.h dy buffer.h) =
        (span (r.x, r.w) ∩ inBuffer dx buffer.w) ×ˢ (span (r.y, r.h) ∩ inBuffer dy buffer.h) := by
    simp only [has_clip_iff, meets_iff, Set.ext_iff, Prod.forall]
  rw [hsets, Set.prod_eq_prod_iff, misses_iff, misses_iff, cleared_iff, cleared_iff,
    Bounds.Clips]
  split_ifs with hmiss
  · refine ⟨fun h => h.elim (fun heq => ?_) And.left, fun h => .inr ⟨h, hmiss⟩⟩
    rw [← misses_iff, ← misses_iff, ← heq.1, ← heq.2, cleared_iff, cleared_iff] at hmiss
    exact hmiss
  · rw [or_iff_left fun h => hmiss h.2]
    obtain ⟨hx, hy⟩ := not_or.mp hmiss
    rw [span_clipAxis hx, span_clipAxis hy]

/-- The pixels of the buffer that a point is moved to. -/
theorem clip_within_iff : (∀ x y, (r.clip dx dy buffer).rect.Has x y →
      x ∈ inBuffer dx buffer.w ∧ y ∈ inBuffer dy buffer.h) ↔
    Cleared r.x r.w dx buffer.w ∨ Cleared r.y r.h dy buffer.h ∨
      Within r.x dx buffer.w ∧ Within r.y dy buffer.h := by
  have hsets : (∀ x y, (r.clip dx dy buffer).rect.Has x y →
      x ∈ inBuffer dx buffer.w ∧ y ∈ inBuffer dy buffer.h) ↔
      span (clipAxis r.x r.w dx buffer.w) ×ˢ span (clipAxis r.y r.h dy buffer.h) ⊆
        inBuffer dx buffer.w ×ˢ inBuffer dy buffer.h := by
    simp only [has_clip_iff, Set.subset_def, Prod.forall, Set.mem_prod]
  rw [hsets, Set.prod_subset_prod_iff, cleared_iff, cleared_iff]
  by_cases hx : Cleared r.x r.w dx buffer.w
  · simp [hx]
  by_cases hy : Cleared r.y r.h dy buffer.h
  · simp [hy]
  rw [span_clipAxis_subset hx, span_clipAxis_subset hy]
  simp [hx, hy]

/-- The rectangles of a region are replaced by their intersections with the buffer exactly if the
cut of each is exact. -/
theorem clipRegionToBuffer_exact_iff (s : Surf) (region : Region) (dx dy : Int32) :
    List.Forall₂ (fun old new : Bounds => ∀ x y, new.rect.Has x y ↔
        old.Meets dx dy s.scale.buffer x y) region.rects
      (s.clipRegionToBuffer region dx dy).rects ↔
    ∀ r ∈ region.rects, r.Clips dx dy s.scale.buffer := by
  rw [Surf.clipRegionToBuffer, List.forall₂_map_right_iff, List.forall₂_same]
  exact forall₂_congr fun r _ => clip_exact_iff

/-- A surface of one pixel. -/
def pixelSurf : Surf := { newSurf with scale := ⟨⟨0, 0, 1, 1⟩, 1, 1, 4096, 4, 0⟩ }

/-- A pixel that is moved 40000 pixels to the right, far beyond the buffer, becomes a row of
25537 pixels. -/
theorem not_clipRegionToBuffer_exact :
    (pixelSurf.clipRegionToBuffer ⟨⟨0, 0, 1, 1⟩, [⟨0, 0, 1, 1⟩]⟩ 40000 0).rects =
        [⟨0, 0, 25537, 1⟩] ∧
      (⟨0, 0, 25537, 1⟩ : Bounds).rect.Has 0 0 ∧
      ¬ (⟨0, 0, 1, 1⟩ : Bounds).Meets 40000 0 pixelSurf.scale.buffer 0 0 := by
  decide +kernel

end Cesvga2.Surface
