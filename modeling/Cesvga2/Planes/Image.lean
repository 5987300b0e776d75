import Mathlib.Tactic

/-! Rectangles of a plane, and images that are drawn on one rectangle at a time. Pixels beyond
the edges of an image are neither read nor written. When all the rectangles of a list are drawn
from one source, the order and the overlaps do not matter. -/

namespace Cesvga2.Planes

variable {α : Type*}

/-- A rectangle without its right and bottom edges. -/
structure Rect where
  left : ℤ
  top : ℤ
  right : ℤ
  bottom : ℤ
  deriving DecidableEq, Repr

namespace Rect

def Has (r : Rect) (x y : ℤ) : Prop := r.left ≤ x ∧ x < r.right ∧ r.top ≤ y ∧ y < r.bottom

instance (r : Rect) (x y : ℤ) : Decidable (r.Has x y) := inferInstanceAs (Decidable (_ ∧ _))

def shift (r : Rect) (dx dy : ℤ) : Rect := ⟨r.left + dx, r.top + dy, r.right + dx, r.bottom + dy⟩

@[simp] theorem has_shift {r : Rect} {dx dy x y : ℤ} :
    (r.shift dx dy).Has x y ↔ r.Has (x - dx) (y - dy) := by
  simp only [Has, shift]
  omega

@[simp] theorem shift_zero (r : Rect) : r.shift 0 0 = r := by
  simp [shift]

def inter (r t : Rect) : Rect :=
  ⟨max r.left t.left, max r.top t.top, min r.right t.right, min r.bottom t.bottom⟩

@[simp] theorem has_inter {r t : Rect} {x y : ℤ} : (r.inter t).Has x y ↔ r.Has x y ∧ t.Has x y := by
  simp only [Has, inter, max_le_iff, lt_min_iff]
  tauto

end Rect

/-- The point is in one of the rectangles. -/
def Covers (rs : List Rect) (x y : ℤ) : Prop := ∃ r ∈ rs, r.Has x y

instance (rs : List Rect) (x y : ℤ) : Decidable (Covers rs x y) :=
  inferInstanceAs (Decidable (∃ r ∈ rs, r.Has x y))

theorem covers_shift {rs : List Rect} {dx dy x y : ℤ} :
    Covers (rs.map (·.shift dx dy)) x y ↔ Covers rs (x - dx) (y - dy) := by
  simp [Covers]

/-- A source of pixels, which has none at some places. -/
abbrev Source (α : Type*) := ℤ → ℤ → Option α

structure Image (α : Type*) where
  width : ℕ
  height : ℕ
  px : ℤ → ℤ → α

namespace Image

def extent (i : Image α) : Rect := ⟨0, 0, i.width, i.height⟩

def read (i : Image α) : Source α := fun x y => if i.extent.Has x y then some (i.px x y) else none

/-- The source drawn on the rectangles, as far as it goes. -/
def draw (i : Image α) (rs : List Rect) (f : Source α) : Image α :=
  { i with
    px := fun x y =>
      if Covers rs x y ∧ i.extent.Has x y then (f x y).getD (i.px x y) else i.px x y }

variable {i : Image α} {r : Rect} {rs : List Rect} {f g : Source α} {x y : ℤ}

@[simp] theorem draw_extent : (i.draw rs f).extent = i.extent := rfl

theorem draw_px : (i.draw rs f).px x y =
    if Covers rs x y ∧ i.extent.Has x y then (f x y).getD (i.px x y) else i.px x y := rfl

theorem read_of_has (h : i.extent.Has x y) : i.read x y = some (i.px x y) := if_pos h

/-- What is read of an image where a source was drawn. -/
theorem read_draw (hc : Covers rs x y) (he : i.extent.Has x y) {p : α} (hp : f x y = some p) :
    (i.draw rs f).read x y = some p := by
  rw [read_of_has (i := i.draw rs f) he, draw_px, if_pos ⟨hc, he⟩, hp, Option.getD_some]

theorem draw_congr_rects {rs' : List Rect} (h : ∀ x y, Covers rs x y ↔ Covers rs' x y) :
    i.draw rs f = i.draw rs' f := by
  unfold draw
  simp only [h]

theorem draw_nil : i.draw [] f = i := by
  simp [draw, Covers]

/-- One rectangle after the other. -/
theorem draw_draw : (i.draw [r] f).draw rs f = i.draw (r :: rs) f := by
  unfold draw
  congr 1
  funext x y
  have hcons : Covers (r :: rs) x y ↔ r.Has x y ∨ Covers rs x y := by simp [Covers]
  have hone : Covers [r] x y ↔ r.Has x y := by simp [Covers]
  simp only [hcons, hone]
  by_cases he : Rect.Has ⟨0, 0, i.width, i.height⟩ x y
  · by_cases hr : r.Has x y <;> by_cases hrs : Covers rs x y <;> cases f x y <;>
      simp [extent, hr, hrs, he]
  · simp [extent, he]

theorem foldl_draw (rs : List Rect) (i : Image α) :
    rs.foldl (fun i r => i.draw [r] f) i = i.draw rs f := by
  induction rs generalizing i with
  | nil => rw [draw_nil, List.foldl_nil]
  | cons r rs ih => rw [List.foldl_cons, ih, draw_draw]

end Image

end Cesvga2.Planes
