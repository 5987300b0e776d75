import Cesvga2.Surface.State
import Mathlib

/-! `genericBlitCopy` copies the rows of a region between two windows of the kernel's address
space. Addresses are computed with products that wrap at 32 bits and sums that wrap at 64, and each
row is copied only if it is found to lie in both windows. -/

namespace Cesvga2.Accel

open Cesvga2.Surface (Bounds Region)

/-- One side of a blit: a base address, the fields of `SVGAGuestImage` that are used, of which
`offset` is the length of the window, and a `SVGASignedPoint`. -/
structure Side where
  base : UInt64
  offset : UInt32
  pitch : UInt32
  deltaX : Int32
  deltaY : Int32
  deriving DecidableEq, Repr

/-- A `memcpy` of `len` bytes. -/
structure Copy where
  dst : ℕ
  src : ℕ
  len : ℕ
  deriving DecidableEq, Repr

namespace Side

variable (s : Side)

def limit : ℕ := u64 (s.base.toNat + s.offset.toNat)

/-- The address of the first row of a rectangle. The product with the pitch is unsigned, the one
with the bytes of a pixel is signed. -/
def start (bpp : UInt8) (r : Bounds) : ℕ :=
  ofInt64 (s.base.toNat + u32 (ofInt32 (r.y.toInt + s.deltaY.toInt) * s.pitch.toNat) +
    int32 (int32 (r.x.toInt + s.deltaX.toInt) * bpp.toNat))

/-- The test of a row of `l` bytes. -/
def Takes (a l : ℕ) : Prop := s.base.toNat ≤ a ∧ u64 (a + l) ≤ s.limit

instance (a l : ℕ) : Decidable (s.Takes a l) := inferInstanceAs (Decidable (_ ∧ _))

def next (a : ℕ) : ℕ := u64 (a + s.pitch.toNat)

end Side

variable (dst src : Side)

/-- The rows of a rectangle. A row that is not copied leaves both addresses as they are. -/
def rows (l : ℕ) : ℕ → ℕ → ℕ → List Copy
  | 0, _, _ => []
  | n + 1, a, b =>
    if dst.Takes a l ∧ src.Takes b l then ⟨a, b, l⟩ :: rows l n (dst.next a) (src.next b)
    else rows l n a b

def blitRect (bpp : UInt8) (r : Bounds) : List Copy :=
  if r.w ≤ 0 ∨ r.h ≤ 0 then []
  else
    rows dst src (u64 (r.w.toInt.toNat * bpp.toNat)) r.h.toInt.toNat (dst.start bpp r)
      (src.start bpp r)

/-- `genericBlitCopy` with the copies it makes. -/
def genericBlitCopy (region : Option Region) (bpp : UInt8) : IOReturn × List Copy :=
  if dst.base = 0 ∨ src.base = 0 then (.badArgument, [])
  else (.success, (region.elim [] Region.rects).flatMap (blitRect dst src bpp))

/-! ### Windows away from the ends of the address space -/

/-- The window starts 2^34 bytes above the bottom and ends 2^34 bytes below the top. -/
def Side.Inner (s : Side) : Prop :=
  2 ^ 34 ≤ s.base.toNat ∧ s.base.toNat + s.offset.toNat + 2 ^ 34 ≤ 2 ^ 64

instance (s : Side) : Decidable s.Inner := inferInstanceAs (Decidable (_ ∧ _))

variable {dst src} {s : Side} {a b l n i : ℕ} {c : Copy}

theorem Side.Inner.limit_eq (h : s.Inner) : s.limit = s.base.toNat + s.offset.toNat := by
  have := h.2
  exact u64_of_lt (by omega)

/-- No row that starts here ends beyond the address space. -/
def Near (a : ℕ) : Prop := a + 2 ^ 33 < 2 ^ 64

theorem Side.Inner.near_start (h : s.Inner) (bpp : UInt8) (r : Bounds) :
    Near (s.start bpp r) := by
  obtain ⟨hlow, hhigh⟩ := h
  have hrow := u32_lt (ofInt32 (r.y.toInt + s.deltaY.toInt) * s.pitch.toNat)
  have hcol := int32_bounds (int32 (r.x.toInt + s.deltaX.toInt) * bpp.toNat)
  simp only [Near, Side.start, ofInt64]
  generalize u32 _ = row at hrow
  generalize int32 _ = col at hcol
  omega

/-- A row that is taken lies in its window. -/
theorem Side.Inner.of_takes (h : s.Inner) (ha : Near a) (hl : l < 2 ^ 24) (ht : s.Takes a l) :
    s.base.toNat ≤ a ∧ a + l ≤ s.base.toNat + s.offset.toNat := by
  obtain ⟨hbase, hend⟩ := ht
  rw [h.limit_eq, u64_of_lt (by unfold Near at ha; omega)] at hend
  exact ⟨hbase, hend⟩

/-- The row after one that is taken does not wrap either. -/
theorem Side.Inner.near_next (h : s.Inner) (ha : Near a) (hl : l < 2 ^ 24) (ht : s.Takes a l) :
    Near (s.next a) := by
  have hin := h.of_takes ha hl ht
  have hpitch := s.pitch.toNat_lt
  have hhigh := h.2
  rw [Side.next, u64_of_lt (by omega), Near]
  omega

/-- A copy inside both windows. -/
structure Copy.Within (c : Copy) (dst src : Side) : Prop where
  writes : ∀ i < c.len, dst.base.toNat ≤ c.dst + i ∧ c.dst + i < dst.base.toNat + dst.offset.toNat
  reads : ∀ i < c.len, src.base.toNat ≤ c.src + i ∧ c.src + i < src.base.toNat + src.offset.toNat

theorem within_rows (hdst : dst.Inner) (hsrc : src.Inner) (hl : l < 2 ^ 24) (ha : Near a)
    (hb : Near b) (hc : c ∈ rows dst src l n a b) : c.Within dst src := by
  induction n generalizing a b with
  | zero => exact absurd hc List.not_mem_nil
  | succ n ih =>
    rw [rows] at hc
    split_ifs at hc with ht
    · rcases List.mem_cons.mp hc with rfl | hc
      · obtain ⟨hlow, hhigh⟩ := hdst.of_takes ha hl ht.1
        obtain ⟨hlow', hhigh'⟩ := hsrc.of_takes hb hl ht.2
        refine ⟨fun i hi => ?_, fun i hi => ?_⟩
        · dsimp only at hi ⊢
          omega
        · dsimp only at hi ⊢
          omega
      · exact ih (hdst.near_next ha hl ht.1) (hsrc.near_next hb hl ht.2) hc
    · exact ih ha hb hc

theorem rowProduct_le (bpp : UInt8) (r : Bounds) :
    r.w.toInt.toNat * bpp.toNat ≤ 2 ^ 15 * 2 ^ 8 := by
  have hw := r.w.toInt_lt
  have hb := bpp.toNat_lt
  exact Nat.mul_le_mul (by omega) (by omega)

theorem rowBytes_lt (bpp : UInt8) (r : Bounds) : u64 (r.w.toInt.toNat * bpp.toNat) < 2 ^ 24 := by
  have hle := rowProduct_le bpp r
  rw [u64_of_lt (by omega)]
  omega

/-- Whatever the region, the deltas and the pitches, every byte that is read or written lies in its
window. -/
theorem blit_in_windows (hdst : dst.Inner) (hsrc : src.Inner) (region : Option Region)
    (bpp : UInt8) : ∀ c ∈ (genericBlitCopy dst src region bpp).2, c.Within dst src := by
  intro c hc
  unfold genericBlitCopy at hc
  split_ifs at hc
  · exact absurd hc List.not_mem_nil
  obtain ⟨r, -, hr⟩ := List.mem_flatMap.mp hc
  unfold blitRect at hr
  split_ifs at hr
  · exact absurd hr List.not_mem_nil
  exact within_rows hdst hsrc (rowBytes_lt bpp r) (hdst.near_start bpp r) (hsrc.near_start bpp r) hr

/-- Two rows of one pixel; the window of the destination has room for the first only. -/
theorem blit_in_windows_pixel :
    let dst : Side := ⟨2 ^ 34, 8, 8, 0, 0⟩
    let src : Side := ⟨2 ^ 35, 64, 16, -1, 0⟩
    let region : Region := ⟨⟨0, 0, 2, 2⟩, [⟨1, 0, 1, 2⟩]⟩
    (genericBlitCopy dst src region 4).2 = [⟨2 ^ 34 + 4, 2 ^ 35, 4⟩] ∧
      ∀ c ∈ (genericBlitCopy dst src region 4).2, c.Within dst src :=
  ⟨by decide +kernel, blit_in_windows (by decide) (by decide) _ 4⟩

/-! ### The rows that lie in both windows

`continue` on a row outside a window skips the two additions, so that the address stays where it is
for the rest of the rectangle: what is copied is the run of rows from the first to the last before a
row outside. -/

/-- The address of row `j` of a rectangle, as integers have it. -/
def Side.rowAddr (s : Side) (bpp : UInt8) (r : Bounds) (j : ℕ) : ℤ :=
  s.base.toNat + (r.y.toInt + s.deltaY.toInt + j) * s.pitch.toNat +
    (r.x.toInt + s.deltaX.toInt) * bpp.toNat

/-- The bytes of one row. -/
def rowBytes (bpp : UInt8) (r : Bounds) : ℕ := r.w.toInt.toNat * bpp.toNat

/-- Row `j` spans bytes of the window only. -/
def Side.Shows (s : Side) (bpp : UInt8) (r : Bounds) (j : ℕ) : Prop :=
  s.base.toNat ≤ s.rowAddr bpp r j ∧
    s.rowAddr bpp r j + rowBytes bpp r ≤ s.base.toNat + s.offset.toNat

instance (s : Side) (bpp : UInt8) (r : Bounds) (j : ℕ) : Decidable (s.Shows bpp r j) :=
  inferInstanceAs (Decidable (_ ∧ _))

/-- A row of a rectangle that is not empty. -/
def IsRow (r : Bounds) (j : ℕ) : Prop := 0 < r.w.toInt ∧ (j : ℤ) < r.h.toInt

instance (r : Bounds) (j : ℕ) : Decidable (IsRow r j) := inferInstanceAs (Decidable (_ ∧ _))

variable (dst src) in
/-- The source span and the destination span of the row both lie in their windows. -/
def Visible (bpp : UInt8) (r : Bounds) (j : ℕ) : Prop :=
  IsRow r j ∧ dst.Shows bpp r j ∧ src.Shows bpp r j

instance (bpp : UInt8) (r : Bounds) (j : ℕ) : Decidable (Visible dst src bpp r j) :=
  inferInstanceAs (Decidable (_ ∧ _))

variable (dst src) in
/-- The copy of a whole row. -/
def rowCopy (bpp : UInt8) (r : Bounds) (j : ℕ) : Copy :=
  ⟨(dst.rowAddr bpp r j).toNat, (src.rowAddr bpp r j).toNat, rowBytes bpp r⟩

/-- The addresses of a side are computed without overflow: those of the first row and of the
window's end are exact, and no row goes beyond the address space. -/
structure Side.Exact (s : Side) (bpp : UInt8) (r : Bounds) : Prop where
  start : (s.start bpp r : ℤ) = s.rowAddr bpp r 0
  row : ∀ j, IsRow r j → s.rowAddr bpp r j + rowBytes bpp r < 2 ^ 64
  limit : s.base.toNat + s.offset.toNat < 2 ^ 64

theorem Side.rowAddr_eq (bpp : UInt8) (r : Bounds) (j : ℕ) :
    s.rowAddr bpp r j = s.rowAddr bpp r 0 + j * s.pitch.toNat := by
  simp only [Side.rowAddr]
  push_cast
  ring

theorem Side.rowAddr_mono (bpp : UInt8) (r : Bounds) : Monotone (s.rowAddr bpp r) := by
  intro i j hij
  rw [Side.rowAddr_eq bpp r i, Side.rowAddr_eq bpp r j]
  gcongr

namespace Side.Exact

variable {bpp : UInt8} {r : Bounds} {j : ℕ}

/-- The last row is the one to look at. -/
theorem of_last (hstart : (s.start bpp r : ℤ) = s.rowAddr bpp r 0)
    (hrow : s.rowAddr bpp r (r.h.toInt.toNat - 1) + rowBytes bpp r < 2 ^ 64)
    (hlimit : s.base.toNat + s.offset.toNat < 2 ^ 64) : s.Exact bpp r := by
  refine ⟨hstart, fun j hj => lt_of_le_of_lt ?_ hrow, hlimit⟩
  have hj' : j ≤ r.h.toInt.toNat - 1 := by have := hj.2; omega
  have hle := Side.rowAddr_mono (s := s) bpp r hj'
  omega

theorem rowAddr (h : s.Exact bpp r) (j : ℕ) :
    s.rowAddr bpp r j = (s.start bpp r + j * s.pitch.toNat : ℕ) := by
  rw [Side.rowAddr_eq, ← h.start]
  push_cast
  rfl

theorem lt (h : s.Exact bpp r) (hj : IsRow r j) :
    s.start bpp r + j * s.pitch.toNat + rowBytes bpp r < 2 ^ 64 := by
  have hrow := h.row j hj
  rw [h.rowAddr] at hrow
  exact_mod_cast hrow

/-- The test of the loop, at an address that has followed the rows so far. -/
theorem takes_iff (h : s.Exact bpp r) (hj : IsRow r j) :
    s.Takes (s.start bpp r + j * s.pitch.toNat) (rowBytes bpp r) ↔ s.Shows bpp r j := by
  rw [Side.Takes, Side.limit, u64_of_lt (h.lt hj), u64_of_lt h.limit, Side.Shows, h.rowAddr]
  norm_cast

theorem next (h : s.Exact bpp r) (hj : IsRow r (j + 1)) :
    s.next (s.start bpp r + j * s.pitch.toNat) = s.start bpp r + (j + 1) * s.pitch.toNat := by
  have hlt := h.lt hj
  rw [add_one_mul, ← Nat.add_assoc] at hlt ⊢
  exact u64_of_lt (by omega)

end Side.Exact

theorem IsRow.of_le {r : Bounds} {i j : ℕ} (h : IsRow r j) (hij : i ≤ j) : IsRow r i :=
  ⟨h.1, by have := h.2; omega⟩

/-- The rows that a side shows have no gap. -/
theorem Side.Shows.of_between {bpp : UInt8} {r : Bounds} {k j i : ℕ} (hk : s.Shows bpp r k)
    (hj : s.Shows bpp r j) (hki : k ≤ i) (hij : i ≤ j) : s.Shows bpp r i := by
  have hlow := Side.rowAddr_mono (s := s) bpp r hki
  have hhigh := Side.rowAddr_mono (s := s) bpp r hij
  exact ⟨hk.1.trans hlow, (by omega : _ ≤ s.rowAddr bpp r j + rowBytes bpp r).trans hj.2⟩

section

variable {bpp : UInt8} {r : Bounds}

theorem Visible.of_le {j : ℕ} (h0 : Visible dst src bpp r 0) (hj : Visible dst src bpp r j)
    (hi : i ≤ j) : Visible dst src bpp r i :=
  ⟨hj.1.of_le hi, h0.2.1.of_between hj.2.1 (Nat.zero_le i) hi,
    h0.2.2.of_between hj.2.2 (Nat.zero_le i) hi⟩

theorem rows_of_not_takes (h : ¬ (dst.Takes a l ∧ src.Takes b l)) :
    rows dst src l n a b = [] := by
  induction n with
  | zero => rfl
  | succ n ih => rw [rows, if_neg h, ih]

theorem rowCopy_eq (hdst : dst.Exact bpp r) (hsrc : src.Exact bpp r) (j : ℕ) :
    rowCopy dst src bpp r j = ⟨dst.start bpp r + j * dst.pitch.toNat,
      src.start bpp r + j * src.pitch.toNat, rowBytes bpp r⟩ := by
  rw [rowCopy, hdst.rowAddr, hsrc.rowAddr, Int.toNat_natCast, Int.toNat_natCast]

/-- From row `i` on the loop copies the rows up to the first that is not visible. -/
theorem mem_rows_iff (hdst : dst.Exact bpp r) (hsrc : src.Exact bpp r) (hr : 0 < r.w.toInt)
    (hn : (i : ℤ) + n = r.h.toInt) :
    c ∈ rows dst src (rowBytes bpp r) n (dst.start bpp r + i * dst.pitch.toNat)
        (src.start bpp r + i * src.pitch.toNat) ↔
      ∃ j, i ≤ j ∧ c = rowCopy dst src bpp r j ∧ ∀ k, i ≤ k → k ≤ j → Visible dst src bpp r k := by
  induction n generalizing i with
  | zero =>
    refine ⟨fun hc => absurd hc List.not_mem_nil, ?_⟩
    rintro ⟨j, hj, -, hvis⟩
    have := (hvis i le_rfl hj).1.2
    omega
  | succ n ih =>
    have hrow : IsRow r i := ⟨hr, by omega⟩
    have htest : dst.Takes (dst.start bpp r + i * dst.pitch.toNat) (rowBytes bpp r) ∧
        src.Takes (src.start bpp r + i * src.pitch.toNat) (rowBytes bpp r) ↔
          Visible dst src bpp r i := by
      rw [hdst.takes_iff hrow, hsrc.takes_iff hrow, Visible, and_iff_right hrow]
    rw [rows]
    split_ifs with ht
    · have hvis := htest.mp ht
      have hrest : rows dst src (rowBytes bpp r) n
            (dst.next (dst.start bpp r + i * dst.pitch.toNat))
            (src.next (src.start bpp r + i * src.pitch.toNat)) =
          rows dst src (rowBytes bpp r) n (dst.start bpp r + (i + 1) * dst.pitch.toNat)
            (src.start bpp r + (i + 1) * src.pitch.toNat) := by
        cases n with
        | zero => rfl
        | succ n =>
          have hrow' : IsRow r (i + 1) := ⟨hr, by push_cast at hn ⊢; omega⟩
          rw [hdst.next hrow', hsrc.next hrow']
      rw [hrest, List.mem_cons, ih (by push_cast at hn ⊢; omega), ← rowCopy_eq hdst hsrc]
      constructor
      · rintro (rfl | ⟨j, hj, rfl, hall⟩)
        · exact ⟨i, le_rfl, rfl, fun k hk hk' => le_antisymm hk hk' ▸ hvis⟩
        · refine ⟨j, by omega, rfl, fun k hk hk' => ?_⟩
          rcases hk.eq_or_lt with rfl | hlt
          · exact hvis
          · exact hall k hlt hk'
      · rintro ⟨j, hj, rfl, hall⟩
        rcases hj.eq_or_lt with rfl | hlt
        · exact .inl rfl
        · exact .inr ⟨j, hlt, rfl, fun k hk hk' => hall k (by omega) hk'⟩
    · rw [rows_of_not_takes ht]
      refine ⟨fun hc => absurd hc List.not_mem_nil, ?_⟩
      rintro ⟨j, hj, -, hall⟩
      exact absurd (htest.mpr (hall i le_rfl hj)) ht

/-- A rectangle whose first row is outside is not copied at all; of the others every row that is
visible is. -/
theorem mem_blitRect_iff (hdst : dst.Exact bpp r) (hsrc : src.Exact bpp r) :
    c ∈ blitRect dst src bpp r ↔ Visible dst src bpp r 0 ∧
      ∃ j, c = rowCopy dst src bpp r j ∧ Visible dst src bpp r j := by
  have hle := rowProduct_le bpp r
  have hl : u64 (r.w.toInt.toNat * bpp.toNat) = rowBytes bpp r := u64_of_lt (by omega)
  unfold blitRect
  split_ifs with hempty
  · refine ⟨fun hc => absurd hc List.not_mem_nil, ?_⟩
    rintro ⟨⟨⟨hw, hh⟩, -⟩, -⟩
    rw [Int16.le_iff_toInt_le, Int16.le_iff_toInt_le, Int16.toInt_zero] at hempty
    omega
  · simp only [Int16.le_iff_toInt_le, Int16.toInt_zero, not_or, not_le] at hempty
    obtain ⟨hw, hh⟩ := hempty
    have hrows := mem_rows_iff (c := c) (i := 0) (n := r.h.toInt.toNat) hdst hsrc hw (by omega)
    simp only [Nat.zero_mul, Nat.add_zero, Nat.zero_le, true_and, forall_const] at hrows
    rw [hl, hrows]
    constructor
    · rintro ⟨j, rfl, hall⟩
      exact ⟨hall 0 (Nat.zero_le j), j, rfl, hall j le_rfl⟩
    · rintro ⟨h0, j, rfl, hj⟩
      exact ⟨j, rfl, fun k hk => h0.of_le hj hk⟩

end

variable (dst src) in
/-- Every visible row of a region is copied. -/
def CopiesVisible (region : Region) (bpp : UInt8) : Prop :=
  ∀ r ∈ region.rects, ∀ j, Visible dst src bpp r j →
    rowCopy dst src bpp r j ∈ (genericBlitCopy dst src region bpp).2

variable (dst src) in
/-- The addresses of a region are computed without overflow. -/
def NoOverflow (region : Region) (bpp : UInt8) : Prop :=
  ∀ r ∈ region.rects, dst.Exact bpp r ∧ src.Exact bpp r

/-- Every visible row is copied exactly if each belongs to a rectangle whose first row is visible
too, or has the bytes of such a rectangle's row. -/
theorem copiesVisible_iff {region : Region} {bpp : UInt8} (h : NoOverflow dst src region bpp) :
    CopiesVisible dst src region bpp ↔
      ∀ r ∈ region.rects, ∀ j, Visible dst src bpp r j → dst.base ≠ 0 ∧ src.base ≠ 0 ∧
        ∃ r' ∈ region.rects, Visible dst src bpp r' 0 ∧
          ∃ j', Visible dst src bpp r' j' ∧
            rowCopy dst src bpp r' j' = rowCopy dst src bpp r j := by
  unfold CopiesVisible genericBlitCopy
  refine forall₂_congr fun r hr => forall₂_congr fun j hj => ?_
  split_ifs with hbase
  · refine ⟨fun hc => absurd hc List.not_mem_nil, ?_⟩
    rintro ⟨hdst, hsrc, -⟩
    exact absurd hbase (not_or.mpr ⟨hdst, hsrc⟩)
  · obtain ⟨hdst, hsrc⟩ := not_or.mp hbase
    rw [and_iff_right hdst, and_iff_right hsrc, Option.elim_some, List.mem_flatMap]
    refine exists_congr fun r' => and_congr_right fun hr' => ?_
    rw [mem_blitRect_iff (h r' hr').1 (h r' hr').2]
    refine and_congr_right fun _ => exists_congr fun j' => ?_
    rw [and_comm, eq_comm]

/-! ### A rectangle that starts one pixel before the window -/

/-- Row 0 of `clippedRegion` begins four bytes before this window, row 1 lies inside it. -/
def clippedDst : Side := ⟨2 ^ 34, 64, 8, -1, 0⟩

def clippedSrc : Side := ⟨2 ^ 35, 64, 8, 0, 0⟩

def clippedRegion : Region := ⟨⟨0, 0, 1, 2⟩, [⟨0, 0, 1, 2⟩]⟩

theorem noOverflow_clipped : NoOverflow clippedDst clippedSrc clippedRegion 4 := by
  intro r hr
  rw [List.mem_singleton.mp hr]
  exact ⟨.of_last (by decide +kernel) (by decide +kernel) (by decide +kernel),
    .of_last (by decide +kernel) (by decide +kernel) (by decide +kernel)⟩

/-- Row 1 is visible in both windows and is not copied; nothing is. -/
theorem not_copiesVisible_clipped :
    NoOverflow clippedDst clippedSrc clippedRegion 4 ∧
      clippedDst.base.toNat + clippedDst.offset.toNat ≤ clippedSrc.base.toNat ∧
      genericBlitCopy clippedDst clippedSrc clippedRegion 4 = (.success, []) ∧
      ¬ CopiesVisible clippedDst clippedSrc clippedRegion 4 := by
  have hnone : genericBlitCopy clippedDst clippedSrc clippedRegion 4 = (.success, []) := by
    decide +kernel
  refine ⟨noOverflow_clipped, by decide +kernel, hnone, fun h => ?_⟩
  have hmem := h ⟨0, 0, 1, 2⟩ List.mem_cons_self 1 (by decide +kernel)
  rw [hnone] at hmem
  exact absurd hmem List.not_mem_nil

/-- A window with room for the first row only: the second row is left out, and the first copied. -/
theorem copiesVisible_firstRow :
    let dst : Side := ⟨2 ^ 34, 8, 8, 0, 0⟩
    (genericBlitCopy dst clippedSrc clippedRegion 4).2 = [⟨2 ^ 34, 2 ^ 35, 4⟩] ∧
      CopiesVisible dst clippedSrc clippedRegion 4 := by
  refine ⟨by decide +kernel, (copiesVisible_iff fun r hr => ?_).mpr fun r hr j hj => ?_⟩
  · rw [List.mem_singleton.mp hr]
    exact ⟨.of_last (by decide +kernel) (by decide +kernel) (by decide +kernel),
      .of_last (by decide +kernel) (by decide +kernel) (by decide +kernel)⟩
  · cases List.mem_singleton.mp hr
    exact ⟨by decide, by decide, _, hr, by decide +kernel, j, hj, rfl⟩

end Cesvga2.Accel
