import Cesvga2.IPP.TexCoords
import Cesvga2.Polygons.Strip

/-! Polygons are drawn as strips of triangles. The index array behind the vertices takes them from
both ends in turn, with counters of 16 bits. -/

namespace Cesvga2.IPP

open Polygons

/-- What the loop of `make_polygon_index_array` stores, one index behind the other, and the index
that is left in the middle. -/
def indexLoop (base v1 v2 : UInt16) : List UInt16 :=
  if v1 < v2 then (base + v1) :: (base + v2) :: indexLoop base (v1 + 1) (v2 - 1)
  else if v1 = v2 then [base + v1]
  else []
termination_by v2.toNat - v1.toNat
decreasing_by
  rename_i h
  rw [UInt16.lt_iff_toNat_lt] at h
  have hlt := v2.toNat_lt
  have hone : 1 ≤ v2 := by
    rw [UInt16.le_iff_toNat_le, UInt16.toNat_one]
    omega
  rw [UInt16.toNat_sub_of_le _ _ hone, UInt16.toNat_add, UInt16.toNat_one]
  omega

/-- `make_polygon_index_array`. -/
def makePolygonIndexArray (base numVertices : UInt16) : List UInt16 :=
  if numVertices = 0 then [] else (base + 0) :: indexLoop base 1 (numVertices - 1)

variable {a b n : ℕ}

theorem ofNat_lt_ofNat (ha : a < 2 ^ 16) (hb : b < 2 ^ 16) :
    UInt16.ofNat a < UInt16.ofNat b ↔ a < b := UInt16.ofNat_lt_iff_lt ha hb

theorem ofNat_eq_ofNat (ha : a < 2 ^ 16) (hb : b < 2 ^ 16) :
    UInt16.ofNat a = UInt16.ofNat b ↔ a = b := by
  refine ⟨fun h => ?_, congrArg _⟩
  rw [← UInt16.toNat_ofNat_of_lt' ha, ← UInt16.toNat_ofNat_of_lt' hb, h]

/-- The indices from place `2 * a - 1` on, once the counters have come to `a` and `b`. -/
theorem indexLoop_eq (ha : 0 < a) (hab : a ≤ b + 1) (hn : a + b < 2 ^ 16) :
    indexLoop 0 (.ofNat a) (.ofNat b) =
      (List.range' (2 * a - 1) (b + 1 - a)).map fun i => UInt16.ofNat (zigzag (a + b) i) := by
  -- Both counters move by one, so their sum, the number of vertices, stays.
  induction hd : b + 1 - a using Nat.strong_induction_on generalizing a b with
  | _ d ih =>
    have hfirst : zigzag (a + b) (2 * a - 1) = a := by
      rw [zigzag_of_odd (by omega)]
      omega
    rw [indexLoop, UInt16.zero_add, UInt16.zero_add]
    simp only [ofNat_lt_ofNat (by omega : a < 2 ^ 16) (by omega : b < 2 ^ 16),
      ofNat_eq_ofNat (by omega : a < 2 ^ 16) (by omega : b < 2 ^ 16)]
    split_ifs with hlt heq
    · have hsecond : zigzag (a + b) (2 * a) = b := by
        rw [zigzag_of_even (by omega) (by omega)]
        omega
      have hrest := ih (b - 1 + 1 - (a + 1)) (by omega) (Nat.add_pos_right a one_pos) (by omega)
        (by omega) rfl
      rw [UInt16.ofNat_add, UInt16.ofNat_one, UInt16.ofNat_sub (by omega : 1 ≤ b),
        UInt16.ofNat_one] at hrest
      have hsum : a + 1 + (b - 1) = a + b := by omega
      have hplace : 2 * (a + 1) - 1 = 2 * a + 1 := by omega
      obtain ⟨m, rfl⟩ : ∃ m, d = m + 1 + 1 := ⟨d - 2, by omega⟩
      have hm : b - 1 + 1 - (a + 1) = m := by omega
      have hnext : 2 * a - 1 + 1 = 2 * a := by omega
      rw [hrest, hsum, hplace, hm, List.range'_succ, List.range'_succ, List.map_cons,
        List.map_cons, hnext, hfirst, hsecond]
    · obtain rfl : d = 1 := by omega
      rw [List.range'_one, List.map_singleton, hfirst]
    · obtain rfl : d = 0 := by omega
      rw [List.range'_zero, List.map_nil]

/-- The index array of a polygon is the zigzag over its vertices. -/
theorem makePolygonIndexArray_eq (hpos : 0 < n) (hn : n < 2 ^ 16) :
    makePolygonIndexArray 0 (.ofNat n) =
      (List.range n).map fun i => UInt16.ofNat (zigzag n i) := by
  have hne : UInt16.ofNat n ≠ 0 := fun h => hpos.ne' ((ofNat_eq_ofNat hn (by norm_num)).mp h)
  have hlast : UInt16.ofNat n - 1 = UInt16.ofNat (n - 1) := by
    rw [UInt16.ofNat_sub (by omega), UInt16.ofNat_one]
  have hloop := indexLoop_eq (a := 1) (b := n - 1) one_pos (by omega) (by omega)
  have hsum : 1 + (n - 1) = n := by omega
  have hcount : n - 1 + 1 - 1 = n - 1 := by omega
  rw [UInt16.ofNat_one, hsum, hcount] at hloop
  rw [makePolygonIndexArray, if_neg hne, hlast, hloop, List.range_eq_range']
  obtain ⟨m, rfl⟩ : ∃ m, n = m + 1 := ⟨n - 1, by omega⟩
  rw [List.range'_succ, List.map_cons]
  rfl

/-- The indices that are stored for a primitive, one behind the other. -/
def Primitive.indices (prim : Primitive) : List ℕ :=
  (makePolygonIndexArray 0 (.ofNat prim.vertices)).map UInt16.toNat

/-- The triangles that the device draws from the indices. -/
def Primitive.triangles (prim : Primitive) : List Triangle :=
  strip (fun i => prim.indices[i]?.getD 0) prim.vertices

variable {prim : Primitive}

theorem indices_eq (hpos : 0 < prim.vertices) (hn : prim.vertices < 2 ^ 16) :
    prim.indices = (List.range prim.vertices).map (zigzag prim.vertices) := by
  rw [Primitive.indices, makePolygonIndexArray_eq hpos hn, List.map_map]
  refine List.map_congr_left fun i hi => ?_
  exact UInt16.toNat_ofNat_of_lt' ((zigzag_lt (List.mem_range.mp hi)).trans hn)

theorem triangles_eq (hpos : 0 < prim.vertices) (hn : prim.vertices < 2 ^ 16) :
    prim.triangles = strip (zigzag prim.vertices) prim.vertices := by
  rw [Primitive.triangles, indices_eq hpos hn]
  refine strip_congr fun i hi => ?_
  rw [List.getElem?_map, List.getElem?_range hi]
  rfl

/-- The vertices of a polygon take at least eight bytes each. -/
theorem vertices_lt {r : Regs} {cmd : ℕ} (h : primitive r .poly (cmd % 2 ^ 16 + 1) = some prim) :
    3 ≤ prim.vertices ∧ prim.vertices < 2 ^ 16 := by
  obtain ⟨fields, sets, start, stride, hsplit, -, ⟨-, hleast⟩, hfit, -⟩ := primitive_eq_some h
  refine ⟨hleast, ?_⟩
  have hstride : 8 ≤ stride := by
    have := hsplit.consecutive.eq_add_sum
    have := hsplit.eight_le
    omega
  have hbytes : prim.vertices * 8 ≤ (cmd % 2 ^ 16 + 1) * 4 :=
    (Nat.mul_le_mul_left _ hstride).trans hfit
  omega

/-- The indices of a polygon are those of its vertices, and the strip over them is a
triangulation. -/
theorem polygon_triangulation (K : Type*) [CommRing K] [LinearOrder K] [IsStrictOrderedRing K]
    (r : Regs) (cmd : ℕ) (prim : Primitive)
    (h : primitive r .poly (cmd % 2 ^ 16 + 1) = some prim) :
    prim.vertices < 2 ^ 16 ∧ prim.indices.length = prim.vertices ∧
      prim.indices.Perm (List.range prim.vertices) ∧
      prim.triangles.length = prim.vertices - 2 ∧ (∀ t ∈ prim.triangles, t.Cyclic) ∧
      Triangulation K prim.vertices prim.triangles := by
  obtain ⟨hthree, hlt⟩ := vertices_lt h
  have hpos : 0 < prim.vertices := by omega
  have hindices := indices_eq hpos hlt
  have htriangles := triangles_eq hpos hlt
  refine ⟨hlt, ?_, ?_, ?_, ?_, ?_⟩
  · rw [hindices, List.length_map, List.length_range]
  · rw [hindices]
    exact zigzag_perm _
  · rw [htriangles, strip, List.length_map, List.length_range]
  · rw [htriangles]
    intro t ht
    obtain ⟨i, hi, rfl⟩ := List.mem_map.mp ht
    have hi' := List.mem_range.mp hi
    exact cyclic_zigzag (by omega)
  · rw [htriangles]
    exact triangulation_zigzag K hthree

/-- Vertices of two floats each. -/
def flatRegs : Regs where
  immS i := if i = 2 then 0xFFFFFFFF else if i = 4 then 0xC0 else 0
  paramCacheMask := 0
  clearParams := ⟨0, 0, 0, 0⟩

/-- A square. -/
theorem polygon_triangulation_square :
    primitive flatRegs .poly (7 % 2 ^ 16 + 1) = some ⟨[⟨.positionT, 0, .float2, 0, 8⟩], 4, 40⟩ ∧
      Triangulation ℚ 4 (⟨[⟨.positionT, 0, .float2, 0, 8⟩], 4, 40⟩ : Primitive).triangles := by
  have h : primitive flatRegs .poly (7 % 2 ^ 16 + 1) =
      some ⟨[⟨.positionT, 0, .float2, 0, 8⟩], 4, 40⟩ := by rfl
  exact ⟨h, (polygon_triangulation ℚ flatRegs 7 _ h).2.2.2.2.2⟩

end Cesvga2.IPP
