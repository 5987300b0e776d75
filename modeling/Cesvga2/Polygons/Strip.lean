import Mathlib

/-! Strips of triangles over the vertices of a convex polygon. A strip that takes the vertices from
both ends in turn cuts the polygon along a zigzag: its triangles are all in cyclic order, the line
of each rung of the zigzag separates those before it from those behind it, and each side of the
polygon is one of one triangle. -/

namespace Cesvga2.Polygons

/-! ### The plane -/

section Plane

variable {K : Type*} [CommRing K]

/-- Positive if the three points are in counterclockwise order. -/
def cross (a b c : K × K) : K := (b.1 - a.1) * (c.2 - a.2) - (b.2 - a.2) * (c.1 - a.1)

theorem cross_rotate (a b c : K × K) : cross b c a = cross a b c := by
  unfold cross
  ring

theorem cross_swap (a b c : K × K) : cross b a c = -cross a b c := by
  unfold cross
  ring

@[simp] theorem cross_left (a b : K × K) : cross a b a = 0 := by
  unfold cross
  ring

@[simp] theorem cross_right (a b : K × K) : cross a b b = 0 := by
  unfold cross
  ring

/-- Where a point lies with respect to a line, from its place in a triangle. -/
theorem cross_mul (a b c u v q : K × K) : cross a b c * cross u v q =
    cross b c q * cross u v a + cross c a q * cross u v b + cross a b q * cross u v c := by
  unfold cross
  ring

theorem cross_add (a b c q : K × K) : cross a b c = cross b c q + cross c a q + cross a b q := by
  unfold cross
  ring

variable [LinearOrder K] [IsStrictOrderedRing K]

/-- The points inside a triangle whose corners are in counterclockwise order. -/
def inside (a b c : K × K) : Set (K × K) :=
  {q | 0 < cross b c q ∧ 0 < cross c a q ∧ 0 < cross a b q}

/-- A triangle on one side of a line, with at least one corner off the line. -/
theorem cross_pos_of_inside {a b c u v q : K × K} (hq : q ∈ inside a b c)
    (ha : 0 ≤ cross u v a) (hb : 0 ≤ cross u v b) (hc : 0 ≤ cross u v c)
    (hoff : 0 < cross u v a ∨ 0 < cross u v b ∨ 0 < cross u v c) : 0 < cross u v q := by
  obtain ⟨hqa, hqb, hqc⟩ := hq
  have habc : 0 < cross a b c := by
    rw [cross_add a b c q]
    positivity
  refine pos_of_mul_pos_right ?_ habc.le
  rw [cross_mul]
  rcases hoff with h | h | h <;> positivity

end Plane

/-! ### Triangles -/

structure Triangle where
  a : ℕ
  b : ℕ
  c : ℕ
  deriving DecidableEq, Repr

namespace Triangle

/-- The corners are in increasing order, from one of them on. -/
def Cyclic (t : Triangle) : Prop :=
  t.a < t.b ∧ t.b < t.c ∨ t.b < t.c ∧ t.c < t.a ∨ t.c < t.a ∧ t.a < t.b

instance (t : Triangle) : Decidable t.Cyclic := inferInstanceAs (Decidable (_ ∨ _))

def HasCorner (t : Triangle) (x : ℕ) : Prop := x = t.a ∨ x = t.b ∨ x = t.c

instance (t : Triangle) (x : ℕ) : Decidable (t.HasCorner x) := inferInstanceAs (Decidable (_ ∨ _))

/-- Any two corners are the ends of an edge. -/
def HasEdge (t : Triangle) (x y : ℕ) : Prop := x ≠ y ∧ t.HasCorner x ∧ t.HasCorner y

instance (t : Triangle) (x y : ℕ) : Decidable (t.HasEdge x y) := inferInstanceAs (Decidable (_ ∧ _))

theorem hasEdge_comm {t : Triangle} {x y : ℕ} : t.HasEdge x y ↔ t.HasEdge y x :=
  and_congr ne_comm and_comm

/-- The points inside, for corners `p`. -/
def interior {K : Type*} [CommRing K] [LinearOrder K] [IsStrictOrderedRing K] (t : Triangle)
    (p : ℕ → K × K) : Set (K × K) := inside (p t.a) (p t.b) (p t.c)

end Triangle

/-- The vertices of a convex polygon, in counterclockwise order. -/
def Convex {K : Type*} [CommRing K] [LinearOrder K] (n : ℕ) (p : ℕ → K × K) : Prop :=
  ∀ i j k, i < j → j < k → k < n → 0 < cross (p i) (p j) (p k)

/-- The ends of a side of a polygon with `n` vertices. -/
def Adjacent (n x y : ℕ) : Prop :=
  x + 1 = y ∨ y + 1 = x ∨ x = 0 ∧ y + 1 = n ∨ y = 0 ∧ x + 1 = n

instance (n x y : ℕ) : Decidable (Adjacent n x y) := inferInstanceAs (Decidable (_ ∨ _))

theorem adjacent_comm {n x y : ℕ} : Adjacent n x y ↔ Adjacent n y x := by
  unfold Adjacent
  omega

/-- The triangles cut a convex polygon with `n` vertices into pieces. -/
structure Triangulation (K : Type*) [CommRing K] [LinearOrder K] [IsStrictOrderedRing K] (n : ℕ)
    (ts : List Triangle) : Prop where
  disjoint : ∀ p : ℕ → K × K, Convex n p →
    ts.Pairwise fun t t' => Disjoint (t.interior p) (t'.interior p)
  side : ∀ x < n, ∀ y < n, Adjacent n x y → ts.countP (·.HasEdge x y) = 1
  diagonal : ∀ t ∈ ts, ∀ x y, t.HasEdge x y → ¬ Adjacent n x y → ts.countP (·.HasEdge x y) = 2

/-! ### Strips -/

/-- Triangle `i` of the strip over `v`; every other one is turned over. -/
def stripTriangle (v : ℕ → ℕ) (i : ℕ) : Triangle :=
  if i % 2 = 0 then ⟨v i, v (i + 1), v (i + 2)⟩ else ⟨v (i + 1), v i, v (i + 2)⟩

/-- The strip over `n` vertices. -/
def strip (v : ℕ → ℕ) (n : ℕ) : List Triangle := (List.range (n - 2)).map (stripTriangle v)

theorem hasCorner_stripTriangle {v : ℕ → ℕ} {i x : ℕ} :
    (stripTriangle v i).HasCorner x ↔ x = v i ∨ x = v (i + 1) ∨ x = v (i + 2) := by
  unfold stripTriangle Triangle.HasCorner
  split_ifs
  · rfl
  · exact or_left_comm

theorem strip_congr {v w : ℕ → ℕ} {n : ℕ} (h : ∀ i < n, v i = w i) : strip v n = strip w n := by
  refine List.map_congr_left fun i hi => ?_
  have hlt := List.mem_range.mp hi
  rw [stripTriangle, stripTriangle, h i (by omega), h (i + 1) (by omega), h (i + 2) (by omega)]

/-! ### The zigzag -/

/-- The vertices from both ends in turn. -/
def zigzag (n i : ℕ) : ℕ := if i = 0 then 0 else if i % 2 = 1 then (i + 1) / 2 else n - i / 2

section Zigzag

variable {n i j k x y : ℕ}

theorem zigzag_zero (n : ℕ) : zigzag n 0 = 0 := rfl

theorem zigzag_of_odd (h : i % 2 = 1) : zigzag n i = (i + 1) / 2 := by
  rw [zigzag, if_neg (by omega), if_pos h]

theorem zigzag_of_even (hpos : 0 < i) (h : i % 2 = 0) : zigzag n i = n - i / 2 := by
  rw [zigzag, if_neg (by omega), if_neg (by omega)]

theorem zigzag_lt (h : i < n) : zigzag n i < n := by
  unfold zigzag
  split_ifs <;> omega

theorem zigzag_inj (hi : i < n) (hj : j < n) : zigzag n i = zigzag n j ↔ i = j := by
  unfold zigzag
  split_ifs <;> omega

/-- Every vertex has its place. -/
theorem exists_zigzag (hx : x < n) : ∃ i < n, zigzag n i = x := by
  by_cases h0 : x = 0
  · exact ⟨0, by omega, by rw [zigzag, if_pos rfl, h0]⟩
  by_cases hlow : 2 * x ≤ n
  · refine ⟨2 * x - 1, by omega, ?_⟩
    rw [zigzag, if_neg (by omega), if_pos (by omega)]
    omega
  · refine ⟨2 * (n - x), by omega, ?_⟩
    rw [zigzag, if_neg (by omega), if_neg (by omega)]
    omega

theorem zigzag_perm (n : ℕ) : ((List.range n).map (zigzag n)).Perm (List.range n) := by
  have hnodup : ((List.range n).map (zigzag n)).Nodup := by
    refine List.Nodup.map_on (fun i hi j hj h => ?_) List.nodup_range
    exact (zigzag_inj (List.mem_range.mp hi) (List.mem_range.mp hj)).mp h
  refine (List.perm_ext_iff_of_nodup hnodup List.nodup_range).mpr fun x => ?_
  simp only [List.mem_map, List.mem_range]
  constructor
  · rintro ⟨i, hi, rfl⟩
    exact zigzag_lt hi
  · exact exists_zigzag

/-- A rung goes up if its triangle is not turned over. The vertices behind it lie between its ends,
and the one in front of it does not. -/
theorem rung_up (h : i + 2 < n) (heven : i % 2 = 0) :
    zigzag n (i + 1) < zigzag n (i + 2) ∧
      (zigzag n i < zigzag n (i + 1) ∨ zigzag n (i + 2) < zigzag n i) ∧
      ∀ k < n, i + 2 < k → zigzag n (i + 1) < zigzag n k ∧ zigzag n k < zigzag n (i + 2) := by
  rw [zigzag_of_odd (by omega : (i + 1) % 2 = 1), zigzag_of_even (by omega) (by omega)]
  refine ⟨by omega, ?_, fun k hk hik => ?_⟩
  · rcases Nat.eq_zero_or_pos i with rfl | hpos
    · exact .inl (Nat.succ_pos _)
    · rw [zigzag_of_even hpos heven]
      omega
  · rcases Nat.mod_two_eq_zero_or_one k with hk2 | hk2
    · rw [zigzag_of_even (by omega) hk2]
      omega
    · rw [zigzag_of_odd hk2]
      omega

theorem rung_down (h : i + 2 < n) (hodd : i % 2 = 1) :
    zigzag n (i + 2) < zigzag n (i + 1) ∧ zigzag n i < zigzag n (i + 2) ∧
      ∀ k < n, i + 2 < k → zigzag n (i + 2) < zigzag n k ∧ zigzag n k < zigzag n (i + 1) := by
  rw [zigzag_of_odd (by omega : (i + 2) % 2 = 1), zigzag_of_odd hodd,
    zigzag_of_even (by omega) (by omega)]
  refine ⟨by omega, by omega, fun k hk hik => ?_⟩
  rcases Nat.mod_two_eq_zero_or_one k with hk2 | hk2
  · rw [zigzag_of_even (by omega) hk2]
    omega
  · rw [zigzag_of_odd hk2]
    omega

theorem cyclic_zigzag (h : i + 2 < n) : (stripTriangle (zigzag n) i).Cyclic := by
  rcases Nat.mod_two_eq_zero_or_one i with heven | hodd
  · obtain ⟨hrung, hfront, -⟩ := rung_up h heven
    rw [stripTriangle, if_pos heven]
    exact hfront.elim (fun hlt => .inl ⟨hlt, hrung⟩) fun hgt => .inr (.inl ⟨hrung, hgt⟩)
  · obtain ⟨hrung, hfront, -⟩ := rung_down h hodd
    rw [stripTriangle, if_neg (by omega)]
    exact .inr (.inl ⟨hfront, hrung⟩)

/-! ### The pieces -/

section Pieces

variable {K : Type*} [CommRing K] [LinearOrder K] {p : ℕ → K × K}

/-- A vertex between the ends of a diagonal lies to its right, one outside to its left. -/
theorem Convex.between (h : Convex n p) (hij : i < j) (hjk : j < k) (hk : k < n) :
    0 < cross (p k) (p i) (p j) := by
  rw [← cross_rotate]
  exact h i j k hij hjk hk

theorem Convex.outside (h : Convex n p) (hij : i < j) (hj : j < n) (hk : k < n)
    (hout : k < i ∨ j < k) : 0 < cross (p i) (p j) (p k) := by
  rcases hout with hlt | hgt
  · rw [cross_rotate]
    exact h k i j hlt hij hj
  · exact h i j k hij hgt hk

/-- The line of a rung, directed so that the triangle in front of it lies to its left. -/
theorem exists_line (h : Convex n p) (hi : i + 2 < n) :
    ∃ u v, (u = p (zigzag n (i + 1)) ∧ v = p (zigzag n (i + 2)) ∨
        v = p (zigzag n (i + 1)) ∧ u = p (zigzag n (i + 2))) ∧
      0 < cross u v (p (zigzag n i)) ∧
      ∀ k < n, i + 2 < k → 0 < cross v u (p (zigzag n k)) := by
  have hlt {j : ℕ} (hj : j < n) : zigzag n j < n := zigzag_lt hj
  rcases Nat.mod_two_eq_zero_or_one i with heven | hodd
  · obtain ⟨hrung, hfront, hbehind⟩ := rung_up hi heven
    refine ⟨_, _, .inl ⟨rfl, rfl⟩, ?_, fun k hk hik => ?_⟩
    · exact h.outside hrung (hlt (by omega)) (hlt (by omega)) hfront
    · exact h.between (hbehind k hk hik).1 (hbehind k hk hik).2 (hlt (by omega))
  · obtain ⟨hrung, hfront, hbehind⟩ := rung_down hi hodd
    refine ⟨_, _, .inr ⟨rfl, rfl⟩, ?_, fun k hk hik => ?_⟩
    · exact h.outside hrung (hlt (by omega)) (hlt (by omega)) (.inl hfront)
    · exact h.between (hbehind k hk hik).1 (hbehind k hk hik).2 (hlt (by omega))

variable [IsStrictOrderedRing K]

/-- A triangle of the strip lies on one side of a line if its corners do. -/
theorem cross_pos_of_corners {v : ℕ → ℕ} {u w q : K × K}
    (hq : q ∈ (stripTriangle v i).interior p) (h0 : 0 ≤ cross u w (p (v i)))
    (h1 : 0 ≤ cross u w (p (v (i + 1)))) (h2 : 0 ≤ cross u w (p (v (i + 2))))
    (hoff : 0 < cross u w (p (v i)) ∨ 0 < cross u w (p (v (i + 2)))) : 0 < cross u w q := by
  unfold stripTriangle Triangle.interior at hq
  split_ifs at hq
  · exact cross_pos_of_inside hq h0 h1 h2 (hoff.imp_right .inr)
  · exact cross_pos_of_inside hq h1 h0 h2 (.inr hoff)

/-- The line of the rung behind the first triangle separates it from the second. -/
theorem disjoint_interior (h : Convex n p) (hij : i < j) (hj : j + 2 < n) :
    Disjoint ((stripTriangle (zigzag n) i).interior p)
      ((stripTriangle (zigzag n) j).interior p) := by
  obtain ⟨u, w, hends, hfront, hbehind⟩ := exists_line h (by omega : i + 2 < n)
  have hend {x : ℕ} (hx : x = i + 1 ∨ x = i + 2) :
      cross u w (p (zigzag n x)) = 0 ∧ cross w u (p (zigzag n x)) = 0 := by
    rcases hends with ⟨rfl, rfl⟩ | ⟨rfl, rfl⟩ <;> rcases hx with rfl | rfl <;> simp
  have hright {x : ℕ} (hx : i < x) (hxn : x < n) : 0 ≤ cross w u (p (zigzag n x)) := by
    by_cases hx2 : i + 2 < x
    · exact (hbehind x hxn hx2).le
    · exact (hend (by omega)).2.ge
  rw [Set.disjoint_left]
  intro q hqi hqj
  have hleft : 0 < cross u w q :=
    cross_pos_of_corners hqi hfront.le (hend (.inl rfl)).1.ge (hend (.inr rfl)).1.ge (.inl hfront)
  have hback : 0 < cross w u q :=
    cross_pos_of_corners hqj (hright hij (by omega)) (hright (by omega) (by omega))
      (hright (by omega) hj) (.inr (hbehind _ hj (by omega)))
  rw [cross_swap] at hback
  linarith

end Pieces

/-! ### The edges -/

theorem hasCorner_zigzag (hi : i + 2 < n) (hj : j < n) :
    (stripTriangle (zigzag n) i).HasCorner (zigzag n j) ↔ i ≤ j ∧ j ≤ i + 2 := by
  rw [hasCorner_stripTriangle, zigzag_inj hj (by omega), zigzag_inj hj (by omega),
    zigzag_inj hj (by omega)]
  omega

/-- The sides of the polygon join every other vertex of the zigzag, apart from its ends. -/
theorem adjacent_zigzag (hij : i < j) (hj : j < n) (hn : 3 ≤ n) :
    Adjacent n (zigzag n i) (zigzag n j) ↔ j = i + 2 ∨ j = i + 1 ∧ (i = 0 ∨ j + 1 = n) := by
  unfold Adjacent
  rcases Nat.eq_zero_or_pos i with rfl | hpos
  · rcases Nat.mod_two_eq_zero_or_one j with hj2 | hj2
    · rw [zigzag_zero, zigzag_of_even hij hj2]
      omega
    · rw [zigzag_zero, zigzag_of_odd hj2]
      omega
  · rcases Nat.mod_two_eq_zero_or_one i with hi2 | hi2 <;>
      rcases Nat.mod_two_eq_zero_or_one j with hj2 | hj2
    · rw [zigzag_of_even hpos hi2, zigzag_of_even (by omega) hj2]
      omega
    · rw [zigzag_of_even hpos hi2, zigzag_of_odd hj2]
      omega
    · rw [zigzag_of_odd hi2, zigzag_of_even (by omega) hj2]
      omega
    · rw [zigzag_of_odd hi2, zigzag_of_odd hj2]
      omega

theorem countP_strip (hij : i < j) (hj : j < n) :
    (strip (zigzag n) n).countP (·.HasEdge (zigzag n i) (zigzag n j)) =
      ((Finset.range (n - 2)).filter fun k => k ≤ i ∧ j ≤ k + 2).card := by
  rw [strip, List.countP_map, ← Nat.count_eq_card_filter_range, Nat.count]
  refine List.countP_congr fun k hk => ?_
  have hk' := List.mem_range.mp hk
  have hne : zigzag n i ≠ zigzag n j := fun h => hij.ne ((zigzag_inj (hij.trans hj) hj).mp h)
  simp only [Function.comp_apply, decide_eq_true_eq, Triangle.HasEdge, ne_eq, hne,
    not_false_eq_true, true_and, hasCorner_zigzag (by omega : k + 2 < n) (hij.trans hj),
    hasCorner_zigzag (by omega : k + 2 < n) hj]
  omega

/-- A side of the polygon is an edge of one triangle, any other edge is one of two. -/
theorem countP_edge (hij : i < j) (hj : j < n) (hle : j ≤ i + 2) (hn : 3 ≤ n) :
    (strip (zigzag n) n).countP (·.HasEdge (zigzag n i) (zigzag n j)) =
      if Adjacent n (zigzag n i) (zigzag n j) then 1 else 2 := by
  rw [countP_strip hij hj]
  split_ifs with hadj <;> rw [adjacent_zigzag hij hj hn] at hadj
  · have hone : ((Finset.range (n - 2)).filter fun k => k ≤ i ∧ j ≤ k + 2) = {j - 2} := by
      ext k
      simp only [Finset.mem_filter, Finset.mem_range, Finset.mem_singleton]
      omega
    rw [hone, Finset.card_singleton]
  · have htwo : ((Finset.range (n - 2)).filter fun k => k ≤ i ∧ j ≤ k + 2) = {i - 1, i} := by
      ext k
      simp only [Finset.mem_filter, Finset.mem_range, Finset.mem_insert, Finset.mem_singleton]
      omega
    rw [htwo, Finset.card_pair (by omega)]

/-- The same for an edge whose ends are in any order. -/
theorem countP_edge_of_ne (hi : i < n) (hj : j < n) (hne : i ≠ j) (hle : j ≤ i + 2)
    (hle' : i ≤ j + 2) (hn : 3 ≤ n) :
    (strip (zigzag n) n).countP (·.HasEdge (zigzag n i) (zigzag n j)) =
      if Adjacent n (zigzag n i) (zigzag n j) then 1 else 2 := by
  rcases hne.lt_or_gt with hlt | hgt
  · exact countP_edge hlt hj hle hn
  · simp only [adjacent_comm (y := zigzag n j), Triangle.hasEdge_comm (y := zigzag n j)]
    exact countP_edge hgt hi hle' hn

/-- The strip over the zigzag is a triangulation. -/
theorem triangulation_zigzag (K : Type*) [CommRing K] [LinearOrder K] [IsStrictOrderedRing K]
    (hn : 3 ≤ n) : Triangulation K n (strip (zigzag n) n) := by
  constructor
  · intro p hp
    rw [strip, List.pairwise_map]
    refine List.pairwise_lt_range.imp_of_mem fun {i j} _ hj hij => ?_
    exact disjoint_interior hp hij (by have := List.mem_range.mp hj; omega)
  · intro x hx y hy hadj
    obtain ⟨i, hi, rfl⟩ := exists_zigzag hx
    obtain ⟨j, hj, rfl⟩ := exists_zigzag hy
    have hne : i ≠ j := by
      rintro rfl
      unfold Adjacent at hadj
      omega
    have hle : j ≤ i + 2 ∧ i ≤ j + 2 := by
      rcases hne.lt_or_gt with hlt | hgt
      · have := (adjacent_zigzag hlt hj hn).mp hadj
        omega
      · have := (adjacent_zigzag hgt hi hn).mp (adjacent_comm.mp hadj)
        omega
    rw [countP_edge_of_ne hi hj hne hle.1 hle.2 hn, if_pos hadj]
  · intro t ht x y hedge hadj
    obtain ⟨k, hk, rfl⟩ := List.mem_map.mp ht
    have hk' := List.mem_range.mp hk
    have hplace {z : ℕ} (hz : (stripTriangle (zigzag n) k).HasCorner z) :
        ∃ i, k ≤ i ∧ i ≤ k + 2 ∧ zigzag n i = z := by
      rcases hasCorner_stripTriangle.mp hz with rfl | rfl | rfl
      · exact ⟨k, le_rfl, by omega, rfl⟩
      · exact ⟨k + 1, by omega, by omega, rfl⟩
      · exact ⟨k + 2, by omega, le_rfl, rfl⟩
    obtain ⟨hne, hx, hy⟩ := hedge
    obtain ⟨i, hki, hik, rfl⟩ := hplace hx
    obtain ⟨j, hkj, hjk, rfl⟩ := hplace hy
    rw [countP_edge_of_ne (by omega) (by omega) (fun h => hne (congrArg _ h)) (by omega) (by omega)
      hn, if_neg hadj]

end Zigzag

end Cesvga2.Polygons
