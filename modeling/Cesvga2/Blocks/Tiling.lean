import Cesvga2.Blocks.Block

/-! Tilings of a finite set of numbers by aligned dyadic blocks. A tiling is
reduced below a top order when it holds no block together with its buddy. A set
has at most one reduced tiling: its tiles are the largest aligned blocks that
fit. The greedy left-to-right cut of an interval is a tiling, and each of its
pieces is the largest aligned block that starts where it starts. -/

namespace Cesvga2.Blocks

open Block

structure Tiling (B : Finset Block) (R : Finset ℕ) : Prop where
  aligned : ∀ β ∈ B, β.Aligned
  disjoint : (B : Set Block).PairwiseDisjoint extent
  cover : B.biUnion extent = R

namespace Tiling

variable {B : Finset Block} {R : Finset ℕ} {β γ : Block} {n : ℕ}

theorem mem_iff (h : Tiling B R) : n ∈ R ↔ ∃ β ∈ B, n ∈ β.extent := by
  rw [← h.cover, Finset.mem_biUnion]

theorem extent_subset (h : Tiling B R) (hβ : β ∈ B) : β.extent ⊆ R :=
  fun _ hn => h.mem_iff.mpr ⟨β, hβ, hn⟩

/-- Only one tile lies over each number. -/
theorem eq_of_mem (h : Tiling B R) (hβ : β ∈ B) (hγ : γ ∈ B) (h1 : n ∈ β.extent)
    (h2 : n ∈ γ.extent) : β = γ := by
  by_contra hne
  exact Finset.disjoint_left.mp (h.disjoint hβ hγ hne) h1 h2

theorem disjoint_of_ne (h : Tiling B R) (hβ : β ∈ B) (hγ : γ ∈ B) (hne : β ≠ γ) :
    Disjoint β.extent γ.extent := h.disjoint hβ hγ hne

theorem empty : Tiling ∅ ∅ := ⟨by simp, by simp, by simp⟩

theorem insert (h : Tiling B R) (ha : γ.Aligned) (hd : Disjoint γ.extent R) :
    Tiling (insert γ B) (γ.extent ∪ R) := by
  refine ⟨?_, ?_, ?_⟩
  · intro β hβ
    rcases Finset.mem_insert.mp hβ with rfl | hβ
    · exact ha
    · exact h.aligned β hβ
  · rw [Finset.coe_insert]
    refine h.disjoint.insert fun β hβ _ => ?_
    exact Finset.disjoint_of_subset_right (h.extent_subset hβ) hd
  · rw [Finset.biUnion_insert, h.cover]

/-- A block disjoint from the tiled set is not a tile. -/
theorem not_mem_of_disjoint (h : Tiling B R) (hd : Disjoint γ.extent R) : γ ∉ B := fun hm =>
  Finset.disjoint_left.mp hd γ.start_mem (h.extent_subset hm γ.start_mem)

theorem erase (h : Tiling B R) (hβ : β ∈ B) : Tiling (B.erase β) (R \ β.extent) := by
  refine ⟨fun γ hγ => h.aligned γ (Finset.mem_of_mem_erase hγ),
    h.disjoint.subset (by simp), ?_⟩
  ext n
  simp only [Finset.mem_biUnion, Finset.mem_sdiff, h.mem_iff]
  constructor
  · rintro ⟨γ, hγ, hn⟩
    have hγ' := Finset.mem_of_mem_erase hγ
    refine ⟨⟨γ, hγ', hn⟩, fun hnβ => Finset.ne_of_mem_erase hγ (h.eq_of_mem hγ' hβ hn hnβ)⟩
  · rintro ⟨⟨γ, hγ, hn⟩, hnβ⟩
    refine ⟨γ, Finset.mem_erase.mpr ⟨?_, hγ⟩, hn⟩
    rintro rfl
    exact hnβ hn

theorem sum_size (h : Tiling B R) : ∑ β ∈ B, 2 ^ β.order = R.card := by
  rw [← h.cover, Finset.card_biUnion h.disjoint]
  exact Finset.sum_congr rfl fun β _ => (card_extent β).symm

theorem subset (h : Tiling B R) {C : Finset Block} (hC : C ⊆ B) :
    Tiling C (C.biUnion extent) :=
  ⟨fun β hβ => h.aligned β (hC hβ), h.disjoint.subset (by simpa using hC), rfl⟩

end Tiling

/-! ### Reduced tilings -/

/-- No block below the top order lies in `B` together with its buddy. -/
def Reduced (top : ℕ) (B : Finset Block) : Prop :=
  ∀ β ∈ B, β.order < top → β.buddy ∉ B

theorem Reduced.subset {top : ℕ} {B C : Finset Block} (h : Reduced top B) (hC : C ⊆ B) :
    Reduced top C := fun β hβ ho hb => h β (hC hβ) ho (hC hb)

theorem Reduced.insert {top : ℕ} {B : Finset Block} {γ : Block} (h : Reduced top B)
    (hγ : γ.order < top → γ.buddy ∉ B) (hself : γ.buddy ≠ γ) : Reduced top (insert γ B) := by
  intro β hβ ho hb
  rcases Finset.mem_insert.mp hβ with rfl | hβ <;> rcases Finset.mem_insert.mp hb with hb | hb
  · exact hself hb
  · exact hγ ho hb
  · have hbb : γ.buddy = β := by rw [← hb, buddy_buddy]
    refine hγ ?_ (hbb ▸ hβ)
    rw [← hb, buddy_order]
    exact ho
  · exact h β hβ ho hb

theorem buddy_ne {β : Block} (hβ : β.Aligned) : β.buddy ≠ β := fun he =>
  Finset.disjoint_left.mp (disjoint_buddy hβ) β.start_mem (he.symm ▸ β.start_mem)

/-- In a reduced tiling every aligned block inside the tiled set lies in one
tile. By induction on the order: the two halves lie in tiles, and if neither
tile is larger than its half, the halves are tiles themselves and buddies. -/
theorem exists_tile {top : ℕ} {B : Finset Block} {R : Finset ℕ} (h : Tiling B R)
    (hr : Reduced top B) : ∀ (k s : ℕ), k ≤ top → Aligned ⟨s, k⟩ → extent ⟨s, k⟩ ⊆ R →
      ∃ β ∈ B, extent ⟨s, k⟩ ⊆ β.extent
  | 0, s, _, ha, hs => by
    obtain ⟨β, hβ, hm⟩ := h.mem_iff.mp (hs (start_mem ⟨s, 0⟩))
    exact ⟨β, hβ, Block.extent_subset ha (h.aligned β hβ) (Nat.zero_le _) (start_mem ⟨s, 0⟩) hm⟩
  | k + 1, s, hk, ha, hs => by
    rw [extent_halves] at hs
    have hl := Finset.union_subset_left hs
    have hr' := Finset.union_subset_right hs
    obtain ⟨β, hβ, hsubβ⟩ := exists_tile h hr k s (by omega) (aligned_left ha) hl
    obtain ⟨γ, hγ, hsubγ⟩ := exists_tile h hr k (s + 2 ^ k) (by omega) (aligned_right ha) hr'
    have hmβ := hsubβ (start_mem ⟨s, k⟩)
    have hmγ := hsubγ (start_mem ⟨s + 2 ^ k, k⟩)
    have hml : (⟨s, k⟩ : Block).start ∈ extent ⟨s, k + 1⟩ := start_mem ⟨s, k + 1⟩
    have hmr : s + 2 ^ k ∈ extent ⟨s, k + 1⟩ := by
      rw [extent_halves]
      exact Finset.mem_union_right _ (start_mem ⟨s + 2 ^ k, k⟩)
    rcases Nat.lt_or_ge k β.order with hβk | hβk
    · exact ⟨β, hβ, Block.extent_subset ha (h.aligned β hβ) hβk hml hmβ⟩
    rcases Nat.lt_or_ge k γ.order with hγk | hγk
    · exact ⟨γ, hγ, Block.extent_subset ha (h.aligned γ hγ) hγk hmr hmγ⟩
    have hβe : ⟨s, k⟩ = β := eq_of_order_eq (aligned_left ha) (h.aligned β hβ)
      (le_antisymm (order_le_of_subset hsubβ) hβk) (start_mem _) hmβ
    have hγe : ⟨s + 2 ^ k, k⟩ = γ := eq_of_order_eq (aligned_right ha) (h.aligned γ hγ)
      (le_antisymm (order_le_of_subset hsubγ) hγk) (start_mem _) hmγ
    exfalso
    subst hβe hγe
    refine hr _ hβ hk ?_
    rwa [buddy_left ha]

/-- A set has at most one reduced tiling. -/
theorem Tiling.subset_of_reduced {top : ℕ} {B C : Finset Block} {R : Finset ℕ} (hB : Tiling B R)
    (hC : Tiling C R) (rB : Reduced top B) (rC : Reduced top C) (oB : ∀ β ∈ B, β.order ≤ top)
    (oC : ∀ γ ∈ C, γ.order ≤ top) : B ⊆ C := by
  intro β hβ
  obtain ⟨γ, hγ, h1⟩ := exists_tile hC rC β.order β.start (oB β hβ) (hB.aligned β hβ)
    (hB.extent_subset hβ)
  obtain ⟨δ, hδ, h2⟩ := exists_tile hB rB γ.order γ.start (oC γ hγ) (hC.aligned γ hγ)
    (hC.extent_subset hγ)
  have hδβ : δ = β := hB.eq_of_mem hδ hβ (h2 (h1 β.start_mem)) β.start_mem
  subst hδβ
  have he : δ = γ := eq_of_extent_eq (Finset.Subset.antisymm h1 h2)
  rwa [he]

theorem Tiling.unique {top : ℕ} {B C : Finset Block} {R : Finset ℕ} (hB : Tiling B R)
    (hC : Tiling C R) (rB : Reduced top B) (rC : Reduced top C) (oB : ∀ β ∈ B, β.order ≤ top)
    (oC : ∀ γ ∈ C, γ.order ≤ top) : B = C :=
  Finset.Subset.antisymm (hB.subset_of_reduced hC rB rC oB oC)
    (hC.subset_of_reduced hB rC rB oC oB)

/-! ### The greedy cut of an interval -/

/-- The block of order `t` at `i` is aligned and ends by `past`. -/
def Fits (past i t : ℕ) : Prop := 2 ^ t ∣ i ∧ i + 2 ^ t ≤ past

instance (past i t : ℕ) : Decidable (Fits past i t) := inferInstanceAs (Decidable (_ ∧ _))

theorem Fits.mono {past i s t : ℕ} (h : Fits past i t) (hst : s ≤ t) : Fits past i s :=
  ⟨(pow_dvd_pow 2 hst).trans h.1,
    (Nat.add_le_add_left (Nat.pow_le_pow_right (by norm_num) hst) i).trans h.2⟩

theorem fits_zero {past i : ℕ} (h : i < past) : Fits past i 0 := ⟨by simp, by simpa using h⟩

/-- The largest order up to `top` that fits at `i`. -/
def largest (top past i : ℕ) : ℕ := Nat.findGreatest (Fits past i) top

theorem largest_le (top past i : ℕ) : largest top past i ≤ top := Nat.findGreatest_le top

theorem fits_largest (top : ℕ) {past i : ℕ} (h : i < past) : Fits past i (largest top past i) :=
  Nat.findGreatest_spec (P := Fits past i) (Nat.zero_le top) (fits_zero h)

theorem largest_eq {top past i t : ℕ} (ht : t ≤ top) (hf : Fits past i t)
    (hmax : t < top → ¬ Fits past i (t + 1)) : largest top past i = t := by
  refine le_antisymm ?_ (Nat.le_findGreatest ht hf)
  by_contra hlt
  have hlt' : t + 1 ≤ largest top past i := by omega
  have hi : i < past := lt_of_lt_of_le (Nat.lt_add_of_pos_right (by positivity)) hf.2
  exact hmax (by have := largest_le top past i; omega) ((fits_largest top hi).mono hlt')

/-- The greedy cut of `[i, past)`. -/
def pieces (top past i : ℕ) : List Block :=
  if h : i < past then
    ⟨i, largest top past i⟩ :: pieces top past (i + 2 ^ largest top past i)
  else []
termination_by past - i
decreasing_by
  have : 0 < 2 ^ largest top past i := by positivity
  omega

theorem pieces_of_lt {top past i : ℕ} (h : i < past) : pieces top past i =
    ⟨i, largest top past i⟩ :: pieces top past (i + 2 ^ largest top past i) := by
  rw [pieces, dif_pos h]

theorem pieces_of_le {top past i : ℕ} (h : past ≤ i) : pieces top past i = [] := by
  rw [pieces, dif_neg (by omega)]

theorem mem_pieces {top past : ℕ} (i : ℕ) : ∀ β ∈ pieces top past i,
    β.Aligned ∧ i ≤ β.start ∧ β.past ≤ past ∧ β.order = largest top past β.start := by
  induction i using pieces.induct top past with
  | case1 i h ih =>
    intro β hβ
    rw [pieces_of_lt h, List.mem_cons] at hβ
    have hf := fits_largest top h
    rcases hβ with rfl | hβ
    · exact ⟨hf.1, le_rfl, hf.2, rfl⟩
    · obtain ⟨h1, h2, h3, h4⟩ := ih β hβ
      exact ⟨h1, (Nat.le_add_right _ _).trans h2, h3, h4⟩
  | case2 i h => simp [pieces_of_le (not_lt.mp h)]

/-- The pieces tile the interval. -/
theorem tiling_pieces (top past i : ℕ) :
    Tiling (pieces top past i).toFinset (Finset.Ico i past) := by
  induction i using pieces.induct top past with
  | case1 i h ih =>
    have hf := fits_largest top h
    rw [pieces_of_lt h, List.toFinset_cons]
    have hsplit : Finset.Ico i past = extent ⟨i, largest top past i⟩ ∪
        Finset.Ico (i + 2 ^ largest top past i) past := by
      ext m
      have h1 := hf.2
      have h2 := Nat.two_pow_pos (largest top past i)
      simp only [Finset.mem_Ico, Finset.mem_union, mem_extent, Block.past]
      omega
    rw [hsplit]
    refine ih.insert hf.1 ?_
    rw [Finset.disjoint_left]
    intro m h1 h2
    simp only [Finset.mem_Ico, mem_extent, Block.past] at h1 h2
    omega
  | case2 i h =>
    rw [pieces_of_le (not_lt.mp h), Finset.Ico_eq_empty h]
    exact Tiling.empty

/-- In the cut of an interval that starts on a top boundary, a piece below the
top starts on a boundary of the next order and its parent runs past the end. -/
theorem pieces_tail {top past : ℕ} (i : ℕ) (ha : ∀ t ≤ top, i + 2 ^ t ≤ past → 2 ^ t ∣ i)
    (hup : ∀ t ≤ top, i + 2 ^ t ≤ past → t < top → 2 ^ (t + 1) ∣ i) :
    ∀ β ∈ pieces top past i, β.order < top →
      2 ^ (β.order + 1) ∣ β.start ∧ past < β.start + 2 ^ (β.order + 1) := by
  induction i using pieces.induct top past with
  | case2 i h => simp [pieces_of_le (not_lt.mp h)]
  | case1 i h ih =>
    intro β hβ ho
    set k := largest top past i with hk
    have hf : Fits past i k := fits_largest top h
    have hkt : k ≤ top := largest_le top past i
    -- below the top, the piece is as long as the rest allows
    have hlast : k < top → past < i + 2 ^ (k + 1) := fun hlt => by
      by_contra hge
      have hfit : Fits past i (k + 1) := ⟨ha _ hlt (by omega), by omega⟩
      have := Nat.le_findGreatest (P := Fits past i) hlt hfit
      simp only [largest] at hk
      omega
    -- so what fits after it is smaller, or the piece has the top order
    have hsmall : ∀ t ≤ top, i + 2 ^ k + 2 ^ t ≤ past → t < top → t + 1 ≤ k := by
      intro t ht hfit htt
      by_contra hgt
      have h1 := hlast (by omega)
      have := Nat.pow_le_pow_right (n := 2) (by norm_num) (show k ≤ t by omega)
      rw [pow_succ] at h1
      omega
    have hdvd : ∀ t ≤ k, 2 ^ t ∣ i + 2 ^ k := fun t htk =>
      (Nat.dvd_add_right ((pow_dvd_pow 2 htk).trans hf.1)).mpr (pow_dvd_pow 2 htk)
    rw [pieces_of_lt h, List.mem_cons, ← hk] at hβ
    rcases hβ with rfl | hβ
    · exact ⟨hup k hkt hf.2 ho, hlast ho⟩
    · refine ih (fun t ht hfit => hdvd t ?_) (fun t ht hfit htt => hdvd _ (hsmall t ht hfit htt))
        β hβ ho
      rcases Nat.lt_or_ge t top with htt | htt
      · exact (Nat.le_succ t).trans (hsmall t ht hfit htt)
      · by_contra hgt
        have h1 := hlast (by omega)
        have := Nat.pow_le_pow_right (n := 2) (by norm_num) (show k ≤ t by omega)
        rw [pow_succ] at h1
        omega

/-- Cutting the front `2 ^ b` off an aligned block of order `r` leaves one block of
each order from `b` up to `r`. -/
theorem mem_pieces_split {top s r : ℕ} (ha : 2 ^ r ∣ s) (hr : r ≤ top) : ∀ (d b : ℕ), b + d = r →
    ∀ δ ∈ pieces top (s + 2 ^ r) (s + 2 ^ b), δ.start = s + 2 ^ δ.order ∧ δ.order < r
  | 0, b, hd => by
    obtain rfl : b = r := by omega
    simp [pieces_of_le]
  | d + 1, b, hd => by
    have hlt : 2 ^ b < 2 ^ r := Nat.pow_lt_pow_right (by norm_num) (by omega)
    have hle : 2 ^ (b + 1) ≤ 2 ^ r := Nat.pow_le_pow_right (by norm_num) (by omega)
    have hs : ∀ t ≤ r, 2 ^ t ∣ s := fun t ht => (pow_dvd_pow 2 ht).trans ha
    have hb : largest top (s + 2 ^ r) (s + 2 ^ b) = b := by
      refine largest_eq (by omega) ⟨?_, by rw [pow_succ] at hle; omega⟩ fun _ hf => ?_
      · exact (Nat.dvd_add_right (hs b (by omega))).mpr (dvd_refl _)
      · have hdvd := (Nat.dvd_add_right (hs (b + 1) (by omega))).mp hf.1
        have := Nat.le_of_dvd (Nat.two_pow_pos b) hdvd
        rw [pow_succ] at this
        have := Nat.two_pow_pos b
        omega
    intro δ hδ
    rw [pieces_of_lt (by omega), hb, List.mem_cons] at hδ
    rcases hδ with rfl | hδ
    · exact ⟨rfl, show b < r by omega⟩
    · rw [show s + 2 ^ b + 2 ^ b = s + 2 ^ (b + 1) by rw [pow_succ]; omega] at hδ
      exact mem_pieces_split ha hr d (b + 1) (by omega) δ hδ

end Cesvga2.Blocks
