import Mathlib.Data.List.Pairwise
import Mathlib.Tactic

/-! A range of numbers cut at increasing points. The cuts are listed from the last one back
to the first, so that a new cut goes to the head of the list. -/

namespace Cesvga2.Cuts

/-- The segments between consecutive cuts of a range that starts at `base`. -/
def segments (base : ℕ) : List ℕ → List (ℕ × ℕ)
  | [] => []
  | c :: cs => (cs.headD base, c) :: segments base cs

/-- Each cut lies past the one before. -/
def Increasing (base : ℕ) : List ℕ → Prop
  | [] => True
  | c :: cs => cs.headD base < c ∧ Increasing base cs

variable {base i : ℕ} {cs : List ℕ} {g : ℕ × ℕ}

theorem le_headD_of_mem_segments (h : Increasing base cs) (hg : g ∈ segments base cs) :
    g.2 ≤ cs.headD base := by
  induction cs with
  | nil => cases hg
  | cons c cs ih =>
    rcases List.mem_cons.mp hg with rfl | hg
    · exact le_rfl
    · exact (ih h.2 hg).trans h.1.le

/-- A property of the base and of the cuts holds at the ends of the segments. -/
theorem ends_of_mem_segments {P : ℕ → Prop} (hbase : P base) (hcs : ∀ c ∈ cs, P c)
    (hg : g ∈ segments base cs) : P g.1 ∧ P g.2 := by
  induction cs with
  | nil => cases hg
  | cons c cs ih =>
    have htail : ∀ c ∈ cs, P c := fun c hc => hcs c (List.mem_cons_of_mem _ hc)
    rcases List.mem_cons.mp hg with rfl | hg
    · refine ⟨?_, hcs c List.mem_cons_self⟩
      cases cs with
      | nil => exact hbase
      | cons c' cs => exact htail c' List.mem_cons_self
    · exact ih htail hg

/-- A later segment starts where an earlier one has ended. -/
theorem segments_pairwise (h : Increasing base cs) :
    (segments base cs).Pairwise fun g g' => g'.2 ≤ g.1 := by
  induction cs with
  | nil => exact List.Pairwise.nil
  | cons c cs ih =>
    exact List.Pairwise.cons (fun g hg => le_headD_of_mem_segments h.2 hg) (ih h.2)

/-! ### Segments without their ends -/

/-- A segment without its last `n` numbers, as a start and a length, if anything is left. -/
def clip (n : ℕ) (g : ℕ × ℕ) : Option (ℕ × ℕ) :=
  if g.1 + n < g.2 then some (g.1, g.2 - g.1 - n) else none

variable {n : ℕ} {r : ℕ × ℕ}

theorem clip_eq_some (h : clip n g = some r) : r.1 = g.1 ∧ r.1 + r.2 + n = g.2 ∧ 0 < r.2 := by
  unfold clip at h
  split_ifs at h with hlt
  cases h
  dsimp only
  omega

theorem clip_pairwise (h : Increasing base cs) :
    ((segments base cs).filterMap (clip n)).Pairwise fun r r' => r'.1 + r'.2 ≤ r.1 := by
  refine (segments_pairwise h).filterMap _ fun g g' hle r hr r' hr' => ?_
  have := clip_eq_some hr
  have := clip_eq_some hr'
  omega

/-- What the clipped segments cover of the range: all but the last `n` of each segment. -/
theorem mem_clip_iff (h : Increasing base cs) (hb : base ≤ i) (hi : i < cs.headD base) :
    (∃ r ∈ (segments base cs).filterMap (clip n), r.1 ≤ i ∧ i < r.1 + r.2) ↔
      ∀ g ∈ segments base cs, g.1 ≤ i → i < g.2 → i + n < g.2 := by
  induction cs with
  | nil => exact absurd hi (not_lt.mpr hb)
  | cons c cs ih =>
    -- either an older segment holds `i`, or the newest does
    rcases lt_or_ge i (cs.headD base) with hlt | hge
    · have hnew : ∀ r, clip n (cs.headD base, c) = some r → ¬ (r.1 ≤ i ∧ i < r.1 + r.2) := by
        intro r hr hmem
        have := clip_eq_some hr
        dsimp only at this
        omega
      rw [segments, List.forall_mem_cons, ← ih h.2 hlt]
      constructor
      · rintro ⟨r, hr, hmem⟩
        refine ⟨fun hle => absurd hle (by dsimp only; omega), ?_⟩
        simp only [List.mem_filterMap, List.mem_cons] at hr
        obtain ⟨g, rfl | hg, hgr⟩ := hr
        · exact absurd hmem (hnew r hgr)
        · exact ⟨r, List.mem_filterMap.mpr ⟨g, hg, hgr⟩, hmem⟩
      · rintro ⟨-, r, hr, hmem⟩
        obtain ⟨g, hg, hgr⟩ := List.mem_filterMap.mp hr
        exact ⟨r, List.mem_filterMap.mpr ⟨g, List.mem_cons_of_mem _ hg, hgr⟩, hmem⟩
    · have hold : ∀ g ∈ segments base cs, g.2 ≤ i := fun g hg =>
        (le_headD_of_mem_segments h.2 hg).trans hge
      constructor
      · rintro ⟨r, hr, hmem⟩
        obtain ⟨g, hg, hgr⟩ := List.mem_filterMap.mp hr
        have hclip := clip_eq_some hgr
        rcases List.mem_cons.mp hg with rfl | hg
        · rintro g' hg' hle hlt
          rcases List.mem_cons.mp hg' with rfl | hg'
          · omega
          · exact absurd (hold g' hg') (by omega)
        · exact absurd (hold g hg) (by omega)
      · intro hall
        have hlast := hall (cs.headD base, c) List.mem_cons_self hge hi
        refine ⟨(cs.headD base, c - cs.headD base - n), List.mem_filterMap.mpr
          ⟨(cs.headD base, c), List.mem_cons_self, ?_⟩, hge, ?_⟩
        · rw [clip, if_pos (by dsimp only at hlast ⊢; omega)]
        · dsimp only at hlast ⊢
          omega

/-! ### Up to the end of the range -/

/-- The clipped segments, and what follows the last cut as a whole. -/
def ranges (base n stop : ℕ) (cs : List ℕ) : List (ℕ × ℕ) :=
  (if cs.headD base = stop then [] else [(cs.headD base, stop - cs.headD base)]) ++
    (segments base cs).filterMap (clip n)

variable {stop : ℕ}

theorem ranges_pairwise (h : Increasing base cs) :
    (ranges base n stop cs).Pairwise fun r r' => r'.1 + r'.2 ≤ r.1 := by
  refine List.pairwise_append.mpr ⟨?_, clip_pairwise h, ?_⟩
  · split_ifs
    · exact List.Pairwise.nil
    · exact List.pairwise_singleton _ _
  · intro r hr r' hr'
    have hr₁ : r.1 = cs.headD base := by
      split_ifs at hr
      · cases hr
      · rw [List.mem_singleton.mp hr]
    obtain ⟨g, hg, hgr⟩ := List.mem_filterMap.mp hr'
    have := clip_eq_some hgr
    have := le_headD_of_mem_segments h hg
    omega

theorem mem_ranges_iff (h : Increasing base cs) (hb : base ≤ i) (hi : i < stop) :
    (∃ r ∈ ranges base n stop cs, r.1 ≤ i ∧ i < r.1 + r.2) ↔
      ∀ g ∈ segments base cs, g.1 ≤ i → i < g.2 → i + n < g.2 := by
  rcases lt_or_ge i (cs.headD base) with hlt | hge
  · rw [← mem_clip_iff h hb hlt]
    constructor
    · rintro ⟨r, hr, hle, hlt'⟩
      rcases List.mem_append.mp hr with hr | hr
      · split_ifs at hr
        · cases hr
        · rw [List.mem_singleton.mp hr] at hle
          exact absurd hle (not_le.mpr hlt)
      · exact ⟨r, hr, hle, hlt'⟩
    · rintro ⟨r, hr, hmem⟩
      exact ⟨r, List.mem_append_right _ hr, hmem⟩
  · refine iff_of_true ⟨(cs.headD base, stop - cs.headD base), ?_, hge, ?_⟩ ?_
    · refine List.mem_append_left _ ?_
      rw [if_neg (by omega)]
      exact List.mem_singleton_self _
    · dsimp only
      omega
    · intro g hg _ hlt
      exact absurd (le_headD_of_mem_segments h hg) (by omega)

end Cesvga2.Cuts
