import Mathlib.Tactic
import Mathlib.Order.Interval.Finset.Nat
import Mathlib.Algebra.BigOperators.Group.Finset.Basic
import Mathlib.Data.Nat.Bitwise

/-! Dyadic blocks of natural numbers. A block is given by its first element and
its order `k`, and holds `2 ^ k` consecutive numbers; it is aligned when its
first element is a multiple of its size. Two aligned blocks that meet are
nested, and every block below the top has a buddy with which it forms a block of
the next order. -/

namespace Cesvga2.Blocks

structure Block where
  start : ℕ
  order : ℕ
  deriving DecidableEq, Repr

namespace Block

variable {β γ : Block} {n : ℕ}

/-- The first number after the block. -/
def past (β : Block) : ℕ := β.start + 2 ^ β.order

def extent (β : Block) : Finset ℕ := Finset.Ico β.start β.past

def Aligned (β : Block) : Prop := 2 ^ β.order ∣ β.start

instance (β : Block) : Decidable β.Aligned := inferInstanceAs (Decidable (_ ∣ _))

/-- The other half of the block of the next order. -/
def buddy (β : Block) : Block := ⟨β.start ^^^ 2 ^ β.order, β.order⟩

theorem start_lt_past (β : Block) : β.start < β.past :=
  Nat.lt_add_of_pos_right (by positivity)

@[simp] theorem mem_extent : n ∈ β.extent ↔ β.start ≤ n ∧ n < β.past := Finset.mem_Ico

theorem start_mem (β : Block) : β.start ∈ β.extent := by
  simp [start_lt_past]

theorem last_mem (β : Block) : β.past - 1 ∈ β.extent := by
  have := β.start_lt_past
  simp only [mem_extent]
  omega

@[simp] theorem card_extent (β : Block) : β.extent.card = 2 ^ β.order := by
  simp [extent, past]

/-- The front of a block, of a smaller order. -/
theorem front_subset {k : ℕ} (hk : k ≤ β.order) : (⟨β.start, k⟩ : Block).extent ⊆ β.extent := by
  have hpow : 2 ^ k ≤ 2 ^ β.order := Nat.pow_le_pow_right (by norm_num) hk
  intro n hn
  simp only [mem_extent, past] at hn ⊢
  omega

theorem extent_sdiff_front {k : ℕ} (hk : k ≤ β.order) :
    β.extent \ (⟨β.start, k⟩ : Block).extent = Finset.Ico (β.start + 2 ^ k) β.past := by
  have hpow : 2 ^ k ≤ 2 ^ β.order := Nat.pow_le_pow_right (by norm_num) hk
  have hpos := Nat.two_pow_pos k
  ext n
  simp only [Finset.mem_sdiff, mem_extent, Finset.mem_Ico, past]
  omega

/-- An aligned block is a residue class of division by its size. -/
theorem mem_extent_iff_div (hβ : β.Aligned) :
    n ∈ β.extent ↔ n / 2 ^ β.order = β.start / 2 ^ β.order := by
  obtain ⟨q, hq⟩ := hβ
  have hpos : 0 < 2 ^ β.order := by positivity
  rw [mem_extent, past, hq, Nat.mul_div_cancel_left _ hpos]
  constructor
  · rintro ⟨h1, h2⟩
    exact Nat.div_eq_of_lt_le (by rwa [Nat.mul_comm] at h1)
      (by rw [Nat.add_mul, Nat.mul_comm q, Nat.one_mul]; exact h2)
  · intro h
    have hdiv := Nat.div_add_mod n (2 ^ β.order)
    have hmod := Nat.mod_lt n hpos
    rw [h] at hdiv
    omega

/-- Aligned blocks that meet are nested: the smaller lies in the larger. -/
theorem extent_subset (hβ : β.Aligned) (hγ : γ.Aligned) (hle : β.order ≤ γ.order)
    (h1 : n ∈ β.extent) (h2 : n ∈ γ.extent) : β.extent ⊆ γ.extent := by
  intro m hm
  rw [mem_extent_iff_div hβ] at h1 hm
  rw [mem_extent_iff_div hγ] at h2 ⊢
  obtain ⟨d, hd⟩ := Nat.exists_eq_add_of_le hle
  rw [hd, pow_add, ← Nat.div_div_eq_div_mul] at h2 ⊢
  rw [← Nat.div_div_eq_div_mul] at h2 ⊢
  rw [hm, ← h1, h2]

theorem eq_of_extent_eq (h : β.extent = γ.extent) : β = γ := by
  have hs : β.start = γ.start := by
    have h1 := mem_extent.mp (h ▸ β.start_mem)
    have h2 := mem_extent.mp (h.symm ▸ γ.start_mem)
    omega
  have hc : 2 ^ β.order = 2 ^ γ.order := by rw [← card_extent, ← card_extent, h]
  have ho : β.order = γ.order := Nat.pow_right_injective (le_refl 2) hc
  cases β; cases γ; simp_all

/-- Meeting aligned blocks of one order are equal. -/
theorem eq_of_order_eq (hβ : β.Aligned) (hγ : γ.Aligned) (ho : β.order = γ.order)
    (h1 : n ∈ β.extent) (h2 : n ∈ γ.extent) : β = γ :=
  eq_of_extent_eq (Finset.Subset.antisymm (extent_subset hβ hγ ho.le h1 h2)
    (extent_subset hγ hβ ho.ge h2 h1))

theorem order_le_of_subset (h : β.extent ⊆ γ.extent) : β.order ≤ γ.order := by
  have := Finset.card_le_card h
  rw [card_extent, card_extent] at this
  exact (Nat.pow_le_pow_iff_right (by norm_num)).mp this

/-! ### Halves and buddies -/

theorem aligned_left {s k : ℕ} (h : Aligned ⟨s, k + 1⟩) : Aligned ⟨s, k⟩ :=
  Dvd.dvd.trans (pow_dvd_pow 2 (Nat.le_succ k)) h

theorem aligned_right {s k : ℕ} (h : Aligned ⟨s, k + 1⟩) : Aligned ⟨s + 2 ^ k, k⟩ :=
  (Nat.dvd_add_right (aligned_left h)).mpr (dvd_refl _)

theorem extent_halves (s k : ℕ) :
    extent ⟨s, k + 1⟩ = extent ⟨s, k⟩ ∪ extent ⟨s + 2 ^ k, k⟩ := by
  ext m
  simp only [mem_extent, Finset.mem_union, past, pow_succ]
  omega

theorem xor_pow_of_dvd {s k : ℕ} (h : 2 ^ (k + 1) ∣ s) : s ^^^ 2 ^ k = s + 2 ^ k := by
  obtain ⟨q, rfl⟩ := h
  have h1 : 2 ^ (k + 1) * q = (2 * q) <<< k := by rw [Nat.shiftLeft_eq, pow_succ]; ring
  have h2 : 2 ^ k = 1 <<< k := by rw [Nat.shiftLeft_eq, one_mul]
  rw [h1, h2, ← Nat.shiftLeft_xor_distrib, Nat.xor_one_of_even (even_two_mul q),
    Nat.shiftLeft_eq, Nat.shiftLeft_eq, Nat.shiftLeft_eq]
  ring

theorem add_pow_xor_pow {s k : ℕ} (h : 2 ^ (k + 1) ∣ s) : (s + 2 ^ k) ^^^ 2 ^ k = s := by
  rw [← xor_pow_of_dvd h, Nat.xor_assoc, Nat.xor_self, Nat.xor_zero]

@[simp] theorem buddy_order (β : Block) : β.buddy.order = β.order := rfl

@[simp] theorem buddy_buddy (β : Block) : β.buddy.buddy = β := by
  cases β; simp [buddy]

theorem buddy_left {s k : ℕ} (h : Aligned ⟨s, k + 1⟩) : buddy ⟨s, k⟩ = ⟨s + 2 ^ k, k⟩ := by
  simp [buddy, xor_pow_of_dvd h]

theorem buddy_right {s k : ℕ} (h : Aligned ⟨s, k + 1⟩) : buddy ⟨s + 2 ^ k, k⟩ = ⟨s, k⟩ := by
  simp [buddy, add_pow_xor_pow h]

/-- An aligned block is one of the halves of the aligned block above it. -/
theorem half_cases (hβ : β.Aligned) :
    (Aligned ⟨β.start, β.order + 1⟩ ∧ β.buddy = ⟨β.start + 2 ^ β.order, β.order⟩) ∨
    (∃ s, Aligned ⟨s, β.order + 1⟩ ∧ β.start = s + 2 ^ β.order ∧ β.buddy = ⟨s, β.order⟩) := by
  obtain ⟨s, k⟩ := β
  obtain ⟨q, hq⟩ := hβ
  simp only at hq
  rcases Nat.even_or_odd' q with ⟨c, rfl | rfl⟩
  · have ha : Aligned ⟨s, k + 1⟩ := ⟨c, by simp only [hq, pow_succ]; ring⟩
    exact Or.inl ⟨ha, buddy_left ha⟩
  · have ha : Aligned ⟨2 ^ (k + 1) * c, k + 1⟩ := ⟨c, rfl⟩
    have hs : s = 2 ^ (k + 1) * c + 2 ^ k := by rw [hq, pow_succ]; ring
    refine Or.inr ⟨2 ^ (k + 1) * c, ha, hs, ?_⟩
    subst hs
    exact buddy_right ha

theorem buddy_aligned (hβ : β.Aligned) : β.buddy.Aligned := by
  rcases half_cases hβ with ⟨ha, hb⟩ | ⟨s, ha, -, hb⟩
  · rw [hb]; exact aligned_right ha
  · rw [hb]; exact aligned_left ha

theorem disjoint_buddy (hβ : β.Aligned) : Disjoint β.extent β.buddy.extent := by
  rw [Finset.disjoint_left]
  intro m h1 h2
  rcases half_cases hβ with ⟨-, hb⟩ | ⟨s, -, hs, hb⟩ <;>
    rw [hb] at h2 <;> simp only [mem_extent, past] at h1 h2 <;> omega

/-- The block of the next order that a block and its buddy form. -/
def parent (β : Block) : Block := ⟨min β.start β.buddy.start, β.order + 1⟩

theorem parent_eq (hβ : β.Aligned) :
    (β.parent.start = β.start ∧ β.buddy.start = β.start + 2 ^ β.order) ∨
    (β.parent.start = β.buddy.start ∧ β.start = β.buddy.start + 2 ^ β.order) := by
  rcases half_cases hβ with ⟨-, hb⟩ | ⟨s, -, hs, hb⟩
  · left
    simp [parent, hb]
  · right
    rw [parent, hb]
    simp only [hs, and_true]
    exact Nat.min_eq_right (Nat.le_add_right _ _)

theorem parent_aligned (hβ : β.Aligned) : β.parent.Aligned := by
  rcases half_cases hβ with ⟨ha, hb⟩ | ⟨s, ha, hs, hb⟩
  · have : β.parent = ⟨β.start, β.order + 1⟩ := by simp [parent, hb]
    rwa [this]
  · have : β.parent = ⟨s, β.order + 1⟩ := by simp [parent, hb, hs]
    rwa [this]

theorem parent_extent (hβ : β.Aligned) : β.parent.extent = β.extent ∪ β.buddy.extent := by
  ext m
  rcases parent_eq hβ with ⟨h1, h2⟩ | ⟨h1, h2⟩ <;>
    simp only [mem_extent, Finset.mem_union, past, h1, buddy_order,
      show β.parent.order = β.order + 1 from rfl,
      pow_succ] <;> omega

end Block

end Cesvga2.Blocks
