import Mathlib.Tactic
import Mathlib.Algebra.BigOperators.Group.Finset.Basic

/-! References counted by who holds them. A finite set of places each hold one object
or none; the count of an object is the number of places that hold it. Filling an empty
place and emptying a full one move the count of one object by one. -/

namespace Cesvga2.Refs

variable {ι α : Type*} [DecidableEq α]

/-- The number of places of `s` that hold `a`. -/
def count (s : Finset ι) (f : ι → Option α) (a : α) : ℕ := (s.filter fun i => f i = some a).card

variable {s : Finset ι} {f g : ι → Option α} {a b : α}

theorem count_congr (h : ∀ i ∈ s, f i = g i) : count s f a = count s g a := by
  rw [count, count, Finset.filter_congr fun i hi => by rw [h i hi]]

theorem count_eq_zero : count s f a = 0 ↔ ∀ i ∈ s, f i ≠ some a := by
  rw [count, Finset.card_eq_zero, Finset.filter_eq_empty_iff]

theorem count_pos {i : ι} (hi : i ∈ s) (h : f i = some a) : 0 < count s f a :=
  Finset.card_pos.mpr ⟨i, Finset.mem_filter.mpr ⟨hi, h⟩⟩

theorem count_le_card : count s f a ≤ s.card := Finset.card_filter_le _ _

theorem count_mono (h : ∀ i ∈ s, f i = some a → g i = some a) : count s f a ≤ count s g a := by
  refine Finset.card_le_card fun i hi => ?_
  obtain ⟨his, hia⟩ := Finset.mem_filter.mp hi
  exact Finset.mem_filter.mpr ⟨his, h i his hia⟩

/-- Places told apart by a number below `n` hold an object at most `n` times. -/
theorem count_le_of_injOn (key : ι → ℕ) (n : ℕ) (hn : ∀ i ∈ s, f i = some a → key i < n)
    (hinj : ∀ i ∈ s, ∀ j ∈ s, f i = some a → f j = some a → key i = key j → i = j) :
    count s f a ≤ n := by
  calc count s f a ≤ (Finset.range n).card := by
        refine Finset.card_le_card_of_injOn key ?_ ?_
        · intro i hi
          obtain ⟨his, hia⟩ := Finset.mem_filter.mp hi
          exact Finset.mem_coe.mpr (Finset.mem_range.mpr (hn i his hia))
        · intro i hi j hj hij
          obtain ⟨his, hia⟩ := Finset.mem_filter.mp (Finset.mem_coe.mp hi)
          obtain ⟨hjs, hja⟩ := Finset.mem_filter.mp (Finset.mem_coe.mp hj)
          exact hinj i his j hjs hia hja hij
    _ = n := Finset.card_range n

theorem count_range_succ (f : ℕ → Option α) (n : ℕ) :
    count (Finset.range (n + 1)) f a
      = count (Finset.range n) f a + if f n = some a then 1 else 0 := by
  simp only [count, Finset.card_filter, Finset.sum_range_succ]

/-- Places that hold nothing do not count. -/
theorem count_range_of_le {f : ℕ → Option α} {m n : ℕ} (hmn : m ≤ n)
    (h : ∀ i, m ≤ i → f i ≠ some a) : count (Finset.range n) f a = count (Finset.range m) f a := by
  induction n, hmn using Nat.le_induction with
  | base => rfl
  | succ n hn ih => rw [count_range_succ, if_neg (h n hn), ih, Nat.add_zero]

section Update

variable [DecidableEq ι]

/-- What a place held and what it holds now account for the change of a count. -/
theorem count_update {i : ι} (hi : i ∈ s) (v : Option α) :
    count s (Function.update f i v) a + (if f i = some a then 1 else 0)
      = count s f a + (if v = some a then 1 else 0) := by
  have hrest : ∀ j ∈ s.erase i, (if Function.update f i v j = some a then 1 else 0)
      = if f j = some a then 1 else 0 := by
    intro j hj
    rw [Function.update_of_ne (Finset.ne_of_mem_erase hj)]
  simp only [count, Finset.card_filter]
  rw [← Finset.add_sum_erase s _ hi,
    ← Finset.add_sum_erase s (fun j => if f j = some a then 1 else 0) hi,
    Finset.sum_congr rfl hrest, Function.update_self]
  omega

theorem count_fill {i : ι} (hi : i ∈ s) (h : f i = none) :
    count s (Function.update f i (some b)) a = count s f a + if b = a then 1 else 0 := by
  have := count_update (a := a) hi (f := f) (some b)
  simpa [h] using this

theorem count_empty {i : ι} (hi : i ∈ s) (h : f i = some b) :
    count s (Function.update f i none) a + (if b = a then 1 else 0) = count s f a := by
  have := count_update (a := a) hi (f := f) none
  simpa [h] using this

end Update

end Cesvga2.Refs
