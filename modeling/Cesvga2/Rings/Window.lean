import Mathlib.Tactic
import Mathlib.Data.List.Basic

/-! A ring of `N` slots under absolute positions. Position `p` lives in slot
`p % N`, so positions less than `N` apart never share a slot. A window of the
ring holds a list when the slots from its start on hold the list's elements;
writes at positions past the window, but less than `N` past its start, leave it
alone. -/

namespace Cesvga2.Rings

variable {α : Type*} {N p q : ℕ} {slot : ℕ → α} {l l₁ l₂ : List α} {x : α}

theorem mod_ne_mod (h : p < q) (hN : q < p + N) : p % N ≠ q % N := by
  intro he
  have hdvd : N ∣ q - p := (Nat.modEq_iff_dvd' h.le).mp he
  have := Nat.le_of_dvd (by omega) hdvd
  omega

/-- Going on by up to `N` slots. -/
theorem add_mod_of_le {n : ℕ} (hn : n ≤ N) (hN : 0 < N) :
    (p + n) % N = if p % N + n < N then p % N + n else p % N + n - N := by
  have hlt := Nat.mod_lt p hN
  rw [← Nat.mod_add_mod]
  split_ifs with h
  · exact Nat.mod_eq_of_lt h
  · rw [Nat.mod_eq_sub_mod (by omega), Nat.mod_eq_of_lt (by omega)]

/-- Going on by one slot. -/
theorem succ_mod (hN : 0 < N) : (p + 1) % N = if p % N + 1 = N then 0 else p % N + 1 := by
  have hlt := Nat.mod_lt p hN
  rw [add_mod_of_le hN hN]
  split_ifs <;> omega

/-- The slots from position `p` on hold the list. -/
def Holds (N : ℕ) (slot : ℕ → α) (p : ℕ) (l : List α) : Prop :=
  ∀ j (h : j < l.length), slot ((p + j) % N) = l[j]

theorem holds_nil : Holds N slot p [] := fun j h => absurd h (Nat.not_lt_zero j)

namespace Holds

theorem head (h : Holds N slot p (x :: l)) : slot (p % N) = x := h 0 (by simp)

theorem tail (h : Holds N slot p (x :: l)) : Holds N slot (p + 1) l := by
  intro j hj
  rw [show p + 1 + j = p + (j + 1) by omega]
  exact h (j + 1) (by simpa using hj)

/-- A write past the window leaves it alone. -/
theorem update (h : Holds N slot p l) (hq : p + l.length ≤ q) (hN : q < p + N) :
    Holds N (Function.update slot (q % N) x) p l := by
  intro j hj
  rw [Function.update_of_ne (mod_ne_mod (by omega) (by omega)), h j hj]

/-- A write right after the window extends it. -/
theorem snoc (h : Holds N slot p l) (hN : l.length < N) :
    Holds N (Function.update slot ((p + l.length) % N) x) p (l ++ [x]) := by
  intro j hj
  rw [List.length_append, List.length_singleton] at hj
  rcases Nat.lt_or_ge j l.length with hlt | hge
  · rw [List.getElem_append_left hlt]
    exact h.update le_rfl (by omega) j hlt
  · obtain rfl : j = l.length := by omega
    simp

/-- Whatever stands after the window may be taken into it. -/
theorem extend (h : Holds N slot p l) (hl : Holds N slot (p + l.length) l₁) :
    Holds N slot p (l ++ l₁) := by
  intro j hj
  rw [List.length_append] at hj
  rcases Nat.lt_or_ge j l.length with hlt | hge
  · rw [List.getElem_append_left hlt]
    exact h j hlt
  · rw [List.getElem_append_right hge, ← hl (j - l.length) (by omega)]
    congr 2
    omega

end Holds

end Cesvga2.Rings
