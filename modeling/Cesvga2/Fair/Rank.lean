import Mathlib.Order.Nat
import Mathlib.Tactic.Push

/-! Progress of infinite runs under weak fairness. At every moment one actor moves, or none. A rank
that never grows reaches 0 if, as long as it has not, some actor is bound to lower it: one that
stays able to move until it does or the rank is lower. -/

namespace Cesvga2.Fair

variable {S L : Type*}

/-- An actor that can move from some moment on does move. -/
def WeaklyFair (σ : ℕ → S) (mover : ℕ → Option L) (Enabled : L → S → Prop) : Prop :=
  ∀ l n, (∀ m, n ≤ m → Enabled l (σ m)) → ∃ m, n ≤ m ∧ mover m = some l

/-- From moment `N` on the rank is lowered by the actors that are `Helpful`. -/
structure Helped (σ : ℕ → S) (mover : ℕ → Option L) (Enabled Helpful : L → S → Prop)
    (rank : S → ℕ) (N : ℕ) : Prop where
  le : ∀ n, N ≤ n → rank (σ (n + 1)) ≤ rank (σ n)
  exists_helpful : ∀ n, N ≤ n → rank (σ n) ≠ 0 → ∃ l, Helpful l (σ n)
  enabled : ∀ n, N ≤ n → ∀ l, Helpful l (σ n) → Enabled l (σ n)
  lowers : ∀ n, N ≤ n → ∀ l, Helpful l (σ n) → mover n = some l → rank (σ (n + 1)) < rank (σ n)
  stays : ∀ n, N ≤ n → ∀ l, Helpful l (σ n) → mover n ≠ some l →
    rank (σ (n + 1)) = rank (σ n) → Helpful l (σ (n + 1))

namespace Helped

variable {σ : ℕ → S} {mover : ℕ → Option L} {Enabled Helpful : L → S → Prop} {rank : S → ℕ} {N : ℕ}

theorem le_of_le (h : Helped σ mover Enabled Helpful rank N) {n m : ℕ} (hn : N ≤ n) (hm : n ≤ m) :
    rank (σ m) ≤ rank (σ n) := by
  induction m, hm using Nat.le_induction with
  | base => exact le_rfl
  | succ m hm ih => exact (h.le m (hn.trans hm)).trans ih

theorem exists_lt (h : Helped σ mover Enabled Helpful rank N)
    (hfair : WeaklyFair σ mover Enabled) {n : ℕ} (hn : N ≤ n) (hrank : rank (σ n) ≠ 0) :
    ∃ m, n ≤ m ∧ rank (σ m) < rank (σ n) := by
  by_contra hnone
  push Not at hnone
  have hsame : ∀ m, n ≤ m → rank (σ m) = rank (σ n) := fun m hm =>
    le_antisymm (h.le_of_le hn hm) (hnone m hm)
  obtain ⟨l, hl⟩ := h.exists_helpful n hn hrank
  have hidle : ∀ m, n ≤ m → Helpful l (σ m) → mover m ≠ some l := by
    intro m hm hlm hmove
    have hlt := h.lowers m (hn.trans hm) l hlm hmove
    rw [hsame m hm, hsame (m + 1) (hm.trans m.le_succ)] at hlt
    exact absurd hlt (lt_irrefl _)
  have hhelp : ∀ m, n ≤ m → Helpful l (σ m) := by
    intro m hm
    induction m, hm using Nat.le_induction with
    | base => exact hl
    | succ m hm ih =>
      refine h.stays m (hn.trans hm) l ih (hidle m hm ih) ?_
      rw [hsame m hm, hsame (m + 1) (hm.trans m.le_succ)]
  obtain ⟨m, hm, hmove⟩ := hfair l n fun m hm => h.enabled m (hn.trans hm) l (hhelp m hm)
  exact hidle m hm (hhelp m hm) hmove

/-- The rank reaches 0. -/
theorem eventually_zero (h : Helped σ mover Enabled Helpful rank N)
    (hfair : WeaklyFair σ mover Enabled) : ∃ n, N ≤ n ∧ rank (σ n) = 0 := by
  have hfrom : ∀ r n, N ≤ n → rank (σ n) = r → ∃ m, N ≤ m ∧ rank (σ m) = 0 := by
    intro r
    induction r using Nat.strong_induction_on with
    | _ r ih =>
      intro n hn hr
      by_cases hzero : rank (σ n) = 0
      · exact ⟨n, hn, hzero⟩
      · obtain ⟨m, hm, hlt⟩ := h.exists_lt hfair hn hzero
        exact ih (rank (σ m)) (hr ▸ hlt) m (hn.trans hm) rfl
  exact hfrom (rank (σ N)) N le_rfl rfl

end Helped

end Cesvga2.Fair
