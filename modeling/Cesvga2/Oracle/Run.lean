import Mathlib.Data.Nat.Notation
import Mathlib.Logic.Function.Basic

/-! Runs of a machine that asks its environment at every step. If a step condition is
enough to keep an invariant, and necessary as soon as every answer has to be safe,
then the safe machines are exactly those whose runs meet the condition at every step. -/

namespace Cesvga2.Oracle

variable {σ ε : Type*} (step : ε → σ → σ) (running : σ → Bool) (s₀ : σ)

/-- The state after `n` steps, if the machine runs that long. -/
def run (env : ℕ → ε) : ℕ → σ
  | 0 => s₀
  | n + 1 => if running (run env n) then step (env n) (run env n) else run env n

variable {step running s₀} {env env' : ℕ → ε} {n : ℕ}

theorem run_succ (h : running (run step running s₀ env n) = true) :
    run step running s₀ env (n + 1) = step (env n) (run step running s₀ env n) := if_pos h

theorem run_stop (h : running (run step running s₀ env n) = false) :
    run step running s₀ env (n + 1) = run step running s₀ env n := if_neg (by simp [h])

theorem run_stopped {m : ℕ} (h : running (run step running s₀ env n) = false) (hm : n ≤ m) :
    run step running s₀ env m = run step running s₀ env n := by
  induction hm with
  | refl => rfl
  | step hm ih => rw [run_stop (by rwa [ih]), ih]

/-- Only the answers so far matter. -/
theorem run_congr (h : ∀ k < n, env k = env' k) :
    run step running s₀ env n = run step running s₀ env' n := by
  induction n with
  | zero => rfl
  | succ n ih => rw [run, run, ih fun k hk => h k (Nat.lt_succ_of_lt hk), h n (Nat.lt_succ_self n)]

/-- A step of a run may meet any answer. -/
theorem run_update (h : running (run step running s₀ env n) = true) (e : ε) :
    run step running s₀ (Function.update env n e) (n + 1) = step e (run step running s₀ env n) := by
  have hsame : run step running s₀ (Function.update env n e) n = run step running s₀ env n :=
    run_congr fun k hk => Function.update_of_ne (Nat.ne_of_lt hk) _ _
  rw [run_succ (by rwa [hsame]), hsame, Function.update_self]

/-- An invariant of the steps that meet a condition. -/
theorem run_invariant {Good Fits : σ → Prop} (h0 : Good s₀)
    (hstep : ∀ s e, Good s → running s = true → Fits s → Good (step e s))
    (hfits : ∀ n, Good (run step running s₀ env n) → running (run step running s₀ env n) = true →
      Fits (run step running s₀ env n)) :
    Good (run step running s₀ env n) := by
  induction n with
  | zero => exact h0
  | succ n ih =>
    cases hr : running (run step running s₀ env n) with
    | true =>
      rw [run_succ hr]
      exact hstep _ _ ih hr (hfits n ih hr)
    | false =>
      rw [run_stop hr]
      exact ih

/-- Safe in every environment exactly when every step of every run meets the condition. -/
theorem safe_iff_fits {Good Safe Fits : σ → Prop} (h0 : Good s₀) (hsafe : ∀ s, Good s → Safe s)
    (hstep : ∀ s e, Good s → running s = true → Fits s → Good (step e s))
    (hfits : ∀ s, Good s → running s = true → (∀ e, Safe (step e s)) → Fits s) :
    (∀ env n, Safe (run step running s₀ env n)) ↔
      ∀ env n, running (run step running s₀ env n) = true → Fits (run step running s₀ env n) := by
  constructor
  · intro h env n
    have hall : ∀ n, Good (run step running s₀ env n) →
        running (run step running s₀ env n) = true → Fits (run step running s₀ env n) := by
      intro n hg hr
      refine hfits _ hg hr fun e => ?_
      rw [← run_update hr e]
      exact h _ _
    exact hall n (run_invariant h0 hstep hall)
  · intro h env n
    exact hsafe _ (run_invariant h0 hstep fun n _ => h env n)

end Cesvga2.Oracle
