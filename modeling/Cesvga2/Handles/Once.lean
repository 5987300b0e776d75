import Mathlib.Logic.Function.Basic
import Mathlib.Order.Nat

/-! Handles that are to be ended exactly once. Handles are numbered in the order in which they are
made, and the ledger counts how often each one was ended. Places hold a handle or none; the ledger
is sound when every handle is held at one place and not ended, or held nowhere and ended once. -/

namespace Cesvga2.Handles

structure Ledger where
  made : ℕ
  ends : ℕ → ℕ

namespace Ledger

def empty : Ledger := ⟨0, fun _ => 0⟩

/-- A new handle, numbered `H.made`. -/
def make (H : Ledger) : Ledger := { H with made := H.made + 1 }

def finish (H : Ledger) (k : ℕ) : Ledger :=
  { H with ends := Function.update H.ends k (H.ends k + 1) }

/-- Ends what a place holds, if it holds anything. -/
def finishHeld (H : Ledger) : Option ℕ → Ledger
  | none => H
  | some k => H.finish k

/-- The handle was made and not ended since. -/
def Open (H : Ledger) (k : ℕ) : Prop := k < H.made ∧ H.ends k = 0

/-- Every handle was ended exactly once. -/
def Once (H : Ledger) : Prop := ∀ k < H.made, H.ends k = 1

variable {ι : Type*} {H : Ledger} {held : ι → Option ℕ} {i : ι} {k : ℕ}

structure Sound (H : Ledger) (held : ι → Option ℕ) : Prop where
  live : ∀ {i k}, held i = some k → H.Open k
  unique : ∀ {i j k}, held i = some k → held j = some k → i = j
  ended : ∀ {k}, k < H.made → (∀ i, held i ≠ some k) → H.ends k = 1
  fresh : ∀ {k}, H.made ≤ k → H.ends k = 0

/-- No place holds the open handle, so that none will end it. -/
def Leaked (H : Ledger) (held : ι → Option ℕ) (k : ℕ) : Prop :=
  H.Open k ∧ ∀ i, held i ≠ some k

@[simp] theorem make_made : H.make.made = H.made + 1 := rfl

@[simp] theorem make_ends : H.make.ends = H.ends := rfl

@[simp] theorem finish_made : (H.finish k).made = H.made := rfl

theorem finish_ends_of_ne {j : ℕ} (h : j ≠ k) : (H.finish k).ends j = H.ends j :=
  Function.update_of_ne h _ _

theorem finish_ends_self : (H.finish k).ends k = H.ends k + 1 := Function.update_self _ _ _

theorem Open.ne_made (h : H.Open k) : k ≠ H.made := h.1.ne

theorem Open.make (h : H.Open k) : H.make.Open k := ⟨h.1.trans (Nat.lt_succ_self _), h.2⟩

theorem Open.finish {j : ℕ} (h : H.Open k) (hne : k ≠ j) : (H.finish j).Open k :=
  ⟨h.1, (finish_ends_of_ne hne).trans h.2⟩

theorem not_open_finish : ¬ (H.finish k).Open k := by
  rintro ⟨-, h⟩
  rw [finish_ends_self] at h
  omega

namespace Sound

theorem empty : Sound Ledger.empty fun _ : ι => none :=
  ⟨nofun, nofun, fun h => absurd h (Nat.not_lt_zero _), fun _ => rfl⟩

theorem ne_made (h : Sound H held) (i : ι) : held i ≠ some H.made :=
  fun he => (h.live he).ne_made rfl

/-- The handle that the ledger makes next is not ended. -/
theorem open_make (h : Sound H held) : H.make.Open H.made :=
  ⟨Nat.lt_succ_self _, h.fresh le_rfl⟩

/-- Once nothing is held, everything was ended once. -/
theorem once (h : Sound H held) (hnone : ∀ i, held i = none) : H.Once := by
  intro k hk
  refine h.ended hk fun i => ?_
  rw [hnone i]
  nofun

/-- A handle that is made and ended at once is held nowhere. -/
theorem make_finish (h : Sound H held) : Sound (H.make.finish H.made) held := by
  refine ⟨fun he => (h.live he).make.finish (h.live he).ne_made, h.unique, ?_, ?_⟩
  · intro k hk hheld
    by_cases hkm : k = H.made
    · rw [hkm, finish_ends_self, make_ends, h.fresh le_rfl]
    · rw [finish_ends_of_ne hkm, make_ends]
      exact h.ended (by simp only [finish_made, make_made] at hk; omega) hheld
  · intro k hk
    simp only [finish_made, make_made] at hk
    rw [finish_ends_of_ne (by omega), make_ends]
    exact h.fresh (by omega)

theorem not_leaked (h : Sound H held) (k : ℕ) : ¬ H.Leaked held k := by
  rintro ⟨⟨hk, h0⟩, hheld⟩
  rw [h.ended hk hheld] at h0
  exact Nat.one_ne_zero h0

end Sound

section Places

variable [DecidableEq ι]

theorem update_ne_some {v : Option ℕ} (hv : v ≠ some k) (h : ∀ j, held j ≠ some k) (j : ι) :
    Function.update held i v j ≠ some k := by
  by_cases hj : j = i
  · rwa [hj, Function.update_self]
  · rw [Function.update_of_ne hj]
    exact h j

/-- An empty place takes a new handle. -/
theorem Sound.make (h : Sound H held) (hi : held i = none) :
    Sound H.make (Function.update held i (some H.made)) := by
  have hcase : ∀ {j k}, Function.update held i (some H.made) j = some k →
      j = i ∧ k = H.made ∨ j ≠ i ∧ held j = some k := by
    intro j k he
    by_cases hj : j = i
    · rw [hj, Function.update_self] at he
      exact .inl ⟨hj, (Option.some.inj he).symm⟩
    · rw [Function.update_of_ne hj] at he
      exact .inr ⟨hj, he⟩
  refine ⟨fun he => ?_, fun he he' => ?_, fun {k} hk hheld => ?_, fun hk => ?_⟩
  · obtain ⟨-, rfl⟩ | ⟨-, he⟩ := hcase he
    · exact h.open_make
    · exact (h.live he).make
  · obtain ⟨rfl, rfl⟩ | ⟨-, he⟩ := hcase he
    · obtain ⟨rfl, -⟩ | ⟨-, he'⟩ := hcase he'
      · rfl
      · exact absurd he' (h.ne_made _)
    · obtain ⟨-, rfl⟩ | ⟨-, he'⟩ := hcase he'
      · exact absurd he (h.ne_made _)
      · exact h.unique he he'
  · have hkm : k ≠ H.made := by
      rintro rfl
      exact hheld i (Function.update_self _ _ _)
    refine h.ended (by simp only [make_made] at hk; omega) fun j hj => hheld j ?_
    have hji : j ≠ i := by
      rintro rfl
      rw [hi] at hj
      cases hj
    rwa [Function.update_of_ne hji]
  · exact h.fresh (Nat.le_of_succ_le hk)

/-- A place ends what it holds and is empty. -/
theorem Sound.finishHeld (h : Sound H held) (i : ι) :
    Sound (H.finishHeld (held i)) (Function.update held i none) := by
  cases hi : held i with
  | none =>
    rw [← hi, Function.update_eq_self]
    simpa only [hi, Ledger.finishHeld] using h
  | some k =>
    have hcase : ∀ {j m}, Function.update held i none j = some m →
        m ≠ k ∧ held j = some m := by
      intro j m he
      by_cases hj : j = i
      · rw [hj, Function.update_self] at he
        cases he
      · rw [Function.update_of_ne hj] at he
        exact ⟨fun hm => hj (h.unique (hm ▸ he) hi), he⟩
    refine ⟨fun he => ?_, fun he he' => h.unique (hcase he).2 (hcase he').2, fun {m} hm hheld => ?_,
      fun {m} hm => ?_⟩
    · exact (h.live (hcase he).2).finish (hcase he).1
    · by_cases hmk : m = k
      · rw [hmk]
        exact finish_ends_self.trans (by rw [(h.live hi).2])
      · refine (finish_ends_of_ne hmk).trans (h.ended hm fun j hj => hheld j ?_)
        have hji : j ≠ i := by
          rintro rfl
          exact hmk (Option.some.inj (hj.symm.trans hi))
        rwa [Function.update_of_ne hji]
    · have hmk : m ≠ k := by
        rintro rfl
        exact absurd (h.live hi).1 (not_lt.mpr hm)
      exact (finish_ends_of_ne hmk).trans (h.fresh hm)

/-! ### Handles that nobody ends -/

/-- The handle of a place that takes a new one without ending the old. -/
theorem Sound.leaked (h : Sound H held) (hi : held i = some k) :
    H.make.Leaked (Function.update held i (some H.made)) k := by
  refine ⟨(h.live hi).make, fun j => ?_⟩
  by_cases hj : j = i
  · rw [hj, Function.update_self]
    exact fun he => (h.live hi).ne_made (Option.some.inj he).symm
  · rw [Function.update_of_ne hj]
    exact fun he => hj (h.unique he hi)

theorem Leaked.make (h : H.Leaked held k) (i : ι) :
    H.make.Leaked (Function.update held i (some H.made)) k :=
  ⟨h.1.make, update_ne_some (fun he => h.1.ne_made (Option.some.inj he).symm) h.2⟩

theorem Leaked.finishHeld (h : H.Leaked held k) (i : ι) :
    (H.finishHeld (held i)).Leaked (Function.update held i none) k := by
  refine ⟨?_, update_ne_some nofun h.2⟩
  cases hi : held i with
  | none => exact h.1
  | some j => exact h.1.finish fun hkj => h.2 i (hkj ▸ hi)

end Places

namespace Leaked

theorem finish {j : ℕ} (h : H.Leaked held k) (hkj : k ≠ j) : (H.finish j).Leaked held k :=
  ⟨h.1.finish hkj, h.2⟩

theorem not_once (h : H.Leaked held k) : ¬ H.Once := by
  intro honce
  have h0 : H.ends k = 0 := h.1.2
  rw [honce k h.1.1] at h0
  exact Nat.one_ne_zero h0

end Leaked

end Ledger

end Cesvga2.Handles
