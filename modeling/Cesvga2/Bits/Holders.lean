import Cesvga2.Bits.Bitmap

/-! The bits of a word as places that holders occupy, each a place of its own. A holder that goes
on takes the lowest clear bit; one that goes off gives its bit back, or forgets to. -/

namespace Cesvga2.Bits

variable {ι : Type*} {w : ℕ} {x : BitVec w} {on : ι → Bool} {place : ι → Option ℕ} {i j : ι}
  {k l : ℕ}

theorem getLsbD_or_twoPow (hk : k < w) (j : ℕ) :
    (x ||| BitVec.twoPow w k).getLsbD j = (x.getLsbD j || decide (k = j)) := by
  rw [BitVec.getLsbD_or, BitVec.getLsbD_twoPow, decide_eq_true hk, Bool.true_and]

theorem getLsbD_and_not_twoPow (hk : k < w) (j : ℕ) :
    (x &&& ~~~BitVec.twoPow w k).getLsbD j = (x.getLsbD j && !decide (k = j)) := by
  by_cases hj : j < w
  · rw [BitVec.getLsbD_and, BitVec.getLsbD_not, BitVec.getLsbD_twoPow, decide_eq_true hk,
      decide_eq_true hj, Bool.true_and, Bool.true_and]
  · rw [BitVec.getLsbD_of_ge _ _ (Nat.not_lt.mp hj), BitVec.getLsbD_of_ge _ _ (Nat.not_lt.mp hj),
      Bool.false_and]

/-- Everyone who is on has a place whose bit is set, with no place shared. -/
structure Placed (x : BitVec w) (on : ι → Bool) (place : ι → Option ℕ) : Prop where
  own : ∀ i, on i = true → ∃ k, place i = some k ∧ x.getLsbD k = true
  inj : ∀ i j, on i = true → on j = true → place i = place j → i = j

/-- The bits that are set are exactly the places of those who are on. -/
structure Held (x : BitVec w) (on : ι → Bool) (place : ι → Option ℕ) : Prop
    extends Placed x on place where
  used : ∀ k, x.getLsbD k = true → ∃ i, on i = true ∧ place i = some k

namespace Placed

theorem getLsbD (h : Placed x on place) (hi : on i = true) (hk : place i = some k) :
    x.getLsbD k = true := by
  obtain ⟨l, hl, hbit⟩ := h.own i hi
  cases hk.symm.trans hl
  exact hbit

/-- A clear bit is nobody's. -/
theorem ne_of_clear (h : Placed x on place) (hi : on i = true) (hk : x.getLsbD k = false) :
    place i ≠ some k := by
  intro hp
  exact Bool.false_ne_true (hk.symm.trans (h.getLsbD hi hp))

theorem ne_of_ne (h : Placed x on place) (hi : on i = true) (hj : on j = true) (hij : j ≠ i)
    (hk : place i = some k) (hl : place j = some l) : l ≠ k := by
  rintro rfl
  exact hij (h.inj j i hj hi (hl.trans hk.symm))

/-- Only the places of those who are on matter, and any of them may go off. -/
theorem of_le {on' : ι → Bool} {place' : ι → Option ℕ} (h : Placed x on place)
    (hon : ∀ i, on' i = true → on i = true) (hplace : ∀ i, on' i = true → place' i = place i) :
    Placed x on' place' := by
  refine ⟨fun i hi => ?_, fun i j hi hj he => h.inj i j (hon i hi) (hon j hj) ?_⟩
  · rw [hplace i hi]
    exact h.own i (hon i hi)
  · rw [← hplace i hi, he, hplace j hj]

end Placed

namespace Held

theorem congr {on' : ι → Bool} {place' : ι → Option ℕ} (h : Held x on place)
    (hon : ∀ i, on' i = on i) (hplace : ∀ i, on i = true → place' i = place i) :
    Held x on' place' := by
  obtain rfl : on' = on := funext hon
  refine ⟨h.toPlaced.of_le (fun _ => id) hplace, fun k hk => ?_⟩
  obtain ⟨i, hi, hp⟩ := h.used k hk
  exact ⟨i, hi, (hplace i hi).trans hp⟩

end Held

variable [DecidableEq ι]

theorem ne_of_update_false (h : Function.update on i false j = true) : j ≠ i := by
  rintro rfl
  rw [Function.update_self] at h
  exact Bool.false_ne_true h

theorem on_of_update_false (h : Function.update on i false j = true) : on j = true := by
  rwa [Function.update_of_ne (ne_of_update_false h)] at h

theorem Placed.set (h : Placed x on place) (hk : Lowest x k) :
    Placed (x ||| BitVec.twoPow w k) (Function.update on i true)
      (Function.update place i (some k)) := by
  refine ⟨fun j hj => ?_, fun j l hj hl he => ?_⟩
  · by_cases hji : j = i
    · subst hji
      refine ⟨k, Function.update_self .., ?_⟩
      rw [getLsbD_or_twoPow hk.lt, decide_eq_true rfl, Bool.or_true]
    · rw [Function.update_of_ne hji] at hj
      obtain ⟨l, hl, hbit⟩ := h.own j hj
      refine ⟨l, (Function.update_of_ne hji ..).trans hl, ?_⟩
      rw [getLsbD_or_twoPow hk.lt, hbit, Bool.true_or]
  · -- the new place was clear, so that only `i` has it
    by_cases hji : j = i <;> by_cases hli : l = i
    · rw [hji, hli]
    · subst hji
      rw [Function.update_of_ne hli] at hl
      rw [Function.update_self, Function.update_of_ne hli] at he
      exact absurd he.symm (h.ne_of_clear hl hk.clear)
    · subst hli
      rw [Function.update_of_ne hji] at hj
      rw [Function.update_self, Function.update_of_ne hji] at he
      exact absurd he (h.ne_of_clear hj hk.clear)
    · rw [Function.update_of_ne hji] at hj he
      rw [Function.update_of_ne hli] at hl he
      exact h.inj j l hj hl he

theorem Placed.clear (h : Placed x on place) (hi : on i = true) (hk : place i = some k) :
    Placed (x &&& ~~~BitVec.twoPow w k) (Function.update on i false)
      (Function.update place i none) := by
  have hlt : k < w := BitVec.lt_of_getLsbD (h.getLsbD hi hk)
  refine ⟨fun j hj => ?_, fun j l hj hl he => ?_⟩
  · have hji := ne_of_update_false hj
    obtain ⟨l, hl, hbit⟩ := h.own j (on_of_update_false hj)
    refine ⟨l, (Function.update_of_ne hji ..).trans hl, ?_⟩
    have hlk := h.ne_of_ne hi (on_of_update_false hj) hji hk hl
    rw [getLsbD_and_not_twoPow hlt, hbit, decide_eq_false hlk.symm]
    rfl
  · rw [Function.update_of_ne (ne_of_update_false hj),
      Function.update_of_ne (ne_of_update_false hl)] at he
    exact h.inj j l (on_of_update_false hj) (on_of_update_false hl) he

theorem Held.set (h : Held x on place) (hi : on i = false) (hk : Lowest x k) :
    Held (x ||| BitVec.twoPow w k) (Function.update on i true)
      (Function.update place i (some k)) := by
  refine ⟨h.toPlaced.set hk, fun l hl => ?_⟩
  rw [getLsbD_or_twoPow hk.lt, Bool.or_eq_true, decide_eq_true_iff] at hl
  rcases hl with hl | rfl
  · obtain ⟨j, hj, hp⟩ := h.used l hl
    have hji : j ≠ i := by
      rintro rfl
      exact Bool.false_ne_true (hi.symm.trans hj)
    exact ⟨j, (Function.update_of_ne hji ..).trans hj, (Function.update_of_ne hji ..).trans hp⟩
  · exact ⟨i, Function.update_self .., Function.update_self ..⟩

theorem Held.clear (h : Held x on place) (hi : on i = true) (hk : place i = some k) :
    Held (x &&& ~~~BitVec.twoPow w k) (Function.update on i false)
      (Function.update place i none) := by
  refine ⟨h.toPlaced.clear hi hk, fun l hl => ?_⟩
  rw [getLsbD_and_not_twoPow (BitVec.lt_of_getLsbD (h.getLsbD hi hk)), Bool.and_eq_true,
    Bool.not_eq_true', decide_eq_false_iff_not] at hl
  obtain ⟨j, hj, hp⟩ := h.used l hl.1
  have hji : j ≠ i := by
    rintro rfl
    exact hl.2 (Option.some.inj (hk.symm.trans hp))
  exact ⟨j, (Function.update_of_ne hji ..).trans hj, (Function.update_of_ne hji ..).trans hp⟩

/-- Whoever goes off and keeps the place leaves a bit that is nobody's. -/
theorem Held.not_drop (h : Held x on place) (hi : on i = true) :
    ¬ Held x (Function.update on i false) place := by
  intro hdrop
  obtain ⟨k, hk, hbit⟩ := h.own i hi
  obtain ⟨j, hj, hp⟩ := hdrop.used k hbit
  exact ne_of_update_false hj (h.inj j i (on_of_update_false hj) hi (hp.trans hk.symm))

end Cesvga2.Bits
