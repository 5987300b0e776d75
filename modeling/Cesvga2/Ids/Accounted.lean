import Cesvga2.Ids.Accel
import Cesvga2.Ledgers.Log

/-! Who has the GMR ids: some holders, one id each at most, and whoever else uses the allocator. -/

namespace Cesvga2.Ids

open Cesvga2.Ledgers (Turns)

variable {ι E : Type*}

/-- The events of a log by which an id is obtained and freed. -/
structure Marks (E : Type*) where
  alloc : ℕ → E
  free : ℕ → E
  alloc_inj : Function.Injective alloc
  free_inj : Function.Injective free
  ne : ∀ m n, alloc m ≠ free n

/-- The ids that are live belong to one holder each or to others, and the log has each id of a
holder obtained and freed in turns. -/
structure Accounted (M : Marks E) (maxGMRIDs : ℕ) (others : Finset ℕ) (hold : ι → Option ℕ)
    (ids : Sys) (log : List E) : Prop where
  inv : Inv maxGMRIDs ids
  live : ∀ n, n ∈ ids.gmrs ↔ n ∈ others ∨ ∃ i, hold i = some n
  own : ∀ i n, hold i = some n → n ∉ others
  distinct : ∀ i j n, hold i = some n → hold j = some n → i = j
  turns : ∀ n, ∃ held, Turns (M.alloc n) (M.free n) held log ∧
    (held = true ↔ ∃ i, hold i = some n)
  obtained : ∀ n, M.alloc n ∈ log → n < 64 * gmrEntries ∧ n < maxGMRIDs

namespace Accounted

variable {M : Marks E} {maxGMRIDs : ℕ} {others : Finset ℕ} {hold : ι → Option ℕ} {ids : Sys}
  {log : List E} {event : E} {i : ι} {n : ℕ}

theorem start (hinv : Inv maxGMRIDs ids) (hnone : ∀ i, hold i = none) :
    Accounted M maxGMRIDs ids.gmrs hold ids [] := by
  have hno : ∀ n, ¬ ∃ i, hold i = some n := by
    rintro n ⟨i, hi⟩
    rw [hnone i] at hi
    cases hi
  refine ⟨hinv, fun n => (or_iff_left (hno n)).symm, fun i n hi => absurd ⟨i, hi⟩ (hno n),
    fun i _ n hi => absurd ⟨i, hi⟩ (hno n), fun n => ?_, fun _ hn => absurd hn List.not_mem_nil⟩
  exact ⟨false, .nil, iff_of_false (by decide) (hno n)⟩

theorem cons (h : Accounted M maxGMRIDs others hold ids log)
    (he : ∀ n, event ≠ M.alloc n ∧ event ≠ M.free n) :
    Accounted M maxGMRIDs others hold ids (event :: log) := by
  refine ⟨h.inv, h.live, h.own, h.distinct, fun n => ?_, fun n hn => h.obtained n ?_⟩
  · obtain ⟨held, hturns, hheld⟩ := h.turns n
    exact ⟨held, hturns.other (he n).1 (he n).2, hheld⟩
  · exact (List.mem_cons.mp hn).resolve_left (he n).1.symm

theorem refused (h : Accounted M maxGMRIDs others hold ids log)
    (hn : ids.accel.allocGMRID.1 = none) :
    Accounted M maxGMRIDs others hold ⟨ids.accel.allocGMRID.2, ids.surfaces, ids.gmrs⟩ log := by
  have hinv := h.inv.allocGMRID.2.2
  rw [hn, Option.elim_none] at hinv
  exact ⟨hinv, h.live, h.own, h.distinct, h.turns, h.obtained⟩

theorem hold_update_some [DecidableEq ι] {m : ℕ} {j : ι} (hi : hold i = none) :
    Function.update hold i (some n) j = some m ↔ hold j = some m ∨ j = i ∧ n = m := by
  by_cases hj : j = i
  · subst hj
    simp [hi]
  · simp [hj]

theorem hold_update_none [DecidableEq ι] {m : ℕ} {j : ι} :
    Function.update hold i none j = some m ↔ j ≠ i ∧ hold j = some m := by
  by_cases hj : j = i
  · subst hj
    simp
  · simp [hj]

theorem take [DecidableEq ι] (h : Accounted M maxGMRIDs others hold ids log) (hi : hold i = none)
    (hn : ids.accel.allocGMRID.1 = some n) :
    Accounted M maxGMRIDs others (Function.update hold i (some n))
      ⟨ids.accel.allocGMRID.2, ids.surfaces, insert n ids.gmrs⟩ (M.alloc n :: log) := by
  obtain ⟨hnew, -, hinv⟩ := h.inv.allocGMRID
  have hfresh := (hnew n hn).1
  rw [hn, Option.elim_some] at hinv
  have hnot : ∀ j, hold j ≠ some n := fun j hj => hfresh ((h.live n).mpr (.inr ⟨j, hj⟩))
  refine ⟨hinv, fun m => ?_, fun j m hj => ?_, fun j k m hj hk => ?_, fun m => ?_, fun m hm => ?_⟩
  · simp only [Finset.mem_insert, h.live m, hold_update_some hi]
    grind
  · rcases (hold_update_some hi).mp hj with hj | ⟨-, rfl⟩
    · exact h.own j m hj
    · exact fun hmem => hfresh ((h.live n).mpr (.inl hmem))
  · rcases (hold_update_some hi).mp hj with hj | ⟨hj, hm⟩ <;>
      rcases (hold_update_some hi).mp hk with hk | ⟨hk, hm'⟩
    · exact h.distinct j k m hj hk
    · exact absurd (hm' ▸ hj) (hnot j)
    · exact absurd (hm ▸ hk) (hnot k)
    · exact hj.trans hk.symm
  · obtain ⟨held, hturns, hheld⟩ := h.turns m
    simp only [hold_update_some hi]
    by_cases hmn : n = m
    · subst hmn
      obtain rfl : held = false := by
        rw [← Bool.not_eq_true, hheld]
        exact fun ⟨j, hj⟩ => hnot j hj
      exact ⟨true, hturns.take, iff_of_true rfl ⟨i, .inr ⟨rfl, rfl⟩⟩⟩
    · refine ⟨held, hturns.other (fun he => hmn (M.alloc_inj he)) (M.ne n m), ?_⟩
      simp only [hheld, hmn, and_false, or_false]
  · rcases List.mem_cons.mp hm with hm | hm
    · cases M.alloc_inj hm
      obtain ⟨hlt, hmax, -⟩ := (h.inv.gmr.alloc_some hn).1.1
      exact ⟨hlt, hmax⟩
    · exact h.obtained m hm

theorem drop [DecidableEq ι] (h : Accounted M maxGMRIDs others hold ids log)
    (hi : hold i = some n) :
    Accounted M maxGMRIDs others (Function.update hold i none)
      ⟨ids.accel.freeGMRID n, ids.surfaces, ids.gmrs.erase n⟩ (M.free n :: log) := by
  have hmem : n ∈ ids.gmrs := (h.live n).mpr (.inr ⟨i, hi⟩)
  have hother : ∀ j, j ≠ i → hold j ≠ some n := fun j hj hn => hj (h.distinct j i n hn hi)
  refine ⟨h.inv.freeGMRID hmem, fun m => ?_, fun j m hj => ?_, fun j k m hj hk => ?_, fun m => ?_,
    fun m hm => h.obtained m ((List.mem_cons.mp hm).resolve_left (M.ne m n))⟩
  · simp only [Finset.mem_erase, h.live m, hold_update_none]
    have := h.own i n hi
    grind
  · exact h.own j m (hold_update_none.mp hj).2
  · exact h.distinct j k m (hold_update_none.mp hj).2 (hold_update_none.mp hk).2
  · obtain ⟨held, hturns, hheld⟩ := h.turns m
    simp only [hold_update_none]
    by_cases hmn : n = m
    · subst hmn
      obtain rfl : held = true := hheld.mpr ⟨i, hi⟩
      exact ⟨false, hturns.give, iff_of_false (by simp) fun ⟨j, hj, hn⟩ => hother j hj hn⟩
    · refine ⟨held, hturns.other (M.ne m n).symm (fun he => hmn (M.free_inj he)), hheld.trans ?_⟩
      exact exists_congr fun j => ⟨fun hj => ⟨fun he => hmn (by simpa [he, hi] using hj), hj⟩,
        And.right⟩

theorem otherAlloc (h : Accounted M maxGMRIDs others hold ids log) :
    Accounted M maxGMRIDs (ids.accel.allocGMRID.1.elim others (insert · others)) hold
      ⟨ids.accel.allocGMRID.2, ids.surfaces,
        ids.accel.allocGMRID.1.elim ids.gmrs (insert · ids.gmrs)⟩ log := by
  obtain ⟨hnew, -, hinv⟩ := h.inv.allocGMRID
  refine ⟨hinv, ?_, ?_, h.distinct, h.turns, h.obtained⟩ <;> cases hn : ids.accel.allocGMRID.1 with
  | none => first | exact h.live | exact h.own
  | some n => ?_
  · intro m
    simp only [Option.elim_some, Finset.mem_insert, h.live m, or_assoc]
  · intro i m hm hmem
    rcases Finset.mem_insert.mp hmem with rfl | hmem
    · exact (hnew m hn).1 ((h.live m).mpr (.inr ⟨i, hm⟩))
    · exact h.own i m hm hmem

theorem otherFree (h : Accounted M maxGMRIDs others hold ids log) (hn : n ∈ others) :
    Accounted M maxGMRIDs (others.erase n) hold
      ⟨ids.accel.freeGMRID n, ids.surfaces, ids.gmrs.erase n⟩ log := by
  refine ⟨h.inv.freeGMRID ((h.live n).mpr (.inl hn)), fun m => ?_,
    fun i m hm hmem => h.own i m hm (Finset.mem_of_mem_erase hmem), h.distinct, h.turns,
    h.obtained⟩
  simp only [Finset.mem_erase, h.live m]
  constructor
  · rintro ⟨hne, hm | hm⟩
    · exact .inl ⟨hne, hm⟩
    · exact .inr hm
  · rintro (⟨hne, hm⟩ | ⟨i, hm⟩)
    · exact ⟨hne, .inl hm⟩
    · exact ⟨fun heq => h.own i m hm (heq ▸ hn), .inr ⟨i, hm⟩⟩

end Accounted

end Cesvga2.Ids
