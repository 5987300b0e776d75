import Cesvga2.Allocator.Runs

/-! What the byte scans of the range tests miss. A difference in the last full
byte of a range goes unreported, so `testAll` and `testAny` speak of the other
bits only, and `Release` takes a range a second time when all its released
blocks lie in that byte or end a live block. -/

namespace Cesvga2.Allocator

open Blocks Blocks.Block

variable {m : Map} {first past s e : ℕ} {a : Pool} {σ : Sys}

namespace Map

theorem testAll_exact_iff :
    (m.testAll first past = true ↔ ∀ n, first ≤ n → n < past → m.bitTest n = true) ↔
      (∃ n, first ≤ n ∧ n < past ∧ ¬ Unseen first past n ∧ m.bitTest n = false) ∨
        ∀ n, first ≤ n → n < past → Unseen first past n → m.bitTest n = true := by
  rw [testAll_iff]
  constructor
  · intro h
    by_cases hs : ∀ n, first ≤ n → n < past → ¬ Unseen first past n → m.bitTest n = true
    · exact Or.inr fun n h1 h2 _ => h.mp hs n h1 h2
    · push Not at hs
      obtain ⟨n, h1, h2, h3, h4⟩ := hs
      exact Or.inl ⟨n, h1, h2, h3, Bool.eq_false_iff.mpr h4⟩
  · rintro (⟨n, h1, h2, h3, h4⟩ | hu)
    · exact ⟨fun h => absurd (h n h1 h2 h3) (by simp [h4]),
        fun h => absurd (h n h1 h2) (by simp [h4])⟩
    · refine ⟨fun h n h1 h2 => ?_, fun h n h1 h2 _ => h n h1 h2⟩
      by_cases hn : Unseen first past n
      · exact hu n h1 h2 hn
      · exact h n h1 h2 hn

theorem testAny_exact_iff :
    (m.testAny first past = true ↔ ∃ n, first ≤ n ∧ n < past ∧ m.bitTest n = true) ↔
      (∃ n, first ≤ n ∧ n < past ∧ ¬ Unseen first past n ∧ m.bitTest n = true) ∨
        ∀ n, first ≤ n → n < past → Unseen first past n → m.bitTest n = false := by
  have hany : m.testAny first past = true ↔
      ∃ n, first ≤ n ∧ n < past ∧ ¬ Unseen first past n ∧ m.bitTest n = true := by
    rw [← Bool.not_eq_false, testAny_iff]
    push Not
    simp only [Bool.not_eq_false]
  rw [hany]
  constructor
  · intro h
    by_cases hs : ∃ n, first ≤ n ∧ n < past ∧ ¬ Unseen first past n ∧ m.bitTest n = true
    · exact Or.inl hs
    · exact Or.inr fun n h1 h2 _ =>
        Bool.eq_false_iff.mpr fun hb => hs (h.mpr ⟨n, h1, h2, hb⟩)
  · rintro (⟨n, h1, h2, h3, h4⟩ | hu)
    · exact ⟨fun _ => ⟨n, h1, h2, h4⟩, fun _ => ⟨n, h1, h2, h3, h4⟩⟩
    · refine ⟨fun ⟨n, h1, h2, _, h4⟩ => ⟨n, h1, h2, h4⟩, fun ⟨n, h1, h2, h4⟩ =>
        ⟨n, h1, h2, fun hn => ?_, h4⟩⟩
      rw [hu n h1 h2 hn] at h4
      cases h4

end Map

/-! ### Releasing twice -/

/-- The range lies on block boundaries inside the pool. -/
def Pool.Spans (a : Pool) (s e : ℕ) : Prop :=
  s % 4096 = 0 ∧ e % 4096 = 0 ∧ s / 4096 < a.poolBlocks ∧ e / 4096 ≤ a.poolBlocks

theorem release_cases (a : Pool) (s e : ℕ) :
    (¬ a.Spans s e ∧ a.release s e = (.badArgument, a)) ∨
    (a.Spans s e ∧ a.map.testAll (s / 4096) (e / 4096) = false ∧
      a.release s e = (.badMedia, a)) ∨
    (a.Spans s e ∧ a.map.testAll (s / 4096) (e / 4096) = true ∧
      (a.release s e).1 = .success) := by
  rw [Pool.release]
  simp only [minBits, show (2 : ℕ) ^ 12 = 4096 by norm_num, Pool.Spans]
  split_ifs with h1 h2 h3
  · exact Or.inl ⟨fun h => h1 h.1, rfl⟩
  · exact Or.inl ⟨fun h => h2 h.2.1, rfl⟩
  · exact Or.inl ⟨by omega, rfl⟩
  have hspan : s % 4096 = 0 ∧ e % 4096 = 0 ∧ s / 4096 < a.poolBlocks ∧
      e / 4096 ≤ a.poolBlocks := by omega
  right
  rw [Map.clearCheck]
  cases ht : a.map.testAll (s / 4096) (e / 4096) with
  | false => exact Or.inl ⟨hspan, rfl, rfl⟩
  | true => exact Or.inr ⟨hspan, rfl, rfl⟩

/-- The blocks of the byte range from `s` to `e`. -/
def blocksIn (s e : ℕ) : Finset ℕ := Finset.Ico (s / 4096) (e / 4096)

/-- The call is refused and changes nothing. -/
def Pool.Refuses (a : Pool) (s e : ℕ) : Prop :=
  (a.release s e).1 ≠ .success ∧ (a.release s e).2 = a

theorem refuses_iff : a.Refuses s e ↔
    ¬ a.Spans s e ∨ a.map.testAll (s / 4096) (e / 4096) = false := by
  rw [Pool.Refuses]
  rcases release_cases a s e with ⟨h1, h2⟩ | ⟨h1, h2, h3⟩ | ⟨h1, h2, h3⟩
  · simp [h1, h2]
  · simp [h2, h3]
  · simp [h1, h2, h3]

/-- In a reachable state a bit is clear just where a block was released and does
not end a live block. -/
theorem Reachable.bitTest_eq_false (h : Reachable σ) {n : ℕ} (hn : n < σ.pool.poolBlocks) :
    σ.pool.map.bitTest n = false ↔ n ∈ σ.released ∧ ∀ β ∈ σ.live, n + 1 ≠ β.past := by
  have hb := (wellFormed_of_reachable h).bits n hn
  rw [Pool.bitTest] at hb
  rw [← Bool.not_eq_true, hb]
  push Not
  exact and_comm

/-- Each range test is exact, and a second release is refused, unless all that
should be noticed lies in the last full byte of the range. -/
theorem scans_exact_iff (m : Map) (first past : ℕ) (h : Reachable σ) (s e : ℕ) :
    ((m.testAll first past = true ↔ ∀ n, first ≤ n → n < past → m.bitTest n = true) ↔
      (∃ n, first ≤ n ∧ n < past ∧ ¬ Map.Unseen first past n ∧ m.bitTest n = false) ∨
        ∀ n, first ≤ n → n < past → Map.Unseen first past n → m.bitTest n = true) ∧
    ((m.testAny first past = true ↔ ∃ n, first ≤ n ∧ n < past ∧ m.bitTest n = true) ↔
      (∃ n, first ≤ n ∧ n < past ∧ ¬ Map.Unseen first past n ∧ m.bitTest n = true) ∨
        ∀ n, first ≤ n → n < past → Map.Unseen first past n → m.bitTest n = false) ∧
    ((¬ Disjoint (blocksIn s e) σ.released → σ.pool.Refuses s e) ↔
      ¬ σ.pool.Spans s e ∨ Disjoint (blocksIn s e) σ.released ∨
        ∃ n ∈ blocksIn s e, ¬ Map.Unseen (s / 4096) (e / 4096) n ∧ n ∈ σ.released ∧
          ∀ β ∈ σ.live, n + 1 ≠ β.past) := by
  refine ⟨Map.testAll_exact_iff, Map.testAny_exact_iff, ?_⟩
  rw [refuses_iff, not_imp_comm, not_or, not_not]
  have hclear : σ.pool.Spans s e → (σ.pool.map.testAll (s / 4096) (e / 4096) = false ↔
      ∃ n ∈ blocksIn s e, ¬ Map.Unseen (s / 4096) (e / 4096) n ∧ n ∈ σ.released ∧
        ∀ β ∈ σ.live, n + 1 ≠ β.past) := by
    intro hspan
    rw [← Bool.not_eq_true, Map.testAll_iff]
    push Not
    refine exists_congr fun n => ?_
    rw [blocksIn, Finset.mem_Ico, and_assoc]
    refine and_congr_right fun _ => and_congr_right fun hn => and_congr_right fun _ => ?_
    rw [← h.bitTest_eq_false (hn.trans_le hspan.2.2.2), ne_eq, Bool.not_eq_true]
  by_cases hspan : σ.pool.Spans s e
  · rw [hclear hspan]
    simp only [hspan, not_true, true_and, false_or]
    rw [← or_iff_not_imp_left, or_comm]
  · simp [hspan]

/-- Sixteen blocks of which the last eight are released. -/
def halfSys : Sys := (Op.release 32768 65536).exec
  ⟨⟨4096, 16, fun _ => ournull, fun _ => 0xFF#8, 0, fun _ => 0⟩, ∅, ∅⟩

theorem reachable_halfSys : Reachable halfSys :=
  .step (@Reachable.init (fun _ => 0) 4096 65536 true _ (by norm_num) rfl)
    (Finset.disjoint_empty_right _)

/-- A clear byte passes for set and a set byte for clear, and the last eight
blocks of the pool are released a second time. -/
theorem not_scans_exact :
    (Map.testAll (fun _ => 0#8) 0 8 = true ∧ Map.bitTest (fun _ => 0#8) 0 = false) ∧
    (Map.testAny (fun _ => 0xFF#8) 0 8 = false ∧ Map.bitTest (fun _ => 0xFF#8) 0 = true) ∧
    Reachable halfSys ∧ halfSys.released = Finset.Ico 8 16 ∧
      (halfSys.pool.release 0 65536).1 = .success :=
  ⟨by decide, by decide, reachable_halfSys, by decide +kernel, by decide +kernel⟩

theorem scans_exact_halfSys :
    (Map.testAll (fun _ => 0#8) 0 9 = true ↔
      ∀ n, 0 ≤ n → n < 9 → Map.bitTest (fun _ => 0#8) n = true) ∧
    (halfSys.pool.Refuses 0 61440) :=
  have h := scans_exact_iff (fun _ => 0#8) 0 9 reachable_halfSys 0 61440
  ⟨h.1.mpr (Or.inl ⟨8, by decide +kernel⟩),
    h.2.2.mpr (Or.inr (Or.inr ⟨8, by decide +kernel⟩)) (by decide +kernel)⟩

end Cesvga2.Allocator
