import Cesvga2.IPP.Reach

/-! Which buffers `submit_buffer` reads without leaving them. No check stops a command
at the buffer's end, so it stays inside and returns exactly when every command that it
comes to fits. -/

namespace Cesvga2.IPP

variable {e : Env} {w b : ℕ → ℕ} {r : Regs} {s : Submit} {size k n : ℕ}

namespace Submit

instance (b : ℕ → ℕ) (size : ℕ) (s : Submit) : Decidable (s.Fits b size) :=
  decidable_of_iff ((reach (s.word b) s.regs).any fun k => s.p + k ≤ size) (by
    cases h : reach (s.word b) s.regs <;> simp [Fits, h])

theorem running_iff : s.running size = true ↔ s.hung = false ∧ s.p < size := by
  simp [running]

theorem step_none (h : decode e (s.word b) s.regs = none) : (s.step b e).hung = true := by
  rw [step, h]

/-- A command that ends moves the cursor. -/
theorem p_lt_step (h : (s.step b e).hung = false) : s.p < (s.step b e).p := by
  unfold step at h ⊢
  cases hd : decode e (s.word b) s.regs with
  | none =>
    rw [hd] at h
    exact absurd h (by simp)
  | some d =>
    simp only
    split_ifs <;> omega

/-- A command that fits. -/
theorem Inside.step (h : s.Inside size) (hr : s.running size = true) (hf : s.Fits b size) :
    (s.step b e).Inside size := by
  obtain ⟨k, hk, hle⟩ := hf
  have hreach := reaches_decode e (s.word b) s.regs
  rw [Option.mem_def.mp hk] at hreach
  unfold Submit.step
  cases hd : decode e (s.word b) s.regs with
  | none =>
    rw [hd] at hreach
    exact hreach.elim
  | some d =>
    rw [hd] at hreach
    refine ⟨rfl, fun i hi => ?_⟩
    simp only [List.mem_cons, List.mem_append, List.mem_map] at hi
    rcases hi with rfl | ⟨j, hj, rfl⟩ | hi
    · exact (running_iff.mp hr).2
    · have := hreach.lt j hj
      omega
    · exact h.2 i hi

/-- If no environment takes the command outside, it fits. -/
theorem fits_of_inside (hr : s.running size = true) (hi : ∀ e, (s.step b e).Inside size) :
    s.Fits b size := by
  have hreach := reaches_decode .generous (s.word b) s.regs
  have hin := hi .generous
  unfold Submit.step at hin
  cases hd : decode .generous (s.word b) s.regs with
  | none =>
    rw [hd] at hin
    exact absurd hin.1 (by simp)
  | some d =>
    rw [hd] at hreach hin
    cases hk : reach (s.word b) s.regs with
    | none =>
      rw [hk] at hreach
      exact hreach.elim
    | some k =>
      rw [hk] at hreach
      refine ⟨k, hk, ?_⟩
      rcases hreach.attained rfl with rfl | hm
      · exact (running_iff.mp hr).2
      · have hlt := hin.2 (s.p + (k - 1)) (by
          simp only [List.mem_cons, List.mem_append, List.mem_map]
          exact .inr (.inl ⟨_, hm, rfl⟩))
        omega

/-- The loop is over. -/
def Returned (size : ℕ) (s : Submit) : Prop := s.hung = false ∧ size ≤ s.p

end Submit

theorem submitBuffer_cursor {env : ℕ → Env}
    (h : ∀ n, (submitBuffer env b size r n).hung = false) :
    n ≤ (submitBuffer env b size r n).p ∨ size ≤ (submitBuffer env b size r n).p := by
  induction n with
  | zero => exact .inl (Nat.zero_le _)
  | succ n ih =>
    have hsucc := h (n + 1)
    have hn := h n
    unfold submitBuffer at hsucc hn ih ⊢
    cases hr : Submit.running size
        (Oracle.run (Submit.step b) (Submit.running size) (.start r) env n) with
    | true =>
      rw [Oracle.run_succ hr] at hsucc ⊢
      have hlt := Submit.p_lt_step hsucc
      omega
    | false =>
      rw [Oracle.run_stop hr]
      right
      by_contra hlt
      rw [Submit.running_iff.mpr ⟨hn, by omega⟩] at hr
      exact absurd hr (by simp)

/-- Whatever locks, allocations and the memory after the buffer do, `submit_buffer`
returns and reads the buffer only, exactly when every command that it comes to fits. -/
theorem returns_inside_iff_fits (b : ℕ → ℕ) (size : ℕ) (r : Regs) :
    (∀ env, (∃ n, (submitBuffer env b size r n).Returned size) ∧
        ∀ n, (submitBuffer env b size r n).Inside size) ↔
      ∀ env n, (submitBuffer env b size r n).running size = true →
        (submitBuffer env b size r n).Fits b size := by
  have hsafe : (∀ env n, (submitBuffer env b size r n).Inside size) ↔
      ∀ env n, (submitBuffer env b size r n).running size = true →
        (submitBuffer env b size r n).Fits b size := by
    have hstart : (Submit.start r).Inside size := ⟨rfl, by simp [Submit.start]⟩
    apply Oracle.safe_iff_fits hstart
    · exact fun s hs => hs
    · exact fun s e hs hr hf => hs.step hr hf
    · exact fun s _ hr hi => Submit.fits_of_inside hr hi
  rw [← hsafe]
  constructor
  · exact fun h env => (h env).2
  · intro h env
    have hend := submitBuffer_cursor (n := size) fun n => (h env n).1
    exact ⟨⟨size, (h env size).1, hend.elim id id⟩, h env⟩

theorem findTerminator_eq_none (h : ∀ k, index w k ≠ 0xFFFF) : findTerminator w n k = none := by
  induction n generalizing k with
  | zero => rfl
  | succ n ih => rw [findTerminator, if_neg (h k), ih]

/-- An indirect primitive of variable length without a terminator. -/
def unterminated (i : ℕ) : ℕ := if i = 0 then 0x7F820000 else 0

theorem word_start : (Submit.start r).word b = b := by
  funext k
  simp [Submit.word, Submit.start]

theorem decode_unterminated : decode e unterminated r = none := by
  have hnone : findTerminator unterminated (2 ^ 32) 0 = none := by
    apply findTerminator_eq_none
    intro k
    simp [index, unterminated, bitSelect]
  rw [decode, show unterminated 0 / 2 ^ 29 = 3 by decide]
  show decode3d e unterminated r = none
  rw [decode3d, show Op3d.ofCode (unterminated 0) = .prim3d by decide]
  show ipPrim3d e unterminated r = none
  rw [ipPrim3d, if_pos (by decide), if_pos (by decide), if_pos (by decide), hnone]
  rfl

theorem submitBuffer_one {env : ℕ → Env} (h : 0 < size) :
    submitBuffer env b size r 1 = (Submit.start r).step b (env 0) :=
  Oracle.run_succ (Submit.running_iff.mpr ⟨rfl, h⟩)

/-- The registers as they come zeroed. -/
def Regs.zero : Regs := ⟨fun _ => 0, 0, ⟨0, 0, 0, 0⟩⟩

/-- `DRAW_RECT` as the only dword of a buffer reads four dwords after it, and the
unterminated primitive keeps the loop for ever. -/
theorem outside_drawRect_and_hung :
    4 ∈ (submitBuffer (fun _ => .generous) (fun _ => 0x7D800003) 1 .zero 1).touched ∧
    (submitBuffer (fun _ => .generous) unterminated 1 .zero 1).hung = true := by
  constructor
  · decide +kernel
  · rw [submitBuffer_one Nat.one_pos]
    exact Submit.step_none (word_start ▸ decode_unterminated)

/-- A viewport of 640 by 480. -/
def viewport (i : ℕ) : ℕ := [0x7D800003, 0, 0, 640, 480].getD i 0

theorem decode_viewport : decode e viewport r = some ⟨ipDrawRect, 5, r⟩ := by
  rw [decode, show viewport 0 / 2 ^ 29 = 3 by decide]
  show decode3d e viewport r = _
  rw [decode3d, show Op3d.ofCode (viewport 0) = .state by decide]
  show some (decode3d1d e viewport r) = _
  rw [decode3d1d, show State.ofCode (bitSelect (viewport 0) 16 8) = .drawRect by decide]
  rfl

theorem returns_viewport : ∀ env, (∃ n, (submitBuffer env viewport 5 .zero n).Returned 5) ∧
    ∀ n, (submitBuffer env viewport 5 .zero n).Inside 5 := by
  refine (returns_inside_iff_fits viewport 5 .zero).mpr fun env n => ?_
  have hend : ∀ n, (submitBuffer env viewport 5 .zero (n + 1)).running 5 = false := by
    intro n
    induction n with
    | zero =>
      rw [submitBuffer_one (by norm_num), Submit.step, word_start, decode_viewport]
      rfl
    | succ n ih => rwa [submitBuffer, Oracle.run_stop ih]
  cases n with
  | zero => exact fun _ => show (Submit.start .zero).Fits viewport 5 by decide
  | succ n => exact fun h => absurd (hend n) (by simp [h])

end Cesvga2.IPP
