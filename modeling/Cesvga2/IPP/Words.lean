import Cesvga2.IPP.Bind

/-! The commands that the stream processor writes, as the pipeline processor takes them:
`MI_NOOP`, `MI_FLUSH`, `MI_STORE_DATA_INDEX`, `MAP_STATE`, `BUF_INFO` and `DRAW_RECT`. -/

namespace Cesvga2.IPP

variable {e : Env} {b w : ℕ → ℕ} {r : Regs} {p n size : ℕ} {s : Exec} {st : State}

/-! ### One command -/

/-- The command at `w` takes `n` dwords. -/
def Takes (w : ℕ → ℕ) (n : ℕ) : Prop :=
  ∀ e r, ∃ d, decode e w r = some d ∧ (if d.skip = 0 then 1 else d.skip) = n

theorem decode_of_stateOf (h : stateOf (w 0) = some st) :
    decode e w r = some (decode3d1d e w r) ∧ State.ofCode (bitSelect (w 0) 16 8) = st := by
  unfold stateOf at h
  split_ifs at h with hs
  refine ⟨?_, Option.some.inj h⟩
  rw [decode, hs.1]
  simp only [decode3d, hs.2]

theorem decode3d1d_skip (h : stateOf (w 0) = some st) (hst : st ≠ .loadStateImmediate) :
    (decode3d1d e w r).skip = w 0 % 2 ^ 16 + 2 := by
  have hcode := (decode_of_stateOf (e := e) (r := r) h).2
  unfold decode3d1d
  rw [hcode]
  cases st with
  | loadStateImmediate => exact absurd rfl hst
  | clearParameters =>
    simp only [ipClearParams]
    split_ifs <;> rfl
  | _ => rfl

theorem takes_state (h : stateOf (w 0) = some st) (hst : st ≠ .loadStateImmediate) :
    Takes w (w 0 % 2 ^ 16 + 2) := by
  intro e r
  refine ⟨_, (decode_of_stateOf h).1, ?_⟩
  rw [decode3d1d_skip h hst, if_neg (by omega)]

theorem decode_mi (h : w 0 / 2 ^ 29 = 0) : decode e w r = some (decodeMi w r) := by
  simp only [decode, h]

theorem takes_mi (h : w 0 / 2 ^ 29 = 0)
    (hn : ∀ r, (if (decodeMi w r).skip = 0 then 1 else (decodeMi w r).skip) = n) : Takes w n :=
  fun _ r => ⟨_, decode_mi h, hn r⟩

/-- `MI_NOOP`, with any number in its low bits. -/
theorem takes_noop (h : w 0 < 2 ^ 23) : Takes w 1 := by
  have hop : bitSelect (w 0) 23 6 = 0 := by
    rw [bitSelect, Nat.shiftRight_eq_div_pow, Nat.div_eq_of_lt h, Nat.zero_mod]
  refine takes_mi (by omega) fun r => ?_
  simp [decodeMi, hop]

theorem stateOf_of_mi (h : w 0 / 2 ^ 29 = 0) : stateOf (w 0) = none := by
  unfold stateOf
  rw [if_neg (by omega)]

/-! ### The run -/

/-- The loop is at dword `p`. -/
def Exec.At (s : Exec) (p : ℕ) : Prop := s.submit.p = p ∧ s.submit.hung = false

theorem Exec.At.running (h : s.At p) (hp : p < size) : s.submit.running size = true := by
  simp [Submit.running, h.1, h.2, hp]

theorem Exec.At.step (h : s.At p) (ht : Takes (fun k => b (p + k)) n) :
    (s.step b e).At (p + n) ∧
      (s.step b e).binder = (s.binder.exec e fun k => b (p + k)).1 ∧
      (s.step b e).binds = s.binds ++ (s.binder.exec e fun k => b (p + k)).2 := by
  have hw : s.submit.word b = fun k => b (p + k) := by
    funext k
    rw [Submit.word, h.1]
  obtain ⟨d, hd, hn⟩ := ht e s.submit.regs
  refine ⟨?_, by rw [Exec.step, hw], by rw [Exec.step, hw]⟩
  unfold Exec.step Submit.step
  rw [hw, hd]
  exact ⟨by rw [← hn, h.1], rfl⟩

variable {env : ℕ → Env} {s₀ : Exec} {m : ℕ} {t t' : Binder} {l l' : List Bind}

/-- After `m` commands the loop is at dword `p`, with the binder `t`, and has bound `l`. -/
structure Reached (env : ℕ → Env) (b : ℕ → ℕ) (size : ℕ) (s₀ : Exec) (m p : ℕ) (t : Binder)
    (l : List Bind) : Prop where
  place : (exec env b size s₀ m).At p
  binder : (exec env b size s₀ m).binder = t
  binds : (exec env b size s₀ m).binds = l

theorem reached_start (r : Regs) (t : Binder) : Reached env b size (.start r t) 0 0 t [] :=
  ⟨⟨rfl, rfl⟩, rfl, rfl⟩

/-- One command of the loop. -/
theorem Reached.next (h : Reached env b size s₀ m p t l) (hp : p < size)
    (ht : Takes (fun k => b (p + k)) n) (hx : t.exec (env m) (fun k => b (p + k)) = (t', l')) :
    Reached env b size s₀ (m + 1) (p + n) t' (l ++ l') := by
  have hrun : exec env b size s₀ (m + 1) = (exec env b size s₀ m).step b (env m) :=
    Oracle.run_succ (h.place.running hp)
  obtain ⟨hat, hbinder, hbinds⟩ := h.place.step (e := env m) ht
  refine ⟨hrun ▸ hat, ?_, ?_⟩
  · rw [hrun, hbinder, h.binder, hx]
  · rw [hrun, hbinds, h.binder, h.binds, hx]

theorem reached_first (hp : 0 < size) (ht : Takes b n) (hx : t.exec (env 0) b = (t', l')) :
    Reached env b size (.start r t) 1 n t' l' := by
  have hb : (fun k => b (0 + k)) = b := by simp
  have hstart : Reached env b size (.start r t) 0 0 t [] := reached_start r t
  simpa using hstart.next hp (hb.symm ▸ ht) (by rw [hb]; exact hx)

/-! ### Bits of the command words -/

theorem or_eq_add {a x k : ℕ} (hx : x < 2 ^ k) : a * 2 ^ k ||| x = a * 2 ^ k + x := by
  have := Nat.shiftLeft_add_eq_or_of_lt hx a
  rw [Nat.shiftLeft_eq] at this
  exact this.symm

theorem bitSelect_eq (v start width : ℕ) :
    bitSelect v start width = v / 2 ^ start % 2 ^ width := by
  rw [bitSelect, Nat.shiftRight_eq_div_pow]

/-- The words of the `3DSTATE` commands, with a length of at most 16 bits. -/
theorem stateOf_word {c k : ℕ} (hc : c < 2 ^ 8) (hk : k < 2 ^ 16) :
    stateOf (0x7D000000 + c * 2 ^ 16 + k) = some (State.ofCode c) := by
  have hop : bitSelect (0x7D000000 + c * 2 ^ 16 + k) 24 5 = 0x1D := by
    rw [bitSelect_eq]
    omega
  have hcode : bitSelect (0x7D000000 + c * 2 ^ 16 + k) 16 8 = c := by
    rw [bitSelect_eq]
    omega
  unfold stateOf
  rw [if_pos, hcode]
  refine ⟨by omega, ?_⟩
  simp only [Op3d.ofCode, hop]

end Cesvga2.IPP
