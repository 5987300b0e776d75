import Cesvga2.IPP.Bounds
import Cesvga2.IPP.Words

/-! Buffers that are runs of whole commands. A run of commands that name only the ids of a
set keeps the cached ids and everything that is bound in that set. -/

namespace Cesvga2.IPP

variable {A B : Set ℕ} {w v : ℕ → ℕ} {n m size : ℕ} {t : Binder} {e : Env}

/-- The command at `w` takes `n` dwords, whatever follows them. -/
def Whole (w : ℕ → ℕ) (n : ℕ) : Prop := ∀ v, (∀ k < n, v k = w k) → Takes v n

theorem Takes.pos (h : Takes w n) : 0 < n := by
  obtain ⟨d, -, hn⟩ := h ⟨false, false, 0⟩ ⟨fun _ => 0, 0, ⟨0, 0, 0, 0⟩⟩
  split_ifs at hn <;> omega

theorem Whole.takes (h : Whole w n) : Takes w n := h w fun _ _ => rfl

theorem Whole.congr (h : Whole w n) (hv : ∀ k < n, v k = w k) : Whole v n :=
  fun _ hu => h _ fun k hk => (hu k hk).trans (hv k hk)

/-- A command whose first dword tells its length. -/
theorem whole_of_first (h : ∀ v, v 0 = w 0 → Takes v n) : Whole w n :=
  fun v hv => h v (hv 0 (h w rfl).pos)

/-- A whole command that is neither `MAP_STATE` nor `BUF_INFO`, or names ids of `A` only. -/
structure Command (A : Set ℕ) (w : ℕ → ℕ) (n : ℕ) : Prop where
  whole : Whole w n
  mapState : stateOf (w 0) = some .mapState →
    2 + 3 * ones 16 (w 1) ≤ n ∧ ∀ j < ones 16 (w 1), w (2 + 3 * j) ∈ A
  bufInfo : stateOf (w 0) = some .bufInfo → 3 ≤ n ∧ w 2 ∈ A

theorem Command.congr (h : Command A w n) (hv : ∀ k < n, v k = w k) : Command A v n := by
  have h0 : v 0 = w 0 := hv 0 h.whole.takes.pos
  refine ⟨h.whole.congr hv, fun hst => ?_, fun hst => ?_⟩
  · obtain ⟨hn, hentry⟩ := h.mapState (h0 ▸ hst)
    have h1 : v 1 = w 1 := hv 1 (by omega)
    rw [h1]
    refine ⟨hn, fun j hj => ?_⟩
    rw [hv _ (by omega)]
    exact hentry j hj
  · obtain ⟨hn, hsid⟩ := h.bufInfo (h0 ▸ hst)
    rw [hv 2 (by omega)]
    exact ⟨hn, hsid⟩

/-- The ids of `A` among the command's dwords are ids of `B`. -/
theorem Command.mono (h : Command A w n) (hAB : ∀ k < n, w k ∈ A → w k ∈ B) : Command B w n := by
  refine ⟨h.whole, fun hst => ?_, fun hst => ?_⟩
  · obtain ⟨hn, hentry⟩ := h.mapState hst
    exact ⟨hn, fun j hj => hAB _ (by omega) (hentry j hj)⟩
  · obtain ⟨hn, hsid⟩ := h.bufInfo hst
    exact ⟨hn, hAB 2 (by omega) hsid⟩

/-! ### Runs of commands -/

inductive Parsed (A : Set ℕ) : (ℕ → ℕ) → ℕ → Prop
  | nil (w : ℕ → ℕ) : Parsed A w 0
  | cons {w : ℕ → ℕ} {n m : ℕ} (h : Command A w n) (ht : Parsed A (fun k => w (n + k)) m) :
    Parsed A w (n + m)

theorem Parsed.congr (h : Parsed A w n) (hv : ∀ k < n, v k = w k) : Parsed A v n := by
  induction h generalizing v with
  | nil w => exact .nil v
  | cons hc ht ih =>
    exact .cons (hc.congr fun k hk => hv k (by omega)) (ih fun k hk => hv _ (by omega))

theorem Parsed.mono (h : Parsed A w n) (hAB : ∀ k < n, w k ∈ A → w k ∈ B) : Parsed B w n := by
  induction h with
  | nil w => exact .nil w
  | cons hc ht ih =>
    exact .cons (hc.mono fun k hk => hAB k (by omega)) (ih fun k hk => hAB _ (by omega))

theorem Parsed.append (h : Parsed A w n) (h' : Parsed A (fun k => w (n + k)) m) :
    Parsed A w (n + m) := by
  induction h with
  | nil w => simpa using h'
  | cons hc ht ih =>
    rw [add_assoc]
    exact .cons hc (ih (by simpa only [add_assoc] using h'))

theorem Command.parsed (h : Command A w n) : Parsed A w n := .cons h (.nil _)

/-- A run of commands that name no ids. -/
def Plain (w : ℕ → ℕ) (n : ℕ) : Prop := Parsed ∅ w n

theorem Plain.parsed (h : Plain w n) : Parsed A w n := h.mono fun _ _ hk => hk.elim

/-- A command other than `MAP_STATE` and `BUF_INFO`. -/
theorem command_of_harmless (h : Whole w n) (hm : stateOf (w 0) ≠ some .mapState)
    (hb : stateOf (w 0) ≠ some .bufInfo) : Command A w n :=
  ⟨h, fun hst => absurd hst hm, fun hst => absurd hst hb⟩

theorem command_noop (h : w 0 < 2 ^ 23) : Command A w 1 := by
  have hst : stateOf (w 0) = none := stateOf_of_mi (by omega)
  exact command_of_harmless (whole_of_first fun v hv => takes_noop (hv ▸ h)) (by simp [hst])
    (by simp [hst])

theorem plain_zeros (h : ∀ k < n, w k = 0) : Plain w n := by
  induction n generalizing w with
  | zero => exact .nil w
  | succ n ih =>
    have h0 : w 0 = 0 := h 0 (by omega)
    rw [add_comm]
    exact .cons (command_noop (by omega)) (ih fun k hk => h _ (by omega))

/-! ### What is bound -/

theorem mapStateLoop_mem {ids : ℕ → ℕ} {i mask q j : ℕ} (hids : ids j ∈ A)
    (hw : ∀ k < ones n mask, w (q + 3 * k) ∈ A) : mapStateLoop w n i mask q ids j ∈ A := by
  induction n generalizing i mask q ids with
  | zero => exact hids
  | succ n ih =>
    rw [mapStateLoop]
    split_ifs with hbit
    · have hones : ones (n + 1) mask = ones n (mask / 2) + 1 := by
        rw [ones, hbit, add_comm]
      refine ih ?_ fun k hk => ?_
      · by_cases hj : j = i
        · subst hj
          rw [Function.update_self]
          simpa using hw 0 (by omega)
        · rwa [Function.update_of_ne hj]
      · have := hw (k + 1) (by omega)
        rwa [mul_add, mul_one, add_comm (3 * k), ← add_assoc] at this
    · refine ih hids fun k hk => hw k ?_
      rw [ones]
      omega

theorem unbindSamplers_mem (hA : idInvalid ∈ A) {mask : ℕ → Bool} :
    ∀ x ∈ (t.unbindSamplers e mask).2, x.sid ∈ A := by
  intro x hx
  unfold Binder.unbindSamplers at hx
  split_ifs at hx
  · obtain ⟨i, -, rfl⟩ := List.mem_map.mp hx
    exact hA
  · cases hx

/-- A command that names ids of `A` only, at a binder that caches ids of `A` only. -/
theorem Command.exec (h : Command A w n) (hA : idInvalid ∈ A) (ht : ∀ i, t.surfaceIds i ∈ A) :
    (∀ i, (t.exec e w).1.surfaceIds i ∈ A) ∧ ∀ x ∈ (t.exec e w).2, x.sid ∈ A := by
  unfold Binder.exec
  cases hst : stateOf (w 0) with
  | none => exact ⟨ht, by simp⟩
  | some st =>
    cases st with
    | mapState =>
      exact ⟨fun i => mapStateLoop_mem (ht i) (h.mapState hst).2, by simp⟩
    | samplerState =>
      have hids : (t.samplerState e w).1.surfaceIds = t.surfaceIds := by
        unfold Binder.samplerState Binder.unbindSamplers
        split_ifs <;> rfl
      refine ⟨fun i => (congrFun hids i).symm ▸ ht i, fun x hx => ?_⟩
      rcases List.mem_append.mp hx with hx | hx
      · exact unbindSamplers_mem hA x hx
      · simp only [List.map_map, List.mem_map] at hx
        obtain ⟨s, -, rfl⟩ := hx
        exact ht s.2
    | bufInfo =>
      refine ⟨ht, fun x hx => ?_⟩
      simp only [IPP.bufInfo] at hx
      split_ifs at hx <;> simp only [List.mem_singleton, List.not_mem_nil] at hx
      · exact hx ▸ (h.bufInfo hst).2
      · exact hx ▸ (h.bufInfo hst).2
    | _ => exact ⟨ht, by simp⟩

/-- The cached ids and everything bound so far are ids of `A`. -/
def Exec.Within (A : Set ℕ) (s : Exec) : Prop :=
  (∀ i, s.binder.surfaceIds i ∈ A) ∧ ∀ x ∈ s.binds, x.sid ∈ A

/-- A buffer that starts with a run of commands keeps within the ids they name, as far as
the run goes. -/
theorem Parsed.within {env : ℕ → Env} {r : Regs} (h : Parsed A w n) (hA : idInvalid ∈ A)
    (ht : ∀ i, t.surfaceIds i ∈ A) (hsize : size ≤ n) (k : ℕ) :
    (exec env w size (.start r t) k).Within A := by
  have hrun : (exec env w size (.start r t) k).Within A ∧ ∃ p m, p + m = n ∧
      (exec env w size (.start r t) k).At p ∧ Parsed A (fun j => w (p + j)) m := by
    induction k with
    | zero => exact ⟨⟨ht, by simp [IPP.exec, Oracle.run, Exec.start]⟩, 0, n, by omega,
        ⟨rfl, rfl⟩, by simpa using h⟩
    | succ k ih =>
      obtain ⟨hin, p, m, hpm, hat, hp⟩ := ih
      cases hr : (exec env w size (.start r t) k).submit.running size with
      | false =>
        have hstop : exec env w size (.start r t) (k + 1) = exec env w size (.start r t) k :=
          Oracle.run_stop hr
        rw [hstop]
        exact ⟨hin, p, m, hpm, hat, hp⟩
      | true =>
        have hlt : p < size := by
          simp only [Submit.running, decide_eq_true_eq] at hr
          exact hat.1 ▸ hr.2
        have hstep : exec env w size (.start r t) (k + 1) =
            (exec env w size (.start r t) k).step w (env k) := Oracle.run_succ hr
        cases hp with
        | nil => omega
        | @cons _ c m' hc hrest =>
          obtain ⟨hat', hbinder, hbinds⟩ := hat.step (e := env k) hc.whole.takes
          obtain ⟨hids, hbound⟩ := hc.exec (e := env k) hA hin.1
          rw [hstep]
          refine ⟨⟨hbinder ▸ hids, ?_⟩, p + c, m', by omega, hat', ?_⟩
          · rw [hbinds]
            exact List.forall_mem_append.mpr ⟨hin.2, hbound⟩
          · simpa only [add_assoc] using hrest
  exact hrun.1

theorem exec_cursor {env : ℕ → Env} {r : Regs} {k : ℕ}
    (h : (exec env w size (.start r t) k).submit.running size = true) :
    k ≤ (exec env w size (.start r t) k).submit.p := by
  induction k with
  | zero => exact Nat.zero_le _
  | succ k ih =>
    cases hr : (exec env w size (.start r t) k).submit.running size with
    | false =>
      have hstop : exec env w size (.start r t) (k + 1) = exec env w size (.start r t) k :=
        Oracle.run_stop hr
      rw [hstop, hr] at h
      cases h
    | true =>
      have hstep : exec env w size (.start r t) (k + 1) =
          (exec env w size (.start r t) k).step w (env k) := Oracle.run_succ hr
      rw [hstep] at h ⊢
      have hlt := Submit.p_lt_step (Submit.running_iff.mp h).1
      have := ih hr
      exact Nat.lt_of_le_of_lt this hlt

/-- As many passes as there are dwords end the loop. -/
theorem exec_ends {env : ℕ → Env} {r : Regs} :
    (exec env w size (.start r t) size).submit.running size = false := by
  rw [← Bool.not_eq_true]
  intro h
  have := exec_cursor h
  have := (Submit.running_iff.mp h).2
  omega

end Cesvga2.IPP
