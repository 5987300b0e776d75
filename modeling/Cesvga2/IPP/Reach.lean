import Cesvga2.IPP.Submit

/-! The table of reaches is exact: no command reads further in any environment, and
each reads that far when nothing fails. -/

namespace Cesvga2.IPP

variable {e : Env} {w : ℕ → ℕ} {r : Regs} {l : List ℕ} {k n : ℕ}

/-- Locks and allocations succeed, and everything is logged. -/
def Env.generous : Env := ⟨true, true, 9⟩

/-- Below `k`, and as far as `k` in the generous environment; the command's own dword is
read anyway. -/
structure Tight (e : Env) (k : ℕ) (l : List ℕ) : Prop where
  lt : ∀ i ∈ l, i < k
  attained : e = .generous → k = 1 ∨ k - 1 ∈ l

namespace Tight

theorem nil : Tight e 1 [] := ⟨by simp, fun _ => .inl rfl⟩

theorem range : Tight e (n + 1) ((List.range n).map (· + 1)) := by
  constructor
  · intro i hi
    obtain ⟨j, hj, rfl⟩ := List.mem_map.mp hi
    exact Nat.succ_lt_succ (List.mem_range.mp hj)
  · intro
    cases n with
    | zero => exact .inl rfl
    | succ n => exact .inr (List.mem_map.mpr ⟨n, List.mem_range.mpr n.lt_succ_self, rfl⟩)

/-- An access that depends on the environment. -/
theorem ite {c : Prop} [Decidable c] (h : Tight e k l) (hk : e = .generous → c) :
    Tight e k (if c then l else []) := by
  constructor
  · intro i hi
    split_ifs at hi
    · exact h.lt i hi
    · simp at hi
  · intro he
    rw [if_pos (hk he)]
    exact h.attained he

end Tight

/-! ### Loops over a mask -/

theorem mem_maskLoop {block : ℕ → List ℕ} {mask q i : ℕ} (hb : ∀ q, ∀ i ∈ block q, i < q + k)
    (hi : i ∈ maskLoop block k n mask q) : i < q + k * ones n mask := by
  induction n generalizing mask q with
  | zero => simp [maskLoop] at hi
  | succ n ih =>
    simp only [maskLoop, ones] at hi ⊢
    split_ifs at hi with h1
    · rw [h1, Nat.mul_add, Nat.mul_one]
      rcases List.mem_append.mp hi with hi | hi
      · have := hb q i hi
        omega
      · have := ih hi
        omega
    · rw [show mask % 2 = 0 by omega, Nat.zero_add]
      exact ih hi

theorem last_mem_maskLoop {block : ℕ → List ℕ} {mask q : ℕ} (hb : ∀ q, q + k - 1 ∈ block q)
    (h0 : ones n mask ≠ 0) : q + k * ones n mask - 1 ∈ maskLoop block k n mask q := by
  induction n generalizing mask q with
  | zero => exact absurd rfl h0
  | succ n ih =>
    simp only [maskLoop, ones] at h0 ⊢
    split_ifs with h1
    · rw [h1, List.mem_append, Nat.mul_add, Nat.mul_one, ← Nat.add_assoc]
      by_cases hn : ones n (mask / 2) = 0
      · left
        rw [hn]
        exact hb q
      · exact .inr (ih hn)
    · rw [show mask % 2 = 0 by omega, Nat.zero_add] at h0 ⊢
      exact ih h0

/-- The mask in dword 1 and a block for each of its bits from dword 2 on. -/
theorem tight_maskLoop {block : ℕ → List ℕ} {mask : ℕ} (hb : ∀ q, ∀ i ∈ block q, i < q + k)
    (hlast : e = .generous → ∀ q, q + k - 1 ∈ block q) :
    Tight e (2 + k * ones n mask) (1 :: maskLoop block k n mask 2) := by
  constructor
  · intro i hi
    rcases List.mem_cons.mp hi with rfl | hi
    · omega
    · exact mem_maskLoop hb hi
  · intro he
    right
    by_cases h0 : ones n mask = 0
    · rw [h0]
      exact List.mem_cons_self
    · exact List.mem_cons_of_mem _ (last_mem_maskLoop (hlast he) h0)

theorem tight_ip3dMapState : Tight e (2 + 3 * ones 16 (w 1)) (ip3dMapState e w) := by
  apply tight_maskLoop
  · intro q i hi
    split_ifs at hi <;> simp at hi <;> omega
  · rintro rfl q
    simp [Env.generous]

theorem tight_ip3dSamplerState : Tight e (2 + 3 * ones 16 (w 1)) (ip3dSamplerState w) := by
  apply tight_maskLoop
  · intro q i hi
    simp at hi
    omega
  · simp

theorem ones_of_mod_eq_zero {mask : ℕ} (h : mask % 2 ^ n = 0) : ones n mask = 0 := by
  induction n generalizing mask with
  | zero => rfl
  | succ n ih =>
    obtain ⟨m, rfl⟩ := Nat.dvd_of_mod_eq_zero h
    have hm : 2 ^ (n + 1) * m = 2 * (2 ^ n * m) := by ring
    rw [ones, hm, Nat.mul_mod_right, Nat.mul_div_cancel_left _ (by norm_num), Nat.zero_add]
    exact ih (Nat.mul_mod_right _ _)

theorem tight_ipLoadPsConst : Tight e (2 + 4 * ones 16 (w 1)) (ipLoadPsConst e w) := by
  have hall : Tight e (2 + 4 * ones 16 (w 1))
      (1 :: maskLoop (fun q => [q, q + 1, q + 2, q + 3]) 4 16 (w 1) 2) := by
    apply tight_maskLoop
    · intro q i hi
      simp at hi
      omega
    · simp
  unfold ipLoadPsConst
  split_ifs with h
  · exact hall
  constructor
  · simp
    omega
  · rintro rfl
    have h0 : w 1 % 2 ^ 16 = 0 := by simpa [Env.generous] using h
    simp [ones_of_mod_eq_zero h0]

/-! ### Immediate state -/

theorem loadLoop_reads {limit i mask q : ℕ} : (loadLoop w limit n i mask q r).1 =
    List.range' q (min (limit - q) (ones n mask)) := by
  induction n generalizing i mask q r with
  | zero => simp [loadLoop, ones]
  | succ n ih =>
    simp only [loadLoop, ones]
    split_ifs with hq h1
    · rw [ih, h1, show min (limit - q) (1 + ones n (mask / 2)) =
        min (limit - (q + 1)) (ones n (mask / 2)) + 1 by omega, List.range'_succ]
    · rw [ih, show mask % 2 = 0 by omega, Nat.zero_add]
    · rw [show limit - q = 0 by omega, Nat.zero_min]
      rfl

theorem tight_ipLoadImmediate :
    Tight e (min (w 0 % 2 ^ 4 + 2) (1 + ones 8 (bitSelect (w 0) 4 8)))
      (ipLoadImmediate w r).reads := by
  show Tight e _ (loadLoop w (w 0 % 2 ^ 4 + 2) 8 0 (bitSelect (w 0) 4 8) 1 r).1
  rw [loadLoop_reads]
  constructor
  · intro i hi
    rw [List.mem_range'_1] at hi
    omega
  · intro
    rw [List.mem_range'_1]
    omega

/-! ### Every command -/

/-- A decoded command and its reach; both are missing if the search does not end. -/
def Reaches (e : Env) : Option ℕ → Option Decoded → Prop
  | none, none => True
  | some k, some d => Tight e k d.reads
  | _, _ => False

theorem decodeMi_reads : (decodeMi w r).reads =
    if bitSelect (w 0) 23 6 = 33 then if w 1 = 64 then [1, 2] else [1] else [] := by
  unfold decodeMi
  generalize bitSelect (w 0) 23 6 = c
  split
  case h_18 => rfl
  case h_19 h => rw [if_neg (by simpa using h)]
  all_goals rfl

theorem tight_decodeMi : Tight e (reachMi w) (decodeMi w r).reads := by
  rw [decodeMi_reads, reachMi]
  split_ifs
  · exact ⟨by simp, by simp⟩
  · exact ⟨by simp, by simp⟩
  · exact .nil

theorem tight_ipMiscRenderState : Tight e 3 (ipMiscRenderState e 2) := by
  refine Tight.ite ⟨by simp, by simp⟩ ?_
  rintro rfl
  exact .inl (by decide)

theorem tight_ipBufInfo :
    Tight e (if bitSelect (w 1) 24 3 = 3 ∨ bitSelect (w 1) 24 3 = 7 then 3 else 2)
      (ipBufInfo w) := by
  simp only [ipBufInfo]
  split_ifs <;> exact ⟨by simp, by simp⟩

theorem tight_ipClearParams :
    Tight e (if w 0 % 2 ^ 16 < 5 then 1 else 7) (ipClearParams w r).reads := by
  simp only [ipClearParams, Nat.add_lt_iff_lt_sub_right]
  split_ifs
  · exact .nil
  · exact ⟨by simp, by simp⟩

theorem tight_decode3d1d : Tight e (reach3d1d w) (decode3d1d e w r).reads := by
  unfold decode3d1d reach3d1d
  cases State.ofCode (bitSelect (w 0) 16 8) with
  | mapState => exact tight_ip3dMapState
  | samplerState => exact tight_ip3dSamplerState
  | loadStateImmediate => exact tight_ipLoadImmediate
  | pixelShaderConstants => exact tight_ipLoadPsConst
  | scissorRect => exact tight_ipMiscRenderState
  | stipple | fogMode =>
    refine Tight.ite ⟨by simp, by simp⟩ ?_
    rintro rfl
    decide
  | bufInfo => exact tight_ipBufInfo
  | clearParameters => exact tight_ipClearParams
  | pixelShaderProgram | unknown => exact .nil
  | drawRect => exact .range (n := 4)
  | dstBufVars | constBlendColor | depthOffsetScale => exact .range (n := 1)

theorem tight_vertices {kind : PrimKind} {dwords : ℕ} :
    Tight e (if draws r kind dwords then dwords + 1 else 1) (ipPrim3dVertices e r kind dwords) := by
  unfold ipPrim3dVertices
  cases draws r kind dwords with
  | false => exact .nil
  | true =>
    refine Tight.ite .range ?_
    rintro rfl
    exact ⟨rfl, rfl⟩

theorem reaches_ipPrim3d : Reaches e (reachPrim3d w r) (ipPrim3d e w r) := by
  unfold ipPrim3d reachPrim3d
  by_cases h23 : (w 0).testBit 23
  · simp only [h23, if_true]
    by_cases h17 : (w 0).testBit 17 ∧ w 0 % 2 ^ 16 = 0
    · rw [if_pos h17, if_pos h17.1, if_pos h17.2]
      cases findTerminator w (2 ^ 32) 0 with
      | none => trivial
      | some k => exact Tight.range
    · rw [if_neg h17]
      split_ifs with h h0
      · exact absurd ⟨h, h0⟩ h17
      · exact Tight.nil
      · exact Tight.nil
  · simp only [h23]
    cases PrimKind.ofCode (bitSelect (w 0) 18 5) with
    | none => exact Tight.nil
    | some kind =>
      cases kind with
      | clearRect =>
        show Tight e _ _
        split_ifs
        · exact .nil
        · exact ⟨by simp, by simp⟩
      | _ => exact tight_vertices

theorem reaches_decode3d : Reaches e (reach3d w r) (decode3d e w r) := by
  unfold decode3d reach3d
  cases Op3d.ofCode (w 0) with
  | state => exact tight_decode3d1d
  | prim3d => exact reaches_ipPrim3d
  | modes4 =>
    show Tight e 1 _
    split_ifs
    · exact .nil
    · exact ⟨by simp [ipMiscRenderState], by simp⟩
  | scissorEnable => exact ⟨by simp [ipMiscRenderState], by simp⟩
  | _ => exact Tight.nil

theorem decode2d_reads : (decode2d w r).reads = [] := by
  unfold decode2d
  split <;> rfl

theorem reaches_decode (e : Env) (w : ℕ → ℕ) (r : Regs) : Reaches e (reach w r) (decode e w r) := by
  unfold decode reach
  generalize w 0 / 2 ^ 29 = c
  match c with
  | 0 => exact tight_decodeMi
  | 1 => exact Tight.nil
  | 2 =>
    show Tight e 1 _
    rw [decode2d_reads]
    exact .nil
  | 3 => exact reaches_decode3d
  | n + 4 => exact Tight.nil

end Cesvga2.IPP
