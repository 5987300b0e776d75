import Cesvga2.IPP.Decode

/-! The render states of the device that follow the immediate registers S4 to S7. A register
that is loaded with the value it is cached with sends nothing; otherwise all states of that
register are sent, and those of no other. Two states read S5 as well as their own register. -/

namespace Cesvga2.IPP

/-- The render states that `ip_load_immediate` sends. -/
inductive RenderState where
  | pointSize | shadeMode | cullMode | pointSpriteEnable | antialiasedLineEnable
  | ditherEnable | lastPixel | fogEnable | stencilRef | stencilFunc | stencilFail
  | stencilZFail | stencilPass | stencilEnable
  | colorWriteEnable | blendEnable | blendEquation | srcBlend | dstBlend | alphaTestEnable
  | alphaFunc | alphaRef | zEnable | zFunc | zWriteEnable
  | depthBias
  deriving DecidableEq, Repr

namespace RenderState

/-- The register whose load sends the state. -/
def reg : RenderState → ℕ
  | pointSize | shadeMode | cullMode | pointSpriteEnable | antialiasedLineEnable => 4
  | ditherEnable | lastPixel | fogEnable | stencilRef | stencilFunc | stencilFail
  | stencilZFail | stencilPass | stencilEnable => 5
  | colorWriteEnable | blendEnable | blendEquation | srcBlend | dstBlend | alphaTestEnable
  | alphaFunc | alphaRef | zEnable | zFunc | zWriteEnable => 6
  | depthBias => 7

/-- The states of a register, in the order of `rs`. -/
def ofReg : ℕ → List RenderState
  | 4 => [pointSize, shadeMode, cullMode, pointSpriteEnable, antialiasedLineEnable]
  | 5 => [ditherEnable, lastPixel, fogEnable, stencilRef, stencilFunc, stencilFail, stencilZFail,
      stencilPass, stencilEnable]
  | 6 => [colorWriteEnable, blendEnable, blendEquation, srcBlend, dstBlend, alphaTestEnable,
      alphaFunc, alphaRef, zEnable, zFunc, zWriteEnable]
  | 7 => [depthBias]
  | _ => []

theorem mem_ofReg {n : RenderState} {i : ℕ} : n ∈ ofReg i ↔ n.reg = i := by
  unfold ofReg
  split
  case h_5 h4 h5 h6 h7 =>
    simp only [List.not_mem_nil, false_iff]
    rintro rfl
    cases n <;> first | exact h4 rfl | exact h5 rfl | exact h6 rfl | exact h7 rfl
  all_goals cases n <;> decide

theorem reg_mem (n : RenderState) : 4 ≤ n.reg ∧ n.reg < 8 := by
  cases n <;> decide

end RenderState

/-! ### Values -/

/-- The bits of a small integer as a `float`. -/
def floatBits (n : ℕ) : ℕ :=
  if n = 0 then 0 else (127 + n.log2) * 2 ^ 23 + (n - 2 ^ n.log2) * 2 ^ (23 - n.log2)

def xlateCompareFunc (v : ℕ) : ℕ := if v = 0 then 8 else v

def xlateStencilOp (v : ℕ) : ℕ :=
  if v ≤ 4 then v + 1 else if v ≤ 6 then v + 2 else if v = 7 then 6 else 0

/-- The colours that a 4-bit field leaves enabled, with bits 0 and 2 exchanged. -/
def colorMask (disable : ℕ) : ℕ :=
  let mask := 15 - disable
  mask &&& 10 ||| bitSelect mask 2 1 ||| bitSelect mask 0 1 <<< 2

namespace Regs

variable (r : Regs)

def calcColorWriteEnable : ℕ :=
  if bitSelect (r.immS 6) 2 1 = 0 then 0
  else if r.paramCacheMask.testBit 5 = false then 15
  else colorMask (bitSelect (r.immS 5) 28 4)

/-- What `ip_load_immediate` writes into `rs` for a state. -/
def value : RenderState → ℕ
  | .pointSize => floatBits (bitSelect (r.immS 4) 23 9)
  | .shadeMode => if (r.immS 4).testBit 15 then 1 else 2
  | .cullMode => bitSelect (r.immS 4) 13 2
  | .pointSpriteEnable => bitSelect (r.immS 4) 1 1
  | .antialiasedLineEnable => bitSelect (r.immS 4) 0 1
  | .ditherEnable => bitSelect (r.immS 5) 1 1
  | .lastPixel => bitSelect (r.immS 5) 26 1
  | .fogEnable => bitSelect (r.immS 5) 24 1
  | .stencilRef => bitSelect (r.immS 5) 16 8
  | .stencilFunc =>
    if bitSelect (r.immS 5) 2 1 ≠ 0 then xlateCompareFunc (bitSelect (r.immS 5) 13 3) else 8
  | .stencilFail => xlateStencilOp (bitSelect (r.immS 5) 10 3)
  | .stencilZFail => xlateStencilOp (bitSelect (r.immS 5) 7 3)
  | .stencilPass => xlateStencilOp (bitSelect (r.immS 5) 4 3)
  | .stencilEnable => bitSelect (r.immS 5) 3 1
  | .colorWriteEnable => r.calcColorWriteEnable
  | .blendEnable => bitSelect (r.immS 6) 15 1
  | .blendEquation => bitSelect (r.immS 6) 12 3 + 1
  | .srcBlend => bitSelect (r.immS 6) 8 4
  | .dstBlend => bitSelect (r.immS 6) 4 4
  | .alphaTestEnable => bitSelect (r.immS 6) 31 1
  | .alphaFunc => xlateCompareFunc (bitSelect (r.immS 6) 28 3)
  | .alphaRef => bitSelect (r.immS 6) 20 8
  | .zEnable => bitSelect (r.immS 6) 19 1
  | .zFunc => xlateCompareFunc (bitSelect (r.immS 6) 16 3)
  | .zWriteEnable => bitSelect (r.immS 6) 3 1
  -- the bits of S7 are a `float`, and those of `0.0F` are 0
  | .depthBias =>
    if r.paramCacheMask.testBit 5 ∧ bitSelect (r.immS 5) 25 1 ≠ 0 then r.immS 7 else 0

/-- The register is cached. -/
def isCached (i : ℕ) : Bool := r.paramCacheMask.testBit i

/-- A field of S5, 0 while S5 is not cached. -/
def s5 (start width : ℕ) : ℕ := if r.isCached 5 then bitSelect (r.immS 5) start width else 0

/-- A state reads no register after its own. -/
theorem value_congr {r r' : Regs} {n : RenderState} (himm : ∀ j ≤ n.reg, r.immS j = r'.immS j)
    (hcached : 5 < n.reg → r.isCached 5 = r'.isCached 5) : r.value n = r'.value n := by
  have hown := himm n.reg le_rfl
  cases n
  case colorWriteEnable =>
    have h5 := himm 5 (by decide)
    have h6 := himm 6 (by decide)
    have hc := hcached (by decide)
    simp only [isCached] at hc
    simp only [value, calcColorWriteEnable, h5, h6, hc]
  case depthBias =>
    have h5 := himm 5 (by decide)
    have h7 := himm 7 (by decide)
    have hc := hcached (by decide)
    simp only [isCached] at hc
    simp only [value, h5, h7, hc]
  all_goals
    simp only [RenderState.reg] at hown
    simp only [value, hown]

end Regs

/-! ### Loading -/

/-- The registers and the render states of the device. -/
structure Context where
  regs : Regs
  device : RenderState → ℕ

namespace Context

variable (s : Context)

/-- `setRenderState` for the states of a register. -/
def send (i : ℕ) : Context :=
  { s with
    device := (RenderState.ofReg i).foldl (fun d n => Function.update d n (s.regs.value n))
      s.device }

/-- One register of the mask. -/
def load (i value : ℕ) : Context :=
  if 4 ≤ i ∧ s.regs.isCached i ∧ s.regs.immS i = value then s
  else send { s with regs := s.regs.loadImm i value } i

/-- `ip_load_immediate`, with the loop of `loadLoop`. -/
def loadLoop (w : ℕ → ℕ) (limit : ℕ) : ℕ → ℕ → ℕ → ℕ → Context → Context
  | 0, _, _, _, s => s
  | n + 1, i, mask, q, s =>
    if q < limit then
      if mask % 2 = 1 then loadLoop w limit n (i + 1) (mask / 2) (q + 1) (s.load i (w q))
      else loadLoop w limit n (i + 1) (mask / 2) q s
    else s

def ipLoadImmediate (w : ℕ → ℕ) : Context :=
  loadLoop w (w 0 % 2 ^ 4 + 2) 8 0 (bitSelect (w 0) 4 8) 1 s

def discardCachedState : Context := { s with regs := { s.regs with paramCacheMask := 0 } }

/-- A sequence of commands. -/
def run (ws : List (ℕ → ℕ)) : Context := ws.foldl ipLoadImmediate s

variable {s} {w : ℕ → ℕ} {limit n i mask q v : ℕ}

theorem load_regs : (s.load i v).regs = s.regs.loadImm i v := by
  unfold load
  split_ifs with h
  · rw [Regs.loadImm, if_pos h.1]
    exact (if_pos h.2).symm
  · rfl

/-- The registers are those that the decoder leaves. -/
theorem loadLoop_regs : (loadLoop w limit n i mask q s).regs =
    (IPP.loadLoop w limit n i mask q s.regs).2 := by
  induction n generalizing i mask q s with
  | zero => rfl
  | succ n ih =>
    rw [loadLoop, IPP.loadLoop]
    split_ifs
    · rw [ih, load_regs]
    · exact ih
    · rfl

theorem ipLoadImmediate_regs : (s.ipLoadImmediate w).regs = (IPP.ipLoadImmediate w s.regs).regs :=
  loadLoop_regs

/-! ### The operands of a command -/

/-- The dword for bit `k` of the mask, where the command has it. -/
def operandFrom (w : ℕ → ℕ) (limit : ℕ) : (mask q k : ℕ) → Option ℕ
  | mask, q, 0 => if q < limit ∧ mask % 2 = 1 then some (w q) else none
  | mask, q, k + 1 => if q < limit then operandFrom w limit (mask / 2) (q + mask % 2) k else none

/-- The value that a command has for register `i`. -/
def operand (w : ℕ → ℕ) (i : ℕ) : Option ℕ :=
  operandFrom w (w 0 % 2 ^ 4 + 2) (bitSelect (w 0) 4 8) 1 i

def loadOpt (s : Context) (i : ℕ) : Option ℕ → Context
  | none => s
  | some v => s.load i v

theorem loadLoop_eq : loadLoop w limit n i mask q s =
    (List.range n).foldl (fun s k => s.loadOpt (i + k) (operandFrom w limit mask q k)) s := by
  induction n generalizing i mask q s with
  | zero => rfl
  | succ n ih =>
    rw [List.range_succ_eq_map, List.foldl_cons, List.foldl_map, loadLoop]
    by_cases hq : q < limit
    · have hrest : ∀ k, operandFrom w limit mask q (k + 1) =
          operandFrom w limit (mask / 2) (q + mask % 2) k := fun k => if_pos hq
      simp only [hrest, Nat.succ_eq_add_one, Nat.add_zero, if_pos hq]
      rcases Nat.mod_two_eq_zero_or_one mask with h0 | h1
      · rw [if_neg (by omega), ih, h0]
        simp only [operandFrom, h0, Nat.zero_ne_one, and_false, if_false, loadOpt, Nat.add_assoc,
          Nat.add_comm 1, Nat.add_zero]
      · rw [if_pos h1, ih, h1]
        simp only [operandFrom, h1, hq, and_self, if_true, loadOpt, Nat.add_assoc, Nat.add_comm 1]
    · have hnone : ∀ k, operandFrom w limit mask q k = none := by
        intro k
        cases k with
        | zero => exact if_neg fun h => hq h.1
        | succ k => exact if_neg hq
      simp only [if_neg hq, hnone, loadOpt, List.foldl_fixed]

theorem ipLoadImmediate_eq : s.ipLoadImmediate w =
    (List.range 8).foldl (fun s k => s.loadOpt k (operand w k)) s := by
  rw [ipLoadImmediate, loadLoop_eq]
  simp only [Nat.zero_add, operand]

/-! ### What a command does -/

/-- The command gives the register a new value, so that its states are sent. -/
def Changes (s : Context) (w : ℕ → ℕ) (i : ℕ) : Prop :=
  ∃ v, operand w i = some v ∧ ¬ (s.regs.isCached i ∧ s.regs.immS i = v)

theorem send_device (s : Context) (i : ℕ) (n : RenderState) :
    (s.send i).device n = if n.reg = i then s.regs.value n else s.device n := by
  have hfold : ∀ (l : List RenderState) (d : RenderState → ℕ),
      l.foldl (fun d n => Function.update d n (s.regs.value n)) d n =
        if n ∈ l then s.regs.value n else d n := by
    intro l
    induction l with
    | nil => simp
    | cons a l ih =>
      intro d
      rw [List.foldl_cons, ih]
      by_cases ha : n = a
      · subst ha
        simp
      · simp [ha]
  simp only [send, hfold, RenderState.mem_ofReg]

theorem loadImm_immS (r : Regs) (i v : ℕ) : (r.loadImm i v).immS = Function.update r.immS i v := by
  unfold Regs.loadImm
  split_ifs with _ hsame
  · rw [← hsame.2, Function.update_eq_self]
  · rfl
  · rfl

theorem loadImm_isCached (r : Regs) (i v j : ℕ) :
    (r.loadImm i v).isCached j = (r.isCached j || decide (4 ≤ i ∧ j = i)) := by
  unfold Regs.loadImm Regs.isCached
  split_ifs with h4 hsame
  · by_cases hj : j = i
    · rw [hj, hsame.1, Bool.true_or]
    · simp [hj]
  · simp only [Nat.testBit_or, Nat.one_shiftLeft, Nat.testBit_two_pow, h4, true_and, eq_comm]
  · simp [h4]

/-- The context after the registers below `k`. -/
structure Loaded (s : Context) (w : ℕ → ℕ) (k : ℕ) (t : Context) : Prop where
  imm : ∀ j, t.regs.immS j = if j < k then (operand w j).getD (s.regs.immS j) else s.regs.immS j
  cached : ∀ j, 4 ≤ j → (t.regs.isCached j = true ↔
    s.regs.isCached j = true ∨ j < k ∧ (operand w j).isSome)
  sent : ∀ n, n.reg < k → Changes s w n.reg → t.device n = t.regs.value n
  kept : ∀ n, ¬ (n.reg < k ∧ Changes s w n.reg) → t.device n = s.device n

variable {t : Context} {k : ℕ}

theorem loaded_zero : Loaded s w 0 s :=
  ⟨fun _ => rfl, fun _ _ => by simp, fun _ h => absurd h (Nat.not_lt_zero _), fun _ _ => rfl⟩

theorem loadOpt_immS (o : Option ℕ) (j : ℕ) : (t.loadOpt k o).regs.immS j =
    if j = k then o.getD (t.regs.immS j) else t.regs.immS j := by
  cases o with
  | none => exact (ite_self _).symm
  | some v => rw [loadOpt, load_regs, loadImm_immS, Function.update_apply, Option.getD_some]

theorem loadOpt_isCached (o : Option ℕ) {j : ℕ} (hj : 4 ≤ j) :
    (t.loadOpt k o).regs.isCached j = true ↔ t.regs.isCached j = true ∨ j = k ∧ o.isSome := by
  cases o with
  | none => simp [loadOpt]
  | some v =>
    rw [loadOpt, load_regs, loadImm_isCached, Bool.or_eq_true, decide_eq_true_iff]
    exact or_congr_right ⟨fun hk => ⟨hk.2, rfl⟩, fun hk => ⟨hk.1 ▸ hj, hk.1⟩⟩

/-- The states of a register that the command changes are sent with their new values. -/
theorem loadOpt_sent {n : RenderState} (hk : n.reg = k) (hc : Changes t w k) :
    (t.loadOpt k (operand w k)).device n = (t.loadOpt k (operand w k)).regs.value n := by
  obtain ⟨v, hv, hnew⟩ := hc
  rw [hv, loadOpt, Context.load, if_neg fun hsame => hnew hsame.2, send_device, if_pos hk]
  rfl

theorem loadOpt_kept {n : RenderState} (hn : ¬ (n.reg = k ∧ Changes t w k)) :
    (t.loadOpt k (operand w k)).device n = t.device n := by
  cases hv : operand w k with
  | none => rfl
  | some v =>
    rw [loadOpt, Context.load]
    split_ifs with hsame
    · rfl
    · rw [send_device, if_neg fun hk => hn ⟨hk, v, hv, fun h => hsame ⟨hk ▸ n.reg_mem.1, h⟩⟩]

/-- The registers before it do not matter to whether a register changes. -/
theorem Loaded.changes_iff (h : Loaded s w k t) (hk : 4 ≤ k) : Changes t w k ↔ Changes s w k := by
  have himm : t.regs.immS k = s.regs.immS k := (h.imm k).trans (if_neg (lt_irrefl k))
  have hcached : t.regs.isCached k = true ↔ s.regs.isCached k = true := by
    rw [h.cached k hk]
    exact or_iff_left fun hlt => lt_irrefl k hlt.1
  simp only [Changes, himm, hcached]

theorem Loaded.succ (h : Loaded s w k t) : Loaded s w (k + 1) (t.loadOpt k (operand w k)) := by
  have hiff : ∀ {n : RenderState}, n.reg = k → (Changes t w k ↔ Changes s w k) :=
    fun {n} hk => h.changes_iff (hk ▸ n.reg_mem.1)
  refine ⟨fun j => ?_, fun j hj => ?_, fun n hn hc => ?_, fun n hn => ?_⟩
  · rw [loadOpt_immS, h.imm]
    rcases Nat.lt_trichotomy j k with hlt | rfl | hgt
    · rw [if_neg (by omega), if_pos hlt, if_pos (by omega)]
    · rw [if_pos rfl, if_neg (lt_irrefl _), if_pos (Nat.lt_succ_self _)]
    · rw [if_neg (by omega), if_neg (by omega), if_neg (by omega)]
  · rw [loadOpt_isCached _ hj, h.cached j hj, or_assoc]
    refine or_congr_right ?_
    rw [Nat.lt_succ_iff_lt_or_eq, or_and_right]
    exact or_congr_right (and_congr_right fun hjk => by rw [hjk])
  · rcases Nat.lt_succ_iff_lt_or_eq.mp hn with hlt | rfl
    · -- the state was sent earlier, and what it reads has its final value
      rw [loadOpt_kept fun hk => hlt.ne hk.1, h.sent n hlt hc]
      refine Regs.value_congr (fun j hj => ?_) fun h5 => Bool.eq_iff_iff.mpr ?_
      · rw [loadOpt_immS, if_neg (by omega)]
      · rw [loadOpt_isCached _ (by decide)]
        exact (or_iff_left fun hk => by omega).symm
    · exact loadOpt_sent rfl ((hiff rfl).mpr hc)
  · rw [loadOpt_kept fun hk => hn ⟨by omega, hk.1 ▸ (hiff hk.1).mp hk.2⟩]
    exact h.kept n fun hc => hn ⟨by omega, hc.2⟩

theorem loaded_ipLoadImmediate : Loaded s w 8 (s.ipLoadImmediate w) := by
  rw [ipLoadImmediate_eq]
  generalize 8 = k
  induction k with
  | zero => exact loaded_zero
  | succ k ih =>
    rw [List.range_succ, List.foldl_append, List.foldl_cons, List.foldl_nil]
    exact ih.succ

/-! ### Coherence -/

/-- Every state of a register that is cached has the value that the cached registers give. -/
def Coherent (s : Context) : Prop :=
  ∀ n : RenderState, s.regs.isCached n.reg = true → s.device n = s.regs.value n

/-- A command keeps what S6 and S7 were sent with: it changes the write-disable bits of S5 only
together with S6, and the global depth offset bit only together with S7, unless the state does
not depend on them. -/
structure Keeps (s : Context) (w : ℕ → ℕ) : Prop where
  color : s.regs.isCached 6 = true → bitSelect (s.regs.immS 6) 2 1 ≠ 0 → ¬ Changes s w 6 →
    ∀ v, operand w 5 = some v → bitSelect v 28 4 = s.regs.s5 28 4
  bias : s.regs.isCached 7 = true → s.regs.immS 7 ≠ 0 → ¬ Changes s w 7 →
    ∀ v, operand w 5 = some v → bitSelect v 25 1 = s.regs.s5 25 1

theorem calcColorWriteEnable_eq (r : Regs) : r.calcColorWriteEnable =
    if bitSelect (r.immS 6) 2 1 = 0 then 0 else colorMask (r.s5 28 4) := by
  have hnone : colorMask 0 = 15 := by decide
  unfold Regs.calcColorWriteEnable Regs.s5 Regs.isCached
  cases r.paramCacheMask.testBit 5 with
  | false => simp only [if_true, Bool.false_eq_true, if_false, hnone]
  | true => simp only [Bool.true_eq_false, if_true, if_false]

theorem depthBias_eq (r : Regs) :
    r.value .depthBias = if r.s5 25 1 = 0 then 0 else r.immS 7 := by
  unfold Regs.value Regs.s5 Regs.isCached
  cases r.paramCacheMask.testBit 5 with
  | false => rfl
  | true =>
    simp only [true_and, if_true, ne_eq, ite_not]

theorem colorMask_inj : ∀ a < 16, ∀ b < 16, colorMask a = colorMask b → a = b := by
  decide +kernel

theorem s5_lt (r : Regs) (start width : ℕ) : r.s5 start width < 2 ^ width := by
  unfold Regs.s5 bitSelect
  split_ifs
  · exact Nat.mod_lt _ (Nat.two_pow_pos width)
  · exact Nat.two_pow_pos width

/-- A state that reads its own register alone. -/
theorem value_of_own {r r' : Regs} {n : RenderState} (hcolor : n ≠ .colorWriteEnable)
    (hbias : n ≠ .depthBias) (himm : r.immS n.reg = r'.immS n.reg) : r.value n = r'.value n := by
  cases n
  case colorWriteEnable => exact absurd rfl hcolor
  case depthBias => exact absurd rfl hbias
  all_goals
    simp only [RenderState.reg] at himm
    simp only [Regs.value, himm]

theorem Loaded.s5_eq (h : Loaded s w 8 t) (start width : ℕ) : t.regs.s5 start width =
    (operand w 5).elim (s.regs.s5 start width) (bitSelect · start width) := by
  have himm := h.imm 5
  have hcached := h.cached 5 (by decide)
  unfold Regs.s5
  cases hv : operand w 5 with
  | none =>
    simp only [hv, Option.isSome_none, Bool.false_eq_true, and_false, or_false] at hcached
    rw [hv, Option.getD_none, ite_self] at himm
    simp only [hcached, himm, Option.elim_none]
  | some v =>
    simp only [hv, Option.isSome_some] at hcached
    rw [hv, Option.getD_some, if_pos (by decide)] at himm
    rw [if_pos (hcached.mpr (.inr ⟨by decide, trivial⟩)), himm, Option.elim_some]

/-- A register that the command does not change keeps its value, and was cached if it is. -/
theorem Loaded.stays (h : Loaded s w 8 t) {i : ℕ} (hi : 4 ≤ i) (hi8 : i < 8)
    (hc : ¬ Changes s w i) (hcached : t.regs.isCached i = true) :
    s.regs.isCached i = true ∧ t.regs.immS i = s.regs.immS i := by
  have himm := h.imm i
  rw [if_pos hi8] at himm
  cases hv : operand w i with
  | none =>
    rw [h.cached i hi, hv] at hcached
    rw [hv] at himm
    exact ⟨by simpa using hcached, himm⟩
  | some v =>
    have hsame : s.regs.isCached i = true ∧ s.regs.immS i = v := by
      by_contra hne
      exact hc ⟨v, hv, hne⟩
    rw [hv, Option.getD_some] at himm
    exact ⟨hsame.1, himm.trans hsame.2.symm⟩

/-- Coherence after a command is a matter of the states that it does not send. -/
theorem Coherent.iff_kept (hs : Coherent s) (h : Loaded s w 8 t) :
    Coherent t ↔ ∀ n : RenderState, s.regs.isCached n.reg = true → ¬ Changes s w n.reg →
      s.regs.value n = t.regs.value n := by
  constructor
  · intro ht n hcached hc
    rw [← hs n hcached, ← ht n ((h.cached _ n.reg_mem.1).mpr (.inl hcached)),
      h.kept n fun hk => hc hk.2]
  · intro hkept n hcached
    by_cases hc : Changes s w n.reg
    · exact h.sent n n.reg_mem.2 hc
    · have hstays := h.stays n.reg_mem.1 n.reg_mem.2 hc hcached
      rw [h.kept n fun hk => hc hk.2, hs n hstays.1, hkept n hstays.1 hc]

theorem Loaded.color_iff (h : Loaded s w 8 t) (himm : t.regs.immS 6 = s.regs.immS 6) :
    s.regs.value .colorWriteEnable = t.regs.value .colorWriteEnable ↔
      (bitSelect (s.regs.immS 6) 2 1 ≠ 0 →
        ∀ v, operand w 5 = some v → bitSelect v 28 4 = s.regs.s5 28 4) := by
  simp only [Regs.value]
  rw [calcColorWriteEnable_eq, calcColorWriteEnable_eq, himm, h.s5_eq]
  by_cases hbit : bitSelect (s.regs.immS 6) 2 1 = 0
  · simp [hbit]
  rw [if_neg hbit, if_neg hbit]
  cases operand w 5 with
  | none => simp
  | some v =>
    have hinj := colorMask_inj _ (s5_lt s.regs 28 4) (bitSelect v 28 4) (Nat.mod_lt _ (by decide))
    simp only [ne_eq, hbit, not_false_eq_true, forall_const, Option.some.injEq, forall_eq',
      Option.elim_some]
    exact ⟨fun hvalue => (hinj hvalue).symm, fun hsame => by rw [hsame]⟩

theorem Loaded.bias_iff (h : Loaded s w 8 t) (himm : t.regs.immS 7 = s.regs.immS 7) :
    s.regs.value .depthBias = t.regs.value .depthBias ↔
      (s.regs.immS 7 ≠ 0 →
        ∀ v, operand w 5 = some v → bitSelect v 25 1 = s.regs.s5 25 1) := by
  rw [depthBias_eq, depthBias_eq, himm, h.s5_eq]
  by_cases hzero : s.regs.immS 7 = 0
  · simp [hzero]
  cases operand w 5 with
  | none =>
    rw [Option.elim_none]
    simp
  | some v =>
    have hold := s5_lt s.regs 25 1
    have hnew : bitSelect v 25 1 < 2 ^ 1 := Nat.mod_lt _ (by decide)
    rw [Option.elim_some]
    simp only [ne_eq, hzero, not_false_eq_true, forall_const, Option.some.injEq, forall_eq']
    split_ifs <;> omega

theorem Coherent.iff_keeps (hs : Coherent s) : Coherent (s.ipLoadImmediate w) ↔ Keeps s w := by
  have h : Loaded s w 8 (s.ipLoadImmediate w) := loaded_ipLoadImmediate
  rw [hs.iff_kept h]
  generalize s.ipLoadImmediate w = t at h
  have hstays : ∀ i, 4 ≤ i → i < 8 → s.regs.isCached i = true → ¬ Changes s w i →
      t.regs.immS i = s.regs.immS i := fun i hi hi8 hcached hc =>
    (h.stays hi hi8 hc ((h.cached i hi).mpr (.inl hcached))).2
  have h6 := hstays 6 (by decide) (by decide)
  have h7 := hstays 7 (by decide) (by decide)
  constructor
  · intro hkept
    refine ⟨fun hcached hbit hc => ?_, fun hcached hne hc => ?_⟩
    · exact (h.color_iff (h6 hcached hc)).mp (hkept .colorWriteEnable hcached hc) hbit
    · exact (h.bias_iff (h7 hcached hc)).mp (hkept .depthBias hcached hc) hne
  · intro hkeeps n hcached hc
    by_cases hcolor : n = .colorWriteEnable
    · subst hcolor
      exact (h.color_iff (h6 hcached hc)).mpr fun hbit => hkeeps.color hcached hbit hc
    by_cases hbias : n = .depthBias
    · subst hbias
      exact (h.bias_iff (h7 hcached hc)).mpr fun hne => hkeeps.bias hcached hne hc
    · exact value_of_own hcolor hbias (hstays _ n.reg_mem.1 n.reg_mem.2 hcached hc).symm

theorem coherent_discardCachedState : Coherent s.discardCachedState := by
  intro n hcached
  simp [discardCachedState, Regs.isCached] at hcached

theorem run_concat (s : Context) (ws : List (ℕ → ℕ)) (w : ℕ → ℕ) :
    s.run (ws ++ [w]) = (s.run ws).ipLoadImmediate w := by
  rw [run, run, List.foldl_append, List.foldl_cons, List.foldl_nil]

end Context

open Context

/-- Since the cache was discarded, the device agrees with the registers after every command
exactly if every command keeps what S6 and S7 were sent with. -/
theorem coherent_iff_keeps (s : Context) (ws : List (ℕ → ℕ)) :
    (∀ done, done <+: ws → Coherent (s.discardCachedState.run done)) ↔
      ∀ done w, done ++ [w] <+: ws → Keeps (s.discardCachedState.run done) w := by
  constructor
  · intro hall done w hpre
    have hafter := hall _ hpre
    rw [run_concat] at hafter
    exact (hall done ((List.prefix_append done [w]).trans hpre)).iff_keeps.mp hafter
  · intro hkeeps done hpre
    induction done using List.reverseRecOn with
    | nil => exact coherent_discardCachedState
    | append_singleton done w ih =>
      rw [run_concat]
      exact (ih ((List.prefix_append done [w]).trans hpre)).iff_keeps.mpr (hkeeps done w hpre)

/-! ### S5 last -/

/-- `LOAD_STATE_IMMEDIATE_1` for one register. -/
def loadOne (i v : ℕ) : ℕ → ℕ
  | 0 => 0x7D040000 + 2 ^ (4 + i)
  | _ => v

def blank : Context := ⟨⟨fun _ => 0, 0, ⟨0, 0, 0, 0⟩⟩, fun _ => 0⟩

/-- S5 after S6 and S7: colours that S5 disables stay enabled, and the depth offset that it
enables is not applied. -/
theorem not_coherent_late_s5 :
    let s := blank.discardCachedState.run [loadOne 6 4, loadOne 7 0x3F800000, loadOne 5 0x12000000]
    s.device .colorWriteEnable = 15 ∧ s.regs.calcColorWriteEnable = 11 ∧
      s.device .depthBias = 0 ∧ s.regs.value .depthBias = 0x3F800000 ∧ ¬ Coherent s := by
  intro s
  have hcolor : s.device .colorWriteEnable = 15 := by decide +kernel
  have hvalue : s.regs.calcColorWriteEnable = 11 := by decide +kernel
  refine ⟨hcolor, hvalue, by decide +kernel, by decide +kernel, fun hs => ?_⟩
  have hsame := hs .colorWriteEnable (by decide +kernel)
  rw [hcolor, Regs.value, hvalue] at hsame
  cases hsame

end Cesvga2.IPP
