import Cesvga2.IPP.Bind
import Cesvga2.IPP.TexCoords
import Cesvga2.Runs.Prefix

/-! The samplers that are bound, as the pipeline processor keeps them in a mask of 16 bits beside
the stages of the device. A command for the samplers of a mask first lets go of all others. -/

namespace Cesvga2.IPP

/-- `bound_samplers` and what else a command changes, with the surface that the device has bound at
each of its stages. -/
structure Stages where
  bound : BitVec 16
  samplers : Samplers
  device : ℕ → ℕ

/-- Which of the texture-state commands of a call the FIFO accepts. -/
structure Accepts where
  unbind : Bool
  stage : ℕ → Bool

def set4bits64 (v : BitVec 64) (i n : ℕ) : BitVec 64 :=
  (v &&& ~~~(0xF#64 <<< (i % 16 * 4))) ||| BitVec.ofNat 64 (n % 16) <<< (i % 16 * 4)

/-- The loop `for (i = 0; mask; ++i, mask >>= 1)` over the bits of a mask. -/
def setBits : (n i : ℕ) → BitVec 16 → List ℕ
  | 0, _, _ => []
  | n + 1, i, mask =>
    if mask = 0 then []
    else if mask.getLsbD 0 then i :: setBits n (i + 1) (mask >>> 1)
    else setBits n (i + 1) (mask >>> 1)

/-- The bit of a stage is set or cleared. -/
def setBit (v : BitVec 16) (i : ℕ) (b : Bool) : BitVec 16 :=
  if b then v ||| 1#16 <<< i else v &&& ~~~(1#16 <<< i)

/-- `__builtin_popcount`. -/
def popcount (mask : BitVec 16) : ℕ := (List.range 16).countP mask.getLsbD

namespace Stages

/-- `unbind_samplers`. -/
def unbindSamplers (accepts : Bool) (mask : BitVec 16) (s : Stages) : Stages :=
  let mask := mask &&& s.bound
  if mask = 0 then s
  else if popcount mask = 0 ∨ 16 < popcount mask then s
  else if accepts then
    { s with
      bound := s.bound ^^^ mask
      device := (setBits 16 0 mask).foldl (fun d i => Function.update d i idInvalid) s.device }
  else s

/-- One sampler of a command, with its three dwords from `q` on. -/
def setStage (ids : ℕ → ℕ) (w : ℕ → ℕ) (accepts : Bool) (i q : ℕ) (s : Stages) : Stages :=
  let tmi := bitSelect (w (q + 1)) 1 4
  { bound := setBit s.bound i (isIdValid (ids tmi))
    samplers := { s.samplers with
      nonnormalized := setBit s.samplers.nonnormalized i (!(w (q + 1)).testBit 5)
      s2tMap := set4bits64 s.samplers.s2tMap i tmi }
    device := if accepts then Function.update s.device i (ids tmi) else s.device }

/-- The samplers of the mask from sampler `i` on. -/
def stageLoop (ids : ℕ → ℕ) (w : ℕ → ℕ) (accepts : ℕ → Bool) :
    (n i : ℕ) → BitVec 16 → ℕ → Stages → Stages
  | 0, _, _, _, s => s
  | n + 1, i, mask, q, s =>
    if mask = 0 then s
    else if mask.getLsbD 0 then
      stageLoop ids w accepts n (i + 1) (mask >>> 1) (q + 3) (s.setStage ids w (accepts i) i q)
    else stageLoop ids w accepts n (i + 1) (mask >>> 1) q s

/-- `ip_3d_sampler_state` with the surface ids that are cached. -/
def samplerState (ids : ℕ → ℕ) (w : ℕ → ℕ) (accepts : Accepts) (s : Stages) : Stages :=
  let mask := BitVec.ofNat 16 (w 1)
  let s := s.unbindSamplers accepts.unbind (~~~mask)
  stageLoop ids w accepts.stage 16 0 mask 2
    { s with samplers := { s.samplers with nonnormalized := s.samplers.nonnormalized &&& mask } }

end Stages

/-! ### Bits -/

section Bits

variable {v mask : BitVec 16} {i k n : ℕ} {b : Bool}

theorem getLsbD_setBit (hi : i < 16) :
    (setBit v i b).getLsbD k = if k = i then b else v.getLsbD k := by
  unfold setBit
  rw [← BitVec.twoPow_eq]
  by_cases hk : k = i
  · cases b <;> simp [hk, hi]
  · cases hv : v.getLsbD k with
    | false => cases b <;> simp [Ne.symm hk, hk, hv]
    | true =>
      have hlt : k < 16 := BitVec.lt_of_getLsbD hv
      cases b <;> simp [hk, hv, hlt]

theorem mem_setBits : k ∈ setBits n i mask ↔ i ≤ k ∧ k < i + n ∧ mask.getLsbD (k - i) = true := by
  induction n generalizing i mask with
  | zero =>
    simp only [setBits, List.not_mem_nil, false_iff]
    omega
  | succ n ih =>
    have hrest : k ∈ setBits n (i + 1) (mask >>> 1) ↔
        i + 1 ≤ k ∧ k < i + (n + 1) ∧ mask.getLsbD (k - i) = true := by
      rw [ih, BitVec.getLsbD_ushiftRight]
      constructor
      · rintro ⟨hle, hlt, hbit⟩
        rw [show 1 + (k - (i + 1)) = k - i by omega] at hbit
        exact ⟨hle, by omega, hbit⟩
      · rintro ⟨hle, hlt, hbit⟩
        rw [show 1 + (k - (i + 1)) = k - i by omega]
        exact ⟨hle, by omega, hbit⟩
    rw [setBits]
    split_ifs with hzero hbit
    · simp [hzero]
    · rw [List.mem_cons, hrest]
      constructor
      · rintro (rfl | ⟨hle, hlt⟩)
        · exact ⟨le_rfl, by omega, by rwa [Nat.sub_self]⟩
        · exact ⟨by omega, hlt⟩
      · rintro ⟨hle, hlt⟩
        rcases hle.eq_or_lt with rfl | hgt
        · exact .inl rfl
        · exact .inr ⟨hgt, hlt⟩
    · rw [hrest]
      constructor
      · rintro ⟨hle, hlt⟩
        exact ⟨by omega, hlt⟩
      · rintro ⟨hle, hlt, hk⟩
        rcases hle.eq_or_lt with rfl | hgt
        · rw [Nat.sub_self] at hk
          exact absurd hk hbit
        · exact ⟨hgt, hlt, hk⟩

theorem mem_setBits_all : k ∈ setBits 16 0 mask ↔ mask.getLsbD k = true := by
  rw [mem_setBits, Nat.sub_zero, Nat.zero_add, and_iff_right (Nat.zero_le k)]
  exact and_iff_right_of_imp BitVec.lt_of_getLsbD

/-- A mask that is not zero has from 1 to 16 bits. -/
theorem popcount_bounds (h : mask ≠ 0) : ¬ (popcount mask = 0 ∨ 16 < popcount mask) := by
  rintro (hzero | hlarge)
  · refine h (BitVec.eq_of_getLsbD_eq fun k hk => ?_)
    have hbit := List.countP_eq_zero.mp hzero k (List.mem_range.mpr hk)
    simpa using hbit
  · have hle : popcount mask ≤ 16 := List.countP_le_length.trans_eq List.length_range
    omega

theorem foldl_update_const {ks : List ℕ} {d : ℕ → ℕ} {x : ℕ} :
    ks.foldl (fun d i => Function.update d i x) d k = if k ∈ ks then x else d k := by
  induction ks generalizing d with
  | nil => simp
  | cons j ks ih =>
    rw [List.foldl_cons, ih]
    by_cases hj : k = j
    · simp [hj]
    · simp [hj]

end Bits

/-! ### The mask and the device -/

namespace Stages

variable {s : Stages} {ids w : ℕ → ℕ} {mask : BitVec 16} {i k n q : ℕ} {accepts : ℕ → Bool}

/-- The mask has the bits of the stages at which the device has a surface. -/
def Mirrors (s : Stages) : Prop := ∀ i, s.bound.getLsbD i = isIdValid (s.device i)

/-- With the FIFO's consent the samplers of the mask are let go, on both sides. -/
theorem unbindSamplers_eq : s.unbindSamplers true mask =
    { s with
      bound := s.bound ^^^ (mask &&& s.bound)
      device := fun k => if (mask &&& s.bound).getLsbD k then idInvalid else s.device k } := by
  unfold Stages.unbindSamplers
  dsimp only
  by_cases hzero : mask &&& s.bound = 0
  · simp [hzero]
  · rw [if_neg hzero, if_neg (popcount_bounds hzero), if_pos rfl]
    congr 1
    funext k
    simp only [foldl_update_const, mem_setBits_all]

theorem bound_unbindSamplers :
    (s.unbindSamplers true mask).bound.getLsbD k = (s.bound.getLsbD k && !mask.getLsbD k) := by
  rw [unbindSamplers_eq, BitVec.getLsbD_xor, BitVec.getLsbD_and]
  cases s.bound.getLsbD k <;> cases mask.getLsbD k <;> rfl

theorem Mirrors.unbindSamplers (h : s.Mirrors) : (s.unbindSamplers true mask).Mirrors := by
  intro k
  rw [bound_unbindSamplers, unbindSamplers_eq]
  dsimp only
  rw [BitVec.getLsbD_and]
  cases hm : mask.getLsbD k with
  | false => simpa using h k
  | true =>
    cases hb : s.bound.getLsbD k with
    | false => simpa [hb] using h k
    | true => simp [isIdValid_idInvalid]

theorem Mirrors.setStage (h : s.Mirrors) (hi : i < 16) : (s.setStage ids w true i q).Mirrors := by
  intro k
  simp only [Stages.setStage, getLsbD_setBit hi, if_true, Function.update_apply]
  split_ifs
  · rfl
  · exact h k

theorem Mirrors.stageLoop (h : s.Mirrors) (hn : i + n ≤ 16) (haccepts : ∀ k, accepts k = true) :
    (s.stageLoop ids w accepts n i mask q).Mirrors := by
  induction n generalizing i mask q s with
  | zero => exact h
  | succ n ih =>
    rw [Stages.stageLoop]
    split_ifs
    · exact h
    · rw [haccepts]
      exact ih (h.setStage (by omega)) (by omega)
    · exact ih h (by omega)

/-- The loop leaves the stages outside the mask. -/
theorem device_stageLoop (h : k < i ∨ mask.getLsbD (k - i) = false) :
    (s.stageLoop ids w accepts n i mask q).device k = s.device k := by
  induction n generalizing i mask q s with
  | zero => rfl
  | succ n ih =>
    have hnext : k < i + 1 ∨ (mask >>> 1).getLsbD (k - (i + 1)) = false := by
      by_cases hk : k < i + 1
      · exact .inl hk
      · rw [BitVec.getLsbD_ushiftRight, show 1 + (k - (i + 1)) = k - i by omega]
        exact .inr (h.resolve_left (by omega))
    rw [Stages.stageLoop]
    split_ifs with hzero hbit
    · rfl
    · have hne : k ≠ i := by
        rintro rfl
        rw [Nat.sub_self, hbit] at h
        simp at h
      rw [ih hnext]
      unfold Stages.setStage
      dsimp only
      split_ifs
      · exact Function.update_of_ne hne _ _
      · rfl
    · exact ih hnext

theorem mirrors_samplers {samplers : Samplers} (h : s.Mirrors) :
    Mirrors { s with samplers := samplers } := h

theorem Mirrors.samplerState {accepts : Accepts} (h : s.Mirrors) (hunbind : accepts.unbind = true)
    (hstage : ∀ k, accepts.stage k = true) : (s.samplerState ids w accepts).Mirrors := by
  unfold Stages.samplerState
  rw [hunbind]
  exact (mirrors_samplers h.unbindSamplers).stageLoop le_rfl hstage

/-- No stage outside the mask of a command stays bound. -/
theorem Mirrors.unbound {accepts : Accepts} (h : s.Mirrors) (hunbind : accepts.unbind = true)
    (hk : (BitVec.ofNat 16 (w 1)).getLsbD k = false) :
    isIdValid ((s.samplerState ids w accepts).device k) = false := by
  unfold Stages.samplerState
  dsimp only
  rw [device_stageLoop (.inr hk), hunbind]
  have hmirrors : (s.unbindSamplers true (~~~BitVec.ofNat 16 (w 1))).Mirrors := h.unbindSamplers
  rw [← hmirrors k, bound_unbindSamplers, BitVec.getLsbD_not, hk]
  cases hb : s.bound.getLsbD k with
  | false => rfl
  | true =>
    have hlt : k < 16 := BitVec.lt_of_getLsbD hb
    simp [hlt]

/-! ### What is bound, as the whole processor has it -/

section Binder

variable {t : Binder} {e : Env}

/-- The device takes what is bound. -/
def bindStage (d : ℕ → ℕ) : Bind → ℕ → ℕ
  | .texture stage sid => Function.update d stage sid
  | .target _ _ => d

theorem samplerLoop_zero (w : ℕ → ℕ) (n i q : ℕ) : samplerLoop w n i 0 q = [] := by
  induction n generalizing i with
  | zero => rfl
  | succ n ih =>
    rw [samplerLoop, if_neg (by decide)]
    exact ih (i + 1)

/-- Only the bits of the samplers count. -/
theorem samplerLoop_mod (w : ℕ → ℕ) (n i m q : ℕ) :
    samplerLoop w n i (m % 2 ^ n) q = samplerLoop w n i m q := by
  induction n generalizing i m q with
  | zero => rfl
  | succ n ih =>
    have hbit : m % 2 ^ (n + 1) % 2 = m % 2 := Nat.mod_mod_of_dvd m (dvd_pow_self 2 n.succ_ne_zero)
    have hrest : m % 2 ^ (n + 1) / 2 = m / 2 % 2 ^ n := by
      rw [pow_succ', Nat.mod_mul_right_div_self]
    rw [samplerLoop, samplerLoop, hbit, hrest, ih, ih]

/-- The loop over a mask is a fold over the samplers that the mask selects. -/
theorem stageLoop_eq (s : Stages) (ids w : ℕ → ℕ) (mask : BitVec 16) (q : ℕ) (hn : i + n ≤ 16)
    (haccepts : ∀ k, accepts k = true) :
    (s.stageLoop ids w accepts n i mask q).bound.getLsbD =
        ((samplerLoop w n i mask.toNat q).map fun a => (a.1, ids a.2)).foldl
          (fun f a => Function.update f a.1 (isIdValid a.2)) s.bound.getLsbD ∧
      (s.stageLoop ids w accepts n i mask q).device =
        ((samplerLoop w n i mask.toNat q).map fun a => (a.1, ids a.2)).foldl
          (fun d a => Function.update d a.1 a.2) s.device := by
  induction n generalizing i mask q s with
  | zero => exact ⟨rfl, rfl⟩
  | succ n ih =>
    have hhalf : (mask >>> 1).toNat = mask.toNat / 2 := by
      rw [BitVec.toNat_ushiftRight, Nat.shiftRight_one]
    have hodd : mask.getLsbD 0 = true ↔ mask.toNat % 2 = 1 := by
      rw [BitVec.getLsbD, Nat.testBit_zero, decide_eq_true_eq]
    rw [Stages.stageLoop]
    split_ifs with hzero hbit
    · have hnone : samplerLoop w (n + 1) i mask.toNat q = [] := by
        rw [hzero]
        exact samplerLoop_zero w (n + 1) i q
      rw [hnone]
      exact ⟨rfl, rfl⟩
    · obtain ⟨hbound, hdevice⟩ := ih (s.setStage ids w (accepts i) i q) (mask >>> 1)
        (q + 3) (by omega : i + 1 + n ≤ 16)
      have hset : (s.setStage ids w (accepts i) i q).bound.getLsbD = Function.update
          s.bound.getLsbD i (isIdValid (ids (bitSelect (w (q + 1)) 1 4))) := by
        funext k
        rw [Function.update_apply]
        exact getLsbD_setBit (by omega)
      rw [samplerLoop, if_pos (hodd.mp hbit), hbound, hdevice, hhalf, hset, Stages.setStage,
        haccepts]
      exact ⟨rfl, rfl⟩
    · rw [samplerLoop, if_neg (fun h => hbit (hodd.mpr h)), ← hhalf]
      exact ih s (mask >>> 1) q (by omega)

theorem unbindSamplers_binder {f : ℕ → Bool} (he : e.lock3D = true)
    (hbound : t.boundSamplers = s.bound.getLsbD) (hf : ∀ k < 16, f k = mask.getLsbD k) :
    (t.unbindSamplers e f).1.boundSamplers = (s.unbindSamplers true mask).bound.getLsbD ∧
      (t.unbindSamplers e f).2.foldl bindStage s.device =
        (s.unbindSamplers true mask).device := by
  have hmem (k : ℕ) : (s.bound.getLsbD k && f k) = (mask &&& s.bound).getLsbD k := by
    rw [BitVec.getLsbD_and]
    cases hb : s.bound.getLsbD k with
    | false => rw [Bool.and_false, Bool.false_and]
    | true => rw [Bool.and_true, Bool.true_and, hf k (BitVec.lt_of_getLsbD hb)]
  unfold Binder.unbindSamplers
  rw [if_pos he, hbound]
  constructor
  · funext k
    rw [bound_unbindSamplers]
    dsimp only
    cases hb : s.bound.getLsbD k with
    | false => rfl
    | true => rw [hf k (BitVec.lt_of_getLsbD hb)]
  · funext k
    rw [unbindSamplers_eq, List.foldl_map]
    simp only [bindStage, foldl_update_const, List.mem_filter, List.mem_range, hmem]
    refine if_congr (and_iff_right_of_imp fun h => ?_) rfl rfl
    exact BitVec.lt_of_getLsbD h

/-- The mask and the device of a processor that is followed through all its commands. -/
theorem samplerState_binder {accepts : Accepts} (he : e.lock3D = true)
    (hunbind : accepts.unbind = true) (hstage : ∀ k, accepts.stage k = true)
    (hbound : t.boundSamplers = s.bound.getLsbD) :
    (t.samplerState e w).1.boundSamplers =
        (s.samplerState t.surfaceIds w accepts).bound.getLsbD ∧
      (t.samplerState e w).2.foldl bindStage s.device =
        (s.samplerState t.surfaceIds w accepts).device := by
  have hmask : samplerLoop w 16 0 (w 1) 2 =
      samplerLoop w 16 0 (BitVec.ofNat 16 (w 1)).toNat 2 := by
    rw [BitVec.toNat_ofNat, samplerLoop_mod]
  have hexcluded (k : ℕ) (hk : k < 16) :
      (!(w 1).testBit k) = (~~~BitVec.ofNat 16 (w 1)).getLsbD k := by
    rw [BitVec.getLsbD_not, BitVec.getLsbD_ofNat, decide_eq_true hk, Bool.true_and, Bool.true_and]
  obtain ⟨hrest, hunbound⟩ := unbindSamplers_binder he hbound hexcluded
  unfold Stages.samplerState Binder.samplerState
  rw [hunbind]
  dsimp only
  obtain ⟨hloop, hdevice⟩ := stageLoop_eq { s.unbindSamplers true (~~~BitVec.ofNat 16 (w 1)) with
    samplers := _ } t.surfaceIds w (BitVec.ofNat 16 (w 1)) 2 (le_refl (0 + 16)) hstage
  rw [hloop, hdevice, hrest, hmask, List.foldl_append, hunbound, List.foldl_map (g := bindStage)]
  exact ⟨rfl, rfl⟩

end Binder

/-! ### Sequences of calls -/

/-- The calls, each with the surface ids that `MAP_STATE` has cached by then. -/
inductive Call where
  | samplerState (ids w : ℕ → ℕ) (accepts : Accepts)
  | unbindSamplers (mask : BitVec 16) (accepts : Bool)

def exec (s : Stages) : Call → Stages
  | .samplerState ids w accepts => s.samplerState ids w accepts
  | .unbindSamplers mask accepts => s.unbindSamplers accepts mask

/-- The FIFO accepts every texture-state command. -/
def Call.Accepted : Call → Prop
  | .samplerState _ _ accepts => accepts.unbind = true ∧ ∀ k, accepts.stage k = true
  | .unbindSamplers _ accepts => accepts = true

/-- A command for samplers other than `k`. -/
def Call.Excludes (k : ℕ) : Call → Prop
  | .samplerState _ w _ => (BitVec.ofNat 16 (w 1)).getLsbD k = false
  | .unbindSamplers _ _ => False

/-- Nothing is bound. -/
structure Unbound (s : Stages) : Prop where
  bound : s.bound = 0
  device : ∀ k, isIdValid (s.device k) = false

theorem Unbound.mirrors (h : s.Unbound) : s.Mirrors := by
  intro k
  rw [h.bound, h.device]
  exact BitVec.getLsbD_zero

theorem Mirrors.exec {c : Call} (h : s.Mirrors) (hc : c.Accepted) : (s.exec c).Mirrors := by
  cases c with
  | samplerState ids w accepts => exact h.samplerState hc.1 hc.2
  | unbindSamplers mask accepts =>
    cases hc
    exact h.unbindSamplers

/-- Along every sequence of calls the mask mirrors the device, and a command leaves no stage bound
that is not in its mask. -/
theorem mirrors_calls (s : Stages) (calls : List Call) (hs : s.Unbound)
    (hcalls : ∀ c ∈ calls, c.Accepted) :
    Runs.Always exec Mirrors s calls ∧
      Runs.Each exec (fun s c => ∀ k, c.Excludes k → isIdValid ((s.exec c).device k) = false)
        s calls := by
  have heach : Runs.Each exec (fun _ c => c.Accepted) s calls := fun done c hdone =>
    hcalls c (hdone.subset (by simp))
  have hkeep (s : Stages) (c : Call) (h : s.Mirrors) (hc : c.Accepted) : (s.exec c).Mirrors :=
    h.exec hc
  constructor
  · intro done hdone
    refine Runs.foldl_of_each hs.mirrors hkeep fun prior c hprior => ?_
    exact heach prior c (hprior.trans hdone)
  · refine Runs.each_of_each hs.mirrors (fun s c h hc k hk => ?_) hkeep heach
    cases c with
    | samplerState ids w accepts => exact h.unbound hc.1 hk
    | unbindSamplers mask accepts => cases hk

/-- The state in which nothing has been bound yet. -/
def fresh : Stages := ⟨0, plainSamplers, fun _ => idInvalid⟩

/-- Surface 3 is bound to sampler 0, and let go for sampler 1. -/
theorem mirrors_two_commands :
    let accepts : Accepts := ⟨true, fun _ => true⟩
    Runs.Always exec Mirrors fresh
      [.samplerState (fun _ => 3) (fun _ => 1) accepts,
        .samplerState (fun _ => 3) (fun _ => 2) accepts] := by
  intro accepts
  refine (mirrors_calls fresh _ ⟨rfl, fun _ => isIdValid_idInvalid⟩ fun c hc => ?_).1
  simp only [List.mem_cons, List.not_mem_nil, or_false] at hc
  rcases hc with rfl | rfl <;> exact ⟨rfl, fun _ => rfl⟩

end Stages

end Cesvga2.IPP
