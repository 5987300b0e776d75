import Cesvga2.Basic
import Cesvga2.Bits.Bitmap
import Cesvga2.GL.FenceBuffer

/-! The fences of the GL driver in user space. `gldCreateFence` looks for a clear bit in a bitmap
with one bit for each slot of the mapped fence buffer, and has the kernel double the buffer when
there is none; the fence keeps the index of its slot, from which `gldDestroyFence` finds the
bit again. -/

namespace Cesvga2.GLD

open Bits

/-- `i << n` on a `uint32_t`; the processor takes the count modulo 32. -/
def shl32 (i n : ℕ) : ℕ := u32 (i * 2 ^ (n % 32))

/-- The fences of `gld_context_t`: the size of the mapped buffer, the bitmap and the indices
`f0` of the fences that are live, oldest first. -/
structure Context where
  kfenceSizeBytes : ℕ
  fencesBitmap : ℕ → BitVec 32
  live : List ℕ

/-- `create` comes with the answers of the kernel to the mapping requests it may make, and
`destroy` with the place of a fence among the live ones. -/
inductive Act where
  | create (grants : List Bool)
  | destroy (k : ℕ)
  deriving DecidableEq, Repr

/-- The lowest clear bit, by which the loop over `m` stops; 32 when `m` has become zero. -/
def firstClear (x : BitVec 32) : ℕ := ((List.range 32).find? fun j => !x.getLsbD j).getD 32

namespace Context

/-- `gldCreateContext`: the buffer has one page. -/
def init : Context := ⟨GL.FenceBuffer.pageSize, fun _ => 0, []⟩

variable (s : Context)

/-- The fences for which the mapped buffer has room. -/
def slots : ℕ := s.kfenceSizeBytes / GL.FenceBuffer.fenceBytes

/-- The first word of the bitmap that is not full. -/
def unused : Option ℕ :=
  (List.range (u32 (s.kfenceSizeBytes / 2 ^ 8))).find? fun i => s.fencesBitmap i ≠ BitVec.allOnes 32

/-- The shift binds more loosely than the sum. -/
def take (i : ℕ) : Context :=
  let j := firstClear (s.fencesBitmap i)
  { s with
    fencesBitmap :=
      Function.update s.fencesBitmap i (s.fencesBitmap i ||| BitVec.twoPow 32 j)
    live := s.live ++ [shl32 i (5 + j % 32)] }

/-- The bitmap has twice the words it needs: those of the old buffer were cleared when they
were allocated, and the upper half of the new ones is cleared now. -/
def grow : Context :=
  let size := 2 * s.kfenceSizeBytes
  { s with
    kfenceSizeBytes := size
    fencesBitmap := fun k =>
      if size / 2 ^ 8 ≤ k ∧ k < size / 2 ^ 8 + size / 2 ^ 6 / 4 then 0 else s.fencesBitmap k }

/-- `gldCreateFence`; without a further answer the kernel refuses the mapping. -/
def createFence (s : Context) : List Bool → Context
  | [] => s.unused.elim s s.take
  | granted :: grants =>
    match s.unused with
    | some i => s.take i
    | none => if granted then s.grow.createFence grants else s

/-- `gldDestroyFence`. -/
def destroyFence (k : ℕ) : Context :=
  match s.live[k]? with
  | some f0 => { s with
      fencesBitmap := Function.update s.fencesBitmap (f0 / 2 ^ 5)
        (s.fencesBitmap (f0 / 2 ^ 5) &&& ~~~BitVec.twoPow 32 (f0 % 32))
      live := s.live.eraseIdx k }
  | none => s

def exec : Act → Context
  | .create grants => s.createFence grants
  | .destroy k => s.destroyFence k

/-- An index that `gldCreateFence` may give to a new fence. -/
def Available (n : ℕ) : Prop := n < s.slots ∧ bit s.fencesBitmap n = false

/-- After the action the live fences have distinct indices of the buffer, and the action, if it
destroys a fence, has made its index available and no other. -/
structure Proper (s : Context) (a : Act) : Prop where
  distinct : (s.exec a).live.Nodup
  below : ∀ f0 ∈ (s.exec a).live, f0 < (s.exec a).slots
  frees : ∀ k, a = .destroy k → ∀ f0 ∈ s.live[k]?,
    ¬ s.Available f0 ∧ ∀ n, (s.exec a).Available n ↔ s.Available n ∨ n = f0

/-- A fence is created only while there is no other. -/
def Single (s : Context) : Act → Prop
  | .create _ => s.live = []
  | .destroy _ => True

/-! ### The first word of the bitmap -/

/-- Every fence of the first word gets the index 0. -/
theorem take_zero_live : (s.take 0).live = s.live ++ [0] := by
  simp [take, shl32, u32]

/-- At most one fence, which has the index 0 and the first bit. -/
structure Lone (s : Context) : Prop where
  size : s.kfenceSizeBytes = GL.FenceBuffer.pageSize
  live : s.live = [] ∨ s.live = [0]
  bit : ∀ n, Bits.bit s.fencesBitmap n = true ↔ n = 0 ∧ s.live ≠ []

theorem lone_init : init.Lone := ⟨rfl, .inl rfl, by simp [init, Bits.bit]⟩

variable {s}

/-- The bit after the first is clear. -/
theorem Lone.unused_eq (h : s.Lone) : s.unused = some 0 := by
  have hword : s.fencesBitmap 0 ≠ BitVec.allOnes 32 := by
    intro hfull
    have hone := (eq_allOnes_iff (m := s.fencesBitmap) (by norm_num)).mp hfull 1 (by norm_num)
    exact absurd ((h.bit 1).mp hone).1 one_ne_zero
  rw [unused, h.size]
  have hrange : List.range (u32 (GL.FenceBuffer.pageSize / 2 ^ 8)) =
      0 :: (List.range 15).map (· + 1) := by
    decide
  rw [hrange, List.find?_cons_of_pos (by simpa using hword)]

theorem Lone.createFence_eq (h : s.Lone) (grants : List Bool) :
    s.createFence grants = s.take 0 := by
  cases grants with
  | nil => rw [createFence, h.unused_eq, Option.elim_some]
  | cons g grants => rw [createFence, h.unused_eq]

/-- Without fences the first bit is taken. -/
theorem Lone.take (h : s.Lone) (hnil : s.live = []) : (s.take 0).Lone := by
  have hzero : s.fencesBitmap 0 = 0 := by
    refine BitVec.eq_of_getLsbD_eq fun i hi => ?_
    have hbit : Bits.bit s.fencesBitmap i = false := by
      rw [← Bool.not_eq_true, h.bit i]
      exact fun hc => hc.2 hnil
    rw [Bits.bit, Nat.div_eq_of_lt hi, Nat.mod_eq_of_lt hi] at hbit
    rw [hbit]
    simp
  have hfirst : firstClear (s.fencesBitmap 0) = 0 := by
    rw [hzero]
    decide
  have hset : (s.take 0).fencesBitmap = setBit s.fencesBitmap 0 := by
    simp only [Context.take, hfirst]
    rfl
  refine ⟨h.size, .inr (by rw [take_zero_live, hnil, List.nil_append]), fun n => ?_⟩
  rw [hset, bit_setBit (by norm_num), take_zero_live, Bool.or_eq_true, h.bit n, decide_eq_true_iff]
  simp [hnil, eq_comm]

theorem Lone.of_getElem? (h : s.Lone) {k f0 : ℕ} (hk : s.live[k]? = some f0) :
    s.live = [0] ∧ k = 0 ∧ f0 = 0 := by
  rcases h.live with hnil | hone
  · simp [hnil] at hk
  · rw [hone, List.getElem?_singleton] at hk
    split_ifs at hk with hzero
    exact ⟨hone, hzero, (Option.some.inj hk).symm⟩

theorem destroyFence_zero (hone : s.live = [0]) :
    s.destroyFence 0 = { s with fencesBitmap := clearBit s.fencesBitmap 0, live := [] } := by
  simp only [Context.destroyFence, hone, List.getElem?_cons_zero, List.eraseIdx_cons_zero]
  rfl

theorem Lone.destroyFence (h : s.Lone) (k : ℕ) : (s.destroyFence k).Lone := by
  cases hk : s.live[k]? with
  | none => simpa only [Context.destroyFence, hk] using h
  | some f0 =>
    obtain ⟨hone, rfl, rfl⟩ := h.of_getElem? hk
    rw [destroyFence_zero hone]
    refine ⟨h.size, .inl rfl, fun n => ?_⟩
    rw [bit_clearBit (by norm_num), Bool.and_eq_true, h.bit n]
    simp
    omega

theorem Lone.distinct (h : s.Lone) : s.live.Nodup ∧ ∀ f0 ∈ s.live, f0 < s.slots := by
  have hslots : 0 < s.slots := by
    rw [slots, h.size]
    decide
  rcases h.live with hlive | hlive <;> simp [hlive, hslots]

theorem Lone.frees (h : s.Lone) {k f0 : ℕ} (hk : f0 ∈ s.live[k]?) :
    ¬ s.Available f0 ∧ ∀ n, (s.destroyFence k).Available n ↔ s.Available n ∨ n = f0 := by
  have hslot := h.distinct.2 f0 (List.mem_of_getElem? hk)
  obtain ⟨hone, rfl, rfl⟩ := h.of_getElem? hk
  have hset : Bits.bit s.fencesBitmap 0 = true := (h.bit 0).mpr ⟨rfl, by simp [hone]⟩
  refine ⟨fun hav => by simpa [hset] using hav.2, fun n => ?_⟩
  rw [destroyFence_zero hone, Available, Available, bit_clearBit (by norm_num)]
  by_cases hn : n = 0
  · simpa [hn, slots] using hslot
  · simp [hn, slots, Ne.symm hn]

/-- A second fence would get the index of the first. -/
theorem Lone.not_nodup_create (h : s.Lone) (hlive : s.live ≠ []) (grants : List Bool) :
    ¬ (s.createFence grants).live.Nodup := by
  rw [h.createFence_eq, take_zero_live, h.live.resolve_left hlive]
  decide

theorem Lone.exec (h : s.Lone) {a : Act} (ha : s.Single a) : (s.exec a).Lone := by
  cases a with
  | create grants =>
    rw [Context.exec, h.createFence_eq]
    exact h.take ha
  | destroy k => exact h.destroyFence k

theorem Lone.proper_iff (h : s.Lone) (a : Act) : s.Proper a ↔ s.Single a := by
  constructor
  · intro hp
    cases a with
    | create grants =>
      by_contra hlive
      exact h.not_nodup_create hlive grants hp.distinct
    | destroy k => trivial
  · intro ha
    refine ⟨(h.exec ha).distinct.1, (h.exec ha).distinct.2, ?_⟩
    rintro k rfl f0 hk
    exact h.frees hk

end Context

open Context

/-- Live fences have distinct indices, and give them back when they are destroyed, exactly if
there is never more than one. -/
theorem proper_iff_single (acts : List Act) :
    Runs.Each exec Proper init acts ↔ Runs.Each exec Single init acts :=
  Runs.each_iff_each lone_init (fun _ a h => h.proper_iff a) fun _ _ h ha => h.exec ha

/-- Two fences get the index 0; destroying the first leaves the bit of the second set, and the
index of the second is then taken once more. -/
theorem not_proper_two_fences :
    ([Act.create [], .create []].foldl exec init).live = [0, 0] ∧
      ([Act.create [], .create [], .destroy 0, .create []].foldl exec init).live = [0, 0] ∧
      ¬ Runs.Each exec Proper init [.create [], .create []] := by
  have hlive : ([Act.create [], .create []].foldl exec init).live = [0, 0] := by decide
  refine ⟨hlive, by decide, fun h => ?_⟩
  have hproper := (h [.create []] (.create []) List.prefix_rfl).distinct
  revert hproper
  change ¬ ([Act.create [], .create []].foldl exec init).live.Nodup
  rw [hlive]
  decide

end Cesvga2.GLD
