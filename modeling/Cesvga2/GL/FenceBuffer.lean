import Cesvga2.Basic
import Cesvga2.Runs.Prefix

/-! The buffer of fences that a GL context shares with its client. `clientMemoryForType` makes
it on the first request and doubles it on every later one; `process_token_SetFence` writes to it
through the pointer and length of the context, and `MI_STORE_DATA_INDEX` through the copies of
them that the pipeline processor keeps. -/

namespace Cesvga2.GL.FenceBuffer

/-- An `IOBufferMemoryDescriptor`. It is not empty; its kernel address, which `getBytesNoCopy`
returns, is 0 if it is not mapped. -/
structure Buffer (w : SizeT) where
  base : ℕ
  size : ℕ
  pos : 0 < size
  fits : base + size ≤ 2 ^ w.bits
  deriving DecidableEq

/-- Bytes that the driver writes. -/
structure Write where
  addr : ℕ
  bytes : ℕ
  deriving DecidableEq, Repr

/-- The write lies in the memory of the buffer. -/
def Buffer.Holds {w : SizeT} (b : Buffer w) (x : Write) : Prop :=
  b.base ≠ 0 ∧ b.base ≤ x.addr ∧ x.addr + x.bytes ≤ b.base + b.size

/-- `inTaskWithOptions` for `size` bytes, where the kernel has room at `grant`. -/
def allocate (w : SizeT) (size : ℕ) : Option ℕ → Option (Buffer w)
  | some base =>
    if h : 0 < size ∧ base + size ≤ 2 ^ w.bits then some ⟨base, size, h.1, h.2⟩ else none
  | none => none

def pageSize : ℕ := 4096

/-- `sizeof(GLDFence)`. -/
def fenceBytes : ℕ := 8

/-- The fence fields of `CEsvga2GLContext`, with those of its `CEsvga2IPP` if there is one. -/
structure Context (w : SizeT) where
  streamError : ℕ
  fences : Option (Buffer w)
  fencesLen : ℕ
  fencesPtr : ℕ
  ipp : Option (ℕ × ℕ)

/-- A mapping request with what the kernel grants, a `SetFence` token and
`MI_STORE_DATA_INDEX`, for which `lock3D` may fail. -/
inductive Act where
  | clientMemory (grant : Option ℕ)
  | setFence (index : BitVec 32)
  | storeDataIndex (index : BitVec 32) (lock3D : Bool)
  deriving DecidableEq, Repr

/-- `fence_num * sizeof(GLDFence)`. -/
def offset (w : SizeT) (index : BitVec 32) : ℕ := index.toNat * fenceBytes % 2 ^ w.bits

/-- The stores to `ptr[index].u` and `ptr[index].v`. -/
def stores (w : SizeT) (ptr : ℕ) (index : BitVec 32) : List Write :=
  let addr := (ptr + index.toNat * fenceBytes) % 2 ^ w.bits
  [⟨addr, 4⟩, ⟨(addr + 4) % 2 ^ w.bits, 4⟩]

/-- An index that passes the test against the size is that of a fence of the buffer. -/
theorem Buffer.holds_stores {w : SizeT} {b : Buffer w} {index : BitVec 32} (hbase : b.base ≠ 0)
    (hdvd : fenceBytes ∣ b.size) (hlt : offset w index < b.size) {x : Write}
    (hx : x ∈ stores w b.base index) : b.Holds x := by
  have hfits := b.fits
  have hmod : b.base % 2 ^ w.bits = b.base := Nat.mod_eq_of_lt (by omega)
  -- the index and the address are reduced by the same power of two
  have haddr : (b.base + index.toNat * fenceBytes) % 2 ^ w.bits = b.base + offset w index := by
    rw [Nat.add_mod, hmod, ← offset, Nat.mod_eq_of_lt (by omega)]
  have hpow : fenceBytes ∣ 2 ^ w.bits := by
    cases w <;> decide
  have hoff : fenceBytes ∣ offset w index := (Nat.dvd_mod_iff hpow).mpr (Dvd.intro_left _ rfl)
  have hroom : offset w index + 8 ≤ b.size := by
    unfold fenceBytes at hdvd hoff
    omega
  rw [stores, haddr, Nat.mod_eq_of_lt (by omega : b.base + offset w index + 4 < 2 ^ w.bits)] at hx
  rcases List.mem_pair.mp hx with rfl | rfl
  · exact ⟨hbase, by simp, by simp only; omega⟩
  · exact ⟨hbase, by simp only; omega, by simp only; omega⟩

theorem stores_nonempty (w : SizeT) (ptr : ℕ) (index : BitVec 32) : ∃ x, x ∈ stores w ptr index :=
  ⟨_, List.mem_cons_self⟩

namespace Context

variable {w : SizeT}

/-- A context before its first mapping request. -/
def init (w : SizeT) (ipp : Bool) : Context w := ⟨0, none, 0, 0, if ipp then some (0, 0) else none⟩

/-- The buffer takes its place in the context and in the processor, by `setFences`. -/
def install (s : Context w) (b : Buffer w) (len : ℕ) : Context w :=
  { s with
    fences := some b, fencesLen := len, fencesPtr := b.base
    ipp := s.ipp.map fun _ => (b.base, len) }

/-- The length is set before the first buffer is allocated. -/
def firstBuffer (s : Context w) (grant : Option ℕ) : Context w × List Write :=
  match allocate w pageSize grant with
  | none => ({ s with fencesLen := pageSize }, [])
  | some b => (s.install b pageSize, [])

/-- The fences are copied into a buffer of twice the length. -/
def growBuffer (s : Context w) (grant : Option ℕ) : Context w × List Write :=
  let d := 2 * s.fencesLen % 2 ^ w.bits
  match allocate w d grant with
  | none => (s, [])
  | some b => (s.install b d, [⟨b.base, s.fencesLen⟩])

/-- Type 2 of `clientMemoryForType`. -/
def clientMemory (s : Context w) (grant : Option ℕ) : Context w × List Write :=
  if s.streamError ≠ 0 then (s, [])
  else if s.fences = none then s.firstBuffer grant
  else s.growBuffer grant

/-- Command buffers are processed only with a pipeline processor and without an earlier error. -/
def Processes (s : Context w) : Prop := s.streamError = 0 ∧ s.ipp.isSome

instance (s : Context w) : Decidable s.Processes := inferInstanceAs (Decidable (_ ∧ _))

def setFence (s : Context w) (index : BitVec 32) : Context w × List Write :=
  if s.Processes then
    if s.fencesLen ≤ offset w index then ({ s with streamError := 2 }, [])
    else (s, stores w s.fencesPtr index)
  else (s, [])

def storeDataIndex (s : Context w) (index : BitVec 32) (lock3D : Bool) : List Write :=
  match s.ipp with
  | none => []
  | some (ptr, len) =>
    if ptr = 0 ∨ len ≤ offset w index then []
    else if lock3D then stores w ptr index
    else []

/-- The state after an action, and what it writes. -/
def step (s : Context w) : Act → Context w × List Write
  | .clientMemory grant => s.clientMemory grant
  | .setFence index => s.setFence index
  | .storeDataIndex index lock3D => (s, s.storeDataIndex index lock3D)

def exec (s : Context w) (a : Act) : Context w := (s.step a).1

/-- Everything the action writes lies in the buffer that the context then has. -/
def Lands (s : Context w) (a : Act) : Prop :=
  ∀ x ∈ (s.step a).2, ∃ b ∈ (s.exec a).fences, b.Holds x

/-- A token that passes the test of its index finds a mapped buffer, and a buffer to which the
fences are copied is mapped. -/
def Mapped (s : Context w) : Act → Prop
  | .clientMemory grant => s.streamError = 0 → s.fences.isSome →
      ∀ b ∈ allocate w (2 * s.fencesLen % 2 ^ w.bits) grant, b.base ≠ 0
  | .setFence index => s.Processes → offset w index < s.fencesLen → s.fencesPtr ≠ 0
  | .storeDataIndex _ _ => True

/-! ### What the fields say about the buffer -/

/-- The pointer and the length are those of the buffer, if there is one, and the processor has
the same or nothing. -/
structure Sound (s : Context w) : Prop where
  ptr : s.fencesPtr = s.fences.elim 0 Buffer.base
  len : ∀ b ∈ s.fences, s.fencesLen = b.size
  pow : ∀ b ∈ s.fences, ∃ k, b.size = fenceBytes * 2 ^ k
  ipp : ∀ p ∈ s.ipp, p.1 = 0 ∨ p = (s.fencesPtr, s.fencesLen)

variable {s : Context w} {index : BitVec 32} {grant : Option ℕ} {b : Buffer w}

theorem Sound.dvd_size (h : s.Sound) (hb : b ∈ s.fences) : fenceBytes ∣ b.size := by
  obtain ⟨k, hk⟩ := h.pow b hb
  exact Dvd.intro _ hk.symm

theorem sound_init (ipp : Bool) : (init w ipp).Sound := by
  refine ⟨rfl, by simp [init], by simp [init], ?_⟩
  cases ipp <;> simp [init]

theorem allocate_size {size : ℕ} (h : allocate w size grant = some b) : b.size = size := by
  cases grant with
  | none => cases h
  | some base =>
    rw [allocate] at h
    split_ifs at h
    cases h
    rfl

/-- A length that has wrapped is zero. -/
theorem double_mod {k n : ℕ} (hn : n = fenceBytes * 2 ^ k) (hpos : 0 < 2 * n % 2 ^ w.bits) :
    2 * n % 2 ^ w.bits = fenceBytes * 2 ^ (k + 1) := by
  have hpow : 2 * n = 2 ^ (k + 4) := by
    rw [hn, fenceBytes, pow_add]
    ring
  rcases Nat.lt_or_ge (k + 4) w.bits with hlt | hge
  · rw [Nat.mod_eq_of_lt (hpow ▸ Nat.pow_lt_pow_right (by norm_num) hlt), hn, pow_succ]
    ring
  · have hdvd : 2 ^ w.bits ∣ 2 * n := hpow ▸ pow_dvd_pow 2 hge
    omega

theorem sound_install {len k : ℕ} (hlen : b.size = len) (hpow : len = fenceBytes * 2 ^ k) :
    (s.install b len).Sound := by
  refine ⟨rfl, ?_, ?_, ?_⟩
  · rintro _ ⟨⟩
    exact hlen.symm
  · rintro _ ⟨⟩
    exact ⟨k, hlen.trans hpow⟩
  · intro p hp
    obtain ⟨_, _, rfl⟩ := Option.mem_map.mp hp
    exact .inr rfl

theorem Sound.firstBuffer (h : s.Sound) (hnone : s.fences = none) :
    (s.firstBuffer grant).1.Sound := by
  simp only [Context.firstBuffer]
  cases hb : allocate w pageSize grant with
  | none =>
    -- without a buffer the pointer is null, so a copy of it is null as well
    have hptr : s.fencesPtr = 0 := by rw [h.ptr, hnone, Option.elim_none]
    refine ⟨h.ptr, by simp [hnone], by simp [hnone], fun p hp => ?_⟩
    rcases h.ipp p hp with h0 | rfl
    · exact .inl h0
    · exact .inl hptr
  | some b => exact sound_install (allocate_size hb) (k := 9) (by decide)

theorem Sound.growBuffer (h : s.Sound) (hb : b ∈ s.fences) : (s.growBuffer grant).1.Sound := by
  simp only [Context.growBuffer]
  cases hnew : allocate w (2 * s.fencesLen % 2 ^ w.bits) grant with
  | none => exact h
  | some b' =>
    obtain ⟨k, hk⟩ := h.pow b hb
    have hsize := allocate_size hnew
    exact sound_install hsize (double_mod ((h.len b hb).trans hk) (hsize ▸ b'.pos))

theorem Sound.clientMemory (h : s.Sound) : (s.clientMemory grant).1.Sound := by
  unfold Context.clientMemory
  split_ifs with herr hnone
  · exact h
  · exact h.firstBuffer hnone
  · obtain ⟨b, hb⟩ := Option.ne_none_iff_exists'.mp hnone
    exact h.growBuffer hb

theorem Sound.setFence (h : s.Sound) : (s.setFence index).1.Sound := by
  unfold Context.setFence
  split_ifs
  · exact ⟨h.ptr, h.len, h.pow, h.ipp⟩
  · exact h
  · exact h

theorem Sound.exec (h : s.Sound) (a : Act) : (s.exec a).Sound := by
  cases a with
  | clientMemory grant => exact h.clientMemory
  | setFence index => exact h.setFence
  | storeDataIndex index lock3D => exact h

/-! ### Where the stores go -/

theorem Sound.lands_storeDataIndex (h : s.Sound) (lock3D : Bool) :
    s.Lands (.storeDataIndex index lock3D) := by
  intro x hx
  change x ∈ s.storeDataIndex index lock3D at hx
  change ∃ b ∈ s.fences, b.Holds x
  unfold Context.storeDataIndex at hx
  cases hipp : s.ipp with
  | none => simp [hipp] at hx
  | some p =>
    obtain ⟨ptr, len⟩ := p
    simp only [hipp] at hx
    split_ifs at hx with htest hlock
    · cases hx
    · push Not at htest
      -- the copies are not null, so they are those of the context, and it has a buffer
      have hsame : (ptr, len) = (s.fencesPtr, s.fencesLen) := (h.ipp _ hipp).resolve_left htest.1
      obtain ⟨rfl, rfl⟩ := Prod.mk.inj hsame
      cases hb : s.fences with
      | none => exact absurd (by rw [h.ptr, hb, Option.elim_none]) htest.1
      | some b =>
        have hptr : s.fencesPtr = b.base := by rw [h.ptr, hb, Option.elim_some]
        rw [hptr] at hx htest
        rw [h.len b hb] at htest
        exact ⟨b, rfl, b.holds_stores htest.1 (h.dvd_size hb) htest.2 hx⟩
    · cases hx

theorem Sound.lands_setFence (h : s.Sound) :
    s.Lands (.setFence index) ↔ s.Mapped (.setFence index) := by
  change (∀ x ∈ (s.setFence index).2, ∃ b ∈ (s.setFence index).1.fences, b.Holds x) ↔
    (s.Processes → offset w index < s.fencesLen → s.fencesPtr ≠ 0)
  unfold Context.setFence
  split_ifs with hproc hlen
  · exact iff_of_true (by simp) fun _ hlt => absurd hlt hlen.not_gt
  · rw [not_le] at hlen
    simp only [hproc, hlen, forall_const]
    cases hb : s.fences with
    | none =>
      obtain ⟨x, hx⟩ := stores_nonempty w s.fencesPtr index
      refine iff_of_false (fun hall => ?_) (not_not.mpr (by rw [h.ptr, hb, Option.elim_none]))
      obtain ⟨b, hnone, -⟩ := hall x hx
      cases hnone
    | some b =>
      have hptr : s.fencesPtr = b.base := by rw [h.ptr, hb, Option.elim_some]
      rw [hptr]
      rw [h.len b hb] at hlen
      constructor
      · intro hall
        obtain ⟨x, hx⟩ := stores_nonempty w b.base index
        obtain ⟨_, ⟨⟩, hholds⟩ := hall x hx
        exact hholds.1
      · intro hbase x hx
        exact ⟨b, rfl, b.holds_stores hbase (h.dvd_size hb) hlen hx⟩
  · exact iff_of_true (by simp) fun hp => absurd hp hproc

/-- The copy fits, since the new buffer is not empty and so its length has not wrapped. -/
theorem Sound.holds_copy (h : s.Sound) (hb : b ∈ s.fences) {b' : Buffer w}
    (hnew : b' ∈ allocate w (2 * s.fencesLen % 2 ^ w.bits) grant) :
    b'.Holds ⟨b'.base, s.fencesLen⟩ ↔ b'.base ≠ 0 := by
  refine ⟨And.left, fun hbase => ⟨hbase, le_rfl, ?_⟩⟩
  obtain ⟨k, hk⟩ := h.pow b hb
  have hsize := allocate_size hnew
  have hlen := (h.len b hb).trans hk
  have hdouble := double_mod hlen (hsize ▸ b'.pos)
  rw [pow_succ, ← mul_assoc, ← hlen] at hdouble
  simp only [hsize]
  omega

theorem Sound.lands_clientMemory (h : s.Sound) :
    s.Lands (.clientMemory grant) ↔ s.Mapped (.clientMemory grant) := by
  change (∀ x ∈ (s.clientMemory grant).2, ∃ b ∈ (s.clientMemory grant).1.fences, b.Holds x) ↔
    (s.streamError = 0 → s.fences.isSome →
      ∀ b ∈ allocate w (2 * s.fencesLen % 2 ^ w.bits) grant, b.base ≠ 0)
  unfold Context.clientMemory
  split_ifs with herr hnone
  · exact iff_of_true (by simp) fun h0 => absurd h0 herr
  · refine iff_of_true ?_ (by simp [hnone])
    simp only [Context.firstBuffer]
    cases allocate w pageSize grant <;> simp
  · obtain ⟨b, hb⟩ := Option.ne_none_iff_exists'.mp hnone
    rw [not_not] at herr
    simp only [Context.growBuffer, herr, hb, Option.isSome_some, forall_const]
    cases hnew : allocate w (2 * s.fencesLen % 2 ^ w.bits) grant with
    | none => simp
    | some b' => simpa [install] using h.holds_copy hb hnew

theorem Sound.lands_iff (h : s.Sound) (a : Act) : s.Lands a ↔ s.Mapped a := by
  cases a with
  | clientMemory grant => exact h.lands_clientMemory
  | setFence index => exact h.lands_setFence
  | storeDataIndex index lock3D => exact iff_of_true (h.lands_storeDataIndex lock3D) trivial

end Context

open Context

/-- All writes go to the buffer exactly if no token that passes the test of its index comes
while there is no mapped buffer, and no buffer to copy the fences to is unmapped. -/
theorem lands_iff_mapped (w : SizeT) (ipp : Bool) (acts : List Act) :
    Runs.Each exec Lands (init w ipp) acts ↔ Runs.Each exec Mapped (init w ipp) acts :=
  Runs.each_iff_each (sound_init ipp) (fun _ a h => h.lands_iff a) fun _ a h _ => h.exec a

/-- The first buffer is not granted, but the length is already that of a page: a `SetFence` of
index 5 is let through, and writes to address 40. -/
theorem not_lands_after_failed_request :
    ¬ Runs.Each exec Lands (init .bits32 true) [.clientMemory none, .setFence 5] ∧
      ¬ Runs.Each exec Lands (init .bits64 true) [.clientMemory none, .setFence 5] := by
  suffices h : ∀ w, ¬ Runs.Each exec Lands (init w true) [.clientMemory none, .setFence 5] from
    ⟨h .bits32, h .bits64⟩
  intro w h
  have hland := h [.clientMemory none] (.setFence 5) List.prefix_rfl
  have hwrite : (⟨40, 4⟩ : Write) ∈ (((init w true).exec (.clientMemory none)).step
      (.setFence 5)).2 := by
    cases w <;> decide
  obtain ⟨b, hb, -⟩ := hland _ hwrite
  cases w <;> cases hb

end Cesvga2.GL.FenceBuffer
