import Cesvga2.Allocator.Realloc
import Cesvga2.Fence.Sync
import Cesvga2.Ids.Accel
import Cesvga2.Runs.Prefix

/-! `VertexArray`: vertices are put into a block of video memory from its start to its end, and
each range is uploaded to a host surface. The block is used from its start again, or given back,
after a wait for the fence of the last upload. The device goes on at any time, and others add
commands and fences of their own. -/

namespace Cesvga2.GL.VertexArray

open Fence

/-- The addresses from `start` on. -/
structure Range where
  start : ℕ
  bytes : ℕ
  deriving DecidableEq, Repr

namespace Range

def stop (r : Range) : ℕ := r.start + r.bytes

def Inside (r b : Range) : Prop := b.start ≤ r.start ∧ r.stop ≤ b.stop

def Apart (r g : Range) : Prop := r.stop ≤ g.start ∨ g.stop ≤ r.start

end Range

/-- The fields of `VertexArray`; the pointer is 0 without a block. -/
structure Fields where
  kernelPtr : ℕ
  sizeBytes : ℕ
  nextAvail : ℕ
  sid : ℕ
  fence : ℕ
  deriving DecidableEq, Repr

/-- A range that `alloc` has returned. Once it is uploaded, `mark` is the length of the stream
up to the fence of the upload. -/
structure Given where
  range : Range
  mark : Option ℕ
  deriving DecidableEq, Repr

/-- The array with the device, the blocks of video memory and the surface ids that were allocated
for it and not given back, and the ranges returned so far, the last one first. -/
structure Sys where
  arr : Fields
  dev : Svga
  blocks : List Range
  ids : List ℕ
  given : List Given

/-- What the accelerator has to give: the next surface id, whether `createSurface` succeeds, and
where `VRAMMalloc` finds room. -/
structure Grant where
  sid : ℕ
  created : Bool
  vram : Option ℕ
  deriving DecidableEq, Repr

/-- The calls, each with the number of commands that the device processes while the call waits.
`upload` is about the range that was returned last. The last three are other users of the stream
and the device. -/
inductive Act where
  | alloc (numBytes wait : ℕ) (grant : Grant)
  | upload (numBytes wait₁ wait₂ : ℕ)
  | purge (wait : ℕ)
  | insertFence
  | command (bytes : ℕ)
  | process
  deriving DecidableEq, Repr

/-- The size of the DMA command with one copy box. -/
def dma : Cmd := .other 84

/-- The device has not come to the fence of the upload. -/
def Given.Pending (g : Given) (d : Svga) : Prop := ∃ m ∈ g.mark, d.head < m

variable (w : SizeT)

/-- `num_bytes` rounded up to words, and the size of a block for it. -/
def roundWord (n : ℕ) : ℕ := (n + 3) % 2 ^ w.bits / 4 * 4

def roundPage (n : ℕ) : ℕ := (n + 4095) % 2 ^ w.bits / 4096 * 4096

namespace Sys

/-- A new array, on a device with an empty stream. -/
def init : Sys := ⟨⟨0, 0, 0, idInvalid, 0⟩, .init, [], [], []⟩

variable (s : Sys)

/-- `SyncToFence`, if there is a fence. -/
def sync (wait : ℕ) : Sys :=
  if s.arr.fence = 0 then s
  else { s with dev := s.dev.advance wait, arr := { s.arr with fence := 0 } }

def freeBlock : Sys :=
  if s.arr.kernelPtr = 0 then s
  else { s with
    arr := { s.arr with kernelPtr := 0, sizeBytes := 0, nextAvail := 0 }
    blocks := s.blocks.filter fun b => b.start ≠ s.arr.kernelPtr }

def freeSurface : Sys :=
  if isIdValid s.arr.sid then { s with
    arr := { s.arr with sid := idInvalid }
    ids := s.ids.erase s.arr.sid }
  else s

def purge (wait : ℕ) : Sys := ((s.sync wait).freeBlock).freeSurface

/-- The label `done` of `alloc`. -/
def place (num : ℕ) : Option Range × Sys :=
  let r : Range := ⟨s.arr.kernelPtr + s.arr.nextAvail, num⟩
  (some r, { s with
    arr := { s.arr with nextAvail := s.arr.nextAvail + num }
    given := ⟨r, none⟩ :: s.given })

/-- A new surface and a new block. -/
def create (num : ℕ) (grant : Grant) : Option Range × Sys :=
  if grant.created then
    let s := { s with arr := { s.arr with sid := grant.sid }, ids := grant.sid :: s.ids }
    match grant.vram with
    | none => (none, s.purge 0)
    | some base =>
      let size := roundPage w num
      { s with
        arr := { s.arr with kernelPtr := base, sizeBytes := size }
        blocks := ⟨base, size⟩ :: s.blocks }.place num
  else (none, { s with arr := { s.arr with sid := idInvalid } })

def alloc (numBytes wait : ℕ) (grant : Grant) : Option Range × Sys :=
  let num := roundWord w numBytes
  if s.arr.kernelPtr = 0 then s.create w num grant
  else if (s.arr.nextAvail + num) % 2 ^ w.bits ≤ s.arr.sizeBytes then s.place num
  else if num ≤ s.arr.sizeBytes then
    let s := s.sync wait
    { s with arr := { s.arr with nextAvail := 0 } }.place num
  else (s.purge wait).create w num grant

/-- The DMA command and its fence, each after a wait for room. -/
def upload (numBytes wait₁ wait₂ : ℕ) : Sys :=
  match s.given with
  | [] => s
  | g :: given =>
    if g.range.start < s.arr.kernelPtr then s
    else if s.arr.sizeBytes < (g.range.start - s.arr.kernelPtr + numBytes) % 2 ^ w.bits then s
    else
      let d := (s.dev.advance wait₁).commit dma
      let (fence, d) := (d.advance wait₂).insertFence true
      { s with
        dev := d
        arr := { s.arr with fence := fence }
        given := { g with mark := some d.log.length } :: given }

/-- The range that a call of `alloc` returns, and the state after an action. -/
def step : Act → Option Range × Sys
  | .alloc numBytes wait grant => s.alloc w numBytes wait grant
  | .upload numBytes wait₁ wait₂ => (none, s.upload w numBytes wait₁ wait₂)
  | .purge wait => (none, s.purge wait)
  | .insertFence => (none, { s with dev := (s.dev.insertFence true).2 })
  | .command bytes => (none, { s with dev := s.dev.commit (.other bytes) })
  | .process => (none, { s with dev := s.dev.process })

def exec (a : Act) : Sys := (s.step w a).2

/-- `AllocSurfaceID` returns the id after some history, in which the bitmap was passed less than
`2 ^ 31 - 256` times. -/
def Issues (sid : ℕ) : Prop :=
  ∃ maxGMRIDs ids, Ids.Reachable maxGMRIDs ids ∧ ids.accel.surfaceIdsUnmanaged < 2 ^ 31 - 256 ∧
    sid = ids.accel.allocSurfaceID.1

/-- `SyncToFence` returns only then. -/
def Waits (wait : ℕ) : Prop :=
  s.arr.fence ≠ 0 → (s.dev.advance wait).SyncedTo s.arr.fence

/-- What is asked of the callers, the accelerator and the ring: sizes are below `2 ^ 31`, a range
is uploaded as far as it goes, ids are those of `AllocSurfaceID`, memory is where `Malloc` can have
found it, and commands are let into the ring when they fit. -/
def Legal (R : Ring) (s : Sys) : Act → Prop
  | .alloc numBytes wait grant => numBytes < 2 ^ 31 ∧ s.Waits wait ∧ Issues grant.sid ∧
      ∀ base ∈ grant.vram, 0 < base ∧
        (Allocator.Pool.sizeBits (roundPage w (roundWord w numBytes))).isSome ∧
        base + roundPage w (roundWord w numBytes) < 2 ^ w.bits
  | .upload numBytes wait₁ wait₂ => (∀ g ∈ s.given.head?, numBytes ≤ g.range.bytes) ∧
      R.Fits (s.dev.advance wait₁) dma ∧
      R.Fits (((s.dev.advance wait₁).commit dma).advance wait₂) (.fence 0)
  | .purge wait => s.Waits wait
  | .insertFence => R.Fits s.dev (.fence 0)
  | .command bytes => R.Fits s.dev (.other bytes)
  | .process => True

/-- A range that is returned lies in a block, apart from the earlier ranges whose uploads are
pending, and there is a surface id exactly when there is a block. -/
structure Proper (s : Sys) (a : Act) : Prop where
  inside : ∀ r ∈ (s.step w a).1, ∃ b ∈ (s.exec w a).blocks, r.Inside b
  apart : ∀ r ∈ (s.step w a).1, ∀ g ∈ s.given, g.Pending (s.exec w a).dev → r.Apart g.range
  paired : (s.exec w a).ids = [] ↔ (s.exec w a).blocks = []

/-! ### The invariant -/

/-- The part of the block that has been handed out. -/
def used : Range := ⟨s.arr.kernelPtr, s.arr.nextAvail⟩

/-- Neither a block nor a surface. -/
structure Empty (arr : Fields) (blocks : List Range) (ids : List ℕ) : Prop where
  ptr : arr.kernelPtr = 0
  size : arr.sizeBytes = 0
  next : arr.nextAvail = 0
  sid : ¬ isIdValid arr.sid
  fence : arr.fence = 0
  blocks : blocks = []
  ids : ids = []

/-- One block and one surface. -/
structure Full (arr : Fields) (blocks : List Range) (ids : List ℕ) : Prop where
  ptr : arr.kernelPtr ≠ 0
  sid : isIdValid arr.sid
  blocks : blocks = [⟨arr.kernelPtr, arr.sizeBytes⟩]
  ids : ids = [arr.sid]
  next : arr.nextAvail ≤ arr.sizeBytes
  size : arr.sizeBytes ≤ 2 ^ 25
  fits : arr.kernelPtr + arr.sizeBytes < 2 ^ w.bits

/-- No upload is pending. -/
def Quiet (s : Sys) : Prop := ∀ g ∈ s.given, ¬ g.Pending s.dev

/-- No upload comes after the fence of the array. -/
def Behind (s : Sys) : Prop :=
  ∃ p, s.dev.log[p]? = some (.fence s.arr.fence) ∧ ∀ g ∈ s.given, ∀ m ∈ g.mark, m ≤ p + 1

/-- Pending uploads are from the part of the block that has been handed out, and without a fence
there are none. -/
structure Core (R : Ring) (s : Sys) : Prop where
  ready : s.dev.Ready R
  holds : Empty s.arr s.blocks s.ids ∨ Full w s.arr s.blocks s.ids
  fence : s.arr.fence = 0 ∧ s.Quiet ∨ s.arr.fence ≠ 0 ∧ s.Behind
  pending : ∀ g ∈ s.given, g.Pending s.dev → g.range.Inside s.used
  given : ∀ g ∈ s.given, 0 < g.range.start ∧ g.range.stop < 2 ^ w.bits

/-- With a block, the range returned last is in it. -/
structure Inv (R : Ring) (s : Sys) : Prop extends Core w R s where
  last : s.arr.kernelPtr ≠ 0 → ∃ g ∈ s.given.head?, g.range.Inside s.used

variable {w s} {R : Ring} {wait num : ℕ} {grant : Grant}

theorem Issues.isIdValid {sid : ℕ} (h : Issues sid) : isIdValid sid := by
  obtain ⟨maxGMRIDs, ids, hr, hu, rfl⟩ := h
  have := hr.inv.allocSurfaceID_le (by omega)
  exact decide_eq_true (by omega)

theorem inv_init : init.Inv w R where
  ready := Svga.ready_init
  holds := .inl ⟨rfl, rfl, rfl, not_isIdValid_idInvalid, rfl, rfl, rfl⟩
  fence := .inl ⟨rfl, by simp [init, Quiet]⟩
  pending := by simp [init]
  given := by simp [init]
  last h := absurd rfl h

theorem Core.paired (h : s.Core w R) : s.ids = [] ↔ s.blocks = [] := by
  rcases h.holds with he | hf
  · exact iff_of_true he.ids he.blocks
  · exact iff_of_false (by simp [hf.ids]) (by simp [hf.blocks])

/-! ### The device goes on -/

theorem pending_mono {g : Given} {d d' : Svga} (hhead : d.head ≤ d'.head) (hp : g.Pending d') :
    g.Pending d := by
  obtain ⟨m, hm, hlt⟩ := hp
  exact ⟨m, hm, hhead.trans_lt hlt⟩

theorem Core.device (h : s.Core w R) {d : Svga} (hr : d.Ready R) (hlog : s.dev.log <+: d.log)
    (hhead : s.dev.head ≤ d.head) : { s with dev := d }.Core w R := by
  refine ⟨hr, h.holds, ?_, fun g hg hp => h.pending g hg (pending_mono hhead hp), h.given⟩
  refine h.fence.imp (And.imp_right fun hq g hg hp => hq g hg (pending_mono hhead hp)) ?_
  rintro ⟨hne, p, hp, hle⟩
  refine ⟨hne, p, ?_, hle⟩
  obtain ⟨l, hl⟩ := hlog
  rw [← hl, List.getElem?_append_left (List.getElem?_eq_some_iff.mp hp).1]
  exact hp

theorem Core.advance (h : s.Core w R) (n : ℕ) : { s with dev := s.dev.advance n }.Core w R :=
  h.device (h.ready.advance n) (s.dev.advance_log n ▸ List.prefix_rfl) (s.dev.advance_head_le n)

/-- The marks of uploads are places of the stream. -/
theorem Core.mark_le (h : s.Core w R) : ∀ g ∈ s.given, ∀ m ∈ g.mark, m ≤ s.dev.log.length := by
  intro g hg m hm
  rcases h.fence with ⟨-, hq⟩ | ⟨-, p, hp, hle⟩
  · by_contra hlt
    exact hq g hg ⟨m, hm, by have := h.ready.numbered.head; omega⟩
  · have := (List.getElem?_eq_some_iff.mp hp).1
    have := hle g hg m hm
    omega

/-! ### Waiting and giving back -/

/-- The state `t` is `s` after a wait. -/
structure Synced (s t : Sys) : Prop where
  arr : t.arr = { s.arr with fence := 0 }
  blocks : t.blocks = s.blocks
  ids : t.ids = s.ids
  given : t.given = s.given
  quiet : t.Quiet

theorem Core.synced (h : s.Core w R) (hw : s.Waits wait) :
    (s.sync wait).Core w R ∧ Synced s (s.sync wait) := by
  unfold sync
  rcases h.fence with ⟨h0, hq⟩ | ⟨hne, p, hp, hle⟩
  · rw [if_pos h0]
    refine ⟨h, ?_, rfl, rfl, rfl, hq⟩
    rw [← h0]
  · rw [if_neg hne]
    have hdev := h.advance wait
    have hpast : p < (s.dev.advance wait).head := by
      refine hdev.ready.head_of_syncedTo ?_ (hw hne)
      rw [Svga.advance_log]
      exact hp
    have hquiet : ∀ g ∈ s.given, ¬ g.Pending (s.dev.advance wait) := by
      rintro g hg ⟨m, hm, hlt⟩
      have := hle g hg m hm
      omega
    refine ⟨⟨hdev.ready, ?_, .inl ⟨rfl, hquiet⟩, hdev.pending, h.given⟩, rfl, rfl, rfl, rfl, hquiet⟩
    rcases h.holds with he | hf
    · exact absurd he.fence hne
    · exact .inr ⟨hf.ptr, hf.sid, hf.blocks, hf.ids, hf.next, hf.size, hf.fits⟩

theorem Core.purge (h : s.Core w R) (hw : s.Waits wait) :
    (s.purge wait).Inv w R ∧
      Empty (s.purge wait).arr (s.purge wait).blocks (s.purge wait).ids ∧
      (s.purge wait).given = s.given := by
  obtain ⟨hc, ht⟩ := h.synced hw
  have hquiet : ∀ g ∈ s.given, ¬ g.Pending (s.sync wait).dev := ht.given ▸ ht.quiet
  have hfence : (s.sync wait).arr.fence = 0 := by rw [ht.arr]
  unfold Sys.purge
  rcases hc.holds with he | hf
  · rw [freeBlock, if_pos he.ptr, freeSurface, if_neg he.sid]
    exact ⟨⟨hc, fun hne => absurd he.ptr hne⟩, he, ht.given⟩
  · have hids : (s.sync wait).ids.erase (s.sync wait).arr.sid = [] := by simp [hf.ids]
    have hblocks : ((s.sync wait).blocks.filter fun b =>
        b.start ≠ (s.sync wait).arr.kernelPtr) = [] := by simp [hf.blocks]
    rw [freeBlock, if_neg hf.ptr, hblocks, freeSurface, if_pos hf.sid]
    dsimp only
    rw [hids]
    have he : Empty { (s.sync wait).arr with
        kernelPtr := 0, sizeBytes := 0, nextAvail := 0, sid := idInvalid } [] [] :=
      ⟨rfl, rfl, rfl, not_isIdValid_idInvalid, hfence, rfl, rfl⟩
    refine ⟨⟨⟨hc.ready, .inl he, .inl ⟨hfence, ht.quiet⟩, ?_, hc.given⟩, fun hne => absurd rfl hne⟩,
      he, ht.given⟩
    exact fun g hg hp => absurd hp (ht.quiet g hg)

/-! ### Handing out ranges -/

/-- What is known when `alloc` returns, with `given` the ranges returned before. -/
structure Allocated (w : SizeT) (R : Ring) (given : List Given) (out : Option Range × Sys) :
    Prop where
  inv : out.2.Inv w R
  inside : ∀ r ∈ out.1, ∃ b ∈ out.2.blocks, r.Inside b
  apart : ∀ r ∈ out.1, ∀ g ∈ given, g.Pending out.2.dev → r.Apart g.range

theorem Core.place (h : s.Core w R) (hf : Full w s.arr s.blocks s.ids)
    (hroom : s.arr.nextAvail + num ≤ s.arr.sizeBytes) : Allocated w R s.given (s.place num) := by
  have hptr := hf.ptr
  have hfits := hf.fits
  constructor
  · refine ⟨⟨h.ready, .inr ?_, h.fence.imp (And.imp_right ?_) (And.imp_right ?_), ?_, ?_⟩, ?_⟩
    · exact ⟨hf.ptr, hf.sid, hf.blocks, hf.ids, hroom, hf.size, hf.fits⟩
    · intro hq g hg
      rcases List.mem_cons.mp hg with rfl | hg
      · rintro ⟨m, ⟨⟩, -⟩
      · exact hq g hg
    · rintro ⟨p, hp, hle⟩
      refine ⟨p, hp, fun g hg => ?_⟩
      rcases List.mem_cons.mp hg with rfl | hg
      · rintro m ⟨⟩
      · exact hle g hg
    · intro g hg hpend
      rcases List.mem_cons.mp hg with rfl | hg
      · obtain ⟨m, ⟨⟩, -⟩ := hpend
      · obtain ⟨h1, h2⟩ := h.pending g hg hpend
        refine ⟨h1, h2.trans ?_⟩
        simp only [used, Range.stop, Sys.place]
        omega
    · intro g hg
      rcases List.mem_cons.mp hg with rfl | hg
      · simp only [Range.stop]
        omega
      · exact h.given g hg
    · refine fun _ => ⟨_, rfl, ?_⟩
      simp only [Range.Inside, used, Range.stop, Sys.place]
      omega
  · rintro r ⟨⟩
    refine ⟨_, by rw [Sys.place, hf.blocks]; exact List.mem_singleton_self _, ?_⟩
    simp only [Range.Inside, Range.stop]
    omega
  · rintro r ⟨⟩ g hg hpend
    obtain ⟨-, hstop⟩ := h.pending g hg hpend
    exact .inr hstop

theorem roundWord_le {n : ℕ} (hn : n < 2 ^ 31) : roundWord w n ≤ 2 ^ 31 := by
  have hpow : 2 ^ 32 ≤ 2 ^ w.bits := Nat.pow_le_pow_right (by norm_num) (by cases w <;> decide)
  rw [roundWord, Nat.mod_eq_of_lt (by omega)]
  omega

theorem le_roundPage {n : ℕ} (hn : n ≤ 2 ^ 31) : n ≤ roundPage w n := by
  have hpow : 2 ^ 32 ≤ 2 ^ w.bits := Nat.pow_le_pow_right (by norm_num) (by cases w <;> decide)
  rw [roundPage, Nat.mod_eq_of_lt (by omega)]
  omega

/-- `Malloc` has no larger blocks. -/
theorem le_of_sizeBits {n : ℕ} (h : (Allocator.Pool.sizeBits n).isSome) : n ≤ 2 ^ 25 := by
  obtain ⟨k, hk⟩ := Option.isSome_iff_exists.mp h
  obtain ⟨-, hle, hn, -⟩ := Allocator.sizeBitsLoop_spec hk
  exact hn.trans (Nat.pow_le_pow_right (by norm_num) (by
    simp only [Allocator.numSizes, Allocator.minBits] at hle ⊢
    omega))

theorem Core.create (h : s.Core w R) (he : Empty s.arr s.blocks s.ids) (hnum : num ≤ 2 ^ 31)
    (hid : isIdValid grant.sid) (hvram : ∀ base ∈ grant.vram, 0 < base ∧
      (Allocator.Pool.sizeBits (roundPage w num)).isSome ∧
      base + roundPage w num < 2 ^ w.bits) :
    Allocated w R s.given (s.create w num grant) := by
  have hquiet : s.Quiet := by
    rcases h.fence with ⟨-, hq⟩ | ⟨hne, -⟩
    · exact hq
    · exact absurd he.fence hne
  -- without a block the surface id is given back
  have hback : Allocated w R s.given (none, { s with arr := { s.arr with sid := idInvalid } }) := by
    refine ⟨⟨⟨h.ready, .inl ?_, .inl ⟨he.fence, hquiet⟩, ?_, h.given⟩, ?_⟩, nofun, nofun⟩
    · exact ⟨he.ptr, he.size, he.next, not_isIdValid_idInvalid, he.fence, he.blocks, he.ids⟩
    · exact fun g hg hp => absurd hp (hquiet g hg)
    · exact fun hne => absurd he.ptr hne
  unfold Sys.create
  split_ifs
  · cases hbase : grant.vram with
    | none =>
      simpa [Sys.purge, sync, freeBlock, freeSurface, he.fence, he.ptr, hid] using hback
    | some base =>
      obtain ⟨hpos, hbits, hfits⟩ := hvram base hbase
      have hf : Full w ⟨base, roundPage w num, s.arr.nextAvail, grant.sid, s.arr.fence⟩
          (⟨base, roundPage w num⟩ :: s.blocks) (grant.sid :: s.ids) :=
        ⟨hpos.ne', hid, by rw [he.blocks], by rw [he.ids], by simp [he.next],
          le_of_sizeBits hbits, hfits⟩
      have hcore : Core w R { s with
          arr := ⟨base, roundPage w num, s.arr.nextAvail, grant.sid, s.arr.fence⟩
          blocks := ⟨base, roundPage w num⟩ :: s.blocks
          ids := grant.sid :: s.ids } :=
        ⟨h.ready, .inr hf, .inl ⟨he.fence, hquiet⟩, fun g hg hp => absurd hp (hquiet g hg), h.given⟩
      exact hcore.place hf (by simpa [he.next] using le_roundPage hnum)
  · exact hback

theorem Inv.alloc {numBytes : ℕ} (h : s.Inv w R) (hl : s.Legal w R (.alloc numBytes wait grant)) :
    Allocated w R s.given (s.alloc w numBytes wait grant) := by
  obtain ⟨hn, hw, hid, hvram⟩ := hl
  have hnum := roundWord_le (w := w) hn
  unfold Sys.alloc
  dsimp only
  rcases h.holds with he | hf
  · rw [if_pos he.ptr]
    exact h.create he hnum hid.isIdValid hvram
  · rw [if_neg hf.ptr]
    have hnext := hf.next
    have hsize := hf.size
    have hpow : 2 ^ 32 ≤ 2 ^ w.bits := Nat.pow_le_pow_right (by norm_num) (by cases w <;> decide)
    rw [Nat.mod_eq_of_lt (by omega)]
    split_ifs with hroom hfit
    · exact h.place hf hroom
    · -- the block is used from its start again
      obtain ⟨hc, ht⟩ := h.synced hw
      have hf' : Full w { (s.sync wait).arr with nextAvail := 0 } (s.sync wait).blocks
          (s.sync wait).ids := by
        rw [ht.arr, ht.blocks, ht.ids]
        exact ⟨hf.ptr, hf.sid, hf.blocks, hf.ids, Nat.zero_le _, hf.size, hf.fits⟩
      have hcore : Core w R { s.sync wait with
          arr := { (s.sync wait).arr with nextAvail := 0 } } := by
        refine ⟨hc.ready, .inr hf', .inl ⟨?_, ht.quiet⟩, ?_, hc.given⟩
        · rw [ht.arr]
        · exact fun g hg hp => absurd hp (ht.quiet g hg)
      rw [← ht.given]
      refine hcore.place hf' ?_
      simpa [ht.arr] using hfit
    · obtain ⟨hi, he, hgiven⟩ := h.purge hw
      rw [← hgiven]
      exact hi.create he hnum hid.isIdValid hvram

/-! ### Uploads -/

/-- The range that was returned last is uploaded; its fence comes after all uploads so far. -/
theorem Inv.uploaded {g : Given} {given : List Given} {d : Svga} (h : s.Inv w R)
    (hgiven : s.given = g :: given) (hf : Full w s.arr s.blocks s.ids) (hr : d.Ready R)
    (hlog : s.dev.log <+: d.log) (hhead : s.dev.head ≤ d.head) (hfit : R.Fits d (.fence 0)) :
    Inv w R { s with
      dev := (d.insertFence true).2
      arr := { s.arr with fence := (d.insertFence true).1 }
      given := { g with mark := some (d.insertFence true).2.log.length } :: given } := by
  have hold := h.given
  have hpend := h.pending
  have hmark := h.mark_le
  rw [hgiven] at hold hpend hmark
  obtain ⟨g', hg', hin⟩ := h.last hf.ptr
  rw [hgiven, List.head?_cons, Option.mem_some_iff] at hg'
  subst hg'
  have hlen : (d.insertFence true).2.log.length = d.log.length + 1 := by
    rw [hr.insertFence_log, List.length_append, List.length_singleton]
  refine ⟨⟨hr.insertFence hfit, .inr ?_,
    .inr ⟨hr.insertFence_ne_zero, d.log.length, ?_, ?_⟩, ?_, ?_⟩,
    fun _ => ⟨_, rfl, hin⟩⟩
  · exact ⟨hf.ptr, hf.sid, hf.blocks, hf.ids, hf.next, hf.size, hf.fits⟩
  · rw [hr.insertFence_log]
    exact List.getElem?_concat_length
  · intro g₁ hg₁ m hm
    rcases List.mem_cons.mp hg₁ with rfl | hg₁
    · rw [← hlen]
      exact (Option.some.inj hm).symm.le
    · have := hmark g₁ (List.mem_cons_of_mem _ hg₁) m hm
      have := hlog.length_le
      omega
  · intro g₁ hg₁ hp
    rcases List.mem_cons.mp hg₁ with rfl | hg₁
    · exact hin
    · refine hpend g₁ (List.mem_cons_of_mem _ hg₁) (pending_mono ?_ hp)
      exact hhead.trans_eq Svga.insertFence_head.symm
  · intro g₁ hg₁
    rcases List.mem_cons.mp hg₁ with rfl | hg₁
    · exact hold g List.mem_cons_self
    · exact hold g₁ (List.mem_cons_of_mem _ hg₁)

theorem Inv.upload {numBytes wait₁ wait₂ : ℕ} (h : s.Inv w R)
    (hl : s.Legal w R (.upload numBytes wait₁ wait₂)) :
    (s.upload w numBytes wait₁ wait₂).Inv w R := by
  obtain ⟨hbytes, hfit₁, hfit₂⟩ := hl
  unfold Sys.upload
  cases hgiven : s.given with
  | nil => exact h
  | cons g given =>
    dsimp only
    split_ifs with hunder hover
    · exact h
    · exact h
    · rcases h.holds with he | hf
      · -- the pointer is not null, so it is beyond a block that is not there
        have hg := h.given g (hgiven ▸ List.mem_cons_self)
        have hle := hbytes g (by rw [hgiven]; rfl)
        rw [he.ptr, he.size, Nat.sub_zero, Nat.mod_eq_of_lt] at hover
        · omega
        · have := hg.2
          simp only [Range.stop] at this
          omega
      · have hr : ((s.dev.advance wait₁).commit dma).Ready R :=
          (h.ready.advance wait₁).commit rfl hfit₁
        refine h.uploaded hgiven hf (hr.advance wait₂) ?_ ?_ hfit₂
        · rw [Svga.advance_log, Svga.commit, Svga.advance_log]
          exact List.prefix_append _ _
        · exact (s.dev.advance_head_le wait₁).trans
            (((s.dev.advance wait₁).commit dma).advance_head_le wait₂)

/-! ### Runs -/

theorem Inv.device (h : s.Inv w R) {d : Svga} (hr : d.Ready R) (hlog : s.dev.log <+: d.log)
    (hhead : s.dev.head ≤ d.head) : { s with dev := d }.Inv w R :=
  ⟨h.toCore.device hr hlog hhead, h.last⟩

theorem Inv.step (h : s.Inv w R) {a : Act} (hl : s.Legal w R a) :
    Allocated w R s.given (s.step w a) := by
  cases a with
  | alloc numBytes wait grant => exact h.alloc hl
  | upload numBytes wait₁ wait₂ => exact ⟨h.upload hl, nofun, nofun⟩
  | purge wait => exact ⟨(h.purge hl).1, nofun, nofun⟩
  | insertFence =>
    refine ⟨h.device (h.ready.insertFence hl) ?_ Svga.insertFence_head.symm.le, nofun, nofun⟩
    rw [h.ready.insertFence_log]
    exact List.prefix_append _ _
  | command bytes =>
    exact ⟨h.device (h.ready.commit rfl hl) (List.prefix_append _ _) le_rfl, nofun, nofun⟩
  | process =>
    refine ⟨h.device h.ready.process ?_ Svga.process_head_le, nofun, nofun⟩
    rw [Svga.process_log]

end Sys

open Sys

/-- Over every sequence of calls the ranges lie in the block and apart from pending uploads, and
the block and the surface come and go together. -/
theorem proper_of_legal (w : SizeT) (R : Ring) (acts : List Act)
    (h : Runs.Each (exec w) (Legal w R) init acts) : Runs.Each (exec w) (Proper w) init acts := by
  refine Runs.each_of_each (I := Inv w R) inv_init ?_ (fun _ _ hs hl => (hs.step hl).inv) h
  intro s a hs hl
  have hstep := hs.step hl
  exact ⟨hstep.inside, hstep.apart, hstep.inv.paired⟩

/-- A page is filled and uploaded, and used again once the device has passed the fence. -/
def recycle : List Act :=
  [.alloc 4096 0 ⟨0, true, some 4096⟩, .upload 4096 0 0, .alloc 4 2 ⟨1, false, none⟩]

theorem proper_recycle :
    Runs.Each (exec .bits64) (Legal .bits64 ⟨4096, by decide⟩) init recycle ∧
      Runs.Each (exec .bits64) (Proper .bits64) init recycle := by
  have hlegal : Runs.Each (exec .bits64) (Legal .bits64 ⟨4096, by decide⟩) init recycle := by
    simp only [recycle, Runs.each_cons, Runs.each_nil, and_true]
    have hids : Ids.Reachable 1 ⟨.init 1, ∅, ∅⟩ := .init
    refine ⟨⟨by decide, fun h => absurd rfl h, ⟨1, _, hids, by decide, by decide +kernel⟩, ?_⟩,
      ⟨?_, ?_, ?_⟩, ⟨by decide, fun _ => .inl ?_,
        ⟨1, _, hids.allocSurfaceID (by decide), by decide +kernel, by decide +kernel⟩, nofun⟩⟩
    · rintro _ ⟨⟩
      exact ⟨by decide, by decide, by decide⟩
    · rintro _ ⟨⟩
      decide
    · change _ ≤ _
      decide
    · change _ ≤ _
      decide
    · decide
  exact ⟨hlegal, proper_of_legal .bits64 ⟨4096, by decide⟩ recycle hlegal⟩

end Cesvga2.GL.VertexArray
