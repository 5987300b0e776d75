import Cesvga2.Allocator.Bitmap

/-! The buddy allocator of video memory, as the FRAGILE build has it. Memory is
handed out in blocks of `2 ^ minBits` bytes grouped to powers of two. A free
block keeps its list links in its own first words and its order in its last
word; a live block keeps nothing, its order is found again from the bit map,
where the last block of an allocation is marked. Block offsets and byte counts
are 32-bit in the source; the pool's memory is a function from word indices,
counted from `poolStart`. -/

namespace Cesvga2.Allocator

/-- `Init` sets the two size fields to these constants. -/
def minBits : ℕ := 12

def numSizes : ℕ := 13

/-- `OURNULL`, the end of a free list. -/
def ournull : ℕ := 2 ^ 32 - 1

/-- `MAGIC`, the first word of every free block. -/
def magic : ℕ := 0xA7130423

/-- `LEN_OFFSET`, added to the order in the trailer word. -/
def lenOffset : ℕ := 1234

structure Pool where
  poolStart : ℕ
  poolBlocks : ℕ
  freeList : ℕ → ℕ
  map : Map
  freeBytes : ℕ
  mem : ℕ → ℕ

namespace Pool

/-- The index of the word at `poolStart + (off << minBits)`. -/
def ptr (off : ℕ) : ℕ := u32 (off * 2 ^ minBits) / 4

def offMagic : ℕ := 0

def offPrev : ℕ := 1

def offNext : ℕ := 2

/-- The words of a block of the given order. -/
def words (bits : ℕ) : ℕ := 2 ^ (bits + minBits) / 4

def write (a : Pool) (w v : ℕ) : Pool := { a with mem := Function.update a.mem w v }

def bzero (a : Pool) (w n : ℕ) : Pool :=
  { a with mem := fun q => if w ≤ q ∧ q < w + n then 0 else a.mem q }

def memcpy (a : Pool) (dst src n : ℕ) : Pool :=
  { a with mem := fun q => if dst ≤ q ∧ q < dst + n then a.mem (src + (q - dst)) else a.mem q }

/-- `if (off != OURNULL) nextPtr[OFF_PREV] = v`, the back link of a list neighbour. -/
def setPrev (a : Pool) (off v : ℕ) : Pool :=
  if off ≠ ournull then a.write (ptr off + offPrev) v else a

def setList (a : Pool) (bits off : ℕ) : Pool :=
  { a with freeList := Function.update a.freeList bits off }

def bitTest (a : Pool) (n : ℕ) : Bool := a.map.bitTest n

def bitSet (a : Pool) (n : ℕ) : Pool := { a with map := a.map.bitSet n }

def bitClear (a : Pool) (n : ℕ) : Pool := { a with map := a.map.bitClear n }

section Fields

variable (a : Pool) (w v n : ℕ)

@[simp] theorem write_poolStart : (a.write w v).poolStart = a.poolStart := rfl

@[simp] theorem write_poolBlocks : (a.write w v).poolBlocks = a.poolBlocks := rfl

@[simp] theorem write_freeList : (a.write w v).freeList = a.freeList := rfl

@[simp] theorem write_map : (a.write w v).map = a.map := rfl

@[simp] theorem write_freeBytes : (a.write w v).freeBytes = a.freeBytes := rfl

theorem write_mem (q : ℕ) : (a.write w v).mem q = if q = w then v else a.mem q :=
  Function.update_apply ..

@[simp] theorem bzero_poolStart : (a.bzero w n).poolStart = a.poolStart := rfl

@[simp] theorem bzero_poolBlocks : (a.bzero w n).poolBlocks = a.poolBlocks := rfl

@[simp] theorem bzero_freeList : (a.bzero w n).freeList = a.freeList := rfl

@[simp] theorem bzero_map : (a.bzero w n).map = a.map := rfl

@[simp] theorem bzero_freeBytes : (a.bzero w n).freeBytes = a.freeBytes := rfl

theorem bzero_mem (q : ℕ) :
    (a.bzero w n).mem q = if w ≤ q ∧ q < w + n then 0 else a.mem q := rfl

@[simp] theorem setPrev_poolStart : (a.setPrev w v).poolStart = a.poolStart := by
  rw [setPrev]; split <;> rfl

@[simp] theorem setPrev_poolBlocks : (a.setPrev w v).poolBlocks = a.poolBlocks := by
  rw [setPrev]; split <;> rfl

@[simp] theorem setPrev_freeList : (a.setPrev w v).freeList = a.freeList := by
  rw [setPrev]; split <;> rfl

@[simp] theorem setPrev_map : (a.setPrev w v).map = a.map := by
  rw [setPrev]; split <;> rfl

@[simp] theorem setPrev_freeBytes : (a.setPrev w v).freeBytes = a.freeBytes := by
  rw [setPrev]; split <;> rfl

theorem setPrev_mem (q : ℕ) : (a.setPrev w v).mem q =
    if w ≠ ournull ∧ q = ptr w + 1 then v else a.mem q := by
  rw [setPrev]
  split
  · next h => simp only [write_mem, offPrev, h, ne_eq, not_false_eq_true, true_and]
  · next h => simp [h]

@[simp] theorem setList_poolStart : (a.setList w v).poolStart = a.poolStart := rfl

@[simp] theorem setList_poolBlocks : (a.setList w v).poolBlocks = a.poolBlocks := rfl

@[simp] theorem setList_map : (a.setList w v).map = a.map := rfl

@[simp] theorem setList_freeBytes : (a.setList w v).freeBytes = a.freeBytes := rfl

@[simp] theorem setList_mem : (a.setList w v).mem = a.mem := rfl

@[simp] theorem setList_freeList :
    (a.setList w v).freeList = Function.update a.freeList w v := rfl

@[simp] theorem bitSet_poolStart : (a.bitSet n).poolStart = a.poolStart := rfl

@[simp] theorem bitSet_poolBlocks : (a.bitSet n).poolBlocks = a.poolBlocks := rfl

@[simp] theorem bitSet_freeBytes : (a.bitSet n).freeBytes = a.freeBytes := rfl

@[simp] theorem bitClear_poolStart : (a.bitClear n).poolStart = a.poolStart := rfl

@[simp] theorem bitClear_poolBlocks : (a.bitClear n).poolBlocks = a.poolBlocks := rfl

@[simp] theorem bitClear_freeBytes : (a.bitClear n).freeBytes = a.freeBytes := rfl

end Fields

/-! ### Putting store on the free lists -/

/-- Adds a single aligned range to a single free list. -/
def makeFree (a : Pool) (firstFree bitsFree : ℕ) (zap : Bool) : Pool :=
  let p := ptr firstFree
  let a := if zap then
      let a := a.bzero p (words bitsFree)
      { a with map := a.map.clearAll firstFree (firstFree + 2 ^ bitsFree) }
    else a
  let a := a.write (p + offMagic) magic
  let a := a.write (p + offPrev) ournull
  let nextOff := a.freeList bitsFree
  let a := a.write (p + offNext) nextOff
  let a := a.write (p + words bitsFree - 1) (bitsFree + lenOffset)
  let a := a.setPrev nextOff firstFree
  let a := a.setList bitsFree firstFree
  { a with freeBytes := u32 (a.freeBytes + 2 ^ (bitsFree + minBits)) }

/-- The first inner loop of `toFree`: doubles the size while the doubled block
is on its boundary and inside the chunk. The fuel is `numSizes - 1 - tryBits`. -/
def growSize (i pastBlock : ℕ) : (fuel tryBits : ℕ) → ℕ
  | 0, tryBits => tryBits
  | fuel + 1, tryBits =>
    if pastBlock < i + 2 ^ (tryBits + 1) then tryBits
    else if i % 2 ^ (tryBits + 1) ≠ 0 then tryBits
    else growSize i pastBlock fuel (tryBits + 1)

/-- The second inner loop of `toFree`: halves the size until the block is on its
boundary and inside the chunk; `none` when `tryBits` has gone below zero. -/
def shrinkSize (i pastBlock : ℕ) : (tryBits : ℕ) → Option ℕ
  | 0 => if pastBlock < i + 1 then none else some 0
  | tryBits + 1 =>
    if pastBlock < i + 2 ^ (tryBits + 1) ∨ i % 2 ^ (tryBits + 1) ≠ 0 then
      shrinkSize i pastBlock tryBits
    else some (tryBits + 1)

/-- The outer loop of `toFree`. Every pass frees at least one block, so
`pastBlock - i` passes are enough. -/
def toFreeLoop (pastBlock : ℕ) (zap : Bool) : (fuel : ℕ) → Pool → (i tryBits : ℕ) → Pool
  | 0, a, _, _ => a
  | fuel + 1, a, i, tryBits =>
    if i < pastBlock then
      match shrinkSize i pastBlock (growSize i pastBlock (numSizes - 1 - tryBits) tryBits) with
      | none => a
      | some tryBits =>
        toFreeLoop pastBlock zap fuel (a.makeFree i tryBits zap) (i + 2 ^ tryBits) tryBits
    else a

/-- Adds an arbitrary range of blocks to the free lists. -/
def toFree (a : Pool) (firstBlock pastBlock : ℕ) (zap : Bool) : Pool :=
  toFreeLoop pastBlock zap (pastBlock - firstBlock) a firstBlock 0

/-! ### Allocating -/

/-- The smallest order from `bits` on whose list is not empty. -/
def findSize (a : Pool) (bits : ℕ) : Option ℕ :=
  (List.range' bits (numSizes - bits)).find? fun retBits => a.freeList retBits ≠ ournull

/-- The test of a list neighbour: a block of the pool, free, linked back to `off`
by the word at `link`. -/
def corrupt (a : Pool) (neighbour link off : ℕ) : Prop :=
  a.poolBlocks ≤ neighbour ∨ a.mem (ptr neighbour + offMagic) ≠ magic ∨
    a.mem (ptr neighbour + link) ≠ off

instance (a : Pool) (neighbour link off : ℕ) : Decidable (a.corrupt neighbour link off) :=
  inferInstanceAs (Decidable (_ ∨ _ ∨ _))

/-- The end of `BuddyMalloc`: takes the head of the list of `retBits`, marks the
end of the allocated part and frees the rest. -/
def carve (a : Pool) (bits retBits : ℕ) : Pool :=
  let offset := a.freeList retBits
  let nextOffset := a.mem (ptr offset + offNext)
  let a := a.setPrev nextOffset ournull
  let a := a.setList retBits nextOffset
  let past := offset + 2 ^ bits
  let a := a.bitSet (past - 1)
  -- what `toFree` puts back is counted again there
  let a := { a with freeBytes := sub32 a.freeBytes (2 ^ (retBits + minBits)) }
  a.toFree past (offset + 2 ^ retBits) false

/-- Allocates a block of size `2 ^ (bits + minBits)` and returns its address. -/
def buddyMalloc (a : Pool) (bits : ℕ) : Except IOReturn (ℕ × Pool) :=
  if a.freeBytes < 2 ^ (bits + minBits) then .error .noMemory
  else match a.findSize bits with
  | none => .error .noMemory
  | some retBits =>
    let offset := a.freeList retBits
    let p := ptr offset
    let nextOffset := a.mem (p + offNext)
    if a.poolBlocks ≤ offset then .error .internalError
    else if a.mem (p + offMagic) ≠ magic then .error .internalError
    else if a.mem (p + offPrev) ≠ ournull then .error .internalError
    else if a.mem (p + words retBits - 1) ≠ retBits + lenOffset then .error .internalError
    else if nextOffset ≠ ournull ∧ a.corrupt nextOffset offPrev offset then
      .error .internalError
    else .ok (a.poolStart + u32 (offset * 2 ^ minBits), a.carve bits retBits)

/-- The loop of `BuddyAllocSize`, with fuel `numSizes - ourBits`. -/
def allocSizeLoop (a : Pool) (blockOff : ℕ) : (fuel ourBits : ℕ) → Except IOReturn ℕ
  | 0, _ => .error .notAligned
  | fuel + 1, ourBits =>
    if a.poolBlocks < blockOff + 2 ^ ourBits ∨ blockOff % 2 ^ ourBits ≠ 0 then
      .error .notAligned
    else if a.bitTest (blockOff + 2 ^ ourBits - 1) then .ok ourBits
    else a.allocSizeLoop blockOff fuel (ourBits + 1)

/-- Determines the order of a busy block. -/
def buddyAllocSize (a : Pool) (storage : ℕ) : Except IOReturn ℕ :=
  if storage < a.poolStart then .error .notAligned
  else
    let byteOff := storage - a.poolStart
    let blockOff := byteOff / 2 ^ minBits
    if byteOff ≠ blockOff * 2 ^ minBits then .error .notAligned
    else if a.poolBlocks ≤ blockOff then .error .notAligned
    else a.allocSizeLoop blockOff numSizes 0

/-- The loop of `Malloc` that rounds a size up to an order, with fuel
`numSizes - bits`; `none` for a size beyond the largest. -/
def sizeBitsLoop (bytes : ℕ) : (fuel bits : ℕ) → Option ℕ
  | 0, bits => if 2 ^ (bits + minBits) < bytes then none else some bits
  | fuel + 1, bits =>
    if 2 ^ (bits + minBits) < bytes then sizeBitsLoop bytes fuel (bits + 1) else some bits

def sizeBits (bytes : ℕ) : Option ℕ := sizeBitsLoop bytes numSizes 0

def malloc (a : Pool) (bytes : ℕ) : Except IOReturn (ℕ × Pool) :=
  match sizeBits bytes with
  | none => .error .noResources
  | some bits => a.buddyMalloc bits

/-! ### Freeing -/

/-- Takes a free buddy off its list and clears its metadata. Each error leaves
the pool as the writes before it left it. -/
def unlinkBuddy (a : Pool) (bits buddy : ℕ) : IOReturn × Pool :=
  let p := ptr buddy
  let a := a.write (ptr (buddy + 2 ^ bits) - 1) 0
  if a.mem (p + offMagic) ≠ magic then (.internalError, a)
  else if a.freeList bits = ournull then (.internalError, a)
  else
    let prevOffset := a.mem (p + offPrev)
    let nextOffset := a.mem (p + offNext)
    if prevOffset = ournull then
      if nextOffset ≠ ournull ∧ a.corrupt nextOffset offPrev buddy then (.internalError, a)
      else
        let a := a.setPrev nextOffset ournull
        (.success, (a.setList bits nextOffset).bzero p 3)
    else if a.corrupt prevOffset offNext buddy then (.internalError, a)
    else if nextOffset ≠ ournull ∧ a.corrupt nextOffset offPrev buddy then (.internalError, a)
    else
      let a := a.setPrev nextOffset prevOffset
      (.success, (a.write (ptr prevOffset + offNext) nextOffset).bzero p 3)

/-- The merge loop of `Free`, with fuel `numSizes - 1 - bits`. The pointer
`storage` of the source is the address of `blockOff` throughout. -/
def mergeLoop : (fuel : ℕ) → Pool → (bits blockOff : ℕ) → IOReturn × Pool × ℕ × ℕ
  | 0, a, bits, blockOff => (.success, a, bits, blockOff)
  | fuel + 1, a, bits, blockOff =>
    let buddy := blockOff ^^^ 2 ^ bits
    let pastBuddy := buddy + 2 ^ bits
    if a.poolBlocks < pastBuddy then (.success, a, bits, blockOff)
    else if a.bitTest (pastBuddy - 1) then (.success, a, bits, blockOff)
    else
      let trueBits := sub32 (a.mem (ptr pastBuddy - 1)) lenOffset
      -- a negative `int` is at least `2 ^ 31` here, so one comparison covers both ends
      if numSizes ≤ trueBits then (.internalError, a, bits, blockOff)
      else if trueBits ≠ bits then (.success, a, bits, blockOff)
      else match a.unlinkBuddy bits buddy with
      | (.success, a) => mergeLoop fuel a (bits + 1) (min buddy blockOff)
      | (r, a) => (r, a, bits, blockOff)

/-- The end of `Free`: the merged block goes on its list, and the store of the
block that was freed is counted. -/
def addFree (a : Pool) (bits blockOff oldBits : ℕ) : IOReturn × Pool :=
  let p := ptr blockOff
  let a := a.write (p + offMagic) magic
  let a := a.write (p + offPrev) ournull
  let nextOffset := a.freeList bits
  if nextOffset ≠ ournull ∧ a.corrupt nextOffset offPrev ournull then (.internalError, a)
  else
    let a := a.setPrev nextOffset blockOff
    let a := a.write (p + offNext) nextOffset
    let a := a.write (p + words bits - 1) (bits + lenOffset)
    let a := a.setList bits blockOff
    (.success, { a with freeBytes := u32 (a.freeBytes + 2 ^ (oldBits + minBits)) })

def free (a : Pool) (storage : ℕ) : IOReturn × Pool :=
  if storage = 0 then (.success, a)
  else match a.buddyAllocSize storage with
  | .error r => (r, a)
  | .ok oldBits =>
    let blockOff := u32 ((storage - a.poolStart) / 2 ^ minBits)
    let a := a.bitClear (blockOff + 2 ^ oldBits - 1)
    match mergeLoop (numSizes - 1 - oldBits) a oldBits blockOff with
    | (.success, a, bits, blockOff) => a.addFree bits blockOff oldBits
    | (r, a, _, _) => (r, a)

/-! ### Resizing -/

/-- The `canBits` loop of `Realloc`, less `minBits`. The block is known to be
large enough, so the loop ends by its own order and that is the fuel. -/
def canBitsLoop (size : ℕ) : (fuel canBits : ℕ) → ℕ
  | 0, canBits => canBits
  | fuel + 1, canBits =>
    if 2 ^ (canBits + minBits) < size then canBitsLoop size fuel (canBits + 1) else canBits

/-- Returns the code, what was stored through `newPtr` if anything was, and the
pool. -/
def realloc (a : Pool) (storage size : ℕ) : IOReturn × Option ℕ × Pool :=
  if size = 0 then
    let (r, a) := a.free storage
    (r, none, a)
  else if storage = 0 then
    match a.malloc size with
    | .error r => (r, none, a)
    | .ok (new, a) => (.success, some new, a)
  else match a.buddyAllocSize storage with
  | .error r => (r, none, a)
  | .ok bits =>
    if 2 ^ (bits + minBits) < size then
      match a.malloc size with
      | .error r => (r, none, a)
      | .ok (new, a) =>
        let a := a.memcpy ((new - a.poolStart) / 4) ((storage - a.poolStart) / 4) (words bits)
        match a.free storage with
        | (.success, a) => (.success, some new, a)
        | (r, a) => (r, some new, (a.free new).2)
    else
      let canBits := canBitsLoop size bits 0
      if bits ≤ canBits then (.success, some storage, a)
      else
        let blockNo := u32 ((storage - a.poolStart) / 2 ^ minBits)
        let a := a.bitSet (blockNo + 2 ^ canBits - 1)
        let a := a.bitClear (blockNo + 2 ^ bits - 1)
        (.success, some storage, a.toFree (blockNo + 2 ^ canBits) (blockNo + 2 ^ bits) false)

/-! ### Setting up and checking -/

/-- `ioMalloc` says whether the kernel had memory for the map; the pool's own
memory holds whatever it held. -/
def init (mem : ℕ → ℕ) (startAddress bytes : ℕ) (ioMalloc : Bool) : Except IOReturn Pool :=
  if startAddress % 2 ^ minBits ≠ 0 then .error .badArgument
  else if 2 ^ 32 ≤ bytes then .error .badArgument
  else if ioMalloc then
    let setBits := bytes / 2 ^ minBits
    .ok { poolStart := startAddress, poolBlocks := setBits, freeList := fun _ => ournull,
          map := fun _ => 0xFF#8, freeBytes := 0, mem := mem }
  else .error .noMemory

def release (a : Pool) (startOffsetBytes endOffsetBytes : ℕ) : IOReturn × Pool :=
  if startOffsetBytes % 2 ^ minBits ≠ 0 then (.badArgument, a)
  else if endOffsetBytes % 2 ^ minBits ≠ 0 then (.badArgument, a)
  else
    let startBlock := startOffsetBytes / 2 ^ minBits
    let pastBlockOff := endOffsetBytes / 2 ^ minBits
    if a.poolBlocks ≤ startBlock ∨ a.poolBlocks < pastBlockOff then (.badArgument, a)
    else match a.map.clearCheck startBlock pastBlockOff with
    | .error r => (r, a)
    | .ok map => (.success, { a with map := map }.toFree startBlock pastBlockOff false)

/-- The walk of `Check` along one list: how many blocks it saw and where it
stopped. The fuel is what is left of `maxBlocks`. -/
def checkList (a : Pool) (size : ℕ) : (fuel offset prevOffset : ℕ) → Except IOReturn ℕ
  | 0, offset, _ => if offset ≠ ournull then .error .internalError else .ok 0
  | fuel + 1, offset, prevOffset =>
    if offset = ournull then .ok 0
    else if a.poolBlocks ≤ offset then .error .internalError
    else if a.map.testAny offset (offset + 2 ^ size) then .error .internalError
    else if a.mem (ptr offset + offMagic) ≠ magic then .error .internalError
    else if a.mem (ptr offset + offPrev) ≠ prevOffset then .error .internalError
    else if a.mem (ptr offset + words size - 1) ≠ size + lenOffset then .error .internalError
    else match a.checkList size fuel (a.mem (ptr offset + offNext)) offset with
    | .error r => .error r
    | .ok blocksSeen => .ok (blocksSeen + 1)

/-- The loop of `Check` over the sizes: the code, the counts stored and the
blocks seen in all. -/
def checkSizes (a : Pool) : (sizes : List ℕ) → (seenStore : ℕ) → IOReturn × List ℕ × ℕ
  | [], seenStore => (.success, [], seenStore)
  | size :: sizes, seenStore =>
    match a.checkList size (a.poolBlocks / 2 ^ size) (a.freeList size) ournull with
    | .error r => (r, [], seenStore)
    | .ok blocksSeen =>
      let (r, counts, seenStore) := a.checkSizes sizes (u32 (seenStore + blocksSeen * 2 ^ size))
      (r, blocksSeen :: counts, seenStore)

def check (a : Pool) : IOReturn × List ℕ :=
  match a.checkSizes (List.range numSizes) 0 with
  | (.success, counts, seenStore) =>
    (if u32 (seenStore * 2 ^ minBits) ≠ a.freeBytes then .internalError else .success, counts)
  | (r, counts, _) => (r, counts)

end Pool

end Cesvga2.Allocator
