import Cesvga2.Basic

/-! The command FIFO of the SVGA device. Its memory is an array of 32-bit words
that begins with the FIFO registers; `NEXT_CMD` and `STOP` are byte offsets into
the ring between `MIN` and `MAX`. The guest reserves room, fills it in place or
in a bounce buffer, and commits; the device consumes from `STOP` on meanwhile.
A commit is the list of its stores to FIFO memory, in program order. -/

namespace Cesvga2.Fifo

/-! ### Registers, as word indices -/

def fifoMin : ℕ := 0

def fifoMax : ℕ := 1

def fifoNextCmd : ℕ := 2

def fifoStop : ℕ := 3

def fifoCapabilities : ℕ := 4

def fifoReserved : ℕ := 14

def fifoNumRegs : ℕ := 291

def capCursorBypass3 : ℕ := 1 <<< 4

def capReserve : ℕ := 1 <<< 6

def bounceBufferSize : ℕ := 0x10000

/-- The FIFO part of `SVGADevice`. -/
structure Dev where
  fifo : ℕ → ℕ
  bounce : ℕ → ℕ
  usingBounce : Bool
  reservedSize : ℕ
  fifoSize : ℕ

namespace Dev

def write (d : Dev) (i v : ℕ) : Dev := { d with fifo := Function.update d.fifo i v }

def hasFifoCap (d : Dev) (mask : ℕ) : Bool := d.fifo fifoCapabilities &&& mask != 0

/-- `extended` says whether the device has `SVGA_CAP_EXTENDED_FIFO`. -/
def fifoInit (d : Dev) (extended : Bool) : Bool × Dev :=
  if extended = false then (false, d)
  else
    let d := d.write fifoMin (fifoNumRegs * 4)
    let d := d.write fifoMax d.fifoSize
    let d := d.write fifoNextCmd (d.fifo fifoMin)
    let d := d.write fifoStop (d.fifo fifoMin)
    if d.hasFifoCap capCursorBypass3 = false then (false, d)
    else if d.hasFifoCap capReserve = false then (false, d)
    else (true, { d with reservedSize := 0, usingBounce := false })

theorem fifoInit_regs (d : Dev) :
    (d.fifoInit true).2.fifo fifoMin = fifoNumRegs * 4 ∧
    (d.fifoInit true).2.fifo fifoMax = (d.fifoInit true).2.fifoSize ∧
    (d.fifoInit true).2.fifo fifoNextCmd = fifoNumRegs * 4 ∧
    (d.fifoInit true).2.fifo fifoStop = fifoNumRegs * 4 := by
  simp only [fifoInit, Bool.true_eq_false, if_false]
  split_ifs <;> exact ⟨rfl, rfl, rfl, rfl⟩

/-! ### Reserving -/

/-- The tests at the start of `FIFOReserve`; it returns a null pointer when one
of them holds. -/
def rejects (d : Dev) (bytes : ℕ) : Prop :=
  bounceBufferSize < bytes ∨ sub32 (d.fifo fifoMax) (d.fifo fifoMin) < bytes ∨ bytes % 4 ≠ 0 ∨
    d.reservedSize ≠ 0

instance (d : Dev) (bytes : ℕ) : Decidable (d.rejects bytes) :=
  inferInstanceAs (Decidable (_ ∨ _ ∨ _ ∨ _))

inductive Grant where
  | full
  | inPlace
  | bounce
  deriving DecidableEq, Repr

/-- One pass of the loop of `FIFOReserve`, with the value of `STOP` it reads. -/
def reservePass (d : Dev) (bytes : ℕ) : Grant :=
  let max := d.fifo fifoMax
  let min := d.fifo fifoMin
  let next := d.fifo fifoNextCmd
  let stop := d.fifo fifoStop
  let granted := if d.hasFifoCap capReserve ∨ bytes ≤ 4 then Grant.inPlace else .bounce
  if stop ≤ next then
    if next + bytes < max ∨ (next + bytes = max ∧ min < stop) then granted
    else if u32 (sub32 max next + sub32 stop min) ≤ bytes then .full
    else .bounce
  else if next + bytes < stop then granted
  else .full

/-- What a pass leaves: `FIFOFull` only wakes the device. -/
def afterPass (d : Dev) (bytes : ℕ) : Grant → Dev
  | .full => d
  | .inPlace =>
    let d := { d with usingBounce := false }
    if d.hasFifoCap capReserve then d.write fifoReserved (u32 bytes) else d
  | .bounce => { d with usingBounce := true }

theorem afterPass_reservedSize (d : Dev) (bytes : ℕ) (g : Grant) :
    (d.afterPass bytes g).reservedSize = d.reservedSize := by
  cases g with
  | inPlace =>
    simp only [afterPass]
    split_ifs <;> rfl
  | _ => rfl

/-- Word `i` of the buffer that `FIFOReserve` returned. -/
def reservedWord (d : Dev) (i : ℕ) : ℕ :=
  if d.usingBounce then d.bounce i else d.fifo (d.fifo fifoNextCmd / 4 + i)

def fill (d : Dev) (i v : ℕ) : Dev :=
  if d.usingBounce then { d with bounce := Function.update d.bounce i v }
  else d.write (d.fifo fifoNextCmd / 4 + i) v

/-! ### Committing -/

/-- A store to FIFO memory. `shows` are the words that a store to `NEXT_CMD` hands
to the device. -/
structure Store where
  index : ℕ
  value : ℕ
  shows : List ℕ := []
  deriving DecidableEq, Repr

/-- `memcpy` of `n` words of the bounce buffer. -/
def copyStores (bounce : ℕ → ℕ) (dst src n : ℕ) : List Store :=
  (List.range n).map fun j => ⟨dst + j, bounce (src + j), []⟩

/-- The word loop of `FIFOCommit` without the reserve capability, from word `k` of
the bounce buffer on. -/
def wordLoop (bounce : ℕ → ℕ) (min max : ℕ) : (n k next : ℕ) → List Store
  | 0, _, _ => []
  | n + 1, k, next =>
    let next' := if u32 (next + 4) = max then min else u32 (next + 4)
    ⟨next / 4, bounce k, []⟩ :: ⟨fifoNextCmd, next', [bounce k]⟩ ::
      wordLoop bounce min max n (k + 1) next'

def commitWords (d : Dev) (bytes : ℕ) : List ℕ := (List.range (bytes / 4)).map d.reservedWord

/-- What of a bounced command fits before the end of the ring. -/
def chunkSize (d : Dev) (bytes : ℕ) : ℕ :=
  let chunk := sub32 (d.fifo fifoMax) (d.fifo fifoNextCmd)
  if bytes < chunk then u32 bytes else chunk

/-- The stores that bring the bounce buffer into the ring. -/
def bounceStores (d : Dev) (bytes chunk : ℕ) : List Store :=
  if d.hasFifoCap capReserve then
    ⟨fifoReserved, u32 bytes, []⟩ :: (copyStores d.bounce (d.fifo fifoNextCmd / 4) 0 (chunk / 4) ++
      copyStores d.bounce (d.fifo fifoMin / 4) (chunk / 4) ((bytes - chunk) / 4))
  else wordLoop d.bounce (d.fifo fifoMin) (d.fifo fifoMax) (bytes / 4) 0 (d.fifo fifoNextCmd)

/-- The store that moves `NEXT_CMD` past a whole command. -/
def publishStore (d : Dev) (bytes : ℕ) : Store :=
  let next := u32 (d.fifo fifoNextCmd + u32 bytes)
  { index := fifoNextCmd
    value := if d.fifo fifoMax ≤ next then sub32 next (sub32 (d.fifo fifoMax) (d.fifo fifoMin))
      else next
    shows := d.commitWords bytes }

/-- The stores of `FIFOCommit` once its two tests have passed. -/
def commitStores (d : Dev) (bytes : ℕ) : List Store :=
  (if d.usingBounce then d.bounceStores bytes (d.chunkSize bytes) else []) ++
    (if d.usingBounce = false ∨ d.hasFifoCap capReserve then [d.publishStore bytes] else []) ++
    if d.hasFifoCap capReserve then [⟨fifoReserved, 0, []⟩] else []

theorem commitStores_inPlace {d : Dev} {bytes : ℕ} (hu : d.usingBounce = false) :
    d.commitStores bytes = d.publishStore bytes ::
      if d.hasFifoCap capReserve then [⟨fifoReserved, 0, []⟩] else [] := by
  simp [commitStores, hu]

theorem commitStores_words {d : Dev} {bytes : ℕ} (hu : d.usingBounce = true)
    (hr : d.hasFifoCap capReserve = false) : d.commitStores bytes =
      wordLoop d.bounce (d.fifo fifoMin) (d.fifo fifoMax) (bytes / 4) 0 (d.fifo fifoNextCmd) := by
  simp [commitStores, bounceStores, hu, hr]

theorem commitStores_copies {d : Dev} {bytes : ℕ} (hu : d.usingBounce = true)
    (hr : d.hasFifoCap capReserve = true) : d.commitStores bytes =
      ⟨fifoReserved, u32 bytes, []⟩ ::
        (copyStores d.bounce (d.fifo fifoNextCmd / 4) 0 (d.chunkSize bytes / 4) ++
        (copyStores d.bounce (d.fifo fifoMin / 4) (d.chunkSize bytes / 4)
          ((bytes - d.chunkSize bytes) / 4) ++
        [d.publishStore bytes, ⟨fifoReserved, 0, []⟩])) := by
  rw [commitStores, bounceStores, if_pos hu, if_pos hr, if_pos (.inr hr), if_pos hr]
  rw [List.cons_append, List.cons_append, List.append_assoc, List.append_assoc,
    List.singleton_append]

end Dev

/-! ### Guest and device together -/

/-- Where the guest is: outside the FIFO functions, in the loop of `FIFOReserve`,
or in `FIFOCommit` with these stores to go. -/
inductive Pc where
  | idle
  | reserving (bytes : ℕ)
  | committing (stores : List Dev.Store)
  deriving DecidableEq, Repr

def Pc.ofStores : List Dev.Store → Pc
  | [] => .idle
  | stores => .committing stores

/-- `commands` are the contents of the committed buffers, `committed` the words
that `NEXT_CMD` has passed, `consumed` the words the device has read. -/
structure World where
  dev : Dev
  pc : Pc
  commands : List (List ℕ)
  committed : List ℕ
  consumed : List ℕ

inductive Act where
  | reserve (bytes : ℕ)
  | retry
  | fill (i v : ℕ)
  | commit (bytes : ℕ)
  | store
  | consume

namespace Act

/-- The client writes inside its reservation and commits no more than it; the
device stops at `NEXT_CMD`. -/
def Legal (w : World) : Act → Prop
  | reserve _ => w.pc = .idle
  | retry => ∃ bytes, w.pc = .reserving bytes
  | fill i _ => w.pc = .idle ∧ 4 * i < w.dev.reservedSize
  | commit bytes => w.pc = .idle ∧ bytes ≤ w.dev.reservedSize
  | store => ∃ s ss, w.pc = .committing (s :: ss)
  | consume => w.dev.fifo fifoNextCmd ≠ w.dev.fifo fifoStop

def exec (w : World) : Act → World
  | reserve bytes =>
    if w.dev.rejects bytes then w
    else { w with dev := { w.dev with reservedSize := bytes }, pc := .reserving bytes }
  | retry =>
    match w.pc with
    | .reserving bytes =>
      let g := w.dev.reservePass bytes
      { w with dev := w.dev.afterPass bytes g, pc := if g = .full then w.pc else .idle }
    | _ => w
  | fill i v => { w with dev := w.dev.fill i v }
  | commit bytes =>
    if bytes % 4 ≠ 0 ∨ w.dev.reservedSize = 0 then w
    else { w with
      dev := { w.dev with reservedSize := 0 }
      pc := .ofStores (w.dev.commitStores bytes)
      commands := w.commands ++ [w.dev.commitWords bytes] }
  | store =>
    match w.pc with
    | .committing (s :: ss) => { w with
        dev := w.dev.write s.index s.value
        pc := .ofStores ss
        committed := w.committed ++ s.shows }
    | _ => w
  | consume =>
    let stop := w.dev.fifo fifoStop
    { w with
      dev := w.dev.write fifoStop
        (if stop + 4 = w.dev.fifo fifoMax then w.dev.fifo fifoMin else stop + 4)
      consumed := w.consumed ++ [w.dev.fifo (stop / 4)] }

/-- The words of FIFO memory that the guest stores to. -/
def targets (w : World) : Act → List ℕ
  | retry => [fifoReserved]
  | fill i _ => if w.dev.usingBounce then [] else [w.dev.fifo fifoNextCmd / 4 + i]
  | store =>
    match w.pc with
    | .committing (s :: _) => [s.index]
    | _ => []
  | _ => []

end Act

/-- The words between `STOP` and `NEXT_CMD` around the ring. -/
def World.Unread (w : World) (i : ℕ) : Prop :=
  let stop := w.dev.fifo fifoStop / 4
  let next := w.dev.fifo fifoNextCmd / 4
  if stop ≤ next then stop ≤ i ∧ i < next
  else stop ≤ i ∧ i < w.dev.fifo fifoMax / 4 ∨ w.dev.fifo fifoMin / 4 ≤ i ∧ i < next

/-- A device that `FIFOInit` has set up. FIFO memory is an array of words larger
than the registers, and a 32-bit aperture leaves room for a bounce buffer past
it. Without the reserve capability `FIFOInit` gives up before it clears the
reservation; there it is as the driver's memory began. -/
structure Started (d : Dev) : Prop where
  init : ∃ d₀ : Dev, (d₀.fifoInit true).2 = d
  words : 4 ∣ d.fifoSize
  room : fifoNumRegs * 4 < d.fifoSize
  aperture : d.fifoSize + bounceBufferSize ≤ 2 ^ 32
  unreserved : d.reservedSize = 0

inductive Reachable : World → Prop
  | start {d : Dev} (h : Started d) : Reachable ⟨d, .idle, [], [], []⟩
  | step {w : World} (act : Act) (h : Reachable w) (hl : act.Legal w) : Reachable (act.exec w)

end Cesvga2.Fifo
