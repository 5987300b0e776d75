import Cesvga2.Surface.State

/-! Allocation of a surface's backing: in VRAM, else in a kernel buffer that the device
sees through a GMR, or the client's own memory. -/

namespace Cesvga2.Surface

/-- What the kernel and the rest of the driver answer during a call. -/
structure Env where
  /-- The block that `VRAMRealloc` returns. -/
  vram : Option ℕ
  /-- A memory descriptor can be made. -/
  descriptor : Bool
  /-- The id that `AllocGMRID` returns. -/
  gmrId : Option ℕ
  /-- The descriptor can be wired and its GMR created. -/
  prepared : Bool
  /-- The backing can be mapped in the task. -/
  mapped : Bool
  /-- The copy of the shape can be made. -/
  shape : Bool
  /-- `Have3D`. -/
  have3D : Bool
  /-- A host surface can be created. -/
  created : Bool
  /-- The device takes a transfer. -/
  dma : Bool
  /-- What the copies and the present that follow a transfer return. -/
  presented : IOReturn

namespace Backing

/-- 0 - no backing, 1 - backing in kernel, 2 - backing in client. -/
def classify (b : Backing) : ℕ :=
  if b.self.isSome then 1
  else if b.md.isSome then if b.gartPtr ≠ 0 then 2 else 1
  else 0

/-- `VendorTransferBuffer::prepare`; a buffer with a valid id is prepared already. -/
def prepare (b : Backing) (e : Env) : Bool × Backing :=
  match b.gmr with
  | .id _ => (true, b)
  | _ =>
    match e.gmrId with
    | .none => (false, { b with gmr := .invalid })
    | some n => if e.prepared then (true, { b with gmr := .id n })
      else (false, { b with gmr := .invalid })

/-- `VendorTransferBuffer::complete`. -/
def complete (b : Backing) : Backing :=
  match b.gmr with
  | .id _ => { b with gmr := .invalid }
  | _ => b

/-- `VendorTransferBuffer::discard`. -/
def discard (b : Backing) : Backing := { b with md := .none }

/-- A descriptor of `b.size` bytes, dropped again if it cannot be prepared. -/
def attach (b : Backing) (e : Env) (gartPtr : ℕ) : Bool × Backing :=
  match { b with md := some b.size }.prepare e with
  | (true, b') => (true, { b' with gartPtr := gartPtr })
  | (false, b') => (false, { b' with md := .none })

def wrapClientBacking (b : Backing) (client : ClientBacking) (size : ℕ) (e : Env) :
    Bool × Backing :=
  if b.classify = 2 ∧ b.gartPtr = 1 then (true, b)
  else
    let b := if b.classify = 0 then b else .empty
    let b := { b with offset := pageResidue client.addr, size := size }
    if e.descriptor then b.attach e 1 else (false, b)

def allocGMRBacking (b : Backing) (e : Env) : Bool × Backing :=
  if e.descriptor then { b with offset := 0 }.attach e 0 else (false, b)

/-- The backing that is reallocated: the kernel's without its transfer buffer, or none. -/
def forRealloc (b : Backing) : Backing :=
  match b.classify with
  | 1 => b.complete.discard
  | 2 => .empty
  | _ => b

/-- `allocBacking` for a source of `size` bytes. A backing in the kernel only grows. -/
def alloc (b : Backing) (client : ClientBacking) (size clientAddr : ℕ) (e : Env) :
    Bool × Backing :=
  if client.addr ≠ 0 then b.wrapClientBacking client size e
  else if b.classify = 1 ∧ size ≤ b.size then (true, b)
  else
    let b := { b.forRealloc with size := size, self := e.vram }
    match e.vram with
    | .none => b.allocGMRBacking e
    | some a => (true, { b with offset := sub64 a clientAddr, gmr := .vram })

end Backing

/-- `allocBacking`. -/
def Surf.allocBacking (s : Surf) (e : Env) : Bool × Surf :=
  let (ok, b) := s.backing.alloc s.client s.scale.size s.screen.clientAddr e
  (ok, { s with backing := b })

/-- The kernel window that `obtainKernelPtrs` returns, as its base and limit; `map` is
where a descriptor is mapped. -/
def Surf.obtainKernelPtrs (s : Surf) (map : Option ℕ) : Except IOReturn (ℕ × ℕ) :=
  match s.backing.md, s.backing.self with
  | some length, _ =>
    match map with
    | .none => .error .error
    | some m =>
      let t := u64 (s.backing.offset + s.scale.offset)
      .ok (u64 (m + t), sub64 length t)
  | .none, some self => .ok (u64 (self + s.scale.offset), sub64 s.backing.size s.scale.offset)
  | .none, .none => .error .notReady

end Cesvga2.Surface
