import Cesvga2.Surface.Calls

/-! Whether the windows into a surface's memory stay inside it. The scale is set without
a look at the backing, which only a lock reallocates, so the windows stay inside as long
as every call that sets the scale asks for a buffer that fits. -/

namespace Cesvga2.Surface

variable {s s' s₀ : Surf} {e : Env} {b : Backing} {gfb : Bool}

/-! ### The property -/

/-- Memory as the device names it. -/
structure Memory where
  gmr : Gmr
  first : ℕ
  past : ℕ

/-- The backing's memory in its GMR. -/
def Backing.guest (b : Backing) (clientAddr : ℕ) : Memory :=
  match b.md, b.self with
  | some length, _ => ⟨b.gmr, 0, length⟩
  | none, some self => ⟨.vram, self - clientAddr, self - clientAddr + b.size⟩
  | none, none => ⟨.invalid, 0, 0⟩

/-- The backing's memory in the kernel, as its start and length; `m` is where a
descriptor is mapped. -/
def Backing.kernel (b : Backing) (m : ℕ) : ℕ × ℕ :=
  match b.md, b.self with
  | some length, _ => (m, length)
  | none, some self => (self, b.size)
  | none, none => (0, 0)

def Box.Inside (box : Box) (bounds : Bounds) : Prop :=
  0 ≤ box.x ∧ 0 ≤ box.y ∧ box.x + box.w ≤ bounds.w.toInt ∧ box.y + box.h ≤ bounds.h.toInt

/-- The first byte of the pixel in column `i` and row `j` of a box. -/
def Transfer.pixel (t : Transfer) (box : Box) (bpp : ℕ) (i j : ℤ) : ℤ :=
  t.offset + (box.y + j) * t.pitch + (box.x + i) * bpp

structure Contained (s : Surf) : Prop where
  window : ∀ m base limit, (∀ length ∈ s.backing.md, m + length < 2 ^ 64) →
    s.obtainKernelPtrs (some m) = .ok (base, limit) →
      (s.backing.kernel m).1 ≤ base ∧
        base + limit ≤ (s.backing.kernel m).1 + (s.backing.kernel m).2
  reads : ∀ r framebufferMask e, s.lastRegion = some r → s.isIdentityScale r = true →
    ∀ t ∈ (s.flush framebufferMask e).2, ∀ box ∈ t.boxes, box.Inside r.bounds →
      ∀ i j, 0 ≤ i → i < box.w → 0 ≤ j → j < box.h →
        t.gmr = (s.backing.guest s.screen.clientAddr).gmr ∧
        ((s.backing.guest s.screen.clientAddr).first : ℤ) ≤ t.pixel box s.bpp i j ∧
        t.pixel box s.bpp i j + s.bpp ≤ (s.backing.guest s.screen.clientAddr).past

/-! ### Runs -/

/-- VRAM is mapped at `clientAddr` and has less than 4 GiB; the block lies in it. -/
def Env.InVram (e : Env) (s : Surf) : Prop :=
  ∀ a ∈ e.vram, s.screen.clientAddr ≤ a ∧ a - s.screen.clientAddr + s.scale.size < 2 ^ 32 ∧
    a + s.scale.size < 2 ^ 64

/-- The states that calls lead to, each call meeting the condition `P`. -/
inductive Run (P : Surf → Call → Prop) (s₀ : Surf) : Surf → Prop where
  | start : Run P s₀ s₀
  | call {s : Surf} (c : Call) (e : Env) (h : Run P s₀ s) (hP : P s c) (he : e.InVram s) :
      Run P s₀ (s.exec e c).2

/-- A surface that has an id and nothing else. -/
structure Fresh (s : Surf) : Prop where
  backing : s.backing = .empty
  client : s.client = .absent
  scale : s.scale = ⟨⟨0, 0, 0, 0⟩, 0, 0, 0, 0, 0⟩

/-! ### The condition -/

namespace Surf

/-- The pitch that the scale is to have. -/
def pitch (s : Surf) (gfb : Bool) : ℕ :=
  if gfb then s.screen.rowBytes
  else if s.isClientBackingValid then s.client.rowbytes
  else s.scale.sourceW.toInt.toNat * s.bpp

/-- The bytes of memory that a lock will find for the source. -/
def bytes (s : Surf) (gfb : Bool) : ℕ :=
  if gfb then s.screen.fbSize - pageResidue s.client.addr
  else if s.isClientBackingValid then s.client.size
  else s.scale.sourceH.toInt.toNat * (s.scale.sourceW.toInt.toNat * s.bpp)

/-- The buffer's rectangle lies in the first `room` bytes of the source. -/
structure Within (s : Surf) (gfb : Bool) (room : ℕ) : Prop where
  first : s.scale.buffer.y.toInt * s.pitch gfb + s.scale.buffer.x.toInt * s.bpp ≤ room
  last : 0 < s.scale.buffer.w.toInt → 0 < s.scale.buffer.h.toInt →
    (s.scale.buffer.y.toInt + s.scale.buffer.h.toInt - 1) * s.pitch gfb +
      (s.scale.buffer.x.toInt + s.scale.buffer.w.toInt) * s.bpp ≤ room

end Surf

/-- The bytes of the backing from where the source starts. -/
def Backing.room (b : Backing) : ℕ :=
  match b.md with
  | some length => length - b.offset
  | none => b.size

/-- A source and a buffer that fit the memory a lock will find for them, and the backing
that the surface has. -/
structure Surf.Proper (s : Surf) (gfb : Bool) : Prop where
  x_nonneg : 0 ≤ s.scale.buffer.x.toInt
  y_nonneg : 0 ≤ s.scale.buffer.y.toInt
  source : gfb = false → s.isClientBackingValid = false →
    0 ≤ s.scale.sourceW.toInt ∧ 0 ≤ s.scale.sourceH.toInt
  residue : gfb = true → pageResidue s.client.addr ≤ s.screen.fbSize
  pitch_lt : s.pitch gfb < 2 ^ 32
  bytes_le : s.bytes gfb + 2 * pageSize ≤ 2 ^ 32
  own : s.Within gfb (s.bytes gfb)
  held : s.isBackingValid = true → s.Within gfb s.backing.room

/-- The shape is let through to where it sets the scale, with this memory of the client's. -/
def Shapes (s : Surf) (a : Surf.Shape) (r : Region) (client : ClientBacking) : Prop :=
  (r.bytes ≤ a.rgnSize ∧ a.rgnSize ≤ 4096) ∧
    (a.options.testBit 0 ∧ a.options.testBit 2 ∧ a.options.testBit 3) ∧
    if ¬ s.videoMode ∧ r.isEmpty then s.wID ≠ 1 ∧ client = .absent
    else s.haveID ∧
      if a.backing = 0 then client = .absent else a.client s.bpp r.bounds = .ok client

/-- Each call that sets the scale asks for a buffer that fits. -/
def Call.Fits (s : Surf) : Call → Prop
  | .setScale (some scaling) => { s with scale := scaling }.Proper false
  | .contextScaleSurface true width height =>
    (s.identityScale (.ofNat width) (.ofNat height)).Proper false
  | .setShape a => ∀ r ∈ a.rgn, ∀ client, Shapes s a r client →
      ({ s with client := client }.shapeGeometry r.bounds).Proper s.shadowsGFB
  | _ => True

end Cesvga2.Surface
