import Cesvga2.Surface.Window

/-! The windows of a surface stay inside its memory in every run whose calls fit. Each
call either leaves the scale and the memory, or sets a scale that the memory covers, or
finds memory that covers the scale. -/

namespace Cesvga2.Surface

variable {s s' s₀ : Surf} {e : Env} {b : Backing} {gfb : Bool} {room : ℕ}

/-! ### Scales -/

/-- Memory of `room` bytes has the buffer of a scale in it. -/
structure Scaling.Covered (sc : Scaling) (bpp room : ℕ) : Prop where
  first : sc.offset ≤ room
  last : 0 < sc.buffer.w.toInt → 0 < sc.buffer.h.toInt →
    sc.offset + (sc.buffer.h.toInt - 1) * sc.pitch + sc.buffer.w.toInt * bpp ≤ room

theorem Scaling.Covered.mono {sc : Scaling} {bpp room' : ℕ} (h : sc.Covered bpp room)
    (hle : room ≤ room') : sc.Covered bpp room' :=
  ⟨h.first.trans hle, fun hw hh => (h.last hw hh).trans (by exact_mod_cast hle)⟩

theorem pageSize_eq : pageSize = 4096 := rfl

theorem pageResidue_lt (addr : ℕ) : pageResidue addr < 4096 :=
  Nat.mod_lt addr (show 0 < pageSize by decide)

theorem le_roundUp {n : ℕ} (h : n + pageSize ≤ 2 ^ 32) : n ≤ roundUp n := by
  rw [pageSize_eq] at h
  rw [roundUp, pageSize_eq, u32_of_lt (by omega)]
  omega

theorem roundUp_lt (n : ℕ) : roundUp n < 2 ^ 32 := by
  have := u32_lt (n + (pageSize - 1))
  rw [roundUp, pageSize_eq] at *
  omega

theorem ofInt32_short {z : Int16} (h : 0 ≤ z.toInt) : ofInt32 z.toInt = z.toInt.toNat := by
  have hlt := z.toInt_lt
  have := ofInt32_of_nonneg h (by omega)
  omega

namespace Surf.Proper

theorem sourcePitch_eq (h : s.Proper gfb) : s.sourcePitch gfb = s.pitch gfb := by
  have hlt := h.pitch_lt
  unfold Surf.pitch at *
  unfold Surf.sourcePitch
  split_ifs at hlt ⊢ with hg hc
  · rfl
  · exact u32_of_lt hlt
  · have hw := (h.source (by simpa using hg) (by simpa using hc)).1
    rw [ofInt32_short hw, u32_of_lt hlt]

/-- The size leaves room for the residue of the client's address. -/
theorem le_sourceSize (h : s.Proper gfb) :
    s.bytes gfb + pageResidue s.client.addr ≤ roundUp (s.sourceSize gfb) := by
  have hle := h.bytes_le
  have hres := pageResidue_lt s.client.addr
  have hpitch := h.sourcePitch_eq
  unfold Surf.bytes at *
  unfold Surf.sourceSize
  rw [pageSize_eq] at hle
  split_ifs at hle ⊢ with hg hc
  · have hr := h.residue hg
    rw [u32_of_lt (by omega)]
    have := le_roundUp (n := s.screen.fbSize) (by rw [pageSize_eq]; omega)
    omega
  · rw [u32_of_lt (by omega)]
    exact le_roundUp (by rw [pageSize_eq]; omega)
  · have hg' : gfb = false := by simpa using hg
    have hc' : s.isClientBackingValid = false := by simpa using hc
    have hh := (h.source hg' hc').2
    have haddr : pageResidue s.client.addr = 0 := by
      have : s.client.addr = 0 := by simpa [Surf.isClientBackingValid] using hc'
      rw [this]
      rfl
    subst hg'
    have hpitch' : s.pitch false = s.scale.sourceW.toInt.toNat * s.bpp := by
      simp [Surf.pitch, hc']
    rw [hpitch, hpitch', ofInt32_short hh, u32_of_lt (by omega), haddr, Nat.add_zero]
    exact le_roundUp (by rw [pageSize_eq]; omega)

theorem offset_eq (h : s.Proper gfb) : ((s.calculateScaleParameters gfb).scale.offset : ℤ) =
    s.scale.buffer.y.toInt * s.pitch gfb + s.scale.buffer.x.toInt * s.bpp := by
  have hsum : ((s.scale.buffer.y.toInt.toNat * s.pitch gfb +
      s.scale.buffer.x.toInt.toNat * s.bpp : ℕ) : ℤ) =
      s.scale.buffer.y.toInt * s.pitch gfb + s.scale.buffer.x.toInt * s.bpp := by
    push_cast
    rw [Int.toNat_of_nonneg h.x_nonneg, Int.toNat_of_nonneg h.y_nonneg]
  have hle : s.scale.buffer.y.toInt.toNat * s.pitch gfb +
      s.scale.buffer.x.toInt.toNat * s.bpp ≤ s.bytes gfb := by
    exact_mod_cast hsum ▸ h.own.first
  have hbytes := h.bytes_le
  rw [pageSize_eq] at hbytes
  show ((u32 (ofInt32 s.scale.buffer.y.toInt * s.sourcePitch gfb +
    ofInt32 s.scale.buffer.x.toInt * s.bpp) : ℕ) : ℤ) = _
  rw [ofInt32_short h.x_nonneg, ofInt32_short h.y_nonneg, h.sourcePitch_eq,
    u32_of_lt (by omega), hsum]

/-- The scale that is computed is covered by whatever holds the buffer. -/
theorem covered (h : s.Proper gfb) (hw : s.Within gfb room) :
    (s.calculateScaleParameters gfb).scale.Covered s.bpp room := by
  have hoff := h.offset_eq
  have hpitch : (s.calculateScaleParameters gfb).scale.pitch = s.pitch gfb := h.sourcePitch_eq
  have hbuffer : (s.calculateScaleParameters gfb).scale.buffer = s.scale.buffer := rfl
  constructor
  · have := hw.first
    omega
  · intro hpos hpos'
    have hlast := hw.last hpos hpos'
    rw [hoff, hpitch, hbuffer]
    calc _ = (s.scale.buffer.y.toInt + s.scale.buffer.h.toInt - 1) * s.pitch gfb +
        (s.scale.buffer.x.toInt + s.scale.buffer.w.toInt) * s.bpp := by ring
      _ ≤ room := hlast

end Surf.Proper

/-! ### Backings -/

/-- A descriptor with its GMR, or a block of VRAM, or no memory and no GMR. -/
structure Backing.Sound (b : Backing) (clientAddr : ℕ) : Prop where
  md : ∀ length ∈ b.md, b.self = none ∧ b.offset ≤ length ∧ length < 2 ^ 32
  self : ∀ a ∈ b.self, b.gmr = .vram ∧ b.offset = a - clientAddr ∧
    a - clientAddr + b.size < 2 ^ 32 ∧ a + b.size < 2 ^ 64
  noId : b.md = none → ∀ n, b.gmr ≠ .id n

namespace Backing

variable {client : ClientBacking} {size clientAddr gartPtr : ℕ}

theorem sound_empty : empty.Sound clientAddr :=
  ⟨by simp [empty], by simp [empty], by simp [empty]⟩

theorem attach_cases (hb : ∀ n, b.gmr ≠ .id n) :
    (∃ n, b.attach e gartPtr =
      (true, { b with md := some b.size, gmr := .id n, gartPtr := gartPtr })) ∨
    b.attach e gartPtr = (false, { b with md := none, gmr := .invalid }) := by
  obtain ⟨self, md, offset, sz, gmr, gart⟩ := b
  unfold attach prepare
  cases gmr with
  | id n => exact absurd rfl (hb n)
  | invalid | vram =>
    cases e.gmrId with
    | none => exact .inr rfl
    | some n =>
      cases e.prepared with
      | true => exact .inl ⟨n, rfl⟩
      | false => exact .inr rfl

/-- A descriptor for a backing that has no memory. -/
theorem sound_attach (hself : b.self = none) (hb : ∀ n, b.gmr ≠ .id n) (ho : b.offset ≤ b.size)
    (hs : b.size < 2 ^ 32) : (b.attach e gartPtr).2.Sound clientAddr ∧
      ((b.attach e gartPtr).2.isValid = true →
        (b.attach e gartPtr).2.room = b.size - b.offset) := by
  rcases attach_cases hb with ⟨n, h⟩ | h
  · rw [h]
    refine ⟨⟨?_, by simp [hself], by simp⟩, fun _ => rfl⟩
    rintro _ ⟨⟩
    exact ⟨hself, ho, hs⟩
  · rw [h]
    exact ⟨⟨by simp, by simp [hself], by simp⟩, by simp [isValid, hself]⟩

/-- No memory and no GMR. -/
structure Bare (b : Backing) : Prop where
  self : b.self = none
  md : b.md = none
  noId : ∀ n, b.gmr ≠ .id n

theorem bare_empty : empty.Bare := ⟨rfl, rfl, by simp [empty]⟩

theorem Bare.sound (h : b.Bare) : b.Sound clientAddr :=
  ⟨by simp [h.md], by simp [h.self], fun _ => h.noId⟩

theorem Bare.isValid (h : b.Bare) : b.isValid = false := by
  simp [Backing.isValid, h.self, h.md]

/-- A descriptor, if one can be made and prepared. -/
theorem Bare.attach {b' : Backing} (h : b.Bare) (h' : b'.Bare) (ho : b.offset ≤ b.size)
    (hs : b.size < 2 ^ 32) :
    (if e.descriptor then b.attach e gartPtr else (false, b')).2.Sound clientAddr ∧
      ((if e.descriptor then b.attach e gartPtr else (false, b')).2.isValid = true →
        (if e.descriptor then b.attach e gartPtr else (false, b')).2.room = b.size - b.offset) := by
  cases e.descriptor with
  | true => exact sound_attach h.self h.noId ho hs
  | false => exact ⟨h'.sound, fun hv => absurd h'.isValid (by simpa using hv)⟩

theorem Sound.bare (h : b.Sound clientAddr) (h0 : b.classify = 0) : b.Bare := by
  have hmem : b.self = none ∧ b.md = none := by
    unfold classify at h0
    cases hself : b.self <;> cases hmd : b.md <;> simp_all
    split_ifs at h0
  exact ⟨hmem.1, hmem.2, h.noId hmem.2⟩

theorem Sound.wrapClientBacking (h : b.Sound clientAddr) (hr : pageResidue client.addr ≤ size)
    (hs : size < 2 ^ 32) : (b.wrapClientBacking client size e).2.Sound clientAddr ∧
      ((b.wrapClientBacking client size e).2.isValid = true →
        (b.wrapClientBacking client size e).2 = b ∨
          (b.wrapClientBacking client size e).2.room = size - pageResidue client.addr) := by
  unfold Backing.wrapClientBacking
  by_cases hreuse : b.classify = 2 ∧ b.gartPtr = 1
  · rw [if_pos hreuse]
    exact ⟨h, fun _ => .inl rfl⟩
  rw [if_neg hreuse]
  have hbare : (if b.classify = 0 then b else empty).Bare := by
    split_ifs with h0
    · exact h.bare h0
    · exact bare_empty
  generalize (if b.classify = 0 then b else empty) = b₀ at *
  have hnew : Bare { b₀ with offset := pageResidue client.addr, size := size } :=
    ⟨hbare.self, hbare.md, hbare.noId⟩
  obtain ⟨hsound, hroom⟩ := hnew.attach hnew hr hs
  exact ⟨hsound, fun hv => .inr (hroom hv)⟩

/-- What is left for `VRAMRealloc` has no descriptor and no GMR. -/
theorem Sound.forRealloc (h : b.Sound clientAddr) :
    b.forRealloc.md = none ∧ ∀ n, b.forRealloc.gmr ≠ .id n := by
  unfold Backing.forRealloc
  split
  · refine ⟨rfl, fun n => ?_⟩
    unfold complete discard
    cases hg : b.gmr <;> simp [hg]
  · exact ⟨rfl, by simp [empty]⟩
  · next h1 h2 =>
    have h0 : b.classify = 0 := by
      unfold classify at *
      split_ifs at * <;> simp_all
    exact ⟨(h.bare h0).md, (h.bare h0).noId⟩

/-- Memory is kept as it is or has room for the source. -/
theorem Sound.alloc (h : b.Sound clientAddr) (hr : pageResidue client.addr ≤ size)
    (hs : size < 2 ^ 32) (hv : ∀ a ∈ e.vram, clientAddr ≤ a ∧ a - clientAddr + size < 2 ^ 32 ∧
      a + size < 2 ^ 64) :
    (b.alloc client size clientAddr e).2.Sound clientAddr ∧
      ((b.alloc client size clientAddr e).2.isValid = true →
        (b.alloc client size clientAddr e).2 = b ∨
          (b.alloc client size clientAddr e).2.room = size - pageResidue client.addr) := by
  unfold Backing.alloc
  by_cases hc : client.addr ≠ 0
  · rw [if_pos hc]
    exact h.wrapClientBacking hr hs
  rw [if_neg hc]
  by_cases hgrown : b.classify = 1 ∧ size ≤ b.size
  · rw [if_pos hgrown]
    exact ⟨h, fun _ => .inl rfl⟩
  rw [if_neg hgrown]
  obtain ⟨hmd, hid⟩ := h.forRealloc
  have hres : pageResidue client.addr = 0 := by
    rw [not_not.mp hc]
    rfl
  cases hvram : e.vram with
  | none =>
    have hbare : Bare { b.forRealloc with size := size, self := none } := ⟨rfl, hmd, hid⟩
    have hnew : Bare { b.forRealloc with size := size, self := none, offset := 0 } :=
      ⟨rfl, hmd, hid⟩
    obtain ⟨hsound, hroom⟩ := hnew.attach hbare (Nat.zero_le _) hs
    exact ⟨hsound, fun hv => .inr ((hroom hv).trans (by rw [hres]))⟩
  | some a =>
    obtain ⟨hle, hlt, hend⟩ := hv a hvram
    have hoff : sub64 a clientAddr = a - clientAddr := sub64_of_le hle (by omega)
    refine ⟨⟨by simp [hmd], ?_, by simp⟩, fun _ => .inr ?_⟩
    · rintro _ ⟨⟩
      exact ⟨rfl, hoff, hlt, hend⟩
    · simp [room, hmd, hres]

end Backing

/-! ### Calls -/

/-- The backing is sound and covers the scale, and so would one that a lock finds. -/
structure Inv (s : Surf) : Prop where
  sound : s.backing.Sound s.screen.clientAddr
  size_lt : s.scale.size < 2 ^ 32
  residue : pageResidue s.client.addr ≤ s.scale.size
  own : s.scale.Covered s.bpp (s.scale.size - pageResidue s.client.addr)
  held : s.isBackingValid = true → s.scale.Covered s.bpp s.backing.room

namespace Inv

/-- A call that leaves the scale and the backing. -/
theorem of_eq (h : Inv s) (hb : s'.backing = s.backing) (hc : s'.client = s.client)
    (hs : s'.scale = s.scale) (hi : s'.screen = s.screen) (hp : s'.bpp = s.bpp) : Inv s' := by
  constructor
  · rw [hb, hi]
    exact h.sound
  · rw [hs]
    exact h.size_lt
  · rw [hs, hc]
    exact h.residue
  · rw [hs, hc, hp]
    exact h.own
  · rw [Surf.isBackingValid, hb, hs, hp]
    exact h.held

/-- Without the client's memory the room of a new backing is no smaller. -/
theorem dropClient (h : Inv s) : Inv { s with client := .absent } :=
  ⟨h.sound, h.size_lt, Nat.zero_le _, h.own.mono (Nat.sub_le_sub_left (Nat.zero_le _) _), h.held⟩

/-- A scale that fits. -/
theorem calculate (h : s.backing.Sound s.screen.clientAddr) (hp : s.Proper gfb) :
    Inv (s.calculateScaleParameters gfb) := by
  have hsize := hp.le_sourceSize
  refine ⟨h, roundUp_lt _, (Nat.le_add_left _ _).trans hsize, ?_, ?_⟩
  · exact (hp.covered hp.own).mono (Nat.le_sub_of_add_le hsize)
  · exact fun hv => hp.covered (hp.held hv)

theorem allocBacking (h : Inv s) (he : e.InVram s) : Inv (s.allocBacking e).2 := by
  obtain ⟨hsound, hroom⟩ := h.sound.alloc h.residue h.size_lt he
  refine ⟨hsound, h.size_lt, h.residue, h.own, fun hv => ?_⟩
  rcases hroom hv with heq | heq
  · have hheld : s.isBackingValid = true := by
      have := hv
      rwa [Surf.isBackingValid, show (s.allocBacking e).2.backing = s.backing from heq] at this
    show s.scale.Covered s.bpp (s.backing.alloc _ _ _ e).2.room
    rw [heq]
    exact h.held hheld
  · show s.scale.Covered s.bpp (s.backing.alloc _ _ _ e).2.room
    rw [heq]
    exact h.own

end Inv

/-- What the condition on a scale looks at. -/
structure Alike (s s' : Surf) : Prop where
  scale : s'.scale = s.scale
  client : s'.client = s.client
  screen : s'.screen = s.screen
  bpp : s'.bpp = s.bpp
  room : s'.backing.room = s.backing.room
  isValid : s'.backing.isValid = s.backing.isValid
  shadowsGFB : s'.shadowsGFB = s.shadowsGFB

namespace Alike

theorem isClientBackingValid (h : Alike s s') :
    s'.isClientBackingValid = s.isClientBackingValid := by
  rw [Surf.isClientBackingValid, h.client, Surf.isClientBackingValid]

theorem pitch (h : Alike s s') : s'.pitch gfb = s.pitch gfb := by
  rw [Surf.pitch, h.isClientBackingValid, h.scale, h.client, h.screen, h.bpp, Surf.pitch]

theorem bytes (h : Alike s s') : s'.bytes gfb = s.bytes gfb := by
  rw [Surf.bytes, h.isClientBackingValid, h.scale, h.client, h.screen, h.bpp, Surf.bytes]

theorem within (h : Alike s s') (hw : s.Within gfb room) : s'.Within gfb room := by
  constructor
  · rw [h.scale, h.bpp, h.pitch]
    exact hw.first
  · rw [h.scale, h.bpp, h.pitch]
    exact hw.last

theorem proper (h : Alike s s') (hp : s.Proper gfb) : s'.Proper gfb where
  x_nonneg := h.scale ▸ hp.x_nonneg
  y_nonneg := h.scale ▸ hp.y_nonneg
  source := by
    rw [h.isClientBackingValid, h.scale]
    exact hp.source
  residue := by
    rw [h.client, h.screen]
    exact hp.residue
  pitch_lt := h.pitch ▸ hp.pitch_lt
  bytes_le := h.bytes ▸ hp.bytes_le
  own := h.bytes ▸ h.within hp.own
  held hv := h.room ▸ h.within (hp.held (h.isValid.symm.trans hv))

theorem shapeGeometry (h : Alike s s') (bounds : Bounds) :
    Alike (s.shapeGeometry bounds) (s'.shapeGeometry bounds) := by
  unfold Surf.shapeGeometry Surf.identityScale
  rw [h.shadowsGFB, h.scale, h.screen]
  split_ifs
  · exact ⟨rfl, h.client, rfl, h.bpp, h.room, h.isValid, h.shadowsGFB⟩
  · exact ⟨rfl, h.client, rfl, h.bpp, h.room, h.isValid, h.shadowsGFB⟩

end Alike

namespace Inv

theorem shapeScale {bounds : Bounds} (h : s.backing.Sound s.screen.clientAddr)
    (hp : (s.shapeGeometry bounds).Proper s.shadowsGFB) : Inv (s.shapeScale bounds) := by
  apply calculate _ hp
  unfold Surf.shapeGeometry Surf.identityScale
  split_ifs <;> exact h

theorem keepShape {a : Surf.Shape} {r : Region} (h : s.backing.Sound s.screen.clientAddr)
    (hs : s.scale.size < 2 ^ 32) (ho : s.scale.Covered s.bpp s.scale.size)
    (hh : s.isBackingValid = true → s.scale.Covered s.bpp s.backing.room)
    (hp : (s.shapeGeometry r.bounds).Proper s.shadowsGFB) : Inv (s.keepShape a r e).2 := by
  unfold Surf.keepShape
  split_ifs
  · have halike : Alike s
        { s with lastRegion := some r, framebufferIndex := a.framebufferIndex } :=
      ⟨rfl, rfl, rfl, rfl, rfl, rfl, rfl⟩
    have := shapeScale (s := { s with
      lastRegion := some r
      framebufferIndex := a.framebufferIndex }) h ((halike.shapeGeometry _).proper hp)
    exact this.of_eq rfl rfl rfl rfl rfl
  · exact ⟨h, hs, Nat.zero_le _, ho, hh⟩

theorem clearShape (h : Inv s) : Inv s.clearShape := h.dropClient.of_eq rfl rfl rfl rfl rfl

theorem alike_clearShape : Alike { s with client := .absent } s.clearShape :=
  ⟨rfl, rfl, rfl, rfl, rfl, rfl, rfl⟩

theorem alike_setClient {client : ClientBacking} :
    Alike { s with client := client } (s.clearShape.setClient client) :=
  ⟨rfl, rfl, rfl, rfl, rfl, rfl, rfl⟩

theorem sound_setClient {client : ClientBacking} (h : s.backing.Sound s.screen.clientAddr) :
    (s.setClient client).backing.Sound s.screen.clientAddr := ⟨h.md, h.self, h.noId⟩

/-- A shape that is acted on; without client memory or with the memory it names. -/
theorem reshape {a : Surf.Shape} {r : Region} (h : Inv s)
    (hsize : r.bytes ≤ a.rgnSize ∧ a.rgnSize ≤ 4096)
    (hf : ∀ client, Shapes s a r client →
      ({ s with client := client }.shapeGeometry r.bounds).Proper s.shadowsGFB) :
    Inv (s.clearShape.reshape a r e).2 := by
  have hclear := h.clearShape
  have hnone : Shapes s a r .absent →
      (s.clearShape.shapeGeometry r.bounds).Proper s.clearShape.shadowsGFB := fun hs =>
    (alike_clearShape.shapeGeometry r.bounds).proper (hf .absent hs)
  unfold Surf.reshape
  split_ifs with h0 h23 hempty hw hid hback
  · exact hclear
  · have hgfb : s.clearShape.shadowsGFB = false := by simp [Surf.shadowsGFB, hw]
    have hgeo := hnone ⟨hsize, ⟨h0, h23⟩, (if_pos hempty).mpr ⟨hw, rfl⟩⟩
    rw [Surf.shapeGeometry, if_neg (by simp [hgfb])] at hgeo
    exact calculate hclear.sound (hgfb ▸ hgeo)
  · refine keepShape hclear.sound hclear.size_lt hclear.own hclear.held (hnone ?_)
    exact ⟨hsize, ⟨h0, h23⟩, (if_neg hempty).mpr ⟨hid, (if_pos hback).mpr rfl⟩⟩
  · cases hc : a.client s.clearShape.bpp r.bounds with
    | error rc => exact hclear
    | ok client =>
      have hs : Shapes s a r client :=
        ⟨hsize, ⟨h0, h23⟩, (if_neg hempty).mpr ⟨hid, (if_neg hback).mpr hc⟩⟩
      have hp := (alike_setClient.shapeGeometry r.bounds).proper (hf client hs)
      exact keepShape (sound_setClient hclear.sound) hclear.size_lt hclear.own hclear.held hp
  · exact hclear
  · exact hclear
  · exact hclear

theorem setShape {a : Surf.Shape} (h : Inv s) (hf : Call.Fits s (.setShape a)) :
    Inv (s.setShape a e).2 := by
  unfold Surf.setShape
  cases hr : a.rgn with
  | none => exact h
  | some r =>
    simp only
    split_ifs with hroom hmax
    · exact h
    · exact h
    · exact h.reshape ⟨not_lt.mp hroom, not_lt.mp hmax⟩ (hf r hr)

theorem allocAndMap (h : Inv s) (he : e.InVram s) : Inv (s.allocAndMap e).2 := by
  rw [Surf.allocAndMap_snd]
  exact h.allocBacking he

theorem finishReadLock (h : Inv s) : Inv (s.finishReadLock e).2 := by
  unfold Surf.finishReadLock Surf.copyGLSurfaceToBacking
  split_ifs
  · exact h
  · exact h.of_eq rfl rfl rfl rfl rfl
  · exact h

theorem allocForRead (h : Inv s) (he : e.InVram s) : Inv (s.allocForRead e).2 := by
  rw [Surf.allocForRead_snd]
  exact h.allocBacking he

theorem readLock {info : Bool} (h : Inv s) (he : e.InVram s) : Inv (s.readLock info e).2 := by
  have hlock : Inv { s with lockRead := true } := h.of_eq rfl rfl rfl rfl rfl
  have halloc := hlock.allocForRead he
  unfold Surf.readLock
  split_ifs
  · exact h
  · exact hlock.finishReadLock
  · cases hr : { s with lockRead := true }.allocForRead e with
    | mk ok s' =>
      rw [hr] at halloc
      cases ok with
      | true => exact halloc.finishReadLock
      | false => exact halloc.of_eq rfl rfl rfl rfl rfl
  · exact h
  · exact h

theorem takeWriteLock (h : Inv s) : Inv s.takeWriteLock := by
  unfold Surf.takeWriteLock
  split_ifs <;> exact h.of_eq rfl rfl rfl rfl rfl

theorem writeLock {info : Bool} (h : Inv s) (he : e.InVram s) : Inv (s.writeLock info e).2 := by
  have hlock := h.takeWriteLock
  have hvram : e.InVram s.takeWriteLock := by
    unfold Surf.takeWriteLock
    split_ifs <;> exact he
  have halloc := hlock.allocAndMap hvram
  unfold Surf.writeLock
  split_ifs
  · exact h
  · exact hlock
  · cases hr : s.takeWriteLock.allocAndMap e with
    | mk ok s' =>
      rw [hr] at halloc
      cases ok with
      | true => exact halloc
      | false => exact halloc.of_eq rfl rfl rfl rfl rfl
  · exact h
  · exact h

theorem contextLockMemory {info : Bool} (h : Inv s) (he : e.InVram s) :
    Inv (s.contextLockMemory info e).2 := by
  have hlock : Inv { s with lockContext := true } := h.of_eq rfl rfl rfl rfl rfl
  have halloc := hlock.allocAndMap he
  unfold Surf.contextLockMemory
  split_ifs
  · exact h
  · cases hr : { s with lockContext := true }.allocAndMap e with
    | mk ok s' =>
      rw [hr] at halloc
      cases ok with
      | true => exact halloc
      | false => exact halloc.of_eq rfl rfl rfl rfl rfl
  · exact h
  · exact h

theorem exec {c : Call} (h : Inv s) (hf : c.Fits s) (he : e.InVram s) : Inv (s.exec e c).2 := by
  cases c with
  | setScale scaling =>
    cases scaling with
    | none => exact h
    | some scaling => exact calculate h.sound hf
  | setShape a => exact h.setShape hf
  | contextScaleSurface fixedSource width height =>
    cases fixedSource with
    | false => exact h
    | true => exact calculate h.sound hf
  | readLock info => exact h.readLock he
  | writeLock info => exact h.writeLock he
  | contextLockMemory info => exact h.contextLockMemory he
  | readUnlock | writeUnlock | contextUnlockMemory => exact h.of_eq rfl rfl rfl rfl rfl
  | flush mask => exact h

end Inv

theorem Fresh.inv (h : Fresh s) : Inv s := by
  constructor
  · rw [h.backing]
    exact Backing.sound_empty
  · rw [h.scale]
    norm_num
  · rw [h.client]
    exact Nat.zero_le _
  · rw [h.scale, h.client]
    exact ⟨Nat.zero_le _, fun hw => absurd hw (by decide)⟩
  · rw [Surf.isBackingValid, h.backing]
    exact fun hv => absurd hv (by decide)

theorem Run.inv (h0 : Fresh s₀) (h : Run (fun s c => c.Fits s) s₀ s) : Inv s := by
  induction h with
  | start => exact h0.inv
  | call c e _ hf he ih => exact ih.exec hf he

/-! ### The windows -/

theorem Inv.window (h : Inv s) {m base limit : ℕ}
    (hm : ∀ length ∈ s.backing.md, m + length < 2 ^ 64)
    (hptr : s.obtainKernelPtrs (some m) = .ok (base, limit)) :
    (s.backing.kernel m).1 ≤ base ∧
      base + limit ≤ (s.backing.kernel m).1 + (s.backing.kernel m).2 := by
  have hheld := h.held
  unfold Surf.obtainKernelPtrs at hptr
  unfold Surf.isBackingValid Backing.isValid Backing.room at hheld
  unfold Backing.kernel
  cases hmd : s.backing.md with
  | some length =>
    obtain ⟨-, hoff, hlt⟩ := h.sound.md length hmd
    have hspace := hm length hmd
    rw [hmd] at hptr hheld
    have hfirst := (hheld (by simp)).first
    simp only at hfirst hptr ⊢
    rw [u64_of_lt (n := s.backing.offset + _) (by omega), sub64_of_le (by omega) (by omega),
      u64_of_lt (by omega)] at hptr
    obtain ⟨rfl, rfl⟩ : m + (s.backing.offset + s.scale.offset) = base ∧
        length - (s.backing.offset + s.scale.offset) = limit := by simpa using hptr
    omega
  | none =>
    cases hself : s.backing.self with
    | none =>
      rw [hmd, hself] at hptr
      exact absurd hptr (by simp)
    | some a =>
      obtain ⟨-, -, hsize, hend⟩ := h.sound.self a hself
      rw [hmd, hself] at hptr hheld
      have hfirst := (hheld (by simp)).first
      simp only at hfirst hptr ⊢
      rw [u64_of_lt (by omega), sub64_of_le (by omega) (by omega)] at hptr
      obtain ⟨rfl, rfl⟩ : a + s.scale.offset = base ∧ s.backing.size - s.scale.offset = limit := by
        simpa using hptr
      omega

theorem mem_output {t : Transfer} {ts : List Transfer} {r : Region} {type : DMAType}
    (ho : s.output r e type = .ok ts) (ht : t ∈ ts) : ∃ boxes, t = s.transfer boxes := by
  cases type with
  | gfb =>
    cases ho
    simp at ht
  | direct | screenDirect | copy | stretch | screenVia3D =>
    simp only [Surf.output] at ho
    split_ifs at ho
    cases ho
    exact ⟨_, List.mem_singleton.mp ht⟩

/-- A flush transfers from the backing at the buffer's offset. -/
theorem mem_flush {t : Transfer} {mask : ℕ} (ht : t ∈ (s.flush mask e).2) :
    s.isBackingValid = true ∧ ∃ boxes, t = s.transfer boxes := by
  unfold Surf.flush at ht
  cases hr : s.lastRegion with
  | none => simp [hr] at ht
  | some r =>
    simp only [hr] at ht
    split_ifs at ht with hready hvideo hgl
    all_goals try exact absurd ht (by simp)
    refine ⟨hready.2, ?_⟩
    cases hd : s.dmaType r e with
    | error rc => simp [hd] at ht
    | ok type =>
      simp only [hd] at ht
      cases ho : s.output r e type with
      | error rc => simp [ho] at ht
      | ok ts =>
        simp only [ho] at ht
        exact mem_output ho ht

/-- The backing's memory from where the source starts. -/
theorem Backing.Sound.guest {clientAddr : ℕ} (h : b.Sound clientAddr) (hv : b.isValid = true) :
    (b.guest clientAddr).gmr = b.gmr ∧ (b.guest clientAddr).first ≤ b.offset ∧
      b.offset + b.room ≤ (b.guest clientAddr).past ∧ (b.guest clientAddr).past < 2 ^ 32 := by
  unfold Backing.guest Backing.room
  cases hmd : b.md with
  | some length =>
    obtain ⟨-, hoff, hlt⟩ := h.md length hmd
    exact ⟨rfl, Nat.zero_le _, by simp only; omega, hlt⟩
  | none =>
    cases hself : b.self with
    | none => simp [Backing.isValid, hmd, hself] at hv
    | some a =>
      obtain ⟨hg, hoff, hlt, -⟩ := h.self a hself
      exact ⟨hg.symm, hoff.ge, by simp only; omega, hlt⟩

theorem Inv.reads (h : Inv s) {r : Region} {mask : ℕ} {t : Transfer} {box : Box} {i j : ℤ}
    (hid : s.isIdentityScale r = true) (ht : t ∈ (s.flush mask e).2)
    (hin : box.Inside r.bounds) (hi0 : 0 ≤ i) (hi : i < box.w) (hj0 : 0 ≤ j) (hj : j < box.h) :
    t.gmr = (s.backing.guest s.screen.clientAddr).gmr ∧
      ((s.backing.guest s.screen.clientAddr).first : ℤ) ≤ t.pixel box s.bpp i j ∧
      t.pixel box s.bpp i j + s.bpp ≤ (s.backing.guest s.screen.clientAddr).past := by
  obtain ⟨hv, boxes, rfl⟩ := mem_flush ht
  obtain ⟨hgmr, hfirst, hpast, hlt⟩ := h.sound.guest hv
  obtain ⟨hx, hy, hw, hh⟩ := hin
  obtain ⟨hbw, hbh⟩ : s.scale.buffer.w = r.bounds.w ∧ s.scale.buffer.h = r.bounds.h := by
    simpa [Surf.isIdentityScale] using hid
  rw [← hbw] at hw
  rw [← hbh] at hh
  have hcov := h.held hv
  have hoff := hcov.first
  have hlast := hcov.last (by omega) (by omega)
  have htoff : (s.transfer boxes).offset = s.backing.offset + s.scale.offset :=
    u32_of_lt (by omega)
  have hrow : (box.y + j) * (s.scale.pitch : ℤ) ≤ (s.scale.buffer.h.toInt - 1) * s.scale.pitch :=
    mul_le_mul_of_nonneg_right (by omega) (by positivity)
  have hcol : (box.x + i + 1) * (s.bpp : ℤ) ≤ s.scale.buffer.w.toInt * s.bpp :=
    mul_le_mul_of_nonneg_right (by omega) (by positivity)
  have hrow0 : 0 ≤ (box.y + j) * (s.scale.pitch : ℤ) := by positivity
  have hcol0 : 0 ≤ (box.x + i) * (s.bpp : ℤ) := by positivity
  refine ⟨hgmr.symm, ?_, ?_⟩
  · show _ ≤ ((s.transfer boxes).offset : ℤ) + (box.y + j) * (s.scale.pitch : ℤ) + _
    rw [htoff]
    push_cast
    omega
  · show ((s.transfer boxes).offset : ℤ) + (box.y + j) * (s.scale.pitch : ℤ) + _ + _ ≤ _
    rw [htoff]
    rw [add_mul, one_mul] at hcol
    push_cast
    omega

/-- In every run whose calls all fit, the kernel window and everything that the device
is told to read at identity scale lie in the surface's memory. -/
theorem contained_of_fits (h0 : Fresh s₀) (h : Run (fun s c => c.Fits s) s₀ s) : Contained s :=
  ⟨fun _ _ _ hm hptr => (h.inv h0).window hm hptr,
    fun _ _ _ _ hid _ ht _ _ hin _ _ hi0 hi hj0 hj => (h.inv h0).reads hid ht hin hi0 hi hj0 hj⟩

/-! ### A surface of 16 by 16 pixels -/

/-- A window's surface, on a screen object. -/
def smallSurf : Surf where
  haveID := true
  haveMasterSurface := false
  videoMode := false
  directBlit := false
  haveScreenObject := true
  skipWriteLockOnce := false
  glMode := false
  lockRead := false
  lockWrite := false
  lockContext := false
  wID := 2
  format := .x8r8g8b8
  bpp := 4
  backing := .empty
  client := .absent
  lastRegion := none
  framebufferIndex := 0
  scale := ⟨⟨0, 0, 0, 0⟩, 0, 0, 0, 0, 0⟩
  screen := ⟨0x400000, 1024, 768, 0x10000000, 4096⟩
  packedBacking := false
  attachCount := 0
  rtDirty := false

def smallRegion : Region := ⟨⟨0, 0, 16, 16⟩, [⟨0, 0, 16, 16⟩]⟩

def smallShape : Surf.Shape := ⟨0xD, 0, 0, 0, 0, some smallRegion, 20⟩

/-- VRAM is full, so the backing is a kernel buffer. -/
def smallEnv : Env := ⟨none, true, some 3, true, true, true, true, true, true, .success⟩

def shapedSurf : Surf := (smallSurf.exec smallEnv (.setShape smallShape)).2

def lockedSurf : Surf := (shapedSurf.exec smallEnv (.writeLock true)).2

theorem inVram_smallEnv : smallEnv.InVram s := fun _ ha => absurd ha (by simp [smallEnv])

theorem run_lockedSurf {P : Surf → Call → Prop} (hshape : P smallSurf (.setShape smallShape))
    (hlock : P shapedSurf (.writeLock true)) : Run P smallSurf lockedSurf :=
  (Run.start.call (.setShape smallShape) smallEnv hshape inVram_smallEnv).call
    (.writeLock true) smallEnv hlock inVram_smallEnv

/-- A buffer that starts in row 1000 of the source. -/
def farScaling : Scaling := ⟨⟨0, 1000, 16, 16⟩, 16, 16, 0, 0, 0⟩

def scaledSurf : Surf := (lockedSurf.exec smallEnv (.setScale (some farScaling))).2

/-- After the lock the backing is one page; `set_scale` then moves the buffer 64000 bytes
into it, where neither the window nor the flush is inside. -/
theorem not_contained_scaledSurf :
    Run (fun _ _ => True) smallSurf scaledSurf ∧ ¬ Contained scaledSurf ∧
    (scaledSurf.flush 1 smallEnv).2 = [⟨.id 3, 64000, 64, [⟨0, 0, 16, 16⟩]⟩] ∧
    (scaledSurf.backing.guest scaledSurf.screen.clientAddr).past = 4096 := by
  refine ⟨(run_lockedSurf trivial trivial).call _ smallEnv trivial inVram_smallEnv, ?_,
    by decide +kernel, by decide +kernel⟩
  intro h
  have hptr : scaledSurf.obtainKernelPtrs (some 4096) = .ok (68096, 2 ^ 64 - 59904) := by
    decide +kernel
  have hmd : scaledSurf.backing.md = some 4096 := by decide +kernel
  have hin := h.window 4096 _ _ (by simp [hmd]) hptr
  simp only [Backing.kernel, hmd] at hin
  omega

theorem fits_smallShape : Call.Fits smallSurf (.setShape smallShape) := by
  rintro r ⟨⟩ client ⟨-, -, -, rfl⟩
  exact ⟨by decide, by decide, by decide, by decide, by decide, by decide,
    ⟨by decide, by decide⟩, fun hv => absurd hv (by decide)⟩

theorem contained_lockedSurf :
    Run (fun s c => c.Fits s) smallSurf lockedSurf ∧ Contained lockedSurf ∧
    (lockedSurf.flush 1 smallEnv).2 = [⟨.id 3, 0, 64, [⟨0, 0, 16, 16⟩]⟩] :=
  have hrun := run_lockedSurf (P := fun s c => c.Fits s) fits_smallShape trivial
  ⟨hrun, contained_of_fits ⟨rfl, rfl, rfl⟩ hrun, by decide +kernel⟩

end Cesvga2.Surface
