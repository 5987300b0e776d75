import Cesvga2.Surface.Locks

/-! The host surfaces of a surface in GL mode. `attachGL` and `resizeGL` create them with the size
of the buffer, which shapes and scales set without them; reading back and flushing address the
colour surface with the buffer of the moment. -/

namespace Cesvga2.Surface

/-- `IOAccelSize`. -/
structure Size where
  w : Int16
  h : Int16
  deriving DecidableEq, Repr

/-- The buffer is no wider and no taller. -/
def Size.Holds (z : Size) (b : Bounds) : Prop := b.w ≤ z.w ∧ b.h ≤ z.h

instance (z : Size) (b : Bounds) : Decidable (z.Holds b) := inferInstanceAs (Decidable (_ ∧ _))

/-- The `SVGA3D_Z_…` formats. -/
inductive DepthFormat where
  | d24s8
  | d15s1
  | d24x8
  | d32
  | d16
  deriving DecidableEq, Repr

/-- `select_ds_format`; `none` is `SVGA3D_FORMAT_INVALID`. The bits of a context's mode are
`CGLCMB_DepthMode0` (6), `StencilMode0` (7), `DepthMode16` (24) and `DepthMode32` (25). -/
def selectDsFormat (contextModeBits : BitVec 32) : Option DepthFormat :=
  if contextModeBits.getLsbD 7 then
    if contextModeBits.getLsbD 25 then some .d24s8 else some .d15s1
  else if contextModeBits.getLsbD 25 then
    if contextModeBits.getLsbD 24 then some .d24x8 else some .d32
  else if contextModeBits.getLsbD 24 ∨ contextModeBits.getLsbD 6 then some .d16
  else none

/-- A surface with its `m_gl`. -/
structure Target where
  surf : Surf
  rtSize : Size
  /-- The width and height that the host's surface `color_sid` was created with; none if the id
  is invalid. -/
  color : Option (ℕ × ℕ)
  /-- The format of the host's surface `depth_sid`. -/
  depth : Option DepthFormat

/-- What is answered during a call. `createSurface` sends a command that `FIFOReserve` waits to find
room for, so that it creates the surface whenever it returns success. -/
structure GLEnv extends Env where
  provider : Bool
  colorCreated : IOReturn
  depthCreated : IOReturn

namespace Surf

/-- The buffer's width and height as they are passed to the device. -/
def bufferSize (s : Surf) : ℕ × ℕ :=
  (ofInt32 s.scale.buffer.w.toInt, ofInt32 s.scale.buffer.h.toInt)

def BufferPositive (s : Surf) : Prop := 0 < s.scale.buffer.w ∧ 0 < s.scale.buffer.h

instance (s : Surf) : Decidable s.BufferPositive := inferInstanceAs (Decidable (_ ∧ _))

end Surf

namespace Target

def cleanupGL (t : Target) : Target :=
  { t with surf := { t.surf with glMode := false }, color := none, depth := none }

/-- `touchRenderTarget`, without the `flushGLSurface` for window 1 in builds with a
`LOGGING_LEVEL` of 2 or more. -/
def touchRenderTarget (t : Target) : Target :=
  { t with surf := { t.surf with rtDirty := true } }

/-- The size of the buffer becomes that of the render target. -/
def recordSize (t : Target) : Target :=
  { t with rtSize := ⟨t.surf.scale.buffer.w, t.surf.scale.buffer.h⟩ }.touchRenderTarget

def createColor (t : Target) : Target := { t with color := some t.surf.bufferSize }

/-- The end of `attachGL`. -/
def enterGL (t : Target) : Target :=
  let t := { t with surf := { t.surf with attachCount := 1 } }.recordSize
  { t with surf := { t.surf with glMode := true } }

def attachGL (t : Target) (cmb : BitVec 32) (e : GLEnv) : IOReturn × Target :=
  if t.surf.glMode then
    (.success, { t with surf := { t.surf with attachCount := int32 (t.surf.attachCount + 1) } })
  else if ¬ (e.provider ∧ t.surf.BufferPositive) then (.notReady, t)
  else if e.colorCreated ≠ .success then (e.colorCreated, { t with color := none })
  else
    match selectDsFormat cmb with
    | none => (.success, t.createColor.enterGL)
    | some format =>
      if e.depthCreated ≠ .success then (e.depthCreated, t.createColor.cleanupGL)
      else (.success, { t.createColor with depth := some format }.enterGL)

/-- A surface that grew gets new host surfaces; one that no context is attached to does not. -/
def resizeGL (t : Target) (e : GLEnv) : IOReturn × Target :=
  if ¬ t.surf.glMode ∨ t.surf.attachCount ≤ 0 ∨ t.rtSize.Holds t.surf.scale.buffer then
    (.success, t)
  else if ¬ (e.provider ∧ t.surf.BufferPositive) then (.notReady, t)
  else if e.colorCreated ≠ .success then (e.colorCreated, t.cleanupGL)
  else if t.depth.isSome ∧ e.depthCreated ≠ .success then
    (e.depthCreated, t.createColor.cleanupGL)
  else (.success, t.createColor.recordSize)

def detachGL (t : Target) : IOReturn × Target :=
  if t.surf.glMode then
    (.success, { t with surf := { t.surf with
      attachCount := if t.surf.attachCount ≤ 0 then 0 else int32 (t.surf.attachCount - 1) } })
  else (.success, t)

/-- A call of the surface's client; reading back calls `CleanupGL` when it leaves GL mode. -/
def call (t : Target) (e : Env) (c : Call) : IOReturn × Target :=
  let (rc, s) := t.surf.exec e c
  if t.surf.glMode ∧ ¬ s.glMode then (rc, { t with surf := s }.cleanupGL)
  else (rc, { t with surf := s })

end Target

/-- The calls of GL contexts and those of the surface's client. -/
inductive GLCall where
  | attachGL (cmb : BitVec 32)
  | detachGL
  | resizeGL
  | touchRenderTarget
  | client (c : Call)
  deriving DecidableEq, Repr

namespace Target

def exec (t : Target) (e : GLEnv) : GLCall → IOReturn × Target
  | .attachGL cmb => t.attachGL cmb e
  | .detachGL => t.detachGL
  | .resizeGL => t.resizeGL e
  | .touchRenderTarget => (.success, t.touchRenderTarget)
  | .client c => t.call e.toEnv c

def step (t : Target) (a : GLEnv × GLCall) : Target := (t.exec a.1 a.2).2

/-- A surface that is not in GL mode. -/
def init (s : Surf) : Target where
  surf := { s with glMode := false }
  rtSize := ⟨0, 0⟩
  color := none
  depth := none

end Target

/-- `surface_flush` comes to `flushGLSurface`. -/
def Surf.FlushesGL (s : Surf) (framebufferMask : ℕ) : Prop :=
  (s.haveID = true ∧ s.lastRegion.isSome = true ∧ s.isBackingValid = true) ∧ s.videoMode = false ∧
    framebufferMask.testBit s.framebufferIndex = true

namespace Target

/-- A call in GL mode that addresses the colour surface of a positive buffer. -/
def Addresses (t : Target) (a : GLEnv × GLCall) : Prop :=
  t.surf.glMode = true ∧ t.surf.BufferPositive ∧
    match a.2 with
    | .client (.readLock info) => t.surf.ReadsBack info a.1.toEnv
    | .client (.flush framebufferMask) => t.surf.FlushesGL framebufferMask
    | _ => False

/-- The box of the buffer's size fits in the colour surface as it was created. -/
def StaysInside (t : Target) (a : GLEnv × GLCall) : Prop :=
  t.Addresses a → ∃ size, t.color = some size ∧ t.surf.bufferSize.1 ≤ size.1 ∧
    t.surf.bufferSize.2 ≤ size.2

end Target

/-- A call that sets the buffer. -/
def Call.setsBuffer : Call → Bool
  | .setScale _ | .setShape _ | .contextScaleSurface _ _ _ => true
  | _ => false

/-- The call reads back a surface that no context is attached to any more. -/
def Surf.LeavesGL (s : Surf) (e : Env) (c : Call) : Prop :=
  ∃ info, c = .readLock info ∧ s.ReadsBack info e ∧ s.attachCount ≤ 0

namespace Target

/-- A shape or a scale in GL mode that the render target is too small for. -/
def Outgrows (t : Target) (a : GLEnv × GLCall) : Prop :=
  t.surf.glMode = true ∧ ∃ c, a.2 = .client c ∧ c.setsBuffer = true ∧
    ¬ t.rtSize.Holds (t.surf.exec a.1.toEnv c).2.scale.buffer

/-- A `resizeGL` with a context attached, a shape or a scale that the render target is large enough
for, or the end of GL mode. -/
def Settles (t : Target) (a : GLEnv × GLCall) : Prop :=
  match a.2 with
  | .resizeGL => 0 < t.surf.attachCount ∧ a.1.provider = true ∧ t.surf.BufferPositive
  | .client c =>
    (c.setsBuffer = true ∧ t.rtSize.Holds (t.surf.exec a.1.toEnv c).2.scale.buffer) ∨
      t.surf.LeavesGL a.1.toEnv c
  | _ => False

end Target

/-! ### What the client's calls do in GL mode -/

namespace Surf

variable {s : Surf} {e : Env} {c : Call}

theorem finishReadLock_scale : (s.finishReadLock e).2.scale = s.scale := by
  unfold finishReadLock copyGLSurfaceToBacking
  split_ifs <;> rfl

theorem finishReadLock_glMode :
    (s.finishReadLock e).2.glMode = (s.glMode && decide (0 < s.attachCount)) := by
  unfold finishReadLock copyGLSurfaceToBacking
  split_ifs with hgl hclean
  · simp [hclean.2]
  · rfl
  · simp [hgl]

/-- Only a shape or a scale sets the buffer. -/
theorem exec_scale (hc : c.setsBuffer = false) : (s.exec e c).2.scale = s.scale := by
  cases c with
  | setScale _ | setShape _ | contextScaleSurface _ _ _ => cases hc
  | readLock info =>
    show (s.readLock info e).2.scale = _
    rcases s.readLock_cases info e with ⟨rc, b, -, heq, -⟩ | ⟨b, -, heq, -⟩
    · rw [heq]
    · rw [heq, finishReadLock_scale]
  | writeLock info =>
    obtain ⟨_, _, _, h⟩ := s.writeLock_eq info e
    show (s.writeLock info e).2.scale = _
    rw [h]
  | contextLockMemory info =>
    obtain ⟨_, _, h⟩ := s.contextLockMemory_eq info e
    show (s.contextLockMemory info e).2.scale = _
    rw [h]
  | readUnlock | writeUnlock | contextUnlockMemory | flush _ => rfl

theorem readLock_glMode (s : Surf) (info : Bool) (e : Env) :
    (s.readLock info e).2.glMode = true ↔
      s.glMode = true ∧ ¬ (s.ReadsBack info e ∧ s.attachCount ≤ 0) := by
  rcases s.readLock_cases info e with ⟨rc, b, -, heq, hnot⟩ | ⟨b, -, heq, hiff⟩
  · rw [heq]
    exact ⟨fun h => ⟨h, fun hr => hnot hr.1⟩, fun h => h.1⟩
  · rw [heq, finishReadLock_glMode, hiff, Bool.and_eq_true, decide_eq_true_iff]
    dsimp only
    constructor
    · rintro ⟨hgl, hcount⟩
      exact ⟨hgl, fun h => by omega⟩
    · rintro ⟨hgl, hnot⟩
      refine ⟨hgl, ?_⟩
      by_contra hcount
      exact hnot ⟨⟨hgl, fun h => hcount h.2⟩, by omega⟩

/-- A surface leaves GL mode only by being read back, and no call of the client's enters it. -/
theorem exec_glMode :
    (s.exec e c).2.glMode = true ↔ s.glMode = true ∧ ¬ s.LeavesGL e c := by
  by_cases hread : ∃ info, c = .readLock info
  · obtain ⟨info, rfl⟩ := hread
    refine (s.readLock_glMode info e).trans (and_congr_right fun _ => not_congr ?_)
    exact ⟨fun h => ⟨info, rfl, h⟩, fun ⟨_, hinfo, h⟩ => by cases hinfo; exact h⟩
  · rw [and_iff_left fun ⟨info, h, _⟩ => hread ⟨info, h⟩]
    cases c with
    | readLock info => exact absurd ⟨info, rfl⟩ hread
    | setScale scaling => cases scaling <;> rfl
    | setShape x =>
      obtain ⟨_, _, _, _, _, h⟩ := reshaped_setShape (s := s) (e := e) x
      show (s.setShape x e).2.glMode = true ↔ _
      rw [h]
    | contextScaleSurface fixedSource width height => cases fixedSource <;> rfl
    | writeLock info =>
      obtain ⟨_, _, _, h⟩ := s.writeLock_eq info e
      show (s.writeLock info e).2.glMode = true ↔ _
      rw [h]
    | contextLockMemory info =>
      obtain ⟨_, _, h⟩ := s.contextLockMemory_eq info e
      show (s.contextLockMemory info e).2.glMode = true ↔ _
      rw [h]
    | readUnlock | writeUnlock | contextUnlockMemory | flush _ => rfl

theorem LeavesGL.setsBuffer (h : s.LeavesGL e c) : c.setsBuffer = false := by
  obtain ⟨info, rfl, -⟩ := h
  rfl

end Surf

/-! ### One call -/

namespace Target

variable {t t' : Target} {e : GLEnv} {a : GLEnv × GLCall}

/-- The buffer is larger than the render target. -/
def Outgrown (t : Target) : Prop := t.surf.glMode = true ∧ ¬ t.rtSize.Holds t.surf.scale.buffer

/-- In GL mode the colour surface has the recorded size. -/
def Inv (t : Target) : Prop :=
  t.surf.glMode = true →
    t.color = some (ofInt32 t.rtSize.w.toInt, ofInt32 t.rtSize.h.toInt) ∧ 0 < t.rtSize.w ∧
      0 < t.rtSize.h

/-- What the invariant speaks of is as it was. -/
structure Same (t t' : Target) : Prop where
  glMode : t'.surf.glMode = t.surf.glMode
  scale : t'.surf.scale = t.surf.scale
  rtSize : t'.rtSize = t.rtSize
  color : t'.color = t.color

/-- The colour surface was just created. -/
structure Sized (t : Target) : Prop where
  color : t.color = some t.surf.bufferSize
  rtSize : t.rtSize = ⟨t.surf.scale.buffer.w, t.surf.scale.buffer.h⟩
  positive : t.surf.BufferPositive

theorem Same.inv (h : t.Same t') (hi : t.Inv) : t'.Inv := by
  intro hgl
  rw [h.color, h.rtSize]
  exact hi (h.glMode ▸ hgl)

theorem Same.outgrown_iff (h : t.Same t') : t'.Outgrown ↔ t.Outgrown := by
  rw [Outgrown, Outgrown, h.glMode, h.rtSize, h.scale]

theorem Sized.inv (h : t.Sized) : t.Inv := by
  intro _
  rw [h.color, h.rtSize]
  exact ⟨rfl, h.positive⟩

theorem Sized.not_outgrown (h : t.Sized) : ¬ t.Outgrown := by
  rintro ⟨-, hout⟩
  rw [h.rtSize] at hout
  exact hout ⟨Int16.le_refl _, Int16.le_refl _⟩

/-- GL mode is off, or the colour surface was just created. -/
def Settled (t : Target) : Prop := t.surf.glMode = false ∨ t.Sized

theorem Settled.inv (h : t.Settled) : t.Inv := by
  rcases h with h | h
  · exact fun hgl => absurd hgl (Bool.eq_false_iff.mp h)
  · exact h.inv

theorem Settled.not_outgrown (h : t.Settled) : ¬ t.Outgrown := by
  rcases h with h | h
  · exact fun hout => absurd hout.1 (Bool.eq_false_iff.mp h)
  · exact h.not_outgrown

theorem attachGL_cases (t : Target) (cmb : BitVec 32) (e : GLEnv) :
    t.Same (t.attachGL cmb e).2 ∨ (t.attachGL cmb e).2.Settled := by
  unfold attachGL
  split_ifs with hgl hready hcolor hdepth
  · exact .inl ⟨rfl, rfl, rfl, rfl⟩
  · exact .inr (.inl (eq_false_of_ne_true hgl))
  · cases selectDsFormat cmb with
    | none => exact .inr (.inr ⟨rfl, rfl, hready.2⟩)
    | some format => exact .inr (.inl rfl)
  · cases selectDsFormat cmb <;> exact .inr (.inr ⟨rfl, rfl, hready.2⟩)
  · exact .inl ⟨rfl, rfl, rfl, rfl⟩

/-- `resizeGL` recreates the surfaces where it has to and can. -/
theorem resizeGL_cases (t : Target) (e : GLEnv) :
    ((t.resizeGL e).2 = t ∧
      (t.Outgrown → ¬ (0 < t.surf.attachCount ∧ e.provider = true ∧ t.surf.BufferPositive))) ∨
    ((0 < t.surf.attachCount ∧ e.provider = true ∧ t.surf.BufferPositive) ∧
      (t.resizeGL e).2.Settled) := by
  unfold resizeGL
  split_ifs with hskip hready hcolor hdepth
  · refine .inl ⟨rfl, fun hout h => ?_⟩
    rcases hskip with hgl | hcount | hholds
    · exact hgl hout.1
    · omega
    · exact hout.2 hholds
  · exact .inr ⟨⟨by omega, hready⟩, .inl rfl⟩
  · exact .inr ⟨⟨by omega, hready⟩, .inl rfl⟩
  · exact .inr ⟨⟨by omega, hready⟩, .inr ⟨rfl, rfl, hready.2⟩⟩
  · exact .inl ⟨rfl, fun _ h => hready h.2⟩

theorem same_detachGL : t.Same t.detachGL.2 := by
  unfold detachGL
  split_ifs <;> exact ⟨rfl, rfl, rfl, rfl⟩

/-- A call of the client's leaves GL mode, or sets no more than the surface. -/
theorem call_cases (t : Target) (e : Env) (c : Call) :
    (t.surf.LeavesGL e c ∧ (t.call e c).2.surf.glMode = false) ∨
    (¬ t.surf.LeavesGL e c ∧ (t.call e c).2 = { t with surf := (t.surf.exec e c).2 } ∧
      (t.surf.exec e c).2.glMode = t.surf.glMode) := by
  have hiff := Surf.exec_glMode (s := t.surf) (e := e) (c := c)
  by_cases hleaves : t.surf.LeavesGL e c
  · have hoff : (t.surf.exec e c).2.glMode = false :=
      eq_false_of_ne_true fun h => (hiff.mp h).2 hleaves
    refine .inl ⟨hleaves, ?_⟩
    simp only [call]
    split_ifs
    · rfl
    · exact hoff
  · rw [and_iff_left hleaves] at hiff
    have hsame : (t.surf.exec e c).2.glMode = t.surf.glMode := Bool.eq_iff_iff.mpr hiff
    refine .inr ⟨hleaves, ?_, hsame⟩
    simp only [call, hsame]
    rw [if_neg fun h => h.2 h.1]

theorem step_inv (h : t.Inv) : (t.step a).Inv := by
  obtain ⟨e, c⟩ := a
  cases c with
  | attachGL cmb =>
    rcases t.attachGL_cases cmb e with hsame | hsettled
    · exact hsame.inv h
    · exact hsettled.inv
  | detachGL => exact same_detachGL.inv h
  | resizeGL =>
    show (t.resizeGL e).2.Inv
    rcases t.resizeGL_cases e with ⟨heq, -⟩ | ⟨-, hsettled⟩
    · rw [heq]
      exact h
    · exact hsettled.inv
  | touchRenderTarget => exact h
  | client c =>
    rcases t.call_cases e.toEnv c with ⟨-, hoff⟩ | ⟨-, heq, hgl⟩
    · exact fun hon => absurd hon (Bool.eq_false_iff.mp hoff)
    · show Inv (t.call e.toEnv c).2
      rw [heq]
      exact fun hon => h (hgl ▸ hon)

/-- Only a shape or a scale makes the buffer outgrow the render target. -/
theorem outgrows_of_step (hnot : ¬ t.Outgrown) (h : (t.step a).Outgrown) : t.Outgrows a := by
  obtain ⟨e, c⟩ := a
  cases c with
  | attachGL cmb =>
    rcases t.attachGL_cases cmb e with hsame | hsettled
    · exact absurd (hsame.outgrown_iff.mp h) hnot
    · exact absurd h hsettled.not_outgrown
  | detachGL => exact absurd (same_detachGL.outgrown_iff.mp h) hnot
  | resizeGL =>
    have h' : (t.resizeGL e).2.Outgrown := h
    rcases t.resizeGL_cases e with ⟨heq, -⟩ | ⟨-, hsettled⟩
    · rw [heq] at h'
      exact absurd h' hnot
    · exact absurd h' hsettled.not_outgrown
  | touchRenderTarget => exact absurd h hnot
  | client c =>
    have h' : (t.call e.toEnv c).2.Outgrown := h
    rcases t.call_cases e.toEnv c with ⟨-, hoff⟩ | ⟨-, heq, hgl⟩
    · exact absurd h'.1 (Bool.eq_false_iff.mp hoff)
    · rw [heq] at h'
      have hon : t.surf.glMode = true := hgl.symm.trans h'.1
      refine ⟨hon, c, rfl, ?_, h'.2⟩
      by_contra hc
      have hscale := Surf.exec_scale (s := t.surf) (e := e.toEnv) (eq_false_of_ne_true hc)
      exact hnot ⟨hon, hscale ▸ h'.2⟩

theorem Outgrows.outgrown (h : t.Outgrows a) : (t.step a).Outgrown := by
  obtain ⟨e, c⟩ := a
  obtain ⟨hon, c, rfl, hc, hout⟩ := h
  show (t.call e.toEnv c).2.Outgrown
  rcases t.call_cases e.toEnv c with ⟨hleaves, -⟩ | ⟨-, heq, hgl⟩
  · exact absurd hc (Bool.eq_false_iff.mp hleaves.setsBuffer)
  · rw [heq]
    exact ⟨hgl.trans hon, hout⟩

theorem outgrown_of_not_settles (h : t.Outgrown) (hnot : ¬ t.Settles a) : (t.step a).Outgrown := by
  obtain ⟨e, c⟩ := a
  cases c with
  | attachGL cmb =>
    have heq : (t.attachGL cmb e).2 =
        { t with surf := { t.surf with attachCount := int32 (t.surf.attachCount + 1) } } := by
      rw [attachGL, if_pos h.1]
    show (t.attachGL cmb e).2.Outgrown
    rw [heq]
    exact h
  | detachGL => exact same_detachGL.outgrown_iff.mpr h
  | resizeGL =>
    show (t.resizeGL e).2.Outgrown
    rcases t.resizeGL_cases e with ⟨heq, -⟩ | ⟨hresizes, -⟩
    · rw [heq]
      exact h
    · exact absurd hresizes hnot
  | touchRenderTarget => exact h
  | client c =>
    rcases t.call_cases e.toEnv c with ⟨hleaves, -⟩ | ⟨-, heq, hgl⟩
    · exact absurd (.inr hleaves) hnot
    · show (t.call e.toEnv c).2.Outgrown
      rw [heq]
      refine ⟨hgl.trans h.1, fun hholds => ?_⟩
      by_cases hc : c.setsBuffer = true
      · exact hnot (.inl ⟨hc, hholds⟩)
      · rw [Surf.exec_scale (eq_false_of_ne_true hc)] at hholds
        exact h.2 hholds

theorem Settles.not_outgrown (h : t.Settles a) : ¬ (t.step a).Outgrown := by
  obtain ⟨e, c⟩ := a
  cases c with
  | attachGL _ | detachGL | touchRenderTarget => exact absurd h id
  | resizeGL =>
    show ¬ (t.resizeGL e).2.Outgrown
    rcases t.resizeGL_cases e with ⟨heq, hkept⟩ | ⟨-, hsettled⟩
    · rw [heq]
      exact fun hout => hkept hout h
    · exact hsettled.not_outgrown
  | client c =>
    show ¬ (t.call e.toEnv c).2.Outgrown
    rcases t.call_cases e.toEnv c with ⟨-, hoff⟩ | ⟨hstays, heq, -⟩
    · exact fun hout => absurd hout.1 (Bool.eq_false_iff.mp hoff)
    · rcases h with ⟨-, hholds⟩ | hleaves
      · rw [heq]
        exact fun hout => hout.2 hholds
      · exact absurd hleaves hstays

/-- With positive sizes, the box as the device gets it fits exactly if the buffer does. -/
theorem Inv.staysInside_iff (h : t.Inv) : t.StaysInside a ↔ (t.Addresses a → ¬ t.Outgrown) := by
  refine forall_congr' fun haddr => ?_
  obtain ⟨hcolor, hw, hh⟩ := h haddr.1
  obtain ⟨hbw, hbh⟩ := haddr.2.1
  rw [Int16.lt_iff_toInt_lt] at hw hh hbw hbh
  have hwlt := t.rtSize.w.toInt_lt
  have hhlt := t.rtSize.h.toInt_lt
  have hbwlt := t.surf.scale.buffer.w.toInt_lt
  have hbhlt := t.surf.scale.buffer.h.toInt_lt
  have hzero : (0 : Int16).toInt = 0 := rfl
  have hfits : (t.surf.bufferSize.1 ≤ ofInt32 t.rtSize.w.toInt ∧
      t.surf.bufferSize.2 ≤ ofInt32 t.rtSize.h.toInt) ↔ t.rtSize.Holds t.surf.scale.buffer := by
    rw [Size.Holds, Int16.le_iff_toInt_le, Int16.le_iff_toInt_le, Surf.bufferSize]
    simp only [ofInt32]
    omega
  rw [Outgrown, and_iff_right haddr.1, not_not, ← hfits, hcolor]
  constructor
  · rintro ⟨_, hsize, hle⟩
    cases hsize
    exact hle
  · exact fun hle => ⟨_, rfl, hle⟩

/-! ### Runs -/

/-- Reading back and flushing stay inside the colour surface in exactly the runs that have, after a
shape or a scale that the render target is too small for, a `resizeGL` with a context attached, a
smaller shape or scale, or the end of GL mode before the colour surface is addressed again. -/
theorem each_staysInside_iff (s : Surf) (acts : List (GLEnv × GLCall)) :
    Runs.Each step StaysInside (init s) acts ↔
      Runs.Between step Outgrows Settles Addresses (init s) acts := by
  have hstart : (init s).Inv := nofun
  have hstep : ∀ (t : Target) a, t.Inv → (t.step a).Inv := fun _ _ h => step_inv h
  rw [Runs.each_iff_each (I := Inv) hstart (fun _ _ h => h.staysInside_iff)
    (fun t a h _ => hstep t a h)]
  constructor
  · exact Runs.between_of_each hstart hstep (fun _ _ _ h => h.outgrown)
      fun _ _ _ => outgrown_of_not_settles
  · exact Runs.each_of_between hstart hstep (fun h => Bool.false_ne_true h.1)
      (fun _ _ _ => outgrows_of_step) fun _ _ _ h => h.not_outgrown

/-- A shape of one rectangle at the corner of the screen. -/
def cornerShape (w h : Int16) : Surf.Shape :=
  ⟨0xD, 0, 0, 0, 0, some ⟨⟨0, 0, w, h⟩, [⟨0, 0, w, h⟩]⟩, 20⟩

/-- Every host surface can be created. -/
def readyEnv : GLEnv where
  toEnv := vramEnv
  provider := true
  colorCreated := .success
  depthCreated := .success

/-- A context is attached to a window of 16 by 16 pixels, and the window grows. -/
def growAttached : List (GLEnv × GLCall) :=
  [(readyEnv, .client (.setShape (cornerShape 16 16))), (readyEnv, .attachGL 0),
    (readyEnv, .client (.setShape (cornerShape 32 32)))]

/-- The read lock copies a box of 32 by 32 pixels out of a host surface of 16 by 16. -/
theorem not_each_staysInside_growAttached :
    ((growAttached.foldl step (init newSurf)).color = some (16, 16) ∧
      (growAttached.foldl step (init newSurf)).surf.bufferSize = (32, 32)) ∧
    ¬ Runs.Each step StaysInside (init newSurf)
      (growAttached ++ [(readyEnv, .client (.readLock true))]) := by
  have hcolor : (growAttached.foldl step (init newSurf)).color = some (16, 16) := by decide +kernel
  have hbuffer : (growAttached.foldl step (init newSurf)).surf.bufferSize = (32, 32) := by
    decide +kernel
  refine ⟨⟨hcolor, hbuffer⟩, fun h => ?_⟩
  have haddr : (growAttached.foldl step (init newSurf)).Addresses
      (readyEnv, .client (.readLock true)) :=
    ⟨by decide +kernel, by decide +kernel, rfl, by decide +kernel, by decide +kernel,
      by decide +kernel, by decide +kernel, by decide +kernel⟩
  obtain ⟨size, hsize, hfit⟩ := h growAttached _ List.prefix_rfl haddr
  rw [hcolor] at hsize
  cases hsize
  rw [hbuffer] at hfit
  exact absurd hfit (by decide)

end Target

end Cesvga2.Surface
