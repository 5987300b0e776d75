import Cesvga2.Refs.Count
import Cesvga2.Runs.Prefix
import Cesvga2.Surface.RenderTarget
import Cesvga2.Surface.Video

/-! The contexts that point to surfaces. A GL or 2D context retains the surface that `set_surface`
finds and releases the one it had; a GL context also attaches to it, and the surface counts the
attachments. Whatever the contexts and the clients of the surfaces do, a surface is retained once
for each context that points to it. The count of attachments is right as long as no resize fails
and no surface is closed while contexts are attached, and no longer. -/

namespace Cesvga2.Surface

/-! ### Calls on one surface -/

namespace Target

/-- `context_set_surface`, without the video stream. -/
def contextSetSurface (t : Target) (pixelFormat applePixelFormat : ℕ) (noYUV : Bool)
    (f : FrontBuffer) : IOReturn × Target :=
  if pixelFormat = 0 then (.success, { t with surf := t.surf.setPlain applePixelFormat f })
  else if noYUV then (.unsupported, t)
  else (.success, { t with surf := t.surf.setYUV pixelFormat })

/-- `Cleanup`, when the client of the surface is gone. -/
def cleanup (t : Target) : Target :=
  let t := { t with surf := t.surf.cleanup3D }.cleanupGL
  { t with surf := { t.surf with
    backing := .empty
    lastRegion := none
    framebufferIndex := if t.surf.lastRegion.isSome then 0 else t.surf.framebufferIndex } }

/-- The new surfaces of a resize cannot be created. -/
def ResizeFails (t : Target) (e : GLEnv) : Prop :=
  (t.surf.glMode = true ∧ 0 < t.surf.attachCount ∧ ¬ t.rtSize.Holds t.surf.scale.buffer) ∧
    (e.provider = true ∧ t.surf.BufferPositive) ∧
    (e.colorCreated ≠ .success ∨ t.depth.isSome = true ∧ e.depthCreated ≠ .success)

end Target

namespace Surf

variable {s : Surf} {e : Env} {c : Call}

theorem finishReadLock_attachCount : (s.finishReadLock e).2.attachCount = s.attachCount := by
  unfold finishReadLock copyGLSurfaceToBacking
  split_ifs <;> rfl

/-- No call of the client's attaches or detaches. -/
theorem exec_attachCount : (s.exec e c).2.attachCount = s.attachCount := by
  cases c with
  | readLock info =>
    show (s.readLock info e).2.attachCount = _
    rcases s.readLock_cases info e with ⟨rc, b, -, heq, -⟩ | ⟨b, -, heq, -⟩
    · rw [heq]
    · rw [heq, finishReadLock_attachCount]
  | setScale scaling => cases scaling <;> rfl
  | setShape x =>
    obtain ⟨_, _, _, _, _, h⟩ := reshaped_setShape (s := s) (e := e) x
    show (s.setShape x e).2.attachCount = _
    rw [h]
  | contextScaleSurface fixedSource width height => cases fixedSource <;> rfl
  | writeLock info =>
    obtain ⟨_, _, _, h⟩ := s.writeLock_eq info e
    show (s.writeLock info e).2.attachCount = _
    rw [h]
  | contextLockMemory info =>
    obtain ⟨_, _, h⟩ := s.contextLockMemory_eq info e
    show (s.contextLockMemory info e).2.attachCount = _
    rw [h]
  | readUnlock | writeUnlock | contextUnlockMemory | flush _ => rfl

end Surf

namespace Target

/-- In GL mode the surface counts `n` attachments, and otherwise there are none. -/
structure Counts (t : Target) (n : ℕ) : Prop where
  count : t.surf.glMode = true → t.surf.attachCount = n
  glMode : 0 < n → t.surf.glMode = true

variable {t t' : Target} {n : ℕ} {e : GLEnv} {cmb : BitVec 32}

theorem Counts.congr (h : t.Counts n) (hgl : t'.surf.glMode = t.surf.glMode)
    (hcount : t'.surf.attachCount = t.surf.attachCount) : t'.Counts n :=
  ⟨fun hon => hcount.trans (h.count (hgl ▸ hon)), fun hn => hgl.trans (h.glMode hn)⟩

theorem counts_zero (h : t.surf.glMode = false) : t.Counts 0 :=
  ⟨fun hon => absurd hon (Bool.eq_false_iff.mp h), fun hn => absurd hn (lt_irrefl 0)⟩

/-- Without GL mode there are no attachments. -/
theorem Counts.eq_zero (h : t.Counts n) (hgl : t.surf.glMode ≠ true) : n = 0 :=
  Nat.eq_zero_of_not_pos fun hn => hgl (h.glMode hn)

theorem Counts.detachGL (h : t.Counts (n + 1)) (hn : n < 2 ^ 31) : t.detachGL.2.Counts n := by
  have hon := h.glMode n.succ_pos
  have hcount := h.count hon
  rw [Target.detachGL, if_pos hon]
  refine ⟨fun _ => ?_, fun _ => hon⟩
  dsimp only
  push_cast at hcount
  rw [hcount, if_neg (by omega), add_sub_cancel_right, int32_of_bounds (by omega) (by omega)]

theorem Counts.attachGL (h : t.Counts n) (hn : n + 1 < 2 ^ 31)
    (hrc : (t.attachGL cmb e).1 = .success) : (t.attachGL cmb e).2.Counts (n + 1) := by
  unfold Target.attachGL at hrc ⊢
  split_ifs at hrc ⊢ with hgl hready hcolor hdepth
  · refine ⟨fun _ => ?_, fun _ => hgl⟩
    dsimp only
    rw [h.count hgl, int32_of_bounds (by omega) (by omega)]
    norm_cast
  · exact absurd hrc hcolor
  · cases hformat : selectDsFormat cmb with
    | none => exact ⟨fun _ => by rw [h.eq_zero hgl]; rfl, fun _ => rfl⟩
    | some format =>
      rw [hformat] at hrc
      exact absurd hrc hdepth
  · rw [h.eq_zero hgl]
    cases selectDsFormat cmb with
    | none => exact ⟨fun _ => rfl, fun _ => rfl⟩
    | some format => exact ⟨fun _ => rfl, fun _ => rfl⟩

theorem Counts.attachGL_fails (h : t.Counts n) (hrc : (t.attachGL cmb e).1 ≠ .success) :
    (t.attachGL cmb e).2.Counts n := by
  have hgl : t.surf.glMode ≠ true := fun hgl => hrc (by rw [Target.attachGL, if_pos hgl])
  rw [h.eq_zero hgl]
  refine counts_zero ?_
  unfold Target.attachGL at hrc ⊢
  rw [if_neg hgl] at hrc ⊢
  split_ifs at hrc ⊢ with hready hcolor hdepth
  · exact eq_false_of_ne_true hgl
  · cases hformat : selectDsFormat cmb with
    | none =>
      rw [hformat] at hrc
      exact absurd rfl hrc
    | some format => rfl
  · cases hformat : selectDsFormat cmb <;> rw [hformat] at hrc <;> exact absurd rfl hrc
  · exact eq_false_of_ne_true hgl

theorem Counts.resizeGL (h : t.Counts n) (hok : ¬ t.ResizeFails e) :
    (t.resizeGL e).2.Counts n := by
  unfold Target.resizeGL
  split_ifs with hskip hready hcolor hdepth
  · exact h
  · simp only [not_or, not_not, not_le] at hskip
    exact absurd ⟨hskip, hready, .inl hcolor⟩ hok
  · simp only [not_or, not_not, not_le] at hskip
    exact absurd ⟨hskip, hready, .inr hdepth⟩ hok
  · exact h.congr rfl rfl
  · exact h

theorem Counts.call (h : t.Counts n) (e : Env) (c : Call) : (t.call e c).2.Counts n := by
  rcases t.call_cases e c with ⟨⟨info, rfl, hreads, hzero⟩, hoff⟩ | ⟨-, heq, hgl⟩
  · -- the surface is read back without an attachment
    have hn : n = 0 := by
      have := h.count hreads.glMode
      omega
    rw [hn]
    exact counts_zero hoff
  · rw [heq]
    exact h.congr hgl Surf.exec_attachCount

theorem Counts.contextSetSurface (h : t.Counts n) (pf apf : ℕ) (noYUV : Bool) (f : FrontBuffer) :
    (t.contextSetSurface pf apf noYUV f).2.Counts n := by
  unfold Target.contextSetSurface
  split_ifs
  · refine h.congr ?_ ?_ <;>
    · unfold Surf.setPlain Surf.start3D
      dsimp only
      split_ifs <;> rfl
  · exact h
  · refine h.congr ?_ ?_ <;>
    · unfold Surf.setYUV Surf.cleanup3D
      dsimp only
      split_ifs <;> rfl

end Target

/-! ### Contexts and surfaces -/

/-- The surfaces, how often each is retained by contexts, and the `m_surface_client` of the GL and
of the 2D contexts. -/
structure Contexts (σ κ τ : Type) where
  target : σ → Target
  refs : σ → ℤ
  gl : κ → Option σ
  td : τ → Option σ

/-- `set_surface` returns `kIOReturnNotFound`, or what it has from elsewhere. -/
inductive SetSurfaceRc where
  | notFound
  | rc (rc : IOReturn)
  deriving DecidableEq, Repr

/-- What a GL context finds in `set_surface`: the surface of the id, if there is one, and what is
answered to the call on it. -/
structure GLSet (σ : Type) where
  ipp : Bool
  provider : Bool
  surfaceId : ℕ
  contextModeBits : BitVec 32
  found : Option σ
  env : GLEnv

/-- The same for a 2D context. -/
structure TDSet (σ : Type) where
  structOut : Bool
  provider : Bool
  options : ℕ
  found : Option σ
  noYUV : Bool
  front : FrontBuffer

/-- `CECL_FOURCC_UYVY` or `CECL_FOURCC_YUY2`, and the pixel format of the system. -/
def TDSet.pixelFormats (options : ℕ) : ℕ × ℕ :=
  if options.testBit 10 then (0x59565955, 0x32767579)
  else if options.testBit 9 then (0x32595559, 0x79757673)
  else if options.testBit 8 then (0, 0x42475241)
  else (0, 0)

inductive ContextAct (σ κ τ : Type) where
  | glSetSurface (c : κ) (a : GLSet σ)
  | glCleanup (c : κ)
  | tdSetSurface (c : τ) (a : TDSet σ)
  | tdClose (c : τ)
  /-- A GL context has rendered to the surface. -/
  | touchRenderTarget (x : σ)
  /-- A call of the surface's client. -/
  | client (x : σ) (e : Env) (call : Call)
  | closeSurface (x : σ)

namespace Contexts

variable {σ κ τ : Type} [DecidableEq σ]

section Calls

variable [DecidableEq κ] [DecidableEq τ] (w : Contexts σ κ τ)

def setTarget (x : σ) (t : Target) : Contexts σ κ τ :=
  { w with target := Function.update w.target x t }

def retain (x : σ) : Contexts σ κ τ :=
  { w with refs := Function.update w.refs x (w.refs x + 1) }

def release (x : σ) : Contexts σ κ τ :=
  { w with refs := Function.update w.refs x (w.refs x - 1) }

def setGL (c : κ) (x : Option σ) : Contexts σ κ τ := { w with gl := Function.update w.gl c x }

def setTD (c : τ) (x : Option σ) : Contexts σ κ τ := { w with td := Function.update w.td c x }

/-- The GL context gives up its surface. -/
def glDrop (c : κ) : Contexts σ κ τ :=
  match w.gl c with
  | none => w
  | some x => ((w.setTarget x (w.target x).detachGL.2).release x).setGL c none

def tdDrop (c : τ) : Contexts σ κ τ :=
  match w.td c with
  | none => w
  | some x => (w.release x).setTD c none

/-- The end of `set_surface` for a surface that the GL context is not attached to. -/
def glAttach (c : κ) (x : σ) (cmb : BitVec 32) (e : GLEnv) : IOReturn × Contexts σ κ τ :=
  let w := (w.retain x).glDrop c
  let (rc, t) := (w.target x).attachGL cmb e
  if rc ≠ .success then (rc, (w.setTarget x t).release x)
  else (.success, (w.setTarget x t).setGL c (some x))

def glSetSurface (c : κ) (a : GLSet σ) : SetSurfaceRc × Contexts σ κ τ :=
  if ¬ a.ipp then (.rc .notReady, w)
  else if a.surfaceId = 0 then (.rc .success, w.glDrop c)
  else if ¬ a.provider then (.rc .notReady, w)
  else
    match a.found with
    | none => (.notFound, w)
    | some x =>
      if w.gl c = some x then
        let (rc, t) := (w.target x).resizeGL a.env
        (.rc rc, w.setTarget x t)
      else
        let (rc, w) := w.glAttach c x a.contextModeBits a.env
        (.rc rc, w)

def tdSetSurface (c : τ) (a : TDSet σ) : SetSurfaceRc × Contexts σ κ τ :=
  if ¬ a.structOut then (.rc .badArgument, w)
  else
    let w := w.tdDrop c
    if ¬ a.options.testBit 11 then (.rc .success, w)
    else if ¬ a.provider then (.rc .notReady, w)
    else
      match a.found with
      | none => (.notFound, w)
      | some x =>
        let w := (w.retain x).setTD c (some x)
        let formats := TDSet.pixelFormats a.options
        let (rc, t) := (w.target x).contextSetSurface formats.1 formats.2 a.noYUV a.front
        (.rc rc, w.setTarget x t)

def exec : ContextAct σ κ τ → Contexts σ κ τ
  | .glSetSurface c a => (w.glSetSurface c a).2
  | .glCleanup c => w.glDrop c
  | .tdSetSurface c a => (w.tdSetSurface c a).2
  | .tdClose c => w.tdDrop c
  | .touchRenderTarget x => w.setTarget x (w.target x).touchRenderTarget
  | .client x e call => w.setTarget x ((w.target x).call e call).2
  | .closeSurface x => w.setTarget x (w.target x).cleanup

/-- No context points to a surface yet. -/
def init (s : σ → Surf) : Contexts σ κ τ :=
  ⟨fun x => .init (s x), fun _ => 0, fun _ => none, fun _ => none⟩

end Calls

section Drop

variable {w : Contexts σ κ τ} {x : σ}

theorem setTarget_self (t : Target) : (w.setTarget x t).target x = t := Function.update_self ..

theorem setTarget_of_ne {y : σ} (t : Target) (h : y ≠ x) :
    (w.setTarget x t).target y = w.target y := Function.update_of_ne h ..

theorem glDrop_gl [DecidableEq κ] (c : κ) : (w.glDrop c).gl = Function.update w.gl c none := by
  unfold glDrop
  cases h : w.gl c with
  | none => exact (Function.update_eq_self_iff.mpr h.symm).symm
  | some x => rfl

theorem tdDrop_td [DecidableEq τ] (k : τ) : (w.tdDrop k).td k = none := by
  unfold tdDrop
  cases h : w.td k with
  | none => exact h
  | some x => exact Function.update_self ..

theorem tdDrop_target [DecidableEq τ] (k : τ) :
    (w.tdDrop k).target = w.target ∧ (w.tdDrop k).gl = w.gl := by
  unfold tdDrop
  cases w.td k <;> exact ⟨rfl, rfl⟩

/-- `set_surface` comes to resize the surface that the context is attached to. -/
def Resizes (w : Contexts σ κ τ) (c : κ) (a : GLSet σ) (x : σ) : Prop :=
  a.ipp = true ∧ a.provider = true ∧ a.surfaceId ≠ 0 ∧ a.found = some x ∧ w.gl c = some x

theorem glSetSurface_of_resizes [DecidableEq κ] {c : κ} {a : GLSet σ} (h : w.Resizes c a x) :
    (w.glSetSurface c a).2 = w.setTarget x ((w.target x).resizeGL a.env).2 := by
  obtain ⟨hipp, hprovider, hid, hfound, hgl⟩ := h
  rw [glSetSurface, if_neg (not_not_intro hipp), if_neg hid, if_neg (not_not_intro hprovider),
    hfound]
  dsimp only
  rw [if_pos hgl]

end Drop

/-! ### References -/

section Refs

variable [Fintype κ] [Fintype τ] {w : Contexts σ κ τ} {x : σ} {c : κ} {k : τ}

/-- The contexts that point to a surface. -/
def holders (w : Contexts σ κ τ) (y : σ) : ℕ :=
  Refs.count Finset.univ w.gl y + Refs.count Finset.univ w.td y

/-- The references that no context has. -/
def excess (w : Contexts σ κ τ) (y : σ) : ℤ := w.refs y - w.holders y

theorem excess_retain (y : σ) :
    (w.retain x).excess y = w.excess y + if x = y then 1 else 0 := by
  simp only [excess, retain, holders, Function.update_apply, eq_comm (a := y)]
  split_ifs with h
  · rw [h]
    ring
  · ring

section OfGL

variable [DecidableEq κ]

theorem excess_glDrop (c : κ) (y : σ) : (w.glDrop c).excess y = w.excess y := by
  unfold glDrop
  cases h : w.gl c with
  | none => rfl
  | some x =>
    have hcount := Refs.count_empty (a := y) (Finset.mem_univ c) h
    simp only [excess, holders, setGL, release, setTarget, Function.update_apply,
      eq_comm (a := y)]
    split_ifs at hcount ⊢ with hy
    · subst hy
      omega
    · omega

theorem excess_glAttach (cmb : BitVec 32) (e : GLEnv) (y : σ) :
    (w.glAttach c x cmb e).2.excess y = w.excess y := by
  have hdrop : ((w.retain x).glDrop c).excess y = w.excess y + if x = y then 1 else 0 := by
    rw [excess_glDrop, excess_retain]
  have hnone : ((w.retain x).glDrop c).gl c = none := by rw [glDrop_gl, Function.update_self]
  unfold glAttach
  generalize (w.retain x).glDrop c = v at hdrop hnone
  have hcount := Refs.count_fill (a := y) (b := x) (Finset.mem_univ c) hnone
  simp only [excess, holders] at hdrop
  dsimp only
  split_ifs
  · simp only [excess, holders, setTarget, release, Function.update_apply, eq_comm (a := y)]
    split_ifs at hdrop ⊢ with hy
    · subst hy
      omega
    · omega
  · simp only [excess, holders, setTarget, setGL]
    split_ifs at hdrop hcount <;> omega

theorem excess_glSetSurface (a : GLSet σ) (y : σ) :
    (w.glSetSurface c a).2.excess y = w.excess y := by
  unfold glSetSurface
  split_ifs
  · exact excess_glDrop c y
  · cases a.found with
    | none => rfl
    | some x =>
      dsimp only
      split_ifs
      · rfl
      · exact excess_glAttach _ _ y
  · rfl
  · rfl

end OfGL

section OfTD

variable [DecidableEq τ]

theorem excess_tdDrop (k : τ) (y : σ) : (w.tdDrop k).excess y = w.excess y := by
  unfold tdDrop
  cases h : w.td k with
  | none => rfl
  | some x =>
    have hcount := Refs.count_empty (a := y) (Finset.mem_univ k) h
    simp only [excess, holders, setTD, release, Function.update_apply, eq_comm (a := y)]
    split_ifs at hcount ⊢ with hy
    · subst hy
      omega
    · omega

theorem excess_tdSetSurface (a : TDSet σ) (y : σ) :
    (w.tdSetSurface k a).2.excess y = w.excess y := by
  unfold tdSetSurface
  dsimp only
  split_ifs
  · cases a.found with
    | none => exact excess_tdDrop k y
    | some x =>
      have hretain : ((w.tdDrop k).retain x).excess y = w.excess y + if x = y then 1 else 0 := by
        rw [excess_retain, excess_tdDrop]
      have hcount := Refs.count_fill (a := y) (b := x) (Finset.mem_univ k) (tdDrop_td (w := w) k)
      simp only [excess, holders, setTD, setTarget, retain] at hretain ⊢
      split_ifs at hretain hcount <;> omega
  · exact excess_tdDrop k y
  · exact excess_tdDrop k y
  · rfl

end OfTD

variable [DecidableEq κ] [DecidableEq τ]

theorem excess_exec (a : ContextAct σ κ τ) (y : σ) : (w.exec a).excess y = w.excess y := by
  cases a with
  | glSetSurface c a => exact excess_glSetSurface a y
  | glCleanup c => exact excess_glDrop c y
  | tdSetSurface k a => exact excess_tdSetSurface a y
  | tdClose k => exact excess_tdDrop k y
  | touchRenderTarget x => rfl
  | client x e call => rfl
  | closeSurface x => rfl

/-- After any calls, a surface is retained once for each context that points to it. -/
theorem refs_eq_holders (s : σ → Surf) (acts : List (ContextAct σ κ τ)) (y : σ) :
    (acts.foldl exec (init s)).refs y = (acts.foldl exec (init s)).holders y := by
  have hexcess : (acts.foldl exec (init s)).excess y = 0 := by
    refine Runs.foldl_of_step (I := fun w : Contexts σ κ τ => w.excess y = 0)
      (fun w a h => (excess_exec a y).trans h) ?_ acts
    simp [excess, holders, init, Refs.count]
  exact sub_eq_zero.mp hexcess

end Refs

/-! ### Attachments -/

section Attachments

variable [Fintype κ] {w : Contexts σ κ τ} {x : σ} {c : κ}

/-- Each surface counts the GL contexts that are attached to it. -/
def Attached (w : Contexts σ κ τ) : Prop :=
  ∀ y, (w.target y).Counts (Refs.count Finset.univ w.gl y)

theorem Attached.setTarget (h : w.Attached) {t : Target}
    (ht : t.Counts (Refs.count Finset.univ w.gl x)) : (w.setTarget x t).Attached := by
  intro y
  by_cases hy : y = x
  · subst hy
    rw [setTarget_self]
    exact ht
  · rw [setTarget_of_ne t hy]
    exact h y

theorem Attached.glDrop [DecidableEq κ] (h : w.Attached) (hcard : Fintype.card κ < 2 ^ 31) (c : κ) :
    (w.glDrop c).Attached := by
  unfold Contexts.glDrop
  cases hc : w.gl c with
  | none => exact h
  | some x =>
    intro y
    have hcount := Refs.count_empty (a := y) (Finset.mem_univ c) hc
    change (Function.update w.target x (w.target x).detachGL.2 y).Counts
      (Refs.count Finset.univ (Function.update w.gl c none) y)
    by_cases hy : x = y
    · subst hy
      rw [if_pos rfl] at hcount
      rw [Function.update_self]
      refine Target.Counts.detachGL (hcount ▸ h x) (lt_of_le_of_lt ?_ hcard)
      exact Refs.count_le_card
    · rw [if_neg hy, add_zero] at hcount
      rw [Function.update_of_ne (Ne.symm hy), hcount]
      exact h y

theorem Attached.glAttach [DecidableEq κ] (h : w.Attached) (hcard : Fintype.card κ < 2 ^ 31)
    (c : κ) (x : σ) (cmb : BitVec 32) (e : GLEnv) : (w.glAttach c x cmb e).2.Attached := by
  have hdrop : ((w.retain x).glDrop c).Attached := Attached.glDrop (w := w.retain x) h hcard c
  have hnone : ((w.retain x).glDrop c).gl c = none := by rw [glDrop_gl, Function.update_self]
  unfold Contexts.glAttach
  generalize (w.retain x).glDrop c = v at hdrop hnone
  dsimp only
  split_ifs with hrc
  · exact hdrop.setTarget ((hdrop x).attachGL_fails hrc)
  · intro y
    have hcount := Refs.count_fill (a := y) (b := x) (Finset.mem_univ c) hnone
    change (Function.update v.target x _ y).Counts
      (Refs.count Finset.univ (Function.update v.gl c (some x)) y)
    have hle : Refs.count Finset.univ (Function.update v.gl c (some x)) y ≤ Fintype.card κ :=
      Refs.count_le_card
    by_cases hy : x = y
    · subst hy
      rw [if_pos rfl] at hcount
      rw [hcount] at hle ⊢
      rw [Function.update_self]
      exact (hdrop x).attachGL (by omega) (not_not.mp hrc)
    · rw [hcount, if_neg hy, Function.update_of_ne (Ne.symm hy)]
      exact hdrop y

theorem Attached.glSetSurface [DecidableEq κ] (h : w.Attached)
    (hcard : Fintype.card κ < 2 ^ 31) {a : GLSet σ}
    (hok : ∀ x, w.Resizes c a x → ¬ (w.target x).ResizeFails a.env) :
    (w.glSetSurface c a).2.Attached := by
  by_cases hresize : ∃ x, w.Resizes c a x
  · obtain ⟨x, hx⟩ := hresize
    rw [glSetSurface_of_resizes hx]
    exact h.setTarget ((h x).resizeGL (hok x hx))
  · unfold Contexts.glSetSurface
    split_ifs with hipp hid hprovider
    · exact h.glDrop hcard c
    · cases hfound : a.found with
      | none => exact h
      | some x =>
        dsimp only
        rw [if_neg fun hgl => hresize ⟨x, hipp, hprovider, hid, hfound, hgl⟩]
        exact h.glAttach hcard c x _ _
    · exact h
    · exact h

theorem Attached.tdDrop [DecidableEq τ] (h : w.Attached) (k : τ) : (w.tdDrop k).Attached := by
  obtain ⟨htarget, hgl⟩ := tdDrop_target (w := w) k
  intro y
  rw [htarget, hgl]
  exact h y

theorem Attached.tdSetSurface [DecidableEq τ] (h : w.Attached) (k : τ) (a : TDSet σ) :
    (w.tdSetSurface k a).2.Attached := by
  have hdrop := h.tdDrop k
  unfold Contexts.tdSetSurface
  generalize w.tdDrop k = v at hdrop
  dsimp only
  split_ifs
  · cases a.found with
    | none => exact hdrop
    | some x =>
      exact Attached.setTarget (w := (v.retain x).setTD k (some x)) hdrop
        ((hdrop x).contextSetSurface _ _ _ _)
  · exact hdrop
  · exact hdrop
  · exact h

/-- No surface with contexts attached loses its host surfaces in a resize, or is closed. -/
def Spares (w : Contexts σ κ τ) : ContextAct σ κ τ → Prop
  | .glSetSurface c a => ∀ x, w.Resizes c a x → ¬ (w.target x).ResizeFails a.env
  | .closeSurface x => ∀ c, w.gl c ≠ some x
  | _ => True

variable [DecidableEq κ] [DecidableEq τ]

theorem Attached.exec (h : w.Attached) (hcard : Fintype.card κ < 2 ^ 31)
    (a : ContextAct σ κ τ) (hok : w.Spares a) : (w.exec a).Attached := by
  cases a with
  | glSetSurface c a => exact h.glSetSurface hcard hok
  | glCleanup c => exact h.glDrop hcard c
  | tdSetSurface k a => exact h.tdSetSurface k a
  | tdClose k => exact h.tdDrop k
  | touchRenderTarget x => exact h.setTarget ((h x).congr rfl rfl)
  | client x e call => exact h.setTarget ((h x).call e call)
  | closeSurface x =>
    have hzero : Refs.count Finset.univ w.gl x = 0 :=
      Refs.count_eq_zero.mpr fun c _ => hok c
    refine h.setTarget ?_
    rw [hzero]
    exact Target.counts_zero rfl

end Attachments

end Contexts

end Cesvga2.Surface
