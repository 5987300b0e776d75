import Cesvga2.Surface.Calls
import Cesvga2.Runs.Prefix

/-! The locks of a surface over whole runs. `set_shape` arms the flag that lets one write lock past
its bit for options that it turns away before, so the flag stays clear and write locks alternate
with unlocks. A read lock in GL mode reads the surface back after it has taken its bit, which does
not fail on a device with 3D. -/

namespace Cesvga2.Surface

namespace Surf

/-- `bIsLocked`: the bits of the read, the write and the context lock. -/
def isLocked (s : Surf) : Bool × Bool × Bool := (s.lockRead, s.lockWrite, s.lockContext)

/-- A call, with what the kernel and the rest of the driver answer during it. -/
def step (s : Surf) (a : Env × Call) : Surf := (s.exec a.1 a.2).2

/-- A write lock that succeeds. -/
def LocksForWrite (s : Surf) (a : Env × Call) : Prop :=
  ∃ info, a.2 = .writeLock info ∧ (s.exec a.1 a.2).1 = .success

/-- If the call is a read or a write lock that returns an error, the lock bits are as before. -/
def RollsBack (s : Surf) (a : Env × Call) : Prop :=
  ∀ info, a.2 = .readLock info ∨ a.2 = .writeLock info → (s.exec a.1 a.2).1 ≠ .success →
    (s.step a).isLocked = s.isLocked

/-- A read lock that gets as far as the transfer of `copyGLSurfaceToBacking`. -/
structure ReadsBack (s : Surf) (info : Bool) (e : Env) : Prop where
  info : info = true
  ready : s.haveID = true ∧ s.isSourceValid = true
  free : s.lockRead = false
  glMode : s.glMode = true
  backing : (s.allocForRead e).1 = true
  stale : ¬ (s.rtDirty = false ∧ 0 < s.attachCount)

end Surf

/-- Two write locks that succeed have a write unlock between them, and a lock that fails leaves
the bits alone. -/
structure LocksSafely (s : Surf) (acts : List (Env × Call)) : Prop where
  exclusive : Runs.Between Surf.step Surf.LocksForWrite (fun _ a => a.2 = .writeUnlock)
    Surf.LocksForWrite s acts
  rollsBack : Runs.Each Surf.step Surf.RollsBack s acts

/-- A surface is in GL mode on a device with 3D only, and `bHaveSVGA3D` is cleared only when the
driver stops. -/
def Surf.Has3D (s : Surf) (a : Env × Call) : Prop := s.glMode = true → a.1.have3D = true

/-! ### What a call does to the locks -/

namespace Surf

variable {s : Surf} {e : Env} {a : Env × Call} {info : Bool}

/-- The lock bits with the flag that lets a write lock past its bit. -/
def guard (s : Surf) : (Bool × Bool × Bool) × Bool := (s.isLocked, s.skipWriteLockOnce)

theorem guard_allocAndMap : (s.allocAndMap e).2.guard = s.guard := by
  rw [allocAndMap_snd]
  rfl

/-! #### Shapes -/

/-- A shape changes no more of `s` than its geometry and its memory. -/
def Reshaped (s s' : Surf) : Prop :=
  ∃ region index client backing scale, s' = { s with
    lastRegion := region
    framebufferIndex := index
    client := client
    backing := backing
    scale := scale }

theorem shapeScale_eq (bounds : Bounds) :
    ∃ scale, s.shapeScale bounds = { s with scale := scale } := by
  unfold shapeScale shapeGeometry
  split_ifs <;> exact ⟨_, rfl⟩

/-- The options that arm the flag lack a bit that a shape is kept for. -/
theorem reshaped_keepShape {x : Shape} {r : Region} (hx : x.options.testBit 3 = true) :
    s.Reshaped (s.keepShape x r e).2 := by
  have hopt : x.options ≠ 5 := by
    intro h
    rw [h] at hx
    exact absurd hx (by decide)
  have harm : (s.skipWriteLockOnce || decide (s.wID = 1 ∧ x.options = 5)) =
      s.skipWriteLockOnce := by simp [hopt]
  unfold keepShape
  split_ifs
  · obtain ⟨scale, hscale⟩ := shapeScale_eq r.bounds
      (s := { s with lastRegion := some r, framebufferIndex := x.framebufferIndex })
    rw [hscale, harm]
    exact ⟨_, _, _, _, scale, rfl⟩
  · exact ⟨_, _, _, _, _, rfl⟩

theorem reshaped_reshape {x : Shape} {r : Region} : s.Reshaped (s.reshape x r e).2 := by
  unfold reshape
  split_ifs with _ hopt
  · exact ⟨_, _, _, _, _, rfl⟩
  · exact ⟨_, _, _, _, _, rfl⟩
  · exact reshaped_keepShape hopt.2
  · cases x.client s.bpp r.bounds with
    | error rc => exact ⟨_, _, _, _, _, rfl⟩
    | ok client =>
      obtain ⟨_, _, _, _, _, h⟩ := reshaped_keepShape (s := s.setClient client) (e := e) (r := r)
        hopt.2
      exact ⟨_, _, _, _, _, h⟩
  · exact ⟨_, _, _, _, _, rfl⟩
  · exact ⟨_, _, _, _, _, rfl⟩
  · exact ⟨_, _, _, _, _, rfl⟩

theorem reshaped_setShape (x : Shape) : s.Reshaped (s.setShape x e).2 := by
  unfold setShape
  cases x.rgn with
  | none => exact ⟨_, _, _, _, _, rfl⟩
  | some r =>
    dsimp only
    split_ifs
    · exact ⟨_, _, _, _, _, rfl⟩
    · exact ⟨_, _, _, _, _, rfl⟩
    · obtain ⟨_, _, _, _, _, h⟩ := reshaped_reshape (s := s.clearShape) (x := x) (r := r) (e := e)
      exact ⟨_, _, _, _, _, h⟩

/-! #### Locks -/

/-- A read lock is turned away with its bit as it was, or it takes the bit and goes on to read
back. -/
theorem readLock_cases (s : Surf) (info : Bool) (e : Env) :
    (∃ rc b, rc ≠ .success ∧ s.readLock info e = (rc, { s with backing := b }) ∧
      ¬ s.ReadsBack info e) ∨
    (∃ b, s.lockRead = false ∧
      s.readLock info e = { s with lockRead := true, backing := b }.finishReadLock e ∧
      (s.ReadsBack info e ↔ s.glMode = true ∧ ¬ (s.rtDirty = false ∧ 0 < s.attachCount))) := by
  unfold readLock
  split_ifs with hinfo hready hlock hclient
  · exact .inl ⟨.cannotLock, s.backing, nofun, rfl,
      fun h => Bool.false_ne_true (h.free.symm.trans hlock)⟩
  · refine .inr ⟨s.backing, eq_false_of_ne_true hlock, rfl, ?_⟩
    exact iff_of_false (fun h => hclient.2 h.glMode) (fun h => hclient.2 h.1)
  · have hfree : s.lockRead = false := eq_false_of_ne_true hlock
    have hsnd := allocForRead_snd (s := { s with lockRead := true }) (e := e)
    have hfst : ({ s with lockRead := true }.allocForRead e).1 = (s.allocForRead e).1 := by
      rw [allocForRead_fst, allocForRead_fst]
      rfl
    cases hres : { s with lockRead := true }.allocForRead e with
    | mk ok s' =>
      rw [hres] at hsnd hfst
      subst hsnd
      cases ok with
      | false =>
        refine .inl ⟨.noMemory, (s.allocBacking e).2.backing, nofun, ?_,
          fun h => Bool.false_ne_true (hfst.trans h.backing)⟩
        cases s
        subst hfree
        rfl
      | true =>
        refine .inr ⟨(s.allocBacking e).2.backing, hfree, rfl, fun h => ⟨h.glMode, h.stale⟩, ?_⟩
        rintro ⟨hgl, hstale⟩
        exact ⟨hinfo, hready, hfree, hgl, hfst.symm, hstale⟩
  · exact .inl ⟨.notReady, s.backing, nofun, rfl, fun h => hready h.ready⟩
  · exact .inl ⟨.badArgument, s.backing, nofun, rfl, fun h => hinfo h.info⟩

theorem guard_finishReadLock : (s.finishReadLock e).2.guard = s.guard := by
  unfold finishReadLock copyGLSurfaceToBacking
  split_ifs <;> rfl

theorem finishReadLock_fst (h3D : s.glMode = true → e.have3D = true) :
    (s.finishReadLock e).1 = .success := by
  unfold finishReadLock copyGLSurfaceToBacking surfaceDMA3DEx
  split_ifs with hgl hclean h3
  · rfl
  · rfl
  · exact absurd (h3D hgl) h3
  · rfl

/-- With the flag clear, a write lock fails with the locks as they were or takes its free bit. -/
theorem writeLock_cases (hs : s.skipWriteLockOnce = false) (info : Bool) (e : Env) :
    ((s.writeLock info e).1 ≠ .success ∧ (s.writeLock info e).2.guard = s.guard) ∨
    ((s.writeLock info e).1 = .success ∧ s.lockWrite = false ∧
      (s.writeLock info e).2.guard = { s with lockWrite := true }.guard) := by
  have htake : s.takeWriteLock = { s with lockWrite := true } := by simp [takeWriteLock, hs]
  unfold writeLock
  split_ifs with hinfo hready hlock hclient
  · exact .inl ⟨nofun, rfl⟩
  · have hfree : s.lockWrite = false := by simpa [hs] using hlock
    exact .inr ⟨rfl, hfree, by rw [htake]⟩
  · have hfree : s.lockWrite = false := by simpa [hs] using hlock
    have hguard := guard_allocAndMap (s := s.takeWriteLock) (e := e)
    cases hres : s.takeWriteLock.allocAndMap e with
    | mk ok s' =>
      rw [hres, htake] at hguard
      cases ok with
      | true => exact .inr ⟨rfl, hfree, hguard⟩
      | false =>
        refine .inl ⟨nofun, ?_⟩
        simp only [guard, isLocked, Prod.mk.injEq] at hguard ⊢
        exact ⟨⟨hguard.1.1, hfree.symm, hguard.1.2.2⟩, hguard.2⟩
  · exact .inl ⟨nofun, rfl⟩
  · exact .inl ⟨nofun, rfl⟩

theorem writeLock_eq (s : Surf) (info : Bool) (e : Env) :
    ∃ l k b, (s.writeLock info e).2 =
      { s with lockWrite := l, skipWriteLockOnce := k, backing := b } := by
  have htake : ∃ l k, s.takeWriteLock = { s with lockWrite := l, skipWriteLockOnce := k } := by
    unfold takeWriteLock
    split_ifs <;> exact ⟨_, _, rfl⟩
  obtain ⟨l, k, htake⟩ := htake
  unfold writeLock
  split_ifs
  · exact ⟨_, _, _, rfl⟩
  · exact ⟨_, _, _, htake⟩
  · have hsnd := allocAndMap_snd (s := s.takeWriteLock) (e := e)
    cases hres : s.takeWriteLock.allocAndMap e with
    | mk ok s' =>
      rw [hres, htake] at hsnd
      subst hsnd
      cases ok <;> exact ⟨_, _, _, rfl⟩
  · exact ⟨_, _, _, rfl⟩
  · exact ⟨_, _, _, rfl⟩

theorem contextLockMemory_eq (s : Surf) (info : Bool) (e : Env) :
    ∃ l b, (s.contextLockMemory info e).2 = { s with lockContext := l, backing := b } := by
  unfold contextLockMemory
  split_ifs
  · exact ⟨_, _, rfl⟩
  · have hsnd := allocAndMap_snd (s := { s with lockContext := true }) (e := e)
    cases hres : { s with lockContext := true }.allocAndMap e with
    | mk ok s' =>
      rw [hres] at hsnd
      subst hsnd
      cases ok <;> exact ⟨_, _, rfl⟩
  · exact ⟨_, _, rfl⟩
  · exact ⟨_, _, rfl⟩

/-- Only the write lock and its unlock touch the write bit, and nothing arms the flag. -/
theorem step_write (hlock : ∀ info, a.2 ≠ .writeLock info) (hunlock : a.2 ≠ .writeUnlock) :
    (s.step a).lockWrite = s.lockWrite ∧
      (s.step a).skipWriteLockOnce = s.skipWriteLockOnce := by
  obtain ⟨e, c⟩ := a
  cases c with
  | setScale scaling => cases scaling <;> exact ⟨rfl, rfl⟩
  | setShape x =>
    obtain ⟨_, _, _, _, _, h⟩ := reshaped_setShape (s := s) (e := e) x
    show (s.setShape x e).2.lockWrite = _ ∧ (s.setShape x e).2.skipWriteLockOnce = _
    rw [h]
    exact ⟨rfl, rfl⟩
  | contextScaleSurface fixedSource width height => cases fixedSource <;> exact ⟨rfl, rfl⟩
  | readLock info =>
    show (s.readLock info e).2.lockWrite = _ ∧ (s.readLock info e).2.skipWriteLockOnce = _
    rcases s.readLock_cases info e with ⟨rc, b, -, heq, -⟩ | ⟨b, -, heq, -⟩
    · rw [heq]
      exact ⟨rfl, rfl⟩
    · have hguard := guard_finishReadLock (s := { s with lockRead := true, backing := b }) (e := e)
      simp only [guard, isLocked, Prod.mk.injEq] at hguard
      rw [heq]
      exact ⟨hguard.1.2.1, hguard.2⟩
  | readUnlock => exact ⟨rfl, rfl⟩
  | writeLock info => exact absurd rfl (hlock info)
  | writeUnlock => exact absurd rfl hunlock
  | contextLockMemory info =>
    obtain ⟨_, _, h⟩ := s.contextLockMemory_eq info e
    show (s.contextLockMemory info e).2.lockWrite = _ ∧
      (s.contextLockMemory info e).2.skipWriteLockOnce = _
    rw [h]
    exact ⟨rfl, rfl⟩
  | contextUnlockMemory => exact ⟨rfl, rfl⟩
  | flush framebufferMask => exact ⟨rfl, rfl⟩

/-- The flag stays clear, and only an unlock gives the write bit back. -/
theorem step_of_clear (hs : s.skipWriteLockOnce = false) :
    (s.step a).skipWriteLockOnce = false ∧
      (s.lockWrite = true → a.2 ≠ .writeUnlock → (s.step a).lockWrite = true) := by
  obtain ⟨e, c⟩ := a
  by_cases hlock : ∃ info, c = .writeLock info
  · obtain ⟨info, rfl⟩ := hlock
    rcases writeLock_cases hs info e with ⟨-, hguard⟩ | ⟨-, -, hguard⟩ <;>
      simp only [guard, isLocked, Prod.mk.injEq] at hguard
    · exact ⟨hguard.2.trans hs, fun hheld _ => hguard.1.2.1.trans hheld⟩
    · exact ⟨hguard.2.trans hs, fun _ _ => hguard.1.2.1⟩
  · by_cases hunlock : c = .writeUnlock
    · subst hunlock
      exact ⟨hs, fun _ h => absurd rfl h⟩
    · obtain ⟨hwrite, hskip⟩ :=
        step_write (s := s) (a := (e, c)) (fun info h => hlock ⟨info, h⟩) hunlock
      exact ⟨hskip.trans hs, fun hheld _ => hwrite.trans hheld⟩

theorem LocksForWrite.lockWrite (hs : s.skipWriteLockOnce = false) (h : s.LocksForWrite a) :
    s.lockWrite = false ∧ (s.step a).lockWrite = true := by
  obtain ⟨e, c⟩ := a
  obtain ⟨info, rfl, hok⟩ := h
  rcases writeLock_cases hs info e with ⟨hfail, -⟩ | ⟨-, hfree, hguard⟩
  · exact absurd hok hfail
  · simp only [guard, isLocked, Prod.mk.injEq] at hguard
    exact ⟨hfree, hguard.1.2.1⟩

theorem rollsBack_of_has3D (hs : s.skipWriteLockOnce = false) (h : s.Has3D a) :
    s.RollsBack a := by
  obtain ⟨e, c⟩ := a
  rintro info (rfl | rfl) hrc
  · show (s.readLock info e).2.isLocked = s.isLocked
    rcases s.readLock_cases info e with ⟨rc, b, -, heq, -⟩ | ⟨b, -, heq, -⟩
    · rw [heq]
      rfl
    · have hfail : (s.readLock info e).1 ≠ .success := hrc
      rw [heq] at hfail
      exact (hfail (finishReadLock_fst h)).elim
  · rcases writeLock_cases hs info e with ⟨-, hguard⟩ | ⟨hok, -, -⟩
    · exact congrArg (·.1) hguard
    · exact absurd hok hrc

end Surf

/-! ### Runs -/

/-- On a surface whose flag is clear, as a new surface's is, the locks are safe in every run. -/
theorem locksSafely_of_has3D {s : Surf} (hs : s.skipWriteLockOnce = false)
    (acts : List (Env × Call)) (h3D : Runs.Each Surf.step Surf.Has3D s acts) :
    LocksSafely s acts := by
  have hstep : ∀ (s : Surf) a, s.skipWriteLockOnce = false →
      (s.step a).skipWriteLockOnce = false := fun s a hs => (Surf.step_of_clear hs).1
  refine ⟨?_, Runs.each_of_each (I := fun s : Surf => s.skipWriteLockOnce = false) hs
    (fun s a => Surf.rollsBack_of_has3D) (fun s a hs _ => hstep s a hs) h3D⟩
  refine Runs.between_of_each (I := fun s : Surf => s.skipWriteLockOnce = false)
    (H := fun s : Surf => s.lockWrite = true) hs hstep ?_ ?_ ?_
  · exact fun s a hs hlock => (hlock.lockWrite hs).2
  · exact fun s a hs hheld hunlock => (Surf.step_of_clear hs).2 hheld hunlock
  · intro done a _ hlock
    have hclear : (done.foldl Surf.step s).skipWriteLockOnce = false :=
      Runs.foldl_of_step (I := fun s : Surf => s.skipWriteLockOnce = false) hstep hs done
    exact Bool.eq_false_iff.mp (hlock.lockWrite hclear).1

/-- A surface of 16 by 16 pixels that a GL context has drawn on. -/
def drawnSurf : Surf :=
  { newSurf with
    glMode := true
    attachCount := 1
    rtDirty := true
    scale := ⟨⟨0, 0, 16, 16⟩, 16, 16, 4096, 64, 0⟩ }

/-- There is VRAM for the backing. -/
def vramEnv : Env where
  vram := some 0
  descriptor := true
  gmrId := none
  prepared := true
  mapped := true
  shape := true
  have3D := true
  created := true
  dma := true
  presented := .success

/-- The second read lock fails. -/
theorem locksSafely_readTwice :
    LocksSafely drawnSurf [(vramEnv, .writeLock true), (vramEnv, .readLock true),
      (vramEnv, .readLock true)] := by
  refine locksSafely_of_has3D rfl _ (Runs.each_cons.mpr ⟨fun _ => rfl, ?_⟩)
  exact Runs.each_cons.mpr ⟨fun _ => rfl, Runs.each_cons.mpr ⟨fun _ => rfl, Runs.each_nil⟩⟩

end Cesvga2.Surface
