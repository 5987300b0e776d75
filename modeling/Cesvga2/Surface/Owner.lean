import Cesvga2.Surface.Calls
import Cesvga2.Ids.Accel
import Cesvga2.Allocator.Runs
import Cesvga2.Ledgers.Log

/-! What a surface holds for its backing: a block of the VRAM allocator, or a memory descriptor
with a GMR id, and the fence of its last transfer. The functions of the backing are given here
with all they do to the allocators, to the descriptor and to the fence, and in their order; what
they do to the backing is what `Surf.exec` does. -/

namespace Cesvga2.Surface

open Allocator (Op)

/-- What is done with a backing. -/
inductive Event where
  | allocGMRID (id : ℕ)
  | freeGMRID (id : ℕ)
  | createGMR (id : ℕ)
  | destroyGMR (id : ℕ)
  /-- `prepare` and `complete` of the descriptor. -/
  | wire
  | unwire
  /-- The descriptor is released, with its memory if it is the kernel's. -/
  | releaseMd
  | reallocVRAM
  | freeVRAM
  /-- A transfer with its fence, and `SyncToFence`. -/
  | post (fence : ℕ)
  | sync (fence : ℕ)
  deriving DecidableEq, Repr

/-- What happens during a call. The results of the allocators, `vram` and `gmrId`, are their own
and not taken from here. -/
structure Faults extends Env where
  /-- `VRAMRealloc` fails, whatever the allocator has left. -/
  vramFails : Bool
  /-- The descriptor can be wired; `prepared` then tells that its GMR can be created. -/
  wired : Bool
  /-- The fence of a transfer that the ring takes. -/
  fence : Option { f : ℕ // f ≠ 0 }

/-- The backing with all that goes with it. -/
structure Holder where
  backing : Backing
  /-- `m_backing.vtb.fence`. -/
  fence : ℕ
  ids : Ids.Sys
  vram : Allocator.Sys
  /-- The latest event first. -/
  log : List Event

namespace Holder

variable (h : Holder) (e : Faults)

def note (event : Event) : Holder := { h with log := event :: h.log }

/-! ### `VendorTransferBuffer` -/

def sync : Holder := if h.fence = 0 then h else { h.note (.sync h.fence) with fence := 0 }

/-- `AllocGMRID` returned `id`. -/
def takeGMRID (id : ℕ) : Holder where
  backing := { h.backing with gmr := .id id }
  fence := h.fence
  ids := ⟨h.ids.accel.allocGMRID.2, h.ids.surfaces, insert id h.ids.gmrs⟩
  vram := h.vram
  log := .allocGMRID id :: h.log

/-- `FreeGMRID`, and the id is invalid. -/
def dropGMRID (id : ℕ) : Holder where
  backing := { h.backing with gmr := .invalid }
  fence := h.fence
  ids := ⟨h.ids.accel.freeGMRID id, h.ids.surfaces, h.ids.gmrs.erase id⟩
  vram := h.vram
  log := .freeGMRID id :: h.log

def unwire : Holder := if h.backing.md.isSome then h.note .unwire else h

def complete : Holder :=
  match h.backing.gmr with
  | .id n => (h.sync.note (.destroyGMR n)).unwire.dropGMRID n
  | _ => h.sync

def discard : Holder :=
  if h.backing.md.isSome then { h.note .releaseMd with backing := h.backing.discard } else h

/-- The part of `prepare` from `AllocGMRID` on. -/
def obtainGMR : Bool × Holder :=
  match h.ids.accel.allocGMRID.1 with
  | none => (false, { h with
      backing := { h.backing with gmr := .invalid }
      ids := ⟨h.ids.accel.allocGMRID.2, h.ids.surfaces, h.ids.gmrs⟩ })
  | some n =>
    let h := h.takeGMRID n
    if ¬ e.wired then (false, h.dropGMRID n)
    else if ¬ e.prepared then (false, ((h.note .wire).note .unwire).dropGMRID n)
    else (true, (h.note .wire).note (.createGMR n))

/-- The descriptor is there. -/
def prepare : Bool × Holder :=
  match h.backing.gmr with
  | .id _ => (true, h)
  | _ => h.obtainGMR e

/-! ### The backing -/

/-- A new descriptor, released again if it cannot be prepared. -/
def attach (gartPtr : ℕ) : Bool × Holder :=
  match { h with backing := { h.backing with md := some h.backing.size } }.prepare e with
  | (true, h) => (true, { h with backing := { h.backing with gartPtr := gartPtr }, fence := 0 })
  | (false, h) => (false, { h.note .releaseMd with backing := { h.backing with md := none } })

/-- `VRAMFree` of the block, if there is one. -/
def vramFree : Holder :=
  match h.backing.self with
  | some p => { h.note .freeVRAM with vram := (Op.free p).exec h.vram }
  | none => h

def releaseBacking : Holder :=
  { h.complete.discard.vramFree with backing := .empty, fence := 0 }

/-- A backing of another kind, or of older memory of the client's, is released first. -/
def forWrap : Holder := if h.backing.classify = 0 then h else h.releaseBacking

def wrapClientBacking (client : ClientBacking) (size : ℕ) : Bool × Holder :=
  if h.backing.classify = 2 ∧ h.backing.gartPtr = 1 then (true, h)
  else
    let h := h.forWrap
    let h := { h with
      backing := { h.backing with offset := pageResidue client.addr, size := size } }
    if e.descriptor then h.attach e 1 else (false, h)

def allocGMRBacking : Bool × Holder :=
  if e.descriptor then { h with backing := { h.backing with offset := 0 } }.attach e 0
  else (false, h)

/-- The kernel's backing is completed and discarded, the client's released. -/
def forRealloc : Holder :=
  match h.backing.classify with
  | 1 => h.complete.discard
  | 2 => h.releaseBacking
  | _ => h

/-- `VRAMRealloc` of the block that is held, or of none. It returns what was stored through the
pointer, whatever `Realloc` returned. -/
def vramRealloc (bytes : ℕ) : Option ℕ × Allocator.Sys :=
  if e.vramFails then (none, h.vram)
  else
    let p := h.backing.self.getD 0
    ((h.vram.pool.realloc p bytes).2.1, (Op.realloc p bytes).exec h.vram)

/-- The result takes the place of the block, also when it is null. -/
def resize (size : ℕ) : Holder where
  backing := { h.backing with size := size, self := (h.vramRealloc e size).1 }
  fence := h.fence
  ids := h.ids
  vram := (h.vramRealloc e size).2
  log := if h.backing.self.isSome then .reallocVRAM :: h.log else h.log

/-- After `VRAMRealloc`: the backing is in VRAM, or in a GMR without a block. -/
def place (clientAddr : ℕ) : Bool × Holder :=
  match h.backing.self with
  | none => h.allocGMRBacking e
  | some a => (true, { h with
      backing := { h.backing with offset := sub64 a clientAddr, gmr := .vram }
      fence := 0 })

def allocBacking (client : ClientBacking) (size clientAddr : ℕ) : Bool × Holder :=
  if client.addr ≠ 0 then h.wrapClientBacking e client size
  else if h.backing.classify = 1 ∧ size ≤ h.backing.size then (true, h)
  else (h.forRealloc.resize e size).place e clientAddr

/-! ### What is done to the backing alone -/

/-- The results of the allocators during `allocBacking`. -/
def answers (client : ClientBacking) (size : ℕ) : Env :=
  { e.toEnv with
    vram := (h.forRealloc.vramRealloc e size).1
    gmrId := (if client.addr ≠ 0 then h.forWrap else h.forRealloc).ids.accel.allocGMRID.1
    prepared := e.wired && e.prepared }

variable {h e}

@[simp] theorem sync_backing : h.sync.backing = h.backing := by
  unfold sync
  split_ifs <;> rfl

theorem complete_backing : h.complete.backing = h.backing.complete := by
  unfold complete Backing.complete
  cases h.backing.gmr <;> simp [dropGMRID, unwire, note, apply_ite Holder.backing]

theorem discard_backing : h.discard.backing = h.backing.discard := by
  unfold discard
  split_ifs with hmd
  · rfl
  · have hnone : h.backing.md = none := by simpa using hmd
    rw [Backing.discard, ← hnone]

theorem forWrap_backing :
    h.forWrap.backing = if h.backing.classify = 0 then h.backing else .empty := by
  unfold forWrap
  split_ifs <;> rfl

theorem forRealloc_backing : h.forRealloc.backing = h.backing.forRealloc := by
  unfold forRealloc Backing.forRealloc
  generalize h.backing.classify = c
  match c with
  | 0 => rfl
  | 1 => exact discard_backing.trans (congrArg Backing.discard complete_backing)
  | 2 => rfl
  | _ + 3 => rfl

variable {e' : Env}

theorem prepare_backing (hid : e'.gmrId = h.ids.accel.allocGMRID.1)
    (hp : e'.prepared = (e.wired && e.prepared)) :
    (h.prepare e).map id backing = h.backing.prepare e' := by
  unfold prepare obtainGMR Backing.prepare
  rw [hid, hp]
  cases h.backing.gmr with
  | id n => rfl
  | _ =>
    cases h.ids.accel.allocGMRID.1 with
    | none => rfl
    | some n => cases e.wired <;> cases e.prepared <;> rfl

theorem attach_backing (hid : e'.gmrId = h.ids.accel.allocGMRID.1)
    (hp : e'.prepared = (e.wired && e.prepared)) (gartPtr : ℕ) :
    (h.attach e gartPtr).map id backing = h.backing.attach e' gartPtr := by
  have hprep : (prepare { h with backing := { h.backing with md := some h.backing.size } } e).map id
      backing = Backing.prepare { h.backing with md := some h.backing.size } e' :=
    prepare_backing hid hp
  unfold attach Backing.attach
  rw [← hprep]
  rcases prepare { h with backing := { h.backing with md := some h.backing.size } } e with
    ⟨_ | _, h'⟩ <;> rfl

/-- The backing after `allocBacking` is that of `Backing.alloc`. -/
theorem allocBacking_backing (client : ClientBacking) (size clientAddr : ℕ) :
    (h.allocBacking e client size clientAddr).map id backing =
      h.backing.alloc client size clientAddr (h.answers e client size) := by
  unfold allocBacking Backing.alloc
  by_cases hc : client.addr ≠ 0
  · rw [if_pos hc, if_pos hc, wrapClientBacking, Backing.wrapClientBacking]
    by_cases hreuse : h.backing.classify = 2 ∧ h.backing.gartPtr = 1
    · rw [if_pos hreuse, if_pos hreuse]
      rfl
    · rw [if_neg hreuse, if_neg hreuse]
      simp only [answers, if_pos hc, ← forWrap_backing]
      split_ifs
      · exact attach_backing rfl rfl 1
      · rfl
  · rw [if_neg hc, if_neg hc]
    by_cases hkeep : h.backing.classify = 1 ∧ size ≤ h.backing.size
    · rw [if_pos hkeep, if_pos hkeep]
      rfl
    · rw [if_neg hkeep, if_neg hkeep]
      simp only [answers, if_neg hc, ← forRealloc_backing]
      simp only [place, resize]
      cases (h.forRealloc.vramRealloc e size).1 with
      | some a => rfl
      | none =>
        simp only [allocGMRBacking, Backing.allocGMRBacking]
        by_cases hd : e.descriptor = true
        · rw [if_pos hd, if_pos hd]
          exact attach_backing rfl rfl 0
        · rw [if_neg hd, if_neg hd]
          rfl

end Holder

/-- The backing with another mark for the client's descriptor. -/
def Backing.mark (b : Backing) (gartPtr : ℕ) : Backing :=
  ⟨b.self, b.md, b.offset, b.size, b.gmr, gartPtr⟩

/-! ### The surface -/

/-- The call gets to `allocBacking`. -/
def Surf.allocates (s : Surf) : Call → Bool
  | .readLock info =>
    info && s.haveID && s.isSourceValid && !s.lockRead && !(s.isClientBackingValid && !s.glMode)
  | .writeLock info =>
    info && s.haveID && s.isSourceValid && (s.skipWriteLockOnce || !s.lockWrite) &&
      !s.isClientBackingValid
  | .contextLockMemory info => info && s.haveID && s.isSourceValid && !s.lockContext
  | _ => false

section

variable {s : Surf} {e : Env} {c : Call} {info : Bool}

theorem finishReadLock_backing : (s.finishReadLock e).2.backing = s.backing := by
  unfold Surf.finishReadLock Surf.copyGLSurfaceToBacking
  split_ifs <;> rfl

theorem readLock_backing (h : s.allocates (.readLock info) = true) :
    (s.readLock info e).2.backing = (s.allocBacking e).2.backing := by
  simp only [Surf.allocates, Bool.and_eq_true, Bool.not_eq_true', Bool.and_eq_false_iff,
    Bool.not_eq_false'] at h
  obtain ⟨⟨⟨⟨rfl, hid⟩, hsrc⟩, hlock⟩, hclient⟩ := h
  have hgo : ¬ (s.isClientBackingValid = true ∧ ¬ s.glMode = true) := by
    rintro ⟨h1, h2⟩
    rcases hclient with h | h
    · exact Bool.false_ne_true (h.symm.trans h1)
    · exact h2 h
  have halloc := congrArg Surf.backing
    (Surf.allocForRead_snd (s := { s with lockRead := true }) (e := e))
  unfold Surf.readLock
  rw [if_neg (by simp), if_neg (by simp [hid, hsrc]), if_neg (by simp [hlock]), if_neg hgo]
  split <;> rename_i hres <;> rw [hres] at halloc
  · rw [finishReadLock_backing]
    exact halloc
  · exact halloc

theorem writeLock_backing (h : s.allocates (.writeLock info) = true) :
    (s.writeLock info e).2.backing = (s.allocBacking e).2.backing := by
  simp only [Surf.allocates, Bool.and_eq_true, Bool.not_eq_true', Bool.or_eq_true] at h
  obtain ⟨⟨⟨⟨rfl, hid⟩, hsrc⟩, hlock⟩, hclient⟩ := h
  have hgo : ¬ (¬ s.skipWriteLockOnce = true ∧ s.lockWrite = true) := by
    rintro ⟨h1, h2⟩
    rcases hlock with h | h
    · exact h1 h
    · exact Bool.false_ne_true (h.symm.trans h2)
  have halloc := congrArg Surf.backing (Surf.allocAndMap_snd (s := s.takeWriteLock) (e := e))
  have htake : (s.takeWriteLock.allocBacking e).2.backing = (s.allocBacking e).2.backing := by
    unfold Surf.takeWriteLock
    split_ifs <;> rfl
  unfold Surf.writeLock
  rw [if_neg (by simp), if_neg (by simp [hid, hsrc]), if_neg hgo, if_neg (by simp [hclient]),
    ← htake]
  split <;> rename_i hres <;> rw [hres] at halloc <;> exact halloc

theorem contextLockMemory_backing (h : s.allocates (.contextLockMemory info) = true) :
    (s.contextLockMemory info e).2.backing = (s.allocBacking e).2.backing := by
  simp only [Surf.allocates, Bool.and_eq_true, Bool.not_eq_true'] at h
  obtain ⟨⟨⟨rfl, hid⟩, hsrc⟩, hlock⟩ := h
  have halloc := congrArg Surf.backing
    (Surf.allocAndMap_snd (s := { s with lockContext := true }) (e := e))
  unfold Surf.contextLockMemory
  rw [if_neg (by simp), if_neg (by simp [hid, hsrc]), if_neg (by simp [hlock])]
  split <;> rename_i hres <;> rw [hres] at halloc <;> exact halloc

/-- The backing after a call that allocates. -/
theorem exec_backing (h : s.allocates c = true) :
    (s.exec e c).2.backing = (s.backing.alloc s.client s.scale.size s.screen.clientAddr e).2 := by
  cases c with
  | readLock info => exact readLock_backing h
  | writeLock info => exact writeLock_backing h
  | contextLockMemory info => exact contextLockMemory_backing h
  | _ => cases h

theorem keepShape_backing {a : Surf.Shape} {r : Region} :
    (s.keepShape a r e).2.backing = s.backing := by
  simp only [Surf.keepShape, Surf.shapeScale, Surf.shapeGeometry, Surf.identityScale,
    Surf.calculateScaleParameters]
  split_ifs <;> rfl

theorem reshape_backing {a : Surf.Shape} {r : Region} :
    ∃ g, (s.reshape a r e).2.backing = s.backing.mark g := by
  unfold Surf.reshape
  split
  · exact ⟨_, rfl⟩
  split
  · exact ⟨_, rfl⟩
  split
  · split <;> exact ⟨_, rfl⟩
  split
  · exact ⟨_, rfl⟩
  split
  · exact ⟨_, keepShape_backing⟩
  split
  · exact ⟨_, rfl⟩
  · exact ⟨_, keepShape_backing⟩

theorem setShape_backing {a : Surf.Shape} :
    ∃ g, (s.setShape a e).2.backing = s.backing.mark g := by
  unfold Surf.setShape
  split
  · exact ⟨_, rfl⟩
  split
  · exact ⟨_, rfl⟩
  split
  · exact ⟨_, rfl⟩
  · exact reshape_backing

theorem readLock_backing_of_not (h : s.allocates (.readLock info) = false) :
    (s.readLock info e).2.backing = s.backing := by
  unfold Surf.readLock
  split
  · rfl
  split
  · rfl
  split
  · rfl
  split
  · exact finishReadLock_backing
  · simp_all [Surf.allocates]

theorem writeLock_backing_of_not (h : s.allocates (.writeLock info) = false) :
    (s.writeLock info e).2.backing = s.backing := by
  unfold Surf.writeLock
  split
  · rfl
  split
  · rfl
  split
  · rfl
  split
  · unfold Surf.takeWriteLock
    split <;> rfl
  · simp_all [Surf.allocates]

theorem contextLockMemory_backing_of_not (h : s.allocates (.contextLockMemory info) = false) :
    (s.contextLockMemory info e).2.backing = s.backing := by
  unfold Surf.contextLockMemory
  split
  · rfl
  split
  · rfl
  split
  · rfl
  · simp_all [Surf.allocates]

/-- All other calls only mark the client's descriptor as stale. -/
theorem exec_backing_of_not (h : s.allocates c = false) :
    ∃ g, (s.exec e c).2.backing = s.backing.mark g := by
  cases c with
  | setScale scaling => cases scaling <;> exact ⟨_, rfl⟩
  | setShape a => exact setShape_backing
  | contextScaleSurface fixedSource width height =>
    simp only [Surf.exec, Surf.contextScaleSurface]
    split_ifs <;> exact ⟨_, rfl⟩
  | readLock info => exact ⟨_, readLock_backing_of_not h⟩
  | writeLock info => exact ⟨_, writeLock_backing_of_not h⟩
  | contextLockMemory info => exact ⟨_, contextLockMemory_backing_of_not h⟩
  | _ => exact ⟨_, rfl⟩

end

/-! ### Runs -/

/-- The surface, the allocators that it shares and the GMR ids that other objects hold. -/
structure Owner where
  surf : Surf
  fence : ℕ
  ids : Ids.Sys
  vram : Allocator.Sys
  log : List Event
  others : Finset ℕ

inductive Act where
  | call (c : Call) (e : Faults)
  /-- `releaseBacking`, when the surface is closed. -/
  | release
  /-- Another object obtains a GMR id, or gives one back that it holds. -/
  | otherAlloc
  | otherFree (id : ℕ)

namespace Owner

variable (o : Owner)

def holder : Holder := ⟨o.surf.backing, o.fence, o.ids, o.vram, o.log⟩

/-- A new surface; every id that is allocated belongs to another object. -/
def init (surf : Surf) (ids : Ids.Sys) (vram : Allocator.Sys) : Owner :=
  ⟨{ surf with backing := .empty }, 0, ids, vram, [], ids.gmrs⟩

/-- What a call does to the holder before its end. -/
def allocated (c : Call) (e : Faults) : Holder :=
  if o.surf.allocates c then
    (o.holder.allocBacking e o.surf.client o.surf.scale.size o.surf.screen.clientAddr).2
  else o.holder

/-- The call as `Surf.exec` has it, with the answers of the allocators. -/
def result (c : Call) (e : Faults) : IOReturn × Surf :=
  o.surf.exec (o.holder.answers e o.surf.client o.surf.scale.size) c

end Owner

/-- The read lock was taken in GL mode, and the colour surface has to be read back. -/
def Surf.readsBack (before after : Surf) : Bool :=
  !before.lockRead && after.lockRead && before.glMode &&
    !(!before.rtDirty && decide (0 < before.attachCount))

/-- What the end of a call does: a write lock waits for the last transfer unless the buffer is
inside a larger source; a read lock of a GL surface reads it back and waits for that; a flush
leaves its fence. -/
def Holder.finish (h : Holder) (e : Faults) (before after : Surf) (rc : IOReturn) : Call → Holder
  | .writeLock _ => if rc = .success ∧ after.scale.offset = 0 then h.sync else h
  | .readLock _ =>
    match e.fence with
    | some f => if before.readsBack after then (h.note (.post f)).note (.sync f) else h
    | none => h
  | .flush framebufferMask =>
    match e.fence with
    | some f => if (before.flush framebufferMask e.toEnv).2 = [] then h
      else { h.note (.post f) with fence := f }
    | none => h
  | _ => h

@[simp] theorem Holder.finish_backing {h : Holder} {e : Faults} {before after : Surf}
    {rc : IOReturn} {c : Call} : (h.finish e before after rc c).backing = h.backing := by
  unfold Holder.finish
  cases c <;> dsimp only
  case writeLock => split_ifs <;> simp
  case readLock => split <;> [split_ifs; skip] <;> rfl
  case flush => split <;> [split_ifs; skip] <;> rfl

namespace Owner

def exec (o : Owner) : Act → Owner
  | .call c e =>
    let r := o.result c e
    let h := (o.allocated c e).finish e o.surf r.2 r.1 c
    ⟨r.2, h.fence, h.ids, h.vram, h.log, o.others⟩
  | .release =>
    let h := o.holder.releaseBacking
    ⟨{ o.surf with backing := h.backing }, h.fence, h.ids, h.vram, h.log, o.others⟩
  | .otherAlloc =>
    { o with
      ids := ⟨o.ids.accel.allocGMRID.2, o.ids.surfaces,
        o.ids.accel.allocGMRID.1.elim o.ids.gmrs (insert · o.ids.gmrs)⟩
      others := o.ids.accel.allocGMRID.1.elim o.others (insert · o.others) }
  | .otherFree id =>
    if id ∈ o.others then
      { o with
        ids := ⟨o.ids.accel.freeGMRID id, o.ids.surfaces, o.ids.gmrs.erase id⟩
        others := o.others.erase id }
    else o

variable {o : Owner} {c : Call} {e : Faults}

/-- The surface of the calls and the holder of the effects have one backing, up to the mark of
the client's descriptor. -/
theorem result_backing : ∃ g, (o.result c e).2.backing = (o.allocated c e).backing.mark g := by
  unfold result allocated
  cases h : o.surf.allocates c with
  | true =>
    rw [if_pos rfl, exec_backing h]
    have hb := Holder.allocBacking_backing (h := o.holder) (e := e) o.surf.client
      o.surf.scale.size o.surf.screen.clientAddr
    exact ⟨_, congrArg Prod.snd hb.symm⟩
  | false => exact exec_backing_of_not h

end Owner

end Cesvga2.Surface
