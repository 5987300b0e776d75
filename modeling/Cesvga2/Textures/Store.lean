import Cesvga2.GL.Token

/-! The textures of the shared objects. A texture buffer is named by a number that is
never used again; a released buffer has no contents. Each shared object has a handle
table, a list of its textures and an array of system objects that the client can write
at any time; a texture's reference count, its name in the table and whether its place in
the array is taken are in that array. Memory that was released is not modelled: what
would read or write it leaves the store as it is. -/

namespace Cesvga2.Textures

open Cesvga2.GL (numTextureHandles)

/-- The `TEX_TYPE_…` codes. -/
inductive TexType where
  | surface
  | iosurface
  | vb
  | agp
  | agpref
  | std
  | oob
  deriving DecidableEq, Repr

/-- The types whose textures have a `linked_agp`. -/
def TexType.isLinked : TexType → Bool
  | .agpref | .oob => true
  | _ => false

/-- What the kernel reads back from a `GLDSysObject`. -/
structure SysObject where
  objectId : ℕ
  refcount : ℕ
  inUse : Bool
  deriving DecidableEq, Repr

def SysObject.zero : SysObject := ⟨0, 0, false⟩

/-- A `CEsvga2TextureBuffer`; its `sys_obj` is the one at `slot` in the array of the
shared object `home`. -/
structure TextureBuffer where
  type : TexType
  home : ℕ
  slot : ℕ
  linkedAgp : Option ℕ
  agpOffsetInPage : ℕ
  agpAddr : ℕ
  agpSize : ℕ
  memChanged : Bool
  deriving DecidableEq, Repr

structure Shared where
  task : ℕ
  handleTable : ℕ → Option ℕ
  clientSysObjsMap : Bool
  sysObjs : ℕ → SysObject
  textureList : List ℕ

structure Store where
  textures : ℕ → Option TextureBuffer
  shareds : ℕ → Shared
  next : ℕ

/-- `CLIENT_SYS_OBJS_SIZE / sizeof(GLDSysObject)`. -/
def numSysObjs : ℕ := 8192 / 56

namespace Store

def sysObj (m : Store) (x : TextureBuffer) : SysObject := (m.shareds x.home).sysObjs x.slot

def modify (m : Store) (k : ℕ) (f : Shared → Shared) : Store :=
  { m with shareds := Function.update m.shareds k (f (m.shareds k)) }

def setHandle (m : Store) (k i : ℕ) (v : Option ℕ) : Store :=
  m.modify k fun s => { s with handleTable := Function.update s.handleTable i v }

def setSysObj (m : Store) (k i : ℕ) (o : SysObject) : Store :=
  m.modify k fun s => { s with sysObjs := Function.update s.sysObjs i o }

def setList (m : Store) (k : ℕ) (l : List ℕ) : Store :=
  m.modify k fun s => { s with textureList := l }

def setTexture (m : Store) (t : ℕ) (x : Option TextureBuffer) : Store :=
  { m with textures := Function.update m.textures t x }

section Updates

variable (m : Store) (k j i n t u : ℕ) (x : TextureBuffer)

@[simp] theorem setHandle_textures (v) : (m.setHandle k i v).textures = m.textures := rfl

@[simp] theorem setHandle_handleTable (v) : ((m.setHandle k i v).shareds j).handleTable n
    = if j = k ∧ n = i then v else (m.shareds j).handleTable n := by
  by_cases hj : j = k
  · subst hj
    simp [setHandle, modify, Function.update_apply]
  · simp [setHandle, modify, hj]

@[simp] theorem setHandle_sysObj (v) : (m.setHandle k i v).sysObj x = m.sysObj x := by
  by_cases hj : x.home = k <;> simp [setHandle, modify, sysObj, hj]

@[simp] theorem setHandle_map (v) : ((m.setHandle k i v).shareds j).clientSysObjsMap
    = (m.shareds j).clientSysObjsMap := by
  by_cases hj : j = k <;> simp [setHandle, modify, hj]

@[simp] theorem setHandle_textureList (v) : ((m.setHandle k i v).shareds j).textureList
    = (m.shareds j).textureList := by
  by_cases hj : j = k <;> simp [setHandle, modify, hj]

@[simp] theorem setSysObj_textures (o) : (m.setSysObj k i o).textures = m.textures := rfl

@[simp] theorem setSysObj_handleTable (o) : ((m.setSysObj k i o).shareds j).handleTable
    = (m.shareds j).handleTable := by
  by_cases hj : j = k <;> simp [setSysObj, modify, hj]

@[simp] theorem setSysObj_sysObj (o) : (m.setSysObj k i o).sysObj x
    = if x.home = k ∧ x.slot = i then o else m.sysObj x := by
  by_cases hj : x.home = k
  · subst hj
    simp [setSysObj, modify, sysObj, Function.update_apply]
  · simp [setSysObj, modify, sysObj, hj]

@[simp] theorem setSysObj_map (o) : ((m.setSysObj k i o).shareds j).clientSysObjsMap
    = (m.shareds j).clientSysObjsMap := by
  by_cases hj : j = k <;> simp [setSysObj, modify, hj]

@[simp] theorem setSysObj_textureList (o) : ((m.setSysObj k i o).shareds j).textureList
    = (m.shareds j).textureList := by
  by_cases hj : j = k <;> simp [setSysObj, modify, hj]

@[simp] theorem setList_textures (l) : (m.setList k l).textures = m.textures := rfl

@[simp] theorem setList_handleTable (l) : ((m.setList k l).shareds j).handleTable
    = (m.shareds j).handleTable := by
  by_cases hj : j = k <;> simp [setList, modify, hj]

@[simp] theorem setList_sysObj (l) : (m.setList k l).sysObj x = m.sysObj x := by
  by_cases hj : x.home = k <;> simp [setList, modify, sysObj, hj]

@[simp] theorem setList_map (l) : ((m.setList k l).shareds j).clientSysObjsMap
    = (m.shareds j).clientSysObjsMap := by
  by_cases hj : j = k <;> simp [setList, modify, hj]

@[simp] theorem setList_textureList (l) : ((m.setList k l).shareds j).textureList
    = if j = k then l else (m.shareds j).textureList := by
  by_cases hj : j = k <;> simp [setList, modify, hj]

@[simp] theorem setTexture_textures (v) : (m.setTexture t v).textures u
    = if u = t then v else m.textures u := Function.update_apply ..

theorem setTexture_self (v) : (m.setTexture t v).textures t = v := Function.update_self ..

@[simp] theorem setTexture_shareds (v) : (m.setTexture t v).shareds = m.shareds := rfl

@[simp] theorem setTexture_sysObj (v) : (m.setTexture t v).sysObj x = m.sysObj x := rfl

end Updates

/-! ### The registries -/

def findTextureBuffer (m : Store) (k objectId : ℕ) : Option ℕ :=
  if objectId < numTextureHandles then (m.shareds k).handleTable objectId else none

def allocBufHandle (m : Store) (k t : ℕ) : Store × Option ℕ :=
  match (List.range numTextureHandles).find? fun i => ((m.shareds k).handleTable i).isNone with
  | none => (m, none)
  | some i => (m.setHandle k i (some t), some i)

def freeBufHandle (m : Store) (k t objectId : ℕ) : Store :=
  if objectId < numTextureHandles ∧ (m.shareds k).handleTable objectId = some t then
    m.setHandle k objectId none
  else m

/-- The array is allocated and cleared by the first call that succeeds in doing so. -/
def mapClientSysObjs (m : Store) (k : ℕ) : Store :=
  if (m.shareds k).clientSysObjsMap then m
  else m.modify k fun s => { s with clientSysObjsMap := true, sysObjs := fun _ => .zero }

def allocClientShared (m : Store) (k : ℕ) (map : Bool) : Store × Option ℕ :=
  if (m.shareds k).clientSysObjsMap = false ∧ map = false then (m, none)
  else
    let m := m.mapClientSysObjs k
    match (List.range numSysObjs).find? fun i => !((m.shareds k).sysObjs i).inUse with
    | none => (m, none)
    | some i => (m.setSysObj k i { SysObject.zero with inUse := true }, some i)

def freeClientShared (m : Store) (x : TextureBuffer) : Store := m.setSysObj x.home x.slot .zero

def linkTextureAtHead (m : Store) (k t : ℕ) : Store :=
  m.setList k (t :: (m.shareds k).textureList)

def unlinkTexture (m : Store) (k t : ℕ) : Store :=
  m.setList k ((m.shareds k).textureList.erase t)

/-- Which allocations of `common_texture_init` succeed. -/
structure InitEnv where
  buffer : Bool
  map : Bool
  deriving Repr

def commonTextureInit (m : Store) (k : ℕ) (type : TexType) (e : InitEnv) : Store × Option ℕ :=
  if e.buffer = false then (m, none)
  else
    match m.allocBufHandle k m.next with
    | (m₁, none) => (m₁, none)
    | (m₁, some objectId) =>
      match m₁.allocClientShared k e.map with
      | (m₂, none) => (m₂.freeBufHandle k m.next objectId, none)
      | (m₂, some i) =>
        ({ m₂.setSysObj k i ⟨objectId, 0, true⟩ with
            textures := Function.update m₂.textures m.next
              (some ⟨type, k, i, none, 0, 0, 0, false⟩)
            next := m.next + 1 }, some m.next)

/-! ### Deletion -/

/-- `__sync_fetch_and_add` on the reference count of a texture. -/
def fetchAndAdd (m : Store) (x : TextureBuffer) (n : ℕ) : Store :=
  m.setSysObj x.home x.slot
    { m.sysObj x with refcount := u32 ((m.sysObj x).refcount + n) }

/-- Takes `n` from a texture's reference count; `del` is called when nothing is left. -/
def deref (m : Store) (t n : ℕ) (del : Store → Store) : Store :=
  match m.textures t with
  | none => m
  | some x =>
    if (m.sysObj x).refcount = n then del (m.fetchAndAdd x (2 ^ 32 - n))
    else m.fetchAndAdd x (2 ^ 32 - n)

/-- Gives back the handle and the system object of a texture and its memory. -/
def freeTexture (m : Store) (k t : ℕ) (x : TextureBuffer) : Store :=
  ((m.freeBufHandle k t (m.sysObj x).objectId).freeClientShared x).setTexture t none

/-- `delete_texture_internal` with the calls it may still nest. -/
def deleteTextureInternal : ℕ → Store → ℕ → ℕ → Store
  | 0, m, _, _ => m
  | depth + 1, m, k, t =>
    match m.textures t with
    | none => m
    | some x =>
      let m := match x.type.isLinked, x.linkedAgp with
        | true, some l =>
          (m.deref l 1 fun m => deleteTextureInternal depth m k l).setTexture t
            (some { x with linkedAgp := none })
        | _, _ => m
      (m.freeTexture k t x).unlinkTexture k t

/-- A chain of links is no longer than the number of textures. -/
def deleteTexture (m : Store) (k t : ℕ) : Store := deleteTextureInternal (m.next + 1) m k t

end Store

end Cesvga2.Textures
