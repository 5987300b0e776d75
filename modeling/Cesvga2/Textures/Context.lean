import Cesvga2.Textures.Client

/-! The GL contexts that use the textures of the shared objects. A context keeps the
textures in use in its slots `m_txs`: 0 to 15 are the texture units, 16 is the vertex
buffer, 17 and 18 are the attachments of the draw framebuffer and 19 and 20 those of the
read framebuffer. A token that puts a texture in a slot turns a reference of the client,
which counts as 0x10000, into one of the kernel, which counts as one. -/

namespace Cesvga2.Textures

open Cesvga2.GL (Token noTexture)

abbrev Slot := Fin 21

/-- The two framebuffers of `m_fbo`. -/
inductive Fbo where
  | draw
  | read
  deriving DecidableEq, Repr

def Fbo.slots : Fbo → List Slot
  | .draw => [17, 18]
  | .read => [19, 20]

structure Context where
  task : ℕ
  shared : Option ℕ
  txs : Slot → Option ℕ
  fbo : Fbo → Bool
  streamError : Bool

/-- `n` contexts over the textures of the shared objects. -/
structure World (n : ℕ) where
  store : Store
  ctxs : Fin n → Context

/-- What a token's handler finds elsewhere: whether a framebuffer descriptor can be
allocated, and whether purgeable memory was found empty. -/
structure TokenEnv where
  malloc : Bool
  emptied : Bool
  deriving Repr

namespace World

variable {n : ℕ}

def setContext (w : World n) (c : Fin n) (x : Context) : World n :=
  { w with ctxs := Function.update w.ctxs c x }

def setSlot (w : World n) (c : Fin n) (i : Slot) (v : Option ℕ) : World n :=
  w.setContext c { w.ctxs c with txs := Function.update (w.ctxs c).txs i v }

def setFbo (w : World n) (c : Fin n) (b : Fbo) (v : Bool) : World n :=
  w.setContext c { w.ctxs c with fbo := Function.update (w.ctxs c).fbo b v }

/-- Sets `m_stream_error`, which ends the stream. -/
def fail (w : World n) (c : Fin n) : World n :=
  w.setContext c { w.ctxs c with streamError := true }

section Handlers

-- the context that runs the stream, and its shared object
variable (w : World n) (c : Fin n) (k : ℕ)

/-- Takes `amount` from a texture's reference count and deletes it if nothing is left. -/
def deref (t amount : ℕ) : World n :=
  { w with store := w.store.deref t amount fun m => m.deleteTexture k t }

/-- Empties a slot. -/
def dropSlot (i : Slot) : World n :=
  match (w.ctxs c).txs i with
  | none => w
  | some t => (w.deref k t 1).setSlot c i none

def dropSlots (is : List Slot) : World n := is.foldl (fun w i => w.dropSlot c k i) w

/-- Puts a texture in a slot; adding -0xFFFF gives up a reference of the client for one
of the slot. -/
def takeSlot (i : Slot) (t : ℕ) : World n :=
  match w.store.textures t with
  | none => w
  | some x => { w with store := w.store.fetchAndAdd x (2 ^ 32 - 0xFFFF) }.setSlot c i (some t)

/-- The tokens that only give up a reference of the client to the texture they name. -/
def releaseClient (id : ℕ) : World n :=
  match w.store.findTextureBuffer k id with
  | none => w.fail c
  | some t => w.deref k t 0x10000

/-- `Texture` empties each unit and fills it again if its bit is set; the next texture is
at `p q`. -/
def textureLoop (p : ℕ → ℕ) : World n → List Slot → ℕ → World n
  | w, [], _ => w
  | w, i :: is, q =>
    let w := w.dropSlot c k i
    if (p 1).testBit i then
      match w.store.findTextureBuffer k (p q) with
      | none => w.fail c
      | some t => textureLoop p (w.takeSlot c i t) is (q + 3)
    else textureLoop p w is q

/-- The attachments of `BindDrawFBO` and `BindReadFBO`; the next one is at `p q`. -/
def bindLoop (p : ℕ → ℕ) : World n → List Slot → ℕ → World n
  | w, [], _ => w
  | w, i :: is, q =>
    if p q = noTexture then bindLoop p w is (q + 4)
    else
      match w.store.findTextureBuffer k (p q) with
      | none => w.fail c
      | some t => bindLoop p (w.takeSlot c i t) is (q + 4)

def bindFBO (e : TokenEnv) (b : Fbo) (p : ℕ → ℕ) : World n :=
  if (w.ctxs c).fbo b then
    bindLoop c k p (w.dropSlots c k b.slots) (b.slots.take (min (p 3) 2)) 4
  else if e.malloc then bindLoop c k p (w.setFbo c b true) (b.slots.take (min (p 3) 2)) 4
  else w.fail c

def unbindFBO (b : Fbo) : World n :=
  if (w.ctxs c).fbo b then (w.dropSlots c k b.slots).setFbo c b false else w

/-- `TextureNonVolatile` marks the system object of an emptied AGPREF texture in use. -/
def markInUse (e : TokenEnv) (id : ℕ) : World n :=
  match w.store.findTextureBuffer k id with
  | none => w
  | some t =>
    match w.store.textures t with
    | none => w
    | some x =>
      if x.type = .agpref ∧ e.emptied then
        { w with store := w.store.setSysObj x.home x.slot { w.store.sysObj x with inUse := true } }
      else w

def units : List Slot := [0, 1, 2, 3, 4, 5, 6, 7, 8, 9, 10, 11, 12, 13, 14, 15]

/-- What a token's handler does to the slots and to the textures; `p` are the words from
the token on. -/
def process (e : TokenEnv) (p : ℕ → ℕ) : Token → World n
  | .textureVolatile => w.releaseClient c k (p 1)
  | .textureNonVolatile => (w.markInUse k e (p 1)).releaseClient c k (p 1)
  | .bindDrawFBO => w.bindFBO c k e .draw p
  | .bindReadFBO => w.bindFBO c k e .read p
  | .unbindDrawFBO => w.unbindFBO c k .draw
  | .unbindReadFBO => w.unbindFBO c k .read
  | .texture => textureLoop c k p w units 2
  | .noTex =>
    if p 1 ≠ noTexture then w.releaseClient c k (p 1)
    else w.dropSlot c k (Fin.ofNat 21 ((p 0 >>> 24) - 36))
  | .vertexBuffer =>
    match w.store.findTextureBuffer k (p 1) with
    | none => w.fail c
    | some t => w.setSlot c 16 (some t)
  | .noVertexBuffer => w.setSlot c 16 none
  | .texSubImage2D => w.releaseClient c k (p 6)
  | .copyPixelsDst | .copyPixelsSrcFBO | .asyncReadDrawBuffer => w.releaseClient c k (p 1)
  | .start | .endToken | .userEnd | .swap | .flush | .setSurfaceState | .drawBuffer | .setFence
  | .copyPixelsSrc | .drawRect | .bindHeap | .setShaderHeapOffsets => w

end Handlers

/-- One token of the stream of a context; without a shared object there is none. -/
def token (w : World n) (c : Fin n) (lion : Bool) (e : TokenEnv) (p : ℕ → ℕ) : World n :=
  match (w.ctxs c).shared, GL.dispatch lion (p 0) with
  | some k, some t => w.process c k e p t
  | _, _ => w

/-- The loop of `CleanupApp` over the slots, with the textures to delete. -/
def cleanupSlot (c : Fin n) (s : World n × List ℕ) (i : Slot) : World n × List ℕ :=
  match (s.1.ctxs c).txs i with
  | none => s
  | some t =>
    match s.1.store.textures t with
    | none => (s.1.setSlot c i none, s.2)
    | some x =>
      ({ s.1 with store := s.1.store.fetchAndAdd x (2 ^ 32 - 1) }.setSlot c i none,
        if (s.1.store.sysObj x).refcount = 1 then s.2 ++ [t] else s.2)

def cleanupApp (w : World n) (c : Fin n) : World n :=
  let w := (w.setFbo c .draw false).setFbo c .read false
  match (w.ctxs c).shared with
  | none => w
  | some k =>
    let s := (List.finRange 21).foldl (cleanupSlot c) (w, [])
    { s.1 with store := s.2.foldl (fun m t => m.deleteTexture k t) s.1.store }

/-- `connectClient` with the device of the shared object `k`. -/
def connectClient (w : World n) (c : Fin n) (k : ℕ) : World n × IOReturn :=
  if (w.store.shareds k).task ≠ (w.ctxs c).task then (w, .notPermitted)
  else (w.setContext c { w.ctxs c with shared := some k }, .success)

end World

/-- What the clients of the devices and of the contexts can do. -/
inductive Action (n : ℕ) where
  | device (call : Call)
  | connectClient (c : Fin n) (k : ℕ)
  | token (c : Fin n) (lion : Bool) (e : TokenEnv) (p : ℕ → ℕ)
  | cleanupApp (c : Fin n)

def World.exec {n : ℕ} (w : World n) : Action n → World n
  | .device call => { w with store := w.store.exec call }
  | .connectClient c k => (w.connectClient c k).1
  | .token c lion e p => w.token c lion e p
  | .cleanupApp c => w.cleanupApp c

end Cesvga2.Textures
