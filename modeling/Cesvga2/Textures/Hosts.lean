import Cesvga2.GL.Host
import Cesvga2.Leases.Table
import Cesvga2.Textures.Load
import Cesvga2.Textures.Protocol

/-! The host surfaces of the textures and the ids that a pipeline processor keeps of them. A
`Texture` token becomes a `MAP_STATE` command, which waits in the context's buffer with the other
commands; when they are submitted, `MAP_STATE` caches the surface ids and `SAMPLER_STATE` binds
cached ones. Textures come and go meanwhile, and a texture that is deleted takes its host surface
with it. -/

namespace Cesvga2.Textures

open Cesvga2.GL (Token)
open Cesvga2.IPP (Binder samplerLoop stateOf)

/-- Who has host surfaces: a texture, with a second one for YUV contents, a drawable, with one for
colour and one for depth, and the rest of the driver. -/
inductive Holder where
  | texture (t : ℕ)
  | yuvShadow (t : ℕ)
  | color (d : ℕ)
  | depth (d : ℕ)
  | other (o : ℕ)
  deriving DecidableEq, Repr

def Holder.textureOf : Holder → Option ℕ
  | .texture t | .yuvShadow t => some t
  | .color _ | .depth _ | .other _ => none

/-- The surface ids in use and the host surfaces that they name. `AllocSurfaceID` hands out ids
that are not in use, and the commands that define and destroy surfaces reach the device. -/
abbrev Hosts := Leases.Table Holder

namespace Hosts

variable (T : Hosts)

/-- `create_host_surface_for_texture` of a texture of this type. -/
def createHostSurface (e : SurfaceEnv) (type : TexType) (t : ℕ) : Hosts :=
  if ¬ e.provider then T
  else if (T.id (.texture t)).isSome then T
  else
    match type with
    | .agpref =>
      if ¬ e.lock3D then T
      else if e.needYuvShadow then
        (T.acquire (.texture t) e.sid).acquire (.yuvShadow t) e.shadowSid
      else T.acquire (.texture t) e.sid
    | .std | .oob =>
      if e.map ≠ .success then T
      else if ¬ e.lock3D then T
      else T.acquire (.texture t) e.sid
    | _ => T

def finalizeTexture (t : ℕ) : Hosts := T.releaseAll [.yuvShadow t, .texture t]

/-- The textures with host surfaces that are no longer there have been finalized. -/
def finalizeDeleted (m : Store) : Hosts :=
  ((T.holders.filterMap Holder.textureOf).filter fun t => (m.textures t).isNone).foldl
    finalizeTexture T

/-- A drawable is in GL mode as long as it has a surface for colour. -/
def drawable (d : ℕ) : GL.GLSurface where
  glMode := (T.id (.color d)).isSome
  colorSid := (T.id (.color d)).getD idInvalid
  depthSid := (T.id (.depth d)).getD idInvalid

/-- The texture as `write_tex_data` sees it, with the drawable it is linked to. -/
def hostOf (linked : Option ℕ) (t : ℕ) : TexType → GL.Host
  | .surface => .surface (linked.map T.drawable)
  | _ => .texture ((T.id (.texture t)).getD idInvalid)

end Hosts

/-- What drawables and the rest of the driver do with host surfaces: they take one, put another
in its place (`resizeGL`) and let it go. -/
inductive HostOp where
  | createSurface (o : Holder) (sid : ℕ)
  | resizeSurface (o : Holder)
  | destroySurface (o : Holder)
  deriving Repr

def HostOp.holder : HostOp → Holder
  | .createSurface o _ | .resizeSurface o | .destroySurface o => o

/-- Nobody but the texture itself does this to the surfaces of a texture. -/
def Hosts.apply (T : Hosts) (op : HostOp) : Hosts :=
  if op.holder.textureOf.isSome then T
  else
    match op with
    | .createSurface o sid => T.acquire o sid
    | .resizeSurface o => T.replace o
    | .destroySurface o => T.release o

/-- What the pipeline processor of a context has: the commands that are not yet submitted, the
cached ids, and the host surfaces as they were when each id was cached. -/
structure Downstream where
  pending : List (ℕ → ℕ)
  binder : Binder
  cachedIn : ℕ → Hosts

/-- An id of the cache that is bound, with the host surfaces when it was cached, and those and
the textures when it is bound. -/
structure Bound where
  sid : ℕ
  cached : Hosts
  hosts : Hosts
  store : Store

namespace Bound

/-- A valid id names a host surface that it named when it was cached. -/
def Denotes (b : Bound) : Prop :=
  isIdValid b.sid = true → ∃ x, b.cached.object b.sid = some x ∧ b.hosts.object b.sid = some x

/-- The texture has not been deleted since the id was cached; who is no texture has given up no
surface since. -/
def Keeps (b : Bound) (o : Holder) : Prop :=
  match o.textureOf with
  | some t => b.store.Live t
  | none => b.hosts.lost o = b.cached.lost o

/-- A valid id was that of a holder when it was cached, and the holder has kept its surface. -/
def Kept (b : Bound) : Prop :=
  isIdValid b.sid = true → ∃ o, b.cached.id o = some b.sid ∧ b.Keeps o

end Bound

/-- Contexts with their pipeline processors; `log` are the ids that were bound. -/
structure Machine (n : ℕ) where
  world : World n
  hosts : Hosts
  streams : Fin n → Downstream
  log : List Bound

/-- What a command of the pipeline processor finds, and what it does with surfaces of the driver's
own such as those of vertex arrays. -/
structure CommandEnv where
  ipp : IPP.Env
  ops : List HostOp

/-- What the handler of a `Texture` token finds for a unit: how the commands before it do when
they are submitted, the host surface that the load creates if it comes to that, and the drawable
of a surface texture. -/
structure UnitEnv where
  submit : ℕ → CommandEnv
  create : Option SurfaceEnv
  linked : Option ℕ

namespace Machine

variable {n : ℕ} (m : Machine n) (c : Fin n)

/-- A step of the contexts and textures, after which the deleted textures are finalized. -/
def setWorld (w : World n) : Machine n :=
  { m with world := w, hosts := m.hosts.finalizeDeleted w.store }

def setStream (d : Downstream) : Machine n :=
  { m with streams := Function.update m.streams c d }

/-- The next command of the stream. -/
def enqueue (w : ℕ → ℕ) : Machine n :=
  m.setStream c { m.streams c with pending := (m.streams c).pending ++ [w] }

/-! ### The pipeline processor -/

/-- The cached ids that the command at `w` binds. -/
def bound (w : ℕ → ℕ) : List Bound :=
  if stateOf (w 0) = some .samplerState then
    (samplerLoop w 16 0 (w 1) 2).map fun s =>
      ⟨(m.streams c).binder.surfaceIds s.2, (m.streams c).cachedIn s.2, m.hosts, m.world.store⟩
  else []

/-- The stages whose ids the command at `w` caches. -/
def caches (w : ℕ → ℕ) (i : ℕ) : Bool :=
  stateOf (w 0) = some .mapState && decide (i < 16) && (w 1).testBit i

def execute (e : CommandEnv) (w : ℕ → ℕ) : Machine n :=
  { m.setStream c
      { m.streams c with
        binder := ((m.streams c).binder.exec e.ipp w).1
        cachedIn := fun i => if caches w i then m.hosts else (m.streams c).cachedIn i } with
    hosts := e.ops.foldl Hosts.apply m.hosts
    log := m.log ++ m.bound c w }

def executeAll : List (ℕ → ℕ) → (ℕ → CommandEnv) → Machine n → Machine n
  | [], _, m => m
  | w :: ws, e, m => executeAll ws (fun i => e (i + 1)) (m.execute c (e 0) w)

/-- `submit_buffer` on what is pending. -/
def submit (e : ℕ → CommandEnv) : Machine n :=
  let m := executeAll c (m.streams c).pending e m
  m.setStream c { m.streams c with pending := [] }

/-! ### The handlers -/

/-- `get_texture`. -/
def getTexture (u : UnitEnv) (t : ℕ) (x : TextureBuffer) : Machine n :=
  if (m.world.store.sysObj x).inUse then
    let m := m.submit c u.submit
    { m with hosts := u.create.elim m.hosts fun e => m.hosts.createHostSurface e x.type t }
  else m

/-- The loop of `process_token_Texture` over the units; the next texture is at `p q`, `count` were
set, and `v` are the words as rewritten so far. -/
def textureLoop (k : ℕ) (u : Slot → UnitEnv) (p : ℕ → ℕ) :
    List Slot → (q count : ℕ) → (ℕ → ℕ) → Machine n → Machine n
  | [], _, count, v, m =>
    m.enqueue c (Function.update v 0 (if count = 0 then 0 else 0x7D000000 ||| 3 * count))
  | i :: is, q, count, v, m =>
    let m := m.setWorld (m.world.dropSlot c k i)
    if (p 1).testBit i then
      match m.world.store.findTextureBuffer k (p q) with
      | none => m.setWorld (m.world.fail c)
      | some t =>
        match m.world.store.textures t with
        | none => textureLoop k u p is (q + 3) (count + 1) v m
        | some x =>
          let m := m.getTexture c (u i) t x
          let sid := (m.hosts.hostOf (u i).linked t x.type).writeTexData (p q)
          textureLoop k u p is (q + 3) (count + 1) (Function.update v q sid)
            (m.setWorld (m.world.takeSlot c i t))
    else textureLoop k u p is q count v m

/-- One token of the stream, unless an error has ended it. Only `Texture` leaves a `MAP_STATE`
command. -/
def token (lion : Bool) (e : TokenEnv) (u : Slot → UnitEnv) (p : ℕ → ℕ) : Machine n :=
  if (m.world.ctxs c).streamError then m
  else
    match (m.world.ctxs c).shared, GL.dispatch lion (p 0) with
    | some k, some .texture => textureLoop c k u p World.units 2 0 p m
    | _, _ => m.setWorld (m.world.token c lion e p)

/-- A new stream; what an error has left of the one before is lost. -/
def start : Machine n :=
  (m.setWorld (m.world.setContext c { m.world.ctxs c with streamError := false })).setStream c
    { m.streams c with pending := [] }

end Machine

/-- What can happen. A handler or the end of a stream submits what is pending, and any handler
may create the host surface of a texture. -/
inductive Event (n : ℕ) where
  | device (call : Call)
  | connectClient (c : Fin n) (k : ℕ)
  | cleanupApp (c : Fin n)
  | start (c : Fin n)
  | token (c : Fin n) (lion : Bool) (e : TokenEnv) (u : Slot → UnitEnv) (p : ℕ → ℕ)
  | command (c : Fin n) (w : ℕ → ℕ)
  | submit (c : Fin n) (e : ℕ → CommandEnv)
  | createHostSurface (t : ℕ) (e : SurfaceEnv)
  | surface (op : HostOp)

namespace Machine

variable {n : ℕ}

def exec (m : Machine n) : Event n → Machine n
  | .device call => m.setWorld (m.world.exec (.device call))
  | .connectClient c k => m.setWorld (m.world.exec (.connectClient c k))
  | .cleanupApp c => m.setWorld (m.world.exec (.cleanupApp c))
  | .start c => m.start c
  | .token c lion e u p => m.token c lion e u p
  | .command c w => if (m.world.ctxs c).streamError then m else m.enqueue c w
  | .submit c e => m.submit c e
  | .createHostSurface t e =>
    match m.world.store.textures t with
    | none => m
    | some x => { m with hosts := m.hosts.createHostSurface e x.type t }
  | .surface op => { m with hosts := m.hosts.apply op }

/-- Contexts that have just been opened. -/
def fresh (task : ℕ → ℕ) (owner : Fin n → ℕ) : Machine n where
  world := .fresh task owner
  hosts := .empty
  streams _ := ⟨[], ⟨fun _ => idInvalid, fun _ => false⟩, fun _ => .empty⟩
  log := []

def run (m : Machine n) (l : List (Event n)) : Machine n := l.foldl exec m

end Machine

end Cesvga2.Textures
