import Cesvga2.IPP.Submit

/-! The commands that bind host surfaces in the client's 3D context. `MAP_STATE` caches a
surface id for each stage of its mask, `SAMPLER_STATE` binds cached ids to samplers and
`BUF_INFO` sets a render target. -/

namespace Cesvga2.IPP

/-- `SVGA3dSurfaceImageId`. -/
@[ext]
structure Image where
  sid : ℕ
  face : ℕ
  mipmap : ℕ
  deriving DecidableEq, Repr

/-- `SVGA3D_RT_COLOR0` and `SVGA3D_RT_DEPTH`. -/
inductive Target where
  | color
  | depth
  deriving DecidableEq, Repr

/-- What is bound in the context. -/
inductive Bind where
  | texture (stage sid : ℕ)
  | target (t : Target) (image : Image)
  deriving DecidableEq, Repr

def Bind.sid : Bind → ℕ
  | .texture _ sid => sid
  | .target _ image => image.sid

structure Binder where
  surfaceIds : ℕ → ℕ
  boundSamplers : ℕ → Bool

/-- The stages of the mask from stage `i` on; the next entry is at dword `q`. -/
def mapStateLoop (w : ℕ → ℕ) : (n i mask q : ℕ) → (ℕ → ℕ) → ℕ → ℕ
  | 0, _, _, _, ids => ids
  | n + 1, i, mask, q, ids =>
    if mask % 2 = 1 then mapStateLoop w n (i + 1) (mask / 2) (q + 3) (Function.update ids i (w q))
    else mapStateLoop w n (i + 1) (mask / 2) q ids

/-- The samplers of the mask from sampler `i` on, each with the texture stage that its
entry selects. -/
def samplerLoop (w : ℕ → ℕ) : (n i mask q : ℕ) → List (ℕ × ℕ)
  | 0, _, _, _ => []
  | n + 1, i, mask, q =>
    if mask % 2 = 1 then
      (i, bitSelect (w (q + 1)) 1 4) :: samplerLoop w n (i + 1) (mask / 2) (q + 3)
    else samplerLoop w n (i + 1) (mask / 2) q

/-- `unbind_samplers`; its mask selects the samplers to let go. -/
def Binder.unbindSamplers (e : Env) (t : Binder) (mask : ℕ → Bool) : Binder × List Bind :=
  if e.lock3D then
    ({ t with boundSamplers := fun i => t.boundSamplers i && !mask i },
      ((List.range 16).filter fun i => t.boundSamplers i && mask i).map (.texture · idInvalid))
  else (t, [])

def Binder.samplerState (e : Env) (w : ℕ → ℕ) (t : Binder) : Binder × List Bind :=
  let (t', unbound) := t.unbindSamplers e fun i => !(w 1).testBit i
  let bound := (samplerLoop w 16 0 (w 1) 2).map fun s => (s.1, t.surfaceIds s.2)
  ({ t' with
      boundSamplers := bound.foldl (fun f s => Function.update f s.1 (isIdValid s.2))
        t'.boundSamplers },
    unbound ++ bound.map fun s => .texture s.1 s.2)

def bufInfo (e : Env) (w : ℕ → ℕ) : List Bind :=
  let kind := bitSelect (w 1) 24 3
  let image := ⟨w 2, bitSelect (w 1) 8 8, bitSelect (w 1) 0 8⟩
  if e.lock3D then
    if kind = 3 then [.target .color image]
    else if kind = 7 then [.target .depth image]
    else []
  else []

/-- The `3DSTATE` command of the word `cmd`, if it is one. -/
def stateOf (cmd : ℕ) : Option State :=
  if cmd / 2 ^ 29 = 3 ∧ Op3d.ofCode cmd = .state then some (State.ofCode (bitSelect cmd 16 8))
  else none

/-- What the command at `w` binds. -/
def Binder.exec (e : Env) (w : ℕ → ℕ) (t : Binder) : Binder × List Bind :=
  match stateOf (w 0) with
  | some .mapState =>
    ({ t with surfaceIds := mapStateLoop w 16 0 (w 1) 2 t.surfaceIds }, [])
  | some .samplerState => t.samplerState e w
  | some .bufInfo => (t, bufInfo e w)
  | _ => (t, [])

/-- The loop of `submit_buffer` with what it binds. -/
structure Exec where
  submit : Submit
  binder : Binder
  binds : List Bind

namespace Exec

def start (r : Regs) (t : Binder) : Exec := ⟨.start r, t, []⟩

def step (b : ℕ → ℕ) (e : Env) (s : Exec) : Exec where
  submit := s.submit.step b e
  binder := (s.binder.exec e (s.submit.word b)).1
  binds := s.binds ++ (s.binder.exec e (s.submit.word b)).2

end Exec

/-- The state after `n` commands of the buffer, if the loop gets that far. -/
def exec (env : ℕ → Env) (b : ℕ → ℕ) (size : ℕ) (s : Exec) : ℕ → Exec :=
  Oracle.run (Exec.step b) (fun s => s.submit.running size) s env

end Cesvga2.IPP
