import Cesvga2.IPP.Format

/-! The command decoders of the pipeline processor. Each gives the dwords it reads,
counted from the command's own, the dwords to skip, and the registers it leaves. The
words `w` are the memory from the command on, which does not end with the buffer. -/

namespace Cesvga2.IPP

/-- What the rest of the driver decides while a command is handled. -/
structure Env where
  lock3D : Bool
  alloc : Bool
  logLevel : ℕ

structure ClearParams where
  mask : ℕ
  color : ℕ
  depth : ℕ
  stencil : ℕ
  deriving DecidableEq, Repr

/-- The registers of the pipeline processor. -/
structure Regs where
  immS : ℕ → ℕ
  paramCacheMask : ℕ
  clearParams : ClearParams

/-- The miscellaneous register `n` is cached with this value. -/
def Regs.cached (r : Regs) (n value : ℕ) : Bool :=
  r.paramCacheMask.testBit (8 + n) ∧ value = r.immS (8 + n)

/-- Sets the miscellaneous register `n`, unless it is cached with this value. -/
def Regs.cacheMiscReg (r : Regs) (n value : ℕ) : Regs :=
  if r.cached n value then r
  else { r with
    immS := Function.update r.immS (8 + n) value
    paramCacheMask := r.paramCacheMask ||| 1 <<< (8 + n) }

/-- What decoding a command comes to. -/
structure Decoded where
  reads : List ℕ
  skip : ℕ
  regs : Regs

/-! ### Loops over a mask -/

/-- One block of `k` dwords for each of the mask's bits, from dword `q` on. -/
def maskLoop (block : ℕ → List ℕ) (k : ℕ) : ℕ → ℕ → ℕ → List ℕ
  | 0, _, _ => []
  | n + 1, mask, q =>
    if mask % 2 = 1 then block q ++ maskLoop block k n (mask / 2) (q + k)
    else maskLoop block k n (mask / 2) q

def ip3dMapState (e : Env) (w : ℕ → ℕ) : List ℕ :=
  1 :: maskLoop (fun q => q :: (q + 1) :: if 5 ≤ e.logLevel then [q + 2] else []) 3 16 (w 1) 2

def ip3dSamplerState (w : ℕ → ℕ) : List ℕ :=
  1 :: maskLoop (fun q => [q, q + 1, q + 2]) 3 16 (w 1) 2

def ipLoadPsConst (e : Env) (w : ℕ → ℕ) : List ℕ :=
  1 :: if w 1 % 2 ^ 16 ≠ 0 ∧ e.lock3D then
    maskLoop (fun q => [q, q + 1, q + 2, q + 3]) 4 16 (w 1) 2
  else []

/-! ### Immediate state -/

/-- `imm_s[i] = *p`; the registers from 4 on are cached. -/
def Regs.loadImm (r : Regs) (i value : ℕ) : Regs :=
  if 4 ≤ i then
    if r.paramCacheMask.testBit i ∧ r.immS i = value then r
    else { r with
      immS := Function.update r.immS i value
      paramCacheMask := r.paramCacheMask ||| 1 <<< i }
  else { r with immS := Function.update r.immS i value }

/-- The registers of the mask, from dword `q` on and as far as dword `limit`. -/
def loadLoop (w : ℕ → ℕ) (limit : ℕ) : ℕ → ℕ → ℕ → ℕ → Regs → List ℕ × Regs
  | 0, _, _, _, r => ([], r)
  | n + 1, i, mask, q, r =>
    if q < limit then
      if mask % 2 = 1 then
        let (reads, r') := loadLoop w limit n (i + 1) (mask / 2) (q + 1) (r.loadImm i (w q))
        (q :: reads, r')
      else loadLoop w limit n (i + 1) (mask / 2) q r
    else ([], r)

def ipLoadImmediate (w : ℕ → ℕ) (r : Regs) : Decoded :=
  let skip := w 0 % 2 ^ 4 + 2
  let (reads, r') := loadLoop w skip 8 0 (bitSelect (w 0) 4 8) 1 r
  ⟨reads, skip, r'⟩

def ipClearParams (w : ℕ → ℕ) (r : Regs) : Decoded :=
  let skip := w 0 % 2 ^ 16 + 2
  if skip < 7 then ⟨[], skip, r⟩
  else ⟨[1, 4, 5, 6], skip, { r with clearParams := ⟨w 1, w 4, w 5, w 6⟩ }⟩

/-! ### Other state -/

/-- The selectors of `ip_misc_render_state` with operands; 1 and 4 read the command alone. -/
def ipMiscRenderState (e : Env) : ℕ → List ℕ
  | 0 => [1]
  | 1 => [0]
  | 2 => if 4 ≤ e.logLevel ∨ e.lock3D then [1, 2] else []
  | 3 => [1]
  | 4 => [0]
  | _ => []

def ipBufInfo (w : ℕ → ℕ) : List ℕ :=
  let kind := bitSelect (w 1) 24 3
  if kind = 3 ∨ kind = 7 then [1, 2] else [1]

def ipDrawRect : List ℕ := [1, 2, 3, 4]

/-! ### Primitives -/

inductive PrimKind where
  | triList
  | triStrip
  | triFan
  | poly
  | lineList
  | lineStrip
  | pointList
  | clearRect
  deriving DecidableEq, Repr

/-- The kinds with a handler. -/
def PrimKind.ofCode : ℕ → Option PrimKind
  | 0 => some .triList
  | 1 => some .triStrip
  | 3 => some .triFan
  | 4 => some .poly
  | 5 => some .lineList
  | 6 => some .lineStrip
  | 8 => some .pointList
  | 10 => some .clearRect
  | _ => none

/-- The vertices without which there is nothing to draw. -/
def PrimKind.least : PrimKind → ℕ
  | .triList | .triStrip | .triFan | .poly => 3
  | .lineList | .lineStrip => 2
  | .pointList => 1
  | .clearRect => 0

/-- Whether a primitive of `dwords` dwords has vertices to draw. -/
def draws (r : Regs) (kind : PrimKind) (dwords : ℕ) : Bool :=
  match analyzeVertexFormat (toInt32 (r.immS 2)) (r.immS 4) maxNumDecls with
  | .error _ => false
  | .ok decls =>
    match decls.head? with
    | none => false
    | some d => d.stride ≠ 0 ∧ kind.least ≤ dwords * 4 / d.stride

/-- `ip_prim3d_direct` and `ip_prim3d_poly` copy the vertices to an array. -/
def ipPrim3dVertices (e : Env) (r : Regs) (kind : PrimKind) (dwords : ℕ) : List ℕ :=
  if draws r kind dwords ∧ e.alloc then (List.range dwords).map (· + 1) else []

/-- The vertex indices of an indirect primitive, two in a dword. -/
def index (w : ℕ → ℕ) (k : ℕ) : ℕ := bitSelect (w (1 + k / 2)) (16 * (k % 2)) 16

/-- The first index from `k` on that is the terminator. An `n`th index without one is
the index the search started from. -/
def findTerminator (w : ℕ → ℕ) : ℕ → ℕ → Option ℕ
  | 0, _ => none
  | n + 1, k => if index w k = 0xFFFF then some k else findTerminator w n (k + 1)

/-- `none` if the search for the terminator never ends. -/
def ipPrim3d (e : Env) (w : ℕ → ℕ) (r : Regs) : Option Decoded :=
  let skip := w 0 % 2 ^ 16 + 2
  if (w 0).testBit 23 then
    if (w 0).testBit 17 then
      if w 0 % 2 ^ 16 = 0 then
        (findTerminator w (2 ^ 32) 0).map fun k =>
          ⟨(List.range (k / 2 + 1)).map (· + 1), (u32 (k + 1) + 1) / 2 + 1, r⟩
      else some ⟨[], (w 0 % 2 ^ 16 + 1) / 2 + 1, r⟩
    else some ⟨[], 2, r⟩
  else
    match PrimKind.ofCode (bitSelect (w 0) 18 5) with
    | none => some ⟨[], skip, r⟩
    | some .clearRect =>
      some ⟨if r.clearParams.mask % 2 ^ 3 = 0 then [] else [5, 6, 1, 2], skip, r⟩
    | some kind => some ⟨ipPrim3dVertices e r kind (skip - 1), skip, r⟩

/-! ### The decoders -/

def decodeMi (w : ℕ → ℕ) (r : Regs) : Decoded :=
  match bitSelect (w 0) 23 6 with
  | 0 | 2 | 3 | 4 | 7 | 8 | 10 => ⟨[], 1, r⟩
  | 20 | 34 | 36 | 48 => ⟨[], 3, r⟩
  | 17 | 18 | 19 | 24 | 49 => ⟨[], 2, r⟩
  | 32 => ⟨[], w 0 % 2 ^ 6 + 2, r⟩
  | 33 => ⟨if w 1 = 64 then [1, 2] else [1], w 0 % 2 ^ 6 + 2, r⟩
  | _ => ⟨[], 0, r⟩

def decode2d (w : ℕ → ℕ) (r : Regs) : Decoded :=
  match bitSelect (w 0) 22 7 with
  | 1 | 3 | 0x11 | 0x24 | 0x25 | 0x26 | 0x31 | 0x40 | 0x50 | 0x51 | 0x52 | 0x53 | 0x54 | 0x55
  | 0x56 | 0x57 | 0x58 | 0x59 | 0x71 | 0x72 | 0x75 | 0x76 | 0x77 | 0x43 =>
    ⟨[], w 0 % 2 ^ 8 + 2, r⟩
  | _ => ⟨[], 0, r⟩

/-- The `3DSTATE` commands with operands. -/
inductive State where
  | mapState
  | samplerState
  | loadStateImmediate
  | pixelShaderProgram
  | pixelShaderConstants
  | drawRect
  | scissorRect
  | stipple
  | dstBufVars
  | constBlendColor
  | fogMode
  | bufInfo
  | depthOffsetScale
  | clearParameters
  | unknown
  deriving DecidableEq, Repr

def State.ofCode : ℕ → State
  | 0x00 => .mapState
  | 0x01 => .samplerState
  | 0x04 => .loadStateImmediate
  | 0x05 => .pixelShaderProgram
  | 0x06 => .pixelShaderConstants
  | 0x80 => .drawRect
  | 0x81 => .scissorRect
  | 0x83 => .stipple
  | 0x85 => .dstBufVars
  | 0x88 => .constBlendColor
  | 0x89 => .fogMode
  | 0x8E => .bufInfo
  | 0x97 => .depthOffsetScale
  | 0x9C => .clearParameters
  | _ => .unknown

def decode3d1d (e : Env) (w : ℕ → ℕ) (r : Regs) : Decoded :=
  let skip := w 0 % 2 ^ 16 + 2
  match State.ofCode (bitSelect (w 0) 16 8) with
  | .mapState => ⟨ip3dMapState e w, skip, r⟩
  | .samplerState => ⟨ip3dSamplerState w, skip, r⟩
  | .loadStateImmediate => ipLoadImmediate w r
  | .pixelShaderProgram => ⟨[], skip, r⟩
  | .pixelShaderConstants => ⟨ipLoadPsConst e w, skip, r⟩
  | .drawRect => ⟨ipDrawRect, skip, r⟩
  | .scissorRect => ⟨ipMiscRenderState e 2, skip, r⟩
  | .stipple => ⟨if 4 ≤ e.logLevel then [1] else [], skip, r⟩
  | .dstBufVars => ⟨[1], skip, r.cacheMiscReg 5 (w 1)⟩
  | .constBlendColor => ⟨ipMiscRenderState e 3, skip, r⟩
  | .fogMode => ⟨if 3 ≤ e.logLevel then [1, 2, 3] else [], skip, r⟩
  | .bufInfo => ⟨ipBufInfo w, skip, r⟩
  | .depthOffsetScale => ⟨ipMiscRenderState e 0, skip, r⟩
  | .clearParameters => ipClearParams w r
  | .unknown => ⟨[], skip, r⟩

/-- The classes of 3D command; the commands of the first eight have no operands. -/
inductive Op3d where
  | aa
  | rasterRules
  | backfaceStencilOps
  | backfaceStencilMasks
  | independentAlphaBlend
  | modes5
  | modes4
  | fogColor
  | scissorEnable
  | depthSubrectDisable
  | state
  | prim3d
  | unknown
  deriving DecidableEq, Repr

def Op3d.ofCode (cmd : ℕ) : Op3d :=
  match bitSelect cmd 24 5 with
  | 0x06 => .aa
  | 0x07 => .rasterRules
  | 0x08 => .backfaceStencilOps
  | 0x09 => .backfaceStencilMasks
  | 0x0B => .independentAlphaBlend
  | 0x0C => .modes5
  | 0x0D => .modes4
  | 0x15 => .fogColor
  | 0x1C =>
    match bitSelect cmd 16 8 with
    | 0x80 => .scissorEnable
    | 0x88 => .depthSubrectDisable
    | _ => .unknown
  | 0x1D => .state
  | 0x1F => .prim3d
  | _ => .unknown

def decode3d (e : Env) (w : ℕ → ℕ) (r : Regs) : Option Decoded :=
  let value := w 0 % 2 ^ 24
  match Op3d.ofCode (w 0) with
  | .aa => some ⟨[], 1, r.cacheMiscReg 0 value⟩
  | .rasterRules => some ⟨[], 1, r⟩
  | .backfaceStencilOps => some ⟨[], 1, r.cacheMiscReg 1 value⟩
  | .backfaceStencilMasks => some ⟨[], 1, r.cacheMiscReg 2 value⟩
  | .independentAlphaBlend => some ⟨[], 1, r.cacheMiscReg 3 value⟩
  | .modes5 => some ⟨[], 1, r⟩
  | .modes4 =>
    some ⟨if r.cached 4 value then [] else ipMiscRenderState e 4, 1, r.cacheMiscReg 4 value⟩
  | .fogColor => some ⟨[], 1, r⟩
  | .scissorEnable => some ⟨ipMiscRenderState e 1, 1, r⟩
  | .depthSubrectDisable => some ⟨[], 1, r⟩
  | .state => some (decode3d1d e w r)
  | .prim3d => ipPrim3d e w r
  | .unknown => some ⟨[], 0, r⟩

/-- The command whose first dword is `w 0`. -/
def decode (e : Env) (w : ℕ → ℕ) (r : Regs) : Option Decoded :=
  match w 0 / 2 ^ 29 with
  | 0 => some (decodeMi w r)
  | 2 => some (decode2d w r)
  | 3 => decode3d e w r
  | _ => some ⟨[], 0, r⟩

end Cesvga2.IPP
