import Cesvga2.IPP.Bind

/-! The host surfaces behind the textures that a token names, and the render targets that
a `DrawBuffer` token selects. -/

namespace Cesvga2.GL

/-- What GL knows of a surface: its host surfaces count while it is in GL mode. -/
structure GLSurface where
  glMode : Bool
  colorSid : ℕ
  depthSid : ℕ
  deriving DecidableEq, Repr

/-- `getSurfacesForGL` leaves its arguments alone when the surface is not in GL mode. -/
def GLSurface.getSurfacesForGL (s : GLSurface) (color depth : ℕ) : ℕ × ℕ :=
  if s.glMode then (s.colorSid, s.depthSid) else (color, depth)

/-- A texture as the handlers see it: one with a host surface of its own, or a surface
texture with its linked surface. -/
inductive Host where
  | texture (surfaceId : ℕ)
  | surface (linked : Option GLSurface)
  deriving DecidableEq, Repr

/-- The dword where `get_tex_data` puts the host surface, for depth if `usage`; `old` is
what was there. -/
def Host.getTexData (usage : Bool) (old : ℕ) : Host → ℕ
  | .surface (some s) =>
    if usage then (s.getSurfacesForGL 0 old).2 else (s.getSurfacesForGL old 0).1
  | .surface none => idInvalid
  | .texture surfaceId => surfaceId

/-- The first dword of a texture's entry after `write_tex_data`. -/
def Host.writeTexData (old : ℕ) (h : Host) : ℕ := h.getTexData false old

/-- An attachment of a framebuffer descriptor. -/
structure FboTx where
  face : ℕ
  mipmap : ℕ
  x : ℕ
  y : ℕ
  deriving DecidableEq, Repr

/-- `FBODescriptor`; an index past its two attachments reads what lies behind them. -/
structure FboDescriptor where
  width : ℕ
  height : ℕ
  txs : ℕ → FboTx

/-- What `DrawBuffer` reads of the context: the draw framebuffer, the textures in slots 17
and 18, and the attached drawable with its bounds. -/
structure DrawState where
  fbo : Option FboDescriptor
  color : Option Host
  depth : Option Host
  surfaceClient : Option (GLSurface × ℕ × ℕ)
  drawbufParams : ℕ × ℕ

namespace DrawState

/-- The face and the mipmap of an attachment as `BUF_INFO` has them. -/
def imageBits (t : FboTx) : ℕ := t.face <<< 8 ||| t.mipmap

def colorCmd : ℕ := 0x03800000

def depthCmd : ℕ := 0x07800000

variable (s : DrawState) (p : ℕ → ℕ)

/-- The second dword of the first command; both attachments put their bits there. -/
def colorInfo : ℕ :=
  match s.fbo with
  | none => colorCmd
  | some f =>
    let info := if s.color.isSome then colorCmd ||| imageBits (f.txs 0) else colorCmd
    if s.depth.isSome then info ||| imageBits (f.txs 1) else info

/-- The dwords `p[2]` and `p[5]`. -/
def targets : ℕ × ℕ :=
  match s.fbo with
  | some _ => (s.color.elim idInvalid (·.getTexData false (p 2)),
      s.depth.elim idInvalid (·.getTexData true (p 5)))
  | none =>
    match s.surfaceClient with
    | some (c, _, _) => c.getSurfacesForGL (p 2) (p 5)
    | none => (idInvalid, idInvalid)

def drawrect : List ℕ :=
  match s.fbo with
  | some f => [(f.txs s.drawbufParams.1).x, (f.txs s.drawbufParams.1).y, f.width, f.height]
  | none =>
    match s.surfaceClient with
    | some (_, width, height) => [0, 0, width, height]
    | none => [0, 0, 0, 0]

/-- The eleven dwords of `setup_drawbuffer_registers`. -/
def registers : List ℕ :=
  [0x7D8E0001, s.colorInfo, (s.targets p).1, 0x7D8E0001, depthCmd, (s.targets p).2,
    0x7D800003] ++ s.drawrect

/-- The words from the token on once `setup_drawbuffer_registers` is done. -/
def setupDrawbufferRegisters (k : ℕ) : ℕ := (s.registers p)[k]?.getD (p k)

/-- `m_drawbuf_params`, two `uint16_t`, for the buffer that the token names. -/
def selectBuffer (buffer : ℕ) : ℕ × ℕ :=
  match s.fbo, s.surfaceClient with
  | some _, _ =>
    let first := if buffer ≠ 17 then buffer % 2 ^ 16 else 1
    (first, if s.depth.isSome then 1 else first)
  | none, some _ =>
    match buffer with
    | 1 => (0, 4)
    | 7 => (2, 5)
    | 8 => (3, 6)
    | _ => (1, 4)
  | none, none => s.drawbufParams

/-- `process_token_DrawBuffer`. -/
def drawBuffer (k : ℕ) : ℕ :=
  { s with drawbufParams := s.selectBuffer (p 1) }.setupDrawbufferRegisters p k

end DrawState

end Cesvga2.GL
