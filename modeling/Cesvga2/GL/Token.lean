import Cesvga2.Basic

/-! The tokens of the GL command stream and their handlers. A handler works on the
words from the token on; it is the list of its accesses to the command buffer, in
order, with offsets from the token. What it learns from elsewhere (which texture
names are taken, what the shared texture records say, surface ids and addresses)
is its environment. -/

namespace Cesvga2.GL

/-- The `process_token_…` handlers. -/
inductive Token where
  | start
  | endToken
  | userEnd
  | swap
  | flush
  | textureVolatile
  | textureNonVolatile
  | setSurfaceState
  | bindDrawFBO
  | bindReadFBO
  | unbindDrawFBO
  | unbindReadFBO
  | texture
  | noTex
  | vertexBuffer
  | noVertexBuffer
  | drawBuffer
  | setFence
  | texSubImage2D
  | copyPixelsDst
  | copyPixelsSrc
  | copyPixelsSrcFBO
  | drawRect
  | asyncReadDrawBuffer
  | bindHeap
  | setShaderHeapOffsets
  deriving DecidableEq, Repr

def dispatchProcess1 : List Token :=
  [.start, .endToken, .userEnd, .swap, .flush, .textureVolatile, .textureNonVolatile,
    .setSurfaceState, .bindDrawFBO, .bindReadFBO, .unbindDrawFBO, .unbindReadFBO]

def dispatchProcess2 : List Token :=
  List.replicate 4 .texture ++ List.replicate 16 .noTex ++
  [.vertexBuffer, .noVertexBuffer, .drawBuffer, .setFence, .texSubImage2D, .copyPixelsDst,
    .copyPixelsSrc, .copyPixelsSrcFBO, .drawRect, .asyncReadDrawBuffer, .bindHeap, .bindHeap,
    .setShaderHeapOffsets]

/-- The handler of a command word, if it has one. From OS 10.7 on (`lion`) the codes
from 2 to 31 are taken one higher. -/
def dispatch (lion : Bool) (cmd : ℕ) : Option Token :=
  let upper := cmd >>> 24
  let upper := if lion ∧ 2 ≤ upper ∧ upper < 32 then upper + 1 else upper
  if upper < dispatchProcess1.length then dispatchProcess1[upper]?
  else if 32 ≤ upper then dispatchProcess2[upper - 32]?
  else none

/-- One step of a handler on the command buffer. `fail` sets `m_stream_error`; with
`reset` the handler clears its command and the downstream count as well. -/
inductive Access where
  | read (k : ℕ)
  | write (k v : ℕ)
  | submitMidbuffer
  | fail (reset : Bool)
  | flags (v : ℕ)
  deriving DecidableEq, Repr

def numTextureHandles : ℕ := 128

/-- What one handler call finds outside the command buffer. The `i`-th texture it
looks up may be any name of the handle table; its record is in memory of the
client. -/
structure Env where
  findTextureBuffer : ℕ → ℕ → Bool
  find_lt : ∀ i id, findTextureBuffer i id = true → id < numTextureHandles
  inUse : ℕ → Bool
  formatInvalid : ℕ → Bool
  fbo : Bool
  malloc : Bool
  surfaceClient : Bool
  gart : Bool
  fencesLen : ℕ
  word : ℕ → ℕ

section Handlers

variable (e : Env) (w : ℕ → ℕ)

def bzero (n : ℕ) : List Access := (List.range n).map (.write · 0)

def noTexture : ℕ := 0xFFFFFFFF

/-- `get_texture` submits what precedes the token before it loads a texture. -/
def getTexture (i : ℕ) : List Access := if e.inUse i then [.submitMidbuffer] else []

/-- The loop over the attachments of `BindDrawFBO` and `BindReadFBO`, and the end of
the handler; `n` attachments are left. -/
def bindLoop : (n i : ℕ) → List Access
  | 0, _ => bzero 12
  | n + 1, i =>
    .read (4 * i + 4) ::
      if w (4 * i + 4) = noTexture then bindLoop n (i + 1)
      else if e.findTextureBuffer i (w (4 * i + 4)) then
        getTexture e i ++ [.read (4 * i + 5), .read (4 * i + 5), .read (4 * i + 5),
          .read (4 * i + 6), .read (4 * i + 6), .read (4 * i + 7)] ++ bindLoop n (i + 1)
      else [.fail false]

/-- `BindDrawFBO` and `BindReadFBO` differ in the slots they fill only. -/
def bindFBO : List Access :=
  if e.fbo = false ∧ e.malloc = false then [.fail false]
  else [.read 1, .read 1, .read 2, .read 3] ++ bindLoop e w (min (w 3) 2) 0

/-- The loop over the texture units of `Texture`, and the end of the handler; `n`
units are left, the next texture is at `q` and `count` were set. -/
def textureLoop : (n i q count : ℕ) → List Access
  | 0, _, _, count => [.write 0 (if count = 0 then 0 else 0x7D000000 ||| 3 * count)]
  | n + 1, i, q, count =>
    if (w 1).testBit i then
      .read q ::
        if e.findTextureBuffer i (w q) then
          (if e.formatInvalid i then [.read (q + 1), .read (q + 1)] else []) ++ getTexture e i ++
          [.read (q + 1), .read (q + 2), .read (q + 1), .read (q + 2), .write q (e.word i)] ++
          textureLoop n (i + 1) (q + 3) (count + 1)
        else [.fail true]
    else textureLoop n (i + 1) q count

/-- The words of `m_drawrect`. -/
def drawrect (k : ℕ) : List Access := (List.range 4).map fun j => .write (k + j) (e.word (k + j))

def setupDrawbufferRegisters : List Access :=
  [.write 0 0x7D8E0001, .write 1 0x03800000, .write 3 0x7D8E0001, .write 4 0x07800000,
    .write 6 0x7D800003] ++
  (if e.fbo then [.write 2 (e.word 2), .read 1, .write 1 (e.word 1), .write 5 (e.word 5)]
    else [.write 2 (e.word 2), .write 5 (e.word 5)]) ++ drawrect e 7

def gldFenceSize : ℕ := 8

/-- The accesses of a token's handler to the words `w` from the token on. -/
def Token.accesses : Token → List Access
  | start | endToken | userEnd | bindHeap | setShaderHeapOffsets => []
  | swap => [.flags 3]
  | flush => [.flags 2]
  | textureVolatile =>
    [.read 2, .read 1] ++ if e.findTextureBuffer 0 (w 1) then bzero 3 else [.fail false]
  | textureNonVolatile =>
    .read 1 :: if e.findTextureBuffer 0 (w 1) then bzero 2 else [.fail false]
  | setSurfaceState =>
    .read 1 :: (if w 1 = 306 ∧ e.surfaceClient then [.read 2] else []) ++ bzero 3
  | bindDrawFBO => bindFBO e w
  | bindReadFBO => bindFBO e w
  | unbindDrawFBO => [.write 0 0]
  | unbindReadFBO => [.write 0 0]
  | texture => .read 1 :: textureLoop e w 16 0 2 0
  | noTex =>
    .read 1 :: if w 1 ≠ noTexture then
      .read 1 :: if e.findTextureBuffer 0 (w 1) then [.write 0 0, .write 1 0] else [.fail true]
    else [.write 0 0, .write 1 0]
  | vertexBuffer =>
    .read 1 :: if e.findTextureBuffer 0 (w 1) then
      (if e.gart then [] else [.submitMidbuffer]) ++ [.write 0 0x4C, .write 1 (e.word 1)]
    else [.fail true]
  | noVertexBuffer => [.write 0 0x4C]
  | drawBuffer =>
    (if e.fbo then [.read 1, .read 1] else if e.surfaceClient then [.read 1, .read 1] else []) ++
      setupDrawbufferRegisters e
  | setFence =>
    .read 1 :: if e.fencesLen ≤ w 1 * gldFenceSize then [.fail true]
    else [.write 0 0x02000000, .write 1 0x10800001, .write 2 64, .write 3 (w 1)]
  | texSubImage2D =>
    [.read 1, .read 3, .read 8, .read 6] ++
    if e.findTextureBuffer 0 (w 6) then
      getTexture e 0 ++ [.read 8, .read 8, .read 5, .write 5 (e.word 5), .read 7, .write 0 (w 7),
        .write 1 ((w 1 &&& 0xFFFF0000) ||| 512), .write 3 (e.word 3), .write 6 0x2000001,
        .write 7 0, .write 8 0]
    else [.fail true]
  | copyPixelsDst =>
    .read 1 :: if e.findTextureBuffer 0 (w 1) then
      getTexture e 0 ++ [.read 4, .read 4, .read 2, .read 2, .write 0 0x7D8E0001,
        .write 1 (0x3800000 ||| 512), .write 2 (e.word 2), .write 3 0, .write 4 0x7D850000] ++
        bzero 6
    else [.fail true]
  | copyPixelsSrc => bzero 5
  | copyPixelsSrcFBO =>
    .read 1 :: (if e.findTextureBuffer 0 (w 1) then [] else [.fail true]) ++ bzero 5
  | drawRect => .write 0 0x7D800003 :: drawrect e 1
  | asyncReadDrawBuffer =>
    .read 1 :: if e.findTextureBuffer 0 (w 1) then bzero 10 else [.fail true]

end Handlers

end Cesvga2.GL
