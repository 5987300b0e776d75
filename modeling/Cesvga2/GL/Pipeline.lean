import Cesvga2.GL.Segments
import Cesvga2.IPP.Parse

/-! The stream processor and the pipeline processor of a context at work together. Whatever
the stream processor submits is taken at once, with the memory as it is then; the ids that
`MAP_STATE` has cached stay from one stream to the next. -/

namespace Cesvga2.GL

open Cesvga2.IPP (Bind Binder Regs exec Plain)

/-- The rest of the driver while a token is handled: its answers to the handler and to the
pipeline processor, the textures of the handle table as the handler looks them up, and what
is attached for drawing. -/
structure Scene where
  gl : Env
  ipp : ℕ → IPP.Env
  textures : ℕ → ℕ → Option Host
  draw : DrawState

/-- The host surfaces of the textures and of the attached drawable. -/
def Scene.hosts (sc : Scene) : Set ℕ :=
  { sid | (∃ i id u, ∃ h ∈ sc.textures i id, sid = h.sid u) ∨
    ∃ c ∈ sc.draw.surfaceClient, c.1.glMode = true ∧ (sid = c.1.colorSid ∨ sid = c.1.depthSid) }

/-- The answers to the handler of a `Texture` token are those of some textures, which the loads
between its units may change in any way. -/
structure Env.Finds (e : Env) (w : ℕ → ℕ) (find : ℕ → ℕ → Option Host) : Prop where
  isSome : ∀ i id, e.findTextureBuffer i id = (find i id).isSome
  word : ∀ i, ∀ h ∈ find i (w (entry w i)), e.word i = h.writeTexData (w (entry w i))

/-- The answers to a handler are those of the textures and of the drawing state. -/
def Scene.Answers (sc : Scene) (w : ℕ → ℕ) : Token → Prop
  | .texture => sc.gl.Finds w sc.textures
  | .drawBuffer => sc.gl.word 2 = (sc.draw.targets w).1 ∧ sc.gl.word 5 = (sc.draw.targets w).2
  | _ => True

/-- The state of a context: the stream, the registers and the cached ids of the pipeline
processor, and every binding so far with the scene it was made in. -/
structure Pipe where
  info : Info
  regs : Regs
  binder : Binder
  scene : Scene
  log : List (Bind × Scene)

namespace Pipe

/-- The dword that the next submission starts at. -/
def next (s : Pipe) : ℕ := downstream + s.info.dsoBytes / 4

/-- `submit_buffer` on `size` dwords. -/
def submit (sc : Scene) (size : ℕ) (s : Pipe) : Pipe :=
  let x := exec sc.ipp (fun k => s.info.buf (s.next + k)) size (.start s.regs s.binder) size
  { s with regs := x.submit.regs, binder := x.binder, log := s.log ++ x.binds.map (·, sc) }

def apply (sc : Scene) (s : Pipe) (a : Access) : Pipe :=
  match a with
  | .submitMidbuffer =>
    { if 2 < s.info.wc then s.submit sc (s.info.wc - 2) else s with info := s.info.submitMidbuffer }
  | a => { s with info := s.info.apply a }

def handle (lion : Bool) (sc : Scene) (s : Pipe) : Pipe :=
  (s.info.accesses lion sc.gl).foldl (apply sc) { s with info := s.info.touch 0, scene := sc }

/-- One pass of the loop of `processCommandBuffer`. -/
def step (lion : Bool) (sc : Scene) (s : Pipe) : Pipe :=
  { s.handle lion sc with info := s.info.step lion sc.gl }

/-- The type-0 caller submits what is left, unless there was an error. -/
def finish (sc : Scene) (s : Pipe) : Pipe :=
  if s.info.streamError = false ∧ s.info.wc ≠ 0 then
    { s with scene := sc }.submit sc s.info.wc
  else { s with scene := sc }

end Pipe

/-- A stream of the client and the scenes it meets, the last one after the loop. -/
structure Stream where
  buf : ℕ → ℕ
  scene : ℕ → Scene
  last : Scene

namespace Stream

variable (lion : Bool) (x : Stream) (s : Pipe)

/-- The state after `n` passes over the stream. -/
def run : ℕ → Pipe :=
  Oracle.run (Pipe.step lion) (fun s => s.info.running) { s with info := .start x.buf } x.scene

/-- The loop ends within as many passes as the buffer has dwords. -/
def process : Pipe := (x.run lion s words).finish x.last

end Stream

/-- A context before its first stream. -/
def Pipe.init (r : Regs) (sc : Scene) : Pipe :=
  ⟨.start fun _ => 0, r, ⟨fun _ => idInvalid, fun _ => false⟩, sc, []⟩

/-- A client's streams, one after the other. -/
def session (lion : Bool) (xs : List Stream) (s : Pipe) : Pipe :=
  xs.foldl (fun s x => x.process lion s) s

/-! ### Streams without ids of their own -/

/-- The attachments are textures of the handle table and the drawable is in GL mode. -/
def Scene.Attached (sc : Scene) : Prop :=
  match sc.draw.fbo with
  | some _ => ∀ h, h ∈ sc.draw.color ∨ h ∈ sc.draw.depth →
      h.unready = false ∧ ∃ i id, h ∈ sc.textures i id
  | none => ∀ c ∈ sc.draw.surfaceClient, c.1.glMode = true

/-- What a token may be: a `Texture` or `DrawBuffer` token of the length of its commands, with
host surfaces to name, or one whose dwords, once its handler is done, are whole commands
other than `MAP_STATE` and `BUF_INFO`. -/
def Scene.Clean (lion : Bool) (sc : Scene) (s : Info) : Prop :=
  match s.token lion with
  | some .texture => Token.texture.Shaped s.word s.length ∧
      ∀ i, (s.word 1).testBit i = true →
        ∀ h ∈ sc.textures i (s.word (entry s.word i)), h.unready = false
  | some .drawBuffer => s.length = 11 ∧ sc.Attached
  | _ => Plain (s.handle lion sc.gl).word s.length

/-- A host surface that goes away is neither cached nor named by a pending dword. -/
structure Pipe.Outlives (s : Pipe) (sc : Scene) : Prop where
  cached : ∀ i, s.binder.surfaceIds i ∈ s.scene.hosts → s.binder.surfaceIds i ∈ sc.hosts
  pending : ∀ k, s.next ≤ k → k < s.info.p → s.info.buf k ∈ s.scene.hosts →
    s.info.buf k ∈ sc.hosts

/-- The condition on a pass over a token. -/
structure Pipe.Careful (lion : Bool) (sc : Scene) (s : Pipe) : Prop where
  answers : ∀ t ∈ s.info.token lion, sc.Answers s.info.word t
  outlives : s.Outlives sc
  clean : (s.info.handle lion sc.gl).streamError = false → sc.Clean lion s.info

/-- The condition on a stream. -/
structure Stream.Careful (lion : Bool) (x : Stream) (s : Pipe) : Prop where
  wellFormed : WellFormed lion x.buf
  pass : ∀ n, (x.run lion s n).info.running = true →
    (x.run lion s n).Careful lion (x.scene n)
  last : (x.run lion s words).Outlives x.last

/-- The condition on a client's streams. -/
def Careful (lion : Bool) : List Stream → Pipe → Prop
  | [], _ => True
  | x :: xs, s => x.Careful lion s ∧ Careful lion xs (x.process lion s)

/-- The valid ids ever bound were host surfaces of the client's when they were bound. -/
def Pipe.Confined (s : Pipe) : Prop :=
  ∀ x ∈ s.log, isIdValid x.1.sid = true → x.1.sid ∈ x.2.hosts

end Cesvga2.GL
