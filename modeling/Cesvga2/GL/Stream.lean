import Cesvga2.GL.Token
import Cesvga2.Oracle.Run

/-! The loop of `processCommandBuffer` over the command buffer, and what its type-0
caller submits in the end. The state keeps the indices of the dwords touched so far
and the ranges handed to the pipeline processor. -/

namespace Cesvga2.GL

/-- Dwords of the command buffer, `m_command_buffer.size / sizeof(uint32_t)`. -/
def words : ℕ := 0x10000 / 4

/-- The index of `downstream[0]`, right after the header. -/
def downstream : ℕ := 8

/-- `VendorGLStreamInfo` over the buffer `buf`. -/
structure Info where
  buf : ℕ → ℕ
  p : ℕ
  dsoBytes : ℕ
  dsCountDwords : ℤ
  flags : ℕ
  streamError : Bool
  running : Bool
  touched : List ℕ
  ranges : List (ℕ × ℕ)

namespace Info

def start (b : ℕ → ℕ) : Info where
  buf := b
  p := downstream - 1
  dsoBytes := 0
  dsCountDwords := -1
  flags := 0
  streamError := false
  running := true
  touched := []
  ranges := []

/-- The downstream count as the `uint32_t` it is read as. -/
def wc (s : Info) : ℕ := (s.dsCountDwords % 2 ^ 32).toNat

def submitMidbuffer (s : Info) : Info :=
  if s.wc = 0 then s
  else { s with
    ranges := if 2 < s.wc then (downstream + s.dsoBytes / 4, s.wc - 2) :: s.ranges else s.ranges
    dsoBytes := u32 (s.dsoBytes + u32 (s.wc * 4))
    dsCountDwords := 0 }

def touch (s : Info) (k : ℕ) : Info := { s with touched := (s.p + k) :: s.touched }

def apply (s : Info) : Access → Info
  | .read k => s.touch k
  | .write k v => { s.touch k with buf := Function.update s.buf (s.p + k) v }
  | .submitMidbuffer => s.submitMidbuffer
  | .fail reset => { s with
      streamError := true
      dsCountDwords := if reset then 0 else s.dsCountDwords }
  | .flags v => { s with flags := v }

/-- The words from the cursor on. -/
def word (s : Info) (k : ℕ) : ℕ := s.buf (s.p + k)

def token (lion : Bool) (s : Info) : Option Token := dispatch lion (s.word 0)

def accesses (lion : Bool) (e : Env) (s : Info) : List Access :=
  (s.token lion).elim [] fun t => t.accesses e s.word

def length (s : Info) : ℕ := s.word 0 % 2 ^ 24

/-- The token's handler at work. -/
def handle (lion : Bool) (e : Env) (s : Info) : Info :=
  (s.accesses lion e).foldl apply (s.touch 0)

def advance (s : Info) (n : ℕ) : Info := { s with
  p := s.p + n
  dsCountDwords := s.dsCountDwords + n
  running := decide (s.p + n < words ∧ n ≠ 0) }

/-- One pass of the loop. -/
def step (lion : Bool) (e : Env) (s : Info) : Info :=
  if (s.handle lion e).streamError then { s.handle lion e with running := false }
  else (s.handle lion e).advance s.length

/-- The ranges submitted, with the type-0 caller's last one once the loop has ended
without an error. -/
def submitted (s : Info) : List (ℕ × ℕ) :=
  if s.running = false ∧ s.streamError = false ∧ s.wc ≠ 0 then
    (downstream + s.dsoBytes / 4, s.wc) :: s.ranges
  else s.ranges

/-- Everything touched and submitted lies in the command buffer. -/
def Inside (s : Info) : Prop :=
  (∀ i ∈ s.touched, i < words) ∧ ∀ r ∈ s.submitted, r.1 + r.2 ≤ words

instance (s : Info) : Decidable s.Inside := inferInstanceAs (Decidable (_ ∧ _))

end Info

/-- The state after `n` passes, if the loop runs that long. -/
def processCommandBuffer (lion : Bool) (env : ℕ → Env) (b : ℕ → ℕ) : ℕ → Info :=
  Oracle.run (Info.step lion) Info.running (.start b) env

end Cesvga2.GL
