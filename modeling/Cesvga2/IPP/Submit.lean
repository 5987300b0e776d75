import Cesvga2.IPP.Decode
import Cesvga2.Oracle.Run

/-! The loop of `submit_buffer`, which takes the commands of a buffer one after the
other, and the table of how far each command reads. -/

namespace Cesvga2.IPP

/-- The loop's state: the cursor, the registers and the dwords touched so far. It is
hung once the search for a terminator does not end. -/
structure Submit where
  p : ℕ
  regs : Regs
  touched : List ℕ
  hung : Bool

namespace Submit

def start (r : Regs) : Submit := ⟨0, r, [], false⟩

def running (size : ℕ) (s : Submit) : Bool := s.hung = false ∧ s.p < size

/-- The memory from the cursor on. -/
def word (b : ℕ → ℕ) (s : Submit) (k : ℕ) : ℕ := b (s.p + k)

/-- One command; an unknown one is skipped. -/
def step (b : ℕ → ℕ) (e : Env) (s : Submit) : Submit :=
  match decode e (s.word b) s.regs with
  | none => { s with touched := s.p :: s.touched, hung := true }
  | some d =>
    { p := s.p + if d.skip = 0 then 1 else d.skip
      regs := d.regs
      touched := s.p :: (d.reads.map (s.p + ·) ++ s.touched)
      hung := false }

/-- Everything touched lies in the buffer, and the loop is not hung. -/
def Inside (size : ℕ) (s : Submit) : Prop := s.hung = false ∧ ∀ i ∈ s.touched, i < size

instance (size : ℕ) (s : Submit) : Decidable (s.Inside size) := inferInstanceAs (Decidable (_ ∧ _))

end Submit

/-- The state after `n` commands, if the loop gets that far. -/
def submitBuffer (env : ℕ → Env) (b : ℕ → ℕ) (size : ℕ) (r : Regs) : ℕ → Submit :=
  Oracle.run (Submit.step b) (Submit.running size) (.start r) env

/-! ### How far a command reads -/

/-- The bits set among the lowest `n`. -/
def ones : ℕ → ℕ → ℕ
  | 0, _ => 0
  | n + 1, mask => mask % 2 + ones n (mask / 2)

def reachMi (w : ℕ → ℕ) : ℕ :=
  if bitSelect (w 0) 23 6 = 33 then if w 1 = 64 then 3 else 2 else 1

def reach3d1d (w : ℕ → ℕ) : ℕ :=
  match State.ofCode (bitSelect (w 0) 16 8) with
  | .mapState | .samplerState => 2 + 3 * ones 16 (w 1)
  | .loadStateImmediate => min (w 0 % 2 ^ 4 + 2) (1 + ones 8 (bitSelect (w 0) 4 8))
  | .pixelShaderConstants => 2 + 4 * ones 16 (w 1)
  | .drawRect => 5
  | .scissorRect => 3
  | .stipple | .dstBufVars | .constBlendColor | .depthOffsetScale => 2
  | .fogMode => 4
  | .bufInfo => if bitSelect (w 1) 24 3 = 3 ∨ bitSelect (w 1) 24 3 = 7 then 3 else 2
  | .clearParameters => if w 0 % 2 ^ 16 < 5 then 1 else 7
  | .pixelShaderProgram | .unknown => 1

/-- `none` if there is no terminator to stop at. -/
def reachPrim3d (w : ℕ → ℕ) (r : Regs) : Option ℕ :=
  if (w 0).testBit 23 then
    if (w 0).testBit 17 ∧ w 0 % 2 ^ 16 = 0 then
      (findTerminator w (2 ^ 32) 0).map fun k => k / 2 + 2
    else some 1
  else
    match PrimKind.ofCode (bitSelect (w 0) 18 5) with
    | none => some 1
    | some .clearRect => some (if r.clearParams.mask % 2 ^ 3 = 0 then 1 else 7)
    | some kind => some (if draws r kind (w 0 % 2 ^ 16 + 1) then w 0 % 2 ^ 16 + 2 else 1)

def reach3d (w : ℕ → ℕ) (r : Regs) : Option ℕ :=
  match Op3d.ofCode (w 0) with
  | .state => some (reach3d1d w)
  | .prim3d => reachPrim3d w r
  | _ => some 1

/-- The dwords, from the command's own, that a command may read. -/
def reach (w : ℕ → ℕ) (r : Regs) : Option ℕ :=
  match w 0 / 2 ^ 29 with
  | 0 => some (reachMi w)
  | 3 => reach3d w r
  | _ => some 1

/-- The command at the cursor may read no further than the buffer's end. -/
def Submit.Fits (b : ℕ → ℕ) (size : ℕ) (s : Submit) : Prop :=
  ∃ k ∈ reach (s.word b) s.regs, s.p + k ≤ size

end Cesvga2.IPP
