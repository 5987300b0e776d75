import Cesvga2.GL.Host
import Cesvga2.Runs.Prefix
import Cesvga2.Textures.DrawFBO
import Mathlib.Data.List.TakeWhile

/-! The framebuffer descriptors of a context. `BindDrawFBO` and `BindReadFBO` unpack the same words,
each with a shift of its own for the mipmap; `DrawBuffer` looks up one of the two attachments of the
draw framebuffer under an index that the client chose. -/

namespace Cesvga2.GL.Framebuffer

open Cesvga2.Textures.FBO (sanitizeFace sanitizeMipmap)

variable {τ : Type}

/-- An entry of `txs`. -/
structure Attached extends FboTx where
  g0 : ℕ
  g1 : ℕ
  deriving DecidableEq, Repr

structure FBO where
  width : ℕ
  height : ℕ
  f0 : ℕ
  txs : Fin 2 → Attached

/-- A descriptor with its textures, two slots from 17 or from 19 on. The slots are empty without a
descriptor. -/
structure Bound (τ : Type) where
  fbo : FBO
  slots : Fin 2 → Option τ

/-! ### Binding -/

/-- The words of an attachment. `sanitize_face` and `sanitize_mipmap` take an `uint8_t`. -/
def unpack (mipmapShift : ℕ) (p : ℕ → ℕ) (k : Fin 2) : Attached where
  face := sanitizeFace ((p (4 * k + 5) >>> 24) % 2 ^ 8)
  mipmap := sanitizeMipmap ((p (4 * k + 5) >>> mipmapShift) % 2 ^ 8)
  x := p (4 * k + 6) % 2 ^ 16
  y := (p (4 * k + 6) >>> 16) % 2 ^ 16
  g0 := p (4 * k + 5) % 2 ^ 16
  g1 := p (4 * k + 7)

namespace Bound

/-- The descriptor after `bzero` and the first words. -/
def start (p : ℕ → ℕ) : Bound τ where
  fbo := ⟨p 1 % 2 ^ 16, (p 1 >>> 16) % 2 ^ 16, p 2 % 2 ^ 8, fun _ => ⟨⟨0, 0, 0, 0⟩, 0, 0⟩⟩
  slots _ := none

def set (b : Bound τ) (k : Fin 2) (a : Attached) (t : τ) : Bound τ where
  fbo := { b.fbo with txs := Function.update b.fbo.txs k a }
  slots := Function.update b.slots k (some t)

/-- The loop over the attachments; `false` for a texture that is not found. -/
def attach (mipmapShift : ℕ) (find : ℕ → Option τ) (p : ℕ → ℕ) :
    List (Fin 2) → Bound τ → Bool × Bound τ
  | [], b => (true, b)
  | k :: rest, b =>
    if p (4 * k + 4) = 0xFFFFFFFF then attach mipmapShift find p rest b
    else
      match find (p (4 * k + 4)) with
      | none => (false, b)
      | some t => attach mipmapShift find p rest (b.set k (unpack mipmapShift p k) t)

def load (mipmapShift : ℕ) (find : ℕ → Option τ) (p : ℕ → ℕ) : Bool × Bound τ :=
  attach mipmapShift find p ((List.finRange 2).take (p 3)) (start p)

/-- The image that an attachment refers to: a texture with a face and a mipmap. -/
def image (b : Bound τ) (k : Fin 2) : Option (τ × ℕ × ℕ) :=
  (b.slots k).map fun t => (t, (b.fbo.txs k).face, (b.fbo.txs k).mipmap)

end Bound

/-- A token that binds a framebuffer. A descriptor is allocated if there is none yet. -/
structure BindToken (τ : Type) where
  allocated : Bool
  findTextureBuffer : ℕ → Option τ
  p : ℕ → ℕ

/-- The binding, and `false` for a stream error. -/
def bindFBO (mipmapShift : ℕ) (old : Option (Bound τ)) (token : BindToken τ) :
    Bool × Option (Bound τ) :=
  if old.isSome || token.allocated then
    let (ok, b) := Bound.load mipmapShift token.findTextureBuffer token.p
    (ok, some b)
  else (false, none)

/-! ### The context -/

structure Context (τ : Type) where
  /-- `m_fbo[0]` and slots 17 and 18. -/
  draw : Option (Bound τ)
  /-- `m_fbo[1]` and slots 19 and 20. -/
  read : Option (Bound τ)
  surfaceClient : Option (GLSurface × ℕ × ℕ)
  drawbufParams : ℕ × ℕ
  streamError : Bool

/-- What a `DrawBuffer` token finds in memory: the textures, and what lies behind the draw
framebuffer's descriptor. -/
structure Memory (τ : Type) where
  host : τ → Host
  behind : ℕ → FboTx

inductive Token (τ : Type) where
  | drawBuffer (mem : Memory τ) (p : ℕ → ℕ)
  | bindDrawFBO (token : BindToken τ)
  | bindReadFBO (token : BindToken τ)
  | unbindDrawFBO
  | unbindReadFBO
  /-- The client attaches another drawable between two streams. -/
  | setSurface (client : Option (GLSurface × ℕ × ℕ))

def FBO.descriptor (f : FBO) (behind : ℕ → FboTx) : FboDescriptor where
  width := f.width
  height := f.height
  txs i := if h : i < 2 then (f.txs ⟨i, h⟩).toFboTx else behind i

namespace Context

variable (c : Context τ)

/-- The context as `DrawBuffer` sees it. -/
def drawState (mem : Memory τ) : DrawState where
  fbo := c.draw.map (·.fbo.descriptor mem.behind)
  color := (c.draw.bind (·.slots 0)).map mem.host
  depth := (c.draw.bind (·.slots 1)).map mem.host
  surfaceClient := c.surfaceClient
  drawbufParams := c.drawbufParams

def bindDrawFBO (token : BindToken τ) : Context τ :=
  let (ok, b) := bindFBO 18 c.draw token
  { c with draw := b, streamError := c.streamError || !ok }

def bindReadFBO (token : BindToken τ) : Context τ :=
  let (ok, b) := bindFBO 16 c.read token
  { c with read := b, streamError := c.streamError || !ok }

def exec : Token τ → Context τ
  | .drawBuffer mem p => { c with drawbufParams := (c.drawState mem).selectBuffer (p 1) }
  | .bindDrawFBO token => c.bindDrawFBO token
  | .bindReadFBO token => c.bindReadFBO token
  | .unbindDrawFBO => { c with draw := none }
  | .unbindReadFBO => { c with read := none }
  | .setSurface client => { c with surfaceClient := client }

/-- The index under which `setup_drawbuffer_registers` reads `m_fbo[0]->txs`, once
`m_drawbuf_params` is set. -/
def accessed : Token τ → Option ℕ
  | .drawBuffer mem p => c.draw.map fun _ => (c.exec (.drawBuffer mem p)).drawbufParams.1
  | _ => none

def InBounds (t : Token τ) : Prop := ∀ i ∈ c.accessed t, i < 2

end Context

/-! ### The index -/

/-- Whether there is a draw framebuffer after a token. -/
def bound : Bool → Token τ → Bool
  | b, .bindDrawFBO token => b || token.allocated
  | _, .unbindDrawFBO => false
  | b, _ => b

/-- With a draw framebuffer the buffer of a `DrawBuffer` token is 17, or one of its attachments in
the low 16 bits. -/
def Token.Selects (b : Bool) : Token τ → Prop
  | .drawBuffer _ p => b = true → p 1 = 17 ∨ p 1 % 2 ^ 16 < 2
  | _ => True

variable {c : Context τ} {t : Token τ}

theorem isSome_bindFBO {shift : ℕ} {old : Option (Bound τ)} {token : BindToken τ} :
    (bindFBO shift old token).2.isSome = (old.isSome || token.allocated) := by
  unfold bindFBO
  split_ifs with h
  · exact h.symm
  · exact (Bool.eq_false_iff.mpr h).symm

theorem isSome_exec (c : Context τ) (t : Token τ) :
    (c.exec t).draw.isSome = bound c.draw.isSome t := by
  cases t with
  | bindDrawFBO token => exact isSome_bindFBO
  | drawBuffer | bindReadFBO | unbindDrawFBO | unbindReadFBO | setSurface => rfl

/-- With a draw framebuffer the index is the operand in 16 bits. -/
theorem accessed_drawBuffer {mem : Memory τ} {p : ℕ → ℕ} (h : c.draw.isSome = true) :
    c.accessed (.drawBuffer mem p) = some (if p 1 ≠ 17 then p 1 % 2 ^ 16 else 1) := by
  obtain ⟨b, hb⟩ := Option.isSome_iff_exists.mp h
  simp only [Context.accessed, Context.exec, Context.drawState, hb, Option.map_some,
    DrawState.selectBuffer]

theorem inBounds_iff : c.InBounds t ↔ t.Selects c.draw.isSome := by
  cases t with
  | drawBuffer mem p =>
    rw [Token.Selects, Context.InBounds]
    by_cases h : c.draw.isSome = true
    · rw [accessed_drawBuffer h, forall_prop_of_true h]
      simp only [Option.mem_def, Option.some.injEq, forall_eq']
      split_ifs with h17
      · rw [or_iff_right h17]
      · exact iff_of_true one_lt_two (.inl (not_not.mp h17))
    · have hnone : c.draw = none := by simpa using h
      simp [Context.accessed, hnone]
  | bindDrawFBO | bindReadFBO | unbindDrawFBO | unbindReadFBO | setSurface =>
    exact iff_of_true nofun trivial

/-- Along a sequence of tokens every index is in bounds exactly if the buffer of every `DrawBuffer`
token is, while a draw framebuffer is bound. -/
theorem each_inBounds_iff (c : Context τ) (tokens : List (Token τ)) :
    Runs.Each Context.exec Context.InBounds c tokens ↔
      Runs.Each bound (fun b t => t.Selects b) c.draw.isSome tokens := by
  calc Runs.Each Context.exec Context.InBounds c tokens
    _ ↔ Runs.Each Context.exec (fun c t => t.Selects c.draw.isSome) c tokens :=
        Runs.each_iff_each (I := fun _ => True) trivial (fun _ _ _ => inBounds_iff)
          fun _ _ _ _ => trivial
    _ ↔ Runs.Each bound (fun b t => t.Selects b) c.draw.isSome tokens :=
        Runs.each_map (fun c : Context τ => c.draw.isSome) isSome_exec

/-- A context without framebuffers. -/
def newContext : Context τ := ⟨none, none, none, (0, 0), false⟩

/-- A client binds a framebuffer without attachments and selects buffer 2 of it. -/
theorem not_each_inBounds :
    ¬ Runs.Each Context.exec Context.InBounds (newContext (τ := ℕ))
      [.bindDrawFBO ⟨true, fun _ => none, fun _ => 0⟩,
        .drawBuffer ⟨fun _ => .surface none, fun _ => ⟨0, 0, 0, 0⟩⟩ fun _ => 2] := by
  intro h
  have hlast := h [.bindDrawFBO ⟨true, fun _ => none, fun _ => 0⟩] _ List.prefix_rfl
  exact absurd (hlast 2 rfl) (by decide)

/-! ### The images -/

section Images

variable {find : ℕ → Option τ} {p : ℕ → ℕ} {shift : ℕ} {k : Fin 2}

/-- The loop does not stop at an attachment that names no texture or one that is found. -/
def Passes (find : ℕ → Option τ) (p : ℕ → ℕ) (k : Fin 2) : Prop :=
  p (4 * k + 4) = 0xFFFFFFFF ∨ (find (p (4 * k + 4))).isSome = true

instance : Decidable (Passes find p k) := inferInstanceAs (Decidable (_ ∨ _))

/-- The attachment names a texture, and the loop comes to it. -/
def Attaches (find : ℕ → Option τ) (p : ℕ → ℕ) (k : Fin 2) : Prop :=
  k ∈ ((List.finRange 2).take (p 3)).takeWhile (Passes find p ·) ∧ p (4 * k + 4) ≠ 0xFFFFFFFF

theorem Attaches.found (h : Attaches find p k) : ∃ t, find (p (4 * k + 4)) = some t := by
  have hpass : Passes find p k := by simpa using List.mem_takeWhile_imp h.1
  exact Option.isSome_iff_exists.mp (hpass.resolve_left h.2)

/-- Of the ten bits from 16 on `BindReadFBO` takes the lower eight for the mipmap and `BindDrawFBO`
the upper eight. Neither is the number of a mipmap other than 0. -/
def SameMipmap (word : ℕ) : Prop :=
  let m := word / 2 ^ 16 % 2 ^ 10
  m = 0 ∨ 48 ≤ m ∧ (m % 2 ^ 8 = 0 ∨ 12 ≤ m % 2 ^ 8)

theorem sanitizeMipmap_eq_iff {w : ℕ} :
    sanitizeMipmap ((w >>> 18) % 2 ^ 8) = sanitizeMipmap ((w >>> 16) % 2 ^ 8) ↔ SameMipmap w := by
  have hdraw : w >>> 18 = w >>> 16 / 4 := by
    rw [Nat.shiftRight_eq_div_pow, Nat.shiftRight_eq_div_pow, Nat.div_div_eq_div_mul]
  rw [sanitizeMipmap, sanitizeMipmap, SameMipmap, hdraw, ← Nat.shiftRight_eq_div_pow]
  have hread : w >>> 16 % 2 ^ 8 = w >>> 16 % 2 ^ 10 % 2 ^ 8 := by omega
  have hquarter : w >>> 16 / 4 % 2 ^ 8 = w >>> 16 % 2 ^ 10 / 4 := by omega
  rw [hread, hquarter]
  have hm : w >>> 16 % 2 ^ 10 < 2 ^ 10 := Nat.mod_lt _ (by norm_num)
  generalize w >>> 16 % 2 ^ 10 = m at hm
  clear hread hquarter hdraw
  rcases lt_or_ge m 48 with hlt | hge
  · rw [Nat.mod_eq_of_lt (by omega : m < 2 ^ 8)]
    split_ifs <;> omega
  · rw [if_pos (by omega)]
    split_ifs <;> omega

theorem image_set {b : Bound τ} {j : Fin 2} {a : Attached} {t : τ} :
    (b.set j a t).image k = if k = j then some (t, a.face, a.mipmap) else b.image k := by
  split_ifs with h
  · simp [Bound.image, Bound.set, h]
  · simp [Bound.image, Bound.set, h]

/-- The loop fills the attachments that it comes to and leaves the others. -/
theorem image_attach (ks : List (Fin 2)) (b : Bound τ) :
    (Bound.attach shift find p ks b).2.image k =
      if k ∈ ks.takeWhile (Passes find p ·) ∧ p (4 * k + 4) ≠ 0xFFFFFFFF then
        (find (p (4 * k + 4))).map fun t => (t, (unpack shift p k).face, (unpack shift p k).mipmap)
      else b.image k := by
  induction ks generalizing b with
  | nil => simp [Bound.attach]
  | cons j rest ih =>
    unfold Bound.attach
    by_cases hskip : p (4 * j + 4) = 0xFFFFFFFF
    · have hpass : Passes find p j := .inl hskip
      rw [if_pos hskip, ih, List.takeWhile_cons_of_pos (by simpa using hpass)]
      by_cases hk : k = j
      · simp [hk, hskip]
      · simp [hk]
    · rw [if_neg hskip]
      cases hfind : find (p (4 * j + 4)) with
      | none =>
        have hstop : ¬ Passes find p j := by simp [Passes, hskip, hfind]
        simp [hstop]
      | some t =>
        have hpass : Passes find p j := .inr (by simp [hfind])
        dsimp only
        rw [ih, image_set, List.takeWhile_cons_of_pos (by simpa using hpass)]
        by_cases hk : k = j
        · subst hk
          simp [hskip, hfind]
        · simp [hk]

/-- A framebuffer that is bound for drawing and then for reading with the same words refers to the
same images, as far as the bits of the mipmaps allow. -/
theorem bind_images_iff (c : Context τ) (find : ℕ → Option τ) (p : ℕ → ℕ) (k : Fin 2) :
    let c' := (c.exec (.bindDrawFBO ⟨true, find, p⟩)).exec (.bindReadFBO ⟨true, find, p⟩)
    c'.draw.map (·.image k) = c'.read.map (·.image k) ↔
      (Attaches find p k → SameMipmap (p (4 * k + 5))) := by
  have hdraw : ((c.exec (.bindDrawFBO ⟨true, find, p⟩)).exec
      (.bindReadFBO ⟨true, find, p⟩)).draw = some (Bound.load 18 find p).2 := by
    simp [Context.exec, Context.bindDrawFBO, Context.bindReadFBO, bindFBO]
  have hread : ((c.exec (.bindDrawFBO ⟨true, find, p⟩)).exec
      (.bindReadFBO ⟨true, find, p⟩)).read = some (Bound.load 16 find p).2 := by
    simp [Context.exec, Context.bindDrawFBO, Context.bindReadFBO, bindFBO]
  intro c'
  rw [hdraw, hread, Option.map_some, Option.map_some, Option.some.injEq, Bound.load, Bound.load,
    image_attach, image_attach]
  split_ifs with h
  · have hattaches : Attaches find p k := h
    obtain ⟨t, ht⟩ := hattaches.found
    rw [ht, forall_prop_of_true hattaches, ← sanitizeMipmap_eq_iff]
    simp [unpack]
  · exact iff_of_true rfl (absurd · h)

/-- The words of a framebuffer with one attachment, which has a one in bit 18. -/
def oneAttachment (i : ℕ) : ℕ := [0, 0, 0, 1, 7, 2 ^ 18, 0, 0][i]?.getD 0

/-- The same attachment is mipmap 1 for drawing and mipmap 4 for reading. -/
theorem not_bind_images :
    let c := ((newContext (τ := ℕ)).exec (.bindDrawFBO ⟨true, some, oneAttachment⟩)).exec
      (.bindReadFBO ⟨true, some, oneAttachment⟩)
    c.draw.map (·.image 0) = some (some (7, 0, 1)) ∧
      c.read.map (·.image 0) = some (some (7, 0, 4)) := by
  decide +kernel

end Images

end Cesvga2.GL.Framebuffer
