import Cesvga2.GL.Host
import Cesvga2.IPP.Words

/-! The render targets that the pipeline processor sets from the dwords of a `DrawBuffer`
token, against the attachments of the draw framebuffer. -/

namespace Cesvga2.GL

open Cesvga2.IPP (Image Bind Target Binder Regs Exec exec bufInfo Takes takes_state
  stateOf Reached reached_first or_eq_add bitSelect bitSelect_eq)

/-! ### Host surfaces of attachments -/

/-- A surface texture whose surface is not in GL mode has no host surface. -/
def Host.unready : Host → Bool
  | .surface (some s) => !s.glMode
  | _ => false

/-- The host surface behind a texture, for depth if `usage`. -/
def Host.sid (usage : Bool) : Host → ℕ
  | .texture surfaceId => surfaceId
  | .surface (some s) =>
    if s.glMode then if usage then s.depthSid else s.colorSid else idInvalid
  | .surface none => idInvalid

variable {h : Host} {u : Bool} {old : ℕ}

theorem Host.getTexData_eq_sid (hr : h.unready = false) : h.getTexData u old = h.sid u := by
  cases h with
  | texture surfaceId => rfl
  | surface linked =>
    cases linked with
    | none => rfl
    | some s =>
      have hgl : s.glMode = true := by simpa [unready] using hr
      cases u <;> simp [getTexData, sid, GLSurface.getSurfacesForGL, hgl]

theorem Host.getTexData_unready (hr : h.unready = true) :
    h.getTexData u old = old ∧ h.sid u = idInvalid := by
  cases h with
  | texture surfaceId => cases hr
  | surface linked =>
    cases linked with
    | none => cases hr
    | some s =>
      have hgl : s.glMode = false := by simpa [unready] using hr
      cases u <;> simp [getTexData, sid, GLSurface.getSurfacesForGL, hgl]

theorem Host.getTexData_eq_sid_iff :
    h.getTexData u old = h.sid u ↔ (h.unready = true → old = idInvalid) := by
  cases hr : h.unready with
  | false => simp [Host.getTexData_eq_sid hr]
  | true =>
    obtain ⟨hdata, hsid⟩ : h.getTexData u old = old ∧ h.sid u = idInvalid :=
      Host.getTexData_unready hr
    simp [hdata, hsid]

namespace DrawState

/-- The render target that an attachment stands for; there is none without one. -/
def image (h : Option Host) (usage : Bool) (t : FboTx) : Image :=
  h.elim ⟨idInvalid, 0, 0⟩ fun h => ⟨h.sid usage, t.face, t.mipmap⟩

/-- Where the dword of an attachment's host surface is the client's, it names none. -/
def Settled (h : Option Host) (old : ℕ) : Prop := ∀ a ∈ h, a.unready = true → old = idInvalid

/-! ### The command words -/

variable {s : DrawState} {f : FboDescriptor} {p : ℕ → ℕ}

/-- The face and the mipmap of an attachment, in the dwords where they belong. -/
def bits (h : Option Host) (t : FboTx) : ℕ := if h.isSome then imageBits t else 0

theorem imageBits_eq {t : FboTx} (hm : t.mipmap < 2 ^ 8) :
    imageBits t = t.face * 2 ^ 8 + t.mipmap := by
  rw [imageBits, Nat.shiftLeft_eq, or_eq_add hm]

theorem imageBits_lt {t : FboTx} (hf : t.face < 2 ^ 8) (hm : t.mipmap < 2 ^ 8) :
    imageBits t < 2 ^ 16 := by
  rw [imageBits_eq hm]
  omega

theorem bits_lt {h : Option Host} {t : FboTx} (hf : t.face < 2 ^ 8) (hm : t.mipmap < 2 ^ 8) :
    bits h t < 2 ^ 16 := by
  unfold bits
  split_ifs
  · exact imageBits_lt hf hm
  · omega

theorem bits_eq_zero_iff {h : Option Host} {t : FboTx} (hm : t.mipmap < 2 ^ 8) :
    bits h t = 0 ↔ (h.isSome = true → t.face = 0 ∧ t.mipmap = 0) := by
  unfold bits
  split_ifs with hs
  · rw [imageBits_eq hm]
    simp only [hs, true_implies]
    omega
  · simp [hs]

theorem colorInfo_eq (hf : s.fbo = some f) :
    s.colorInfo = colorCmd ||| (bits s.color (f.txs 0) ||| bits s.depth (f.txs 1)) := by
  unfold colorInfo bits
  rw [hf]
  dsimp only
  split_ifs <;> simp [Nat.or_assoc]

theorem image_face_mipmap {h : Option Host} {t : FboTx} (hm : t.mipmap < 2 ^ 8) :
    (image h u t).face = bits h t / 2 ^ 8 ∧ (image h u t).mipmap = bits h t % 2 ^ 8 := by
  cases h with
  | none => simp [image, bits]
  | some h =>
    change t.face = imageBits t / 2 ^ 8 ∧ t.mipmap = imageBits t % 2 ^ 8
    rw [imageBits_eq hm]
    omega

theorem image_sid_iff {h : Option Host} {t : FboTx} :
    h.elim idInvalid (·.getTexData u old) = (image h u t).sid ↔ Settled h old := by
  cases h with
  | none => simp [image, Settled]
  | some h => simpa [image, Settled] using Host.getTexData_eq_sid_iff

/-- What `BUF_INFO` makes of the words for the two targets. -/
theorem bufInfo_word {e : IPP.Env} {w : ℕ → ℕ} {kind x : ℕ} (hkind : kind < 8) (hx : x < 2 ^ 16)
    (hw : w 1 = kind * 2 ^ 24 + 0x800000 + x) :
    bufInfo e w = if e.lock3D then
      if kind = 3 then [.target .color ⟨w 2, x / 2 ^ 8, x % 2 ^ 8⟩]
      else if kind = 7 then [.target .depth ⟨w 2, x / 2 ^ 8, x % 2 ^ 8⟩] else []
    else [] := by
  have hk : bitSelect (w 1) 24 3 = kind := by
    rw [bitSelect_eq, hw]
    omega
  have hface : bitSelect (w 1) 8 8 = x / 2 ^ 8 := by
    rw [bitSelect_eq, hw]
    omega
  have hmip : bitSelect (w 1) 0 8 = x % 2 ^ 8 := by
    rw [bitSelect_eq, hw]
    omega
  simp only [bufInfo, hk, hface, hmip]

/-! ### The targets that are set -/

variable {env : ℕ → IPP.Env} {r : Regs} {t : Binder}

theorem bufInfo_command {w : ℕ → ℕ} (hw : w 0 = 0x7D8E0001) :
    Takes w 3 ∧ ∀ (e : IPP.Env) (t : Binder), t.exec e w = (t, bufInfo e w) := by
  have hst : stateOf (w 0) = some .bufInfo := by
    rw [hw]
    decide
  refine ⟨by simpa [hw] using takes_state hst (by decide), fun e t => ?_⟩
  simp only [Binder.exec, hst]

theorem drawRect_command {w : ℕ → ℕ} (hw : w 0 = 0x7D800003) :
    Takes w 5 ∧ ∀ (e : IPP.Env) (t : Binder), t.exec e w = (t, []) := by
  have hst : stateOf (w 0) = some .drawRect := by
    rw [hw]
    decide
  refine ⟨by simpa [hw] using takes_state hst (by decide), fun e t => ?_⟩
  simp only [Binder.exec, hst]

/-- The three commands of a `DrawBuffer` token. -/
theorem reached_registers {b : ℕ → ℕ} (h0 : b 0 = 0x7D8E0001) (h3 : b 3 = 0x7D8E0001)
    (h6 : b 6 = 0x7D800003) :
    Reached env b 11 (.start r t) 3 11 t
      (bufInfo (env 0) b ++ bufInfo (env 1) fun k => b (3 + k)) := by
  have hcolor : Reached env b 11 (.start r t) 1 3 t (bufInfo (env 0) b) :=
    reached_first (by decide) (bufInfo_command h0).1 ((bufInfo_command h0).2 _ _)
  obtain ⟨htakes, hexec⟩ := bufInfo_command (w := fun k => b (3 + k)) h3
  have hdepth := hcolor.next (by decide) htakes (hexec _ _)
  obtain ⟨htakes, hexec⟩ := drawRect_command (w := fun k => b (6 + k)) h6
  have hrect := hdepth.next (by decide) htakes (hexec _ _)
  simpa using hrect

theorem drawBuffer_words : s.drawBuffer p 0 = 0x7D8E0001 ∧ s.drawBuffer p 1 = s.colorInfo ∧
    s.drawBuffer p 2 = (s.targets p).1 ∧ s.drawBuffer p 3 = 0x7D8E0001 ∧
    s.drawBuffer p 4 = depthCmd ∧ s.drawBuffer p 5 = (s.targets p).2 ∧
    s.drawBuffer p 6 = 0x7D800003 :=
  ⟨rfl, rfl, rfl, rfl, rfl, rfl, rfl⟩

/-- What the two `BUF_INFO` commands set, with the bits of both attachments in the first. -/
theorem drawBuffer_binds (hf : s.fbo = some f)
    (hb : ∀ i < 2, (f.txs i).face < 2 ^ 8 ∧ (f.txs i).mipmap < 2 ^ 8) (e e' : IPP.Env) :
    let bits := bits s.color (f.txs 0) ||| bits s.depth (f.txs 1)
    bufInfo e (s.drawBuffer p) ++ bufInfo e' (fun k => s.drawBuffer p (3 + k)) =
      (if e.lock3D then [.target .color ⟨s.color.elim idInvalid (·.getTexData false (p 2)),
        bits / 2 ^ 8, bits % 2 ^ 8⟩] else []) ++
      if e'.lock3D then [.target .depth ⟨s.depth.elim idInvalid (·.getTexData true (p 5)),
        0, 0⟩] else [] := by
  intro bits
  obtain ⟨-, h1, h2, -, h4, h5, -⟩ := drawBuffer_words (s := s) (p := p)
  have htargets : s.targets p = (s.color.elim idInvalid (·.getTexData false (p 2)),
      s.depth.elim idInvalid (·.getTexData true (p 5))) := by
    simp only [targets, hf]
  have hlt : bits < 2 ^ 16 := Nat.or_lt_two_pow
    (bits_lt (hb 0 (by decide)).1 (hb 0 (by decide)).2)
    (bits_lt (hb 1 (by decide)).1 (hb 1 (by decide)).2)
  have hcolor : s.drawBuffer p 1 = 3 * 2 ^ 24 + 0x800000 + bits := by
    rw [h1, colorInfo_eq hf]
    exact or_eq_add (a := 0x380) hlt
  have hdepth : s.drawBuffer p (3 + 1) = 7 * 2 ^ 24 + 0x800000 + 0 := h4
  rw [bufInfo_word (by decide) hlt hcolor,
    bufInfo_word (w := fun k => s.drawBuffer p (3 + k)) (by decide) (by decide) hdepth]
  simp only [h2, h5, htargets]
  rfl

/-- The pipeline processor takes the token's dwords as three commands. They set the
attachments as render targets exactly when the depth attachment is the first image of its
texture: its face and mipmap are put with the colour attachment's. -/
theorem drawBuffer_targets_iff (env : ℕ → IPP.Env) (r : Regs) (t : Binder) (s : DrawState)
    (f : FboDescriptor) (p : ℕ → ℕ) (hf : s.fbo = some f)
    (hb : ∀ i < 2, (f.txs i).face < 2 ^ 8 ∧ (f.txs i).mipmap < 2 ^ 8) :
    (exec env (s.drawBuffer p) 11 (.start r t) 3).At 11 ∧
    ((exec env (s.drawBuffer p) 11 (.start r t) 3).binds =
        [.target .color (image s.color false (f.txs 0)),
          .target .depth (image s.depth true (f.txs 1))] ↔
      (s.depth.isSome = true → (f.txs 1).face = 0 ∧ (f.txs 1).mipmap = 0) ∧
        (Settled s.color (p 2) ∧ Settled s.depth (p 5)) ∧
        (env 0).lock3D = true ∧ (env 1).lock3D = true) := by
  obtain ⟨h0, -, -, h3, -, -, h6⟩ := drawBuffer_words (s := s) (p := p)
  have hr : Reached env (s.drawBuffer p) 11 (.start r t) 3 11 t _ := reached_registers h0 h3 h6
  refine ⟨hr.place, ?_⟩
  rw [hr.binds, drawBuffer_binds hf hb]
  have hm0 := (hb 0 (by decide)).2
  have hm1 := (hb 1 (by decide)).2
  rw [← bits_eq_zero_iff hm1, ← image_sid_iff (t := f.txs 0), ← image_sid_iff (t := f.txs 1)]
  obtain ⟨hface, hmip⟩ := image_face_mipmap (u := false) (h := s.color) hm0
  obtain ⟨hface', hmip'⟩ := image_face_mipmap (u := true) (h := s.depth) hm1
  constructor
  · intro heq
    have hl : (env 0).lock3D = true ∧ (env 1).lock3D = true := by
      have hlen := congrArg List.length heq
      revert hlen
      cases (env 0).lock3D <;> cases (env 1).lock3D <;> simp
    simp only [hl.1, hl.2, if_true, List.singleton_append, List.cons.injEq, Bind.target.injEq,
      true_and, and_true] at heq
    obtain ⟨hcolor, hdepth⟩ := heq
    have hzero := congrArg Image.face hdepth
    have hzero' := congrArg Image.mipmap hdepth
    dsimp only at hzero hzero'
    exact ⟨by omega, ⟨congrArg Image.sid hcolor, congrArg Image.sid hdepth⟩, hl⟩
  · rintro ⟨hzero, ⟨hsid, hsid'⟩, hl, hl'⟩
    rw [hzero] at hface' hmip' ⊢
    simp only [hl, hl', if_true, List.singleton_append, Nat.or_zero, hsid, hsid', ← hface, ← hmip]
    rw [show image s.depth true (f.txs 1) = ⟨(image s.depth true (f.txs 1)).sid, 0, 0⟩ from
      Image.ext rfl hface' hmip']

/-- The depth attachment is face 1 of its texture; it is the colour target that gets it. -/
theorem drawBuffer_depth_face : let s : DrawState := {
      fbo := some ⟨64, 64, fun i => ⟨i, 0, 0, 0⟩⟩
      color := some (.texture 5)
      depth := some (.texture 6)
      surfaceClient := none
      drawbufParams := (0, 0) }
    let binds := (exec (fun _ => ⟨true, true, 0⟩) (s.drawBuffer fun _ => 0) 11
      (.start ⟨fun _ => 0, 0, ⟨0, 0, 0, 0⟩⟩ ⟨fun _ => idInvalid, fun _ => false⟩) 3).binds
    binds = [.target .color ⟨5, 1, 0⟩, .target .depth ⟨6, 0, 0⟩] ∧
      binds ≠ [.target .color (image s.color false ⟨0, 0, 0, 0⟩),
        .target .depth (image s.depth true ⟨1, 0, 0, 0⟩)] := by
  decide +kernel

/-- Colour and depth textures attached by their first image. -/
theorem drawBuffer_first_images : let s : DrawState := {
      fbo := some ⟨64, 64, fun i => ⟨2 - 2 * i, 1 - i, 0, 0⟩⟩
      color := some (.texture 5)
      depth := some (.texture 6)
      surfaceClient := none
      drawbufParams := (0, 0) }
    (exec (fun _ => ⟨true, true, 0⟩) (s.drawBuffer fun _ => 0) 11
        (.start ⟨fun _ => 0, 0, ⟨0, 0, 0, 0⟩⟩ ⟨fun _ => idInvalid, fun _ => false⟩) 3).binds =
      [.target .color ⟨5, 2, 1⟩, .target .depth ⟨6, 0, 0⟩] := by
  intro s
  have hb : ∀ i < 2, 2 - 2 * i < 2 ^ 8 ∧ 1 - i < 2 ^ 8 := by decide
  refine (drawBuffer_targets_iff _ _ _ s _ _ rfl hb).2.mpr ⟨fun _ => ⟨rfl, rfl⟩, ⟨?_, ?_⟩, rfl, rfl⟩
  · rintro a ⟨⟩ hunready
    cases hunready
  · rintro a ⟨⟩ hunready
    cases hunready

end DrawState

end Cesvga2.GL
