import Cesvga2.Basic
import Cesvga2.Formats.Frames

/-! The commands that the driver's helpers put into the FIFO: the size that each helper
reserves, computed in its own way, and the words that it and its caller write from the start
of the reservation on. Structures and array elements of a command are lists of words. -/

namespace Cesvga2.Wire

open Cesvga2.Formats (pack)

abbrev Byte := Fin 256

/-! ### Command codes -/

/-- The 2D commands of a fixed size. -/
inductive Op2D where
  | update | rectCopy | frontRopFill | fence | destroyScreen | defineGMRFB | blitGMRFBToScreen
  | blitScreenToGMRFB | annotationFill | annotationCopy | defineGMR2
  deriving DecidableEq, Repr

namespace Op2D

/-- `SVGA_CMD_…`. -/
def code : Op2D → ℕ
  | update => 1
  | rectCopy => 3
  | frontRopFill => 29
  | fence => 30
  | destroyScreen => 35
  | defineGMRFB => 36
  | blitGMRFBToScreen => 37
  | blitScreenToGMRFB => 38
  | annotationFill => 39
  | annotationCopy => 40
  | defineGMR2 => 41

/-- Words of the structure `SVGAFifoCmd…`. -/
def words : Op2D → ℕ
  | update => 4
  | rectCopy => 6
  | frontRopFill => 6
  | fence => 1
  | destroyScreen => 1
  | defineGMRFB => 4
  | blitGMRFBToScreen => 7
  | blitScreenToGMRFB => 7
  | annotationFill => 1
  | annotationCopy => 3
  | defineGMR2 => 2

end Op2D

/-- The 3D commands of a structure and at most one array. -/
inductive Op3D where
  | surfaceDefine | surfaceDestroy | surfaceCopy | surfaceStretchBlt | contextDefine
  | contextDestroy | setTransform | setZRange | setRenderState | setRenderTarget
  | setTextureState | setMaterial | setLightData | setLightEnabled | setViewport
  | setClipPlane | clear | present | shaderDefine | shaderDestroy | setShader
  | setShaderConst | setScissorRect | beginQuery | endQuery | waitForQuery
  | presentReadback | blitSurfaceToScreen
  deriving DecidableEq, Repr

namespace Op3D

/-- `SVGA_3D_CMD_…`, from `SVGA_3D_CMD_BASE` on. -/
def code : Op3D → ℕ
  | surfaceDefine => 1040
  | surfaceDestroy => 1041
  | surfaceCopy => 1042
  | surfaceStretchBlt => 1043
  | contextDefine => 1045
  | contextDestroy => 1046
  | setTransform => 1047
  | setZRange => 1048
  | setRenderState => 1049
  | setRenderTarget => 1050
  | setTextureState => 1051
  | setMaterial => 1052
  | setLightData => 1053
  | setLightEnabled => 1054
  | setViewport => 1055
  | setClipPlane => 1056
  | clear => 1057
  | present => 1058
  | shaderDefine => 1059
  | shaderDestroy => 1060
  | setShader => 1061
  | setShaderConst => 1062
  | setScissorRect => 1064
  | beginQuery => 1065
  | endQuery => 1066
  | waitForQuery => 1067
  | presentReadback => 1068
  | blitSurfaceToScreen => 1069

/-- Words of the structure `SVGA3dCmd…`. -/
def words : Op3D → ℕ
  | surfaceDefine => 9
  | surfaceDestroy => 1
  | surfaceCopy => 6
  | surfaceStretchBlt => 19
  | contextDefine => 1
  | contextDestroy => 1
  | setTransform => 18
  | setZRange => 3
  | setRenderState => 1
  | setRenderTarget => 5
  | setTextureState => 1
  | setMaterial => 19
  | setLightData => 31
  | setLightEnabled => 3
  | setViewport => 5
  | setClipPlane => 6
  | clear => 5
  | present => 1
  | shaderDefine => 3
  | shaderDestroy => 3
  | setShader => 3
  | setShaderConst => 8
  | setScissorRect => 5
  | beginQuery => 2
  | endQuery => 4
  | waitForQuery => 4
  | presentReadback => 0
  | blitSurfaceToScreen => 12

/-- Words of an element of the array behind it; 0 where there is none. -/
def item : Op3D → ℕ
  | surfaceDefine => 3
  | surfaceCopy => 9
  | setRenderState => 2
  | setTextureState => 3
  | clear => 4
  | present => 6
  | shaderDefine => 1
  | presentReadback => 4
  | blitSurfaceToScreen => 4
  | _ => 0

end Op3D

/-! ### Commands -/

inductive Cmd where
  | plain (op : Op2D) (fields : List ℕ)
  | alphaCursor (hotspotX hotspotY width height : ℕ) (pixels : List ℕ)
  | screen (object : List ℕ)
  | remapGMR2 (gmrId flags offsetPages numPages : ℕ) (suffix : List ℕ)
  | escape (nsid : ℕ) (data : List Byte)
  | threeD (op : Op3D) (fields : List ℕ) (items : List (List ℕ))
  | surfaceDMA (fields : List ℕ) (boxes : List (List ℕ)) (suffix : Option (ℕ × ℕ))
  | drawPrimitives (cid : ℕ) (decls ranges : List (List ℕ))
  deriving DecidableEq

/-- Words behind `SVGAFifoCmdRemapGMR2`, for its flags and `numPages`. -/
def remapWords (flags numPages : ℕ) : ℕ :=
  if flags.testBit 0 then 2
  else (if flags.testBit 1 then 2 else 1) * (if flags.testBit 2 then 1 else numPages)

/-- The lists have the lengths of the structures that they stand for. A screen object begins
with its size in bytes. -/
def Cmd.WellFormed : Cmd → Prop
  | plain op fields => fields.length = op.words
  | alphaCursor _ _ width height pixels => pixels.length = width * height
  | screen object => ∃ rest, object = 4 * object.length :: rest
  | remapGMR2 _ flags _ numPages suffix => suffix.length = remapWords flags numPages
  | escape _ _ => True
  | threeD op fields items => fields.length = op.words ∧ (∀ x ∈ items, x.length = op.item) ∧
      (op.item = 0 → items = [])
  | surfaceDMA fields boxes _ => fields.length = 7 ∧ ∀ x ∈ boxes, x.length = 9
  | drawPrimitives _ decls ranges => (∀ x ∈ decls, x.length = 9) ∧ ∀ x ∈ ranges, x.length = 7

/-! ### Reserving -/

/-- The argument of `SVGADevice::FIFOReserve`, and what is written at its result. -/
structure Write where
  bytes : ℕ
  words : List ℕ

def fifoReserveCmd (type bytes : ℕ) (rest : List ℕ) : Write := ⟨u64 (bytes + 4), type :: rest⟩

def fifoReserveEscape (nsid bytes : ℕ) (rest : List ℕ) : Write :=
  let padded := u64 (bytes + 3) / 4 * 4
  ⟨u64 (padded + 12), 33 :: nsid :: u32 bytes :: rest⟩

/-- `SVGA3D::FIFOReserve`. -/
def fifoReserve3D (cmd cmdSize : ℕ) (rest : List ℕ) : Write :=
  ⟨u64 (8 + cmdSize), cmd :: u32 cmdSize :: rest⟩

/-- What a helper reserves and what is written for a command; `pad` is what lies behind the
data of an escape. -/
def Cmd.write (pad : List Byte) : Cmd → Write
  | plain op fields => fifoReserveCmd op.code (4 * op.words) fields
  -- `width * height * bytespp` is a product of 32 bits
  | alphaCursor hotspotX hotspotY width height pixels =>
    fifoReserveCmd 22 (20 + u32 (u32 (width * height) * 4))
      (1 :: hotspotX :: hotspotY :: width :: height :: pixels)
  | screen object => fifoReserveCmd 34 (object.headD 0) object
  | remapGMR2 gmrId flags offsetPages numPages suffix =>
    fifoReserveCmd 42 (u64 (16 + 4 * suffix.length))
      (gmrId :: flags :: offsetPages :: numPages :: suffix)
  | escape nsid data => fifoReserveEscape nsid (u64 data.length) (pack (data ++ pad))
  | threeD op fields items =>
    fifoReserve3D op.code (u64 (4 * op.words + u64 (4 * op.item * items.length)))
      (fields ++ items.flatten)
  | surfaceDMA fields boxes none =>
    fifoReserve3D 1044 (u64 (28 + u64 (36 * boxes.length))) (fields ++ boxes.flatten)
  | surfaceDMA fields boxes (some (maximumOffset, flags)) =>
    fifoReserve3D 1044 (u64 (u64 (28 + u64 (36 * boxes.length)) + 12))
      (fields ++ (boxes.flatten ++ [12, maximumOffset, flags]))
  | drawPrimitives cid decls ranges =>
    fifoReserve3D 1063 (u64 (u64 (12 + u64 (36 * decls.length)) + u64 (28 * ranges.length)))
      (cid :: u32 decls.length :: u32 ranges.length :: (decls.flatten ++ ranges.flatten))

/-- Bytes between the end of the data and the next word. -/
def Cmd.slack : Cmd → ℕ
  | escape _ data => (4 - data.length % 4) % 4
  | _ => 0

/-- A command as it is issued. -/
structure Call where
  cmd : Cmd
  pad : List Byte
  wf : cmd.WellFormed
  pad_length : pad.length = cmd.slack

namespace Call

variable (c : Call)

def bytes : ℕ := (c.cmd.write c.pad).bytes

def words : List ℕ := (c.cmd.write c.pad).words

/-- What is committed: the words that lie in the reservation. -/
def sent : List ℕ := c.words.take (c.bytes / 4)

/-- The size of the command, every element of its arrays counted, is a `size_t`, which has 64 bits
here; the pixels of a cursor have a size of 32 bits. -/
def Fits : Prop :=
  match c.cmd with
  | .alphaCursor _ _ _ _ pixels => 4 * pixels.length < 2 ^ 32
  | _ => 4 * c.words.length < 2 ^ 64

/-- A reservation is never larger than the command, and is as large where the command fits
and nowhere else. -/
theorem bytes_spec : c.bytes ≤ 4 * c.words.length ∧ (c.Fits ↔ c.bytes = 4 * c.words.length) := by
  obtain ⟨cmd, pad, hwf, hpad⟩ := c
  cases cmd with
  | plain op fields =>
    simp only [Cmd.WellFormed] at hwf
    simp only [Fits, bytes, words, Cmd.write, fifoReserveCmd, u64, List.length_cons, hwf]
    omega
  | alphaCursor hotspotX hotspotY width height pixels =>
    simp only [Cmd.WellFormed] at hwf
    simp only [Fits, bytes, words, Cmd.write, fifoReserveCmd, u64, u32, List.length_cons, hwf]
    omega
  | screen object =>
    obtain ⟨rest, hrest⟩ := hwf
    have hsize : object.headD 0 = 4 * object.length := by
      rw [hrest, List.headD_cons, ← hrest]
    simp only [Fits, bytes, words, Cmd.write, fifoReserveCmd, u64, List.length_cons, hsize]
    omega
  | remapGMR2 gmrId flags offsetPages numPages suffix =>
    simp only [Fits, bytes, words, Cmd.write, fifoReserveCmd, u64, List.length_cons]
    omega
  | escape nsid data =>
    simp only [Cmd.slack] at hpad
    simp only [Fits, bytes, words, Cmd.write, fifoReserveEscape, u64, List.length_cons,
      Formats.length_pack, List.length_append, hpad]
    omega
  | threeD op fields items =>
    simp only [Fits, bytes, words, Cmd.write, fifoReserve3D, u64, List.length_cons,
      List.length_append, hwf.1, Formats.length_flatten hwf.2.1, Nat.mul_assoc]
    omega
  | surfaceDMA fields boxes suffix =>
    cases suffix with
    | none =>
      simp only [Fits, bytes, words, Cmd.write, fifoReserve3D, u64, List.length_cons,
        List.length_append, hwf.1, Formats.length_flatten hwf.2]
      omega
    | some suffix =>
      simp only [Fits, bytes, words, Cmd.write, fifoReserve3D, u64, List.length_cons,
        List.length_append, hwf.1, Formats.length_flatten hwf.2, List.length_nil]
      omega
  | drawPrimitives cid decls ranges =>
    simp only [Fits, bytes, words, Cmd.write, fifoReserve3D, u64, List.length_cons,
      List.length_append, Formats.length_flatten hwf.1, Formats.length_flatten hwf.2]
    omega

theorem bytes_le : c.bytes ≤ 4 * c.words.length := c.bytes_spec.1

theorem fits_iff : c.Fits ↔ c.bytes = 4 * c.words.length := c.bytes_spec.2

theorem words_ne_nil : c.words ≠ [] := by
  obtain ⟨cmd, pad, hwf, hpad⟩ := c
  rcases cmd with _ | _ | _ | _ | _ | _ | ⟨_, _, _ | _⟩ | _ <;> exact List.cons_ne_nil _ _

variable {c}

theorem Fits.sent_eq (h : c.Fits) : c.sent = c.words := by
  rw [sent, c.fits_iff.mp h, Nat.mul_div_cancel_left _ (by decide), List.take_length]

end Call

/-! ### The helpers -/

/-- The calls that issue a command. A structure that a helper copies is the function of its
words, an array the list of its elements. -/
inductive Helper where
  -- `SVGADevice`
  | insertFence (fence : ℕ)
  | defineAlphaCursor (width height hotspotX hotspotY : ℕ) (pixels : List ℕ)
      (hpixels : pixels.length = width * height)
  | updateFramebuffer (x y width height : ℕ)
  | videoSetRegs (streamId : ℕ) (items : List (Fin 2 → ℕ))
  | videoFlush (streamId : ℕ)
  | rectCopy (copyRect : Fin 6 → ℕ)
  | rectFill (color : ℕ) (rect : Fin 4 → ℕ)
  | updateFramebuffer2 (rect : Fin 4 → ℕ)
  | defineGMR2 (gmrId numPages : ℕ)
  | remapGMR2 (gmrId flags offsetPages numPages : ℕ) (suffix : List ℕ)
      (hsuffix : suffix.length = remapWords flags numPages)
  -- `SVGAScreen`
  | defineScreen (rest : List ℕ)
  | destroyScreen (screenId : ℕ)
  | defineGMRFB (ptr : Fin 2 → ℕ) (bytesPerLine format : ℕ)
  | blitFromGMRFB (srcOrigin : Fin 2 → ℕ) (destRect : Fin 4 → ℕ) (destScreen : ℕ)
  | blitToGMRFB (destOrigin : Fin 2 → ℕ) (srcRect : Fin 4 → ℕ) (srcScreen : ℕ)
  | annotateFill (color : ℕ)
  | annotateCopy (srcOrigin : Fin 2 → ℕ) (srcScreen : ℕ)
  -- `SVGA3D`
  | beginDefineSurface (sid flags format : ℕ) (faces : Fin 6 → ℕ) (mipSizes : List (Fin 3 → ℕ))
  | destroySurface (sid : ℕ)
  | beginSurfaceDMA (guestImage hostImage : Fin 3 → ℕ) (transfer : ℕ) (boxes : List (Fin 9 → ℕ))
  | beginSurfaceDMAwithSuffix (guestImage hostImage : Fin 3 → ℕ) (transfer : ℕ)
      (boxes : List (Fin 9 → ℕ)) (maximumOffset flags : ℕ)
  | defineContext (cid : ℕ)
  | destroyContext (cid : ℕ)
  | setRenderTarget (cid type : ℕ) (target : Fin 3 → ℕ)
  | setTransform (cid type : ℕ) (matrix : Fin 16 → ℕ)
  | setMaterial (cid face : ℕ) (material : Fin 17 → ℕ)
  | setLightEnabled (cid index enabled : ℕ)
  | setLightData (cid index : ℕ) (data : Fin 29 → ℕ)
  | defineShader (cid shid type : ℕ) (bytecode : List ℕ)
  | destroyShader (cid shid type : ℕ)
  -- any other type of constant is given up with `FIFOCommit(0)`
  | setShaderConst (cid reg type ctype : ℕ) (hctype : ctype ≤ 2) (values : Fin 4 → ℕ)
  | setShader (cid type shid : ℕ)
  | beginPresent (sid : ℕ) (rects : List (Fin 6 → ℕ))
  | beginClear (cid flags color depth stencil : ℕ) (rects : List (Fin 4 → ℕ))
  | beginDrawPrimitives (cid : ℕ) (decls : List (Fin 9 → ℕ)) (ranges : List (Fin 7 → ℕ))
  | beginSurfaceCopy (src dest : Fin 3 → ℕ) (boxes : List (Fin 9 → ℕ))
  | surfaceStretchBlt (src dest : Fin 3 → ℕ) (boxSrc boxDest : Fin 6 → ℕ) (mode : ℕ)
  | setViewport (cid : ℕ) (rect : Fin 4 → ℕ)
  | setScissorRect (cid : ℕ) (rect : Fin 4 → ℕ)
  | setZRange (cid zMin zMax : ℕ)
  | setClipPlane (cid index : ℕ) (plane : Fin 4 → ℕ)
  | beginSetTextureState (cid : ℕ) (states : List (Fin 3 → ℕ))
  | beginSetRenderState (cid : ℕ) (states : List (Fin 2 → ℕ))
  | beginPresentReadback (rects : List (Fin 4 → ℕ))
  | beginBlitSurfaceToScreen (srcImage : Fin 3 → ℕ) (srcRect : Fin 4 → ℕ) (destScreenId : ℕ)
      (destRect : Fin 4 → ℕ) (clipRects : List (Fin 4 → ℕ))
  | beginQuery (cid qtype : ℕ)
  | endQuery (cid qtype gmrid offsetInGmr : ℕ)
  | waitForQuery (cid qtype gmrid offsetInGmr : ℕ)

/-- The bytes of 32-bit words. -/
def bytesOf (words : List ℕ) : List Byte := Formats.unpack words

/-- An array of structures. -/
def elements {k : ℕ} (l : List (Fin k → ℕ)) : List (List ℕ) := l.map List.ofFn

open List (ofFn) in
def Helper.cmd : Helper → Cmd
  | insertFence fence => .plain .fence [fence]
  | defineAlphaCursor width height hotspotX hotspotY pixels _ =>
    .alphaCursor hotspotX hotspotY width height pixels
  | updateFramebuffer x y width height => .plain .update [x, y, width, height]
  -- `SVGA_ESCAPE_CECL_VIDEO_SET_REGS` and `SVGA_ESCAPE_CECL_VIDEO_FLUSH`
  | videoSetRegs streamId items =>
    .escape 0 (bytesOf ([0x20001, streamId] ++ (elements items).flatten))
  | videoFlush streamId => .escape 0 (bytesOf [0x20002, streamId])
  | rectCopy copyRect => .plain .rectCopy (ofFn copyRect)
  | rectFill color rect => .plain .frontRopFill (color :: (ofFn rect ++ [3]))
  | updateFramebuffer2 rect => .plain .update (ofFn rect)
  | defineGMR2 gmrId numPages => .plain .defineGMR2 [gmrId, numPages]
  | remapGMR2 gmrId flags offsetPages numPages suffix _ =>
    .remapGMR2 gmrId flags offsetPages numPages suffix
  | defineScreen rest => .screen (4 * (rest.length + 1) :: rest)
  | destroyScreen screenId => .plain .destroyScreen [screenId]
  | defineGMRFB ptr bytesPerLine format => .plain .defineGMRFB (ofFn ptr ++ [bytesPerLine, format])
  | blitFromGMRFB srcOrigin destRect destScreen =>
    .plain .blitGMRFBToScreen (ofFn srcOrigin ++ ofFn destRect ++ [destScreen])
  | blitToGMRFB destOrigin srcRect srcScreen =>
    .plain .blitScreenToGMRFB (ofFn destOrigin ++ ofFn srcRect ++ [srcScreen])
  | annotateFill color => .plain .annotationFill [color]
  | annotateCopy srcOrigin srcScreen => .plain .annotationCopy (ofFn srcOrigin ++ [srcScreen])
  | beginDefineSurface sid flags format faces mipSizes =>
    .threeD .surfaceDefine ([sid, flags, format] ++ ofFn faces) (elements mipSizes)
  | destroySurface sid => .threeD .surfaceDestroy [sid] []
  | beginSurfaceDMA guestImage hostImage transfer boxes =>
    .surfaceDMA (ofFn guestImage ++ ofFn hostImage ++ [transfer]) (elements boxes) none
  | beginSurfaceDMAwithSuffix guestImage hostImage transfer boxes maximumOffset flags =>
    .surfaceDMA (ofFn guestImage ++ ofFn hostImage ++ [transfer]) (elements boxes)
      (some (maximumOffset, flags))
  | defineContext cid => .threeD .contextDefine [cid] []
  | destroyContext cid => .threeD .contextDestroy [cid] []
  | setRenderTarget cid type target => .threeD .setRenderTarget ([cid, type] ++ ofFn target) []
  | setTransform cid type matrix => .threeD .setTransform ([cid, type] ++ ofFn matrix) []
  | setMaterial cid face material => .threeD .setMaterial ([cid, face] ++ ofFn material) []
  | setLightEnabled cid index enabled => .threeD .setLightEnabled [cid, index, enabled] []
  | setLightData cid index data => .threeD .setLightData ([cid, index] ++ ofFn data) []
  | defineShader cid shid type bytecode =>
    .threeD .shaderDefine [cid, shid, type] (bytecode.map ([·]))
  | destroyShader cid shid type => .threeD .shaderDestroy [cid, shid, type] []
  -- a boolean constant is one word and three zeros
  | setShaderConst cid reg type ctype _ values =>
    .threeD .setShaderConst ([cid, reg, type, ctype] ++
      if ctype = 2 then [values 0, 0, 0, 0] else ofFn values) []
  | setShader cid type shid => .threeD .setShader [cid, type, shid] []
  | beginPresent sid rects => .threeD .present [sid] (elements rects)
  | beginClear cid flags color depth stencil rects =>
    .threeD .clear [cid, flags, color, depth, stencil] (elements rects)
  | beginDrawPrimitives cid decls ranges => .drawPrimitives cid (elements decls) (elements ranges)
  | beginSurfaceCopy src dest boxes => .threeD .surfaceCopy (ofFn src ++ ofFn dest) (elements boxes)
  | surfaceStretchBlt src dest boxSrc boxDest mode =>
    .threeD .surfaceStretchBlt (ofFn src ++ ofFn dest ++ ofFn boxSrc ++ ofFn boxDest ++ [mode]) []
  | setViewport cid rect => .threeD .setViewport (cid :: ofFn rect) []
  | setScissorRect cid rect => .threeD .setScissorRect (cid :: ofFn rect) []
  | setZRange cid zMin zMax => .threeD .setZRange [cid, zMin, zMax] []
  | setClipPlane cid index plane => .threeD .setClipPlane ([cid, index] ++ ofFn plane) []
  | beginSetTextureState cid states => .threeD .setTextureState [cid] (elements states)
  | beginSetRenderState cid states => .threeD .setRenderState [cid] (elements states)
  | beginPresentReadback rects => .threeD .presentReadback [] (elements rects)
  | beginBlitSurfaceToScreen srcImage srcRect destScreenId destRect clipRects =>
    .threeD .blitSurfaceToScreen (ofFn srcImage ++ ofFn srcRect ++ [destScreenId] ++ ofFn destRect)
      (elements clipRects)
  | beginQuery cid qtype => .threeD .beginQuery [cid, qtype] []
  | endQuery cid qtype gmrid offsetInGmr => .threeD .endQuery [cid, qtype, gmrid, offsetInGmr] []
  | waitForQuery cid qtype gmrid offsetInGmr =>
    .threeD .waitForQuery [cid, qtype, gmrid, offsetInGmr] []

theorem length_of_mem_elements {k : ℕ} {l : List (Fin k → ℕ)} : ∀ x ∈ elements l, x.length = k := by
  simp [elements]

/-- Every helper issues a command of the structures that its code names. -/
theorem Helper.wellFormed (h : Helper) : h.cmd.WellFormed := by
  cases h with
  | defineAlphaCursor _ _ _ _ _ hpixels => exact hpixels
  | remapGMR2 _ _ _ _ _ hsuffix => exact hsuffix
  | defineScreen rest => exact ⟨rest, rfl⟩
  | beginDrawPrimitives => exact ⟨length_of_mem_elements, length_of_mem_elements⟩
  | setShaderConst =>
    simp only [cmd, Cmd.WellFormed]
    split_ifs <;> simp [Op3D.words]
  | _ => simp [cmd, Cmd.WellFormed, Op2D.words, Op3D.words, Op3D.item, elements]

end Cesvga2.Wire
