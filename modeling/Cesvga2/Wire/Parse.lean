import Cesvga2.Wire.Command

/-! The device's side: commands are read off the stream one by one, each by the length that
its code and its own fields give. What the helpers send is read back as it was issued, as long
as the size of each command is one that it can compute. -/

namespace Cesvga2.Wire

open Cesvga2.Formats (split chunks unpack split_append chunks_flatten decodeAll)

/-! ### Codes -/

/-- What a code announces. -/
inductive Tag where
  | plain (op : Op2D)
  | alphaCursor
  | screen
  | remapGMR2
  | escape
  | threeD (op : Op3D)
  | surfaceDMA
  | drawPrimitives
  deriving DecidableEq

def Tag.code : Tag → ℕ
  | plain op => op.code
  | alphaCursor => 22
  | screen => 34
  | remapGMR2 => 42
  | escape => 33
  | threeD op => op.code
  | surfaceDMA => 1044
  | drawPrimitives => 1063

def Op2D.all : List Op2D :=
  [update, rectCopy, frontRopFill, fence, destroyScreen, defineGMRFB, blitGMRFBToScreen,
    blitScreenToGMRFB, annotationFill, annotationCopy, defineGMR2]

def Op3D.all : List Op3D :=
  [surfaceDefine, surfaceDestroy, surfaceCopy, surfaceStretchBlt, contextDefine, contextDestroy,
    setTransform, setZRange, setRenderState, setRenderTarget, setTextureState, setMaterial,
    setLightData, setLightEnabled, setViewport, setClipPlane, clear, present, shaderDefine,
    shaderDestroy, setShader, setShaderConst, setScissorRect, beginQuery, endQuery,
    waitForQuery, presentReadback, blitSurfaceToScreen]

def Tag.all : List Tag :=
  Op2D.all.map .plain ++ Op3D.all.map .threeD ++
    [.alphaCursor, .screen, .remapGMR2, .escape, .surfaceDMA, .drawPrimitives]

def Tag.ofCode (n : ℕ) : Option Tag := Tag.all.find? fun t => t.code = n

theorem Tag.ofCode_code (t : Tag) : ofCode t.code = some t := by
  cases t with
  | plain op => cases op <;> rfl
  | threeD op => cases op <;> rfl
  | _ => rfl

/-! ### Reading a command -/

/-- What is left of a surface DMA behind its boxes. -/
def parseSuffix : List ℕ → Option (Option (ℕ × ℕ))
  | [] => some none
  | [12, maximumOffset, flags] => some (some (maximumOffset, flags))
  | _ => none

/-- The words that the header of a 3D command counts. -/
def parsePayload : Tag → List ℕ → Option Cmd
  | .threeD op, p =>
    if (p.length - op.words) % op.item = 0 then
      some (.threeD op (p.take op.words)
        (chunks op.item ((p.length - op.words) / op.item) (p.drop op.words)))
    else none
  | .surfaceDMA, p =>
    let n := (p.length - 7) / 9
    (parseSuffix ((p.drop 7).drop (9 * n))).map fun suffix =>
      .surfaceDMA (p.take 7) (chunks 9 n (p.drop 7)) suffix
  | .drawPrimitives, cid :: numVertexDecls :: numRanges :: p =>
    if p.length = 9 * numVertexDecls + 7 * numRanges then
      some (.drawPrimitives cid (chunks 9 numVertexDecls p)
        (chunks 7 numRanges (p.drop (9 * numVertexDecls))))
    else none
  | _, _ => none

def parse3D (t : Tag) : List ℕ → Option (Cmd × List ℕ)
  | size :: l =>
    if size % 4 = 0 then
      (split (size / 4) l).bind fun r => (parsePayload t r.1).map (·, r.2)
    else none
  | [] => none

/-- A command after its code. -/
def parseBody : Tag → List ℕ → Option (Cmd × List ℕ)
  | .plain op, l => (split op.words l).map fun r => (.plain op r.1, r.2)
  | .alphaCursor, _ :: hotspotX :: hotspotY :: width :: height :: l =>
    (split (width * height) l).map fun r => (.alphaCursor hotspotX hotspotY width height r.1, r.2)
  | .screen, structSize :: l =>
    (split (structSize / 4) (structSize :: l)).map fun r => (.screen r.1, r.2)
  | .remapGMR2, gmrId :: flags :: offsetPages :: numPages :: l =>
    (split (remapWords flags numPages) l).map fun r =>
      (.remapGMR2 gmrId flags offsetPages numPages r.1, r.2)
  | .escape, nsid :: size :: l =>
    (split ((size + 3) / 4) l).map fun r => (.escape nsid ((unpack r.1).take size), r.2)
  | .threeD op, l => parse3D (.threeD op) l
  | .surfaceDMA, l => parse3D .surfaceDMA l
  | .drawPrimitives, l => parse3D .drawPrimitives l
  | _, _ => none

def parse : List ℕ → Option (Cmd × List ℕ)
  | [] => none
  | code :: l => (Tag.ofCode code).bind fun t => parseBody t l

/-- The commands of a whole stream. -/
def parseAll (l : List ℕ) : Option (List Cmd) := decodeAll parse l.length l

/-! ### Reading back -/

variable {c : Call} {l rest : List ℕ}

theorem parse_code (t : Tag) : parse (t.code :: l) = parseBody t l := by
  rw [parse, Tag.ofCode_code, Option.bind_some]

/-- A 3D command whose header has the size of its payload. -/
theorem parse3D_append {t : Tag} {p : List ℕ} {cmd : Cmd} (hp : parsePayload t p = some cmd) :
    parse3D t (4 * p.length :: (p ++ rest)) = some (cmd, rest) := by
  rw [parse3D, if_pos (Nat.mul_mod_right 4 _), Nat.mul_div_cancel_left _ (by decide),
    split_append rfl, Option.bind_some, hp, Option.map_some]

theorem parsePayload_threeD {op : Op3D} {fields : List ℕ} {items : List (List ℕ)}
    (h : (Cmd.threeD op fields items).WellFormed) :
    parsePayload (.threeD op) (fields ++ items.flatten) = some (.threeD op fields items) := by
  obtain ⟨hfields, hitems, hnone⟩ := h
  have hlength : (fields ++ items.flatten).length - op.words = op.item * items.length := by
    rw [List.length_append, hfields, Formats.length_flatten hitems, Nat.add_sub_cancel_left]
  have hcount : op.item * items.length / op.item = items.length := by
    rcases Nat.eq_zero_or_pos op.item with h0 | hpos
    · simp [hnone h0]
    · exact Nat.mul_div_cancel_left _ hpos
  have hchunks := chunks_flatten hitems []
  rw [List.append_nil] at hchunks
  rw [parsePayload, hlength, if_pos (Nat.mul_mod_right _ _), List.take_left' hfields,
    List.drop_left' hfields, hcount, hchunks]

/-- The boxes end where less than a box is left, which is the suffix or nothing. -/
theorem parsePayload_surfaceDMA {fields : List ℕ} {boxes : List (List ℕ)}
    {suffix : Option (ℕ × ℕ)} (h : (Cmd.surfaceDMA fields boxes suffix).WellFormed) {s : List ℕ}
    (hlength : s.length < 9) (hs : parseSuffix s = some suffix) :
    parsePayload .surfaceDMA (fields ++ (boxes.flatten ++ s)) =
      some (.surfaceDMA fields boxes suffix) := by
  obtain ⟨hfields, hboxes⟩ := h
  have hflat := Formats.length_flatten hboxes
  have hcount : ((fields ++ (boxes.flatten ++ s)).length - 7) / 9 = boxes.length := by
    simp only [List.length_append, hfields, hflat]
    omega
  simp only [parsePayload, hcount, List.take_left' hfields, List.drop_left' hfields,
    List.drop_left' hflat, hs, chunks_flatten hboxes, Option.map_some]

theorem parsePayload_drawPrimitives {cid : ℕ} {decls ranges : List (List ℕ)}
    (h : (Cmd.drawPrimitives cid decls ranges).WellFormed) :
    parsePayload .drawPrimitives
      (cid :: decls.length :: ranges.length :: (decls.flatten ++ ranges.flatten)) =
      some (.drawPrimitives cid decls ranges) := by
  obtain ⟨hdecls, hranges⟩ := h
  have hchunks := chunks_flatten hranges []
  rw [List.append_nil] at hchunks
  rw [parsePayload, if_pos (by rw [List.length_append, Formats.length_flatten hdecls,
    Formats.length_flatten hranges]), chunks_flatten hdecls,
    List.drop_left' (Formats.length_flatten hdecls), hchunks]

theorem parseBody_screen {object : List ℕ} (h : (Cmd.screen object).WellFormed) :
    parseBody .screen (object ++ rest) = some (.screen object, rest) := by
  obtain ⟨tail, hobject⟩ := h
  cases object with
  | nil => cases hobject
  | cons structSize object =>
    have hsize : structSize = 4 * (structSize :: object).length := (List.cons.inj hobject).1
    have hwords : (structSize :: object).length = structSize / 4 := by omega
    rw [List.cons_append, parseBody, ← List.cons_append, split_append hwords, Option.map_some]

theorem parseBody_escape {nsid : ℕ} {data pad : List Byte}
    (hpad : pad.length = (Cmd.escape nsid data).slack) :
    parseBody .escape (nsid :: data.length :: (Formats.pack (data ++ pad) ++ rest)) =
      some (.escape nsid data, rest) := by
  have hlength : (data ++ pad).length = data.length + (4 - data.length % 4) % 4 := by
    rw [List.length_append, hpad, Cmd.slack]
  have hwords : (Formats.pack (data ++ pad)).length = (data.length + 3) / 4 := by
    rw [Formats.length_pack, hlength]
    omega
  rw [parseBody, split_append hwords, Option.map_some, Formats.unpack_pack (by omega),
    List.take_left]

/-- A 3D reservation of the right size has the right header. -/
theorem header_eq {size n : ℕ} (hsize : size < 2 ^ 64) (hbytes : u64 (8 + size) = 4 * (n + 2))
    (hgranted : 4 * (n + 2) ≤ 65536) : u32 size = 4 * n := by
  unfold u64 at hbytes
  rw [u32_of_lt] <;> omega

theorem parse_reserve3D {t : Tag} {size : ℕ} {p : List ℕ} {cmd : Cmd}
    (ht : parseBody t (u32 size :: (p ++ rest)) = parse3D t (u32 size :: (p ++ rest)))
    (hsize : size < 2 ^ 64) (hbytes : u64 (8 + size) = 4 * (p.length + 2))
    (hgranted : 4 * (p.length + 2) ≤ 65536) (hp : parsePayload t p = some cmd) :
    parse (t.code :: u32 size :: (p ++ rest)) = some (cmd, rest) := by
  rw [parse_code, ht, header_eq hsize hbytes hgranted, parse3D_append hp]

theorem u64_lt (n : ℕ) : u64 n < 2 ^ 64 := Nat.mod_lt _ (by decide)

/-- A command that fits and whose reservation is granted is read back as it was issued. -/
theorem parse_words (hfits : c.Fits) (hgranted : c.bytes ≤ 65536) :
    parse (c.words ++ rest) = some (c.cmd, rest) := by
  have hbytes := c.fits_iff.mp hfits
  rw [hbytes] at hgranted
  obtain ⟨cmd, pad, hwf, hpad⟩ := c
  cases cmd with
  | plain op fields =>
    change parse ((Tag.plain op).code :: (fields ++ rest)) = _
    rw [parse_code, parseBody, split_append hwf, Option.map_some]
  | alphaCursor hotspotX hotspotY width height pixels =>
    change parse (Tag.alphaCursor.code :: 1 :: hotspotX :: hotspotY :: width :: height ::
      (pixels ++ rest)) = _
    rw [parse_code, parseBody, split_append hwf, Option.map_some]
  | screen object =>
    change parse (Tag.screen.code :: (object ++ rest)) = _
    rw [parse_code, parseBody_screen hwf]
  | remapGMR2 gmrId flags offsetPages numPages suffix =>
    change parse (Tag.remapGMR2.code :: gmrId :: flags :: offsetPages :: numPages ::
      (suffix ++ rest)) = _
    rw [parse_code, parseBody, split_append hwf, Option.map_some]
  | escape nsid data =>
    have hlength : data.length ≤ 65536 := by
      simp only [Call.words, Cmd.write, fifoReserveEscape, List.length_cons, Formats.length_pack,
        List.length_append] at hgranted
      omega
    have hsize : u32 (u64 data.length) = data.length := by
      rw [u64_of_lt (by omega), u32_of_lt (by omega)]
    change parse (Tag.escape.code :: nsid :: u32 (u64 data.length) ::
      (Formats.pack (data ++ pad) ++ rest)) = _
    rw [parse_code, hsize, parseBody_escape hpad]
  | threeD op fields items =>
    exact parse_reserve3D (t := .threeD op) (by rw [parseBody]) (u64_lt _) hbytes hgranted
      (parsePayload_threeD hwf)
  | surfaceDMA fields boxes suffix =>
    cases suffix with
    | none =>
      have hpayload := parsePayload_surfaceDMA (s := []) hwf (by decide) rfl
      rw [List.append_nil] at hpayload
      exact parse_reserve3D (t := .surfaceDMA) (by rw [parseBody]) (u64_lt _) hbytes hgranted
        hpayload
    | some suffix =>
      exact parse_reserve3D (t := .surfaceDMA) (by rw [parseBody]) (u64_lt _) hbytes hgranted
        (parsePayload_surfaceDMA hwf (by simp) rfl)
  | drawPrimitives cid decls ranges =>
    have hcounts : u32 decls.length = decls.length ∧ u32 ranges.length = ranges.length := by
      simp only [Call.words, Cmd.write, fifoReserve3D, List.length_cons, List.length_append,
        Formats.length_flatten hwf.1, Formats.length_flatten hwf.2] at hgranted
      exact ⟨u32_of_lt (by omega), u32_of_lt (by omega)⟩
    have hpayload := parsePayload_drawPrimitives hwf
    rw [← hcounts.1, ← hcounts.2] at hpayload
    exact parse_reserve3D (t := .drawPrimitives) (by rw [parseBody]) (u64_lt _) hbytes hgranted
      hpayload

/-- A stream of such commands is read back as the commands. -/
theorem parseAll_sent {calls : List Call} (h : ∀ c ∈ calls, c.Fits ∧ c.bytes ≤ 65536) :
    parseAll (calls.map Call.sent).flatten = some (calls.map Call.cmd) := by
  have hsent : ∀ c ∈ calls, c.sent ≠ [] := by
    intro c hc
    rw [(h c hc).1.sent_eq]
    exact c.words_ne_nil
  refine Formats.decodeAll_flatten (fun c hc => ⟨hsent c hc, fun rest => ?_⟩) le_rfl
  rw [(h c hc).1.sent_eq]
  exact parse_words (h c hc).1 (h c hc).2

end Cesvga2.Wire
