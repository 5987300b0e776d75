import Cesvga2.Runs.Prefix
import Cesvga2.Textures.Paging

/-! The two page bits of an image. A set `pageon` bit says that the host has the newest contents, a
set `pageoff` bit that client memory has them. Clients edit images, loads and page-offs move them,
and a draw FBO renders to them. The bits keep their meaning exactly as long as no transfer of a
load, a binding or a page-off is lost and nothing is rendered to an image whose newest contents are
elsewhere. -/

namespace Cesvga2.Textures

open Cesvga2.Loops (Meets)

/-! ### One texture -/

/-- The page words with the bit of an image set. -/
def setPage (pages : ℕ → BitVec 16) (image : ℕ × ℕ) : ℕ → BitVec 16 :=
  Function.update pages image.1 (pages image.1 ||| BitVec.twoPow 16 image.2)

def clearPage (pages : ℕ → BitVec 16) (image : ℕ × ℕ) : ℕ → BitVec 16 :=
  Function.update pages image.1 (pages image.1 &&& ~~~BitVec.twoPow 16 image.2)

namespace Texture

variable (headers : ℕ → Header) (tx : Texture)

def on (image : ℕ × ℕ) : Prop := (tx.pageon image.1).getLsbD image.2 = true

def off (image : ℕ × ℕ) : Prop := (tx.pageoff image.1).getLsbD image.2 = true

instance (image : ℕ × ℕ) : Decidable (tx.on image) := inferInstanceAs (Decidable (_ = true))

instance (image : ℕ × ℕ) : Decidable (tx.off image) := inferInstanceAs (Decidable (_ = true))

/-- A line of an image whose header has pixels in client memory. -/
structure InClient (image : ℕ × ℕ) (line : ℕ) : Prop where
  type : tx.type = .std ∨ tx.type = .oob
  mem : image ∈ tx.images
  pixels : (tx.header headers image).pixelsInClient ≠ 0
  line : line < (tx.header headers image).height

def dirtyTexture (image : ℕ × ℕ) : Texture :=
  if tx.type = .iosurface then tx
  else { tx with pageoff := clearPage tx.pageoff image, pageon := setPage tx.pageon image }

/-- A format for a texture that has none yet. -/
def withFormat (format : ℕ) : Texture :=
  if tx.surfaceFormat = 0 then { tx with surfaceFormat := format } else tx

end Texture

def defaultColorFormat (bytespp : ℕ) (type : TexType) : ℕ :=
  match bytespp with
  | 4 => 2
  | 2 => 13
  | 1 => if type ≠ .agpref then 11 else 37
  | _ => 0

def defaultDepthFormat : ℕ → ℕ
  | 4 => 9
  | 2 => 8
  | 1 => 11
  | _ => 0

/-- A framebuffer has two attachments, colour and depth. -/
instance neZero_usage : NeZero 2 := ⟨two_ne_zero⟩

def selectDefaultFormat (tx : Texture) (usage : Fin 2) : ℕ :=
  if usage ≠ 0 then defaultDepthFormat tx.bytespp else defaultColorFormat tx.bytespp tx.type

/-- What `write_tex_data` reads from the command stream. -/
structure TexData where
  format : ℕ
  width : ℕ
  height : ℕ
  depth : ℕ
  pitch : ℕ

def Texture.writeTexData (tx : Texture) (d : TexData) : Texture :=
  { tx with
    surfaceFormat := d.format
    width := d.width
    height := d.height
    depth := d.depth
    pitch := if d.pitch ≠ 0 then d.pitch else if tx.pitch = 0 then d.width * tx.bytespp
      else tx.pitch }

/-- A texture with its copies. The newest contents are those of the last edit with all that was
rendered since; no code has them. -/
structure Held (P : Type) where
  tx : Texture
  copies : Copies P
  newest : ℕ × ℕ → ℕ → P

/-- What an attachment of a draw FBO finds. -/
structure AttachEnv where
  inUse : Bool
  load : PageEnv
  create : SurfaceEnv

namespace Held

variable {P : Type} (headers : ℕ → Header) (s : Held P)

/-- The load in `get_texture`, whose result is not looked at. Sound textures have no faults. -/
def getTexture (e : PageEnv) (inUse : Bool) : Held P :=
  if inUse then
    match allocAndLoadTexture e.transferEnv headers s.tx s.copies with
    | .ok (_, tx, c) => { s with tx := tx, copies := c }
    | .error _ => s
  else s

def withFormat (format : ℕ) : Held P := { s with tx := s.tx.withFormat format }

/-- A texture of the command stream is loaded and then described. -/
def load (format : ℕ) (e : PageEnv) (inUse : Bool) (data : Option TexData) : Held P :=
  let s := (s.withFormat format).getTexture headers e inUse
  { s with tx := (data.map s.tx.writeTexData).getD s.tx }

def createHostSurface (e : SurfaceEnv) : Held P :=
  if s.tx.surfaceId.isSome then s
  else
    match createHostSurfaceForTexture e headers s.tx with
    | .ok (_, tx, _) => { s with tx := tx }
    | .error _ => s

def dirty (image : ℕ × ℕ) : Held P := { s with tx := s.tx.dirtyTexture image }

/-- The texture of an attachment, before it is marked as rendered to. -/
def ready (usage : Fin 2) (e : AttachEnv) : Held P :=
  ((s.withFormat (selectDefaultFormat s.tx usage)).getTexture headers e.load
    e.inUse).createHostSurface headers e.create

/-- One attachment of `process_token_BindDrawFBO`. -/
def attach (usage : Fin 2) (image : ℕ × ℕ) (e : AttachEnv) : Held P :=
  (s.ready headers usage e).dirty image

/-- `page_off_texture` is asked for an image that is on the host alone. -/
def Asked (image : ℕ × ℕ) : Prop :=
  image.1 < 6 ∧ image.2 < 12 ∧
    (~~~s.tx.pageoff image.1 &&& s.tx.pageon image.1).getLsbD image.2 = true

instance (image : ℕ × ℕ) : Decidable (s.Asked image) := inferInstanceAs (Decidable (_ ∧ _))

/-- `page_off_texture` of one image; the whole texture is paged off. -/
def pageOff (image : ℕ × ℕ) (e : PageEnv) : Held P :=
  if s.Asked image then
    match pageoffDirtyTexture e.transferEnv headers s.tx s.copies with
    | .ok (_, tx, c) => { s with tx := tx, copies := c }
    | .error _ => s
  else s

/-- The client writes an image, then sets its `pageoff` bit and clears its `pageon` bit. -/
def edit (image : ℕ × ℕ) (contents : ℕ → P) : Held P where
  tx := { s.tx with
    pageoff := setPage s.tx.pageoff image
    pageon := clearPage s.tx.pageon image }
  copies := { s.copies with client := Function.update s.copies.client image contents }
  newest := Function.update s.newest image contents

/-- Every line is rendered to on its own. -/
def render (draw : ℕ × ℕ → ℕ → P → P) : Held P where
  tx := s.tx
  copies := { s.copies with host := fun image line => draw image line (s.copies.host image line) }
  newest := fun image line => draw image line (s.newest image line)

/-! ### What the bits say -/

structure Coherent : Prop where
  host : ∀ image line, s.tx.InClient headers image line → s.tx.on image →
    s.copies.host image line = s.newest image line
  client : ∀ image line, s.tx.InClient headers image line → s.tx.off image →
    s.copies.client image line = s.newest image line

/-- The host lacks newest contents that the bits say it has. -/
def Stale : Prop :=
  ∃ image line, s.tx.InClient headers image line ∧ s.tx.on image ∧
    s.copies.host image line ≠ s.newest image line

/-- The host has the newest contents of an image. -/
def Current (image : ℕ × ℕ) : Prop :=
  ∀ line, s.tx.InClient headers image line → s.copies.host image line = s.newest image line

variable {headers s}

theorem Stale.not_coherent (h : s.Stale headers) : ¬ s.Coherent headers := by
  obtain ⟨image, line, hin, hon, hne⟩ := h
  exact fun hc => hne (hc.host image line hin hon)

end Held

section Bits

variable {headers : ℕ → Header} {tx tx' : Texture} {image i : ℕ × ℕ} {line : ℕ}

theorem Texture.InClient.congr (h : tx.InClient headers image line)
    (hg : tx'.toGeometry = tx.toGeometry) : tx'.InClient headers image line := by
  obtain ⟨htype, hmem, hpixels, hline⟩ := h
  have hheader : tx'.header headers image = tx.header headers image := by
    simp only [Texture.header, Texture.headerIndex, hg]
  refine ⟨hg ▸ htype, ?_, hheader ▸ hpixels, hheader ▸ hline⟩
  rw [mem_images] at hmem ⊢
  rwa [hg]

theorem Texture.inClient_congr (hg : tx'.toGeometry = tx.toGeometry) :
    tx'.InClient headers image line ↔ tx.InClient headers image line :=
  ⟨fun h => h.congr hg.symm, fun h => h.congr hg⟩

theorem Texture.InClient.lt (h : tx.InClient headers image line) (hs : tx.Sound) :
    image.1 < 6 ∧ image.2 < 16 := by
  have := mem_images.mp h.mem
  have := hs.faces
  have := hs.mipmaps
  omega

/-- The images that a load has to move. -/
theorem Texture.InClient.loads_iff (h : tx.InClient headers image line) (hs : tx.Sound) :
    tx.Loads headers image ↔ tx.off image ∧ ¬ tx.on image := by
  have hlt := h.lt hs
  simp [Texture.Loads, h.pixels, Texture.isPagedOff, hlt, Texture.on, Texture.off]

/-- The images that a page-off has to move. -/
theorem Texture.InClient.saves_iff (h : tx.InClient headers image line) (hs : tx.Sound) :
    tx.Saves headers image ↔ tx.on image ∧ ¬ tx.off image := by
  have hlt := h.lt hs
  simp [Texture.Saves, h.pixels, hlt, Texture.on, Texture.off, and_comm]

theorem getLsbD_setPage {pages : ℕ → BitVec 16} (hi : i.2 < 16) :
    (setPage pages image i.1).getLsbD i.2 = true ↔
      (pages i.1).getLsbD i.2 = true ∨ i = image := by
  by_cases hface : i.1 = image.1
  · simp only [setPage, hface, Function.update_self, BitVec.getLsbD_or, Bool.or_eq_true,
      BitVec.getLsbD_twoPow, Prod.ext_iff, true_and, Bool.and_eq_true, decide_eq_true_eq]
    refine or_congr_right ⟨fun h => h.2.symm, fun h => ⟨h ▸ hi, h.symm⟩⟩
  · simp [setPage, Prod.ext_iff, hface]

theorem getLsbD_clearPage {pages : ℕ → BitVec 16} (hi : i.2 < 16) :
    (clearPage pages image i.1).getLsbD i.2 = true ↔
      (pages i.1).getLsbD i.2 = true ∧ i ≠ image := by
  by_cases hface : i.1 = image.1
  · simp only [clearPage, hface, Function.update_self, BitVec.getLsbD_and, Bool.and_eq_true,
      BitVec.getLsbD_not, BitVec.getLsbD_twoPow, Ne, Prod.ext_iff, true_and, hi, decide_true]
    refine and_congr_right fun _ => ?_
    simp only [Bool.not_eq_true', Bool.and_eq_false_imp, decide_eq_true_eq,
      decide_eq_false_iff_not]
    exact ⟨fun h heq => h (heq ▸ hi) heq.symm, fun h _ heq => h heq.symm⟩
  · simp [clearPage, Prod.ext_iff, hface]

theorem Texture.geometry_dirtyTexture : (tx.dirtyTexture image).toGeometry = tx.toGeometry := by
  unfold Texture.dirtyTexture
  split_ifs <;> rfl

theorem Texture.geometry_withFormat {f : ℕ} : (tx.withFormat f).toGeometry = tx.toGeometry := by
  unfold Texture.withFormat
  split_ifs <;> rfl

theorem Texture.InClient.ne_iosurface (h : tx.InClient headers i line) : tx.type ≠ .iosurface := by
  rcases h.type with h | h <;> simp [h]

theorem Texture.InClient.on_dirtyTexture (h : tx.InClient headers i line) (hs : tx.Sound) :
    (tx.dirtyTexture image).on i ↔ tx.on i ∨ i = image := by
  rw [Texture.dirtyTexture, if_neg h.ne_iosurface]
  exact getLsbD_setPage (h.lt hs).2

theorem Texture.InClient.off_dirtyTexture (h : tx.InClient headers i line) (hs : tx.Sound) :
    (tx.dirtyTexture image).off i ↔ tx.off i ∧ i ≠ image := by
  rw [Texture.dirtyTexture, if_neg h.ne_iosurface]
  exact getLsbD_clearPage (h.lt hs).2

end Bits

namespace Held

variable {P : Type} {headers : ℕ → Header} {s : Held P} {e : PageEnv} {inUse : Bool}
  {image : ℕ × ℕ}

/-! ### What leaves contents and bits alone -/

/-- All that the meaning of the bits depends on is the same. -/
structure Same (s s' : Held P) : Prop where
  geometry : s'.tx.toGeometry = s.tx.toGeometry
  pageoff : s'.tx.pageoff = s.tx.pageoff
  pageon : s'.tx.pageon = s.tx.pageon
  copies : s'.copies = s.copies
  newest : s'.newest = s.newest

namespace Same

variable {s' : Held P}

theorem coherent (h : s.Same s') (hc : s.Coherent headers) : s'.Coherent headers := by
  refine ⟨fun image line hin hon => ?_, fun image line hin hoff => ?_⟩
  · rw [h.copies, h.newest]
    rw [Texture.on, h.pageon] at hon
    exact hc.host image line (hin.congr h.geometry.symm) hon
  · rw [h.copies, h.newest]
    rw [Texture.off, h.pageoff] at hoff
    exact hc.client image line (hin.congr h.geometry.symm) hoff

theorem stale (h : s.Same s') (hs : s.Stale headers) : s'.Stale headers := by
  obtain ⟨image, line, hin, hon, hne⟩ := hs
  refine ⟨image, line, hin.congr h.geometry, ?_, by rwa [h.copies, h.newest]⟩
  rwa [Texture.on, h.pageon]

theorem current_iff (h : s.Same s') : s'.Current headers image ↔ s.Current headers image := by
  unfold Current
  simp only [Texture.inClient_congr h.geometry, h.copies, h.newest]

end Same

theorem same_withFormat {f : ℕ} : s.Same (s.withFormat f) := by
  unfold withFormat Texture.withFormat
  split_ifs <;> exact ⟨rfl, rfl, rfl, rfl, rfl⟩

theorem same_createHostSurface (headers : ℕ → Header) (hs : s.tx.Sound) (e : SurfaceEnv) :
    s.Same (s.createHostSurface headers e) := by
  unfold createHostSurface
  split_ifs
  · exact ⟨rfl, rfl, rfl, rfl, rfl⟩
  · obtain ⟨⟨rc, tx, cs⟩, hcreate, sid, shadow, rfl⟩ := (createHostSurface_meets hs e : Meets _ _
      (createHostSurfaceForTexture e headers s.tx)).exists_ok
    rw [hcreate]
    exact ⟨rfl, rfl, rfl, rfl, rfl⟩

/-! ### Loads -/

section Load

variable (headers s e inUse)

/-- The line gets to the host. -/
def Gets (image : ℕ × ℕ) (line : ℕ) : Prop := inUse = true ∧ Arrives e headers s.tx image line

def Finishes : Prop := inUse = true ∧ LoadFinishes e headers s.tx

/-- A load whose transfers all seem to have gone through has brought every line to the host that
was not there before. -/
def LoadsAll : Prop :=
  s.Finishes headers e inUse → ∀ image line, s.tx.InClient headers image line →
    s.tx.Loads headers image →
      s.Gets headers e inUse image line ∨ s.copies.host image line = s.copies.client image line

theorem getTexture_geometry (hs : s.tx.Sound) :
    (s.getTexture headers e inUse).tx.toGeometry = s.tx.toGeometry := by
  unfold getTexture
  split_ifs
  · obtain ⟨⟨rc, tx, c⟩, hload, hg⟩ := (allocAndLoad_meets hs : Meets _ _
      (allocAndLoadTexture e.transferEnv headers s.tx s.copies)).exists_ok
    rw [hload]
    exact hg
  · rfl

theorem getTexture_newest : (s.getTexture headers e inUse).newest = s.newest := by
  unfold getTexture
  split_ifs
  · split <;> rfl
  · rfl

theorem getTexture_loaded (hs : s.tx.Sound) (htype : s.tx.type = .std ∨ s.tx.type = .oob) :
    Loaded e headers s.tx s.copies (s.getTexture headers e true).tx
      (s.getTexture headers e true).copies := by
  obtain ⟨⟨rc, tx, c⟩, hload, hl⟩ := (allocAndLoad_loaded e headers hs htype s.copies).exists_ok
  rw [getTexture, if_pos rfl, hload]
  exact hl

/-- What a load does to a line and to the bits of its image. -/
structure Moves (s s' : Held P) (gets finishes : Prop) (image : ℕ × ℕ) (line : ℕ) : Prop where
  off : s'.tx.off image ↔ s.tx.off image
  on : s'.tx.on image ↔ s.tx.on image ∨ finishes ∧ s.tx.off image
  client : s'.copies.client image line = s.copies.client image line
  arrives : gets → s'.copies.host image line = s.copies.client image line
  stays : ¬ gets → s'.copies.host image line = s.copies.host image line
  newest : s'.newest image line = s.newest image line

variable {headers s} {line : ℕ}

theorem getTexture_moves (hs : s.tx.Sound) (h : s.tx.InClient headers image line) :
    s.Moves (s.getTexture headers e inUse) (s.Gets headers e inUse image line)
      (s.Finishes headers e inUse) image line := by
  cases inUse with
  | true =>
    have hl := getTexture_loaded headers s e hs h.type
    have hface := (mem_images.mp h.mem).1
    refine ⟨by rw [Texture.off, hl.pageoff, Texture.off], ?_, by rw [hl.client],
      fun hg => hl.arrives _ _ hg.2, fun hg => hl.stays _ _ fun ha => hg ⟨rfl, ha⟩,
      by rw [getTexture_newest]⟩
    refine (hl.pageon _ hface _).trans (or_congr_right (and_congr_left fun _ => ?_))
    exact (and_iff_right rfl).symm
  | false =>
    exact ⟨Iff.rfl, (or_iff_left fun h => Bool.noConfusion h.1.1).symm, rfl,
      fun h => Bool.noConfusion h.1, fun _ => rfl, rfl⟩

variable {e inUse}

/-- Only images that are in client memory alone are moved. -/
theorem Gets.off (h : s.Gets headers e inUse image line) (hs : s.tx.Sound)
    (hin : s.tx.InClient headers image line) : s.tx.off image ∧ ¬ s.tx.on image :=
  (hin.loads_iff hs).mp (Loops.mem_of_mem_reached h.2.2.1).2

/-- The host copy after a load. -/
theorem host_getTexture_iff (hc : s.Coherent headers) (hs : s.tx.Sound)
    (hin : s.tx.InClient headers image line) :
    (s.getTexture headers e inUse).copies.host image line = s.newest image line ↔
      s.Gets headers e inUse image line ∨ s.copies.host image line = s.newest image line := by
  have hm := getTexture_moves e inUse hs hin
  by_cases hg : s.Gets headers e inUse image line
  · rw [hm.arrives hg]
    exact iff_of_true (hc.client image line hin (hg.off hs hin).1) (.inl hg)
  · rw [hm.stays hg]
    exact (or_iff_right hg).symm

theorem Coherent.getTexture (hc : s.Coherent headers) (hs : s.tx.Sound)
    (hall : s.LoadsAll headers e inUse) : (s.getTexture headers e inUse).Coherent headers := by
  refine ⟨fun image line hin hon => ?_, fun image line hin hoff => ?_⟩
  all_goals
    replace hin := hin.congr (getTexture_geometry headers s e inUse hs).symm
    have hm := getTexture_moves e inUse hs hin
    rw [hm.newest]
  · refine (host_getTexture_iff hc hs hin).mpr ?_
    by_cases hwas : s.tx.on image
    · exact .inr (hc.host image line hin hwas)
    obtain ⟨hfin, hoff⟩ := (hm.on.mp hon).resolve_left hwas
    refine (hall hfin image line hin ((hin.loads_iff hs).mpr ⟨hoff, hwas⟩)).imp_right fun heq => ?_
    exact heq.trans (hc.client image line hin hoff)
  · rw [hm.client]
    exact hc.client image line hin (hm.off.mp hoff)

/-- A line that a load has lost. -/
theorem Coherent.stale_getTexture (hc : s.Coherent headers) (hs : s.tx.Sound)
    (hlost : ¬ s.LoadsAll headers e inUse) : (s.getTexture headers e inUse).Stale headers := by
  simp only [LoadsAll, not_forall, not_or] at hlost
  obtain ⟨hfin, image, line, hin, hloads, hgets, hne⟩ := hlost
  have hm := getTexture_moves e inUse hs hin
  have hoff := ((hin.loads_iff hs).mp hloads).1
  refine ⟨image, line, hin.congr (getTexture_geometry headers s e inUse hs),
    hm.on.mpr (.inr ⟨hfin, hoff⟩), ?_⟩
  rwa [hm.newest, hm.stays hgets, ← hc.client image line hin hoff]

/-- What is marked as being on the host is not loaded again. -/
theorem Stale.getTexture (h : s.Stale headers) (hs : s.tx.Sound) :
    (s.getTexture headers e inUse).Stale headers := by
  obtain ⟨image, line, hin, hon, hne⟩ := h
  have hm := getTexture_moves e inUse hs hin
  refine ⟨image, line, hin.congr (getTexture_geometry headers s e inUse hs), hm.on.mpr (.inl hon),
    ?_⟩
  rwa [hm.newest, hm.stays fun hg => (hg.off hs hin).2 hon]

end Load

/-! ### Marking an image as rendered to -/

section Dirty

variable {line : ℕ}

theorem Coherent.dirty (hc : s.Coherent headers) (hs : s.tx.Sound) (h : s.Current headers image) :
    (s.dirty image).Coherent headers := by
  refine ⟨fun i line hin hon => ?_, fun i line hin hoff => ?_⟩
  all_goals replace hin := hin.congr Texture.geometry_dirtyTexture.symm
  · rcases (hin.on_dirtyTexture hs).mp hon with hwas | rfl
    · exact hc.host i line hin hwas
    · exact h line hin
  · exact hc.client i line hin ((hin.off_dirtyTexture hs).mp hoff).1

theorem stale_dirty (hs : s.tx.Sound) (h : ¬ s.Current headers image) :
    (s.dirty image).Stale headers := by
  simp only [Current, not_forall] at h
  obtain ⟨line, hin, hne⟩ := h
  exact ⟨image, line, hin.congr Texture.geometry_dirtyTexture,
    (hin.on_dirtyTexture hs).mpr (.inr rfl), hne⟩

theorem Stale.dirty (h : s.Stale headers) (hs : s.tx.Sound) : (s.dirty image).Stale headers := by
  obtain ⟨i, line, hin, hon, hne⟩ := h
  exact ⟨i, line, hin.congr Texture.geometry_dirtyTexture,
    (hin.on_dirtyTexture hs).mpr (.inl hon), hne⟩

end Dirty

/-! ### Loads and attachments as the tokens make them -/

theorem sound_withFormat {f : ℕ} (hs : s.tx.Sound) : (s.withFormat f).tx.Sound := by
  rwa [withFormat, Texture.geometry_withFormat]

theorem sound_getTexture (hs : s.tx.Sound) : (s.getTexture headers e inUse).tx.Sound := by
  rwa [getTexture_geometry headers s e inUse hs]

theorem same_writeTexData {data : Option TexData} :
    s.Same { s with tx := (data.map s.tx.writeTexData).getD s.tx } := by
  cases data <;> exact ⟨rfl, rfl, rfl, rfl, rfl⟩

section Tokens

variable {f : ℕ} {data : Option TexData} {usage : Fin 2} {a : AttachEnv}

theorem load_geometry (hs : s.tx.Sound) :
    (s.load headers f e inUse data).tx.toGeometry = s.tx.toGeometry := by
  refine same_writeTexData.geometry.trans ?_
  rw [getTexture_geometry headers _ e inUse (sound_withFormat hs), withFormat,
    Texture.geometry_withFormat]

theorem Coherent.load (hc : s.Coherent headers) (hs : s.tx.Sound)
    (hall : (s.withFormat f).LoadsAll headers e inUse) :
    (s.load headers f e inUse data).Coherent headers :=
  same_writeTexData.coherent ((same_withFormat.coherent hc).getTexture (sound_withFormat hs) hall)

theorem Coherent.stale_load (hc : s.Coherent headers) (hs : s.tx.Sound)
    (hlost : ¬ (s.withFormat f).LoadsAll headers e inUse) :
    (s.load headers f e inUse data).Stale headers :=
  same_writeTexData.stale
    ((same_withFormat.coherent hc).stale_getTexture (sound_withFormat hs) hlost)

variable (headers s usage image a) in
/-- The load of an attachment loses no line, and every line of the image to render to is on the
host or gets there. -/
def Attaches : Prop :=
  let s₀ := s.withFormat (selectDefaultFormat s.tx usage)
  s₀.LoadsAll headers a.load a.inUse ∧
    ∀ line, s.tx.InClient headers image line → s₀.Gets headers a.load a.inUse image line ∨
      s.copies.host image line = s.newest image line

theorem same_ready (hs : s.tx.Sound) :
    ((s.withFormat (selectDefaultFormat s.tx usage)).getTexture headers a.load a.inUse).Same
      (s.ready headers usage a) :=
  same_createHostSurface headers (sound_getTexture (sound_withFormat hs)) a.create

theorem ready_geometry (hs : s.tx.Sound) :
    (s.ready headers usage a).tx.toGeometry = s.tx.toGeometry := by
  rw [(same_ready hs).geometry, getTexture_geometry headers _ _ _ (sound_withFormat hs),
    withFormat, Texture.geometry_withFormat]

theorem sound_ready (hs : s.tx.Sound) : (s.ready headers usage a).tx.Sound := by
  rwa [ready_geometry hs]

theorem attach_geometry (hs : s.tx.Sound) :
    (s.attach headers usage image a).tx.toGeometry = s.tx.toGeometry :=
  Texture.geometry_dirtyTexture.trans (ready_geometry hs)

theorem Coherent.current_getTexture_iff (hc : s.Coherent headers) (hs : s.tx.Sound) :
    (s.getTexture headers e inUse).Current headers image ↔
      ∀ line, s.tx.InClient headers image line →
        s.Gets headers e inUse image line ∨ s.copies.host image line = s.newest image line := by
  unfold Current
  simp only [Texture.inClient_congr (getTexture_geometry headers s e inUse hs), getTexture_newest]
  exact forall₂_congr fun line hin => host_getTexture_iff hc hs hin

theorem Coherent.attaches_iff (hc : s.Coherent headers) (hs : s.tx.Sound) :
    s.Attaches headers image usage a ↔
      (s.withFormat (selectDefaultFormat s.tx usage)).LoadsAll headers a.load a.inUse ∧
        (s.ready headers usage a).Current headers image := by
  refine and_congr_right fun _ => ?_
  rw [(same_ready hs).current_iff,
    (same_withFormat.coherent hc).current_getTexture_iff (sound_withFormat hs)]
  simp only [Texture.inClient_congr same_withFormat.geometry]
  rfl

theorem Coherent.attach (hc : s.Coherent headers) (hs : s.tx.Sound)
    (h : s.Attaches headers image usage a) : (s.attach headers usage image a).Coherent headers := by
  obtain ⟨hall, hcurrent⟩ := (hc.attaches_iff hs).mp h
  have hready := (same_ready hs).coherent
    ((same_withFormat.coherent hc).getTexture (sound_withFormat hs) hall)
  exact hready.dirty (sound_ready hs) hcurrent

theorem Coherent.stale_attach (hc : s.Coherent headers) (hs : s.tx.Sound)
    (h : ¬ s.Attaches headers image usage a) : (s.attach headers usage image a).Stale headers := by
  rw [hc.attaches_iff hs, not_and_or] at h
  rcases h with hlost | hcurrent
  · have hready := (same_ready hs).stale
      ((same_withFormat.coherent hc).stale_getTexture (sound_withFormat hs) hlost)
    exact hready.dirty (sound_ready hs)
  · exact stale_dirty (sound_ready hs) hcurrent

theorem Stale.attach (h : s.Stale headers) (hs : s.tx.Sound) :
    (s.attach headers usage image a).Stale headers := by
  have hready : (s.ready headers usage a).Stale headers := (same_ready hs).stale
    ((same_withFormat.stale h).getTexture (sound_withFormat hs))
  exact hready.dirty (sound_ready hs)

end Tokens

/-! ### Page-offs and edits -/

section PageOff

variable {line : ℕ}

variable (headers s image e) in
/-- A page-off whose transfers all seem to have gone through has brought every line to client
memory that was not there before. -/
def SavesAll : Prop :=
  s.Asked image → SaveFinishes e headers s.tx → ∀ i line, s.tx.InClient headers i line →
    s.tx.Saves headers i → Returns e headers s.tx i line ∨
      s.copies.client i line = s.copies.host i line

theorem pageOff_newest : (s.pageOff headers image e).newest = s.newest := by
  unfold pageOff
  split_ifs
  · split <;> rfl
  · rfl

theorem pageOff_saved (hs : s.tx.Sound) (h : s.Asked image) :
    Saved e headers s.tx s.copies (s.pageOff headers image e).tx
      (s.pageOff headers image e).copies := by
  obtain ⟨⟨rc, tx, c⟩, hcall, hsaved⟩ := (pageoffDirty_saved e headers hs s.copies).exists_ok
  rw [pageOff, if_pos h, hcall]
  exact hsaved

theorem pageOff_of_not_asked (h : ¬ s.Asked image) : s.pageOff headers image e = s := if_neg h

theorem pageOff_geometry (hs : s.tx.Sound) :
    (s.pageOff headers image e).tx.toGeometry = s.tx.toGeometry := by
  by_cases h : s.Asked image
  · exact (pageOff_saved hs h).geometry
  · rw [pageOff_of_not_asked h]

theorem Coherent.pageOff (hc : s.Coherent headers) (hs : s.tx.Sound)
    (hall : s.SavesAll headers e image) : (s.pageOff headers image e).Coherent headers := by
  by_cases hasked : s.Asked image
  swap
  · rwa [pageOff_of_not_asked hasked]
  have hsaved : Saved e headers s.tx s.copies _ _ := pageOff_saved hs hasked
  refine ⟨fun i line hin hon => ?_, fun i line hin hoff => ?_⟩
  all_goals
    replace hin := hin.congr hsaved.geometry.symm
    rw [pageOff_newest]
  · rw [hsaved.host]
    rw [Texture.on, hsaved.pageon] at hon
    exact hc.host i line hin hon
  have hhost : s.tx.on i → s.copies.host i line = s.newest i line := hc.host i line hin
  by_cases hr : Returns e headers s.tx i line
  · rw [hsaved.returns i line hr]
    exact hhost ((hin.saves_iff hs).mp (Loops.mem_of_mem_reached hr.2.1).2).1
  rw [hsaved.stays i line hr]
  by_cases hwas : s.tx.off i
  · exact hc.client i line hin hwas
  obtain ⟨hfin, hon⟩ :=
    ((hsaved.pageoff i.1 (mem_images.mp hin.mem).1 i.2).mp hoff).resolve_left hwas
  have hsame := (hall hasked hfin i line hin ((hin.saves_iff hs).mpr ⟨hon, hwas⟩)).resolve_left hr
  exact hsame.trans (hhost hon)

/-- A line that a page-off has lost. -/
theorem Coherent.not_coherent_pageOff (hc : s.Coherent headers) (hs : s.tx.Sound)
    (hlost : ¬ s.SavesAll headers e image) : ¬ (s.pageOff headers image e).Coherent headers := by
  simp only [SavesAll, not_forall, not_or] at hlost
  obtain ⟨hasked, hfin, i, line, hin, hsaves, hr, hne⟩ := hlost
  have hsaved : Saved e headers s.tx s.copies _ _ := pageOff_saved hs hasked
  have hon := ((hin.saves_iff hs).mp hsaves).1
  intro hc'
  have hclient := hc'.client i line (hin.congr hsaved.geometry)
    ((hsaved.pageoff i.1 (mem_images.mp hin.mem).1 i.2).mpr (.inr ⟨hfin, hon⟩))
  rw [hsaved.stays i line hr, pageOff_newest, ← hc.host i line hin hon] at hclient
  exact hne hclient

theorem Coherent.edit (hc : s.Coherent headers) (hs : s.tx.Sound) {contents : ℕ → P} :
    (s.edit image contents).Coherent headers := by
  refine ⟨fun i line hin hon => ?_, fun i line hin hoff => ?_⟩
  all_goals replace hin : s.tx.InClient headers i line := hin.congr rfl
  · obtain ⟨hwas, hne⟩ := (getLsbD_clearPage (hin.lt hs).2).mp hon
    simpa [Held.edit, hne] using hc.host i line hin hwas
  · rcases (getLsbD_setPage (hin.lt hs).2).mp hoff with hwas | rfl
    · rcases eq_or_ne i image with rfl | hne
      · simp [Held.edit]
      · simpa [Held.edit, hne] using hc.client i line hin hwas
    · simp [Held.edit]

end PageOff

end Held

end Cesvga2.Textures
