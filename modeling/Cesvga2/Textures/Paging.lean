import Cesvga2.Textures.Load

/-! What loads and page-offs do to the two copies of an image, the one on the host and the one in
client memory. A copy is given by its scan lines. A transfer moves the lines of its box; it may also
fail, and it may be refused by the ring, which `surfaceDMA3DEx` does not report. -/

namespace Cesvga2.Textures

open Cesvga2.Loops (Meets)

/-- What becomes of a transfer. -/
inductive Dma where
  | moved
  | refused
  | failed
  deriving DecidableEq, Repr

/-- The scan lines of the images of a texture. Lines that were never written are `default`, on a
host surface that has just been defined too. -/
structure Copies (P : Type) where
  host : ℕ × ℕ → ℕ → P
  client : ℕ × ℕ → ℕ → P

/-- The lines that a transfer moves. -/
def Transfer.Covers (t : Transfer) (line : ℕ) : Prop := t.y ≤ line ∧ line < t.y + t.h

instance (t : Transfer) (line : ℕ) : Decidable (t.Covers line) :=
  inferInstanceAs (Decidable (_ ∧ _))

variable {P : Type}

/-- Some lines of an image go to the host. -/
def Copies.sendLines (c : Copies P) (image : ℕ × ℕ) (lines : ℕ → Bool) : Copies P :=
  { c with host := Function.update c.host image fun l =>
      if lines l then c.client image l else c.host image l }

/-- Some lines of an image come from the host. -/
def Copies.fetchLines (c : Copies P) (image : ℕ × ℕ) (lines : ℕ → Bool) : Copies P :=
  { c with client := Function.update c.client image fun l =>
      if lines l then c.host image l else c.client image l }

def Copies.move (c : Copies P) (t : Transfer) : Copies P :=
  if t.write then c.sendLines t.image (t.Covers ·) else c.fetchLines t.image (t.Covers ·)

/-- `surfaceDMA3DEx`. -/
def surfaceDMA3DEx (answer : Transfer → Dma) (t : Transfer) (c : Copies P) :
    IOReturn × Copies P :=
  match answer t with
  | .moved => (.success, c.move t)
  | .refused => (.success, c)
  | .failed => (.noDevice, c)

/-- What a load or a page-off finds. -/
structure PageEnv extends SurfaceEnv where
  mapHeaders : IOReturn
  prepare : IOReturn
  gmrId : ℕ
  answer : Transfer → Dma

def PageEnv.transferEnv (e : PageEnv) : TransferEnv (Copies P) :=
  { e with surfaceDMA3DEx := surfaceDMA3DEx e.answer }

/-! ### The transfers of an image -/

section Transfers

variable (e : PageEnv) (headers : ℕ → Header) (tx : Texture)

/-- The header of an image. -/
def Texture.header (image : ℕ × ℕ) : Header := headers (tx.headerIndex image)

/-- The surface that a load goes to. -/
def Texture.hostSid : ℕ := tx.surfaceId.getD e.sid

/-- The transfer of a whole image to the host. -/
def wholeTransfer (image : ℕ × ℕ) : Transfer :=
  let h := tx.header headers image
  ⟨true, tx.hostSid e, image, 0, h.widthBytes / tx.bytespp, h.height, h.depth, e.gmrId,
    h.offsetInClient, h.pitch, 3⟩

/-- Without the last line. -/
def firstTransfer (image : ℕ × ℕ) : Transfer :=
  { wholeTransfer e headers tx image with h := sub32 (tx.header headers image).height 1 }

def lastTransfer (image : ℕ × ℕ) : Transfer :=
  let h := tx.header headers image
  { wholeTransfer e headers tx image with
    y := sub32 h.height 1
    h := 1
    offset := u64 (h.offsetInClient + sub32 h.height 1 * h.pitch)
    pitch := h.widthBytes
    suffixFlags := 2 }

/-- The last line goes on its own. -/
def Texture.Splits (image : ℕ × ℕ) : Prop :=
  tx.type = .oob ∧ (tx.header headers image).depth = 1 ∧
    tx.agpSize < (tx.header headers image).offsetInClient +
      (tx.header headers image).height * (tx.header headers image).pitch

instance (image : ℕ × ℕ) : Decidable (tx.Splits headers image) :=
  inferInstanceAs (Decidable (_ ∧ _))

/-- The image has to be loaded. -/
def Texture.Loads (image : ℕ × ℕ) : Prop :=
  (tx.header headers image).pixelsInClient ≠ 0 ∧ tx.isPagedOff image.1 image.2 = true

instance (image : ℕ × ℕ) : Decidable (tx.Loads headers image) :=
  inferInstanceAs (Decidable (_ ∧ _))

/-- The transfers that load an image. The result of the last one is looked at. -/
def loadTransfers (image : ℕ × ℕ) : List Transfer :=
  if tx.Splits headers image then
    [firstTransfer e headers tx image, lastTransfer e headers tx image]
  else [wholeTransfer e headers tx image]

def LoadFails (image : ℕ × ℕ) : Prop :=
  e.answer (if tx.Splits headers image then lastTransfer e headers tx image
    else wholeTransfer e headers tx image) = .failed

instance (image : ℕ × ℕ) : Decidable (LoadFails e headers tx image) :=
  inferInstanceAs (Decidable (_ = _))

/-- A transfer that is carried out has the line. -/
def Brings (image : ℕ × ℕ) (line : ℕ) : Prop :=
  ∃ t ∈ loadTransfers e headers tx image, e.answer t = .moved ∧ t.Covers line

instance (image : ℕ × ℕ) (line : ℕ) : Decidable (Brings e headers tx image line) :=
  inferInstanceAs (Decidable (∃ t ∈ _, _))

/-- The copies after the transfers of an image. -/
def bring (c : Copies P) (image : ℕ × ℕ) : Copies P :=
  c.sendLines image (Brings e headers tx image ·)

/-- The host surface is there or can be made. -/
def Texture.Defined : Prop :=
  e.provider = true ∧ (tx.surfaceId.isSome = true ∨ e.map = .success ∧ e.lock3D = true)

end Transfers

/-! ### The host surface -/

variable {e : PageEnv} {headers : ℕ → Header} {tx : Texture} {c : Copies P} {image : ℕ × ℕ}

theorem createHostSurface_spec (e : PageEnv) (headers : ℕ → Header) (h : tx.Sound)
    (htype : tx.type = .std ∨ tx.type = .oob) :
    ∃ rc tx' cs, createHostSurfaceForTexture e.toSurfaceEnv headers tx = .ok (rc, tx', cs) ∧
      (tx.Defined e ∧ rc = .success ∧ tx' = { tx with surfaceId := some (tx.hostSid e) } ∨
        ¬ tx.Defined e ∧ rc ≠ .success ∧ tx' = tx) := by
  have hsurface : tx.type ≠ .surface := by rcases htype with h | h <;> simp [h]
  have hb := h.bytespp htype
  unfold createHostSurfaceForTexture
  by_cases hprovider : e.provider = true
  swap
  · exact ⟨.notReady, tx, [], by simp [hprovider], .inr ⟨fun hd => hprovider hd.1, nofun, rfl⟩⟩
  rw [if_neg (by simp [hprovider]), if_neg hsurface]
  cases hsid : tx.surfaceId with
  | some sid =>
    refine ⟨.success, tx, [], rfl, .inl ⟨⟨hprovider, .inl (by simp [hsid])⟩, rfl, ?_⟩⟩
    rw [Texture.hostSid, hsid, Option.getD_some, ← hsid]
  | none =>
    obtain ⟨cmd, hcmd, -⟩ := (defineFaces_meets h hb headers e.sid (surfaceFlags tx)
      tx.surfaceFormat).exists_ok
    have hdefined : tx.Defined e ↔ e.map = .success ∧ e.lock3D = true := by
      simp [Texture.Defined, hprovider, hsid]
    rw [hdefined, Texture.hostSid, hsid, Option.getD_none]
    rcases htype with htype | htype <;> rw [htype] <;> simp only [hcmd] <;>
      by_cases hmap : e.map = .success <;> by_cases hlock : e.lock3D = true <;> simp [hmap, hlock]

/-! ### The loop of a load -/

theorem Copies.sendLines_of_false {lines : ℕ → Bool} (h : ∀ l, lines l = false) :
    c.sendLines image lines = c := by
  simp [Copies.sendLines, h]

theorem Copies.fetchLines_of_false {lines : ℕ → Bool} (h : ∀ l, lines l = false) :
    c.fetchLines image lines = c := by
  simp [Copies.fetchLines, h]

theorem Copies.sendLines_sendLines {lines more : ℕ → Bool} :
    (c.sendLines image lines).sendLines image more =
      c.sendLines image fun l => more l || lines l := by
  simp only [Copies.sendLines, Function.update_self, Function.update_idem]
  congr 2
  funext l
  by_cases hmore : more l = true <;> simp [hmore]

/-- A transfer to the host. -/
theorem surfaceDMA3DEx_write (answer : Transfer → Dma) {t : Transfer} (ht : t.write = true)
    (c : Copies P) : surfaceDMA3DEx answer t c =
      (if answer t = .failed then .noDevice else .success,
        c.sendLines t.image fun l => decide (answer t = .moved ∧ t.Covers l)) := by
  cases ha : answer t with
  | moved => simp [surfaceDMA3DEx, ha, Copies.move, ht]
  | refused => simp [surfaceDMA3DEx, ha, Copies.sendLines_of_false]
  | failed => simp [surfaceDMA3DEx, ha, Copies.sendLines_of_false]

/-- A transfer to client memory. -/
theorem surfaceDMA3DEx_read (answer : Transfer → Dma) {t : Transfer} (ht : t.write = false)
    (c : Copies P) : surfaceDMA3DEx answer t c =
      (if answer t = .failed then .noDevice else .success,
        c.fetchLines t.image fun l => decide (answer t = .moved ∧ t.Covers l)) := by
  cases ha : answer t with
  | moved => simp [surfaceDMA3DEx, ha, Copies.move, ht]
  | refused => simp [surfaceDMA3DEx, ha, Copies.fetchLines_of_false]
  | failed => simp [surfaceDMA3DEx, ha, Copies.fetchLines_of_false]

theorem sent_eq {p : Prop} [Decidable p] (c : Copies P) :
    sent (if p then IOReturn.noDevice else .success, c) =
      if p then .error (.exit .noDevice c) else .ok c := by
  by_cases hp : p <;> simp [sent, hp]

/-- One image of the loop. -/
theorem loadImage_eq (h : tx.Sound) (hb : tx.bytespp ≠ 0) (hi : image ∈ tx.images) :
    loadImage e.transferEnv headers tx (tx.hostSid e) c image =
      if tx.Loads headers image then
        if LoadFails e headers tx image then .error (.exit .noDevice (bring e headers tx c image))
        else .ok (bring e headers tx c image)
      else .ok c := by
  obtain ⟨hf, hm⟩ := mem_images.mp hi
  rw [loadImage, headerAt_eq (h.headerIndex_lt hf hm)]
  by_cases hl : tx.Loads headers image
  swap
  · rw [if_neg hl]
    refine if_pos ?_
    simpa [Texture.Loads, Texture.header, or_iff_not_imp_left] using hl
  rw [if_pos hl]
  refine (if_neg ?_).trans ?_
  · have hpixels : (headers (tx.headerIndex image)).pixelsInClient ≠ 0 := hl.1
    simp [hpixels, hl.2]
  rw [divide_eq hb]
  by_cases hs : tx.Splits headers image
  · refine (if_pos hs).trans ?_
    change sent (surfaceDMA3DEx e.answer (lastTransfer e headers tx image)
      (surfaceDMA3DEx e.answer (firstTransfer e headers tx image) c).2) = _
    have hfails : LoadFails e headers tx image ↔
        e.answer (lastTransfer e headers tx image) = .failed := by
      unfold LoadFails
      rw [if_pos hs]
    have hbring : bring e headers tx c image =
        (c.sendLines image fun l => decide (e.answer (firstTransfer e headers tx image) = .moved ∧
          (firstTransfer e headers tx image).Covers l)).sendLines image fun l =>
            decide (e.answer (lastTransfer e headers tx image) = .moved ∧
              (lastTransfer e headers tx image).Covers l) := by
      rw [Copies.sendLines_sendLines]
      simp only [bring, Brings, loadTransfers, if_pos hs, List.mem_cons, List.not_mem_nil, or_false,
        exists_eq_or_imp, exists_eq_left, Bool.decide_or, Bool.or_comm]
    rw [surfaceDMA3DEx_write e.answer (by rfl) c]
    dsimp only
    rw [surfaceDMA3DEx_write e.answer (by rfl), sent_eq, hbring]
    simp only [hfails]
    rfl
  · refine (if_neg hs).trans ?_
    change sent (surfaceDMA3DEx e.answer (wholeTransfer e headers tx image) c) = _
    have hfails : LoadFails e headers tx image ↔
        e.answer (wholeTransfer e headers tx image) = .failed := by
      unfold LoadFails
      rw [if_neg hs]
    have hbring : bring e headers tx c image = c.sendLines image fun l =>
        decide (e.answer (wholeTransfer e headers tx image) = .moved ∧
          (wholeTransfer e headers tx image).Covers l) := by
      simp only [bring, Brings, loadTransfers, if_neg hs, List.mem_singleton, exists_eq_left]
    rw [surfaceDMA3DEx_write e.answer (by rfl), sent_eq, hbring]
    simp only [hfails]
    rfl

theorem nodup_images : tx.images.Nodup := by
  rw [Texture.images, List.nodup_flatMap]
  refine ⟨fun face _ => List.nodup_range.map fun _ _ h => (Prod.mk.inj h).2, ?_⟩
  refine List.nodup_range.imp fun {a b} hab => ?_
  intro image ha hb
  simp only [List.mem_map] at ha hb
  obtain ⟨_, -, rfl⟩ := ha
  obtain ⟨_, -, heq⟩ := hb
  exact hab (Prod.mk.inj heq).1.symm

/-- Lines sent for images of a list. -/
theorem host_foldl_sendLines (lines : ℕ × ℕ → ℕ → Bool) {l : List (ℕ × ℕ)} (hl : l.Nodup)
    (c : Copies P) :
    (l.foldl (fun c i => c.sendLines i (lines i)) c).client = c.client ∧
      ∀ i line, (l.foldl (fun c i => c.sendLines i (lines i)) c).host i line =
        if i ∈ l ∧ lines i line = true then c.client i line else c.host i line := by
  induction l generalizing c with
  | nil => exact ⟨rfl, fun i line => by simp⟩
  | cons j l ih =>
    obtain ⟨hj, hl⟩ := List.nodup_cons.mp hl
    obtain ⟨hclient, hhost⟩ := ih hl (c.sendLines j (lines j))
    refine ⟨hclient, fun i line => (hhost i line).trans ?_⟩
    by_cases hij : i = j
    · subst hij
      simp [Copies.sendLines, hj]
    · simp [Copies.sendLines, hij]

/-- Lines fetched for images of a list. -/
theorem client_foldl_fetchLines (lines : ℕ × ℕ → ℕ → Bool) {l : List (ℕ × ℕ)} (hl : l.Nodup)
    (c : Copies P) :
    (l.foldl (fun c i => c.fetchLines i (lines i)) c).host = c.host ∧
      ∀ i line, (l.foldl (fun c i => c.fetchLines i (lines i)) c).client i line =
        if i ∈ l ∧ lines i line = true then c.host i line else c.client i line := by
  induction l generalizing c with
  | nil => exact ⟨rfl, fun i line => by simp⟩
  | cons j l ih =>
    obtain ⟨hj, hl⟩ := List.nodup_cons.mp hl
    obtain ⟨hhost, hclient⟩ := ih hl (c.fetchLines j (lines j))
    refine ⟨hhost, fun i line => (hclient i line).trans ?_⟩
    by_cases hij : i = j
    · subst hij
      simp [Copies.fetchLines, hj]
    · simp [Copies.fetchLines, hij]

theorem orPages_eq {dst src : ℕ → BitVec 16} {n : ℕ} (hn : n ≤ 6) :
    ∃ pages, orPages dst src n = .ok pages ∧
      ∀ face < n, pages face = dst face ||| src face := by
  suffices h : Meets (fun pages : ℕ → BitVec 16 => ∀ face,
      pages face = if face < n then dst face ||| src face else dst face) (fun _ => False)
      (orPages dst src n) by
    obtain ⟨pages, hp, hall⟩ := h.exists_ok
    exact ⟨pages, hp, fun face hf => (hall face).trans (if_pos hf)⟩
  induction n with
  | zero => exact fun face => by simp
  | succ n ih =>
    rw [orPages, List.range_succ, List.foldlM_append]
    refine (ih (by omega)).bind fun pages hp => ?_
    rw [List.foldlM_cons, pageAt_eq (show n < 6 by omega), pageAt_eq (show n < 6 by omega)]
    change ∀ face, Function.update pages n (pages n ||| src n) face = _
    intro face
    rcases eq_or_ne face n with rfl | hne
    · simp [hp]
    · rw [Function.update_of_ne hne, hp]
      have : face < n + 1 ↔ face < n := by omega
      simp only [this]

/-! ### Loads -/

section Loads

variable (e : PageEnv) (headers : ℕ → Header) (tx : Texture)

/-- A load gets as far as its transfers. -/
structure Texture.Goes : Prop where
  format : tx.surfaceFormat ≠ 0
  vstate : tx.vstate &&& 0x10 = 0
  linked : tx.type = .oob → ∃ l, tx.linkedAgp = some l ∧ l.vstate &&& 0x10 = 0
  any : tx.areAnyPagedOff = true
  headers : e.mapHeaders = .success
  defined : tx.Defined e
  prepared : e.prepare = .success

/-- The images whose transfers are begun. -/
def loadsReached : List (ℕ × ℕ) :=
  Loops.reached (tx.Loads headers) (LoadFails e headers tx) tx.images

/-- The line gets to the host. -/
def Arrives (image : ℕ × ℕ) (line : ℕ) : Prop :=
  tx.Goes e ∧ image ∈ loadsReached e headers tx ∧ Brings e headers tx image line

/-- No transfer is known to have failed. -/
def LoadFinishes : Prop :=
  tx.Goes e ∧ ∀ image ∈ tx.images, tx.Loads headers image → ¬ LoadFails e headers tx image

/-- What a load does. -/
structure Loaded (c : Copies P) (tx' : Texture) (c' : Copies P) : Prop where
  geometry : tx'.toGeometry = tx.toGeometry
  surface : tx.surfaceId.isSome = true → tx'.surfaceId.isSome = true
  pageoff : tx'.pageoff = tx.pageoff
  pageon : ∀ face < tx.numFaces, ∀ m, (tx'.pageon face).getLsbD m = true ↔
    (tx.pageon face).getLsbD m = true ∨
      LoadFinishes e headers tx ∧ (tx.pageoff face).getLsbD m = true
  client : c'.client = c.client
  arrives : ∀ image line, Arrives e headers tx image line → c'.host image line = c.client image line
  stays : ∀ image line, ¬ Arrives e headers tx image line → c'.host image line = c.host image line

end Loads

/-- A load that does not get to its transfers. -/
theorem Loaded.of_not_goes {tx' : Texture} (hgoes : ¬ tx.Goes e)
    (hgeometry : tx'.toGeometry = tx.toGeometry)
    (hsurface : tx.surfaceId.isSome = true → tx'.surfaceId.isSome = true)
    (hoff : tx'.pageoff = tx.pageoff) (hon : tx'.pageon = tx.pageon) :
    Loaded e headers tx c tx' c where
  geometry := hgeometry
  surface := hsurface
  pageoff := hoff
  pageon face _ m := by
    rw [hon]
    exact (or_iff_left fun h => hgoes h.1.1).symm
  client := rfl
  arrives _ _ h := absurd h.1 hgoes
  stays _ _ _ := rfl

/-- A loop over the images that stops at the first transfer that fails. -/
theorem leave_foldlM {selected fails : ℕ × ℕ → Prop} [DecidablePred selected]
    [DecidablePred fails] {body : Copies P → ℕ × ℕ → Except (Stop (Copies P)) (Copies P)}
    {work : Copies P → ℕ × ℕ → Copies P} {l : List (ℕ × ℕ)}
    (h : ∀ i ∈ l, ∀ c, body c i = if selected i then
      if fails i then .error (.exit .noDevice (work c i)) else .ok (work c i) else .ok c)
    (c : Copies P) :
    leave (l.foldlM body c) = .ok
      (if ∀ i ∈ l, selected i → ¬ fails i then .success else .noDevice,
        (Loops.reached selected fails l).foldl work c) := by
  by_cases hok : ∀ i ∈ l, selected i → ¬ fails i
  · rw [Loops.foldlM_of_not_fails c h hok, if_pos hok]
    rfl
  · have hbad : ∃ i ∈ l, selected i ∧ fails i := by
      push Not at hok
      exact hok
    rw [Loops.foldlM_of_fails c h hbad, if_neg hok]
    rfl

/-- The loop of a load. -/
theorem loadLoop_spec (h : tx.Sound) (hb : tx.bytespp ≠ 0) (c : Copies P) :
    ∃ c' : Copies P,
      leave (tx.images.foldlM (loadImage e.transferEnv headers tx (tx.hostSid e)) c) = .ok
        (if ∀ i ∈ tx.images, tx.Loads headers i → ¬ LoadFails e headers tx i then .success
          else .noDevice, c') ∧
      c'.client = c.client ∧
      ∀ i line, c'.host i line = if i ∈ loadsReached e headers tx ∧ Brings e headers tx i line
        then c.client i line else c.host i line := by
  have hreached : (loadsReached e headers tx).Nodup := Loops.nodup_reached nodup_images
  obtain ⟨hclient, hhost⟩ := host_foldl_sendLines
    (fun i line => decide (Brings e headers tx i line)) hreached c
  have hbody := fun i (hi : i ∈ tx.images) (c : Copies P) =>
    (loadImage_eq h hb hi : loadImage e.transferEnv headers tx (tx.hostSid e) c i = _)
  refine ⟨_, leave_foldlM hbody c, hclient, fun i line => ?_⟩
  exact (hhost i line).trans (if_congr (by rw [decide_eq_true_eq]) rfl rfl)

theorem loadImages_loaded (h : tx.Sound) (htype : tx.type = .std ∨ tx.type = .oob)
    (hgoes : tx.Defined e → e.prepare = .success → tx.Goes e) (c : Copies P) :
    Meets (fun r => Loaded e headers tx c r.2.1 r.2.2) (fun _ => False)
      (loadImages e.transferEnv headers tx c) := by
  obtain ⟨rc, tx', cs, hcreate, hcases⟩ := createHostSurface_spec e headers h htype
  have hcall : createHostSurfaceForTexture (e.transferEnv (P := P)).toSurfaceEnv headers tx =
    .ok (rc, tx', cs) := hcreate
  rw [loadImages, hcall]
  obtain ⟨hdef, rfl, rfl⟩ | ⟨hdef, hrc, rfl⟩ := hcases
  swap
  · exact Meets.ite (fun _ => .of_not_goes (fun hg => hdef hg.defined) rfl id rfl rfl)
      fun hsuccess => absurd hrc hsuccess
  refine Meets.ite (fun hfail => ?_) fun hprep => ?_
  · exact .of_not_goes (fun hg => hfail hg.prepared) rfl (fun _ => rfl) rfl rfl
  obtain ⟨c', hloop, hclient, hhost⟩ :=
    (loadLoop_spec h (h.bytespp htype) c : ∃ c', leave (tx.images.foldlM (loadImage e.transferEnv
      headers tx (tx.hostSid e)) c) = _ ∧ _)
  have hstart := hgoes hdef (not_not.mp hprep)
  have harrives : ∀ i line, Arrives e headers tx i line → c'.host i line = c.client i line :=
    fun i line ha => (hhost i line).trans (if_pos ha.2)
  have hstays : ∀ i line, ¬ Arrives e headers tx i line → c'.host i line = c.host i line :=
    fun i line ha => (hhost i line).trans (if_neg fun hb => ha ⟨hstart, hb⟩)
  -- the loop does not look at the id in the texture
  change Meets _ _ (leave (tx.images.foldlM (loadImage e.transferEnv headers tx (tx.hostSid e)) c)
    >>= _)
  rw [hloop]
  by_cases hok : ∀ i ∈ tx.images, tx.Loads headers i → ¬ LoadFails e headers tx i
  · rw [if_pos hok]
    obtain ⟨pages, hpages, hpage⟩ := (orPages_eq h.faces : ∃ pages,
      orPages tx.pageon tx.pageoff tx.numFaces = _ ∧ _)
    change Meets _ _ (orPages tx.pageon tx.pageoff tx.numFaces >>= _)
    rw [hpages]
    refine ⟨rfl, fun _ => rfl, rfl, fun face hf m => ?_, hclient, harrives, hstays⟩
    change (pages face).getLsbD m = true ↔ _
    rw [hpage face hf, BitVec.getLsbD_or, Bool.or_eq_true]
    exact or_congr_right (and_iff_right ⟨hstart, hok⟩).symm
  · rw [if_neg hok]
    refine ⟨rfl, fun _ => rfl, rfl, fun face hf m => ?_, hclient, harrives, hstays⟩
    exact (or_iff_left fun hf => hok hf.1.2).symm

/-- What `alloc_and_load_texture` does for a texture with headers. -/
theorem allocAndLoad_loaded (e : PageEnv) (headers : ℕ → Header) (h : tx.Sound)
    (htype : tx.type = .std ∨ tx.type = .oob) (c : Copies P) :
    Meets (fun r => Loaded e headers tx c r.2.1 r.2.2) (fun _ => False)
      (allocAndLoadTexture e.transferEnv headers tx c) := by
  have hsurface : tx.type ≠ .surface := by rcases htype with h | h <;> simp [h]
  unfold allocAndLoadTexture
  refine Meets.ite (fun hprovider => ?_) fun _ => Meets.ite (fun hformat => ?_) fun hformat => ?_
  · exact .of_not_goes (fun hg => hprovider hg.defined.1) rfl id rfl rfl
  · exact .of_not_goes (fun hg => hg.format hformat) rfl id rfl rfl
  refine Meets.ite (fun hs => absurd hs hsurface) fun _ => Meets.ite (fun hv => ?_) fun hv => ?_
  · exact .of_not_goes (fun hg => hv hg.vstate) rfl id rfl rfl
  have hnone : ¬ tx.areAnyPagedOff = true → Loaded e headers tx c tx c := fun hany =>
    .of_not_goes (fun hg => hany hg.any) rfl id rfl rfl
  have hload : (tx.type = .oob → ∃ l, tx.linkedAgp = some l ∧ l.vstate &&& 0x10 = 0) →
      tx.areAnyPagedOff = true → Meets (fun r => Loaded e headers tx c r.2.1 r.2.2)
        (fun _ => False) (if e.mapHeaders ≠ .success then .ok (e.mapHeaders, tx, c)
          else loadImages e.transferEnv headers tx c) := by
    intro hlinked hany
    refine Meets.ite (fun hmap => ?_) fun hmap => ?_
    · exact .of_not_goes (fun hg => hmap hg.headers) rfl id rfl rfl
    · exact loadImages_loaded h htype (fun hdef hprep => ⟨hformat, not_not.mp hv, hlinked, hany,
        not_not.mp hmap, hdef, hprep⟩) c
  split
  · next ht _ => simp [ht] at htype
  · next ht _ => simp [ht] at htype
  · next ht =>
    exact Meets.ite hnone fun hany => hload (fun hoob => by simp [ht] at hoob) (not_not.mp hany)
  · next ht hl =>
    refine Meets.ite hnone fun _ => .of_not_goes (fun hg => ?_) rfl id rfl rfl
    obtain ⟨l, hsome, -⟩ := hg.linked ht
    simp [hl] at hsome
  · next l ht hl =>
    refine Meets.ite hnone fun hany => Meets.ite (fun hlv => ?_) fun hlv => ?_
    · refine .of_not_goes (fun hg => ?_) rfl id rfl rfl
      obtain ⟨l', hsome, hzero⟩ := hg.linked ht
      cases hl.symm.trans hsome
      exact hlv hzero
    · exact hload (fun _ => ⟨l, hl, not_not.mp hlv⟩) (not_not.mp hany)
  · next hstd _ _ hnone hsome =>
    rcases htype with ht | ht
    · exact (hstd ht).elim
    · cases hl : tx.linkedAgp with
      | none => exact (hnone ht hl).elim
      | some l => exact (hsome l ht hl).elim

/-! ### Page-offs -/

section PageOffs

variable (e : PageEnv) (headers : ℕ → Header) (tx : Texture)

/-- The transfer of a whole image to client memory. -/
def readTransfer (image : ℕ × ℕ) : Transfer :=
  let h := tx.header headers image
  ⟨false, tx.hostSid e, image, 0, h.widthBytes / tx.bytespp, h.height, h.depth, e.gmrId,
    h.offsetInClient, h.pitch, 2⟩

/-- The image has to be saved. -/
def Texture.Saves (image : ℕ × ℕ) : Prop :=
  (tx.header headers image).pixelsInClient ≠ 0 ∧
    (~~~tx.pageoff image.1 &&& tx.pageon image.1).getLsbD image.2 = true

instance (image : ℕ × ℕ) : Decidable (tx.Saves headers image) :=
  inferInstanceAs (Decidable (_ ∧ _))

def SaveFails (image : ℕ × ℕ) : Prop := e.answer (readTransfer e headers tx image) = .failed

instance (image : ℕ × ℕ) : Decidable (SaveFails e headers tx image) :=
  inferInstanceAs (Decidable (_ = _))

/-- The transfer of an image is carried out and has the line. -/
def Takes (image : ℕ × ℕ) (line : ℕ) : Prop :=
  e.answer (readTransfer e headers tx image) = .moved ∧
    (readTransfer e headers tx image).Covers line

instance (image : ℕ × ℕ) (line : ℕ) : Decidable (Takes e headers tx image line) :=
  inferInstanceAs (Decidable (_ ∧ _))

/-- The copies after the transfer of an image. -/
def take (c : Copies P) (image : ℕ × ℕ) : Copies P :=
  c.fetchLines image (Takes e headers tx image ·)

/-- A page-off gets as far as its transfers. -/
structure Texture.Leaves : Prop where
  type : tx.type = .std ∨ tx.type = .oob
  vstate : tx.vstate &&& 0x11 = 0
  provider : e.provider = true
  surface : tx.surfaceId.isSome = true
  linked : tx.type = .oob → tx.linkedAgp.isSome = true
  headers : e.mapHeaders = .success
  prepared : e.prepare = .success

/-- The images whose transfers are begun. -/
def savesReached : List (ℕ × ℕ) :=
  Loops.reached (tx.Saves headers) (SaveFails e headers tx) tx.images

/-- The line gets to client memory. -/
def Returns (image : ℕ × ℕ) (line : ℕ) : Prop :=
  tx.Leaves e ∧ image ∈ savesReached e headers tx ∧ Takes e headers tx image line

/-- No transfer is known to have failed. -/
def SaveFinishes : Prop :=
  tx.Leaves e ∧ ∀ image ∈ tx.images, tx.Saves headers image → ¬ SaveFails e headers tx image

/-- What a page-off does. -/
structure Saved (c : Copies P) (tx' : Texture) (c' : Copies P) : Prop where
  geometry : tx'.toGeometry = tx.toGeometry
  surface : tx'.surfaceId = tx.surfaceId
  pageon : tx'.pageon = tx.pageon
  pageoff : ∀ face < tx.numFaces, ∀ m, (tx'.pageoff face).getLsbD m = true ↔
    (tx.pageoff face).getLsbD m = true ∨
      SaveFinishes e headers tx ∧ (tx.pageon face).getLsbD m = true
  host : c'.host = c.host
  returns : ∀ image line, Returns e headers tx image line → c'.client image line = c.host image line
  stays : ∀ image line, ¬ Returns e headers tx image line →
    c'.client image line = c.client image line

end PageOffs

/-- A page-off that does not get to its transfers. -/
theorem Saved.of_not_leaves {tx' : Texture} (hleaves : ¬ tx.Leaves e)
    (hgeometry : tx'.toGeometry = tx.toGeometry) (hsurface : tx'.surfaceId = tx.surfaceId)
    (hon : tx'.pageon = tx.pageon) (hoff : tx'.pageoff = tx.pageoff) :
    Saved e headers tx c tx' c where
  geometry := hgeometry
  surface := hsurface
  pageon := hon
  pageoff face _ m := by
    rw [hoff]
    exact (or_iff_left fun h => hleaves h.1.1).symm
  host := rfl
  returns _ _ h := absurd h.1 hleaves
  stays _ _ _ := rfl

/-- One image of the loop. -/
theorem pageoffImage_eq (h : tx.Sound) (hb : tx.bytespp ≠ 0) (hi : image ∈ tx.images) :
    pageoffImage e.transferEnv headers tx (tx.hostSid e) c image =
      if tx.Saves headers image then
        if SaveFails e headers tx image then .error (.exit .noDevice (take e headers tx c image))
        else .ok (take e headers tx c image)
      else .ok c := by
  obtain ⟨hf, hm⟩ := mem_images.mp hi
  rw [pageoffImage, headerAt_eq (h.headerIndex_lt hf hm), isPagedOn_eq (hf.trans_le h.faces)]
  by_cases hpixels : (headers (tx.headerIndex image)).pixelsInClient = 0
  · rw [if_neg fun hs => hs.1 hpixels]
    exact if_pos hpixels
  refine (if_neg hpixels).trans ?_
  by_cases hon : (~~~tx.pageoff image.1 &&& tx.pageon image.1).getLsbD image.2 = true
  swap
  · rw [if_neg fun hs => hon hs.2]
    exact if_pos hon
  have hs : tx.Saves headers image := ⟨hpixels, hon⟩
  rw [if_pos hs]
  refine (if_neg (not_not.mpr hon)).trans ?_
  rw [divide_eq hb]
  change sent (surfaceDMA3DEx e.answer (readTransfer e headers tx image) c) = _
  rw [surfaceDMA3DEx_read e.answer (by rfl), sent_eq]
  rfl

/-- The loop of a page-off. -/
theorem pageoffLoop_spec (h : tx.Sound) (hb : tx.bytespp ≠ 0) (c : Copies P) :
    ∃ c' : Copies P,
      leave (tx.images.foldlM (pageoffImage e.transferEnv headers tx (tx.hostSid e)) c) = .ok
        (if ∀ i ∈ tx.images, tx.Saves headers i → ¬ SaveFails e headers tx i then .success
          else .noDevice, c') ∧
      c'.host = c.host ∧
      ∀ i line, c'.client i line = if i ∈ savesReached e headers tx ∧ Takes e headers tx i line
        then c.host i line else c.client i line := by
  have hreached : (savesReached e headers tx).Nodup := Loops.nodup_reached nodup_images
  obtain ⟨hhost, hclient⟩ := client_foldl_fetchLines
    (fun i line => decide (Takes e headers tx i line)) hreached c
  have hbody := fun i (hi : i ∈ tx.images) (c : Copies P) =>
    (pageoffImage_eq h hb hi : pageoffImage e.transferEnv headers tx (tx.hostSid e) c i = _)
  refine ⟨_, leave_foldlM hbody c, hhost, fun i line => ?_⟩
  exact (hclient i line).trans (if_congr (by rw [decide_eq_true_eq]) rfl rfl)

/-- What `pageoffDirtyTexture` does. -/
theorem pageoffDirty_saved (e : PageEnv) (headers : ℕ → Header) (h : tx.Sound) (c : Copies P) :
    Meets (fun r => Saved e headers tx c r.2.1 r.2.2) (fun _ => False)
      (pageoffDirtyTexture e.transferEnv headers tx c) := by
  unfold pageoffDirtyTexture
  refine Meets.ite (fun hv => ?_) fun hv => Meets.ite (fun hprovider => ?_) fun hprovider => ?_
  · exact .of_not_leaves (fun hl => hv hl.vstate) rfl rfl rfl rfl
  · exact .of_not_leaves (fun hl => hprovider hl.provider) rfl rfl rfl rfl
  split
  · next hsid =>
    exact .of_not_leaves (fun hl => by simpa [hsid] using hl.surface) rfl rfl rfl rfl
  next sid hsid =>
  have hsame : tx.hostSid e = sid := by rw [Texture.hostSid, hsid, Option.getD_some]
  refine Meets.ite (fun htype => ?_) fun htype => Meets.ite (fun hlinked => ?_) fun hlinked => ?_
  · exact .of_not_leaves (fun hl => (not_or.mpr htype) hl.type) rfl rfl rfl rfl
  · refine .of_not_leaves (fun hl => ?_) rfl rfl rfl rfl
    simpa [Option.isNone_iff_eq_none.mp hlinked.2] using hl.linked hlinked.1
  refine Meets.ite (fun hmap => ?_) fun hmap => Meets.ite (fun hprep => ?_) fun hprep => ?_
  · exact .of_not_leaves (fun hl => hmap hl.headers) rfl rfl rfl rfl
  · exact .of_not_leaves (fun hl => hprep hl.prepared) rfl rfl rfl rfl
  have htype : tx.type = .std ∨ tx.type = .oob := by tauto
  have hleaves : tx.Leaves e := by
    refine ⟨htype, not_not.mp hv, not_not.mp hprovider, by simp [hsid], fun hoob => ?_,
      not_not.mp hmap, not_not.mp hprep⟩
    simpa [hoob, Option.isSome_iff_ne_none] using hlinked
  obtain ⟨c', hloop, hhost, hclient⟩ :=
    (pageoffLoop_spec h (h.bytespp htype) c : ∃ c', leave (tx.images.foldlM
      (pageoffImage e.transferEnv headers tx (tx.hostSid e)) c) = _ ∧ _)
  have hreturns : ∀ i line, Returns e headers tx i line → c'.client i line = c.host i line :=
    fun i line hr => (hclient i line).trans (if_pos hr.2)
  have hstays : ∀ i line, ¬ Returns e headers tx i line → c'.client i line = c.client i line :=
    fun i line hr => (hclient i line).trans (if_neg fun hb => hr ⟨hleaves, hb⟩)
  rw [← hsame, hloop]
  by_cases hok : ∀ i ∈ tx.images, tx.Saves headers i → ¬ SaveFails e headers tx i
  · rw [if_pos hok]
    obtain ⟨pages, hpages, hpage⟩ := (orPages_eq h.faces : ∃ pages,
      orPages tx.pageoff tx.pageon tx.numFaces = _ ∧ _)
    change Meets _ _ (orPages tx.pageoff tx.pageon tx.numFaces >>= _)
    rw [hpages]
    refine ⟨rfl, rfl, rfl, fun face hf m => ?_, hhost, hreturns, hstays⟩
    change (pages face).getLsbD m = true ↔ _
    rw [hpage face hf, BitVec.getLsbD_or, Bool.or_eq_true]
    exact or_congr_right (and_iff_right ⟨hleaves, hok⟩).symm
  · rw [if_neg hok]
    refine ⟨rfl, rfl, rfl, fun face hf m => ?_, hhost, hreturns, hstays⟩
    exact (or_iff_left fun hf => hok hf.1.2).symm

end Cesvga2.Textures
