import Cesvga2.Textures.Coherence

/-! Draw FBOs. Binding one loads its textures and marks the images to render to as being on the host
alone, releasing one marks them again, and so does every submission that renders. Over any sequence
of such operations, loads, page-offs and edits the page bits keep their meaning exactly if no
operation loses a line. -/

namespace Cesvga2.Textures.FBO

/-- `m_fbo[0]` and `m_txs[17]`, `m_txs[18]` of a GL context, each texture with its image. -/
structure DrawFBO (τ : Type) where
  bound : Bool
  slot : Fin 2 → Option (τ × (ℕ × ℕ))

structure World (τ κ P : Type) where
  held : τ → Held P
  fbo : κ → DrawFBO τ

def sanitizeFace (face : ℕ) : ℕ := if 6 ≤ face then 0 else face

def sanitizeMipmap (mipmap : ℕ) : ℕ := if 12 ≤ mipmap then 0 else mipmap

/-- The first two words of an attachment in the token, and what its load finds. -/
structure Attachment where
  id : ℕ
  word : ℕ
  env : AttachEnv

/-- Both arguments are passed as `uint8_t`. -/
def Attachment.image (a : Attachment) : ℕ × ℕ :=
  (sanitizeFace ((a.word >>> 24) % 256), sanitizeMipmap ((a.word >>> 18) % 256))

structure BindToken (τ : Type) where
  /-- `IOMalloc` of the descriptor, if there is none yet. -/
  allocated : Bool
  count : ℕ
  attachments : Fin 2 → Attachment
  findTextureBuffer : ℕ → Option τ

/-- The steps of binding and unbinding. -/
inductive Step (τ κ : Type) where
  | release (c : κ) (k : Fin 2)
  | allocate (c : κ)
  | free (c : κ)
  | attach (c : κ) (k : Fin 2) (t : τ) (a : Attachment)

inductive Op (τ κ P : Type) where
  | load (t : τ) (format : ℕ) (e : PageEnv) (inUse : Bool) (data : Option TexData)
  | bindDrawFBO (c : κ) (token : BindToken τ)
  | unbindDrawFBO (c : κ)
  /-- A command buffer that renders; `touch` is bit 1 of the result of `processCommandBuffer`. -/
  | submit (c : κ) (draw : τ → ℕ × ℕ → ℕ → P → P) (touch : Bool)
  | pageOff (t : τ) (image : ℕ × ℕ) (e : PageEnv)
  | edit (t : τ) (image : ℕ × ℕ) (contents : ℕ → P)

section Steps

variable {τ κ : Type}

/-- The attachments in turn, up to one whose texture is not found. -/
def attachSteps (find : ℕ → Option τ) (c : κ) : List (Fin 2 × Attachment) → List (Step τ κ)
  | [] => []
  | (k, a) :: rest =>
    if a.id = 0xFFFFFFFF then attachSteps find c rest
    else
      match find a.id with
      | none => []
      | some t => .attach c k t a :: attachSteps find c rest

/-- `process_token_BindDrawFBO`. -/
def bindSteps (bound : Bool) (c : κ) (token : BindToken τ) : List (Step τ κ) :=
  let attachments := ((List.finRange 2).take token.count).map fun k => (k, token.attachments k)
  if bound then
    .release c 0 :: .release c 1 :: attachSteps token.findTextureBuffer c attachments
  else if token.allocated then .allocate c :: attachSteps token.findTextureBuffer c attachments
  else []

/-- `process_token_UnbindDrawFBO`. -/
def unbindSteps (bound : Bool) (c : κ) : List (Step τ κ) :=
  if bound then [.release c 0, .release c 1, .free c] else []

end Steps

namespace World

variable {τ κ P : Type}

section Bits

variable (headers : τ → ℕ → Header) (w : World τ κ P)

/-- The page bits of all textures have their meaning. -/
def Coherent : Prop := ∀ t, (w.held t).Coherent (headers t)

/-- All textures are sound and the page bits have their meaning. -/
structure Inv : Prop where
  sound : ∀ t, (w.held t).tx.Sound
  coherent : w.Coherent headers

/-- The host copy of some texture lacks newest contents. -/
structure Stale : Prop where
  sound : ∀ t, (w.held t).tx.Sound
  stale : ∃ t, (w.held t).Stale (headers t)

variable {headers w} in
theorem Stale.not_coherent (h : w.Stale headers) : ¬ w.Coherent headers := by
  obtain ⟨t, hstale⟩ := h.stale
  exact fun hc => hstale.not_coherent (hc t)

end Bits

variable [DecidableEq τ] [DecidableEq κ] (headers : τ → ℕ → Header) (w : World τ κ P)

def setHeld (t : τ) (s : Held P) : World τ κ P := { w with held := Function.update w.held t s }

def setFbo (c : κ) (f : DrawFBO τ) : World τ κ P := { w with fbo := Function.update w.fbo c f }

def setSlot (c : κ) (k : Fin 2) (o : Option (τ × (ℕ × ℕ))) : World τ κ P :=
  w.setFbo c { w.fbo c with slot := Function.update (w.fbo c).slot k o }

/-- `dirtyTexture` of an attachment. -/
def dirtySlot (c : κ) (k : Fin 2) : World τ κ P :=
  match (w.fbo c).slot k with
  | none => w
  | some (t, image) => w.setHeld t ((w.held t).dirty image)

def step : Step τ κ → World τ κ P
  | .release c k => (w.dirtySlot c k).setSlot c k none
  | .allocate c => w.setFbo c { w.fbo c with bound := true }
  | .free c => w.setFbo c { w.fbo c with bound := false }
  | .attach c k t a =>
    (w.setHeld t ((w.held t).attach (headers t) k a.image a.env)).setSlot c k (some (t, a.image))

/-- The image is rendered to. -/
def Targets (c : κ) (t : τ) (image : ℕ × ℕ) : Prop :=
  (w.fbo c).bound = true ∧ ∃ k, (w.fbo c).slot k = some (t, image)

instance (c : κ) (t : τ) (image : ℕ × ℕ) : Decidable (w.Targets c t image) :=
  inferInstanceAs (Decidable (_ ∧ _))

/-- Rendering reaches the images of the draw FBO that have a host surface. -/
def rendered (c : κ) (draw : τ → ℕ × ℕ → ℕ → P → P) (t : τ) (image : ℕ × ℕ) (line : ℕ) : P → P :=
  if w.Targets c t image ∧ (w.held t).tx.surfaceId.isSome = true then draw t image line else id

def submit (c : κ) (draw : τ → ℕ × ℕ → ℕ → P → P) : World τ κ P :=
  { w with held := fun t => (w.held t).render (w.rendered c draw t) }

def touchDrawFBO (c : κ) : World τ κ P := (w.dirtySlot c 0).dirtySlot c 1

def exec : Op τ κ P → World τ κ P
  | .load t format e inUse data => w.setHeld t ((w.held t).load (headers t) format e inUse data)
  | .bindDrawFBO c token => (bindSteps (w.fbo c).bound c token).foldl (step headers) w
  | .unbindDrawFBO c => (unbindSteps (w.fbo c).bound c).foldl (step headers) w
  | .submit c draw touch =>
    if touch ∧ (w.fbo c).bound then (w.submit c draw).touchDrawFBO c else w.submit c draw
  | .pageOff t image e => w.setHeld t ((w.held t).pageOff (headers t) image e)
  | .edit t image contents => w.setHeld t ((w.held t).edit image contents)

/-! ### When the bits keep their meaning -/

/-- The condition of a step. -/
def StepKeeps : Step τ κ → Prop
  | .release c k => ∀ t image, (w.fbo c).slot k = some (t, image) →
    (w.held t).Current (headers t) image
  | .allocate _ => True
  | .free _ => True
  | .attach _ k t a => (w.held t).Attaches (headers t) a.image k a.env

/-- What is rendered starts from the newest contents if the images are marked afterwards. If they
are not, then client memory must not count as current, or nothing changes. -/
def SubmitKeeps (c : κ) (draw : τ → ℕ × ℕ → ℕ → P → P) (touch : Bool) : Prop :=
  ∀ t image line, w.Targets c t image → (w.held t).tx.InClient (headers t) image line →
    if touch then
      w.rendered c draw t image line ((w.held t).copies.host image line) =
        w.rendered c draw t image line ((w.held t).newest image line)
    else (w.held t).tx.off image →
      w.rendered c draw t image line ((w.held t).newest image line) =
        (w.held t).newest image line

def Keeps : Op τ κ P → Prop
  | .load t format e inUse _ => ((w.held t).withFormat format).LoadsAll (headers t) e inUse
  | .bindDrawFBO c token =>
    Runs.Each (step headers) (StepKeeps headers) w (bindSteps (w.fbo c).bound c token)
  | .unbindDrawFBO c =>
    Runs.Each (step headers) (StepKeeps headers) w (unbindSteps (w.fbo c).bound c)
  | .submit c draw touch => w.SubmitKeeps headers c draw touch
  | .pageOff t image e => (w.held t).SavesAll (headers t) e image
  | .edit _ _ _ => True

/-! ### One texture of many -/

section Held

variable {headers w} {c : κ} {k : Fin 2} {t u : τ} {image : ℕ × ℕ} {line : ℕ}

omit [DecidableEq τ] in
theorem Inv.setFbo (h : w.Inv headers) (f : DrawFBO τ) : (w.setFbo c f).Inv headers := ⟨h.1, h.2⟩

omit [DecidableEq τ] in
theorem Stale.setFbo (h : w.Stale headers) (f : DrawFBO τ) : (w.setFbo c f).Stale headers :=
  ⟨h.1, h.2⟩

variable {s : Held P}

omit [DecidableEq κ] in
@[simp] theorem held_setHeld_self : (w.setHeld t s).held t = s := Function.update_self ..

omit [DecidableEq κ] in
@[simp] theorem held_setHeld_of_ne (h : u ≠ t) : (w.setHeld t s).held u = w.held u :=
  Function.update_of_ne h ..

omit [DecidableEq κ] in
theorem sound_setHeld (h : ∀ t, (w.held t).tx.Sound)
    (hg : s.tx.toGeometry = (w.held t).tx.toGeometry) (u : τ) :
    ((w.setHeld t s).held u).tx.Sound := by
  rcases eq_or_ne u t with rfl | hne
  · simpa [hg] using h u
  · simpa [hne] using h u

omit [DecidableEq κ] in
theorem Inv.setHeld (h : w.Inv headers) (hg : s.tx.toGeometry = (w.held t).tx.toGeometry)
    (hc : s.Coherent (headers t)) : (w.setHeld t s).Inv headers := by
  refine ⟨sound_setHeld h.sound hg, fun u => ?_⟩
  rcases eq_or_ne u t with rfl | hne
  · simpa using hc
  · simpa [hne] using h.coherent u

omit [DecidableEq κ] in
theorem stale_setHeld (h : ∀ t, (w.held t).tx.Sound)
    (hg : s.tx.toGeometry = (w.held t).tx.toGeometry) (hs : s.Stale (headers t)) :
    (w.setHeld t s).Stale headers :=
  ⟨sound_setHeld h hg, t, by simpa using hs⟩

omit [DecidableEq κ] in
theorem Stale.setHeld (h : w.Stale headers) (hg : s.tx.toGeometry = (w.held t).tx.toGeometry)
    (hs : (w.held t).Stale (headers t) → s.Stale (headers t)) : (w.setHeld t s).Stale headers := by
  refine ⟨sound_setHeld h.sound hg, ?_⟩
  obtain ⟨u, hu⟩ := h.stale
  refine ⟨u, ?_⟩
  rcases eq_or_ne u t with rfl | hne
  · simpa using hs hu
  · simpa [hne] using hu

omit [DecidableEq κ] in
theorem not_coherent_setHeld (h : ¬ s.Coherent (headers t)) :
    ¬ (w.setHeld t s).Coherent headers := by
  intro hc
  have ht := hc t
  rw [held_setHeld_self] at ht
  exact h ht

/-! ### Binding and unbinding -/

theorem Inv.step (h : w.Inv headers) {a : Step τ κ} (ha : w.StepKeeps headers a) :
    (w.step headers a).Inv headers := by
  cases a with
  | release c k =>
    refine Inv.setFbo ?_ _
    unfold dirtySlot
    split
    · exact h
    · next t image hslot =>
      exact h.setHeld Texture.geometry_dirtyTexture
        ((h.coherent t).dirty (h.sound t) (ha t image hslot))
  | allocate c => exact h.setFbo _
  | free c => exact h.setFbo _
  | attach c k t a =>
    exact Inv.setFbo (h.setHeld (Held.attach_geometry (h.sound t))
      ((h.coherent t).attach (h.sound t) ha)) _

theorem Inv.stale_step (h : w.Inv headers) {a : Step τ κ} (ha : ¬ w.StepKeeps headers a) :
    (w.step headers a).Stale headers := by
  cases a with
  | release c k =>
    simp only [StepKeeps, not_forall] at ha
    obtain ⟨t, image, hslot, hcurrent⟩ := ha
    refine Stale.setFbo ?_ _
    rw [dirtySlot, hslot]
    exact stale_setHeld h.sound Texture.geometry_dirtyTexture
      (Held.stale_dirty (h.sound t) hcurrent)
  | allocate c => exact absurd trivial ha
  | free c => exact absurd trivial ha
  | attach c k t a =>
    exact Stale.setFbo (stale_setHeld h.sound (Held.attach_geometry (h.sound t))
      ((h.coherent t).stale_attach (h.sound t) ha)) _

theorem Stale.step (h : w.Stale headers) (a : Step τ κ) : (w.step headers a).Stale headers := by
  cases a with
  | release c k =>
    refine Stale.setFbo ?_ _
    unfold dirtySlot
    split
    · exact h
    · next t image _ => exact h.setHeld Texture.geometry_dirtyTexture fun hs => hs.dirty (h.sound t)
  | allocate c => exact h.setFbo _
  | free c => exact h.setFbo _
  | attach c k t a =>
    exact Stale.setFbo (h.setHeld (Held.attach_geometry (h.sound t))
      fun hs => hs.attach (h.sound t)) _

/-- Damage done by a step of binding or unbinding stays. -/
theorem Inv.steps_iff (h : w.Inv headers) (l : List (Step τ κ)) :
    (l.foldl (World.step headers) w).Coherent headers ↔
      Runs.Each (World.step headers) (StepKeeps headers) w l :=
  Runs.foldl_iff_each h (fun _ h => h.coherent) (fun _ h => h.not_coherent)
    (fun _ _ h ha => h.step ha) (fun _ _ h ha => h.stale_step ha) (fun _ a h => h.step a)

/-! ### Rendering -/

omit [DecidableEq κ] in
theorem dirtySlot_none (h : (w.fbo c).slot k = none) : w.dirtySlot c k = w := by
  rw [dirtySlot, h]

omit [DecidableEq κ] in
theorem dirtySlot_some (h : (w.fbo c).slot k = some (t, image)) :
    w.dirtySlot c k = w.setHeld t ((w.held t).dirty image) := by
  rw [dirtySlot, h]

omit [DecidableEq κ] in
theorem fbo_dirtySlot : (w.dirtySlot c k).fbo = w.fbo := by
  cases h : (w.fbo c).slot k with
  | none => rw [dirtySlot_none h]
  | some p => rw [dirtySlot_some h, setHeld]

/-- A texture with other bits. -/
structure Marked (s s' : Held P) : Prop where
  geometry : s'.tx.toGeometry = s.tx.toGeometry
  copies : s'.copies = s.copies
  newest : s'.newest = s.newest

omit [DecidableEq κ] in
theorem marked_dirtySlot (w : World τ κ P) (c : κ) (k : Fin 2) (u : τ) :
    Marked (w.held u) ((w.dirtySlot c k).held u) := by
  cases h : (w.fbo c).slot k with
  | none =>
    rw [dirtySlot_none h]
    exact ⟨rfl, rfl, rfl⟩
  | some p =>
    rw [dirtySlot_some h]
    rcases eq_or_ne u p.1 with rfl | hne
    · rw [held_setHeld_self]
      exact ⟨Texture.geometry_dirtyTexture, rfl, rfl⟩
    · rw [held_setHeld_of_ne hne]
      exact ⟨rfl, rfl, rfl⟩

omit [DecidableEq κ] in
theorem bits_dirtySlot (c : κ) (k : Fin 2) (hs : (w.held u).tx.Sound)
    (hin : (w.held u).tx.InClient (headers u) image line) :
    (((w.dirtySlot c k).held u).tx.on image ↔
      (w.held u).tx.on image ∨ (w.fbo c).slot k = some (u, image)) ∧
    (((w.dirtySlot c k).held u).tx.off image ↔
      (w.held u).tx.off image ∧ (w.fbo c).slot k ≠ some (u, image)) := by
  cases h : (w.fbo c).slot k with
  | none =>
    rw [dirtySlot_none h]
    simp
  | some p =>
    obtain ⟨t, i⟩ := p
    rw [dirtySlot_some h]
    rcases eq_or_ne u t with rfl | hne
    · rw [held_setHeld_self, Held.dirty, hin.on_dirtyTexture hs, hin.off_dirtyTexture hs]
      simp [eq_comm]
    · rw [held_setHeld_of_ne hne]
      simp [hne.symm]

omit [DecidableEq κ] in
/-- The bits after a submission. -/
theorem bits_touchDrawFBO (hs : (w.held u).tx.Sound) (hb : (w.fbo c).bound = true)
    (hin : (w.held u).tx.InClient (headers u) image line) :
    (((w.touchDrawFBO c).held u).tx.on image ↔
      (w.held u).tx.on image ∨ w.Targets c u image) ∧
    (((w.touchDrawFBO c).held u).tx.off image ↔
      (w.held u).tx.off image ∧ ¬ w.Targets c u image) := by
  have hg := (marked_dirtySlot w c 0 u).geometry
  have hfirst := bits_dirtySlot c 0 hs hin
  have hsecond := bits_dirtySlot c 1 (hg ▸ hs) (hin.congr hg)
  rw [fbo_dirtySlot] at hsecond
  rw [touchDrawFBO, hsecond.1, hsecond.2, hfirst.1, hfirst.2]
  simp only [Targets, hb, true_and, Fin.exists_fin_two, or_assoc, and_assoc, not_or, ne_eq,
    and_self]

omit [DecidableEq κ] in
theorem marked_touchDrawFBO (w : World τ κ P) (c : κ) (u : τ) :
    Marked (w.held u) ((w.touchDrawFBO c).held u) :=
  have hfirst := marked_dirtySlot w c 0 u
  have hsecond := marked_dirtySlot (w.dirtySlot c 0) c 1 u
  ⟨hsecond.geometry.trans hfirst.geometry, hsecond.copies.trans hfirst.copies,
    hsecond.newest.trans hfirst.newest⟩

section Submit

variable {draw : τ → ℕ × ℕ → ℕ → P → P} {touch : Bool}

theorem marked_submit (headers : τ → ℕ → Header) (w : World τ κ P) (c : κ)
    (draw : τ → ℕ × ℕ → ℕ → P → P) (touch : Bool) (u : τ) :
    Marked ((w.held u).render (w.rendered c draw u))
      ((w.exec headers (.submit c draw touch)).held u) := by
  rw [exec]
  split_ifs
  · exact marked_touchDrawFBO (w.submit c draw) c u
  · exact ⟨rfl, rfl, rfl⟩

theorem bits_submit (draw : τ → ℕ × ℕ → ℕ → P → P) (touch : Bool) (c : κ)
    (hs : (w.held u).tx.Sound) (hin : (w.held u).tx.InClient (headers u) image line) :
    (((w.exec headers (.submit c draw touch)).held u).tx.on image ↔
      (w.held u).tx.on image ∨ touch = true ∧ w.Targets c u image) ∧
    (((w.exec headers (.submit c draw touch)).held u).tx.off image ↔
      (w.held u).tx.off image ∧ ¬ (touch = true ∧ w.Targets c u image)) := by
  rw [exec]
  split_ifs with h
  · have hbits := bits_touchDrawFBO (w := w.submit c draw) hs h.2 hin
    rw [and_iff_right h.1]
    exact hbits
  · have hnot : ¬ (touch = true ∧ w.Targets c u image) := fun ht => h ⟨ht.1, ht.2.1⟩
    exact ⟨(or_iff_left hnot).symm, (and_iff_left hnot).symm⟩

omit [DecidableEq κ] in
theorem rendered_of_not_targets (h : ¬ w.Targets c u image) :
    w.rendered c draw u image line = id := if_neg fun ht => h ht.1

theorem Inv.submit (h : w.Inv headers) (hkeeps : w.SubmitKeeps headers c draw touch) :
    (w.exec headers (.submit c draw touch)).Inv headers := by
  have hmarked := marked_submit headers w c draw touch
  refine ⟨fun t => by rw [(hmarked t).geometry]; exact h.sound t, fun t => ⟨?_, ?_⟩⟩
  all_goals
    intro image line hin hbit
    replace hin : (w.held t).tx.InClient (headers t) image line :=
      hin.congr (hmarked t).geometry.symm
    have hbits := bits_submit draw touch c (h.sound t) hin
    rw [(hmarked t).copies, (hmarked t).newest]
  · change w.rendered c draw t image line _ = w.rendered c draw t image line _
    rcases hbits.1.mp hbit with hon | ⟨htouch, htargets⟩
    · rw [(h.coherent t).host image line hin hon]
    · simpa [htouch] using hkeeps t image line htargets hin
  · change (w.held t).copies.client image line = w.rendered c draw t image line _
    obtain ⟨hoff, hnot⟩ := hbits.2.mp hbit
    rw [(h.coherent t).client image line hin hoff]
    by_cases htargets : w.Targets c t image
    · have htouch : touch = false := by simpa [htargets] using hnot
      have hkeep := hkeeps t image line htargets hin
      rw [htouch] at hkeep
      exact (hkeep hoff).symm
    · rw [rendered_of_not_targets htargets, id]

theorem Inv.not_coherent_submit (h : w.Inv headers)
    (hlost : ¬ w.SubmitKeeps headers c draw touch) :
    ¬ (w.exec headers (.submit c draw touch)).Coherent headers := by
  simp only [SubmitKeeps, not_forall] at hlost
  obtain ⟨t, image, line, htargets, hin, hlost⟩ := hlost
  have hmarked := marked_submit headers w c draw touch t
  have hbits := bits_submit draw touch c (h.sound t) hin
  intro hc
  cases touch with
  | true =>
    have hhost := (hc t).host image line (hin.congr hmarked.geometry)
      (hbits.1.mpr (.inr ⟨rfl, htargets⟩))
    rw [hmarked.copies, hmarked.newest] at hhost
    exact hlost hhost
  | false =>
    refine hlost fun hoff => ?_
    have hclient := (hc t).client image line (hin.congr hmarked.geometry)
      (hbits.2.mpr ⟨hoff, nofun⟩)
    rw [hmarked.copies, hmarked.newest] at hclient
    exact hclient.symm.trans ((h.coherent t).client image line hin hoff)

end Submit

/-! ### Whole runs -/

theorem Inv.exec (h : w.Inv headers) {a : Op τ κ P} (ha : w.Keeps headers a) :
    (w.exec headers a).Inv headers := by
  cases a with
  | load t format e inUse data =>
    exact h.setHeld (Held.load_geometry (h.sound t)) ((h.coherent t).load (h.sound t) ha)
  | bindDrawFBO c token => exact Runs.foldl_of_each h (fun _ _ h ha => h.step ha) ha
  | unbindDrawFBO c => exact Runs.foldl_of_each h (fun _ _ h ha => h.step ha) ha
  | submit c draw touch => exact h.submit ha
  | pageOff t image e =>
    exact h.setHeld (Held.pageOff_geometry (h.sound t)) ((h.coherent t).pageOff (h.sound t) ha)
  | edit t image contents => exact h.setHeld rfl ((h.coherent t).edit (h.sound t))

theorem Inv.not_coherent_exec (h : w.Inv headers) {a : Op τ κ P} (ha : ¬ w.Keeps headers a) :
    ¬ (w.exec headers a).Coherent headers := by
  cases a with
  | load t format e inUse data =>
    exact not_coherent_setHeld ((h.coherent t).stale_load (h.sound t) ha).not_coherent
  | bindDrawFBO c token => exact fun hc => ha ((h.steps_iff _).mp hc)
  | unbindDrawFBO c => exact fun hc => ha ((h.steps_iff _).mp hc)
  | submit c draw touch => exact h.not_coherent_submit ha
  | pageOff t image e =>
    exact not_coherent_setHeld ((h.coherent t).not_coherent_pageOff (h.sound t) ha)
  | edit t image contents => exact absurd trivial ha

/-- The page bits have their meaning all along a run exactly if every operation keeps it. -/
theorem pages_coherent_iff (hs : ∀ t, (w.held t).tx.Sound) (hc : w.Coherent headers)
    (ops : List (Op τ κ P)) :
    Runs.Always (World.exec headers) (Coherent headers) w ops ↔
      Runs.Each (World.exec headers) (Keeps headers) w ops :=
  Runs.always_iff_each (⟨hs, hc⟩ : w.Inv headers) (fun _ h => h.coherent)
    (fun _ _ h ha => h.exec ha) (fun _ _ h ha => h.not_coherent_exec ha)

end Held

end World

/-- Every header describes an image of one pixel. -/
def pixelHeaders : Unit → ℕ → Header := fun _ _ => ⟨1, 0x900, 4, 1, 4, 1⟩

/-- One context and one texture of one image, which no one has written yet. -/
def pixelWorld : World Unit Unit ℕ where
  held _ := ⟨⟨⟨.std, 1, 1, 0, 4⟩, 1, 1, 1, 4, 0, 0, none, none, none, 0, fun _ => 0, fun _ => 0⟩,
    ⟨fun _ _ => 0, fun _ _ => 0⟩, fun _ _ => 0⟩
  fbo _ := ⟨false, fun _ => none⟩

/-- The client edits the image and then has it bound; `prepare` is the result for its buffer. -/
def editAndBind (prepare : IOReturn) : List (Op Unit Unit ℕ) :=
  let e : SurfaceEnv := ⟨true, 1, 2, false, true, .success⟩
  [.edit () (0, 0) fun _ => 1,
    .bindDrawFBO () ⟨true, 1,
      fun _ => ⟨0, 0, ⟨true, ⟨e, .success, prepare, 0, fun _ => .moved⟩, e⟩⟩, fun _ => some ()⟩]

/-- The load of the attachment fails, which no one notices, and yet the image is marked as being on
the host alone. -/
theorem not_pages_coherent :
    ¬ Runs.Always (World.exec pixelHeaders) (World.Coherent pixelHeaders) pixelWorld
      (editAndBind .noMemory) := by
  intro h
  have hhost := (h _ (List.prefix_refl _) ()).host (0, 0) 0
    ⟨.inl rfl, by decide +kernel, by decide +kernel, by decide +kernel⟩ (by decide +kernel)
  revert hhost
  decide +kernel

theorem pages_coherent_editAndBind :
    Runs.Always (World.exec pixelHeaders) (World.Coherent pixelHeaders) pixelWorld
      (editAndBind .success) := by
  have hsound : ∀ t, (pixelWorld.held t).tx.Sound := fun t =>
    ⟨show 1 ≤ 6 by decide, show 0 + 1 ≤ 12 by decide, fun _ => show 4 ≠ 0 by decide⟩
  have hcoherent : pixelWorld.Coherent pixelHeaders := fun _ =>
    ⟨fun _ _ _ _ => rfl, fun _ _ _ _ => rfl⟩
  refine (World.pages_coherent_iff hsound hcoherent _).mpr ?_
  refine Runs.each_cons.mpr ⟨trivial, Runs.each_cons.mpr ⟨?_, Runs.each_nil⟩⟩
  refine Runs.each_cons.mpr ⟨trivial, Runs.each_cons.mpr ⟨?_, Runs.each_nil⟩⟩
  have himage : ∀ image : ℕ × ℕ, image ∈ (pixelWorld.held ()).tx.images → image = (0, 0) := by
    decide +kernel
  refine ⟨fun _ image line hin _ => .inl ?_, fun line hin => .inl ?_⟩
  on_goal 1 => obtain rfl := himage image hin.mem
  all_goals
    obtain rfl : line = 0 := Nat.lt_one_iff.mp hin.line
    exact ⟨rfl, ⟨by decide +kernel, by decide +kernel, nofun, by decide +kernel, rfl,
      ⟨rfl, .inr ⟨rfl, rfl⟩⟩, rfl⟩, by decide +kernel, by decide +kernel⟩

end Cesvga2.Textures.FBO
