import Cesvga2.Surface.Video

/-! What the device is told of a frame. The registers of a stream are written when it is enabled;
the flushes that follow leave them alone, so they tell the frame of that first flush. -/

namespace Cesvga2.Surface

theorem ofInt32_toInt_inj {a b : Int16} (h : ofInt32 a.toInt = ofInt32 b.toInt) : a = b := by
  have ha := a.toInt_lt
  have ha' := a.le_toInt
  have hb := b.toInt_lt
  have hb' := b.le_toInt
  unfold ofInt32 at h
  exact Int16.toInt.inj (by omega)

/-- The registers tell one frame only. -/
theorem Tells.unique {unit : OverlayUnit} {f g : Frame} (hf : Tells unit f) (hg : Tells unit g) :
    f = g := by
  cases f
  cases g
  simp only [Frame.mk.injEq]
  exact ⟨hf.dataOffset.symm.trans hg.dataOffset, hf.dataGMRID.symm.trans hg.dataGMRID,
    ofInt32_toInt_inj (hf.width.symm.trans hg.width),
    ofInt32_toInt_inj (hf.height.symm.trans hg.height), hf.pitch1.symm.trans hg.pitch1⟩

namespace Streams

variable {ι : Type*} [DecidableEq ι] {s : Streams ι} {i : ι}

/-- Every enabled surface has a stream of its own, whose registers tell the frame at the flush
that enabled it. -/
structure Told (v : View ι) : Prop where
  placed : Bits.Placed v.mask v.on v.streamId
  tells : ∀ i k, v.on i = true → v.streamId i = some k → Tells (v.regs k) (v.shown i)

omit [DecidableEq ι] in
theorem told_init (noYUV : Bool) (regs : ℕ → OverlayUnit) (surfs : ι → Surf) :
    Told (init noYUV regs surfs).view where
  placed := (exact_init noYUV regs surfs).toPlaced
  tells _ _ h := absurd h (by simp [view, on, init, Overlay.enabled])

theorem Told.moves {v w : View ι} (h : Told v) (hmoves : Moves v w) : Told w := by
  cases hmoves with
  | keep hmask hon hid hshown hregs =>
    refine ⟨?_, fun i k hi hk => ?_⟩
    · rw [hmask, hon]
      exact h.placed.of_le (fun _ => id) hid
    · rw [hon] at hi
      rw [hshown]
      exact hregs k _ (h.tells i k hi ((hid i hi).symm.trans hk))
  | start i k f hoff hk hmask hon hid hshown htells hregs =>
    refine ⟨?_, fun j l hj hl => ?_⟩
    · rw [hmask, hon, hid]
      exact h.placed.set hk
    · rw [hon] at hj
      rw [hid] at hl
      rw [hshown]
      by_cases hji : j = i
      · subst hji
        rw [Function.update_self] at hl
        cases hl
        rwa [Function.update_self]
      · -- the other streams are not the new one, which was free
        rw [Function.update_of_ne hji] at hj hl
        have hlk : l ≠ k := by
          rintro rfl
          exact h.placed.ne_of_clear hj hk.clear hl
        rw [Function.update_of_ne hji, hregs l hlk]
        exact h.tells j l hj hl
  | stop i k hi hk hmask hon hid hshown hregs =>
    refine ⟨?_, fun j l hj hl => ?_⟩
    · rw [hmask, hon, hid]
      exact h.placed.clear hi hk
    · rw [hon] at hj
      rw [hid, Function.update_of_ne (Bits.ne_of_update_false hj)] at hl
      rw [hshown]
      exact hregs l _ (h.tells j l (Bits.on_of_update_false hj) hl)

theorem Told.exec (h : Told s.view) (a : VideoAct ι) : Told (s.exec a).view := by
  by_cases ha : s.Restarts a
  · obtain ⟨i, hon, hview⟩ := view_restart ha
    rw [hview]
    refine ⟨h.placed.of_le (fun j => Bits.on_of_update_false) fun _ _ => rfl, fun j k hj hk => ?_⟩
    exact h.tells j k (Bits.on_of_update_false hj) hk
  · exact h.moves (moves_exec h.placed ha)

/-- A flush that returns success and leaves the stream enabled leaves registers that tell the
surface's frame. -/
def Fresh (s : Streams ι) : VideoAct ι → Prop
  | .flushVideo i =>
    (s.flushVideo i).1 = .success → (s.flushVideo i).2.on i = true →
      ∃ k, (s.flushVideo i).2.streamId i = some k ∧
        Tells ((s.flushVideo i).2.regs k) ((s.flushVideo i).2.overlays i).surf.frame
  | _ => True

/-- The surface can be flushed, and its stream is enabled already. -/
def Plays (s : Streams ι) (i : ι) : Prop :=
  (s.overlays i).surf.lastRegion.isSome ∧ (s.overlays i).surf.haveID ∧
    (s.overlays i).surf.isBackingValid ∧ (s.overlays i).surf.videoMode ∧ s.on i = true

/-- A surface is flushed again with the backing, source and pitch of the flush that enabled its
stream. -/
def Unchanged (s : Streams ι) : VideoAct ι → Prop
  | .flushVideo i => s.Plays i → (s.overlays i).surf.frame = s.shown i
  | _ => True

/-- A stream that was enabled before is flushed as it is. -/
theorem flushVideo_of_plays (h : s.Plays i) : s.flushVideo i = (.success, s) := by
  obtain ⟨hregion, hid, hvalid, hmode, hon⟩ := h
  obtain ⟨r, hr⟩ := Option.isSome_iff_exists.mp hregion
  simp only [flushVideo, hr]
  rw [if_neg (not_not.mpr ⟨hid, hvalid⟩), if_neg (not_not.mpr hmode),
    if_pos (show (s.overlays i).enabled = true from hon)]

/-- Any other flush that returns success enables the stream. -/
theorem flushVideo_of_not_plays (h : ¬ s.Plays i) (hrc : (s.flushVideo i).1 = .success) :
    ∃ r, s.flushVideo i = s.startVideo i r := by
  simp only [flushVideo] at hrc ⊢
  split at hrc
  · cases hrc
  · rename_i r hr
    by_cases hready : (s.overlays i).surf.haveID ∧ (s.overlays i).surf.isBackingValid
    · by_cases hmode : (s.overlays i).surf.videoMode
      · have hoff : ¬ (s.overlays i).enabled = true := fun hon =>
          h ⟨Option.isSome_iff_exists.mpr ⟨r, hr⟩, hready.1, hready.2, hmode, hon⟩
        exact ⟨r, by rw [if_neg (not_not.mpr hready), if_neg (not_not.mpr hmode), if_neg hoff]⟩
      · rw [if_neg (not_not.mpr hready), if_pos hmode] at hrc
        cases hrc
    · rw [if_pos hready] at hrc
      cases hrc

theorem startVideo_tells (s : Streams ι) (i : ι) (r : Region)
    (hrc : (s.startVideo i r).1 = .success) :
    ∃ k, (s.startVideo i r).2.streamId i = some k ∧
      Tells ((s.startVideo i r).2.regs k) ((s.startVideo i r).2.overlays i).surf.frame := by
  unfold startVideo at hrc ⊢
  rcases allocStreamID_cases s.mask with hnone | ⟨k, -, hsome⟩
  · rw [hnone] at hrc
    cases hrc
  · rw [hsome]
    refine ⟨k, ?_, ?_⟩
    · simp only [streamId, Function.update_self]
    · simp only [Function.update_self]
      exact tells_startVideo (s.overlays i) r s.regs k

theorem fresh_iff_unchanged (h : Told s.view) (a : VideoAct ι) : s.Fresh a ↔ s.Unchanged a := by
  cases a with
  | flushVideo i =>
    by_cases hplays : s.Plays i
    · obtain ⟨k, hk, -⟩ := h.placed.own i hplays.2.2.2.2
      have htells := h.tells i k hplays.2.2.2.2 hk
      simp only [Fresh, Unchanged]
      rw [flushVideo_of_plays hplays]
      constructor
      · intro hfresh _
        obtain ⟨l, hl, hframe⟩ := hfresh rfl hplays.2.2.2.2
        cases hk.symm.trans hl
        exact hframe.unique htells
      · intro hsame _ _
        exact ⟨k, hk, hsame hplays ▸ htells⟩
    · refine iff_of_true (fun hrc _ => ?_) fun hp => absurd hp hplays
      obtain ⟨r, hr⟩ := flushVideo_of_not_plays hplays hrc
      rw [hr] at hrc ⊢
      exact startVideo_tells s i r hrc
  | setSurface i pixelFormat applePixelFormat f => exact Iff.rfl
  | videoOff i => exact Iff.rfl
  | call i c e => exact Iff.rfl

theorem each_fresh_iff_unchanged (noYUV : Bool) (regs : ℕ → OverlayUnit) (surfs : ι → Surf)
    (acts : List (VideoAct ι)) :
    Runs.Each exec Fresh (init noYUV regs surfs) acts ↔
      Runs.Each exec Unchanged (init noYUV regs surfs) acts :=
  Runs.each_iff_each (I := fun s => Told s.view) (told_init noYUV regs surfs)
    (fun _ a h => fresh_iff_unchanged h a) fun _ a h _ => h.exec a

/-- What the kernel answers does not matter below. -/
def videoEnv : Env :=
  ⟨none, false, none, false, false, false, false, false, false, .success⟩

/-- The source of a surface that shows video is scaled: the next flush leaves the old size in the
registers. -/
theorem not_each_fresh_scaled :
    ¬ Runs.Each exec Fresh
      (init false (fun _ _ => 0) fun _ : Unit => { videoSurf with videoMode := true, bpp := 2 })
      [.flushVideo (), .call () (.contextScaleSurface true 16 16) videoEnv, .flushVideo ()] := by
  intro h
  have hlast := h [.flushVideo (), .call () (.contextScaleSurface true 16 16) videoEnv]
    (.flushVideo ()) List.prefix_rfl
  obtain ⟨k, hk, htells⟩ := hlast (by decide +kernel) (by decide +kernel)
  have hk0 : some k = some 0 := hk.symm.trans (by decide +kernel)
  cases hk0
  exact absurd htells.width (by decide +kernel)

end Streams

end Cesvga2.Surface
