import Cesvga2.GL.Pipeline

/-! What a context binds stays among its client's host surfaces, as long as the streams bring
no `MAP_STATE` and `BUF_INFO` commands of their own. -/

namespace Cesvga2.GL

open Cesvga2.IPP (Binder Regs Exec exec Plain Parsed Command Takes stateOf
  whole_of_first command_of_harmless ones plain_zeros takes_state command_noop)

/-- The ids that may be bound. -/
def Scene.allowed (sc : Scene) : Set ℕ := { sid | isIdValid sid = true → sid ∈ sc.hosts }

variable {lion : Bool} {sc sc' : Scene} {s : Pipe} {a : Access} {l : List Access} {b : ℕ → ℕ}

theorem idInvalid_mem_allowed : idInvalid ∈ sc.allowed := fun h => absurd h (by decide)

/-! ### Tokens -/

theorem command_bufInfo {A : Set ℕ} {w : ℕ → ℕ} (h0 : w 0 = 0x7D8E0001) (h2 : w 2 ∈ A) :
    Command A w 3 := by
  have hst : stateOf (w 0) = some .bufInfo := by
    rw [h0]
    decide
  refine ⟨whole_of_first fun v hv => (DrawState.bufInfo_command (hv.trans h0)).1, ?_,
    fun _ => ⟨le_rfl, h2⟩⟩
  rw [hst]
  exact fun h => absurd h (by decide)

theorem command_drawRect {A : Set ℕ} {w : ℕ → ℕ} (h0 : w 0 = 0x7D800003) : Command A w 5 := by
  have hst : stateOf (w 0) = some .drawRect := by
    rw [h0]
    decide
  exact command_of_harmless
    (whole_of_first fun v hv => (DrawState.drawRect_command (hv.trans h0)).1)
    (by rw [hst]; decide) (by rw [hst]; decide)

theorem parsed_registers {A : Set ℕ} {w : ℕ → ℕ} (h0 : w 0 = 0x7D8E0001) (h2 : w 2 ∈ A)
    (h3 : w 3 = 0x7D8E0001) (h5 : w 5 ∈ A) (h6 : w 6 = 0x7D800003) : Parsed A w 11 :=
  .cons (command_bufInfo h0 h2) (m := 8) (.cons (command_bufInfo h3 h5) (m := 5)
    (command_drawRect h6).parsed)

theorem parsed_textureWords {e : Env} {A : Set ℕ} {w : ℕ → ℕ} (hmask : w 1 < 2 ^ 16)
    (hok : ∀ r, .fail r ∉ textureLoop e w 16 0 2 0)
    (hA : ∀ i, (w 1).testBit i = true → e.word i ∈ A) :
    Parsed A (textureWords e w w 16 0 2 0) (2 + 3 * ones 16 (w 1)) := by
  have h0 := textureWords_zero (v := w) hok
  have h1 : textureWords e w w 16 0 2 0 1 = w 1 := textureWords_of_lt hok (by decide) (by decide)
  have hentry : ∀ k < ones 16 (w 1), textureWords e w w 16 0 2 0 (2 + 3 * k) ∈ A := by
    intro k hk
    exact textureWords_entry hok (by decide) hA (by simpa using hk)
  simp only [pow_zero, Nat.div_one, Nat.zero_add] at h0
  generalize textureWords e w w 16 0 2 0 = v at *
  split_ifs at h0 with hcount
  · have hzero := eq_zero_of_ones hcount hmask
    rw [hcount]
    refine (plain_zeros fun k hk => ?_).parsed
    match k, hk with
    | 0, _ => exact h0
    | 1, _ => exact h1.trans hzero
  · have hle := ones_le 16 (w 1)
    refine Command.parsed ⟨whole_of_first fun u hu => ?_, fun _ => ?_, fun hst => ?_⟩
    · rw [add_comm]
      exact (mapState_command (by omega) (hu.trans h0)).1
    · rw [h1]
      exact ⟨le_rfl, hentry⟩
    · rw [h0, stateOf_mapState (by omega)] at hst
      exact absurd hst (by decide)

/-- The targets of a `DrawBuffer` token are allowed. -/
theorem Scene.Attached.targets (h : sc.Attached) (w : ℕ → ℕ) :
    (sc.draw.targets w).1 ∈ sc.allowed ∧ (sc.draw.targets w).2 ∈ sc.allowed := by
  have htexture : ∀ (o : Option Host) (u : Bool) (old : ℕ),
      (∀ h ∈ o, h.unready = false ∧ ∃ i id, h ∈ sc.textures i id) →
        o.elim idInvalid (·.getTexData u old) ∈ sc.allowed := by
    intro o u old ho
    cases o with
    | none => exact idInvalid_mem_allowed
    | some host =>
      obtain ⟨hready, i, id, hmem⟩ := ho host rfl
      exact fun _ => .inl ⟨i, id, u, host, hmem, Host.getTexData_eq_sid hready⟩
  unfold Scene.Attached at h
  unfold DrawState.targets
  cases hf : sc.draw.fbo with
  | some f =>
    rw [hf] at h
    exact ⟨htexture _ _ _ fun host hh => h host (.inl hh),
      htexture _ _ _ fun host hh => h host (.inr hh)⟩
  | none =>
    rw [hf] at h
    cases hc : sc.draw.surfaceClient with
    | none => exact ⟨idInvalid_mem_allowed, idInvalid_mem_allowed⟩
    | some c =>
      have hgl : c.1.glMode = true := h c hc
      simp only [GLSurface.getSurfacesForGL, hgl, if_true]
      exact ⟨fun _ => .inr ⟨c, hc, hgl, .inl rfl⟩, fun _ => .inr ⟨c, hc, hgl, .inr rfl⟩⟩

/-- The dwords of a clean token name allowed ids only. -/
theorem Scene.Clean.parsed {s : Info} (h : sc.Clean lion s) (he : s.streamError = false)
    (ha : ∀ t ∈ s.token lion, sc.Answers s.word t)
    (hok : (s.handle lion sc.gl).streamError = false) :
    Parsed sc.allowed (s.handle lion sc.gl).word s.length := by
  have hnofail := (Info.handle_streamError he).mp hok
  unfold Scene.Clean at h
  split at h
  next ht =>
    have hfinds : sc.gl.Finds s.word sc.textures := ha _ ht
    obtain ⟨⟨hmask, hlen⟩, hready⟩ := h
    rw [Info.accesses_of_token ht] at hnofail
    have hloop : ∀ r, .fail r ∉ textureLoop sc.gl s.word 16 0 2 0 := fun r hr =>
      hnofail r (List.mem_cons_of_mem _ hr)
    rw [Info.handle_word, Info.accesses_of_token ht, hlen]
    refine parsed_textureWords hmask hloop fun i hi => ?_
    have hsome := find_of_textureLoop hloop (Nat.zero_le i) (testBit_lt hmask hi) hi
    rw [Nat.sub_zero, pow_zero, Nat.div_one, hfinds.isSome, Option.isSome_iff_exists] at hsome
    obtain ⟨host, hhost⟩ := hsome
    rw [hfinds.word i host hhost]
    refine fun _ => .inl ⟨i, _, false, host, hhost, ?_⟩
    exact Host.getTexData_eq_sid (hready i hi host hhost)
  next ht =>
    have hwords : sc.gl.word 2 = (sc.draw.targets s.word).1 ∧
        sc.gl.word 5 = (sc.draw.targets s.word).2 := ha _ ht
    obtain ⟨hlen, hatt⟩ := h
    rw [Info.handle_word, Info.accesses_of_token ht, hlen]
    obtain ⟨⟨h0, h3, h6⟩, h2, h5⟩ := storeWords_drawBuffer (e := sc.gl) (w := s.word)
    have htargets := hatt.targets s.word
    exact parsed_registers h0 (by rw [h2, hwords.1]; exact htargets.1) h3
      (by rw [h5, hwords.2]; exact htargets.2) h6
  next => exact h.parsed

/-! ### Handlers -/

namespace Pipe

theorem apply_info : (s.apply sc a).info = s.info.apply a := by
  cases a <;> rfl

theorem foldl_info : (l.foldl (apply sc) s).info = l.foldl Info.apply s.info := by
  induction l generalizing s with
  | nil => rfl
  | cons a l ih => rw [List.foldl_cons, List.foldl_cons, ih, apply_info]

theorem handle_info : (s.handle lion sc).info = s.info.handle lion sc.gl := foldl_info

/-- Everything cached is allowed now, and everything bound was allowed then. -/
structure Held (s : Pipe) : Prop where
  ids : ∀ i, s.binder.surfaceIds i ∈ s.scene.allowed
  log : s.Confined

/-- In the middle of a handler: the dwords from the next submission up to the token are a run
of commands, and a submission would take them up to the token. -/
structure Pending (s : Pipe) : Prop where
  held : s.Held
  dvd : 4 ∣ s.info.dsoBytes
  le : s.info.p ≤ words
  next_le : s.next ≤ s.info.p
  nonneg : 0 ≤ s.info.dsCountDwords
  window : s.info.dsCountDwords = 0 ∨ (s.next : ℤ) + s.info.dsCountDwords = s.info.p
  parsed : Parsed s.scene.allowed (fun k => s.info.buf (s.next + k)) (s.info.p - s.next)

theorem Held.submit {n size : ℕ} (h : s.Held)
    (hp : Parsed s.scene.allowed (fun k => s.info.buf (s.next + k)) n) (hsize : size ≤ n) :
    (s.submit s.scene size).Held := by
  have hx : (exec s.scene.ipp (fun k => s.info.buf (s.next + k)) size
      (.start s.regs s.binder) size).Within s.scene.allowed :=
    hp.within idInvalid_mem_allowed h.ids hsize size
  refine ⟨hx.1, List.forall_mem_append.mpr ⟨h.log, ?_⟩⟩
  intro y hy
  obtain ⟨x, hxmem, rfl⟩ := List.mem_map.mp hy
  exact hx.2 x hxmem

theorem Pending.wc_eq (h : s.Pending) (hwc : s.info.wc ≠ 0) : s.next + s.info.wc = s.info.p := by
  have hle := h.le
  have h0 := h.nonneg
  have hnext := h.next_le
  rw [Info.words_eq] at hle
  rcases h.window with hz | heq
  · exact absurd (by rw [Info.wc, hz]; rfl) hwc
  · have := Info.wc_of_nonneg h0 (by omega)
    omega

/-- A submission takes the pending commands, all but the last two dwords. -/
theorem Pending.submitMidbuffer (h : s.Pending) : (s.apply s.scene .submitMidbuffer).Pending := by
  by_cases hz : s.info.wc = 0
  · have happly : s.apply s.scene .submitMidbuffer = s := by
      simp [Pipe.apply, Info.submitMidbuffer, hz]
    rwa [happly]
  have hwc := h.wc_eq hz
  have hle := h.le
  obtain ⟨d, hd⟩ := h.dvd
  have hnext : s.next = downstream + d := by
    rw [Pipe.next, hd, Nat.mul_div_cancel_left d (by decide)]
  have hdso : u32 (s.info.dsoBytes + u32 (s.info.wc * 4)) = 4 * (d + s.info.wc) := by
    rw [Info.words_eq] at hle
    rw [u32_of_lt (n := s.info.wc * 4) (by omega), u32_of_lt (by omega)]
    omega
  have hinfo : (s.apply s.scene .submitMidbuffer).info.dsoBytes = 4 * (d + s.info.wc) ∧
      (s.apply s.scene .submitMidbuffer).info.dsCountDwords = 0 ∧
      (s.apply s.scene .submitMidbuffer).info.p = s.info.p := by
    simp only [Pipe.apply, Info.submitMidbuffer, if_neg hz]
    exact ⟨hdso, trivial, trivial⟩
  have hnext' : (s.apply s.scene .submitMidbuffer).next = s.info.p := by
    rw [Pipe.next, hinfo.1, Nat.mul_div_cancel_left _ (by decide)]
    omega
  refine ⟨?_, hinfo.1 ▸ Nat.dvd_mul_right 4 _, hinfo.2.2 ▸ h.le, ?_, hinfo.2.1.ge,
    .inl hinfo.2.1, ?_⟩
  · unfold Pipe.apply
    split_ifs
    · have hsub : (s.submit s.scene (s.info.wc - 2)).Held := h.held.submit h.parsed (by omega)
      exact ⟨hsub.ids, hsub.log⟩
    · exact ⟨h.held.ids, h.held.log⟩
  · rw [hnext', hinfo.2.2]
  · rw [hnext', hinfo.2.2, Nat.sub_self]
    exact .nil _

theorem apply_scene : (s.apply sc a).scene = s.scene := by
  cases a with
  | submitMidbuffer =>
    unfold Pipe.apply
    split_ifs <;> rfl
  | _ => rfl

theorem Pending.apply (h : s.Pending) : (s.apply s.scene a).Pending := by
  cases a with
  | submitMidbuffer => exact h.submitMidbuffer
  | write k v =>
    refine ⟨⟨h.held.ids, h.held.log⟩, h.dvd, h.le, h.next_le, h.nonneg, h.window, ?_⟩
    refine h.parsed.congr fun j hj => Function.update_of_ne ?_ _ _
    change s.next + j ≠ s.info.p + k
    omega
  | fail reset =>
    cases reset with
    | true =>
      exact ⟨⟨h.held.ids, h.held.log⟩, h.dvd, h.le, h.next_le, le_rfl, .inl rfl, h.parsed⟩
    | false =>
      exact ⟨⟨h.held.ids, h.held.log⟩, h.dvd, h.le, h.next_le, h.nonneg, h.window, h.parsed⟩
  | _ => exact ⟨⟨h.held.ids, h.held.log⟩, h.dvd, h.le, h.next_le, h.nonneg, h.window, h.parsed⟩

theorem Pending.foldl (h : s.Pending) (hsc : s.scene = sc) :
    (l.foldl (Pipe.apply sc) s).Pending ∧ (l.foldl (Pipe.apply sc) s).scene = sc := by
  induction l generalizing s with
  | nil => exact ⟨h, hsc⟩
  | cons a l ih =>
    subst hsc
    exact ih h.apply apply_scene

/-! ### Passes of the loop -/

/-- At a token of the stream, with the commands before it pending. -/
structure Sound (b : ℕ → ℕ) (s : Pipe) : Prop where
  held : s.Held
  laid : s.info.Laid b
  parsed : Parsed s.scene.allowed (fun k => s.info.buf (s.next + k)) (s.info.p - s.next)

theorem Outlives.ids (h : s.Outlives sc) (hs : ∀ i, s.binder.surfaceIds i ∈ s.scene.allowed)
    (i : ℕ) : s.binder.surfaceIds i ∈ sc.allowed :=
  fun hvalid => h.cached i (hs i hvalid)

/-- The next scene finds everything that is cached or pending still allowed. -/
theorem Sound.outlives (h : s.Sound b) (ho : s.Outlives sc) :
    { s with scene := sc : Pipe }.Pending := by
  have heq := h.laid.cursor.eq h.laid.error
  have h0 := h.laid.cursor.nonneg
  have hnext : (s.next : ℤ) = downstream + s.info.dsoBytes / 4 := by
    simp [Pipe.next]
  refine ⟨⟨ho.ids h.held.ids, h.held.log⟩, h.laid.cursor.dvd, h.laid.le, ?_, h0, .inr ?_, ?_⟩
  · change s.next ≤ s.info.p
    omega
  · change (s.next : ℤ) + s.info.dsCountDwords = s.info.p
    omega
  · refine h.parsed.mono fun k hk hmem hvalid => ?_
    exact ho.pending _ (Nat.le_add_right _ _) (by omega) (hmem hvalid)

theorem Sound.handle (h : s.Sound b) (ho : s.Outlives sc) :
    (s.handle lion sc).Pending ∧ (s.handle lion sc).scene = sc := by
  have hp := h.outlives ho
  refine Pending.foldl ?_ rfl
  exact ⟨⟨hp.held.ids, hp.held.log⟩, hp.dvd, hp.le, hp.next_le, hp.nonneg, hp.window, hp.parsed⟩

/-- A pass over a token that meets the condition. -/
theorem Sound.step (h : s.Sound b) (hb : WellFormed lion b) (hp : s.info.p < words)
    (hc : s.Careful lion sc) :
    (s.step lion sc).Held ∧
      ((s.step lion sc).info.streamError = false → (s.step lion sc).Sound b) := by
  obtain ⟨hpend, hscene⟩ : (s.handle lion sc).Pending ∧ (s.handle lion sc).scene = sc :=
    h.handle hc.outlives
  have hheld : (s.step lion sc).Held := ⟨hpend.held.ids, hpend.held.log⟩
  refine ⟨hheld, fun hok => ⟨hheld, h.laid.step hb hp hok, ?_⟩⟩
  obtain ⟨herr, hadv⟩ := Info.step_eq_advance hok
  have htoken := (hc.clean herr).parsed h.laid.error hc.answers herr
  -- the token's commands follow the pending ones
  have hnext : (s.step lion sc).next = (s.handle lion sc).next := by
    simp only [Pipe.next, Pipe.step, hadv, handle_info, Info.advance]
  have hbuf : (s.step lion sc).info.buf = (s.handle lion sc).info.buf := by
    simp only [Pipe.step, hadv, handle_info, Info.advance]
  have hp' : (s.handle lion sc).info.p = s.info.p := by
    rw [handle_info, Info.handle_p]
  have hpstep : (s.step lion sc).info.p = s.info.p + s.info.length := by
    simp only [Pipe.step, hadv, Info.advance, Info.handle_p]
  have hle := hpend.next_le
  have hword : (s.info.handle lion sc.gl).word = fun k => (s.handle lion sc).info.buf
      ((s.handle lion sc).next + ((s.handle lion sc).info.p - (s.handle lion sc).next + k)) := by
    funext k
    rw [Info.word, ← handle_info]
    congr 1
    omega
  have hbefore := hpend.parsed
  rw [hword] at htoken
  rw [hscene] at hbefore
  have hlen : s.info.p + s.info.length - (s.handle lion sc).next =
      (s.handle lion sc).info.p - (s.handle lion sc).next + s.info.length := by
    omega
  rw [hbuf, hnext, hpstep, hlen, show (s.step lion sc).scene = sc from hscene]
  exact hbefore.append htoken

theorem Held.start (h : s.Held) (hb : WellFormed lion b) (ho : s.Outlives sc)
    (hs : s.info = .start b) :
    (s.step lion sc).Held ∧
      ((s.step lion sc).info.streamError = false → (s.step lion sc).Sound b) := by
  have hacc : s.info.accesses lion sc.gl = [] := hs ▸ Info.accesses_start hb
  have hhandle : s.handle lion sc = { s with info := s.info.touch 0, scene := sc } := by
    rw [Pipe.handle, hacc, List.foldl_nil]
  have hheld : (s.step lion sc).Held := by
    unfold Pipe.step
    rw [hhandle]
    exact ⟨ho.ids h.ids, h.log⟩
  have hlaid : (s.step lion sc).info.Laid b := by
    unfold Pipe.step
    rw [hs]
    exact Info.laid_start hb
  refine ⟨hheld, fun _ => ⟨hheld, hlaid, ?_⟩⟩
  have hempty : (s.step lion sc).info.p - (s.step lion sc).next = 0 := by
    unfold Pipe.next Pipe.step
    rw [hs, Info.step_start hb]
    change downstream - 1 + 1 - (downstream + 0 / 4) = 0
    decide
  rw [hempty]
  exact .nil _

/-- The submission after the loop. -/
theorem Held.finish (h : s.Held) (hsound : s.info.streamError = false → s.Sound b)
    (ho : s.Outlives sc) : (s.finish sc).Held := by
  unfold Pipe.finish
  split_ifs with hlast
  · have hpend := (hsound hlast.1).outlives ho
    have hwc : s.next + s.info.wc = s.info.p := hpend.wc_eq hlast.2
    have hsub : ({ s with scene := sc }.submit sc s.info.wc).Held :=
      hpend.held.submit hpend.parsed (show s.info.wc ≤ s.info.p - s.next by omega)
    exact hsub
  · exact ⟨ho.ids h.ids, h.log⟩

end Pipe

/-! ### Streams -/

variable {x : Stream}

theorem Stream.run_info (n : ℕ) : (x.run lion s n).info =
    processCommandBuffer lion (fun n => (x.scene n).gl) x.buf n := by
  induction n with
  | zero => rfl
  | succ n ih =>
    unfold Stream.run processCommandBuffer at ih ⊢
    rw [Oracle.run, Oracle.run, ← ih]
    split_ifs <;> rfl

/-- Passes that meet the condition keep everything allowed. -/
theorem Stream.Careful.run (hx : x.Careful lion s) (hs : s.Held) (n : ℕ) :
    (x.run lion s n).Held ∧ (n ≠ 0 → (x.run lion s n).info.streamError = false →
      (x.run lion s n).Sound x.buf) := by
  induction n with
  | zero => exact ⟨⟨hs.ids, hs.log⟩, fun h => absurd rfl h⟩
  | succ n ih =>
    obtain ⟨hheld, hsound⟩ := ih
    cases hr : (x.run lion s n).info.running with
    | false =>
      have hstop : x.run lion s (n + 1) = x.run lion s n := Oracle.run_stop hr
      rw [hstop]
      refine ⟨hheld, fun _ => hsound ?_⟩
      rintro rfl
      cases hr
    | true =>
      have hstep : x.run lion s (n + 1) = (x.run lion s n).step lion (x.scene n) :=
        Oracle.run_succ hr
      have hcareful := hx.pass n hr
      rw [hstep]
      suffices h : ((x.run lion s n).step lion (x.scene n)).Held ∧
          (((x.run lion s n).step lion (x.scene n)).info.streamError = false →
            ((x.run lion s n).step lion (x.scene n)).Sound x.buf) from ⟨h.1, fun _ => h.2⟩
      cases n with
      | zero => exact hheld.start hx.wellFormed hcareful.outlives rfl
      | succ n =>
        have hp : (x.run lion s (n + 1)).info.p < words := by
          rw [Stream.run_info] at hr ⊢
          exact (processCommandBuffer_cursor hr).2
        have hok : (x.run lion s (n + 1)).info.streamError = false := by
          rw [Stream.run_info] at hr ⊢
          exact processCommandBuffer_ok hr
        exact (hsound (by omega) hok).step hx.wellFormed hp hcareful

/-- A stream that meets the condition, its last submission included. -/
theorem Stream.Careful.process (hx : x.Careful lion s) (hs : s.Held) :
    (x.process lion s).Held := by
  have hrun := hx.run hs words
  have hlast := hx.last
  unfold Stream.process
  generalize x.run lion s words = s' at *
  exact Pipe.Held.finish hrun.1 (hrun.2 (by decide)) hlast

theorem held_session (xs : List Stream) (h : Careful lion xs s) (hs : s.Held) :
    (session lion xs s).Held := by
  induction xs generalizing s with
  | nil => exact hs
  | cons x xs ih =>
    rw [session, List.foldl_cons]
    exact ih h.2 (h.1.process hs)

/-- In every session whose streams meet the condition, each valid id that the pipeline
processor binds is a host surface of the client's textures or of its drawable. -/
theorem confined_of_careful (lion : Bool) (xs : List Stream) (r : Regs) (sc : Scene)
    (h : Careful lion xs (.init r sc)) : (session lion xs (.init r sc)).Confined := by
  refine (held_session xs h ⟨fun _ => idInvalid_mem_allowed, ?_⟩).log
  intro x hx
  cases hx

/-- No textures, and nothing attached. -/
def Scene.bare : Scene where
  gl := { oneTexture with
    findTextureBuffer := fun _ _ => false
    find_lt := fun _ _ h => by cases h }
  ipp _ := ⟨true, true, 0⟩
  textures _ _ := none
  draw := ⟨none, none, none, none, (0, 0)⟩

/-- A token without a handler of its own that carries a `BUF_INFO` command. -/
def rawTarget : Stream where
  buf i := [1, 4, 0x7D8E0001, 0x03800000, 77, 1 <<< 24].getD (i - 7) 0
  scene _ := .bare
  last := .bare

/-- Surface 77 becomes the colour target of a client that has no surfaces at all. -/
theorem not_confined_rawTarget :
    ¬ (session false [rawTarget] (.init .zero .bare)).Confined := by
  have hstop : (rawTarget.run false (.init .zero .bare) 3).info.running = false := by
    decide +kernel
  have hrun : rawTarget.run false (.init .zero .bare) words =
      rawTarget.run false (.init .zero .bare) 3 := Oracle.run_stopped hstop (by decide)
  have hlog : (session false [rawTarget] (.init .zero .bare)).log =
      [(.target .color ⟨77, 0, 0⟩, Scene.bare)] := by
    rw [session, List.foldl_cons, List.foldl_nil, Stream.process, hrun]
    rfl
  intro h
  rcases h (.target .color ⟨77, 0, 0⟩, Scene.bare) (hlog ▸ List.mem_cons_self) rfl with
    ⟨i, id, u, host, hhost, -⟩ | ⟨c, hc, -⟩
  · cases hhost
  · cases hc

/-- One texture, of the name 3 and with the host surface 9. -/
def Scene.single : Scene where
  gl := oneTexture
  ipp _ := ⟨true, true, 0⟩
  textures _ id := if id = 3 then some (.texture 9) else none
  draw := ⟨none, none, none, none, (0, 0)⟩

/-- A texture for unit 0, and a `SAMPLER_STATE` command that binds it. -/
def drawTexture : Stream where
  buf i := [1, 32 <<< 24 ||| 5, 1, 3, 0, 0, 6, 0x7D010003, 1, 0, 0, 0, 1 <<< 24].getD (i - 7) 0
  scene _ := .single
  last := .single

theorem tokenAt_drawTexture (n : ℕ) : tokenAt drawTexture.buf (n + 3) = 19 := by
  induction n with
  | zero => decide +kernel
  | succ n ih =>
    rw [tokenAt, ih]
    decide +kernel

theorem wellFormed_drawTexture : WellFormed false drawTexture.buf := by
  have hspan : ∀ n < 3, ((dispatch false (drawTexture.buf (tokenAt drawTexture.buf n))).elim 0
      fun t => (t.outline fun j => drawTexture.buf (tokenAt drawTexture.buf n + j)).span) ≤
        drawTexture.buf (tokenAt drawTexture.buf n) % 2 ^ 24 := by
    decide +kernel
  refine ⟨rfl, fun n _ => ?_, fun n _ e k v hk => ?_⟩
  · rcases Nat.lt_or_ge n 3 with h3 | h3
    · have hle : ∀ n < 3, tokenAt drawTexture.buf (n + 1) ≤ words := by decide +kernel
      exact hle n h3
    · obtain ⟨m, rfl⟩ := Nat.exists_eq_add_of_le' h3
      exact (tokenAt_drawTexture (m + 1)).trans_le (by decide)
  · rcases Nat.lt_or_ge n 3 with h3 | h3
    · exact rewrites_of_outline (hspan n h3) hk
    · obtain ⟨m, rfl⟩ := Nat.exists_eq_add_of_le' h3
      rw [tokenAt_drawTexture] at hk
      cases hk

theorem Pipe.Outlives.of_scene_eq (h : s.scene = sc) : s.Outlives sc :=
  ⟨fun _ hi => h ▸ hi, fun _ _ _ hk => h ▸ hk⟩

theorem finds_single (w : ℕ → ℕ) : Scene.single.gl.Finds w Scene.single.textures := by
  refine ⟨fun i id => ?_, fun i h hh => ?_⟩
  · by_cases hid : id = 3 <;> simp [Scene.single, oneTexture, hid]
  · simp only [Scene.single] at hh
    split_ifs at hh
    · cases hh
      rfl
    · cases hh

theorem command_samplerState {A : Set ℕ} {w : ℕ → ℕ} (h0 : w 0 = 0x7D010003) :
    Command A w 5 := by
  have hst : ∀ v : ℕ → ℕ, v 0 = 0x7D010003 → stateOf (v 0) = some .samplerState := by
    intro v hv
    rw [hv]
    decide
  refine command_of_harmless (whole_of_first fun v hv => ?_) (by rw [hst w h0]; decide)
    (by rw [hst w h0]; decide)
  simpa [hv, h0] using takes_state (hst v (hv.trans h0)) (by decide)

theorem drawTexture_ends :
    (drawTexture.run false (.init .zero .single) 4).info.running = false := by
  decide +kernel

theorem careful_drawTexture : drawTexture.Careful false (.init .zero .single) := by
  have hrun : ∀ n ≥ 4, drawTexture.run false (.init .zero .single) n =
      drawTexture.run false (.init .zero .single) 4 := fun n hn =>
    Oracle.run_stopped drawTexture_ends hn
  refine ⟨wellFormed_drawTexture, fun n hr => ?_, .of_scene_eq ?_⟩
  · match n with
    | 0 =>
      refine ⟨?_, .of_scene_eq rfl, fun _ => ?_⟩
      · rintro t ⟨⟩
        trivial
      · exact (command_noop (by decide +kernel)).parsed
    | 1 =>
      refine ⟨?_, .of_scene_eq rfl, fun _ => ?_⟩
      · rintro t ⟨⟩
        exact finds_single _
      · refine ⟨⟨by decide +kernel, by decide +kernel⟩, fun i _ h hh => ?_⟩
        simp only [Scene.single, drawTexture] at hh
        split_ifs at hh
        · cases hh
          rfl
        · cases hh
    | 2 =>
      refine ⟨?_, .of_scene_eq rfl, fun _ => ?_⟩
      · rintro t ⟨⟩
        trivial
      · refine .cons (m := 5) (command_noop (by decide +kernel)) (Command.parsed ?_)
        exact command_samplerState (by decide +kernel)
    | 3 =>
      refine ⟨?_, .of_scene_eq rfl, fun _ => ?_⟩
      · rintro t ⟨⟩
        trivial
      · exact .nil _
    | n + 4 =>
      rw [hrun (n + 4) (by omega), drawTexture_ends] at hr
      cases hr
  · rw [hrun words (by decide)]
    rfl

theorem confined_drawTexture :
    (session false [drawTexture] (.init .zero .single)).Confined ∧
      (.texture 0 9, Scene.single) ∈ (session false [drawTexture] (.init .zero .single)).log := by
  refine ⟨confined_of_careful false [drawTexture] .zero .single ⟨careful_drawTexture, trivial⟩, ?_⟩
  have hrun : drawTexture.run false (.init .zero .single) words =
      drawTexture.run false (.init .zero .single) 4 :=
    Oracle.run_stopped drawTexture_ends (by decide)
  rw [session, List.foldl_cons, List.foldl_nil, Stream.process, hrun]
  exact List.mem_cons_self

end Cesvga2.GL
