import Cesvga2.GL.Bounds
import Cesvga2.GL.DrawBuffer

/-! What the handlers leave in the command buffer, as the pipeline processor takes it. A
rewritten token is a run of whole commands that ends where the next token starts. -/

namespace Cesvga2.GL

open Cesvga2.IPP (Binder Regs Exec Reached reached_first Takes takes_state takes_noop takes_mi
  stateOf stateOf_word stateOf_of_mi or_eq_add bitSelect bitSelect_eq ones mapStateLoop)

/-! ### The words after the handler -/

/-- The words from the token on after an access. -/
def Access.store (w : ℕ → ℕ) : Access → ℕ → ℕ
  | .write k v => Function.update w k v
  | _ => w

theorem Info.apply_word (s : Info) (a : Access) : (s.apply a).word = a.store s.word := by
  funext k
  cases a with
  | write j v =>
    change Function.update s.buf (s.p + j) v (s.p + k) = Function.update s.word j v k
    simp [Function.update_apply, Info.word]
  | submitMidbuffer =>
    change s.submitMidbuffer.buf (s.submitMidbuffer.p + k) = s.word k
    unfold Info.submitMidbuffer
    split_ifs <;> rfl
  | _ => rfl

theorem Info.foldl_word (l : List Access) (s : Info) :
    (l.foldl apply s).word = l.foldl Access.store s.word := by
  induction l generalizing s with
  | nil => rfl
  | cons a l ih => rw [List.foldl_cons, List.foldl_cons, ih, Info.apply_word]

theorem Info.handle_word (lion : Bool) (e : Env) (s : Info) :
    (s.handle lion e).word = (s.accesses lion e).foldl Access.store s.word :=
  Info.foldl_word _ (s.touch 0)

theorem Info.accesses_of_token {lion : Bool} {s : Info} {t : Token} (ht : s.token lion = some t)
    (e : Env) : s.accesses lion e = t.accesses e s.word := by
  rw [Info.accesses, ht, Option.elim_some]

/-! ### Texture -/

section Texture

variable {e : Env} {w v : ℕ → ℕ} {n i q c : ℕ}

/-- The words after the loop over the texture units. -/
def textureWords (e : Env) (w v : ℕ → ℕ) (n i q c : ℕ) : ℕ → ℕ :=
  (textureLoop e w n i q c).foldl Access.store v

theorem foldl_store_getTexture : (getTexture e i).foldl Access.store v = v := by
  unfold getTexture
  split_ifs <;> rfl

/-- A unit of the mask: its texture is there, and its entry gets the host surface. -/
theorem textureWords_succ (hi : (w 1).testBit i = true)
    (hok : ∀ r, .fail r ∉ textureLoop e w (n + 1) i q c) :
    e.findTextureBuffer i (w q) = true ∧
      (∀ r, .fail r ∉ textureLoop e w n (i + 1) (q + 3) (c + 1)) ∧
      textureWords e w v (n + 1) i q c =
        textureWords e w (Function.update v q (e.word i)) n (i + 1) (q + 3) (c + 1) := by
  unfold textureWords
  rw [textureLoop, if_pos hi] at hok ⊢
  split_ifs at hok ⊢ with hfind hformat
  · refine ⟨hfind, fun r hr => hok r (by simp [hr]), ?_⟩
    simp only [List.foldl_cons, List.foldl_append, foldl_store_getTexture]
    rfl
  · refine ⟨hfind, fun r hr => hok r (by simp [hr]), ?_⟩
    simp only [List.foldl_cons, List.foldl_append, foldl_store_getTexture]
    rfl
  · exact absurd (by simp) (hok true)

theorem textureWords_skip (hi : (w 1).testBit i = false) :
    textureLoop e w (n + 1) i q c = textureLoop e w n (i + 1) q c ∧
      textureWords e w v (n + 1) i q c = textureWords e w v n (i + 1) q c := by
  have h : textureLoop e w (n + 1) i q c = textureLoop e w n (i + 1) q c := by
    rw [textureLoop, hi]
    rfl
  exact ⟨h, by rw [textureWords, h]; rfl⟩

/-- The loop leaves the words before its entries. -/
theorem textureWords_of_lt (hok : ∀ r, .fail r ∉ textureLoop e w n i q c) {k : ℕ}
    (hk : k ≠ 0) (hq : k < q) : textureWords e w v n i q c k = v k := by
  induction n generalizing i q c v with
  | zero => exact Function.update_of_ne hk _ _
  | succ n ih =>
    cases hi : (w 1).testBit i with
    | true =>
      obtain ⟨-, hok', hw⟩ := textureWords_succ (v := v) hi hok
      rw [hw, ih hok' (by omega), Function.update_of_ne (by omega)]
    | false =>
      obtain ⟨hl, hw⟩ := textureWords_skip (e := e) (v := v) (n := n) (q := q) (c := c) hi
      rw [hw, ih (hl ▸ hok) hq]

theorem mod_two_div {mask i : ℕ} : mask / 2 ^ i % 2 = (mask.testBit i).toNat := by
  rw [Nat.testBit_eq_decide_div_mod_eq]
  rcases Nat.mod_two_eq_zero_or_one (mask / 2 ^ i) with h | h <;> simp [h]

theorem ones_succ {mask : ℕ} : ones (n + 1) (mask / 2 ^ i) =
    (mask.testBit i).toNat + ones n (mask / 2 ^ (i + 1)) := by
  rw [ones, mod_two_div, Nat.div_div_eq_div_mul, ← pow_succ]

/-- The command has as many entries as there are units in the mask. -/
theorem textureWords_zero (hok : ∀ r, .fail r ∉ textureLoop e w n i q c) :
    textureWords e w v n i q c 0 =
      let count := c + ones n (w 1 / 2 ^ i)
      if count = 0 then 0 else 0x7D000000 ||| 3 * count := by
  induction n generalizing i q c v with
  | zero => simp [textureWords, textureLoop, Access.store, ones]
  | succ n ih =>
    cases hi : (w 1).testBit i with
    | true =>
      obtain ⟨-, hok', hw⟩ := textureWords_succ (v := v) hi hok
      rw [hw, ih hok', ones_succ, hi]
      simp [add_assoc]
    | false =>
      obtain ⟨hl, hw⟩ := textureWords_skip (e := e) (v := v) (n := n) (q := q) (c := c) hi
      rw [hw, ih (hl ▸ hok), ones_succ, hi]
      simp

/-- The pipeline processor caches for each unit of the mask what its entry was given. -/
theorem mapStateLoop_textureWords (hok : ∀ r, .fail r ∉ textureLoop e w n i q c) (hq : 0 < q)
    (ids : ℕ → ℕ) :
    mapStateLoop (textureWords e w v n i q c) n i (w 1 / 2 ^ i) q ids =
      fun j => if i ≤ j ∧ j < i + n ∧ (w 1).testBit j then e.word j else ids j := by
  induction n generalizing i q c v ids with
  | zero =>
    funext j
    rw [if_neg (by omega)]
    rfl
  | succ n ih =>
    rw [mapStateLoop, mod_two_div, Nat.div_div_eq_div_mul, ← pow_succ]
    funext j
    cases hi : (w 1).testBit i with
    | true =>
      obtain ⟨-, hok', hw⟩ := textureWords_succ (v := v) hi hok
      have hentry : textureWords e w v (n + 1) i q c q = e.word i := by
        rw [hw, textureWords_of_lt hok' (by omega) (by omega), Function.update_self]
      rw [Bool.toNat_true, if_pos rfl, hentry, hw, ih hok' (by omega)]
      by_cases hj : j = i
      · subst hj
        simp [hi]
      · dsimp only
        rw [Function.update_of_ne hj]
        exact if_congr ⟨fun h => ⟨by omega, by omega, h.2.2⟩,
          fun h => ⟨by omega, by omega, h.2.2⟩⟩ rfl rfl
    | false =>
      obtain ⟨hl, hw⟩ := textureWords_skip (e := e) (v := v) (n := n) (q := q) (c := c) hi
      rw [Bool.toNat_false, if_neg (by decide), hw, ih (hl ▸ hok) hq]
      refine if_congr ?_ rfl rfl
      constructor
      · rintro ⟨hij, hjn, hj⟩
        exact ⟨by omega, by omega, hj⟩
      · rintro ⟨hij, hjn, hj⟩
        have : j ≠ i := by
          rintro rfl
          simp [hi] at hj
        exact ⟨by omega, by omega, hj⟩

/-- The entries hold what the units of the mask were given. -/
theorem textureWords_entry (hok : ∀ r, .fail r ∉ textureLoop e w n i q c) (hq : 0 < q)
    {A : Set ℕ} (hA : ∀ j, (w 1).testBit j = true → e.word j ∈ A) {k : ℕ}
    (hk : k < ones n (w 1 / 2 ^ i)) : textureWords e w v n i q c (q + 3 * k) ∈ A := by
  induction n generalizing i q c v k with
  | zero => exact absurd hk (Nat.not_lt_zero k)
  | succ n ih =>
    rw [ones_succ] at hk
    cases hi : (w 1).testBit i with
    | true =>
      obtain ⟨-, hok', hw⟩ := textureWords_succ (v := v) hi hok
      rw [hi, Bool.toNat_true] at hk
      rw [hw]
      cases k with
      | zero =>
        rw [mul_zero, add_zero, textureWords_of_lt hok' (by omega) (by omega),
          Function.update_self]
        exact hA i hi
      | succ k =>
        rw [mul_add, mul_one, add_comm (3 * k), ← add_assoc]
        exact ih hok' (by omega) (by omega)
    | false =>
      obtain ⟨hl, hw⟩ := textureWords_skip (e := e) (v := v) (n := n) (q := q) (c := c) hi
      rw [hi, Bool.toNat_false] at hk
      rw [hw]
      exact ih (hl ▸ hok) hq (by omega)

/-- Every unit of the mask has a texture, which its entry names. -/
theorem find_of_textureLoop (hok : ∀ r, .fail r ∉ textureLoop e w n i q c) {j : ℕ}
    (hij : i ≤ j) (hjn : j < i + n) (hj : (w 1).testBit j = true) :
    e.findTextureBuffer j (w (q + 3 * ones (j - i) (w 1 / 2 ^ i))) = true := by
  induction n generalizing i q c with
  | zero => omega
  | succ n ih =>
    rcases Nat.eq_or_lt_of_le hij with rfl | hlt
    · simpa [ones] using (textureWords_succ (v := w) hj hok).1
    · have hsplit : ones (j - i) (w 1 / 2 ^ i) =
          ((w 1).testBit i).toNat + ones (j - (i + 1)) (w 1 / 2 ^ (i + 1)) := by
        rw [show j - i = j - (i + 1) + 1 by omega, ones_succ]
      cases hi : (w 1).testBit i with
      | true =>
        have := ih (textureWords_succ (v := w) hi hok).2.1 hlt (by omega)
        rw [hsplit, hi, Bool.toNat_true, mul_add, ← add_assoc]
        exact this
      | false =>
        have hl := (textureWords_skip (e := e) (v := w) (n := n) (q := q) (c := c) hi).1
        have := ih (hl ▸ hok) hlt (by omega)
        rw [hsplit, hi, Bool.toNat_false, zero_add]
        exact this

end Texture

/-- The entry of a unit in a `Texture` token. -/
def entry (w : ℕ → ℕ) (i : ℕ) : ℕ := 2 + 3 * ones i (w 1)

/-- The tokens that become commands, with the length of their commands. -/
def Token.Shaped (w : ℕ → ℕ) (length : ℕ) : Token → Prop
  | .texture => w 1 < 2 ^ 16 ∧ length = 2 + 3 * ones 16 (w 1)
  | .setFence => length = 4
  | .drawBuffer => length = 11
  | .noTex => length = 2
  | _ => False

section Decode

variable {e : Env} {w : ℕ → ℕ} {env : ℕ → IPP.Env} {r : Regs} {t : Binder}

theorem noop_command {w : ℕ → ℕ} (hw : w 0 = 0) :
    Takes w 1 ∧ ∀ (e : IPP.Env) (t : Binder), t.exec e w = (t, []) := by
  refine ⟨takes_noop (by omega), fun e t => ?_⟩
  have hst : stateOf (w 0) = none := stateOf_of_mi (by simp [hw])
  simp only [Binder.exec, hst]

theorem flush_command {w : ℕ → ℕ} (hw : w 0 = 0x02000000) :
    Takes w 1 ∧ ∀ (e : IPP.Env) (t : Binder), t.exec e w = (t, []) := by
  refine ⟨takes_mi (by simp [hw]) fun r => by simp [IPP.decodeMi, hw, bitSelect], fun e t => ?_⟩
  have hst : stateOf (w 0) = none := stateOf_of_mi (by simp [hw])
  simp only [Binder.exec, hst]

theorem storeDataIndex_command {w : ℕ → ℕ} (hw : w 0 = 0x10800001) :
    Takes w 3 ∧ ∀ (e : IPP.Env) (t : Binder), t.exec e w = (t, []) := by
  refine ⟨takes_mi (by simp [hw]) fun r => by simp [IPP.decodeMi, hw, bitSelect], fun e t => ?_⟩
  have hst : stateOf (w 0) = none := stateOf_of_mi (by simp [hw])
  simp only [Binder.exec, hst]

theorem mapState_word {n : ℕ} (hn : n < 2 ^ 16) : 0x7D000000 ||| n = 0x7D000000 + n := by
  rw [show 0x7D000000 = 0x7D00 * 2 ^ 16 from rfl, or_eq_add hn]

theorem stateOf_mapState {n : ℕ} (hn : n < 2 ^ 16) :
    stateOf (0x7D000000 ||| n) = some .mapState := by
  rw [mapState_word hn]
  exact stateOf_word (c := 0) (by decide) hn

theorem mapState_command {w : ℕ → ℕ} {n : ℕ} (hn : n < 2 ^ 16) (hw : w 0 = 0x7D000000 ||| n) :
    Takes w (n + 2) ∧ ∀ (e : IPP.Env) (t : Binder), t.exec e w =
      ({ t with surfaceIds := mapStateLoop w 16 0 (w 1) 2 t.surfaceIds }, []) := by
  have hst : stateOf (w 0) = some .mapState := hw ▸ stateOf_mapState hn
  rw [mapState_word hn] at hw
  refine ⟨?_, fun e t => by simp only [Binder.exec, hst]⟩
  have htakes := takes_state hst (by decide)
  rwa [show w 0 % 2 ^ 16 = n by omega] at htakes

theorem reached_noops {b : ℕ → ℕ} (h0 : b 0 = 0) (h1 : b 1 = 0) :
    Reached env b 2 (.start r t) 2 2 t [] := by
  have hfirst : Reached env b 2 (.start r t) 1 1 t [] :=
    reached_first (by decide) (noop_command h0).1 ((noop_command h0).2 _ _)
  obtain ⟨htakes, hexec⟩ := noop_command (w := fun k => b (1 + k)) h1
  exact hfirst.next (by decide) htakes (hexec _ _)

theorem reached_fence {b : ℕ → ℕ} (h0 : b 0 = 0x02000000) (h1 : b 1 = 0x10800001) :
    Reached env b 4 (.start r t) 2 4 t [] := by
  have hflush : Reached env b 4 (.start r t) 1 1 t [] :=
    reached_first (by decide) (flush_command h0).1 ((flush_command h0).2 _ _)
  obtain ⟨htakes, hexec⟩ := storeDataIndex_command (w := fun k => b (1 + k)) h1
  exact hflush.next (by decide) htakes (hexec _ _)

theorem testBit_lt {n mask i : ℕ} (hmask : mask < 2 ^ n) (hi : mask.testBit i = true) : i < n := by
  by_contra hge
  have := Nat.testBit_lt_two_pow (hmask.trans_le (Nat.pow_le_pow_right two_pos (not_lt.mp hge)))
  simp [this] at hi

theorem ones_le (n mask : ℕ) : ones n mask ≤ n := by
  induction n generalizing mask with
  | zero => exact le_rfl
  | succ n ih =>
    have := ih (mask / 2)
    rw [ones]
    omega

theorem eq_zero_of_ones {n mask : ℕ} (h : ones n mask = 0) (hlt : mask < 2 ^ n) : mask = 0 := by
  induction n generalizing mask with
  | zero => omega
  | succ n ih =>
    rw [ones] at h
    have hhalf : mask / 2 = 0 := ih (by omega) (by omega)
    omega

/-- The commands of a `Texture` token: one, or two that do nothing if its mask is empty. -/
theorem reached_textureWords (hmask : w 1 < 2 ^ 16)
    (hok : ∀ r, .fail r ∉ textureLoop e w 16 0 2 0) :
    ∃ m, Reached env (textureWords e w w 16 0 2 0) (2 + 3 * ones 16 (w 1)) (.start r t) m
      (2 + 3 * ones 16 (w 1)) { t with
        surfaceIds := fun i => if (w 1).testBit i then e.word i else t.surfaceIds i } [] := by
  have h0 := textureWords_zero (v := w) hok
  have h1 : textureWords e w w 16 0 2 0 1 = w 1 :=
    textureWords_of_lt hok (by decide) (by decide)
  have hids := mapStateLoop_textureWords (v := w) hok (by decide) t.surfaceIds
  simp only [pow_zero, Nat.div_one, Nat.zero_add, Nat.zero_le, true_and] at h0 hids
  have hbit : ∀ i, i < 16 ∧ (w 1).testBit i = true ↔ (w 1).testBit i = true :=
    fun i => ⟨And.right, fun hi => ⟨testBit_lt hmask hi, hi⟩⟩
  simp only [hbit] at hids
  split_ifs at h0 with hcount
  · have hzero := eq_zero_of_ones hcount hmask
    rw [hcount, hzero]
    simp only [Nat.zero_testBit, Bool.false_eq_true, if_false]
    exact ⟨2, reached_noops h0 (h1.trans hzero)⟩
  · have hle := ones_le 16 (w 1)
    obtain ⟨htakes, hexec⟩ := mapState_command (by omega) h0
    rw [add_comm] at htakes
    refine ⟨1, reached_first (by omega) htakes ?_⟩
    rw [hexec, h1, hids]

end Decode

theorem storeWords_setFence {e : Env} {w : ℕ → ℕ}
    (hok : ∀ r, .fail r ∉ Token.setFence.accesses e w) :
    (Token.setFence.accesses e w).foldl Access.store w =
      Function.update (Function.update (Function.update (Function.update w 0 0x02000000)
        1 0x10800001) 2 64) 3 (w 1) := by
  simp only [Token.accesses] at hok ⊢
  split_ifs at hok ⊢ with hrange
  · exact absurd (by simp) (hok true)
  · rfl

theorem storeWords_noTex {e : Env} {w : ℕ → ℕ}
    (hok : ∀ r, .fail r ∉ Token.noTex.accesses e w) :
    (Token.noTex.accesses e w).foldl Access.store w =
      Function.update (Function.update w 0 0) 1 0 := by
  simp only [Token.accesses] at hok ⊢
  split_ifs at hok ⊢ with hname hfind
  · rfl
  · exact absurd (by simp) (hok true)
  · rfl

theorem storeWords_drawBuffer {e : Env} {w : ℕ → ℕ} :
    let v := (Token.drawBuffer.accesses e w).foldl Access.store w
    (v 0 = 0x7D8E0001 ∧ v 3 = 0x7D8E0001 ∧ v 6 = 0x7D800003) ∧ v 2 = e.word 2 ∧ v 5 = e.word 5 := by
  simp only [Token.accesses, setupDrawbufferRegisters, drawrect, List.foldl_append]
  cases e.fbo <;> cases e.surfaceClient <;> exact ⟨⟨rfl, rfl, rfl⟩, rfl, rfl⟩

/-- Once its handler is done, the pipeline processor takes the dwords of a token as whole
commands and comes to the next token. A `Texture` token caches what its entries were given. -/
theorem handle_reached {lion : Bool} {e : Env} {s : Info} {t : Token}
    (ht : s.token lion = some t) (hs : t.Shaped s.word s.length)
    (hok : (s.handle lion e).streamError = false) (env : ℕ → IPP.Env) (r : Regs) (b : Binder) :
    ∃ m b' l,
      Reached env (s.handle lion e).word s.length (.start r b) m s.length b' l ∧
      (t = .texture → ∀ i,
        ((s.word 1).testBit i = true → i < 16 ∧ b'.surfaceIds i = e.word i ∧
          e.findTextureBuffer i (s.word (entry s.word i)) = true) ∧
        ((s.word 1).testBit i = false → b'.surfaceIds i = b.surfaceIds i)) := by
  have hacc := Info.accesses_of_token ht e
  have herr : s.streamError = false := by
    cases herr : s.streamError with
    | false => rfl
    | true =>
      have htouch : (s.touch 0).streamError = true := herr
      exact (Info.foldl_streamError.mpr (.inl htouch)).symm.trans hok
  have hnofail : ∀ r, .fail r ∉ t.accesses e s.word := by
    rw [← hacc]
    exact (Info.handle_streamError herr).mp hok
  rw [Info.handle_word, hacc]
  cases t with
  | texture =>
    obtain ⟨hmask, hlen⟩ := hs
    have hloop : ∀ r, .fail r ∉ textureLoop e s.word 16 0 2 0 := fun r hr =>
      hnofail r (List.mem_cons_of_mem _ hr)
    rw [hlen]
    obtain ⟨m, hm⟩ : ∃ m, Reached env _ _ (.start r b) m _ _ _ := reached_textureWords hmask hloop
    refine ⟨m, _, [], hm, fun _ i => ⟨fun hi => ?_, fun hi => by simp [hi]⟩⟩
    have hlt := testBit_lt hmask hi
    refine ⟨hlt, by simp [hi], ?_⟩
    simpa [entry] using find_of_textureLoop hloop (Nat.zero_le i) (by omega) hi
  | setFence =>
    rw [show s.length = 4 from hs, storeWords_setFence hnofail]
    exact ⟨2, b, [], reached_fence (by simp) (by simp), by simp⟩
  | drawBuffer =>
    rw [show s.length = 11 from hs]
    obtain ⟨⟨h0, h3, h6⟩, -⟩ := storeWords_drawBuffer (e := e) (w := s.word)
    exact ⟨3, b, _, DrawState.reached_registers h0 h3 h6, by simp⟩
  | noTex =>
    rw [show s.length = 2 from hs, storeWords_noTex hnofail]
    exact ⟨2, b, [], reached_noops (by simp) (by simp), by simp⟩
  | _ => exact hs.elim

def oneTexture : Env where
  findTextureBuffer _ id := id = 3
  find_lt i id h := by
    have : id = 3 := by simpa using h
    simp [this, numTextureHandles]
  inUse _ := false
  formatInvalid _ := false
  fbo := false
  malloc := false
  surfaceClient := false
  gart := false
  fencesLen := 0
  word _ := 9

end Cesvga2.GL
