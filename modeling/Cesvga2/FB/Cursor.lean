import Mathlib.Tactic.NormNum
import Cesvga2.Lanes.Packed

/-! `ConvertAlphaCursor` multiplies the colours of a cursor by their alpha. It is compiled in one of
two forms, which compute the same pixels. -/

namespace Cesvga2.FB

open Lanes

/-- A pixel `0xAARRGGBB`. -/
abbrev Pixel := BitVec 32

/-- Blue, green, red and alpha are channels 0 to 3. -/
def channel (p : Pixel) (k : ℕ) : BitVec 8 := p.extractLsb' (8 * k) 8

/-- The constant of the vector form, with 0x8081 for each colour. -/
def datum : Reg := 0x808180818081#64

/-- One pixel, in the vector form. -/
def premultiplyVector (pixel : Pixel) : Pixel :=
  let alpha := pixel >>> 24
  let mm0 := punpcklbw (pixel.setWidth 64) 0#64
  low (packuswb
    (pinsrw (psrlwi (pmulhuw (pmullw (pshufw mm0 255) mm0) datum) 7) alpha 3) 0#64)

/-- One pixel, in the scalar form. -/
def premultiplyScalar (pixel : Pixel) : Pixel :=
  let alpha := pixel >>> 24
  let b := (pixel &&& 0xFF#32) * alpha / 255#32
  let g := ((pixel >>> 8) &&& 0xFF#32) * alpha / 255#32
  let r := ((pixel >>> 16) &&& 0xFF#32) * alpha / 255#32
  (pixel &&& 0xFF000000#32) ||| (r <<< 16) ||| (g <<< 8) ||| b

/-- The loop over the pixels from `cursor` on. -/
def convertPixels (premultiply : Pixel → Pixel) : ℕ → ℕ → (ℕ → Pixel) → ℕ → Pixel
  | 0, _, m => m
  | numPixels + 1, cursor, m =>
    let alpha := m cursor >>> 24
    if alpha = 0 ∨ alpha.setWidth 8 = 255#8 then convertPixels premultiply numPixels (cursor + 1) m
    else
      convertPixels premultiply numPixels (cursor + 1)
        (Function.update m cursor (premultiply (m cursor)))

/-- `ConvertAlphaCursor` on the pixels at `cursor`, with or without `VECTORIZE`. -/
def convertAlphaCursor (vectorize : Bool) (cursor : ℕ → Pixel) (width height : BitVec 32) :
    ℕ → Pixel :=
  convertPixels (if vectorize then premultiplyVector else premultiplyScalar)
    (width * height).toNat 0 cursor

/-! ### One pixel -/

/-- What becomes of the colour `c` under the alpha `a`. -/
def scale (c a : BitVec 8) : BitVec 8 := BitVec.ofNat 8 (c.toNat * a.toNat / 255)

/-- The pixel that both forms compute. -/
def premultiplied (p : Pixel) : Pixel :=
  channel p 3 ++ scale (channel p 2) (channel p 3) ++ scale (channel p 1) (channel p 3) ++
    scale (channel p 0) (channel p 3)

variable {p : Pixel} {k n : ℕ}

theorem channel_toNat (p : Pixel) (k : ℕ) : (channel p k).toNat = p.toNat / 2 ^ (8 * k) % 256 := by
  rw [channel, BitVec.extractLsb'_toNat, Nat.shiftRight_eq_div_pow]

theorem alpha_toNat (p : Pixel) : (p >>> 24).toNat = (channel p 3).toNat := by
  have hp := p.isLt
  rw [BitVec.toNat_ushiftRight, Nat.shiftRight_eq_div_pow, channel_toNat]
  omega

theorem alpha_setWidth (p : Pixel) {w : ℕ} : (p >>> 24).setWidth w = (channel p 3).setWidth w := by
  apply BitVec.eq_of_toNat_eq
  rw [BitVec.toNat_setWidth, BitVec.toNat_setWidth, alpha_toNat]

theorem colour_toNat (p : Pixel) (k : ℕ) :
    (p >>> (8 * k) &&& 0xFF#32).toNat = (channel p k).toNat := by
  rw [BitVec.toNat_and, BitVec.toNat_ushiftRight, Nat.shiftRight_eq_div_pow, channel_toNat]
  exact Nat.and_two_pow_sub_one_eq_mod _ 8

theorem channel_mul_le (c a : BitVec 8) : c.toNat * a.toNat ≤ 65025 := by
  have hc : c.toNat ≤ 255 := by omega
  have ha : a.toNat ≤ 255 := by omega
  exact Nat.mul_le_mul hc ha

theorem scale_toNat (c a : BitVec 8) : (scale c a).toNat = c.toNat * a.toNat / 255 := by
  have hle := channel_mul_le c a
  rw [scale, BitVec.toNat_ofNat, Nat.mod_eq_of_lt (by omega)]

theorem scale_setWidth {w : ℕ} (c a : BitVec 8) :
    (scale c a).setWidth w = BitVec.ofNat w (c.toNat * a.toNat / 255) := by
  apply BitVec.eq_of_toNat_eq
  rw [BitVec.toNat_setWidth, BitVec.toNat_ofNat, scale_toNat]

/-- Division by 255 as a high product and a shift. -/
theorem mul_magic_div (h : n ≤ 65025) : n * 0x8081 / 2 ^ 16 / 2 ^ 7 = n / 255 := by
  omega

theorem ofNat_magic_shift (h : n ≤ 65025) :
    BitVec.ofNat 16 (n * 0x8081 / 2 ^ 16) >>> 7 = BitVec.ofNat 16 (n / 255) := by
  apply BitVec.eq_of_toNat_eq
  rw [BitVec.toNat_ushiftRight, BitVec.toNat_ofNat, BitVec.toNat_ofNat, Nat.shiftRight_eq_div_pow,
    Nat.mod_eq_of_lt (by omega), mul_magic_div h, Nat.mod_eq_of_lt (by omega)]

theorem byte_pixel (hk : k < 4) : byte (p.setWidth 64) k = channel p k := by
  ext j hj
  simp only [byte, channel, BitVec.getElem_extractLsb', BitVec.getLsbD_setWidth]
  rw [decide_eq_true (by omega), Bool.true_and]

theorem word_unpacked (hk : k < 4) :
    word (punpcklbw (p.setWidth 64) 0#64) k = (channel p k).setWidth 16 := by
  rw [word_punpcklbw hk, byte_pixel hk]
  apply BitVec.eq_of_toNat_eq
  have hz : byte 0#64 k = 0#8 := by
    interval_cases k <;> rfl
  rw [hz, BitVec.toNat_append, BitVec.toNat_setWidth, BitVec.toNat_ofNat, Nat.zero_mod,
    Nat.zero_shiftLeft, Nat.zero_or, Nat.mod_eq_of_lt (by omega)]

/-- The lane of a colour before it is packed. -/
theorem word_scaled (hk : k < 3) :
    word (psrlwi (pmulhuw (pmullw (pshufw (punpcklbw (p.setWidth 64) 0#64) 255)
      (punpcklbw (p.setWidth 64) 0#64)) datum) 7) k =
      (scale (channel p k) (channel p 3)).setWidth 16 := by
  have hk' : k < 4 := by omega
  have hle := channel_mul_le (channel p k) (channel p 3)
  have hdatum : word datum k = 0x8081#16 := by
    interval_cases k <;> decide
  have hmask : 255 / 4 ^ k % 4 = 3 := by
    interval_cases k <;> rfl
  rw [word_psrlwi hk', word_pmulhuw hk', word_pmullw hk', word_pshufw hk', hdatum, hmask,
    word_unpacked hk', word_unpacked (by norm_num)]
  have hprod : ((channel p 3).setWidth 16 * (channel p k).setWidth 16).toNat =
      (channel p k).toNat * (channel p 3).toNat := by
    rw [BitVec.toNat_mul, BitVec.toNat_setWidth, BitVec.toNat_setWidth,
      Nat.mod_eq_of_lt (a := (channel p 3).toNat) (by omega),
      Nat.mod_eq_of_lt (a := (channel p k).toNat) (by omega), Nat.mul_comm,
      Nat.mod_eq_of_lt (by omega)]
  rw [hprod, scale_setWidth, ← ofNat_magic_shift hle]
  rfl

theorem premultiplyVector_eq (p : Pixel) : premultiplyVector p = premultiplied p := by
  -- A byte that was widened is packed as it was.
  have hpack : ∀ b : BitVec 8, saturate (b.setWidth 16) = b := by
    intro b
    rw [saturate_of_lt, BitVec.setWidth_setWidth_of_le _ (by norm_num), BitVec.setWidth_eq]
    rw [BitVec.toNat_setWidth]
    omega
  simp only [premultiplyVector, premultiplied, low_packuswb]
  rw [word_pinsrw (i := 3) (by norm_num), word_pinsrw (i := 2) (by norm_num),
    word_pinsrw (i := 1) (by norm_num), word_pinsrw (i := 0) (by norm_num), if_pos rfl,
    if_neg (by norm_num), if_neg (by norm_num), if_neg (by norm_num),
    word_scaled (k := 2) (by norm_num), word_scaled (k := 1) (by norm_num),
    word_scaled (k := 0) (by norm_num), alpha_setWidth, hpack, hpack, hpack, hpack]

theorem premultiplyScalar_eq (p : Pixel) : premultiplyScalar p = premultiplied p := by
  have hcolour : ∀ k, (p >>> (8 * k) &&& 0xFF#32) * (p >>> 24) / 255#32 =
      (scale (channel p k) (channel p 3)).setWidth 32 := by
    intro k
    have hle := channel_mul_le (channel p k) (channel p 3)
    apply BitVec.eq_of_toNat_eq
    rw [scale_setWidth, BitVec.toNat_udiv, BitVec.toNat_mul, colour_toNat, alpha_toNat,
      BitVec.toNat_ofNat, BitVec.toNat_ofNat, Nat.mod_eq_of_lt (by omega),
      Nat.mod_eq_of_lt (by omega), Nat.mod_eq_of_lt (by omega)]
  have hb := hcolour 0
  rw [BitVec.ushiftRight_zero] at hb
  simp only [premultiplyScalar, premultiplied, hb, hcolour 1, hcolour 2]
  generalize scale (channel p 0) (channel p 3) = b
  generalize scale (channel p 1) (channel p 3) = g
  generalize scale (channel p 2) (channel p 3) = r
  have hmask : ∀ j < 32, (0xFF000000#32).getLsbD j = decide (24 ≤ j) := by decide
  apply BitVec.eq_of_getLsbD_eq
  intro j hj
  simp only [BitVec.getLsbD_or, BitVec.getLsbD_and, BitVec.getLsbD_shiftLeft, BitVec.getLsbD_append,
    BitVec.getLsbD_setWidth, hmask j hj, channel, BitVec.getLsbD_extractLsb']
  grind

theorem channel_premultiplied (p : Pixel) :
    channel (premultiplied p) 3 = channel p 3 ∧
      ∀ k < 3, channel (premultiplied p) k = scale (channel p k) (channel p 3) := by
  constructor
  · ext j hj
    simp only [channel, premultiplied, BitVec.getElem_extractLsb', BitVec.getLsbD_append]
    grind
  · intro k hk
    ext j hj
    simp only [channel, premultiplied, BitVec.getElem_extractLsb', BitVec.getLsbD_append]
    interval_cases k <;> grind

/-! ### The cursor -/

/-- A pixel that neither form skips: its alpha is neither 0 nor 255. -/
def Blends (p : Pixel) : Prop := channel p 3 ≠ 0 ∧ channel p 3 ≠ 255#8

instance (p : Pixel) : Decidable (Blends p) := inferInstanceAs (Decidable (_ ∧ _))

theorem skips_iff (p : Pixel) : p >>> 24 = 0 ∨ (p >>> 24).setWidth 8 = 255#8 ↔ ¬ Blends p := by
  rw [Blends, not_and_or, not_not, not_not, alpha_setWidth, BitVec.setWidth_eq,
    ← BitVec.toNat_inj, alpha_toNat, ← BitVec.toNat_inj (x := channel p 3) (y := 0)]
  rfl

/-- The loop changes the pixels in its range that are not skipped, each once. -/
theorem convertPixels_apply (premultiply : Pixel → Pixel) (numPixels : ℕ) (cursor : ℕ)
    (m : ℕ → Pixel) (i : ℕ) :
    convertPixels premultiply numPixels cursor m i =
      if cursor ≤ i ∧ i < cursor + numPixels ∧ Blends (m i) then premultiply (m i) else m i := by
  induction numPixels generalizing cursor m with
  | zero => rw [convertPixels, if_neg (by omega)]
  | succ numPixels ih =>
    simp only [convertPixels, skips_iff]
    by_cases hi : i = cursor
    · subst hi
      by_cases hb : Blends (m i)
      · rw [if_neg (not_not.mpr hb), ih, if_neg (by omega), Function.update_self,
          if_pos ⟨le_rfl, by omega, hb⟩]
      · rw [if_pos hb, ih, if_neg (by omega), if_neg fun h => hb h.2.2]
    · have hlow : cursor + 1 ≤ i ↔ cursor ≤ i := by omega
      have hhigh : i < cursor + 1 + numPixels ↔ i < cursor + (numPixels + 1) := by omega
      by_cases hb : Blends (m cursor)
      · rw [if_neg (not_not.mpr hb), ih, Function.update_of_ne hi]
        simp only [hlow, hhigh]
      · rw [if_pos hb, ih]
        simp only [hlow, hhigh]

theorem convertAlphaCursor_apply (vectorize : Bool) (cursor : ℕ → Pixel) (width height : BitVec 32)
    (i : ℕ) :
    convertAlphaCursor vectorize cursor width height i =
      if i < (width * height).toNat ∧ Blends (cursor i) then premultiplied (cursor i)
      else cursor i := by
  have hpixel : (if vectorize then premultiplyVector else premultiplyScalar) (cursor i) =
      premultiplied (cursor i) := by
    cases vectorize
    · exact premultiplyScalar_eq _
    · exact premultiplyVector_eq _
  rw [convertAlphaCursor, convertPixels_apply, hpixel, Nat.zero_add]
  simp only [Nat.zero_le, true_and]

/-- The two forms leave the same pixels behind. Where alpha is neither 0 nor 255 each colour is
multiplied by alpha over 255, rounded down; alpha and all other pixels stay. -/
theorem convertAlphaCursor_vector_eq_scalar (cursor : ℕ → Pixel) (width height : BitVec 32) :
    convertAlphaCursor true cursor width height = convertAlphaCursor false cursor width height ∧
      ∀ vectorize i, let out := convertAlphaCursor vectorize cursor width height i
        (i < (width * height).toNat ∧ Blends (cursor i) →
          channel out 3 = channel (cursor i) 3 ∧ ∀ k < 3, (channel out k).toNat =
            (channel (cursor i) k).toNat * (channel (cursor i) 3).toNat / 255) ∧
        (¬ (i < (width * height).toNat ∧ Blends (cursor i)) → out = cursor i) := by
  refine ⟨?_, fun vectorize i => ⟨fun h => ?_, fun h => ?_⟩⟩
  · funext i
    rw [convertAlphaCursor_apply, convertAlphaCursor_apply]
  · obtain ⟨halpha, hcolour⟩ := channel_premultiplied (cursor i)
    rw [convertAlphaCursor_apply, if_pos h]
    refine ⟨halpha, fun k hk => ?_⟩
    rw [hcolour k hk, scale_toNat]
  · rw [convertAlphaCursor_apply, if_neg h]

end Cesvga2.FB
