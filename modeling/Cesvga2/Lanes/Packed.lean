import Mathlib

/-! A register of 64 bits that holds eight bytes or four words, with the instructions that work on
its lanes. Lane 0 is the low end. -/

namespace Cesvga2.Lanes

abbrev Reg := BitVec 64

variable (r s : Reg) (i : ℕ)

def byte : BitVec 8 := r.extractLsb' (8 * i) 8

def word : BitVec 16 := r.extractLsb' (16 * i) 16

def ofBytes (f : ℕ → BitVec 8) : Reg := f 7 ++ f 6 ++ f 5 ++ f 4 ++ f 3 ++ f 2 ++ f 1 ++ f 0

def ofWords (f : ℕ → BitVec 16) : Reg := f 3 ++ f 2 ++ f 1 ++ f 0

/-- `vec_ext_v2si` at 0. -/
def low : BitVec 32 := r.extractLsb' 0 32

/-! ### Instructions -/

/-- The low bytes of the two operands in turn. -/
def punpcklbw : Reg := ofBytes fun i => if i % 2 = 0 then byte r (i / 2) else byte s (i / 2)

/-- Two bits of the mask choose each word. -/
def pshufw (mask : ℕ) : Reg := ofWords fun i => word r (mask / 4 ^ i % 4)

def pmullw : Reg := ofWords fun i => word r i * word s i

/-- The high half of each unsigned product. -/
def pmulhuw : Reg :=
  ofWords fun i => BitVec.ofNat 16 ((word r i).toNat * (word s i).toNat / 2 ^ 16)

def psrlwi (n : ℕ) : Reg := ofWords fun i => word r i >>> n

def pinsrw (d : BitVec 32) (n : ℕ) : Reg :=
  ofWords fun i => if i = n then d.setWidth 16 else word r i

/-- A signed word as an unsigned byte. -/
def saturate (w : BitVec 16) : BitVec 8 :=
  if w.toInt < 0 then 0 else if 255 < w.toInt then 255 else w.setWidth 8

def packuswb : Reg := ofBytes fun i => saturate (if i < 4 then word r i else word s (i - 4))

/-! ### Their lanes -/

variable {r s i}

theorem word_ofWords {f : ℕ → BitVec 16} (hi : i < 4) : word (ofWords f) i = f i := by
  ext j hj
  simp only [word, ofWords, BitVec.getElem_extractLsb', BitVec.getLsbD_append]
  interval_cases i <;> grind

theorem word_ofBytes {f : ℕ → BitVec 8} (hi : i < 4) :
    word (ofBytes f) i = f (2 * i + 1) ++ f (2 * i) := by
  ext j hj
  simp only [word, ofBytes, BitVec.getElem_extractLsb', BitVec.getLsbD_append]
  interval_cases i <;> grind

theorem low_ofBytes {f : ℕ → BitVec 8} : low (ofBytes f) = f 3 ++ f 2 ++ f 1 ++ f 0 := by
  ext j hj
  simp only [low, ofBytes, BitVec.getElem_extractLsb', BitVec.getLsbD_append]
  grind

theorem word_punpcklbw (hi : i < 4) : word (punpcklbw r s) i = byte s i ++ byte r i := by
  rw [punpcklbw, word_ofBytes hi, if_neg (by omega), if_pos (by omega)]
  congr 2 <;> omega

theorem word_pshufw {mask : ℕ} (hi : i < 4) :
    word (pshufw r mask) i = word r (mask / 4 ^ i % 4) := word_ofWords hi

theorem word_pmullw (hi : i < 4) : word (pmullw r s) i = word r i * word s i := word_ofWords hi

theorem word_pmulhuw (hi : i < 4) : word (pmulhuw r s) i =
    BitVec.ofNat 16 ((word r i).toNat * (word s i).toNat / 2 ^ 16) := word_ofWords hi

theorem word_psrlwi {n : ℕ} (hi : i < 4) : word (psrlwi r n) i = word r i >>> n := word_ofWords hi

theorem word_pinsrw {d : BitVec 32} {n : ℕ} (hi : i < 4) :
    word (pinsrw r d n) i = if i = n then d.setWidth 16 else word r i := word_ofWords hi

theorem low_packuswb : low (packuswb r s) =
    saturate (word r 3) ++ saturate (word r 2) ++ saturate (word r 1) ++ saturate (word r 0) :=
  low_ofBytes

/-- A word that a byte can hold is packed as it is. -/
theorem saturate_of_lt {w : BitVec 16} (h : w.toNat < 256) : saturate w = w.setWidth 8 := by
  have hint : w.toInt = w.toNat := BitVec.toInt_eq_toNat_of_lt (by omega)
  rw [saturate, if_neg (by omega), if_neg (by omega)]

end Cesvga2.Lanes
