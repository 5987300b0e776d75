import Cesvga2.Basic
import Cesvga2.Bits.Bitmap

/-! The bitmaps from which the accelerator hands out surface and GMR ids. The search for a
free id starts at a cached word, below which every word is full. -/

namespace Cesvga2.Ids

open Cesvga2.Bits (bit setBit clearBit Lowest)

/-- `log_2_32`; nothing stands for its result of `-1`. -/
def log232 (x : BitVec 32) : Option ℕ :=
  let (y, x) := if x &&& 0xFFFF0000#32 ≠ 0 then (16, x >>> 16) else (0, x)
  let (y, x) := if x &&& 0xFF00#32 ≠ 0 then (y ||| 8, x >>> 8) else (y, x)
  let (y, x) := if x &&& 0xF0#32 ≠ 0 then (y ||| 4, x >>> 4) else (y, x)
  let (y, x) := if x &&& 0xC#32 ≠ 0 then (y ||| 2, x >>> 2) else (y, x)
  let (y, x) := if x &&& 0x2#32 ≠ 0 then (y ||| 1, x >>> 1) else (y, x)
  if x &&& 1#32 = 0 then none else some y

def log264 (x : BitVec 64) : Option ℕ :=
  let (y, x) := if x &&& 0xFFFFFFFF00000000#64 ≠ 0 then (32, x >>> 32) else (0, x)
  (log232 (x.setWidth 32)).map (y ||| ·)

/-- The words from word `k` on, `n` of them; `i` bits were passed over. -/
def findBitInArray64 (m : ℕ → BitVec 64) : (n k i : ℕ) → Option (ℕ × (ℕ → BitVec 64))
  | 0, _, _ => none
  | n + 1, k, i =>
    let x := ~~~(m k) &&& (m k + 1#64)
    if x = 0 then findBitInArray64 m n (k + 1) (i + 64)
    else (log264 x).map fun y => (i + y, Function.update m k (m k ||| x))

/-- `for (i = first; i < past; ++i) array[i >> 6] |= 1ULL << (i & 63)`. -/
def setBits (m : ℕ → BitVec 64) (first past : ℕ) : ℕ → BitVec 64 :=
  (List.range' first (past - first)).foldl setBit m

def fillWords (m : ℕ → BitVec 64) (k n : ℕ) : ℕ → BitVec 64 :=
  (List.range' k n).foldl (fun m i => Function.update m i (BitVec.allOnes 64)) m

/-- Sets the bits from `start` on and before `stop`, whole words at once. -/
def maskArray64 (m : ℕ → BitVec 64) (start stop : ℕ) : ℕ → BitVec 64 :=
  let firstFull := (start + 63) / 64 * 64
  let pastFull := stop / 64 * 64
  let past := if firstFull ≤ stop then firstFull else stop
  let m := setBits m start past
  let m := if firstFull < pastFull then fillWords m (firstFull / 64) ((pastFull - firstFull) / 64)
    else m
  setBits m (if pastFull < past then past else pastFull) stop

/-- A bitmap and its cached index. -/
structure Pool where
  mask : ℕ → BitVec 64
  idx : ℕ

/-- The search of `AllocSurfaceID` and `AllocGMRID` in their `n` words. -/
def Pool.alloc (n : ℕ) (p : Pool) : Option ℕ × Pool :=
  match findBitInArray64 p.mask (n - p.idx) p.idx 0 with
  | none => (none, { p with idx := n })
  | some (r, mask) => (some (r + 64 * p.idx), ⟨mask, p.idx + r / 64⟩)

/-- `FreeSurfaceID` and `FreeGMRID`. -/
def Pool.free (n : ℕ) (p : Pool) (id : ℕ) : Pool :=
  if n ≤ id / 64 then p
  else ⟨clearBit p.mask id, if id / 64 < p.idx then id / 64 else p.idx⟩

/-! ### The search -/

variable {m m' : ℕ → BitVec 64} {n k i r : ℕ}

theorem log264_twoPow : ∀ i < 64, log264 (BitVec.twoPow 64 i) = some i := by decide +kernel

theorem isolate_eq_zero_iff (x : BitVec 64) : ~~~x &&& (x + 1#64) = 0 ↔ x = BitVec.allOnes 64 := by
  constructor
  · intro h
    by_contra hne
    obtain ⟨y, hy⟩ := Bits.exists_lowest hne
    exact Bits.twoPow_ne_zero hy.lt (hy.isolate ▸ h)
  · rintro rfl
    exact Bits.isolate_allOnes

theorem findBitInArray64_none (h : findBitInArray64 m n k i = none) :
    ∀ j, k ≤ j → j < k + n → m j = BitVec.allOnes 64 := by
  induction n generalizing k i with
  | zero =>
    intro j hj hlt
    omega
  | succ n ih =>
    rw [findBitInArray64] at h
    split_ifs at h with hx
    · intro j hj hlt
      rcases Nat.eq_or_lt_of_le hj with rfl | hgt
      · exact (isolate_eq_zero_iff _).mp hx
      · exact ih h j hgt (by omega)
    · obtain ⟨y, hy⟩ := Bits.exists_lowest fun hfull => hx ((isolate_eq_zero_iff _).mpr hfull)
      rw [hy.isolate, log264_twoPow y hy.lt] at h
      cases h

/-- The bit that is found is the lowest clear bit of the first word that is not full. -/
theorem findBitInArray64_some (h : findBitInArray64 m n k i = some (r, m')) :
    ∃ j y, k ≤ j ∧ j < k + n ∧ (∀ l, k ≤ l → l < j → m l = BitVec.allOnes 64) ∧
      Lowest (m j) y ∧ r = i + 64 * (j - k) + y ∧ m' = setBit m (64 * j + y) := by
  induction n generalizing k i with
  | zero => cases h
  | succ n ih =>
    rw [findBitInArray64] at h
    split_ifs at h with hx
    · obtain ⟨j, y, hkj, hjn, hfull, hy, hr, hm⟩ := ih h
      refine ⟨j, y, by omega, by omega, fun l hl hlj => ?_, hy, by omega, hm⟩
      rcases Nat.eq_or_lt_of_le hl with rfl | hgt
      · exact (isolate_eq_zero_iff _).mp hx
      · exact hfull l hgt hlj
    · obtain ⟨y, hy⟩ := Bits.exists_lowest fun hfull => hx ((isolate_eq_zero_iff _).mpr hfull)
      rw [hy.isolate, log264_twoPow y hy.lt] at h
      cases h
      have hlt := hy.lt
      refine ⟨k, y, le_rfl, by omega, fun l hl hlk => by omega, hy, by omega, ?_⟩
      rw [setBit, show (64 * k + y) / 64 = k by omega, show (64 * k + y) % 64 = y by omega]

/-! ### Masking -/

theorem bit_foldl_setBit (l : List ℕ) {j : ℕ} :
    bit (l.foldl setBit m) j = (bit m j || decide (j ∈ l)) := by
  induction l generalizing m with
  | nil => simp
  | cons a l ih =>
    rw [List.foldl_cons, ih, Bits.bit_setBit (by decide), Bool.or_assoc]
    congr 1
    simp [eq_comm]

theorem bit_setBits {first past j : ℕ} :
    bit (setBits m first past) j = (bit m j || decide (first ≤ j ∧ j < past)) := by
  rw [setBits, bit_foldl_setBit]
  congr 1
  simp only [List.mem_range'_1, decide_eq_decide]
  omega

theorem bit_fillWords {j : ℕ} :
    bit (fillWords m k n) j = (bit m j || decide (k ≤ j / 64 ∧ j / 64 < k + n)) := by
  unfold fillWords
  have hfold : ∀ l : List ℕ, bit (l.foldl
      (fun m i => Function.update m i (BitVec.allOnes 64)) m) j =
        (bit m j || decide (j / 64 ∈ l)) := by
    intro l
    induction l generalizing m with
    | nil => simp
    | cons a l ih =>
      rw [List.foldl_cons, ih]
      by_cases ha : j / 64 = a
      · have hset : bit (Function.update m a (BitVec.allOnes 64)) j = true := by
          rw [bit, ha, Function.update_self, BitVec.getLsbD_allOnes]
          exact decide_eq_true (Nat.mod_lt j (by decide))
        rw [hset, Bool.true_or, decide_eq_true (List.mem_cons.mpr (.inl ha)), Bool.or_true]
      · simp [bit, ha]
  rw [hfold]
  simp only [List.mem_range'_1]

theorem bit_maskArray64 (start stop : ℕ) {j : ℕ} :
    bit (maskArray64 m start stop) j = (bit m j || decide (start ≤ j ∧ j < stop)) := by
  unfold maskArray64
  simp only [bit_setBits]
  split_ifs <;> simp only [bit_setBits, bit_fillWords, Bool.or_assoc, ← Bool.decide_or] <;>
    congr 1 <;> rw [decide_eq_decide] <;> omega

/-! ### The invariant -/

/-- The ids that the pool manages, all but those in `live` and those from `limit` on. -/
def Free (n limit : ℕ) (live : Finset ℕ) : Set ℕ := { i | i < 64 * n ∧ i < limit ∧ i ∉ live }

/-- The bits set are those of the live ids and of the ids from `limit` on, and every word
below the index is full. -/
structure Pool.Inv (n limit : ℕ) (live : Finset ℕ) (p : Pool) : Prop where
  idx_le : p.idx ≤ n
  full : ∀ k < p.idx, p.mask k = BitVec.allOnes 64
  bits : ∀ i < 64 * n, bit p.mask i = true ↔ i ∈ live ∨ limit ≤ i

variable {limit : ℕ} {live : Finset ℕ} {p : Pool} {id : ℕ}

theorem Pool.Inv.mem_free (h : p.Inv n limit live) (hi : i < 64 * n) (hbit : bit p.mask i = false) :
    i ∈ Free n limit live := by
  have := (h.bits i hi).not.mp (by simp [hbit])
  push Not at this
  exact ⟨hi, this.2, this.1⟩

/-- Words that the search passes over are full, as those before the index are. -/
theorem Pool.Inv.full_below (h : p.Inv n limit live) {j : ℕ}
    (hfull : ∀ k, p.idx ≤ k → k < j → p.mask k = BitVec.allOnes 64) :
    ∀ k < j, p.mask k = BitVec.allOnes 64 := by
  intro k hk
  rcases Nat.lt_or_ge k p.idx with hlt | hge
  · exact h.full k hlt
  · exact hfull k hge hk

theorem Pool.Inv.not_free (h : p.Inv n limit live) (hbit : bit p.mask i = true) :
    i ∉ Free n limit live := by
  rintro ⟨hi, hlim, hlive⟩
  rcases (h.bits i hi).mp hbit with hmem | hge
  · exact hlive hmem
  · omega

/-- Taking an id whose words before it are full. -/
theorem Pool.Inv.take (h : p.Inv n limit live) {j : ℕ} (hj : j ≤ n)
    (hfull : ∀ k < j, p.mask k = BitVec.allOnes 64) :
    Pool.Inv n limit (insert id live) ⟨setBit p.mask id, j⟩ := by
  have hbit : ∀ i, bit (setBit p.mask id) i = (bit p.mask i || decide (id = i)) :=
    fun i => Bits.bit_setBit (by decide)
  refine ⟨hj, fun k hk => (Bits.eq_allOnes_iff (by decide)).mpr fun i hi => ?_, fun i hi => ?_⟩
  · rw [hbit, (Bits.eq_allOnes_iff (by decide)).mp (hfull k hk) i hi, Bool.true_or]
  · rw [hbit, Bool.or_eq_true, h.bits i hi, decide_eq_true_iff, Finset.mem_insert, or_comm,
      ← or_assoc, eq_comm]

theorem Pool.Inv.alloc_none (h : p.Inv n limit live) (ha : (p.alloc n).1 = none) :
    Free n limit live = ∅ ∧ (p.alloc n).2.Inv n limit live := by
  unfold Pool.alloc at ha ⊢
  split at ha
  next hfind =>
    have hidx := h.idx_le
    have hfull : ∀ k < n, p.mask k = BitVec.allOnes 64 :=
      h.full_below fun k hge hk => findBitInArray64_none hfind k hge (by omega)
    refine ⟨Set.eq_empty_of_forall_notMem fun i hi => ?_, le_rfl, hfull, h.bits⟩
    have hword := hfull (i / 64) (by have := hi.1; omega)
    exact h.not_free ((Bits.eq_allOnes_iff (by decide)).mp hword i rfl) hi
  next hfind => cases ha

theorem Pool.Inv.alloc_some (h : p.Inv n limit live) (ha : (p.alloc n).1 = some id) :
    IsLeast (Free n limit live) id ∧ (p.alloc n).2.Inv n limit (insert id live) := by
  unfold Pool.alloc at ha ⊢
  split at ha
  next hfind => cases ha
  next r mask hfind =>
    obtain ⟨j, y, hkj, hjn, hpassed, hy, hr, rfl⟩ := findBitInArray64_some hfind
    have hy64 := hy.lt
    have hidx := h.idx_le
    obtain rfl : id = 64 * j + y := by
      have := Option.some.inj ha
      omega
    have hfull := h.full_below hpassed
    have hclear : bit p.mask (64 * j + y) = false := by
      rw [bit, show (64 * j + y) / 64 = j by omega, show (64 * j + y) % 64 = y by omega]
      exact hy.clear
    -- below the id found, whole words are full and the rest of its word is
    have hbelow : ∀ i < 64 * j + y, bit p.mask i = true := by
      intro i hi
      rcases Nat.lt_or_ge (i / 64) j with hlt | hge
      · exact (Bits.eq_allOnes_iff (by decide)).mp (hfull _ hlt) i rfl
      · rw [bit, show i / 64 = j by omega]
        exact hy.below _ (by omega)
    refine ⟨⟨h.mem_free (by omega) hclear, fun i hi => ?_⟩, ?_⟩
    · exact Nat.le_of_not_lt fun hlt => h.not_free (hbelow i hlt) hi
    · have hword : p.idx + r / 64 = j := by omega
      rw [hword]
      exact h.take (by omega) hfull

/-- An id past the bitmap has no bit. -/
theorem Pool.Inv.insert_of_ge (h : p.Inv n limit live) (hid : 64 * n ≤ id) :
    p.Inv n limit (insert id live) := by
  refine ⟨h.idx_le, h.full, fun i hi => ?_⟩
  rw [h.bits i hi, Finset.mem_insert, or_iff_right (by omega : i ≠ id)]

/-- An id that is given back; ids past the bitmap are not kept. -/
theorem Pool.Inv.free (h : p.Inv n limit live) (hid : id < 64 * n → id < limit) :
    (p.free n id).Inv n limit (live.erase id) := by
  unfold Pool.free
  split_ifs with hn hlt
  · refine ⟨h.idx_le, h.full, fun i hi => ?_⟩
    rw [h.bits i hi, Finset.mem_erase, and_iff_right (by omega)]
  all_goals
    have hbits : ∀ i < 64 * n, bit (clearBit p.mask id) i = true ↔
        i ∈ live.erase id ∨ limit ≤ i := by
      intro i hi
      have hlimit := hid (by omega)
      rw [Bits.bit_clearBit (by decide), Bool.and_eq_true, h.bits i hi, Finset.mem_erase]
      by_cases heq : id = i
      · subst heq
        simp
        omega
      · simp [heq, Ne.symm heq]
    have hfull : ∀ k < p.idx, k ≠ id / 64 → clearBit p.mask id k = BitVec.allOnes 64 :=
      fun k hk hne => (Function.update_of_ne hne _ _).trans (h.full k hk)
  · exact ⟨by have := h.idx_le; dsimp only; omega,
      fun k hk => hfull k (by dsimp only at hk; omega) (by dsimp only at hk; omega), hbits⟩
  · exact ⟨h.idx_le, fun k hk => hfull k hk (by dsimp only at hk; omega), hbits⟩

end Cesvga2.Ids
