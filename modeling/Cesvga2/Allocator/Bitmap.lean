import Cesvga2.Basic

/-! The allocator's bit map, one bit a block, most significant bit first within
a byte. The range operations treat the bits up to the first byte boundary and
after the last one singly and the bytes between with string instructions. The
byte scans stop at the first byte that differs and then report whether any
bytes are left to compare, so they miss a difference in the last byte. -/

namespace Cesvga2.Allocator

abbrev Map := ℕ → BitVec 8

namespace Map

variable {m : Map} {n i j first past : ℕ}

/-- `128U >> (n & 7)`. -/
def mask (n : ℕ) : BitVec 8 := 128#8 >>> (n % 8)

def bitTest (m : Map) (n : ℕ) : Bool := m (n / 8) &&& mask n != 0#8

def bitSet (m : Map) (n : ℕ) : Map := Function.update m (n / 8) (m (n / 8) ||| mask n)

def bitClear (m : Map) (n : ℕ) : Map := Function.update m (n / 8) (m (n / 8) &&& ~~~mask n)

/-- The count register after `repe scasb` over `bytes` bytes at `p`: it goes
down with every byte compared, the first one that differs from `al` included. -/
def scasb (m : Map) (al : BitVec 8) : (p bytes : ℕ) → ℕ
  | _, 0 => 0
  | p, bytes + 1 => if m p = al then scasb m al (p + 1) bytes else bytes

def memAll (m : Map) (p bytes : ℕ) : Bool :=
  if bytes = 0 then true else scasb m 0xFF#8 p bytes == 0

def memAny (m : Map) (p bytes : ℕ) : Bool :=
  if bytes = 0 then false else scasb m 0x00#8 p bytes != 0

def bzero (m : Map) (p bytes : ℕ) : Map := fun q => if p ≤ q ∧ q < p + bytes then 0#8 else m q

/-- The bits `i, …, j - 1` in the order the loops visit them. -/
def span (i j : ℕ) : List ℕ := List.range' i (j - i)

def firstFull (firstBit : ℕ) : ℕ := (firstBit + 7) / 8 * 8

def pastFull (pastBit : ℕ) : ℕ := pastBit / 8 * 8

def testAll (m : Map) (firstBit pastBit : ℕ) : Bool :=
  let lo := firstFull firstBit
  let hi := pastFull pastBit
  let past := min pastBit lo
  (span firstBit past).all m.bitTest &&
    (if lo < hi then m.memAll (lo / 8) ((hi - lo) / 8) else true) &&
    (span (max hi past) pastBit).all m.bitTest

def clearAll (m : Map) (firstBit pastBit : ℕ) : Map :=
  let lo := firstFull firstBit
  let hi := pastFull pastBit
  let past := min pastBit lo
  let m := (span firstBit past).foldl bitClear m
  let m := if lo < hi then m.bzero (lo / 8) ((hi - lo) / 8) else m
  (span (max hi past) pastBit).foldl bitClear m

def clearCheck (m : Map) (firstBit pastBit : ℕ) : Except IOReturn Map :=
  if m.testAll firstBit pastBit then .ok (m.clearAll firstBit pastBit) else .error .badMedia

def testAny (m : Map) (firstBit pastBit : ℕ) : Bool :=
  let lo := firstFull firstBit
  let hi := pastFull pastBit
  let past := min pastBit lo
  (span firstBit past).any m.bitTest ||
    (if lo < hi then m.memAny (lo / 8) ((hi - lo) / 8) else false) ||
    (span (max hi past) pastBit).any m.bitTest

/-! ### Single bits -/

theorem mask_eq (n : ℕ) : mask n = BitVec.twoPow 8 (7 - n % 8) := by
  have h : ∀ k < 8, 128#8 >>> k = BitVec.twoPow 8 (7 - k) := by decide
  exact h _ (Nat.mod_lt _ (by norm_num))

theorem bitTest_eq (m : Map) (n : ℕ) : m.bitTest n = (m (n / 8)).getLsbD (7 - n % 8) := by
  simp only [bitTest, mask_eq, BitVec.and_twoPow]
  split
  · next h =>
    rw [h, bne_iff_ne]
    have hpos : ∀ k < 8, BitVec.twoPow 8 k ≠ 0#8 := by decide
    exact hpos _ (by omega)
  · next h => simpa using h

theorem mask_getLsbD (hi : i < 8) : (mask n).getLsbD (7 - i) = decide (n % 8 = i) := by
  rw [mask_eq, BitVec.getLsbD_twoPow]
  have : n % 8 < 8 := Nat.mod_lt _ (by norm_num)
  by_cases h : n % 8 = i <;> simp [h] <;> omega

@[simp] theorem bitTest_bitSet : (m.bitSet n).bitTest i = (m.bitTest i || decide (i = n)) := by
  rw [bitTest_eq, bitTest_eq, bitSet]
  by_cases hq : i / 8 = n / 8
  · rw [hq, Function.update_self, BitVec.getLsbD_or, mask_getLsbD (Nat.mod_lt _ (by norm_num))]
    congr 1
    rw [decide_eq_decide]
    omega
  · have : i ≠ n := fun h => hq (by rw [h])
    simp [Function.update_of_ne hq, this]

@[simp] theorem bitTest_bitClear :
    (m.bitClear n).bitTest i = (m.bitTest i && !decide (i = n)) := by
  rw [bitTest_eq, bitTest_eq, bitClear]
  by_cases hq : i / 8 = n / 8
  · rw [hq, Function.update_self, BitVec.getLsbD_and, BitVec.getLsbD_not,
      mask_getLsbD (Nat.mod_lt _ (by norm_num))]
    have hn : (decide (n % 8 = i % 8)) = decide (i = n) := by rw [decide_eq_decide]; omega
    have h8 : 7 - i % 8 < 8 := by omega
    simp [hn, h8]
  · have : i ≠ n := fun h => hq (by rw [h])
    simp [Function.update_of_ne hq, this]

theorem bitTest_foldl_bitClear (l : List ℕ) (m : Map) :
    (l.foldl bitClear m).bitTest i = (m.bitTest i && !decide (i ∈ l)) := by
  induction l generalizing m with
  | nil => simp
  | cons a l ih =>
    rw [List.foldl_cons, ih, bitTest_bitClear]
    by_cases h1 : i = a <;> by_cases h2 : i ∈ l <;> simp [h1, h2]

@[simp] theorem mem_span : n ∈ span i j ↔ i ≤ n ∧ n < j := by
  simp only [span, List.mem_range'_1]
  omega

/-! ### Byte ranges -/

theorem bitTest_bzero (p bytes : ℕ) : (m.bzero p bytes).bitTest i =
    (m.bitTest i && !decide (8 * p ≤ i ∧ i < 8 * (p + bytes))) := by
  rw [bitTest_eq, bitTest_eq, bzero]
  split
  · have : 8 * p ≤ i ∧ i < 8 * (p + bytes) := by omega
    simp [this]
  · have : ¬ (8 * p ≤ i ∧ i < 8 * (p + bytes)) := by omega
    simp [this]

/-- The scan leaves a count of zero whatever the last byte is. -/
theorem scasb_eq_zero_iff {al : BitVec 8} {p bytes : ℕ} :
    scasb m al p bytes = 0 ↔ ∀ q, p ≤ q → q + 1 < p + bytes → m q = al := by
  induction bytes generalizing p with
  | zero => exact ⟨fun _ q h1 h2 => absurd h2 (by omega), fun _ => rfl⟩
  | succ bytes ih =>
    rw [scasb]
    split
    · next hp =>
      rw [ih]
      refine ⟨fun h q h1 h2 => ?_, fun h q h1 h2 => h q (by omega) (by omega)⟩
      rcases Nat.eq_or_lt_of_le h1 with rfl | h1
      · exact hp
      · exact h q h1 (by omega)
    · next hp =>
      refine ⟨fun h q h1 h2 => absurd h2 (by omega), fun h => ?_⟩
      by_contra hb
      exact hp (h p le_rfl (by omega))

theorem byte_eq_of_bits {c : Bool} (h : ∀ k < 8, m.bitTest (8 * n + k) = c) :
    m n = if c then 0xFF#8 else 0x00#8 := by
  have hbit : ∀ k < 8, (m n).getLsbD k = c := fun k hk => by
    have := h (7 - k) (by omega)
    rw [bitTest_eq] at this
    rwa [show (8 * n + (7 - k)) / 8 = n by omega,
      show 7 - (8 * n + (7 - k)) % 8 = k by omega] at this
  refine BitVec.eq_of_getLsbD_eq fun k hk => ?_
  rw [hbit k hk]
  have ht : ∀ k < 8, (0xFF#8).getLsbD k = true := by decide
  cases c
  · simp
  · exact (ht k hk).symm

theorem bits_of_byte_eq {c : Bool} (h : m (n / 8) = if c then 0xFF#8 else 0x00#8) :
    m.bitTest n = c := by
  have ht : ∀ k < 8, (0xFF#8).getLsbD k = true := by decide
  rw [bitTest_eq, h]
  cases c with
  | false => simp
  | true => exact ht _ (by omega)

/-- A byte scan finds no difference where the bits of all bytes but the last
agree. -/
theorem scasb_eq_zero_iff_bits {p bytes : ℕ} {c : Bool} :
    scasb m (if c then 0xFF#8 else 0x00#8) p bytes = 0 ↔
      ∀ n, 8 * p ≤ n → n + 8 < 8 * (p + bytes) → m.bitTest n = c := by
  rw [scasb_eq_zero_iff]
  constructor
  · exact fun h n h1 h2 => bits_of_byte_eq (h (n / 8) (by omega) (by omega))
  · exact fun h q h1 h2 => byte_eq_of_bits fun k hk => h (8 * q + k) (by omega) (by omega)

/-- Every bit outside the range keeps its value, every bit inside is cleared. -/
theorem bitTest_clearAll : (m.clearAll first past).bitTest n =
    (m.bitTest n && !decide (first ≤ n ∧ n < past)) := by
  have key : (m.clearAll first past).bitTest n = (m.bitTest n &&
      !decide (n ∈ span first (min past (firstFull first))) &&
      !decide (firstFull first ≤ n ∧ n < pastFull past) &&
      !decide (n ∈ span (max (pastFull past) (min past (firstFull first))) past)) := by
    simp only [clearAll, bitTest_foldl_bitClear]
    congr 1
    split
    · next h =>
      rw [bitTest_bzero, bitTest_foldl_bitClear]
      congr 2
      rw [decide_eq_decide]
      simp only [firstFull, pastFull] at h ⊢
      omega
    · next h =>
      have : ¬ (firstFull first ≤ n ∧ n < pastFull past) := by omega
      simp [bitTest_foldl_bitClear, this]
  rw [key]
  cases m.bitTest n with
  | false => simp
  | true =>
    rw [Bool.eq_iff_iff]
    simp only [Bool.true_and, Bool.and_eq_true, Bool.not_eq_true', decide_eq_false_iff_not,
      mem_span]
    simp only [firstFull, pastFull]
    omega

/-- The bits of the last full byte of a range, which its byte scan compares and
does not report. -/
def Unseen (firstBit pastBit n : ℕ) : Prop :=
  firstFull firstBit < pastFull pastBit ∧ pastFull pastBit ≤ n + 8 ∧ n < pastFull pastBit

instance (firstBit pastBit n : ℕ) : Decidable (Unseen firstBit pastBit n) :=
  inferInstanceAs (Decidable (_ ∧ _ ∧ _))

/-- The three parts of a range test look at the bits other than the unseen. -/
theorem forall_seen_iff {P : ℕ → Prop} :
    ((∀ n ∈ span first (min past (firstFull first)), P n) ∧
      (firstFull first < pastFull past → ∀ n, firstFull first ≤ n → n + 8 < pastFull past → P n) ∧
      ∀ n ∈ span (max (pastFull past) (min past (firstFull first))) past, P n) ↔
    ∀ n, first ≤ n → n < past → ¬ Unseen first past n → P n := by
  simp only [mem_span, Unseen]
  have hlo : first ≤ firstFull first ∧ firstFull first % 8 = 0 := by
    simp only [firstFull]; omega
  have hhi : pastFull past ≤ past ∧ pastFull past % 8 = 0 := by simp only [pastFull]; omega
  constructor
  · rintro ⟨h1, h2, h3⟩ n hf hp hu
    rcases lt_or_ge n (firstFull first) with hn | hn
    · exact h1 n (by omega)
    rcases lt_or_ge n (pastFull past) with hn' | hn'
    · exact h2 (by omega) n hn (by omega)
    · exact h3 n (by omega)
  · intro h
    exact ⟨fun n hn => h n hn.1 (by omega) (by omega),
      fun hlt n h1 h2 => h n (by omega) (by omega) (by omega),
      fun n hn => h n (by omega) hn.2 (by omega)⟩

/-- The byte scan of a range test, over the whole bytes between its ends. -/
theorem scasb_full {c : Bool} : scasb m (if c then 0xFF#8 else 0x00#8) (firstFull first / 8)
      ((pastFull past - firstFull first) / 8) = 0 ↔
    (firstFull first < pastFull past →
      ∀ n, firstFull first ≤ n → n + 8 < pastFull past → m.bitTest n = c) := by
  rw [scasb_eq_zero_iff_bits]
  simp only [firstFull, pastFull]
  exact ⟨fun h hlt n h1 h2 => h n (by omega) (by omega),
    fun h n h1 h2 => h (by omega) n (by omega) (by omega)⟩

theorem testAll_iff : m.testAll first past = true ↔
    ∀ n, first ≤ n → n < past → ¬ Unseen first past n → m.bitTest n = true := by
  have hmem : (if firstFull first < pastFull past then
        m.memAll (firstFull first / 8) ((pastFull past - firstFull first) / 8) else true) = true ↔
      scasb m (if true then 0xFF#8 else 0x00#8) (firstFull first / 8)
        ((pastFull past - firstFull first) / 8) = 0 := by
    rw [memAll]
    split
    · split
      · next h0 => simp [h0, scasb]
      · simp
    · next hlt => simp [show (pastFull past - firstFull first) / 8 = 0 by omega, scasb]
  rw [← forall_seen_iff, ← scasb_full, ← hmem]
  simp only [testAll, Bool.and_eq_true, List.all_eq_true, and_assoc]

theorem testAny_iff : m.testAny first past = false ↔
    ∀ n, first ≤ n → n < past → ¬ Unseen first past n → m.bitTest n = false := by
  have hmem : (if firstFull first < pastFull past then
        m.memAny (firstFull first / 8) ((pastFull past - firstFull first) / 8) else false) = false ↔
      scasb m (if false then 0xFF#8 else 0x00#8) (firstFull first / 8)
        ((pastFull past - firstFull first) / 8) = 0 := by
    rw [memAny]
    split
    · split
      · next h0 => simp [h0, scasb]
      · simp
    · next hlt => simp [show (pastFull past - firstFull first) / 8 = 0 by omega, scasb]
  rw [← forall_seen_iff, ← scasb_full, ← hmem]
  simp only [testAny, Bool.or_eq_false_iff, List.any_eq_false, Bool.not_eq_true, and_assoc]

theorem testAll_of_forall (h : ∀ n, first ≤ n → n < past → m.bitTest n = true) :
    m.testAll first past = true :=
  testAll_iff.mpr fun n h1 h2 _ => h n h1 h2

theorem testAny_of_forall (h : ∀ n, first ≤ n → n < past → m.bitTest n = false) :
    m.testAny first past = false :=
  testAny_iff.mpr fun n h1 h2 _ => h n h1 h2

end Map

end Cesvga2.Allocator
