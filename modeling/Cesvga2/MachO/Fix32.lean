import Mathlib.Data.List.Basic
import Mathlib.Tactic.NormNum

/-! `fix-macho32.py` moves the symbol table and the string table of a 32-bit Mach-O file to
multiples of four. It computes the new offsets as if the symbol table came first, and inserts the
padding in the order in which the tables stand in the file. -/

namespace Cesvga2.MachO

abbrev Bytes := List UInt8

/-- A `BytesIO` with its position. -/
structure Reader where
  bytes : Bytes
  pos : ℕ
  deriving DecidableEq, Repr

/-- `read(n)`, which reads all there is if `n` is negative. -/
def Reader.read (r : Reader) (n : ℤ) : Bytes × Reader :=
  let part := if n < 0 then r.bytes.drop r.pos else (r.bytes.drop r.pos).take n.toNat
  (part, { r with pos := r.pos + part.length })

/-- `(n + 3) & ~(3)`. -/
def align4 (n : ℕ) : ℕ := (n + 3) / 4 * 4

/-- The bytes up to `first` and from there up to `second`, each with its padding, and the rest. -/
def Reader.copyPadded (r : Reader) (first pad second pad' : ℕ) : Bytes :=
  let (upToFirst, r) := r.read (first - r.pos)
  let (upToSecond, r) := r.read (second - r.pos)
  let (rest, _) := r.read (-1)
  upToFirst ++ List.replicate pad 0 ++ upToSecond ++ List.replicate pad' 0 ++ rest

/-- The offsets in the symbol table command and the file that is written. -/
structure Fixed where
  symoff : ℕ
  stroff : ℕ
  file : Bytes
  deriving DecidableEq, Repr

/-- From the alignment of the symbol table on; `header` is what `macholib` writes. -/
def fixMacho32 (header original : Bytes) (oldSymOff oldStrOff : ℕ) : Fixed :=
  let newSymOff := align4 oldSymOff
  let symOffDelta := newSymOff - oldSymOff
  let newStrOff := align4 (oldStrOff + symOffDelta)
  let strOffDelta := newStrOff - (oldStrOff + symOffDelta)
  let r : Reader := ⟨original, header.length⟩
  { symoff := newSymOff
    stroff := newStrOff
    file := header ++
      if oldSymOff > oldStrOff then r.copyPadded oldStrOff strOffDelta oldSymOff symOffDelta
      else r.copyPadded oldSymOff symOffDelta oldStrOff strOffDelta }

/-- Where things are in a file: the tables come after the header and the load commands, lie in the
file and do not overlap. -/
structure Layout where
  size : ℕ
  headerSize : ℕ
  symoff : ℕ
  nsyms : ℕ
  stroff : ℕ
  strsize : ℕ
  header_le_symoff : headerSize ≤ symoff
  header_le_stroff : headerSize ≤ stroff
  symbols_le : symoff + 12 * nsyms ≤ size
  strings_le : stroff + strsize ≤ size
  disjoint : symoff + 12 * nsyms ≤ stroff ∨ stroff + strsize ≤ symoff

/-- `n` bytes of `file` from `i` on are those of `original` from `j` on. -/
def SameBytes (file : Bytes) (i : ℕ) (original : Bytes) (j n : ℕ) : Prop :=
  ∀ k, k < n → file[i + k]? = original[j + k]?

/-- The file that is written holds what the original holds, where the new offsets tell. -/
structure Layout.Keeps (l : Layout) (original : Bytes) (f : Fixed) : Prop where
  symoff : 4 ∣ f.symoff
  stroff : 4 ∣ f.stroff
  symbols : SameBytes f.file f.symoff original l.symoff (12 * l.nsyms)
  strings : SameBytes f.file f.stroff original l.stroff l.strsize
  before : ∀ i, l.headerSize ≤ i → i < min l.symoff l.stroff → f.file[i]? = original[i]?

/-- Whatever bytes a file of this layout holds. -/
def Layout.IsFixed (l : Layout) : Prop :=
  ∀ header original : Bytes, header.length = l.headerSize → original.length = l.size →
    l.Keeps original (fixMacho32 header original l.symoff l.stroff)

/-! ### The file that is written -/

variable {header original : Bytes} {first pad second pad' i : ℕ}

theorem align4_dvd (n : ℕ) : 4 ∣ align4 n := ⟨(n + 3) / 4, Nat.mul_comm _ _⟩

theorem le_align4 (n : ℕ) : n ≤ align4 n := by
  unfold align4
  omega

theorem Reader.read_of_le {bytes : Bytes} {pos stop : ℕ} (h : pos ≤ stop)
    (hs : stop ≤ bytes.length) :
    Reader.read ⟨bytes, pos⟩ (stop - pos) =
      ((bytes.drop pos).take (stop - pos), ⟨bytes, stop⟩) := by
  have hn : ((stop : ℤ) - pos).toNat = stop - pos := by omega
  have hlen : ((bytes.drop pos).take (stop - pos)).length = stop - pos := by
    rw [List.length_take, List.length_drop]
    omega
  rw [Reader.read, if_neg (by omega), hn]
  dsimp only
  rw [hlen, Nat.add_sub_cancel' h]

/-- The file after the header, when the places come in this order. -/
theorem copyPadded_eq {pos : ℕ} (h : pos ≤ first) (h' : first ≤ second)
    (hs : second ≤ original.length) :
    Reader.copyPadded ⟨original, pos⟩ first pad second pad' =
      (original.drop pos).take (first - pos) ++ List.replicate pad 0 ++
        (original.drop first).take (second - first) ++ List.replicate pad' 0 ++
          original.drop second := by
  rw [Reader.copyPadded, Reader.read_of_le h (h'.trans hs)]
  dsimp only
  rw [Reader.read_of_le h' hs]
  rfl

section

variable {pos j : ℕ} (hpos : header.length = pos) (h : pos ≤ first) (h' : first ≤ second)
  (hs : second ≤ original.length)
include hpos h h' hs

/-- Every byte of the file that is written. -/
theorem getElem?_copyPadded :
    (header ++ Reader.copyPadded ⟨original, pos⟩ first pad second pad')[i]? =
      if i < pos then header[i]?
      else if i < first then original[i]?
      else if i < first + pad then some 0
      else if i < second + pad then original[i - pad]?
      else if i < second + pad + pad' then some 0
      else original[i - pad - pad']? := by
  subst hpos
  rw [copyPadded_eq h h' hs]
  have hfirst : ((original.drop header.length).take (first - header.length)).length =
      first - header.length := by
    rw [List.length_take, List.length_drop]
    omega
  have hsecond : ((original.drop first).take (second - first)).length = second - first := by
    rw [List.length_take, List.length_drop]
    omega
  simp only [List.getElem?_append, List.length_append, List.length_replicate, hfirst, hsecond,
    List.getElem?_take, List.getElem?_drop, List.getElem?_replicate]
  split_ifs <;> first | rfl | omega | (congr 1; omega)

theorem copyPadded_before (hi : pos ≤ i) (hi' : i < first) :
    (header ++ Reader.copyPadded ⟨original, pos⟩ first pad second pad')[i]? = original[i]? := by
  rw [getElem?_copyPadded hpos h h' hs, if_neg (by omega), if_pos hi']

theorem copyPadded_between (hi : first ≤ i) (hi' : i < second) (hj : j = i + pad) :
    (header ++ Reader.copyPadded ⟨original, pos⟩ first pad second pad')[j]? = original[i]? := by
  subst hj
  rw [getElem?_copyPadded hpos h h' hs, if_neg (by omega), if_neg (by omega), if_neg (by omega),
    if_pos (by omega), Nat.add_sub_cancel]

theorem copyPadded_after (hi : second ≤ i) (hj : j = i + pad' + pad) :
    (header ++ Reader.copyPadded ⟨original, pos⟩ first pad second pad')[j]? = original[i]? := by
  subst hj
  rw [getElem?_copyPadded hpos h h' hs, if_neg (by omega), if_neg (by omega), if_neg (by omega),
    if_neg (by omega), if_neg (by omega), Nat.add_sub_cancel, Nat.add_sub_cancel]

end

/-! ### The tables in either order -/

/-- The file of zeros with a single one. -/
def marked (size p : ℕ) : Bytes := (List.replicate size 0).set p 1

theorem eq_of_marked {size p : ℕ} (h : (marked size p)[i]? = some 1) : i = p := by
  rw [marked, List.getElem?_set] at h
  split_ifs at h with hp
  · exact hp.symm
  · rw [List.getElem?_replicate] at h
    split_ifs at h
    cases h

theorem getElem?_marked {size p : ℕ} (hp : p < size) : (marked size p)[p]? = some 1 := by
  rw [marked, List.getElem?_set_self (by rwa [List.length_replicate])]

/-- The one goes where its part of the file goes. -/
theorem mem_copyPadded_marked {size n p : ℕ} (h : n ≤ first) (h' : first ≤ second)
    (hs : second ≤ size)
    (hi : (List.replicate n 0 ++
      Reader.copyPadded ⟨marked size p, n⟩ first pad second pad')[i]? = some 1) :
    i < first ∧ i = p ∨ i < second + pad ∧ i = p + pad ∨
      second + pad + pad' ≤ i ∧ i = p + pad + pad' := by
  rw [getElem?_copyPadded List.length_replicate h h' (by simpa [marked] using hs)] at hi
  split_ifs at hi with h1 h2 h3 h4 h5
  · rw [List.getElem?_replicate, if_pos h1] at hi
    cases hi
  · exact .inl ⟨h2, eq_of_marked hi⟩
  · cases hi
  · have := eq_of_marked hi
    omega
  · cases hi
  · have := eq_of_marked hi
    omega

namespace Layout

variable (l : Layout)

/-- `symOffDelta` and `strOffDelta`. -/
def symPad : ℕ := align4 l.symoff - l.symoff

def strPad : ℕ := align4 (l.stroff + l.symPad) - (l.stroff + l.symPad)

theorem symoff_add_symPad : l.symoff + l.symPad = align4 l.symoff :=
  Nat.add_sub_cancel' (le_align4 _)

theorem stroff_add_strPad : l.stroff + l.symPad + l.strPad = align4 (l.stroff + l.symPad) :=
  Nat.add_sub_cancel' (le_align4 _)

theorem symPad_eq_zero_iff : l.symPad = 0 ↔ 4 ∣ l.symoff := by
  unfold symPad align4
  omega

theorem strPad_eq_zero_iff : l.strPad = 0 ↔ l.stroff % 4 = l.symoff % 4 := by
  have h := l.symoff_add_symPad
  unfold strPad
  unfold align4 at h ⊢
  omega

variable {l}

theorem fixMacho32_symbols_first (h : l.symoff ≤ l.stroff) (header original : Bytes) :
    fixMacho32 header original l.symoff l.stroff =
      ⟨l.symoff + l.symPad, l.stroff + l.symPad + l.strPad, header ++
        Reader.copyPadded ⟨original, header.length⟩ l.symoff l.symPad l.stroff l.strPad⟩ := by
  rw [symoff_add_symPad, stroff_add_strPad, fixMacho32, if_neg (by omega)]
  rfl

theorem fixMacho32_strings_first (h : l.stroff < l.symoff) (header original : Bytes) :
    fixMacho32 header original l.symoff l.stroff =
      ⟨l.symoff + l.symPad, l.stroff + l.symPad + l.strPad, header ++
        Reader.copyPadded ⟨original, header.length⟩ l.stroff l.strPad l.symoff l.symPad⟩ := by
  rw [symoff_add_symPad, stroff_add_strPad, fixMacho32, if_pos h]
  rfl

/-- The new offsets are right if the symbol table comes first. -/
theorem isFixed_symbols_first (h : l.symoff ≤ l.stroff) : l.IsFixed := by
  intro header original hheader horiginal
  have hstr := l.strings_le
  have hhead := l.header_le_symoff
  refine ⟨align4_dvd _, align4_dvd _, ?_, ?_, ?_⟩ <;> rw [fixMacho32_symbols_first h]
  · intro k hk
    dsimp only
    rcases l.disjoint with hdis | hdis
    · exact copyPadded_between rfl (by omega) h (by omega) (by omega) (by omega) (by omega)
    · -- An empty string table at the place of the symbol table: the second padding is empty.
      have hpad : l.strPad = 0 := l.strPad_eq_zero_iff.mpr (by omega)
      exact copyPadded_after rfl (by omega) h (by omega) (by omega) (by omega)
  · intro k hk
    dsimp only
    exact copyPadded_after rfl (by omega) h (by omega) (by omega) (by omega)
  · intro i hi hi'
    exact copyPadded_before rfl (by omega) h (by omega) (by omega) (by omega)

/-- If the string table comes first, each table is behind by the padding of the other. -/
theorem isFixed_strings_first (h : l.stroff < l.symoff) (hstrings : 4 ∣ l.symoff ∨ l.strsize = 0)
    (hsymbols : l.stroff % 4 = l.symoff % 4 ∨ l.nsyms = 0) : l.IsFixed := by
  intro header original hheader horiginal
  have hsym := l.symbols_le
  have hhead := l.header_le_stroff
  have hdis := l.disjoint
  rw [← symPad_eq_zero_iff] at hstrings
  rw [← strPad_eq_zero_iff] at hsymbols
  refine ⟨align4_dvd _, align4_dvd _, ?_, ?_, ?_⟩ <;> rw [fixMacho32_strings_first h]
  · intro k hk
    dsimp only
    exact copyPadded_after rfl (by omega) h.le (by omega) (by omega) (by omega)
  · intro k hk
    dsimp only
    exact copyPadded_between rfl (by omega) h.le (by omega) (by omega) (by omega) (by omega)
  · intro i hi hi'
    exact copyPadded_before rfl (by omega) h.le (by omega) (by omega) (by omega)

/-- A file with one byte that is not zero, at the start of a table, tells that the table is
missed. -/
theorem IsFixed.strings_first (hfixed : l.IsFixed) (h : l.stroff < l.symoff) :
    (4 ∣ l.symoff ∨ l.strsize = 0) ∧ (l.stroff % 4 = l.symoff % 4 ∨ l.nsyms = 0) := by
  have hsym := l.symbols_le
  have hstr := l.strings_le
  have hkeeps : ∀ p, l.Keeps (marked l.size p) _ := fun p =>
    hfixed (List.replicate l.headerSize 0) (marked l.size p) List.length_replicate
      (by rw [marked, List.length_set, List.length_replicate])
  simp only [fixMacho32_strings_first h, List.length_replicate] at hkeeps
  rw [← symPad_eq_zero_iff, ← strPad_eq_zero_iff]
  constructor
  · by_contra hnot
    have hbyte := (hkeeps l.stroff).strings 0 (by omega)
    rw [Nat.add_zero, Nat.add_zero, getElem?_marked (by omega)] at hbyte
    have hplace := mem_copyPadded_marked l.header_le_stroff h.le (by omega) hbyte
    dsimp only at hplace
    omega
  · by_contra hnot
    have hbyte := (hkeeps l.symoff).symbols 0 (by omega)
    rw [Nat.add_zero, Nat.add_zero, getElem?_marked (by omega)] at hbyte
    have hplace := mem_copyPadded_marked l.header_le_stroff h.le (by omega) hbyte
    dsimp only at hplace
    omega

/-- The tables are found again exactly if the symbol table comes first, or no table is moved by the
padding that is counted for it in the wrong place. -/
theorem isFixed_iff (l : Layout) :
    l.IsFixed ↔ l.symoff ≤ l.stroff ∨
      (4 ∣ l.symoff ∨ l.strsize = 0) ∧ (l.stroff % 4 = l.symoff % 4 ∨ l.nsyms = 0) := by
  constructor
  · intro hfixed
    rcases Nat.lt_or_ge l.stroff l.symoff with h | h
    · exact .inr (hfixed.strings_first h)
    · exact .inl h
  · rintro (h | ⟨hstrings, hsymbols⟩)
    · exact isFixed_symbols_first h
    · rcases Nat.lt_or_ge l.stroff l.symoff with h | h
      · exact isFixed_strings_first h hstrings hsymbols
      · exact isFixed_symbols_first h

/-- A `mach_header` with one `symtab_command`, 52 bytes, then five bytes of strings and one
symbol. -/
def stringsFirst : Layout where
  size := 69
  headerSize := 52
  symoff := 57
  nsyms := 1
  stroff := 52
  strsize := 5
  header_le_symoff := by norm_num
  header_le_stroff := by norm_num
  symbols_le := by norm_num
  strings_le := by norm_num
  disjoint := by norm_num

/-- The strings are written to 53, and the command says 56. -/
theorem not_isFixed_stringsFirst :
    let header : Bytes := List.replicate 52 0
    let original := header ++ [1, 2, 3, 4, 5] ++ List.replicate 12 6
    let fixed := fixMacho32 header original 57 52
    fixed.stroff = 56 ∧ fixed.file[53]? = some 1 ∧ fixed.file[56]? = some 4 ∧
      ¬ stringsFirst.IsFixed := by
  refine ⟨by decide, by decide, by decide, fun h => ?_⟩
  have hbyte := (h (List.replicate 52 0)
    (List.replicate 52 0 ++ [1, 2, 3, 4, 5] ++ List.replicate 12 6) rfl rfl).strings 0 (by decide)
  exact absurd hbyte (by decide)

end Layout

end Cesvga2.MachO
