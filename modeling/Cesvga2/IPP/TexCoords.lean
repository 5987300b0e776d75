import Cesvga2.IPP.Decode
import Cesvga2.IPP.VertexFormat

/-! Texture coordinates that are not normalized are scaled in the vertex array. Two floats are
scaled for each set that the adjustment map selects, also where the format gives it only four
bytes. -/

namespace Cesvga2.IPP

open Cuts

/-! ### The adjustment map -/

/-- What samplers and shader leave for the coordinates: `nonnormalized_tex_coordinates`, a bit for
each sampler, and the maps of the sets to samplers and of those to texture stages. -/
structure Samplers where
  nonnormalized : BitVec 16
  tc2sMap : ℕ
  tc2sMapValids : ℕ
  s2tMap : BitVec 64

/-- `adjustment_map`, with its last entry apart. -/
structure AdjustmentMap where
  entry : ℕ → ℕ
  mask : ℕ

def get4bits64 (v : BitVec 64) (i : ℕ) : ℕ := (v >>> (i % 16 * 4)).toNat % 16

namespace Samplers

variable (s : Samplers)

/-- The sets from set `i` on. -/
def adjustLoop : (n i : ℕ) → (s2 : ℤ) → (tc2s valids : ℕ) → AdjustmentMap → AdjustmentMap
  | 0, _, _, _, _, m => m
  | n + 1, i, s2, tc2s, valids, m =>
    if s2 = -1 ∨ valids = 0 then m
    else if s2 % 16 = 15 ∨ valids % 2 = 0 ∨ s.nonnormalized.getLsbD (tc2s % 16) = false then
      adjustLoop n (i + 1) (s2 / 16) (tc2s / 16) (valids / 2) m
    else
      adjustLoop n (i + 1) (s2 / 16) (tc2s / 16) (valids / 2)
        ⟨Function.update m.entry i (get4bits64 s.s2tMap (tc2s % 16)), m.mask ||| 1 <<< i⟩

/-- `calc_adjustment_map` for a map of which `m` is in memory. The eight bits of `valids` end the
loop. -/
def calcAdjustmentMap (s2 : ℤ) (m : ℕ → ℕ) : AdjustmentMap :=
  if s.nonnormalized = 0 then ⟨m, 0⟩
  else s.adjustLoop 8 0 s2 s.tc2sMap (s.tc2sMapValids % 2 ^ 8) ⟨m, 0⟩

/-- Set `k` has a sampler, and that takes coordinates that are not normalized. -/
def Adjusts (k : ℕ) : Prop :=
  s.tc2sMapValids.testBit k = true ∧ s.nonnormalized.getLsbD (s.tc2sMap / 16 ^ k % 16) = true

instance (k : ℕ) : Decidable (s.Adjusts k) := inferInstanceAs (Decidable (_ ∧ _))

/-- The attribute is a set of coordinates that is to be adjusted. -/
def AdjustsAttr : Attribute → Prop
  | .texCoord k _ => s.Adjusts k
  | _ => False

end Samplers

/-! ### The vertex array -/

/-- A float of the vertex array is scaled: its place in bytes, and that of the factor in
`m_float_cache`. -/
structure Scale where
  addr : ℕ
  factor : ℕ
  deriving DecidableEq, Repr

/-- The adjustment map selects the attribute. -/
def VertexDecl.Adjusted (m : AdjustmentMap) (d : VertexDecl) : Prop :=
  d.usage = .texcoord ∧ m.mask.testBit d.usageIndex = true

instance (m : AdjustmentMap) (d : VertexDecl) : Decidable (d.Adjusted m) :=
  inferInstanceAs (Decidable (_ ∧ _))

def adjustScales (m : AdjustmentMap) (vertices : ℕ) (decls : List VertexDecl) : List Scale :=
  decls.flatMap fun d =>
    if d.Adjusted m then
      (List.range vertices).flatMap fun j =>
        let q := j * d.stride + d.offset
        let f := 4 * m.entry d.usageIndex
        [⟨q, f⟩, ⟨q + 4, f + 1⟩]
    else []

/-- `adjust_texture_coords` on an array of which `a` has the floats by their places; `scale q f` is
`(q + 0.5F) * f`. -/
def adjustTextureCoords {F : Type} (scale : F → F → F) (cache : ℕ → F) (m : AdjustmentMap)
    (vertices : ℕ) (decls : List VertexDecl) (a : ℕ → F) : ℕ → F :=
  (adjustScales m vertices decls).foldl
    (fun a s => Function.update a s.addr (scale (a s.addr) (cache s.factor))) a

/-- What a primitive is drawn from, with the bytes that are allocated for it. -/
structure Primitive where
  decls : List VertexDecl
  vertices : ℕ
  allocated : ℕ

/-- `ip_prim3d_direct` and `ip_prim3d_poly` as far as the allocation. A polygon has its indices
behind the vertices. -/
def primitive (r : Regs) (kind : PrimKind) (dwords : ℕ) : Option Primitive :=
  match analyzeVertexFormat (toInt32 (r.immS 2)) (r.immS 4) maxNumDecls with
  | .error _ => none
  | .ok decls =>
    match decls.head? with
    | none => none
    | some d =>
      if d.stride ≠ 0 ∧ kind.least ≤ dwords * 4 / d.stride ∧ kind ≠ .clearRect then
        let vertices := dwords * 4 / d.stride
        some ⟨decls, vertices, dwords * 4 + if kind = .poly then vertices * 2 else 0⟩
      else none

namespace Primitive

variable (prim : Primitive) (m : AdjustmentMap)

/-- The byte is one of an attribute that the map selects, in one of the vertices. -/
def Owns (b : ℕ) : Prop :=
  ∃ d ∈ prim.decls, d.Adjusted m ∧ ∃ j < prim.vertices,
    b ∈ Set.Ico (j * d.stride + d.offset) (j * d.stride + d.offset + d.size)

/-- The floats that are scaled lie in the bytes allocated, and in the attributes selected. -/
def Confined : Prop :=
  ∀ s ∈ adjustScales m prim.vertices prim.decls, ∀ b ∈ Set.Ico s.addr (s.addr + 4),
    b < prim.allocated ∧ prim.Owns m b

end Primitive

/-! ### Which sets are selected -/

section Map

variable {s : Samplers} {n i k tc2s valids : ℕ} {s2 : ℤ} {m : AdjustmentMap} {garbage : ℕ → ℕ}

theorem testBit_or_shiftLeft {mask : ℕ} :
    (mask ||| 1 <<< i).testBit k = true ↔ mask.testBit k = true ∨ k = i := by
  simp only [Nat.testBit_or, Bool.or_eq_true, Nat.one_shiftLeft, Nat.testBit_two_pow,
    decide_eq_true_eq]
  exact or_congr_right eq_comm

/-- The loop leaves the bits of the sets before. -/
theorem testBit_adjustLoop_of_lt (hk : k < i) :
    (s.adjustLoop n i s2 tc2s valids m).mask.testBit k = true ↔ m.mask.testBit k = true := by
  induction n generalizing i s2 tc2s valids m with
  | zero => rfl
  | succ n ih =>
    rw [Samplers.adjustLoop]
    split_ifs
    · rfl
    · rw [ih (hk.trans i.lt_succ_self)]
    · rw [ih (hk.trans i.lt_succ_self), testBit_or_shiftLeft, or_iff_left hk.ne]

/-- What the loop adds to the mask: the sets of the format that have such a sampler. -/
theorem testBit_adjustLoop :
    (s.adjustLoop n i s2 tc2s valids m).mask.testBit (i + k) = true ↔
      m.mask.testBit (i + k) = true ∨ (k < n ∧ s2 / 16 ^ k % 16 ≠ 15 ∧ valids.testBit k = true ∧
        s.nonnormalized.getLsbD (tc2s / 16 ^ k % 16) = true) := by
  induction n generalizing i k s2 tc2s valids m with
  | zero => simp [Samplers.adjustLoop]
  | succ n ih =>
    have hlater (m' : AdjustmentMap) (k : ℕ) :
        (s.adjustLoop n (i + 1) (s2 / 16) (tc2s / 16) (valids / 2) m').mask.testBit
          (i + (k + 1)) = true ↔
        m'.mask.testBit (i + (k + 1)) = true ∨ (k + 1 < n + 1 ∧ s2 / 16 ^ (k + 1) % 16 ≠ 15 ∧
          valids.testBit (k + 1) = true ∧
          s.nonnormalized.getLsbD (tc2s / 16 ^ (k + 1) % 16) = true) := by
      rw [← Nat.add_assoc, Nat.add_right_comm, ih, code_succ, Nat.testBit_succ,
        Nat.div_div_eq_div_mul, ← pow_succ', Nat.add_lt_add_iff_right]
    have hvalid : valids.testBit 0 = true ↔ valids % 2 = 1 := by
      rw [Nat.testBit_zero, decide_eq_true_eq]
    rw [Samplers.adjustLoop]
    split_ifs with hstop hskip
    · rcases hstop with rfl | rfl
      · simp [neg_one_code]
      · simp
    · cases k with
      | zero =>
        rw [add_zero, testBit_adjustLoop_of_lt i.lt_add_one]
        refine (or_iff_left ?_).symm
        rw [pow_zero, Int.ediv_one, pow_zero, Nat.div_one, hvalid]
        rintro ⟨-, hcode, hodd, hbit⟩
        rcases hskip with h | h | h
        · exact hcode h
        · omega
        · exact absurd (h.symm.trans hbit) (by decide)
      | succ k => exact hlater m k
    · obtain ⟨hcode, heven, hbit⟩ := not_or.mp hskip |>.imp_right not_or.mp
      cases k with
      | zero =>
        rw [add_zero, testBit_adjustLoop_of_lt i.lt_add_one, testBit_or_shiftLeft, pow_zero,
          Int.ediv_one, pow_zero, Nat.div_one, hvalid]
        refine or_congr_right (iff_of_true rfl ⟨n.succ_pos, hcode, by omega, ?_⟩)
        exact Bool.not_eq_false _ ▸ hbit
      | succ k =>
        rw [hlater, testBit_or_shiftLeft, or_iff_left (by omega : ¬ i + (k + 1) = i)]

/-- The mask selects the sets of the format that are to be adjusted. -/
theorem testBit_calcAdjustmentMap :
    (s.calcAdjustmentMap s2 garbage).mask.testBit k = true ↔
      k < 8 ∧ s2 / 16 ^ k % 16 ≠ 15 ∧ s.Adjusts k := by
  unfold Samplers.calcAdjustmentMap Samplers.Adjusts
  split_ifs with hzero
  · simp [hzero]
  · rw [← Nat.zero_add k, testBit_adjustLoop, Nat.zero_add, Nat.testBit_mod_two_pow]
    simp only [Nat.zero_testBit, Bool.false_eq_true, false_or, Bool.and_eq_true, decide_eq_true_eq]
    exact and_congr_right fun hk => and_congr_right fun _ => and_congr_left fun _ =>
      and_iff_right hk

end Map

/-! ### Where the floats lie -/

section Scales

variable {m : AdjustmentMap} {n start stride : ℕ} {decls fields sets : List VertexDecl} {sc : Scale}
  {prim : Primitive}

theorem mem_adjustScales : sc ∈ adjustScales m n decls ↔ ∃ d ∈ decls, d.Adjusted m ∧ ∃ j < n,
    sc = ⟨j * d.stride + d.offset, 4 * m.entry d.usageIndex⟩ ∨
    sc = ⟨j * d.stride + d.offset + 4, 4 * m.entry d.usageIndex + 1⟩ := by
  simp only [adjustScales, List.mem_flatMap]
  refine exists_congr fun d => and_congr_right fun _ => ?_
  split_ifs with hd
  · simp [hd]
  · simp [hd]

/-- The eight bytes from each place where a selected attribute starts are written. -/
theorem confined_iff : prim.Confined m ↔ ∀ d ∈ prim.decls, d.Adjusted m → ∀ j < prim.vertices,
    ∀ b ∈ Set.Ico (j * d.stride + d.offset) (j * d.stride + d.offset + 8),
      b < prim.allocated ∧ prim.Owns m b := by
  constructor
  · intro h d hd hadj j hj b hb
    by_cases hlt : b < j * d.stride + d.offset + 4
    · exact h _ (mem_adjustScales.mpr ⟨d, hd, hadj, j, hj, .inl rfl⟩) b ⟨hb.1, hlt⟩
    · exact h _ (mem_adjustScales.mpr ⟨d, hd, hadj, j, hj, .inr rfl⟩) b ⟨not_lt.mp hlt, hb.2⟩
  · intro h sc hsc b hb
    obtain ⟨d, hd, hadj, j, hj, rfl | rfl⟩ := mem_adjustScales.mp hsc
    · exact h d hd hadj j hj b ⟨hb.1, hb.2.trans_le (Nat.add_le_add_left (by norm_num) _)⟩
    · exact h d hd hadj j hj b ⟨(Nat.le_add_right _ _).trans hb.1, hb.2⟩

/-- Only texture coordinates are selected. -/
theorem Split.mem_sets {d : VertexDecl} (h : Split decls fields sets start stride) (hd : d ∈ decls)
    (hadj : d.Adjusted m) : d ∈ sets := by
  rw [h.eq] at hd
  exact (List.mem_append.mp hd).resolve_left fun hf => h.usage_fields d hf hadj.1

/-- One vertex decides: what is written of it stays in its selected attributes. -/
theorem confined_iff_reaches (h : Split prim.decls fields sets start stride)
    (hpos : 0 < prim.vertices) (hroom : prim.vertices * stride ≤ prim.allocated) :
    prim.Confined m ↔ Reaches VertexDecl.offset VertexDecl.size (·.Adjusted m) 8 sets := by
  have hsub {d : VertexDecl} (hd : d ∈ sets) : d ∈ prim.decls := by
    rw [h.eq]
    exact List.mem_append_right fields hd
  rw [confined_iff]
  constructor
  · intro hall d hd hadj b hb
    obtain ⟨-, d', hd', hadj', j, -, hj⟩ := hall d (hsub hd) hadj 0 hpos b (by simpa using hb)
    have hmem := h.mem_sets hd' hadj'
    have hend := (h.consecutive.bounds hd).2
    have hstart := (h.consecutive.bounds hmem).1
    have hsize : 4 ≤ d.size := d.type.four_le_size
    have hfront := h.eight_le
    rw [h.strides d' hd'] at hj
    -- A byte of a later vertex would be one of its position.
    have hzero : j = 0 := by
      by_contra hj0
      have hle : stride ≤ j * stride := Nat.le_mul_of_pos_left stride (Nat.pos_of_ne_zero hj0)
      have := hj.1
      have := hb.2
      omega
    rw [hzero, zero_mul, zero_add] at hj
    exact ⟨d', hmem, hadj', hj⟩
  · intro hall d hd hadj j hj b hb
    obtain ⟨d', hd', hadj', hmem⟩ := hall d (h.mem_sets hd hadj) hadj (b - j * d.stride)
      ⟨by have := hb.1; omega, by have := hb.2; omega⟩
    have hend := (h.consecutive.bounds hd').2
    have hlast : (j + 1) * stride ≤ prim.vertices * stride := Nat.mul_le_mul_right stride hj
    have := hb.1
    have := hmem.1
    have := hmem.2
    rw [h.strides d hd] at *
    refine ⟨?_, d', hsub hd', hadj', j, hj, ?_⟩
    · rw [add_mul, one_mul] at hlast
      omega
    · rw [h.strides d' (hsub hd')]
      exact ⟨by omega, by omega⟩

end Scales

/-! ### Primitives -/

section Primitives

variable {r : Regs} {s : Samplers} {kind : PrimKind} {dwords k : ℕ} {prim : Primitive} {s2 : ℤ}
  {type : DeclType} {garbage : ℕ → ℕ}

theorem PrimKind.least_pos (h : kind ≠ .clearRect) : 0 < kind.least := by
  cases kind with
  | clearRect => exact absurd rfl h
  | triList | triStrip | triFan | poly | lineList | lineStrip | pointList => decide

/-- A primitive that is drawn has the vertices that it needs, and they fit. -/
theorem primitive_eq_some (h : primitive r kind dwords = some prim) :
    ∃ fields sets start stride, Split prim.decls fields sets start stride ∧
      sets.map (·.told) =
        (describedCoords (toInt32 (r.immS 2)) (r.immS 4)).map some ∧
      (0 < prim.vertices ∧ kind.least ≤ prim.vertices) ∧ prim.vertices * stride ≤ dwords * 4 ∧
      prim.allocated = dwords * 4 + if kind = .poly then prim.vertices * 2 else 0 := by
  unfold primitive at h
  cases hformat : analyzeVertexFormat (toInt32 (r.immS 2)) (r.immS 4) maxNumDecls with
  | error rc =>
    rw [hformat] at h
    cases h
  | ok decls =>
    rw [hformat] at h
    dsimp only at h
    obtain ⟨fields, sets, start, stride, hsplit, htold⟩ := analyzeVertexFormat_split hformat
    cases hhead : decls.head? with
    | none =>
      rw [hhead] at h
      cases h
    | some d =>
      rw [hhead] at h
      dsimp only at h
      by_cases hdraws : d.stride ≠ 0 ∧ kind.least ≤ dwords * 4 / d.stride ∧ kind ≠ .clearRect
      · rw [if_pos hdraws] at h
        obtain ⟨-, hleast, hkind⟩ := hdraws
        rw [hsplit.strides d (List.mem_of_mem_head? hhead)] at h hleast
        cases h
        exact ⟨fields, sets, start, stride, hsplit, htold,
          ⟨(PrimKind.least_pos hkind).trans_le hleast, hleast⟩, Nat.div_mul_le_self _ _, rfl⟩
      · rw [if_neg hdraws] at h
        cases h

theorem mem_coords {n tc : ℕ} (h : .texCoord k type ∈ coords n tc s2) :
    tc ≤ k ∧ k < tc + n ∧ s2 / 16 ^ (k - tc) % 16 ≠ 15 := by
  obtain ⟨j, hj, heq⟩ := List.mem_filterMap.mp h
  obtain ⟨c, hc, hattr⟩ := Option.map_eq_some_iff.mp heq
  obtain ⟨rfl, -⟩ := Attribute.texCoord.inj hattr
  refine ⟨Nat.le_add_right _ _, Nat.add_lt_add_left (List.mem_range.mp hj) tc, fun h15 => ?_⟩
  rw [Nat.add_sub_cancel_left] at h15
  rw [h15] at hc
  cases hc

/-- A declaration is selected if the set that it describes is to be adjusted. -/
theorem adjusted_iff {d : VertexDecl} {a : Attribute} {s4 : ℕ} (husage : d.usage = .texcoord)
    (htold : d.told = some a) (ha : a ∈ describedCoords s2 s4) :
    d.Adjusted (s.calcAdjustmentMap s2 garbage) ↔ s.AdjustsAttr a := by
  rw [told_of_usage husage] at htold
  cases htold
  obtain ⟨-, hlt, hcode⟩ := mem_coords (List.mem_of_mem_take ha)
  rw [Nat.zero_add] at hlt
  rw [VertexDecl.Adjusted, testBit_calcAdjustmentMap, and_iff_right husage, and_iff_right hlt]
  exact and_iff_right hcode

/-- What is written of a primitive stays in the attributes selected, and in its bytes, exactly if
every set of four bytes that is adjusted has another one that is adjusted directly behind it. -/
theorem primitive_confined_iff (r : Regs) (s : Samplers) (kind : PrimKind) (dwords : ℕ)
    (garbage : ℕ → ℕ) :
    (∀ prim ∈ primitive r kind dwords,
      prim.Confined (s.calcAdjustmentMap (toInt32 (r.immS 2)) garbage)) ↔
    ((primitive r kind dwords).isSome = true → Followed (Attribute.size 0) s.AdjustsAttr 8
      (describedCoords (toInt32 (r.immS 2)) (r.immS 4))) := by
  cases h : primitive r kind dwords with
  | none => exact iff_of_true nofun nofun
  | some prim =>
    obtain ⟨fields, sets, start, stride, hsplit, htold, ⟨hpos, -⟩, hfit, halloc⟩ :=
      primitive_eq_some h
    have hroom : prim.vertices * stride ≤ prim.allocated :=
      hfit.trans (halloc ▸ Nat.le_add_right _ _)
    simp only [Option.mem_def, Option.some.injEq, forall_eq', Option.isSome_some, forall_true_left]
    have hsize (d : VertexDecl) : 4 ≤ d.size := d.type.four_le_size
    rw [confined_iff_reaches hsplit hpos hroom, reaches_iff_followed hsplit.consecutive
      (fun d _ => (hsize d).trans_lt' (by norm_num))
      fun d _ d' _ => Nat.add_le_add (hsize d) (hsize d')]
    have hall := forall₂_told htold
    refine followed_congr (List.forall₂_iff_zip.mpr ⟨hall.length_eq, fun {d a} hzip => ?_⟩)
    obtain ⟨hd, ha⟩ := List.of_mem_zip hzip
    have hda : d.told = some a := (List.forall₂_iff_zip.mp hall).2 hzip
    exact ⟨adjusted_iff (hsplit.usage_sets d hd) hda ha, size_of_told hda⟩

/-- A position of two floats and one set of coordinates with one float. -/
def narrowRegs : Regs where
  immS i := if i = 2 then 0xFFFFFFF3 else if i = 4 then 0xC0 else 0
  paramCacheMask := 0
  clearParams := ⟨0, 0, 0, 0⟩

/-- Every set has its own sampler, and the first does not take normalized coordinates. -/
def plainSamplers : Samplers := ⟨1, 0x76543210, 255, 0⟩

def narrowMap : AdjustmentMap :=
  plainSamplers.calcAdjustmentMap (toInt32 (narrowRegs.immS 2)) fun _ => 0

/-- The second float of a set of coordinates with one float only is behind the vertex, and for the
last vertex behind the bytes that are allocated. -/
theorem not_primitive_confined : ∃ prim, primitive narrowRegs .pointList 3 = some prim ∧
    prim.allocated = 12 ∧ adjustScales narrowMap prim.vertices prim.decls = [⟨8, 0⟩, ⟨12, 1⟩] ∧
    adjustTextureCoords (fun q f : ℚ => (q + 1 / 2) * f) (fun _ => 1) narrowMap prim.vertices
      prim.decls (fun _ => 0) 12 = 1 / 2 := by
  refine ⟨⟨[⟨.positionT, 0, .float2, 0, 12⟩, ⟨.texcoord, 0, .float1, 8, 12⟩], 1, 12⟩, ?_⟩
  have hscales : adjustScales narrowMap 1 [⟨.positionT, 0, .float2, 0, 12⟩,
      ⟨.texcoord, 0, .float1, 8, 12⟩] = [⟨8, 0⟩, ⟨12, 1⟩] := by decide +kernel
  refine ⟨by rfl, rfl, hscales, ?_⟩
  rw [adjustTextureCoords, hscales]
  simp

end Primitives

end Cesvga2.IPP
