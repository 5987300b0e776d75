import Cesvga2.Cuts.Consecutive
import Cesvga2.IPP.Format
import Mathlib

/-! What the declarations of a vertex format say against the attributes that `S2` and `S4` select.
They lie one behind the other and take the whole vertex, unless `S4` selects the fog parameter,
whose declaration is left as it was cleared, or the vertex field that `ip_prim3d` reports as
unsupported. -/

namespace Cesvga2.IPP

open Cuts

def DeclType.size : DeclType → ℕ
  | .float1 => 4
  | .float2 => 8
  | .float3 => 12
  | .float4 => 16
  | .d3dcolor => 4
  | .float16x2 => 4
  | .float16x4 => 8

/-! ### Attributes -/

/-- The parts of a vertex. -/
inductive Attribute where
  | position (type : DeclType)
  | pointWidth
  | color
  | specular
  | fog
  /-- Bit 9 of `S4`. -/
  | unsupported
  | texCoord (index : ℕ) (type : DeclType)
  deriving DecidableEq, Repr

/-- The bytes of an attribute; `field` are those of the unsupported one. -/
def Attribute.size (field : ℕ) : Attribute → ℕ
  | .position type => type.size
  | .pointWidth => 4
  | .color => 4
  | .specular => 4
  | .fog => 4
  | .unsupported => field
  | .texCoord _ type => type.size

/-- The position of the code in bits 6 to 8 of `S4`, if it is one that is supported. -/
def positionType (s4 : ℕ) : Option DeclType :=
  match bitSelect s4 6 3 with
  | 1 => some .float3
  | 2 => some .float4
  | 3 => some .float2
  | _ => none

/-- The attributes with a bit of their own in `S4`. -/
def s4Attributes : List (ℕ × Attribute) :=
  [(12, .pointWidth), (10, .color), (11, .specular), (2, .fog), (9, .unsupported)]

/-- The texture coordinates of the lowest `n` codes, the first of which is for set `tc`. -/
def coords (n tc : ℕ) (s2 : ℤ) : List Attribute :=
  (List.range n).filterMap fun k =>
    (Format.texCoord (s2 / 16 ^ k % 16).toNat).map fun c => .texCoord (tc + k) c.1

/-- The attributes that the registers select. -/
def selected (s2 : ℤ) (s4 : ℕ) : List Attribute :=
  (positionType s4).toList.map .position ++
    ((s4Attributes.filter fun a => s4.testBit a.1).map (·.2) ++ coords 8 0 s2)

/-- The attribute that a declaration describes. No declaration that is made is one of fog. -/
def VertexDecl.told (d : VertexDecl) : Option Attribute :=
  match d.usage, d.usageIndex, d.type with
  | .positionT, 0, type => some (.position type)
  | .psize, 0, .float1 => some .pointWidth
  | .color, 0, .d3dcolor => some .color
  | .color, 1, .d3dcolor => some .specular
  | .texcoord, n, type => some (.texCoord n type)
  | _, _, _ => none

def VertexDecl.size (d : VertexDecl) : ℕ := d.type.size

def VertexDecl.bytes (d : VertexDecl) : Set ℕ := Set.Ico d.offset (d.offset + d.size)

/-- The declarations describe the selected attributes, once each, and the bytes of the vertex. -/
structure Layout (field : ℕ) (s2 : ℤ) (s4 : ℕ) (decls : List VertexDecl) : Prop where
  once : (decls.map (·.told)).Perm ((selected s2 s4).map some)
  consecutive : Consecutive VertexDecl.offset VertexDecl.size 0 decls
    ((selected s2 s4).map (·.size field)).sum
  disjoint : decls.Pairwise fun d d' => Disjoint d.bytes d'.bytes
  cover : ∀ b, b < ((selected s2 s4).map (·.size field)).sum ↔ ∃ d ∈ decls, b ∈ d.bytes
  stride : ∀ d ∈ decls, d.stride = ((selected s2 s4).map (·.size field)).sum

/-! ### The texture coordinates -/

variable {field n tc numDecls s4 : ℕ} {s2 : ℤ} {f f' : Format} {attrs : List Attribute}
  {a : Attribute} {d : VertexDecl} {decls : List VertexDecl}

/-- The code of a set, of which all bits are ones once the register is -1. -/
theorem neg_one_code (k : ℕ) : (-1 : ℤ) / 16 ^ k % 16 = 15 := by
  have hone : (1 : ℤ) ≤ 16 ^ k := one_le_pow₀ (by norm_num)
  have hdiv : (-1 : ℤ) / 16 ^ k = -1 :=
    Int.ediv_eq_neg_one_of_neg_of_le (by norm_num) (by omega)
  rw [hdiv]
  rfl

theorem code_succ (s2 : ℤ) (k : ℕ) : s2 / 16 / 16 ^ k = s2 / 16 ^ (k + 1) := by
  rw [Int.ediv_ediv_of_nonneg (by norm_num), pow_succ']

theorem coords_neg_one : coords n tc (-1) = [] := by
  refine List.filterMap_eq_nil_iff.mpr fun k _ => ?_
  rw [neg_one_code]
  rfl

theorem coords_succ : coords (n + 1) tc s2 =
    ((Format.texCoord (s2 % 16).toNat).map fun c => Attribute.texCoord tc c.1).toList ++
      coords n (tc + 1) (s2 / 16) := by
  have htail : coords n (tc + 1) (s2 / 16) = ((List.range n).map (· + 1)).filterMap fun k =>
      (Format.texCoord (s2 / 16 ^ k % 16).toNat).map fun c => .texCoord (tc + k) c.1 := by
    rw [coords, List.filterMap_map]
    simp only [code_succ, Function.comp_def, Nat.add_right_comm tc 1, Nat.add_assoc]
  rw [htail, coords, List.range_succ_eq_map, List.filterMap_cons]
  cases h : Format.texCoord (s2 % 16).toNat <;> simp [h]

theorem texCoord_size {code : ℕ} {type : DeclType} {bytes : ℕ}
    (h : Format.texCoord code = some (type, bytes)) : bytes = type.size := by
  unfold Format.texCoord at h
  split at h <;> cases h <;> rfl

/-- One pass of the loop. -/
theorem texCoords_succ (h : f.texCoords numDecls (n + 1) tc s2 = .ok f') :
    f' = f ∧ (numDecls ≤ f.decls.length ∨ s2 = -1) ∨
    Format.texCoord (s2 % 16).toNat = none ∧ f.texCoords numDecls n (tc + 1) (s2 / 16) = .ok f' ∨
    ∃ type : DeclType, f.decls.length < numDecls ∧
      Format.texCoord (s2 % 16).toNat = some (type, type.size) ∧
      (f.add .texcoord tc type type.size).texCoords numDecls n (tc + 1) (s2 / 16) = .ok f' := by
  rw [Format.texCoords] at h
  split_ifs at h with hstop hskip
  · cases h
    exact .inl ⟨rfl, hstop.imp_left not_lt.mp⟩
  · have hcode : Format.texCoord (s2 % 16).toNat = none := by rw [hskip]; rfl
    exact .inr (.inl ⟨hcode, h⟩)
  · cases hcode : Format.texCoord (s2 % 16).toNat with
    | none =>
      rw [hcode] at h
      cases h
    | some c =>
      obtain ⟨type, bytes⟩ := c
      rw [hcode] at h
      obtain rfl := texCoord_size hcode
      have hroom : f.decls.length < numDecls := by
        by_contra hfull
        exact hstop (.inl hfull)
      exact .inr (.inr ⟨type, hroom, rfl, h⟩)

/-- What the loop adds: coordinates of increasing sets, from the end of the vertex so far on. -/
theorem texCoords_ok (h : f.texCoords numDecls n tc s2 = .ok f') :
    ∃ added, f'.decls = f.decls ++ added ∧
      Consecutive VertexDecl.offset VertexDecl.size f.size added f'.size ∧
      (∀ d ∈ added, d.usage = .texcoord ∧ tc ≤ d.usageIndex ∧ d.usageIndex < tc + n) ∧
      added.Pairwise fun d d' => d.usageIndex < d'.usageIndex := by
  induction n generalizing tc s2 f with
  | zero =>
    cases h
    exact ⟨[], (List.append_nil _).symm, rfl, nofun, List.Pairwise.nil⟩
  | succ n ih =>
    rcases texCoords_succ h with ⟨rfl, -⟩ | ⟨-, hrest⟩ | ⟨type, -, -, hrest⟩
    · exact ⟨[], (List.append_nil _).symm, rfl, nofun, List.Pairwise.nil⟩
    · obtain ⟨added, hdecls, hcons, hindex, hpair⟩ := ih hrest
      refine ⟨added, hdecls, hcons, fun d hd => ?_, hpair⟩
      obtain ⟨husage, hge, hlt⟩ := hindex d hd
      exact ⟨husage, by omega, by omega⟩
    · obtain ⟨added, hdecls, hcons, hindex, hpair⟩ := ih hrest
      refine ⟨⟨.texcoord, tc, type, f.size, 0⟩ :: added, ?_, ⟨rfl, hcons⟩, ?_, ?_⟩
      · rw [hdecls, Format.add, List.append_assoc, List.singleton_append]
      · rw [List.forall_mem_cons]
        refine ⟨⟨rfl, le_rfl, Nat.lt_add_of_pos_right n.succ_pos⟩, fun d hd => ?_⟩
        obtain ⟨husage, hge, hlt⟩ := hindex d hd
        exact ⟨husage, by omega, by omega⟩
      · exact hpair.cons fun d hd => (hindex d hd).2.1

theorem length_coords_le : (coords n tc s2).length ≤ n :=
  (List.length_filterMap_le _ _).trans_eq List.length_range

/-- As long as there is room every coordinate gets a declaration. -/
theorem told_texCoords (h : f.texCoords numDecls n tc s2 = .ok f') :
    f'.decls.map (·.told) = f.decls.map (·.told) ++
      ((coords n tc s2).take (numDecls - f.decls.length)).map some := by
  induction n generalizing tc s2 f with
  | zero =>
    cases h
    simp [coords]
  | succ n ih =>
    rcases texCoords_succ h with ⟨rfl, hfull | rfl⟩ | ⟨hcode, hrest⟩ | ⟨type, hroom, hcode, hrest⟩
    · rw [Nat.sub_eq_zero_of_le hfull, List.take_zero, List.map_nil, List.append_nil]
    · rw [coords_neg_one, List.take_nil, List.map_nil, List.append_nil]
    · rw [ih hrest, coords_succ, hcode]
      rfl
    · have hlen : (f.add .texcoord tc type type.size).decls.length = f.decls.length + 1 :=
        List.length_append
      have hsub : numDecls - f.decls.length = numDecls - (f.decls.length + 1) + 1 := by omega
      rw [ih hrest, coords_succ, hcode, hlen, hsub, Format.add]
      simp [VertexDecl.told]

/-! ### The other attributes -/

theorem size_of_told (h : d.told = some a) : d.size = a.size field := by
  unfold VertexDecl.told at h
  split at h <;> cases h <;> simp_all [VertexDecl.size, Attribute.size, DeclType.size]

theorem forall₂_told (h : decls.map (·.told) = attrs.map some) :
    List.Forall₂ (fun d a => d.told = some a) decls attrs := by
  have heq : List.Forall₂ Eq (decls.map (·.told)) (attrs.map some) :=
    List.forall₂_eq_eq_eq ▸ h
  rwa [List.forall₂_map_left_iff, List.forall₂_map_right_iff] at heq

theorem sizes_eq_of_told (h : decls.map (·.told) = attrs.map some) :
    decls.map VertexDecl.size = attrs.map (·.size field) := by
  have hall := forall₂_told h
  clear h
  induction hall with
  | nil => rfl
  | cons hd _ ih => rw [List.map_cons, List.map_cons, size_of_told hd, ih]

/-- The declarations so far describe the attributes, one behind the other. -/
structure Lays (f : Format) (attrs : List Attribute) : Prop where
  told : f.decls.map (·.told) = attrs.map some
  consecutive : Consecutive VertexDecl.offset VertexDecl.size 0 f.decls f.size

namespace Lays

theorem length_eq (h : Lays f attrs) : f.decls.length = attrs.length := by
  simpa using congrArg List.length h.told

theorem add {usage : DeclUsage} {index : ℕ} {type : DeclType} (h : Lays f attrs)
    (ha : VertexDecl.told ⟨usage, index, type, f.size, 0⟩ = some a) :
    Lays (f.add usage index type type.size) (attrs ++ [a]) := by
  constructor
  · rw [Format.add, List.map_append, List.map_append, h.told, List.map_singleton, ha,
      List.map_singleton]
  · exact h.consecutive.concat rfl

/-- An attribute of `S4` that is described. -/
theorem described (usage : DeclUsage) (index : ℕ) (type : DeclType) (b : Bool) (h : Lays f attrs)
    (hroom : attrs.length < numDecls)
    (ha : VertexDecl.told ⟨usage, index, type, f.size, 0⟩ = some a) :
    Lays (f.optional numDecls b (·.add usage index type type.size))
      (attrs ++ bif b then [a] else []) := by
  have hlen : f.decls.length < numDecls := h.length_eq.trans_lt hroom
  cases b with
  | false => simpa [Format.optional] using h
  | true => simpa [Format.optional, hlen] using h.add ha

/-- The bytes of the attributes are those of their declarations. -/
theorem size_eq (field : ℕ) (h : Lays f attrs) : f.size = (attrs.map (·.size field)).sum := by
  have hsizes : f.decls.map VertexDecl.size = attrs.map (·.size field) :=
    sizes_eq_of_told h.told
  rw [h.consecutive.eq_add_sum, hsizes, zero_add]

end Lays

/-- A vertex with a position alone. -/
def Format.ofPosition (type : DeclType) : Format := ⟨[⟨.positionT, 0, type, 0, 0⟩], type.size⟩

/-- The attributes of `S4` behind the position, as far as they are described. -/
def Format.fields (f : Format) (s4 : ℕ) : Format :=
  let f := f.optional maxNumDecls (s4.testBit 12) (·.add .psize 0 .float1 4)
  let f := f.optional maxNumDecls (s4.testBit 10) (·.add .color 0 .d3dcolor 4)
  f.optional maxNumDecls (s4.testBit 11) (·.add .color 1 .d3dcolor 4)

theorem position_ok (h : Format.position s4 = .ok f) :
    ∃ type, positionType s4 = some type ∧ f = .ofPosition type := by
  unfold Format.position at h
  unfold positionType
  generalize bitSelect s4 6 3 = code at h ⊢
  split at h <;> cases h
  · exact ⟨_, rfl, rfl⟩
  · exact ⟨_, rfl, rfl⟩
  · exact ⟨_, rfl, rfl⟩

theorem analyzeVertexFormat_eq : analyzeVertexFormat s2 s4 maxNumDecls =
    (Format.position s4).bind fun f =>
      (((f.fields s4).optional maxNumDecls (s4.testBit 2) Format.addFog).texCoords
        maxNumDecls 8 0 s2).bind fun f => .ok f.setStrides := by
  rw [analyzeVertexFormat, if_neg (by decide)]
  rfl

/-- A format that is accepted has a position, its fields and its coordinates. -/
theorem analyzeVertexFormat_ok (h : analyzeVertexFormat s2 s4 maxNumDecls = .ok decls) :
    ∃ type f', positionType s4 = some type ∧
      (((Format.ofPosition type).fields s4).optional maxNumDecls (s4.testBit 2)
        Format.addFog).texCoords maxNumDecls 8 0 s2 = .ok f' ∧
      decls = f'.setStrides := by
  rw [analyzeVertexFormat_eq] at h
  cases hpos : Format.position s4 with
  | error rc =>
    rw [hpos] at h
    cases h
  | ok f =>
    obtain ⟨type, htype, rfl⟩ := position_ok hpos
    rw [hpos, Except.bind] at h
    refine ⟨type, ?_⟩
    cases hcoords : (((Format.ofPosition type).fields s4).optional maxNumDecls (s4.testBit 2)
        Format.addFog).texCoords maxNumDecls 8 0 s2 with
    | error rc =>
      rw [hcoords] at h
      cases h
    | ok f' =>
      rw [hcoords] at h
      exact ⟨f', htype, rfl, (Except.ok.inj h).symm⟩

/-- The attributes that the fields describe. -/
def fieldAttributes (type : DeclType) (s4 : ℕ) : List Attribute :=
  ([.position type] ++ bif s4.testBit 12 then [.pointWidth] else []) ++
    (bif s4.testBit 10 then [.color] else []) ++ bif s4.testBit 11 then [.specular] else []

theorem length_fieldAttributes_le (s4 : ℕ) (type : DeclType) :
    (fieldAttributes type s4).length ≤ 4 := by
  unfold fieldAttributes
  cases s4.testBit 12 <;> cases s4.testBit 10 <;> cases s4.testBit 11 <;> simp

theorem lays_fields (s4 : ℕ) (type : DeclType) :
    Lays ((Format.ofPosition type).fields s4) (fieldAttributes type s4) := by
  have hposition : Lays (.ofPosition type) [.position type] :=
    ⟨rfl, rfl, Nat.zero_add _⟩
  have hroom {l : List Attribute} (hl : l <+: fieldAttributes type s4) : l.length < maxNumDecls :=
    (hl.length_le.trans (length_fieldAttributes_le s4 type)).trans_lt (by decide)
  have hwidth := hposition.described .psize 0 .float1 (s4.testBit 12)
    (hroom (by simp [fieldAttributes])) rfl
  have hcolor := hwidth.described .color 0 .d3dcolor (s4.testBit 10)
    (hroom (by simp [fieldAttributes])) rfl
  exact hcolor.described .color 1 .d3dcolor (s4.testBit 11) (hroom (List.prefix_append _ _)) rfl

/-- Without the fog parameter and the unsupported field the fields are what `S4` selects. -/
theorem selected_eq {type : DeclType} (htype : positionType s4 = some type)
    (hfog : s4.testBit 2 = false) (hfield : s4.testBit 9 = false) :
    selected s2 s4 = fieldAttributes type s4 ++ coords 8 0 s2 := by
  unfold selected fieldAttributes s4Attributes
  rw [htype]
  cases h12 : s4.testBit 12 <;> cases h10 : s4.testBit 10 <;> cases h11 : s4.testBit 11 <;>
    simp [hfog, hfield, h12, h10, h11]

/-! ### The format -/

theorem told_setStrides : f.setStrides.map (·.told) = f.decls.map (·.told) := by
  rw [Format.setStrides, List.map_map]
  rfl

/-- Declarations that describe the selected attributes lay out the vertex. -/
theorem Lays.layout (field : ℕ) (h : Lays f (selected s2 s4)) :
    Layout field s2 s4 f.setStrides := by
  have hcons : Consecutive VertexDecl.offset VertexDecl.size 0 f.setStrides
      ((selected s2 s4).map (·.size field)).sum := by
    rw [← h.size_eq field]
    exact h.consecutive.map (fun _ => rfl) (fun _ => rfl)
  constructor
  · rw [told_setStrides, h.told]
  · exact hcons
  · refine hcons.pairwise.imp fun hle => ?_
    exact Set.Ico_disjoint_Ico_same.mono_right (Set.Ico_subset_Ico_left hle)
  · intro b
    constructor
    · exact hcons.exists_mem (Nat.zero_le b)
    · rintro ⟨d, hd, hb⟩
      exact hb.2.trans_le (hcons.bounds hd).2
  · intro d hd
    obtain ⟨d', -, rfl⟩ := List.mem_map.mp hd
    exact h.size_eq field

/-- The cleared declaration of the fog parameter stays among the others. -/
theorem fog_mem {type : DeclType} (hfog : s4.testBit 2 = true)
    (hcoords : (((Format.ofPosition type).fields s4).optional maxNumDecls (s4.testBit 2)
      Format.addFog).texCoords maxNumDecls 8 0 s2 = .ok f) : VertexDecl.zero ∈ f.decls := by
  have hlen : ((Format.ofPosition type).fields s4).decls.length < maxNumDecls := by
    rw [(lays_fields s4 type).length_eq]
    exact (length_fieldAttributes_le s4 type).trans_lt (by decide)
  obtain ⟨added, hdecls, -⟩ := texCoords_ok hcoords
  rw [hdecls, Format.optional, if_pos ⟨hlen, hfog⟩, Format.addFog]
  simp

theorem told_ne_unsupported : d.told ≠ some .unsupported := by
  unfold VertexDecl.told
  split <;> simp

/-- The declarations in front of the texture coordinates, of which one is that of the position. -/
def fieldCount (s4 : ℕ) : ℕ := 1 + ([12, 10, 11, 2].filter s4.testBit).length

/-- The texture coordinates that get a declaration. -/
def describedCoords (s2 : ℤ) (s4 : ℕ) : List Attribute :=
  (coords 8 0 s2).take (maxNumDecls - fieldCount s4)

/-- The declarations of a format: those of the texture coordinates come last. -/
structure Split (decls fields sets : List VertexDecl) (start stride : ℕ) : Prop where
  eq : decls = fields ++ sets
  usage_fields : ∀ d ∈ fields, d.usage ≠ .texcoord
  usage_sets : ∀ d ∈ sets, d.usage = .texcoord
  strides : ∀ d ∈ decls, d.stride = stride
  consecutive : Consecutive VertexDecl.offset VertexDecl.size start sets stride
  eight_le : 8 ≤ start

theorem DeclType.four_le_size (type : DeclType) : 4 ≤ type.size := by
  cases type <;> decide

theorem told_of_usage (h : d.usage = .texcoord) :
    d.told = some (.texCoord d.usageIndex d.type) := by
  obtain ⟨usage, index, type, offset, stride⟩ := d
  cases h
  rfl

theorem texCoord_notMem_fieldAttributes {k : ℕ} {type type' : DeclType} :
    Attribute.texCoord k type' ∉ fieldAttributes type s4 := by
  unfold fieldAttributes
  cases s4.testBit 12 <;> cases s4.testBit 10 <;> cases s4.testBit 11 <;> simp

theorem usage_fields (type : DeclType) (hd : d ∈ ((Format.ofPosition type).fields s4).decls) :
    d.usage ≠ .texcoord := by
  intro husage
  have hmem : some (.texCoord d.usageIndex d.type) ∈ (fieldAttributes type s4).map some := by
    rw [← (lays_fields s4 type).told, ← told_of_usage husage]
    exact List.mem_map_of_mem hd
  exact texCoord_notMem_fieldAttributes
    ((List.mem_map_of_injective (Option.some_injective _)).mp hmem)

theorem fieldCount_eq (s4 : ℕ) (type : DeclType) : fieldCount s4 =
    (fieldAttributes type s4).length + (s4.testBit 2).toNat := by
  unfold fieldCount fieldAttributes
  cases h12 : s4.testBit 12 <;> cases h10 : s4.testBit 10 <;> cases h11 : s4.testBit 11 <;>
    cases h2 : s4.testBit 2 <;> simp [h12, h10, h11, h2]

theorem size_le_size_fields (s4 : ℕ) (type : DeclType) :
    type.size ≤ ((Format.ofPosition type).fields s4).size := by
  rw [(lays_fields s4 type).size_eq 0, fieldAttributes]
  simp only [List.map_append, List.sum_append, List.map_singleton, List.sum_singleton,
    Attribute.size]
  omega

theorem eight_le_of_positionType {type : DeclType} (h : positionType s4 = some type) :
    8 ≤ type.size := by
  unfold positionType at h
  split at h <;> cases h <;> decide

/-- What comes in front of the texture coordinates. -/
theorem fields_fog (s4 : ℕ) (type : DeclType) :
    let f := ((Format.ofPosition type).fields s4).optional maxNumDecls (s4.testBit 2) Format.addFog
    f.decls.length = fieldCount s4 ∧ type.size ≤ f.size ∧ ∀ d ∈ f.decls, d.usage ≠ .texcoord := by
  have hlen := (lays_fields s4 type).length_eq
  have hroom : ((Format.ofPosition type).fields s4).decls.length < maxNumDecls := by
    rw [hlen]
    exact (length_fieldAttributes_le s4 type).trans_lt (by decide)
  rw [fieldCount_eq s4 type, ← hlen]
  cases hfog : s4.testBit 2 with
  | false =>
    rw [Format.optional, if_neg (by simp)]
    exact ⟨rfl, size_le_size_fields s4 type, fun d hd => usage_fields type hd⟩
  | true =>
    rw [Format.optional, if_pos ⟨hroom, rfl⟩, Format.addFog]
    refine ⟨List.length_append, Nat.le_add_right_of_le (size_le_size_fields s4 type),
      fun d hd => ?_⟩
    rcases List.mem_append.mp hd with hd | hd
    · exact usage_fields type hd
    · rw [List.mem_singleton.mp hd]
      nofun

theorem analyzeVertexFormat_split (h : analyzeVertexFormat s2 s4 maxNumDecls = .ok decls) :
    ∃ fields sets start stride, Split decls fields sets start stride ∧
      sets.map (·.told) = (describedCoords s2 s4).map some := by
  obtain ⟨type, f, htype, hcoords, rfl⟩ := analyzeVertexFormat_ok h
  obtain ⟨hlen, hle, husage⟩ := fields_fog s4 type
  generalize ((Format.ofPosition type).fields s4).optional maxNumDecls (s4.testBit 2)
    Format.addFog = g at hcoords hlen hle husage
  obtain ⟨added, hdecls, hadded, hindex, -⟩ := texCoords_ok hcoords
  have htold := told_texCoords hcoords
  rw [hdecls, List.map_append, hlen, List.append_cancel_left_eq] at htold
  have hstrides : f.setStrides = g.decls.map ({ · with stride := f.size }) ++
      added.map ({ · with stride := f.size }) := by
    rw [Format.setStrides, hdecls, List.map_append]
  refine ⟨_, _, g.size, f.size,
    ⟨hstrides, ?_, ?_, ?_, ?_, (eight_le_of_positionType htype).trans hle⟩, ?_⟩
  · rintro _ hd
    obtain ⟨d, hmem, rfl⟩ := List.mem_map.mp hd
    exact husage d hmem
  · rintro _ hd
    obtain ⟨d, hmem, rfl⟩ := List.mem_map.mp hd
    exact (hindex d hmem).1
  · rintro _ hd
    obtain ⟨d, -, rfl⟩ := List.mem_map.mp hd
    rfl
  · exact hadded.map (fun _ => rfl) (fun _ => rfl)
  · rw [List.map_map]
    exact htold

/-- The declarations of an accepted format lay out the vertex exactly if neither the fog parameter
nor the unsupported field is selected. -/
theorem layout_iff (field : ℕ) (s2 : ℤ) (s4 : ℕ) (decls : List VertexDecl)
    (h : analyzeVertexFormat s2 s4 maxNumDecls = .ok decls) :
    Layout field s2 s4 decls ↔ s4.testBit 2 = false ∧ s4.testBit 9 = false := by
  obtain ⟨type, f, htype, hcoords, rfl⟩ := analyzeVertexFormat_ok h
  constructor
  · intro hlayout
    have htold : f.decls.map (·.told) |>.Perm ((selected s2 s4).map some) :=
      told_setStrides ▸ hlayout.once
    refine ⟨Bool.eq_false_iff.mpr fun hfog => ?_, Bool.eq_false_iff.mpr fun hfield => ?_⟩
    · have hmem : none ∈ (selected s2 s4).map some :=
        htold.subset (List.mem_map.mpr ⟨.zero, fog_mem hfog hcoords, rfl⟩)
      simp at hmem
    · have hmem : Attribute.unsupported ∈ selected s2 s4 := by
        simp [selected, s4Attributes, hfield]
      obtain ⟨d, -, hd⟩ := List.mem_map.mp (htold.symm.subset (List.mem_map_of_mem hmem))
      exact told_ne_unsupported hd
  · rintro ⟨hfog, hfield⟩
    have hfields := lays_fields s4 type
    have hskip : ((Format.ofPosition type).fields s4).optional maxNumDecls (s4.testBit 2)
        Format.addFog = (Format.ofPosition type).fields s4 := by
      simp [Format.optional, hfog]
    rw [hskip] at hcoords
    have hlen := length_fieldAttributes_le s4 type
    have hroom : (coords 8 0 s2).length ≤
        maxNumDecls - ((Format.ofPosition type).fields s4).decls.length := by
      rw [hfields.length_eq, maxNumDecls]
      exact length_coords_le.trans (by omega)
    obtain ⟨added, hdecls, hadded, -⟩ := texCoords_ok hcoords
    refine Lays.layout field ⟨?_, ?_⟩
    · rw [told_texCoords hcoords, hfields.told, selected_eq htype hfog hfield, List.map_append,
        List.take_of_length_le hroom]
    · rw [hdecls]
      exact hfields.consecutive.append hadded

/-- A position of two floats and one set of texture coordinates. -/
theorem layout_two_floats : ∃ decls, analyzeVertexFormat (-16) 0xC0 maxNumDecls = .ok decls ∧
    Layout 4 (-16) 0xC0 decls := by
  have h : analyzeVertexFormat (-16) 0xC0 maxNumDecls =
      .ok [⟨.positionT, 0, .float2, 0, 16⟩, ⟨.texcoord, 0, .float2, 8, 16⟩] := by rfl
  exact ⟨_, h, (layout_iff 4 (-16) 0xC0 _ h).mpr (by decide)⟩

/-- With the fog parameter the second declaration is that of a position in the first four bytes,
over the position that the first one describes, and nothing describes the last four. -/
theorem not_layout_fog : analyzeVertexFormat (-1) 0xC4 maxNumDecls =
      .ok [⟨.positionT, 0, .float2, 0, 12⟩, ⟨.position, 0, .float1, 0, 12⟩] ∧
    ¬ Layout 4 (-1) 0xC4 [⟨.positionT, 0, .float2, 0, 12⟩, ⟨.position, 0, .float1, 0, 12⟩] := by
  refine ⟨rfl, fun h => ?_⟩
  have hcover := (h.cover 11).mp (by decide)
  simp [VertexDecl.bytes, VertexDecl.size, DeclType.size] at hcover

end Cesvga2.IPP
