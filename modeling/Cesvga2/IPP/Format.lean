import Cesvga2.Basic

/-! The vertex format that the immediate registers `S2` and `S4` select, as
`analyze_vertex_format` reads it. -/

namespace Cesvga2.IPP

/-- The `width` bits of `v` from `start` on. -/
def bitSelect (v start width : ℕ) : ℕ := v >>> start % 2 ^ width

inductive DeclUsage where
  | position
  | positionT
  | psize
  | color
  | texcoord
  deriving DecidableEq, Repr

inductive DeclType where
  | float1
  | float2
  | float3
  | float4
  | d3dcolor
  | float16x2
  | float16x4
  deriving DecidableEq, Repr

structure VertexDecl where
  usage : DeclUsage
  usageIndex : ℕ
  type : DeclType
  offset : ℕ
  stride : ℕ
  deriving DecidableEq, Repr

/-- A declaration as `bzero` leaves it. -/
def VertexDecl.zero : VertexDecl := ⟨.position, 0, .float1, 0, 0⟩

/-- The declarations so far and `d3d_size`. -/
structure Format where
  decls : List VertexDecl
  size : ℕ
  deriving DecidableEq, Repr

namespace Format

def add (f : Format) (usage : DeclUsage) (usageIndex : ℕ) (type : DeclType) (bytes : ℕ) :
    Format where
  decls := f.decls ++ [⟨usage, usageIndex, type, f.size, 0⟩]
  size := f.size + bytes

/-- The fog parameter takes room in the vertex and a declaration that nothing fills in. -/
def addFog (f : Format) : Format where
  decls := f.decls ++ [.zero]
  size := f.size + 4

/-- An attribute of `S4`, unless the array of declarations is full. -/
def optional (f : Format) (numDecls : ℕ) (selected : Bool) (g : Format → Format) : Format :=
  if f.decls.length < numDecls ∧ selected then g f else f

/-- The `TEXCOORDFMT` codes that are known. -/
def texCoord : ℕ → Option (DeclType × ℕ)
  | 0 => some (.float2, 8)
  | 1 => some (.float3, 12)
  | 2 => some (.float4, 16)
  | 3 => some (.float1, 4)
  | 4 => some (.float16x2, 4)
  | 5 => some (.float16x4, 8)
  | _ => none

/-- The texture coordinate sets, four bits of `S2` for each; the shift is that of a
signed integer. -/
def texCoords (numDecls : ℕ) : ℕ → ℕ → ℤ → Format → Except IOReturn Format
  | 0, _, _, f => .ok f
  | n + 1, tc, s2, f =>
    if ¬ f.decls.length < numDecls ∨ s2 = -1 then .ok f
    else if s2 % 16 = 15 then texCoords numDecls n (tc + 1) (s2 / 16) f
    else match texCoord (s2 % 16).toNat with
      | none => .error .error
      | some (type, bytes) =>
        texCoords numDecls n (tc + 1) (s2 / 16) (f.add .texcoord tc type bytes)

def setStrides (f : Format) : List VertexDecl := f.decls.map ({ · with stride := f.size })

def position (s4 : ℕ) : Except IOReturn Format :=
  match bitSelect s4 6 3 with
  | 1 => .ok ((⟨[], 0⟩ : Format).add .positionT 0 .float3 12)
  | 2 => .ok ((⟨[], 0⟩ : Format).add .positionT 0 .float4 16)
  | 3 => .ok ((⟨[], 0⟩ : Format).add .positionT 0 .float2 8)
  | 4 => .error .unsupported
  | _ => .error .error

end Format

/-- The declarations for `numDecls` places; `s2` is a signed integer. -/
def analyzeVertexFormat (s2 : ℤ) (s4 numDecls : ℕ) : Except IOReturn (List VertexDecl) :=
  if numDecls = 0 then .ok []
  else do
    let f ← Format.position s4
    let f := f.optional numDecls (s4.testBit 12) (·.add .psize 0 .float1 4)
    let f := f.optional numDecls (s4.testBit 10) (·.add .color 0 .d3dcolor 4)
    let f := f.optional numDecls (s4.testBit 11) (·.add .color 1 .d3dcolor 4)
    let f := f.optional numDecls (s4.testBit 2) Format.addFog
    let f ← f.texCoords numDecls 8 0 s2
    return f.setStrides

def maxNumDecls : ℕ := 12

/-- A register's value as the `int` that it is passed as. -/
def toInt32 (n : ℕ) : ℤ := (BitVec.ofNat 32 n).toInt

end Cesvga2.IPP
