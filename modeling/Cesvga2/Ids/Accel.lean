import Cesvga2.Ids.Pool

/-! The surface and GMR ids of the accelerator, over any history of calls. Surface ids past
the bitmap come from a counter and are not used again. -/

namespace Cesvga2.Ids

open Cesvga2.Bits (bit)

/-- Words of the two bitmaps. -/
def surfaceEntries : ℕ := 4

def gmrEntries : ℕ := 2

structure Accel where
  surface : Pool
  surfaceIdsUnmanaged : ℕ
  gmr : Pool

namespace Accel

/-- The object after `start`, on a device with `maxGMRIDs` GMR ids. -/
def init (maxGMRIDs : ℕ) : Accel :=
  ⟨⟨fun _ => 0, 0⟩, 0, ⟨maskArray64 (fun _ => 0) maxGMRIDs (64 * gmrEntries), 0⟩⟩

variable (a : Accel)

def allocSurfaceID : ℕ × Accel :=
  match a.surface.alloc surfaceEntries with
  | (some r, p) => (r, { a with surface := p })
  | (none, p) => (u32 (64 * surfaceEntries + a.surfaceIdsUnmanaged),
      { a with surface := p, surfaceIdsUnmanaged := u32 (a.surfaceIdsUnmanaged + 1) })

def freeSurfaceID (sid : ℕ) : Accel := { a with surface := a.surface.free surfaceEntries sid }

def allocGMRID : Option ℕ × Accel :=
  ((a.gmr.alloc gmrEntries).1, { a with gmr := (a.gmr.alloc gmrEntries).2 })

def freeGMRID (gmrId : ℕ) : Accel := { a with gmr := a.gmr.free gmrEntries gmrId }

end Accel

/-- The accelerator with the ids that are live. -/
structure Sys where
  accel : Accel
  surfaces : Finset ℕ
  gmrs : Finset ℕ

/-- Histories in which live ids only are given back, with fewer surface ids past the bitmap
than there are. -/
inductive Reachable (maxGMRIDs : ℕ) : Sys → Prop
  | init : Reachable maxGMRIDs ⟨.init maxGMRIDs, ∅, ∅⟩
  | allocSurfaceID {s : Sys} (h : Reachable maxGMRIDs s)
      (hu : s.accel.surfaceIdsUnmanaged < 2 ^ 32 - 256) :
      Reachable maxGMRIDs { s with
        accel := s.accel.allocSurfaceID.2
        surfaces := insert s.accel.allocSurfaceID.1 s.surfaces }
  | freeSurfaceID {s : Sys} (h : Reachable maxGMRIDs s) (sid : ℕ) (hsid : sid ∈ s.surfaces) :
      Reachable maxGMRIDs { s with
        accel := s.accel.freeSurfaceID sid
        surfaces := s.surfaces.erase sid }
  | allocGMRID {s : Sys} (h : Reachable maxGMRIDs s) :
      Reachable maxGMRIDs { s with
        accel := s.accel.allocGMRID.2
        gmrs := s.accel.allocGMRID.1.elim s.gmrs (insert · s.gmrs) }
  | freeGMRID {s : Sys} (h : Reachable maxGMRIDs s) (id : ℕ) (hid : id ∈ s.gmrs) :
      Reachable maxGMRIDs { s with
        accel := s.accel.freeGMRID id
        gmrs := s.gmrs.erase id }

/-- The surface ids that the bitmap has to give, and the GMR ids. -/
def Sys.freeSurfaces (s : Sys) : Set ℕ := Free surfaceEntries 256 s.surfaces

def Sys.freeGMRs (maxGMRIDs : ℕ) (s : Sys) : Set ℕ := Free gmrEntries maxGMRIDs s.gmrs

/-! ### The invariant -/

structure Inv (maxGMRIDs : ℕ) (s : Sys) : Prop where
  surface : s.accel.surface.Inv surfaceEntries 256 s.surfaces
  unmanaged : ∀ id ∈ s.surfaces, id < 256 + s.accel.surfaceIdsUnmanaged
  gmr : s.accel.gmr.Inv gmrEntries maxGMRIDs s.gmrs
  lt : ∀ id ∈ s.gmrs, id < maxGMRIDs

variable {maxGMRIDs : ℕ} {s : Sys}

theorem bit_zero {i : ℕ} : bit (fun _ => (0 : BitVec 64)) i = false := by
  simp [bit]

theorem inv_init : Inv maxGMRIDs ⟨.init maxGMRIDs, ∅, ∅⟩ := by
  refine ⟨⟨Nat.zero_le _, by simp [Accel.init], fun i hi => ?_⟩, by simp,
    ⟨Nat.zero_le _, by simp [Accel.init], fun i hi => ?_⟩, by simp⟩
  · have : i < 256 := hi
    simp only [Accel.init, bit_zero, Finset.notMem_empty, false_or]
    exact iff_of_false (by simp) (by omega)
  · simp only [Accel.init, bit_maskArray64, bit_zero, Bool.false_or, decide_eq_true_iff,
      Finset.notMem_empty, false_or]
    exact and_iff_left hi

/-- A surface id is new, and the lowest free one while the bitmap has one. -/
theorem Inv.allocSurfaceID (h : Inv maxGMRIDs s)
    (hu : s.accel.surfaceIdsUnmanaged < 2 ^ 32 - 256) :
    (s.accel.allocSurfaceID.1 ∉ s.surfaces ∧
      (s.freeSurfaces.Nonempty → IsLeast s.freeSurfaces s.accel.allocSurfaceID.1)) ∧
    Inv maxGMRIDs { s with
      accel := s.accel.allocSurfaceID.2
      surfaces := insert s.accel.allocSurfaceID.1 s.surfaces } := by
  unfold Accel.allocSurfaceID
  cases ha : s.accel.surface.alloc surfaceEntries with
  | mk r p =>
    cases r with
    | some r =>
      have hr : (s.accel.surface.alloc surfaceEntries).1 = some r := by rw [ha]
      obtain ⟨hleast, hinv⟩ := h.surface.alloc_some hr
      rw [ha] at hinv
      refine ⟨⟨hleast.1.2.2, fun _ => hleast⟩, hinv, ?_, h.gmr, h.lt⟩
      rw [Finset.forall_mem_insert]
      have := hleast.1.2.1
      exact ⟨by dsimp only; omega, h.unmanaged⟩
    | none =>
      obtain ⟨hempty, hinv⟩ := h.surface.alloc_none (by rw [ha])
      rw [ha] at hinv
      have hid : u32 (64 * surfaceEntries + s.accel.surfaceIdsUnmanaged) =
          256 + s.accel.surfaceIdsUnmanaged := u32_of_lt (by unfold surfaceEntries; omega)
      have hcount : u32 (s.accel.surfaceIdsUnmanaged + 1) = s.accel.surfaceIdsUnmanaged + 1 :=
        u32_of_lt (by omega)
      dsimp only
      rw [hid, hcount]
      refine ⟨⟨fun hmem => absurd (h.unmanaged _ hmem) (lt_irrefl _), fun hne => ?_⟩,
        ?_, ?_, h.gmr, h.lt⟩
      · rw [Sys.freeSurfaces, hempty] at hne
        exact absurd hne Set.not_nonempty_empty
      · exact hinv.insert_of_ge (by unfold surfaceEntries; omega)
      · rw [Finset.forall_mem_insert]
        refine ⟨by dsimp only; omega, fun id hmem => ?_⟩
        have := h.unmanaged id hmem
        dsimp only
        omega

theorem Inv.allocSurfaceID_le (h : Inv maxGMRIDs s)
    (hu : s.accel.surfaceIdsUnmanaged < 2 ^ 32 - 256) :
    s.accel.allocSurfaceID.1 ≤ 256 + s.accel.surfaceIdsUnmanaged := by
  have hlt := (h.allocSurfaceID hu).2.unmanaged _ (Finset.mem_insert_self _ _)
  have hcount : s.accel.allocSurfaceID.2.surfaceIdsUnmanaged ≤
      s.accel.surfaceIdsUnmanaged + 1 := by
    unfold Accel.allocSurfaceID
    split
    · exact Nat.le_succ _
    · exact Nat.mod_le _ _
  dsimp only at hlt
  omega

theorem Inv.allocGMRID (h : Inv maxGMRIDs s) :
    (∀ id ∈ s.accel.allocGMRID.1, id ∉ s.gmrs ∧ id < maxGMRIDs) ∧
    ((s.freeGMRs maxGMRIDs).Nonempty →
      ∃ id ∈ s.accel.allocGMRID.1, IsLeast (s.freeGMRs maxGMRIDs) id) ∧
    Inv maxGMRIDs { s with
      accel := s.accel.allocGMRID.2
      gmrs := s.accel.allocGMRID.1.elim s.gmrs (insert · s.gmrs) } := by
  cases ha : (s.accel.gmr.alloc gmrEntries).1 with
  | some id =>
    obtain ⟨hleast, hinv⟩ := h.gmr.alloc_some ha
    have hresult : s.accel.allocGMRID.1 = some id := ha
    rw [hresult]
    refine ⟨?_, fun _ => ⟨id, rfl, hleast⟩, h.surface, h.unmanaged, hinv, ?_⟩
    · rintro _ ⟨⟩
      exact ⟨hleast.1.2.2, hleast.1.2.1⟩
    · exact (Finset.forall_mem_insert _ _ _).mpr ⟨hleast.1.2.1, h.lt⟩
  | none =>
    obtain ⟨hempty, hinv⟩ := h.gmr.alloc_none ha
    have hresult : s.accel.allocGMRID.1 = none := ha
    rw [hresult]
    refine ⟨by simp, fun hne => ?_, h.surface, h.unmanaged, hinv, h.lt⟩
    rw [Sys.freeGMRs, hempty] at hne
    exact absurd hne Set.not_nonempty_empty

theorem Inv.freeGMRID (h : Inv maxGMRIDs s) {id : ℕ} (hid : id ∈ s.gmrs) :
    Inv maxGMRIDs { s with accel := s.accel.freeGMRID id, gmrs := s.gmrs.erase id } :=
  ⟨h.surface, h.unmanaged, h.gmr.free fun _ => h.lt id hid,
    fun i hi => h.lt i (Finset.mem_of_mem_erase hi)⟩

theorem Reachable.inv (h : Reachable maxGMRIDs s) : Inv maxGMRIDs s := by
  induction h with
  | init => exact inv_init
  | allocSurfaceID _ hu ih => exact (ih.allocSurfaceID hu).2
  | freeSurfaceID _ sid hsid ih =>
    exact ⟨ih.surface.free id, fun i hi => ih.unmanaged i (Finset.mem_of_mem_erase hi), ih.gmr,
      ih.lt⟩
  | allocGMRID _ ih => exact ih.allocGMRID.2.2
  | freeGMRID _ id hid ih => exact ih.freeGMRID hid

/-- In every history: each word below a cached index is full; an id that is handed out is not
live, and is the lowest free one while the bitmap has one; GMR ids are below the maximum. -/
theorem ids_of_reachable (maxGMRIDs : ℕ) (s : Sys) (h : Reachable maxGMRIDs s) :
    (∀ k < s.accel.surface.idx, s.accel.surface.mask k = BitVec.allOnes 64) ∧
    (∀ k < s.accel.gmr.idx, s.accel.gmr.mask k = BitVec.allOnes 64) ∧
    (s.accel.surfaceIdsUnmanaged < 2 ^ 32 - 256 →
      s.accel.allocSurfaceID.1 ∉ s.surfaces ∧
        (s.freeSurfaces.Nonempty → IsLeast s.freeSurfaces s.accel.allocSurfaceID.1)) ∧
    (∀ id ∈ s.accel.allocGMRID.1, id ∉ s.gmrs ∧ id < maxGMRIDs) ∧
    ((s.freeGMRs maxGMRIDs).Nonempty →
      ∃ id ∈ s.accel.allocGMRID.1, IsLeast (s.freeGMRs maxGMRIDs) id) := by
  have hinv := h.inv
  exact ⟨hinv.surface.full, hinv.gmr.full, fun hu => (hinv.allocSurfaceID hu).1,
    hinv.allocGMRID.1, hinv.allocGMRID.2.1⟩

/-- The first GMR id, given back and handed out again. -/
theorem ids_of_reused_gmr :
    let s : Sys := ⟨.init 3, ∅, ∅⟩
    s.accel.allocGMRID.1 = some 0 ∧
      ∀ id ∈ (s.accel.allocGMRID.2.freeGMRID 0).allocGMRID.1, id ∉ (∅ : Finset ℕ) ∧ id < 3 := by
  intro s
  have hinit : Reachable 3 s := .init
  have halloc : s.accel.allocGMRID.1 = some 0 := by decide +kernel
  have hfree := hinit.allocGMRID.freeGMRID 0 (by rw [halloc]; exact Finset.mem_insert_self _ _)
  refine ⟨halloc, fun id hid => ?_⟩
  exact ⟨Finset.notMem_empty id, ((ids_of_reachable 3 _ hfree).2.2.2.1 id hid).2⟩

end Cesvga2.Ids
