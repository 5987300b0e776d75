import Cesvga2.Allocator.Pool
import Cesvga2.Blocks.Tiling
import Cesvga2.Links.Linked

/-! The abstract heap behind a pool: the live blocks, the free blocks, the block
numbers they tile, and a set of block numbers in limbo, released but between
owners while an operation runs. The edits of the free lists are described by
what they leave in memory, so one rule covers every place of the source that
pushes or unlinks a block. -/

namespace Cesvga2.Allocator

open Blocks Blocks.Block Links

namespace Pool

def prev (a : Pool) (b : ℕ) : ℕ := a.mem (1024 * b + 1)

def next (a : Pool) (b : ℕ) : ℕ := a.mem (1024 * b + 2)

theorem ptr_eq {off : ℕ} (h : off < 2 ^ 20) : ptr off = 1024 * off := by
  simp only [ptr, minBits]
  rw [u32_of_lt (by omega)]
  omega

theorem not_corrupt {a : Pool} {n link off : ℕ} (hs : a.poolBlocks < 2 ^ 20)
    (hn : n < a.poolBlocks) (hm : a.mem (1024 * n) = magic)
    (hl : a.mem (1024 * n + link) = off) : ¬ a.corrupt n link off := by
  simp only [corrupt, ptr_eq (hn.trans hs), offMagic, Nat.add_zero, hm, hl, ne_eq,
    not_true_eq_false, or_self, or_false, not_le]
  exact hn

theorem words_eq (bits : ℕ) : words bits = 1024 * 2 ^ bits := by
  simp only [words, minBits, pow_add]
  omega

end Pool

/-- The pool `a` holds the live blocks `L` and the free blocks `F`; together they
tile `R`, and `M` is in limbo. -/
structure Heap (a : Pool) (L F : Finset Block) (R M : Finset ℕ) : Prop where
  tiling : Tiling (L ∪ F) R
  apart : Disjoint L F
  order_lt : ∀ β ∈ L ∪ F, β.order < numSizes
  small : a.poolBlocks < 2 ^ 20
  inPool : R ∪ M ⊆ Finset.range a.poolBlocks
  limbo : Disjoint R M
  bits : ∀ n < a.poolBlocks,
    a.bitTest n = true ↔ n ∉ R ∪ M ∨ ∃ β ∈ L, n + 1 = β.past
  lists : ∀ k < numSizes, ∃ l, Linked ournull a.prev a.next (a.freeList k) l ∧
    ∀ b, b ∈ l ↔ (⟨b, k⟩ : Block) ∈ F
  header : ∀ β ∈ F, a.mem (1024 * β.start) = magic
  trailer : ∀ β ∈ F, a.mem (1024 * β.past - 1) = β.order + lenOffset

namespace Heap

variable {a a' : Pool} {L F : Finset Block} {R M : Finset ℕ} {β γ : Block} {k n : ℕ}

section Blocks

theorem live_mem (hβ : β ∈ L) : β ∈ L ∪ F := Finset.mem_union_left _ hβ

theorem free_mem (hβ : β ∈ F) : β ∈ L ∪ F := Finset.mem_union_right _ hβ

theorem past_le (h : Heap a L F R M) (hβ : β.extent ⊆ R ∪ M) : β.past ≤ a.poolBlocks := by
  have := β.start_lt_past
  have := Finset.mem_range.mp (h.inPool (hβ β.last_mem))
  omega

theorem tile_past_le (h : Heap a L F R M) (hβ : β ∈ L ∪ F) : β.past ≤ a.poolBlocks :=
  h.past_le ((h.tiling.extent_subset hβ).trans Finset.subset_union_left)

theorem start_lt (h : Heap a L F R M) (hβ : β ∈ L ∪ F) : β.start < a.poolBlocks :=
  β.start_lt_past.trans_le (h.tile_past_le hβ)

theorem free_order_lt (h : Heap a L F R M) (hβ : β ∈ F) : β.order < numSizes :=
  h.order_lt β (free_mem hβ)

/-- A block in limbo is neither live nor free. -/
theorem not_mem_of_limbo (h : Heap a L F R M) (hγ : γ.extent ⊆ M) : γ ∉ L ∪ F :=
  h.tiling.not_mem_of_disjoint (Finset.disjoint_of_subset_left hγ h.limbo.symm)

theorem ne_of_limbo (h : Heap a L F R M) (hβ : β ∈ L ∪ F) (hm : n ∈ β.extent) : n ∉ M :=
  fun hn => Finset.disjoint_left.mp h.limbo (h.tiling.extent_subset hβ hm) hn

/-- Free blocks that start together are the same block. -/
theorem order_eq (h : Heap a L F R M) {b j : ℕ} (hk : (⟨b, k⟩ : Block) ∈ F)
    (hj : (⟨b, j⟩ : Block) ∈ F) : k = j :=
  congrArg Block.order (h.tiling.eq_of_mem (free_mem hk) (free_mem hj) (start_mem ⟨b, k⟩)
    (start_mem ⟨b, j⟩))

end Blocks

/-! ### A block between the tiles and limbo -/

section Regions

variable {E : Finset ℕ}

theorem regions_take (hM : E ⊆ M) : E ∪ R ∪ M \ E = R ∪ M := by
  ext n
  have := @hM n
  simp only [Finset.mem_union, Finset.mem_sdiff]
  tauto

theorem regions_give (hR : E ⊆ R) : R \ E ∪ (M ∪ E) = R ∪ M := by
  ext n
  have := @hR n
  simp only [Finset.mem_union, Finset.mem_sdiff]
  tauto

theorem limbo_take (h : Disjoint R M) : Disjoint (E ∪ R) (M \ E) := by
  rw [Finset.disjoint_union_left]
  exact ⟨Finset.disjoint_sdiff, Finset.disjoint_of_subset_right Finset.sdiff_subset h⟩

theorem limbo_give (h : Disjoint R M) : Disjoint (R \ E) (M ∪ E) := by
  rw [Finset.disjoint_union_right]
  exact ⟨Finset.disjoint_of_subset_left Finset.sdiff_subset h, Finset.sdiff_disjoint⟩

end Regions

/-! ### Reading the lists -/

theorem head_mem (h : Heap a L F R M) (hk : k < numSizes) (hne : a.freeList k ≠ ournull) :
    (⟨a.freeList k, k⟩ : Block) ∈ F ∧ a.prev (a.freeList k) = ournull := by
  obtain ⟨l, hl, hF⟩ := h.lists k hk
  exact ⟨(hF _).mp (hl.head_mem hne), hl.prev_head hne⟩

theorem next_mem (h : Heap a L F R M) (hβ : β ∈ F) (hne : a.next β.start ≠ ournull) :
    (⟨a.next β.start, β.order⟩ : Block) ∈ F ∧ a.prev (a.next β.start) = β.start ∧
      a.next β.start ≠ β.start := by
  obtain ⟨l, hl, hF⟩ := h.lists β.order (h.free_order_lt hβ)
  obtain ⟨h1, h2⟩ := hl.next_mem ((hF β.start).mpr hβ) hne
  exact ⟨(hF _).mp h1, h2⟩

theorem prev_mem (h : Heap a L F R M) (hβ : β ∈ F) (hne : a.prev β.start ≠ ournull) :
    (⟨a.prev β.start, β.order⟩ : Block) ∈ F ∧ a.next (a.prev β.start) = β.start ∧
      a.prev β.start ≠ β.start := by
  obtain ⟨l, hl, hF⟩ := h.lists β.order (h.free_order_lt hβ)
  obtain ⟨h1, h2⟩ := hl.prev_mem ((hF β.start).mpr hβ) hne
  exact ⟨(hF _).mp h1, h2⟩

theorem list_ne (h : Heap a L F R M) (hβ : β ∈ F) : a.freeList β.order ≠ ournull := by
  intro he
  obtain ⟨l, hl, hF⟩ := h.lists β.order (h.free_order_lt hβ)
  rw [he] at hl
  have hm := (hF β.start).mpr hβ
  rw [hl.eq_nil_of_head] at hm
  exact List.not_mem_nil hm

/-- A free block passes the test of a list neighbour that it is linked back. -/
theorem not_corrupt (h : Heap a L F R M) (hβ : β ∈ F) {link off : ℕ}
    (hlink : a.mem (1024 * β.start + link) = off) : ¬ a.corrupt β.start link off :=
  Pool.not_corrupt h.small (h.start_lt (free_mem hβ)) (h.header β hβ) hlink

/-! ### Edits -/

/-- Only the words of the free blocks and the bits of the pool matter. -/
theorem frame (h : Heap a L F R M) (hp : a'.poolBlocks = a.poolBlocks)
    (hl : a'.freeList = a.freeList) (hb : ∀ n < a.poolBlocks, a'.bitTest n = a.bitTest n)
    (hm : ∀ β ∈ F, ∀ w, w / 1024 ∈ β.extent → a'.mem w = a.mem w) : Heap a' L F R M := by
  have hstart : ∀ β ∈ F, ∀ i < 1024, a'.mem (1024 * β.start + i) = a.mem (1024 * β.start + i) :=
    fun β hβ i hi => hm β hβ _ (by
      rw [show (1024 * β.start + i) / 1024 = β.start by omega]
      exact β.start_mem)
  refine ⟨h.tiling, h.apart, h.order_lt, hp ▸ h.small, hp ▸ h.inPool, h.limbo, ?_, ?_, ?_, ?_⟩
  · intro n hn
    rw [hp] at hn
    rw [hb n hn]
    exact h.bits n hn
  · intro k hk
    obtain ⟨l, hlk, hF⟩ := h.lists k hk
    refine ⟨l, hl ▸ hlk.congr (fun c hc => ?_) (fun c hc => ?_), hF⟩
    · exact hstart ⟨c, k⟩ ((hF c).mp hc) 1 (by norm_num)
    · exact hstart ⟨c, k⟩ ((hF c).mp hc) 2 (by norm_num)
  · intro β hβ
    rw [← h.header β hβ]
    exact hstart β hβ 0 (by norm_num)
  · intro β hβ
    rw [← h.trailer β hβ]
    refine hm β hβ _ ?_
    have := β.start_lt_past
    simp only [mem_extent]
    omega

end Heap

/-- What a push of the block `γ` leaves: its four words of metadata, the back
link of the old head, and the rest of memory outside the block. -/
structure Pushed (a : Pool) (γ : Block) (a' : Pool) : Prop where
  poolBlocks : a'.poolBlocks = a.poolBlocks
  map : a'.map = a.map
  freeList : a'.freeList = Function.update a.freeList γ.order γ.start
  header : a'.mem (1024 * γ.start) = magic
  prev : a'.prev γ.start = ournull
  next : a'.next γ.start = a.freeList γ.order
  trailer : a'.mem (1024 * γ.past - 1) = γ.order + lenOffset
  back : a.freeList γ.order ≠ ournull → a'.prev (a.freeList γ.order) = γ.start
  rest : ∀ w, w / 1024 ∉ γ.extent →
    (a.freeList γ.order ≠ ournull → w ≠ 1024 * a.freeList γ.order + 1) → a'.mem w = a.mem w

/-- What unlinking the block `β` leaves: its neighbours joined, the list head
moved on when `β` was the head, and the rest of memory outside the block. -/
structure Unlinked (a : Pool) (β : Block) (a' : Pool) : Prop where
  poolBlocks : a'.poolBlocks = a.poolBlocks
  map : a'.map = a.map
  freeList : a'.freeList = if a.prev β.start = ournull then
    Function.update a.freeList β.order (a.next β.start) else a.freeList
  back : a.next β.start ≠ ournull → a'.prev (a.next β.start) = a.prev β.start
  forth : a.prev β.start ≠ ournull → a'.next (a.prev β.start) = a.next β.start
  rest : ∀ w, w / 1024 ∉ β.extent →
    (a.next β.start ≠ ournull → w ≠ 1024 * a.next β.start + 1) →
    (a.prev β.start ≠ ournull → w ≠ 1024 * a.prev β.start + 2) → a'.mem w = a.mem w

namespace Heap

variable {a a' : Pool} {L F : Finset Block} {R M : Finset ℕ} {β γ : Block} {k n : ℕ}

theorem start_word {b i : ℕ} (hi : i < 1024) : (1024 * b + i) / 1024 = b := by omega

theorem trailer_word (β : Block) : (1024 * β.past - 1) / 1024 ∈ β.extent := by
  have := β.start_lt_past
  simp only [mem_extent]
  omega

section Push

/-- The words of a free block change only in the back link of the old head. -/
theorem push_word (h : Heap a L F R M) (hM : γ.extent ⊆ M) (hp : Pushed a γ a') (hβ : β ∈ F)
    {w : ℕ} (hw : w / 1024 ∈ β.extent) (hne : w ≠ 1024 * a.freeList γ.order + 1) :
    a'.mem w = a.mem w :=
  hp.rest w (fun hm => h.ne_of_limbo (free_mem hβ) hw (hM hm)) fun _ => hne

theorem push_start (h : Heap a L F R M) (hM : γ.extent ⊆ M) (hp : Pushed a γ a') {b j i : ℕ}
    (hb : (⟨b, j⟩ : Block) ∈ F) (hi : i < 1024)
    (hne : 1024 * b + i ≠ 1024 * a.freeList γ.order + 1) :
    a'.mem (1024 * b + i) = a.mem (1024 * b + i) :=
  h.push_word hM hp hb (by rw [start_word hi]; exact start_mem ⟨b, j⟩) hne

/-- The block is the first of its list; the other lists stay. -/
theorem push_lists (h : Heap a L F R M) (ho : γ.order < numSizes) (hM : γ.extent ⊆ M)
    (hp : Pushed a γ a') (hk : k < numSizes) :
    ∃ l, Linked ournull a'.prev a'.next (a'.freeList k) l ∧
      ∀ b, b ∈ l ↔ (⟨b, k⟩ : Block) ∈ insert γ F := by
  have hnew : γ ∉ L ∪ F := h.not_mem_of_limbo hM
  obtain ⟨l, hl, hF⟩ := h.lists k hk
  by_cases hkγ : k = γ.order
  · subst hkγ
    refine ⟨γ.start :: l, ?_, fun b => ?_⟩
    · rw [hp.freeList, Function.update_self]
      refine hl.push (fun hm => hnew (free_mem ((hF _).mp hm))) ?_ hp.prev hp.next hp.back
        (fun c hc hne => ?_) (fun c hc => ?_)
      · have h1 := h.past_le (hM.trans Finset.subset_union_right)
        have h2 := γ.start_lt_past
        have h3 := h.small
        simp only [ournull]
        omega
      · exact h.push_start hM hp ((hF c).mp hc) (by norm_num) (by omega)
      · exact h.push_start hM hp ((hF c).mp hc) (by norm_num) (by omega)
    · rw [List.mem_cons, Finset.mem_insert, hF]
      refine or_congr_left ⟨fun hb => ?_, fun hb => congrArg Block.start hb⟩
      rw [hb]
  · refine ⟨l, ?_, fun b => ?_⟩
    · rw [hp.freeList, Function.update_of_ne hkγ]
      refine hl.congr (fun c hc => ?_) (fun c hc => ?_)
      · by_cases hhead : a.freeList γ.order = ournull
        · refine hp.rest _ ?_ fun hne => absurd hhead hne
          rw [start_word (by norm_num)]
          exact fun hm => h.ne_of_limbo (free_mem ((hF c).mp hc)) (start_mem ⟨c, k⟩) (hM hm)
        · refine h.push_start hM hp ((hF c).mp hc) (by norm_num) fun he => hkγ ?_
          obtain rfl : c = a.freeList γ.order := by omega
          exact h.order_eq ((hF _).mp hc) (h.head_mem ho hhead).1
      · exact h.push_start hM hp ((hF c).mp hc) (by norm_num) (by omega)
    · rw [Finset.mem_insert, hF]
      refine ⟨Or.inr, fun hb => hb.resolve_left fun he => hkγ ?_⟩
      exact congrArg Block.order he

theorem push (h : Heap a L F R M) (hγ : γ.Aligned) (ho : γ.order < numSizes)
    (hM : γ.extent ⊆ M) (hp : Pushed a γ a') :
    Heap a' L (insert γ F) (γ.extent ∪ R) (M \ γ.extent) := by
  have hnew : γ ∉ L ∪ F := h.not_mem_of_limbo hM
  have hdisj : Disjoint γ.extent R := Finset.disjoint_of_subset_left hM h.limbo.symm
  refine ⟨?_, ?_, ?_, ?_, ?_, ?_, ?_, ?_, ?_, ?_⟩
  · rw [Finset.union_insert]
    exact h.tiling.insert hγ hdisj
  · rw [Finset.disjoint_insert_right]
    exact ⟨fun hL => hnew (live_mem hL), h.apart⟩
  · intro β hβ
    rw [Finset.union_insert, Finset.mem_insert] at hβ
    rcases hβ with rfl | hβ
    · exact ho
    · exact h.order_lt β hβ
  · rw [hp.poolBlocks]; exact h.small
  · rw [hp.poolBlocks, regions_take hM]; exact h.inPool
  · exact limbo_take h.limbo
  · rw [hp.poolBlocks, regions_take hM]
    intro n hn
    simp only [Pool.bitTest, hp.map]
    exact h.bits n hn
  · exact fun k hk => h.push_lists ho hM hp hk
  · intro β hβ
    rcases Finset.mem_insert.mp hβ with rfl | hβ
    · exact hp.header
    · rw [← h.header β hβ]
      exact h.push_start hM hp hβ (i := 0) (by norm_num) (by omega)
  · intro β hβ
    rcases Finset.mem_insert.mp hβ with rfl | hβ
    · exact hp.trailer
    · rw [← h.trailer β hβ]
      refine h.push_word hM hp hβ (trailer_word β) ?_
      have := β.start_lt_past
      omega

end Push

section Unlink

theorem not_mem_of_erase (h : Heap a L F R M) (hβ : β ∈ F) (hγ : γ ∈ F.erase β)
    (hn : n ∈ γ.extent) : n ∉ β.extent := fun hnβ =>
  Finset.ne_of_mem_erase hγ
    (h.tiling.eq_of_mem (free_mem (Finset.mem_of_mem_erase hγ)) (free_mem hβ) hn hnβ)

/-- The list of the block goes on without it. -/
theorem unlink_own (h : Heap a L F R M) (hβ : β ∈ F) (hu : Unlinked a β a') :
    ∃ l, Linked ournull a'.prev a'.next (a'.freeList β.order) l ∧
      ∀ b, b ∈ l ↔ (⟨b, β.order⟩ : Block) ∈ F.erase β := by
  obtain ⟨l, hl, hF⟩ := h.lists β.order (h.free_order_lt hβ)
  obtain ⟨l₁, l₂, rfl⟩ := List.append_of_mem ((hF β.start).mpr hβ)
  have hmem : ∀ b, b ∈ l₁ ++ l₂ ↔ (⟨b, β.order⟩ : Block) ∈ F.erase β := by
    intro b
    have hnd := hl.nodup
    rw [List.nodup_middle, List.nodup_cons] at hnd
    have hne : (⟨b, β.order⟩ : Block) ≠ β ↔ b ≠ β.start :=
      not_congr ⟨fun he => congrArg Block.start he, fun he => by rw [he]⟩
    rw [Finset.mem_erase, ← hF b, hne, List.mem_append, List.mem_append, List.mem_cons]
    constructor
    · intro hb
      refine ⟨?_, hb.imp_right Or.inr⟩
      rintro rfl
      exact hnd.1 (List.mem_append.mpr hb)
    · rintro ⟨hb, hm⟩
      tauto
  have hnull : ∀ c ∈ l₁ ++ l₂, c ≠ ournull := by
    rintro c hc rfl
    exact hl.fresh ((hF _).mpr (Finset.mem_of_mem_erase ((hmem _).mp hc)))
  have hfar : ∀ c ∈ l₁ ++ l₂, ∀ i < 1024, (1024 * c + i) / 1024 ∉ β.extent := by
    intro c hc i hi
    rw [start_word hi]
    exact h.not_mem_of_erase hβ ((hmem c).mp hc) (start_mem ⟨c, β.order⟩)
  refine ⟨l₁ ++ l₂, hl.unlink ?_ (fun c hc => ?_) (fun c hc => ?_), hmem⟩
  · rw [hu.freeList]
    split <;> simp
  · split
    · next he => rw [he]; exact hu.back (he ▸ hnull c hc)
    · next hne =>
      exact hu.rest _ (hfar c hc 1 (by norm_num)) (fun _ => by omega) (fun _ => by omega)
  · split
    · next he => rw [he]; exact hu.forth (he ▸ hnull c hc)
    · next hne =>
      exact hu.rest _ (hfar c hc 2 (by norm_num)) (fun _ => by omega) (fun _ => by omega)

/-- A node of another list is not a neighbour of the block. -/
theorem ne_neighbour (h : Heap a L F R M) (hβ : β ∈ F) {b j : ℕ} (hb : (⟨b, j⟩ : Block) ∈ F)
    (hj : j ≠ β.order) : (a.next β.start ≠ ournull → b ≠ a.next β.start) ∧
      (a.prev β.start ≠ ournull → b ≠ a.prev β.start) :=
  ⟨fun hne he => hj (h.order_eq (he ▸ hb) (h.next_mem hβ hne).1),
    fun hne he => hj (h.order_eq (he ▸ hb) (h.prev_mem hβ hne).1)⟩

theorem unlink_other (h : Heap a L F R M) (hβ : β ∈ F) (hu : Unlinked a β a')
    (hk : k < numSizes) (hkβ : k ≠ β.order) :
    ∃ l, Linked ournull a'.prev a'.next (a'.freeList k) l ∧
      ∀ b, b ∈ l ↔ (⟨b, k⟩ : Block) ∈ F.erase β := by
  obtain ⟨l, hl, hF⟩ := h.lists k hk
  have hmem : ∀ b, b ∈ l ↔ (⟨b, k⟩ : Block) ∈ F.erase β := by
    intro b
    rw [hF, Finset.mem_erase]
    exact ⟨fun hb => ⟨fun he => hkβ (congrArg Block.order he), hb⟩, And.right⟩
  have hlist : a'.freeList k = a.freeList k := by
    rw [hu.freeList]
    split
    · exact Function.update_of_ne hkβ _ _
    · rfl
  have hkeep : ∀ c ∈ l, ∀ i, i = 1 ∨ i = 2 →
      a'.mem (1024 * c + i) = a.mem (1024 * c + i) := by
    intro c hc i hi
    obtain ⟨h1, h2⟩ := h.ne_neighbour hβ ((hF c).mp hc) hkβ
    refine hu.rest _ ?_ (fun hne => ?_) (fun hne => ?_)
    · rw [start_word (by omega)]
      exact h.not_mem_of_erase hβ ((hmem c).mp hc) (start_mem ⟨c, k⟩)
    · have := h1 hne; omega
    · have := h2 hne; omega
  refine ⟨l, ?_, hmem⟩
  rw [hlist]
  exact hl.congr (fun c hc => hkeep c hc 1 (Or.inl rfl)) fun c hc => hkeep c hc 2 (Or.inr rfl)

theorem unlink (h : Heap a L F R M) (hβ : β ∈ F) (hu : Unlinked a β a') :
    Heap a' L (F.erase β) (R \ β.extent) (M ∪ β.extent) := by
  have hsub : β.extent ⊆ R := h.tiling.extent_subset (free_mem hβ)
  have hnL : β ∉ L := fun hL => Finset.disjoint_left.mp h.apart hL hβ
  have herase : L ∪ F.erase β = (L ∪ F).erase β := by
    rw [Finset.erase_union_distrib, Finset.erase_eq_of_notMem hnL]
  refine ⟨?_, ?_, ?_, ?_, ?_, ?_, ?_, ?_, ?_, ?_⟩
  · rw [herase]
    exact h.tiling.erase (free_mem hβ)
  · exact Finset.disjoint_of_subset_right (Finset.erase_subset _ _) h.apart
  · intro γ hγ
    rw [herase] at hγ
    exact h.order_lt γ (Finset.mem_of_mem_erase hγ)
  · rw [hu.poolBlocks]; exact h.small
  · rw [hu.poolBlocks, regions_give hsub]; exact h.inPool
  · exact limbo_give h.limbo
  · rw [hu.poolBlocks, regions_give hsub]
    intro n hn
    simp only [Pool.bitTest, hu.map]
    exact h.bits n hn
  · intro k hk
    by_cases hkβ : k = β.order
    · subst hkβ
      exact h.unlink_own hβ hu
    · exact h.unlink_other hβ hu hk hkβ
  · intro γ hγ
    rw [← h.header γ (Finset.mem_of_mem_erase hγ)]
    refine hu.rest _ ?_ (fun _ => by omega) (fun _ => by omega)
    rw [Nat.mul_div_cancel_left _ (by norm_num)]
    exact h.not_mem_of_erase hβ hγ γ.start_mem
  · intro γ hγ
    rw [← h.trailer γ (Finset.mem_of_mem_erase hγ)]
    have := γ.start_lt_past
    exact hu.rest _ (h.not_mem_of_erase hβ hγ (trailer_word γ)) (fun _ => by omega)
      (fun _ => by omega)

end Unlink

/-- A block of limbo becomes live when its last bit is set. -/
theorem allot (h : Heap a L F R M) (hγ : γ.Aligned) (ho : γ.order < numSizes)
    (hM : γ.extent ⊆ M) :
    Heap (a.bitSet (γ.past - 1)) (insert γ L) F (γ.extent ∪ R) (M \ γ.extent) := by
  have hnew : γ ∉ L ∪ F := h.not_mem_of_limbo hM
  refine ⟨?_, ?_, ?_, h.small, ?_, ?_, ?_, h.lists, h.header, h.trailer⟩
  · rw [Finset.insert_union]
    exact h.tiling.insert hγ (Finset.disjoint_of_subset_left hM h.limbo.symm)
  · rw [Finset.disjoint_insert_left]
    exact ⟨fun hF => hnew (free_mem hF), h.apart⟩
  · intro β hβ
    rw [Finset.insert_union, Finset.mem_insert] at hβ
    rcases hβ with rfl | hβ
    · exact ho
    · exact h.order_lt β hβ
  · rw [regions_take hM]; exact h.inPool
  · exact limbo_take h.limbo
  · rw [regions_take hM]
    intro n hn
    have hb := h.bits n hn
    have hlt := γ.start_lt_past
    simp only [Pool.bitTest, Pool.bitSet, Map.bitTest_bitSet, Bool.or_eq_true,
      decide_eq_true_eq] at hb ⊢
    rw [hb, Finset.exists_mem_insert, or_assoc, or_comm (a := n + 1 = γ.past)]
    refine or_congr_right (or_congr_right ?_)
    omega

/-- A live block goes to limbo when its last bit is cleared. -/
theorem drop (h : Heap a L F R M) (hβ : β ∈ L) :
    Heap (a.bitClear (β.past - 1)) (L.erase β) F (R \ β.extent) (M ∪ β.extent) := by
  have hsub : β.extent ⊆ R := h.tiling.extent_subset (live_mem hβ)
  have hnF : β ∉ F := fun hF => Finset.disjoint_left.mp h.apart hβ hF
  have herase : L.erase β ∪ F = (L ∪ F).erase β := by
    rw [Finset.erase_union_distrib, Finset.erase_eq_of_notMem hnF]
  refine ⟨?_, ?_, ?_, h.small, ?_, ?_, ?_, h.lists, h.header, h.trailer⟩
  · rw [herase]
    exact h.tiling.erase (live_mem hβ)
  · exact Finset.disjoint_of_subset_left (Finset.erase_subset _ _) h.apart
  · intro γ hγ
    rw [herase] at hγ
    exact h.order_lt γ (Finset.mem_of_mem_erase hγ)
  · rw [regions_give hsub]; exact h.inPool
  · exact limbo_give h.limbo
  · rw [regions_give hsub]
    intro n hn
    have hb := h.bits n hn
    have hlt := β.start_lt_past
    have hlast : β.past - 1 ∈ R ∪ M := Finset.mem_union_left _ (hsub β.last_mem)
    simp only [Pool.bitTest, Pool.bitClear, Map.bitTest_bitClear, Bool.and_eq_true,
      Bool.not_eq_true', decide_eq_false_iff_not] at hb ⊢
    rw [hb]
    constructor
    · rintro ⟨hn' | ⟨γ, hγ, he⟩, hne⟩
      · exact Or.inl hn'
      · refine Or.inr ⟨γ, Finset.mem_erase.mpr ⟨?_, hγ⟩, he⟩
        rintro rfl
        omega
    · rintro (hn' | ⟨γ, hγ, he⟩)
      · exact ⟨Or.inl hn', fun he => hn' (he ▸ hlast)⟩
      · refine ⟨Or.inr ⟨γ, Finset.mem_of_mem_erase hγ, he⟩, fun hne => ?_⟩
        refine Finset.ne_of_mem_erase hγ (h.tiling.eq_of_mem (n := n)
          (live_mem (Finset.mem_of_mem_erase hγ)) (live_mem hβ) ?_ ?_)
        all_goals
          have := γ.start_lt_past
          simp only [mem_extent]
          omega

end Heap

end Cesvga2.Allocator
