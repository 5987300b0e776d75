import Mathlib.Data.List.Pairwise
import Mathlib.Tactic

/-! Records with an offset and a size that lie directly one behind the other. -/

namespace Cesvga2.Cuts

variable {α : Type*} {offset size : α → ℕ} {start stop n : ℕ} {a : α} {as bs : List α}

variable (offset size) in
/-- The records take the numbers from `start` to `stop`, each directly behind the one before. -/
def Consecutive : ℕ → List α → ℕ → Prop
  | start, [], stop => start = stop
  | start, a :: as, stop => offset a = start ∧ Consecutive (start + size a) as stop

namespace Consecutive

theorem append_iff : Consecutive offset size start (as ++ bs) stop ↔
    ∃ mid, Consecutive offset size start as mid ∧ Consecutive offset size mid bs stop := by
  induction as generalizing start with
  | nil => simp [Consecutive]
  | cons a as ih => simp [Consecutive, ih, and_assoc]

theorem append (h : Consecutive offset size start as n) (h' : Consecutive offset size n bs stop) :
    Consecutive offset size start (as ++ bs) stop := append_iff.mpr ⟨n, h, h'⟩

/-- One more record goes where the others end. -/
theorem concat (h : Consecutive offset size start as stop) (ha : offset a = stop) :
    Consecutive offset size start (as ++ [a]) (stop + size a) := h.append ⟨ha, rfl⟩

theorem eq_add_sum (h : Consecutive offset size start as stop) :
    stop = start + (as.map size).sum := by
  induction as generalizing start with
  | nil => exact h.symm
  | cons a as ih => rw [ih h.2, List.map_cons, List.sum_cons, add_assoc]

theorem bounds (h : Consecutive offset size start as stop) (ha : a ∈ as) :
    start ≤ offset a ∧ offset a + size a ≤ stop := by
  induction as generalizing start with
  | nil => cases ha
  | cons b as ih =>
    obtain ⟨rfl, hrest⟩ := h
    rcases List.mem_cons.mp ha with rfl | ha
    · have hstop := hrest.eq_add_sum
      omega
    · have hle := ih hrest ha
      omega

theorem pairwise (h : Consecutive offset size start as stop) :
    as.Pairwise fun a b => offset a + size a ≤ offset b := by
  induction as generalizing start with
  | nil => exact List.Pairwise.nil
  | cons a as ih =>
    obtain ⟨rfl, hrest⟩ := h
    exact List.Pairwise.cons (fun b hb => (hrest.bounds hb).1) (ih hrest)

/-- Every number of the range belongs to a record. -/
theorem exists_mem (h : Consecutive offset size start as stop) (hn : start ≤ n) (hn' : n < stop) :
    ∃ a ∈ as, n ∈ Set.Ico (offset a) (offset a + size a) := by
  induction as generalizing start with
  | nil =>
    have heq : start = stop := h
    omega
  | cons a as ih =>
    obtain ⟨rfl, hrest⟩ := h
    by_cases hlt : n < offset a + size a
    · exact ⟨a, List.mem_cons_self, hn, hlt⟩
    · obtain ⟨b, hb, hmem⟩ := ih hrest (not_lt.mp hlt)
      exact ⟨b, List.mem_cons_of_mem a hb, hmem⟩

theorem lt_of_mem {b : α} (h : Consecutive offset size start (a :: as) stop) (hb : b ∈ as) :
    offset a + size a ≤ offset b := by
  obtain ⟨rfl, hrest⟩ := h
  exact (hrest.bounds hb).1

/-- The records may be renamed. -/
theorem map {β : Type*} {f : α → β} {offset' size' : β → ℕ}
    (h : Consecutive offset size start as stop) (hoffset : ∀ a, offset' (f a) = offset a)
    (hsize : ∀ a, size' (f a) = size a) :
    Consecutive offset' size' start (as.map f) stop := by
  induction as generalizing start with
  | nil => exact h
  | cons a as ih =>
    obtain ⟨rfl, hrest⟩ := h
    refine ⟨hoffset a, ?_⟩
    rw [hsize]
    exact ih hrest

end Consecutive

/-! ### Marked records -/

section Marked

variable (p : α → Prop) (size) (w : ℕ)

/-- Every marked record with less than `w` numbers has a marked one directly behind it. -/
def Followed : List α → Prop
  | [] => True
  | a :: as => (p a → size a < w → ∃ b ∈ as.head?, p b) ∧ Followed as

variable (offset) in
/-- The `w` numbers from the start of each marked record on belong to marked records. -/
def Reaches (as : List α) : Prop :=
  ∀ a ∈ as, p a → ∀ n ∈ Set.Ico (offset a) (offset a + w),
    ∃ b ∈ as, p b ∧ n ∈ Set.Ico (offset b) (offset b + size b)

variable {p size w}

/-- What a record is followed by depends on its mark and its size only. -/
theorem followed_congr {β : Type*} {q : β → Prop} {size' : β → ℕ} {bs : List β}
    (h : List.Forall₂ (fun a b => (p a ↔ q b) ∧ size a = size' b) as bs) :
    Followed size p w as ↔ Followed size' q w bs := by
  induction h with
  | nil => rfl
  | @cons a b as bs hab hrest ih =>
    obtain ⟨hp, hsize⟩ := hab
    rw [Followed, Followed, hp, hsize, ih]
    have hhead : (∃ c ∈ as.head?, p c) ↔ ∃ c ∈ bs.head?, q c := by
      cases hrest with
      | nil => simp
      | cons hcd _ => simpa using hcd.1
    rw [hhead]

/-- No number of a later record lies in the first one. -/
theorem reaches_cons (h : Consecutive offset size start (a :: as) stop) :
    Reaches offset size p w (a :: as) ↔
      (p a → ∀ n ∈ Set.Ico (offset a) (offset a + w),
        ∃ b ∈ a :: as, p b ∧ n ∈ Set.Ico (offset b) (offset b + size b)) ∧
      Reaches offset size p w as := by
  rw [Reaches, List.forall_mem_cons]
  refine and_congr_right fun _ => ?_
  constructor
  · intro hall b hb hpb n hn
    obtain ⟨c, hc, hpc, hnc⟩ := hall b hb hpb n hn
    rcases List.mem_cons.mp hc with rfl | hc
    · have hle := h.lt_of_mem hb
      exact absurd (hle.trans hn.1) (not_le.mpr hnc.2)
    · exact ⟨c, hc, hpc, hnc⟩
  · intro hall b hb hpb n hn
    obtain ⟨c, hc, hpc, hnc⟩ := hall b hb hpb n hn
    exact ⟨c, List.mem_cons_of_mem a hc, hpc, hnc⟩

/-- The numbers reached from the first record are its own and those of the second. -/
theorem reaches_head (h : Consecutive offset size start (a :: as) stop)
    (hpos : ∀ b ∈ as, 0 < size b) (hw : ∀ b ∈ as, w ≤ size a + size b) (ha : p a) :
    (∀ n ∈ Set.Ico (offset a) (offset a + w),
      ∃ b ∈ a :: as, p b ∧ n ∈ Set.Ico (offset b) (offset b + size b)) ↔
    (size a < w → ∃ b ∈ as.head?, p b) := by
  constructor
  · intro hall hlt
    obtain ⟨b, hb, hpb, hle, hub⟩ := hall (offset a + size a) ⟨by omega, by omega⟩
    rcases List.mem_cons.mp hb with rfl | hb
    · omega
    cases as with
    | nil => cases hb
    | cons c as =>
      refine ⟨c, rfl, ?_⟩
      obtain ⟨rfl, hc, hrest⟩ := h
      rcases List.mem_cons.mp hb with rfl | hb
      · exact hpb
      · have hbound := (hrest.bounds hb).1
        have hposc := hpos c List.mem_cons_self
        omega
  · intro hnext n hn
    by_cases hlt : n < offset a + size a
    · exact ⟨a, List.mem_cons_self, ha, hn.1, hlt⟩
    · have hub := hn.2
      obtain ⟨b, hb, hpb⟩ := hnext (by omega)
      cases as with
      | nil => cases hb
      | cons c as =>
        obtain rfl : c = b := by simpa using hb
        obtain ⟨rfl, hc, -⟩ := h
        have hwc := hw c List.mem_cons_self
        exact ⟨c, by simp, hpb, by omega, by omega⟩

theorem reaches_iff_followed (h : Consecutive offset size start as stop)
    (hpos : ∀ a ∈ as, 0 < size a) (hw : ∀ a ∈ as, ∀ b ∈ as, w ≤ size a + size b) :
    Reaches offset size p w as ↔ Followed size p w as := by
  induction as generalizing start with
  | nil => exact iff_of_true nofun trivial
  | cons a as ih =>
    have hmem {b : α} (hb : b ∈ as) : b ∈ a :: as := List.mem_cons_of_mem a hb
    rw [reaches_cons h, Followed]
    refine and_congr (forall_congr' fun ha => ?_)
      (ih h.2 (fun b hb => hpos b (hmem hb)) fun b hb c hc => hw b (hmem hb) c (hmem hc))
    exact reaches_head h (fun b hb => hpos b (hmem hb))
      (fun b hb => hw a List.mem_cons_self b (hmem hb)) ha

end Marked

end Cesvga2.Cuts
