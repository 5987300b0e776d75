import Mathlib.Tactic
import Mathlib.Data.List.Basic

/-! Doubly linked lists given by two link functions. A list of nodes is laid out
when every node's `prev` and `next` name its neighbours and the null node stands
at both ends. The rules say what pushing at the head and unlinking a node have
to write, and which writes leave a list alone. -/

namespace Cesvga2.Links

variable {α : Type*} {nil : α} {prev next prev' next' : α → α} {head head' b c : α}
  {l l₁ l₂ : List α}

structure Linked (nil : α) (prev next : α → α) (head : α) (l : List α) : Prop where
  nodup : l.Nodup
  fresh : nil ∉ l
  head_eq : head = l.headD nil
  links : ∀ l₁ b l₂, l = l₁ ++ b :: l₂ → prev b = l₁.getLastD nil ∧ next b = l₂.headD nil

/-- Following `next` from a node one meets `l` and then stands at `rest`. -/
def Leads (next : α → α) : α → List α → α → Prop
  | head, [], rest => head = rest
  | head, b :: l, rest => head = b ∧ Leads next (next b) l rest

theorem Leads.congr {rest : α} (h : Leads next head l rest) (hn : ∀ c ∈ l, next' c = next c) :
    Leads next' head l rest := by
  induction l generalizing head with
  | nil => exact h
  | cons b l ih =>
    refine ⟨h.1, ?_⟩
    rw [hn b List.mem_cons_self]
    exact ih h.2 fun c hc => hn c (List.mem_cons_of_mem b hc)

theorem headD_mem_or (nil : α) (l : List α) : l.headD nil ∈ l ∨ l.headD nil = nil := by
  cases l <;> simp

theorem getLastD_mem_or (nil : α) (l : List α) : l.getLastD nil ∈ l ∨ l.getLastD nil = nil := by
  rcases List.eq_nil_or_concat l with rfl | ⟨l', a, rfl⟩ <;> simp

namespace Linked

theorem empty (nil : α) (prev next : α → α) : Linked nil prev next nil [] :=
  ⟨List.nodup_nil, List.not_mem_nil, rfl, by simp⟩

theorem eq_nil_of_head (h : Linked nil prev next nil l) : l = [] := by
  cases l with
  | nil => rfl
  | cons a l =>
    have he : nil = a := h.head_eq
    exact absurd (he ▸ List.mem_cons_self) h.fresh

theorem head_mem (h : Linked nil prev next head l) (hne : head ≠ nil) : head ∈ l := by
  rcases headD_mem_or nil l with hm | hm
  · rw [h.head_eq]; exact hm
  · exact absurd (h.head_eq.trans hm) hne

/-- A linked list reads the links of its own nodes only. -/
theorem congr (h : Linked nil prev next head l) (hp : ∀ c ∈ l, prev' c = prev c)
    (hn : ∀ c ∈ l, next' c = next c) : Linked nil prev' next' head l := by
  refine ⟨h.nodup, h.fresh, h.head_eq, fun l₁ b l₂ he => ?_⟩
  have hb : b ∈ l := by simp [he]
  rw [hp b hb, hn b hb]
  exact h.links l₁ b l₂ he

theorem next_mem (h : Linked nil prev next head l) (hb : b ∈ l) (hne : next b ≠ nil) :
    next b ∈ l ∧ prev (next b) = b ∧ next b ≠ b := by
  obtain ⟨l₁, l₂, rfl⟩ := List.append_of_mem hb
  obtain ⟨-, hn⟩ := h.links l₁ b l₂ rfl
  cases l₂ with
  | nil => exact absurd hn hne
  | cons c l₃ =>
    simp only [List.headD_cons] at hn
    subst hn
    refine ⟨by simp, by simpa using (h.links (l₁ ++ [b]) (next b) l₃ (by simp)).1, fun he => ?_⟩
    have hnd := (List.nodup_append.mp h.nodup).2.1
    exact (List.nodup_cons.mp hnd).1 (by rw [he]; exact List.mem_cons_self)

theorem prev_mem (h : Linked nil prev next head l) (hb : b ∈ l) (hne : prev b ≠ nil) :
    prev b ∈ l ∧ next (prev b) = b ∧ prev b ≠ b := by
  obtain ⟨l₁, l₂, rfl⟩ := List.append_of_mem hb
  obtain ⟨hp, -⟩ := h.links l₁ b l₂ rfl
  rcases List.eq_nil_or_concat l₁ with rfl | ⟨l₃, a, rfl⟩
  · exact absurd hp hne
  · simp only [List.concat_eq_append, List.getLastD_concat] at hp
    subst hp
    refine ⟨by simp, by simpa using (h.links l₃ (prev b) (b :: l₂) (by simp)).2, fun he => ?_⟩
    have hnd := (List.nodup_append.mp h.nodup).2.2
    exact hnd (prev b) (by simp) b (by simp) he

theorem prev_head (h : Linked nil prev next head l) (hne : head ≠ nil) : prev head = nil := by
  cases l with
  | nil => exact absurd h.head_eq hne
  | cons a l =>
    have he : head = a := h.head_eq
    subst he
    exact (h.links [] head l rfl).1

theorem next_ne_head (h : Linked nil prev next head l) (hb : b ∈ l) (hne : next b ≠ nil) :
    next b ≠ head := by
  obtain ⟨-, hprev, -⟩ := h.next_mem hb hne
  intro he
  rw [he, h.prev_head (he ▸ hne)] at hprev
  exact h.fresh (hprev ▸ hb)

theorem eq_head_of_prev (h : Linked nil prev next head l) (hb : b ∈ l) (hp : prev b = nil) :
    b = head := by
  obtain ⟨l₁, l₂, rfl⟩ := List.append_of_mem hb
  have hlast : prev b = l₁.getLastD nil := (h.links l₁ b l₂ rfl).1
  rcases List.eq_nil_or_concat l₁ with rfl | ⟨l₃, a, rfl⟩
  · exact h.head_eq.symm
  · simp only [List.concat_eq_append, List.getLastD_concat] at hlast
    exact absurd (by simp [hlast.symm.trans hp]) h.fresh

theorem prev_eq_nil_iff (h : Linked nil prev next head l) (hb : b ∈ l) :
    prev b = nil ↔ b = head := by
  refine ⟨h.eq_head_of_prev hb, fun he => ?_⟩
  rw [he]
  exact h.prev_head fun hnil => h.fresh (hnil ▸ he ▸ hb)

/-- The nodes met from `b` on, at most `fuel` of them. -/
def walk [DecidableEq α] (nil : α) (next : α → α) : (fuel : ℕ) → α → List α
  | 0, _ => []
  | fuel + 1, b => if b = nil then [] else b :: walk nil next fuel (next b)

theorem walk_suffix [DecidableEq α] (h : Linked nil prev next head l) :
    ∀ (l₂ l₁ : List α) (fuel : ℕ), l = l₁ ++ l₂ → l₂.length ≤ fuel →
      walk nil next fuel (l₂.headD nil) = l₂
  | [], _, 0, _, _ => rfl
  | [], _, _ + 1, _, _ => by simp [walk]
  | b :: l₂, l₁, fuel + 1, he, hf => by
    have hb : b ≠ nil := fun hn => h.fresh (by simp [he, hn])
    have hnext := (h.links l₁ b l₂ he).2
    rw [List.headD_cons, walk, if_neg hb, hnext]
    rw [walk_suffix h l₂ (l₁ ++ [b]) fuel (by simp [he]) (by simpa using hf)]

/-- Following the links from the head gives the list back. -/
theorem walk_eq [DecidableEq α] (h : Linked nil prev next head l) {fuel : ℕ}
    (hf : l.length ≤ fuel) : walk nil next fuel head = l := by
  rw [h.head_eq]
  exact h.walk_suffix l [] fuel rfl hf

/-- The node after `b` in a list. -/
def follow [DecidableEq α] (nil b : α) : List α → α
  | [] => nil
  | c :: l => if c = b then l.headD nil else follow nil b l

theorem follow_append [DecidableEq α] (hb : b ∉ l₁) :
    follow nil b (l₁ ++ b :: l₂) = l₂.headD nil := by
  induction l₁ with
  | nil => exact if_pos rfl
  | cons c l ih =>
    have hne : c ≠ b := fun he => hb (he ▸ List.mem_cons_self)
    exact (if_neg hne).trans (ih fun hm => hb (List.mem_cons_of_mem c hm))

theorem follow_of_notMem [DecidableEq α] (hb : b ∉ l) : follow nil b l = nil := by
  induction l with
  | nil => rfl
  | cons c l ih =>
    have hne : c ≠ b := fun he => hb (he ▸ List.mem_cons_self)
    exact (if_neg hne).trans (ih fun hm => hb (List.mem_cons_of_mem c hm))

/-- A list laid out by what follows each node in it and in its reverse. -/
theorem of_nodup [DecidableEq α] (hnd : l.Nodup) (hnil : nil ∉ l) :
    Linked nil (fun b => follow nil b l.reverse) (fun b => follow nil b l) (l.headD nil) l := by
  refine ⟨hnd, hnil, rfl, ?_⟩
  rintro l₁ b l₂ rfl
  obtain ⟨-, h₂, h₁₂⟩ := List.nodup_append.mp hnd
  have hb₁ : b ∉ l₁ := fun hm => h₁₂ b hm b (by simp) rfl
  have hb₂ : b ∉ l₂.reverse := by simpa using (List.nodup_cons.mp h₂).1
  refine ⟨?_, follow_append hb₁⟩
  have hrev : (l₁ ++ b :: l₂).reverse = l₂.reverse ++ b :: l₁.reverse := by simp
  simp only [hrev, follow_append hb₂]
  rcases List.eq_nil_or_concat l₁ with rfl | ⟨l', a, rfl⟩ <;> simp

/-- Pushing `b`: it becomes the head, points to the old head, and the old head
points back to it. -/
theorem push (h : Linked nil prev next head l) (hb : b ∉ l) (hbn : b ≠ nil)
    (hpb : prev' b = nil) (hnb : next' b = head) (hph : head ≠ nil → prev' head = b)
    (hp : ∀ c ∈ l, c ≠ head → prev' c = prev c) (hn : ∀ c ∈ l, next' c = next c) :
    Linked nil prev' next' b (b :: l) := by
  refine ⟨List.nodup_cons.mpr ⟨hb, h.nodup⟩, ?_, rfl, fun l₁ c l₂ he => ?_⟩
  · simp [h.fresh, Ne.symm hbn]
  cases l₁ with
  | nil =>
    simp only [List.nil_append, List.cons.injEq] at he
    obtain ⟨rfl, rfl⟩ := he
    exact ⟨hpb, hnb.trans h.head_eq⟩
  | cons a l₁ =>
    simp only [List.cons_append, List.cons.injEq] at he
    obtain ⟨rfl, rfl⟩ := he
    have hc : c ∈ l₁ ++ c :: l₂ := by simp
    obtain ⟨h1, h2⟩ := h.links l₁ c l₂ rfl
    refine ⟨?_, (hn c hc).trans h2⟩
    cases l₁ with
    | nil =>
      have hcn : c ≠ nil := fun he => h.fresh (he ▸ hc)
      have hch : head = c := h.head_eq
      subst hch
      exact hph hcn
    | cons a' l₁ =>
      have hne : c ≠ head := by
        have hh : head = a' := h.head_eq
        rw [hh]
        rintro rfl
        exact (List.nodup_cons.mp h.nodup).1 (by simp)
      rw [hp c hc hne, h1]
      simp

/-! ### Unlinking -/

theorem ne_prev_of_after (h : Linked nil prev next head (l₁ ++ b :: l₂)) (hc : c ∈ l₂) :
    c ≠ prev b := by
  rw [(h.links l₁ b l₂ rfl).1]
  rintro rfl
  rcases getLastD_mem_or nil l₁ with hm | hm
  · exact (List.nodup_append.mp h.nodup).2.2 _ hm _ (List.mem_cons_of_mem b hc) rfl
  · rw [hm] at hc
    exact h.fresh (by simp [hc])

theorem ne_next_of_before (h : Linked nil prev next head (l₁ ++ b :: l₂)) (hc : c ∈ l₁) :
    c ≠ next b := by
  rw [(h.links l₁ b l₂ rfl).2]
  rintro rfl
  rcases headD_mem_or nil l₂ with hm | hm
  · exact (List.nodup_append.mp h.nodup).2.2 _ hc _ (List.mem_cons_of_mem b hm) rfl
  · rw [hm] at hc
    exact h.fresh (by simp [hc])

section Join

variable [DecidableEq α] {t m : List α}

/-- The links of a node after `b`, once the neighbours of `b` are joined. -/
theorem join_after (h : Linked nil prev next head (l₁ ++ b :: (t ++ c :: m))) :
    (if c = next b then prev b else prev c) = (l₁ ++ t).getLastD nil ∧
      (if c = prev b then next b else next c) = m.headD nil := by
  obtain ⟨hpb, hnb⟩ := h.links l₁ b (t ++ c :: m) rfl
  obtain ⟨hpc, hnc⟩ := h.links (l₁ ++ b :: t) c m (by simp)
  rw [if_neg (h.ne_prev_of_after (c := c) (by simp)), hnc]
  refine ⟨?_, rfl⟩
  cases t with
  | nil =>
    have hc : c = next b := hnb.symm
    rw [if_pos hc, hpb, List.append_nil]
  | cons a t =>
    have hne : c ≠ next b := by
      rw [hnb]
      rintro rfl
      have hnd := (List.nodup_append.mp h.nodup).2.1
      exact (List.nodup_cons.mp (List.nodup_cons.mp hnd).2).1 (by simp)
    rw [if_neg hne, hpc]
    rcases List.eq_nil_or_concat t with rfl | ⟨t', z, rfl⟩ <;> simp

/-- The links of a node before `b`, once the neighbours of `b` are joined. -/
theorem join_before (h : Linked nil prev next head (m ++ c :: (t ++ b :: l₂))) :
    (if c = next b then prev b else prev c) = m.getLastD nil ∧
      (if c = prev b then next b else next c) = (t ++ l₂).headD nil := by
  have hsplit : m ++ c :: (t ++ b :: l₂) = (m ++ c :: t) ++ b :: l₂ := by simp
  obtain ⟨hpb, hnb⟩ := h.links (m ++ c :: t) b l₂ hsplit
  obtain ⟨hpc, hnc⟩ := h.links m c (t ++ b :: l₂) rfl
  rw [if_neg ((hsplit ▸ h).ne_next_of_before (c := c) (by simp)), hpc]
  refine ⟨rfl, ?_⟩
  rcases List.eq_nil_or_concat t with rfl | ⟨t', z, rfl⟩
  · rw [if_pos (by rw [hpb]; simp), hnb, List.nil_append]
  · have hne : c ≠ prev b := by
      have hlast : prev b = z := by
        rw [hpb, List.concat_eq_append, ← List.cons_append, ← List.append_assoc,
          List.getLastD_concat]
      rw [hlast]
      rintro rfl
      have hnd := (List.nodup_append.mp h.nodup).2.1
      exact (List.nodup_cons.mp hnd).1 (by simp)
    rw [if_neg hne, hnc]
    cases t' <;> simp

end Join

/-- Unlinking `b`: its neighbours are joined and the head moves on when `b` was
the head. -/
theorem unlink [DecidableEq α] (h : Linked nil prev next head (l₁ ++ b :: l₂))
    (hh : head' = if prev b = nil then next b else head)
    (hp : ∀ c ∈ l₁ ++ l₂, prev' c = if c = next b then prev b else prev c)
    (hn : ∀ c ∈ l₁ ++ l₂, next' c = if c = prev b then next b else next c) :
    Linked nil prev' next' head' (l₁ ++ l₂) := by
  have hsub : (l₁ ++ l₂).Sublist (l₁ ++ b :: l₂) :=
    (List.sublist_cons_self b l₂).append_left l₁
  refine ⟨h.nodup.sublist hsub, fun hm => h.fresh (hsub.subset hm), ?_, fun m₁ c m₂ he => ?_⟩
  · obtain ⟨hpb, hnb⟩ := h.links l₁ b l₂ rfl
    rw [hh]
    cases l₁ with
    | nil =>
      have hnil : prev b = nil := hpb
      rw [if_pos hnil, hnb, List.nil_append]
    | cons a l₁ =>
      have hne : prev b ≠ nil := by
        rw [hpb, List.getLastD_cons]
        intro hnil
        rcases getLastD_mem_or a l₁ with hm | hm
        · exact h.fresh (by simp [hnil ▸ hm])
        · exact h.fresh (by simp [hm.symm.trans hnil])
      rw [if_neg hne]
      exact h.head_eq
  · have hcm : c ∈ l₁ ++ l₂ := by rw [he]; simp
    rw [hp c hcm, hn c hcm]
    rcases List.append_eq_append_iff.mp he with ⟨t, rfl, rfl⟩ | ⟨t, rfl, ht⟩
    · exact h.join_after
    · cases t with
      | nil =>
        -- `c` is the node right after `b`
        obtain rfl : c :: m₂ = l₂ := ht
        simpa using h.join_after (t := [])
      | cons a t =>
        obtain ⟨rfl, rfl⟩ := List.cons.inj ht
        rw [List.append_assoc] at h
        exact h.join_before

theorem erase [DecidableEq α] (h : Linked nil prev next head l) (hb : b ∈ l)
    (hh : head' = if prev b = nil then next b else head)
    (hp : ∀ c ∈ l, c ≠ b → prev' c = if c = next b then prev b else prev c)
    (hn : ∀ c ∈ l, c ≠ b → next' c = if c = prev b then next b else next c) :
    Linked nil prev' next' head' (l.erase b) := by
  obtain ⟨l₁, l₂, rfl⟩ := List.append_of_mem hb
  obtain ⟨-, hnd, hdis⟩ := List.nodup_append.mp h.nodup
  have hb₁ : b ∉ l₁ := fun hm => hdis b hm b List.mem_cons_self rfl
  have hother : ∀ c ∈ l₁ ++ l₂, c ∈ l₁ ++ b :: l₂ ∧ c ≠ b := by
    intro c hc
    refine ⟨((List.sublist_cons_self b l₂).append_left l₁).subset hc, ?_⟩
    rintro rfl
    exact (List.mem_append.mp hc).elim hb₁ (List.nodup_cons.mp hnd).1
  rw [List.erase_append_right _ hb₁, List.erase_cons_head]
  exact h.unlink hh (fun c hc => hp c (hother c hc).1 (hother c hc).2)
    fun c hc => hn c (hother c hc).1 (hother c hc).2

end Linked

end Cesvga2.Links
