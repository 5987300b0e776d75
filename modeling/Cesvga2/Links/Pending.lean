import Cesvga2.Links.Linked

/-! Doubly linked lists that are being changed link by link. One push and one unlink may be under
way at a time. `prev₀` and `head₀` are the links without what is unfinished; the links in memory
differ from them where a change has been begun, and the change takes effect with its last write. -/

namespace Cesvga2.Links

variable {α : Type*} {nil : α} {back moved joined back' moved' joined' : α → Prop}
  {prev next prev₀ prev' next' : α → α} {head head₀ head' b p : α} {l : List α}

/-- `back` holds of a node that is being pushed, once the old head points back to it. `moved` and
`joined` hold of a node that is being unlinked: once the head has moved on if it was the first, and
once its successor points to its predecessor. -/
structure Pending (nil : α) (back moved joined : α → Prop) (prev next : α → α) (head : α)
    (prev₀ : α → α) (head₀ : α) (l : List α) : Prop where
  linked : Linked nil prev₀ next head₀ l
  moved_mem : ∀ {p}, moved p → p ∈ l
  moved_of_joined : ∀ {p}, joined p → moved p
  apart : ∀ {b p}, back b → moved p → p ≠ head₀
  back_eq : ∀ {b}, back b → head₀ ≠ nil → prev head₀ = b
  joined_eq : ∀ {p}, joined p → next p ≠ nil → prev (next p) = prev₀ p
  prev_eq : ∀ {x}, x ∈ l → (x = head₀ → ∀ b, ¬ back b) → (∀ p, joined p → x ≠ next p) →
    prev x = prev₀ x
  moved_eq : moved head₀ → head = next head₀
  head_eq : ¬ moved head₀ → head = head₀

namespace Pending

theorem of_linked (h : Linked nil prev next head l) (hb : ∀ x, ¬ back x) (hm : ∀ x, ¬ moved x)
    (hj : ∀ x, ¬ joined x) : Pending nil back moved joined prev next head prev head l where
  linked := h
  moved_mem hp := absurd hp (hm _)
  moved_of_joined hp := absurd hp (hj _)
  apart hx := absurd hx (hb _)
  back_eq hx := absurd hx (hb _)
  joined_eq hp := absurd hp (hj _)
  prev_eq _ _ _ := rfl
  moved_eq hp := absurd hp (hm _)
  head_eq _ := rfl

/-- With nothing under way the links in memory are those of the list. -/
theorem settled (h : Pending nil back moved joined prev next head prev₀ head₀ l)
    (hb : ∀ x, ¬ back x) (hm : ∀ x, ¬ moved x) : Linked nil prev next head l := by
  rw [h.head_eq (hm head₀)]
  refine h.linked.congr (fun c hc => ?_) fun _ _ => rfl
  exact h.prev_eq hc (fun _ => hb) fun p hp => absurd (h.moved_of_joined hp) (hm p)

theorem congr (h : Pending nil back moved joined prev next head prev₀ head₀ l)
    (hb : ∀ x, back' x ↔ back x) (hm : ∀ x, moved' x ↔ moved x) (hj : ∀ x, joined' x ↔ joined x) :
    Pending nil back' moved' joined' prev next head prev₀ head₀ l := by
  rwa [funext fun x => propext (hb x), funext fun x => propext (hm x),
    funext fun x => propext (hj x)]

/-- Links of nodes outside the list do not matter. -/
theorem congr_next (h : Pending nil back moved joined prev next head prev₀ head₀ l)
    (hn : ∀ x ∈ l, next' x = next x) :
    Pending nil back moved joined prev next' head prev₀ head₀ l where
  linked := h.linked.congr (fun _ _ => rfl) hn
  moved_mem := h.moved_mem
  moved_of_joined := h.moved_of_joined
  apart := h.apart
  back_eq := h.back_eq
  joined_eq hp := by
    rw [hn _ (h.moved_mem (h.moved_of_joined hp))]
    exact h.joined_eq hp
  prev_eq hx hb hj := h.prev_eq hx hb fun p hp => by
    rw [← hn p (h.moved_mem (h.moved_of_joined hp))]
    exact hj p hp
  moved_eq hm := by
    rw [hn _ (h.moved_mem hm)]
    exact h.moved_eq hm
  head_eq := h.head_eq

/-! ### Pushing -/

/-- The old head points back to the node that is being pushed. -/
theorem writeBack (h : Pending nil back moved joined prev next head prev₀ head₀ l)
    (hm : ¬ moved head₀) (hback : ∀ x, back' x ↔ x = b) (hhead : head₀ ≠ nil → prev' head₀ = b)
    (hp : ∀ x ∈ l, x ≠ head₀ → prev' x = prev x) (hb : ∀ x, ¬ back x) :
    Pending nil back' moved joined prev' next head prev₀ head₀ l where
  linked := h.linked
  moved_mem := h.moved_mem
  moved_of_joined := h.moved_of_joined
  apart _ hq he := hm (he ▸ hq)
  back_eq hx hne := ((hback _).mp hx) ▸ hhead hne
  joined_eq {q} hq hne := by
    obtain ⟨hmem, -, -⟩ := h.linked.next_mem (h.moved_mem (h.moved_of_joined hq)) hne
    rw [hp _ hmem (h.linked.next_ne_head (h.moved_mem (h.moved_of_joined hq)) hne)]
    exact h.joined_eq hq hne
  prev_eq {x} hx hne hj := by
    have hxh : x ≠ head₀ := fun he => hne he b ((hback b).mpr rfl)
    rw [hp x hx hxh]
    exact h.prev_eq hx (fun _ => hb) hj
  moved_eq := h.moved_eq
  head_eq := h.head_eq

section Write

variable [DecidableEq α]

/-- The pushed node becomes the head. -/
theorem push (h : Pending nil back moved joined prev next head prev₀ head₀ l) (hb : back b)
    (hb' : ∀ x, ¬ back' x) (hbl : b ∉ l) (hbn : b ≠ nil) (hprev : prev b = nil)
    (hnext : next b = head₀) :
    ∃ prev₀', Pending nil back' moved joined prev next b prev₀' b (b :: l) := by
  have hne : ∀ {x}, x ∈ l → x ≠ b := fun hx he => hbl (he ▸ hx)
  refine ⟨fun x => if x = b then nil else if x = head₀ then b else prev₀ x, ?_⟩
  refine
    { linked := ?_
      moved_mem := fun hp => List.mem_cons_of_mem b (h.moved_mem hp)
      moved_of_joined := h.moved_of_joined
      apart := fun hx => absurd hx (hb' _)
      back_eq := fun hx => absurd hx (hb' _)
      joined_eq := fun hp hn => ?_
      prev_eq := fun hx _ hj => ?_
      moved_eq := fun hp => absurd (h.moved_mem hp) hbl
      head_eq := fun _ => rfl }
  · refine h.linked.push hbl hbn (if_pos rfl) hnext (fun hnn => ?_) (fun c hc hch => ?_)
      fun _ _ => rfl
    · rw [if_neg (hne (h.linked.head_mem hnn)), if_pos rfl]
    · rw [if_neg (hne hc), if_neg hch]
  · have hp' := h.moved_of_joined hp
    rw [if_neg (hne (h.moved_mem hp')), if_neg (h.apart hb hp')]
    exact h.joined_eq hp hn
  · rcases List.mem_cons.mp hx with rfl | hx
    · rw [if_pos rfl, hprev]
    rw [if_neg (hne hx)]
    split_ifs with hxh
    · subst hxh
      exact h.back_eq hb fun hn => h.linked.fresh (hn ▸ hx)
    · exact h.prev_eq hx (fun he => absurd he hxh) hj

/-! ### Unlinking -/

/-- The back link of the node that is being unlinked is the old one. -/
theorem prev_of_moved (h : Pending nil back moved joined prev next head prev₀ head₀ l)
    (hp : moved p) (hj : ∀ q, joined q → q = p) : prev p = prev₀ p := by
  have hpl := h.moved_mem hp
  refine h.prev_eq hpl (fun he b hb => h.apart hb hp he) fun q hq => ?_
  rw [hj q hq]
  intro hpn
  by_cases hn : next p = nil
  · exact h.linked.fresh (hn ▸ hpn ▸ hpl)
  · exact (h.linked.next_mem hpl hn).2.2 hpn.symm

/-- The head moves on if the node is the first. -/
theorem moveHead (h : Pending nil back moved joined prev next head prev₀ head₀ l) (hp : p ∈ l)
    (hb : ∀ x, back x → p ≠ head₀) (hm : ∀ x, ¬ moved x) (hm' : ∀ x, moved' x ↔ x = p)
    (hhead : head' = if p = head₀ then next p else head) :
    Pending nil back moved' joined prev next head' prev₀ head₀ l where
  linked := h.linked
  moved_mem hx := (hm' _).mp hx ▸ hp
  moved_of_joined hx := absurd (h.moved_of_joined hx) (hm _)
  apart hx hq := (hm' _).mp hq ▸ hb _ hx
  back_eq := h.back_eq
  joined_eq := h.joined_eq
  prev_eq := h.prev_eq
  moved_eq hx := by
    have he := (hm' _).mp hx
    rw [hhead, if_pos he.symm, he]
  head_eq hx := by
    have hne : p ≠ head₀ := fun he => hx ((hm' _).mpr he.symm)
    rw [hhead, if_neg hne, h.head_eq (hm _)]

/-- The successor points to the predecessor. -/
theorem join (h : Pending nil back moved joined prev next head prev₀ head₀ l)
    (hm : ∀ x, moved x ↔ x = p) (hj : ∀ x, ¬ joined x) (hj' : ∀ x, joined' x ↔ x = p)
    (hn : next p ≠ nil → prev' (next p) = prev p) (ho : ∀ x ∈ l, x ≠ next p → prev' x = prev x) :
    Pending nil back moved joined' prev' next head prev₀ head₀ l := by
  have hp : moved p := (hm p).mpr rfl
  have hpl := h.moved_mem hp
  have hprev : prev p = prev₀ p := h.prev_of_moved hp fun q hq => absurd hq (hj q)
  refine
    { linked := h.linked
      moved_mem := h.moved_mem
      moved_of_joined := fun hx => (hm _).mpr ((hj' _).mp hx)
      apart := h.apart
      back_eq := fun hb hne => ?_
      joined_eq := fun hx hne => ?_
      prev_eq := fun hx hb hjx => ?_
      moved_eq := h.moved_eq
      head_eq := h.head_eq }
  · rw [ho head₀ (h.linked.head_mem hne)]
    · exact h.back_eq hb hne
    · intro he
      exact h.linked.next_ne_head hpl (he ▸ hne) he.symm
  · obtain rfl := (hj' _).mp hx
    rw [hn hne, hprev]
  · rw [ho _ hx (hjx p ((hj' p).mpr rfl))]
    exact h.prev_eq hx hb fun q hq => absurd hq (hj q)

/-- The predecessor points to the successor, and the node is out of the list. -/
theorem unlink (h : Pending nil back moved joined prev next head prev₀ head₀ l)
    (hm : ∀ x, moved x ↔ x = p) (hj : joined p) (hm' : ∀ x, ¬ moved' x) (hj' : ∀ x, ¬ joined' x)
    (hn : ∀ x ∈ l, x ≠ p → next' x = if x = prev p then next p else next x) :
    ∃ prev₀' head₀', Pending nil back moved' joined' prev next' head prev₀' head₀' (l.erase p) ∧
      (p ≠ head₀ → head₀' = head₀) := by
  have hp : moved p := (hm p).mpr rfl
  have hpl := h.moved_mem hp
  have hjp : ∀ q, joined q → q = p := fun q hq => (hm q).mp (h.moved_of_joined hq)
  have hprev : prev p = prev₀ p := h.prev_of_moved hp hjp
  have hfirst : prev₀ p = nil ↔ p = head₀ := h.linked.prev_eq_nil_iff hpl
  have hkeep : p ≠ head₀ → (if prev₀ p = nil then next p else head₀) = head₀ := fun hne =>
    if_neg fun hnil => hne (hfirst.mp hnil)
  refine ⟨fun x => if x = next p then prev₀ p else prev₀ x,
    if prev₀ p = nil then next p else head₀, ?_, hkeep⟩
  refine
    { linked := ?_
      moved_mem := fun hx => absurd hx (hm' _)
      moved_of_joined := fun hx => absurd hx (hj' _)
      apart := fun _ hx => absurd hx (hm' _)
      back_eq := fun hb hne => ?_
      joined_eq := fun hx => absurd hx (hj' _)
      prev_eq := fun {x} hx hb _ => ?_
      moved_eq := fun hx => absurd hx (hm' _)
      head_eq := fun _ => ?_ }
  · refine h.linked.erase hpl rfl (fun _ _ _ => rfl) fun c hc hcp => ?_
    rw [← hprev]
    exact hn c hc hcp
  · have hne' := h.apart hb hp
    rw [hkeep hne'] at hne ⊢
    exact h.back_eq hb hne
  · have hxl := List.mem_of_mem_erase hx
    by_cases hxn : x = next p
    · rw [if_pos hxn, hxn]
      exact h.joined_eq hj fun hnil => h.linked.fresh (hnil ▸ hxn ▸ hxl)
    · rw [if_neg hxn]
      refine h.prev_eq hxl (fun he b hbk => ?_) fun q hq => hjp q hq ▸ hxn
      exact hb (he.trans (hkeep (h.apart hbk hp)).symm) b hbk
  · by_cases he : p = head₀
    · rw [if_pos (hfirst.mpr he), h.moved_eq (he ▸ hp), he]
    · rw [hkeep he]
      exact h.head_eq fun hmh => he ((hm _).mp hmh).symm

end Write

end Pending

end Cesvga2.Links
