import Mathlib.Data.List.Basic
import Mathlib.Data.List.Nodup

/-! Computations that may stop, and loops of them. A rule tells what holds of the result and of
every way to stop. -/

namespace Cesvga2.Loops

universe u v w

variable {ε : Type v} {α β : Type u} {γ : Type w} {P : α → Prop} {Q : β → Prop} {E : ε → Prop}

/-- The result has `P`; a computation that stops does so with `E`. -/
def Meets (P : α → Prop) (E : ε → Prop) : Except ε α → Prop
  | .ok a => P a
  | .error e => E e

theorem Meets.pure {a : α} (h : P a) : Meets P E (pure a) := h

theorem Meets.trivial (x : Except ε α) : Meets (fun _ => True) (fun _ => True) x := by
  cases x <;> exact True.intro

theorem Meets.bind {x : Except ε α} {f : α → Except ε β} (hx : Meets P E x)
    (hf : ∀ a, P a → Meets Q E (f a)) : Meets Q E (x >>= f) := by
  cases x with
  | ok a => exact hf a hx
  | error e => exact hx

theorem Meets.ite {c : Prop} [Decidable c] {x y : Except ε α} (hx : c → Meets P E x)
    (hy : ¬ c → Meets P E y) : Meets P E (if c then x else y) := by
  by_cases hc : c
  · rw [if_pos hc]
    exact hx hc
  · rw [if_neg hc]
    exact hy hc

/-- A loop over a list keeps what every pass keeps. -/
theorem Meets.foldlM {f : β → γ → Except ε β} {l : List γ} {b : β} (hb : Q b)
    (hf : ∀ a ∈ l, ∀ b, Q b → Meets Q E (f b a)) : Meets Q E (l.foldlM f b) := by
  induction l generalizing b with
  | nil => exact hb
  | cons a l ih =>
    rw [List.foldlM_cons]
    exact (hf a List.mem_cons_self b hb).bind fun b' hb' =>
      ih hb' fun a' ha' => hf a' (List.mem_cons_of_mem a ha')

theorem Meets.exists_ok {x : Except ε α} (hx : Meets P (fun _ => False) x) :
    ∃ a, x = .ok a ∧ P a := by
  cases x with
  | ok a => exact ⟨a, rfl, hx⟩
  | error e => exact hx.elim

/-! ### Loops that leave at the first failure -/

section Leave

variable (selected fails : γ → Prop) [DecidablePred selected] [DecidablePred fails]

/-- The elements that a loop gets to work on: those selected, up to the first that fails. -/
def reached : List γ → List γ
  | [] => []
  | a :: l => if selected a then if fails a then [a] else a :: reached l else reached l

variable {selected fails} {l : List γ} {a : γ}

theorem mem_of_mem_reached (h : a ∈ reached selected fails l) : a ∈ l ∧ selected a := by
  induction l with
  | nil => cases h
  | cons b l ih =>
    rw [reached] at h
    split_ifs at h with hs hf
    · obtain rfl := List.mem_singleton.mp h
      exact ⟨List.mem_cons_self, hs⟩
    · rcases List.mem_cons.mp h with rfl | h
      · exact ⟨List.mem_cons_self, hs⟩
      · exact ⟨List.mem_cons_of_mem b (ih h).1, (ih h).2⟩
    · exact ⟨List.mem_cons_of_mem b (ih h).1, (ih h).2⟩

theorem nodup_reached (h : l.Nodup) : (reached selected fails l).Nodup := by
  induction l with
  | nil => exact List.nodup_nil
  | cons b l ih =>
    obtain ⟨hb, hl⟩ := List.nodup_cons.mp h
    rw [reached]
    split_ifs
    · exact List.nodup_singleton b
    · exact List.nodup_cons.mpr ⟨fun hmem => hb (mem_of_mem_reached hmem).1, ih hl⟩
    · exact ih hl

/-! A loop that works on what is selected and stops after the first failure. -/

variable {body : α → γ → Except ε α} {work : α → γ → α} {stop : α → ε}

theorem foldlM_of_not_fails (s : α)
    (h : ∀ b ∈ l, ∀ s, body s b = if selected b then
      if fails b then .error (stop (work s b)) else .ok (work s b) else .ok s)
    (hok : ∀ b ∈ l, selected b → ¬ fails b) :
    l.foldlM body s = .ok ((reached selected fails l).foldl work s) := by
  induction l generalizing s with
  | nil => rfl
  | cons b l ih =>
    have hrest := fun s => ih s (fun c hc => h c (List.mem_cons_of_mem b hc))
      fun c hc => hok c (List.mem_cons_of_mem b hc)
    rw [List.foldlM_cons, h b List.mem_cons_self, reached]
    by_cases hs : selected b
    · rw [if_pos hs, if_pos hs, if_neg (hok b List.mem_cons_self hs),
        if_neg (hok b List.mem_cons_self hs), List.foldl_cons]
      exact hrest (work s b)
    · rw [if_neg hs, if_neg hs]
      exact hrest s

theorem foldlM_of_fails (s : α)
    (h : ∀ b ∈ l, ∀ s, body s b = if selected b then
      if fails b then .error (stop (work s b)) else .ok (work s b) else .ok s)
    (hbad : ∃ b ∈ l, selected b ∧ fails b) :
    l.foldlM body s = .error (stop ((reached selected fails l).foldl work s)) := by
  induction l generalizing s with
  | nil => simp at hbad
  | cons b l ih =>
    have hrest := fun s => ih s fun c hc => h c (List.mem_cons_of_mem b hc)
    rw [List.foldlM_cons, h b List.mem_cons_self, reached]
    by_cases hb : selected b ∧ fails b
    · rw [if_pos hb.1, if_pos hb.2, if_pos hb.1, if_pos hb.2]
      rfl
    -- the failure is further on
    have htail : ∃ c ∈ l, selected c ∧ fails c := by
      obtain ⟨c, hc, hbad⟩ := hbad
      rcases List.mem_cons.mp hc with rfl | hc
      · exact absurd hbad hb
      · exact ⟨c, hc, hbad⟩
    by_cases hs : selected b
    · have hf : ¬ fails b := fun hf => hb ⟨hs, hf⟩
      rw [if_pos hs, if_neg hf, if_pos hs, if_neg hf, List.foldl_cons]
      exact hrest (work s b) htail
    · rw [if_neg hs, if_neg hs]
      exact hrest s htail

end Leave

end Cesvga2.Loops
