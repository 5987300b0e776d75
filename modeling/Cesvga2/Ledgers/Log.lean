import Mathlib.Data.List.Basic

/-! Logs of events, the latest first. A resource is taken and given back in turns, and what some
work depends on is undone only after the work was awaited. -/

namespace Cesvga2.Ledgers

variable {E ι : Type*}

/-- The events `take` and `give` take turns; the flag tells that the last of them was `take`. -/
inductive Turns (take give : E) : Bool → List E → Prop
  | nil : Turns take give false []
  | take {log : List E} : Turns take give false log → Turns take give true (take :: log)
  | give {log : List E} : Turns take give true log → Turns take give false (give :: log)
  | other {held : Bool} {log : List E} {e : E} (htake : e ≠ take) (hgive : e ≠ give) :
      Turns take give held log → Turns take give held (e :: log)

/-- What is held was taken. -/
theorem Turns.mem_of_held {take give : E} {log : List E} (h : Turns take give true log) :
    take ∈ log := by
  generalize hheld : true = held at h
  induction h with
  | nil => cases hheld
  | take _ _ => exact List.mem_cons_self
  | give _ _ => cases hheld
  | other _ _ _ ih => exact List.mem_cons_of_mem _ (ih hheld)

/-- Work of which only the last piece counts: which events start it, await it, and undo what it
depends on. -/
structure Work (E ι : Type*) where
  start : E → Option ι
  await : E → Option ι
  undo : E → Bool

namespace Work

variable [DecidableEq ι] (w : Work E ι)

/-- The last piece of work, if it was not awaited since. -/
def pending : List E → Option ι
  | [] => none
  | e :: log =>
    match w.start e with
    | some i => some i
    | none => if w.await e = pending log then none else pending log

/-- Nothing is undone while work is pending. -/
def Settled : List E → Prop
  | [] => True
  | e :: log => (w.undo e = true → w.pending log = none) ∧ Settled log

variable {w} {e : E} {log : List E}

theorem pending_await (hs : w.start e = none)
    (h : w.pending log = none ∨ w.await e = w.pending log) :
    w.pending (e :: log) = none := by
  simp only [pending, hs]
  split_ifs with hne
  · rfl
  · exact h.resolve_right hne

theorem Settled.cons (h : w.Settled log) (hu : w.undo e = false) : w.Settled (e :: log) :=
  ⟨fun hundo => absurd hundo (by rw [hu]; exact Bool.false_ne_true), h⟩

end Work

end Cesvga2.Ledgers
