import Mathlib.Data.Nat.Notation
import Mathlib.Order.Basic

/-! Lists kept in memory as runs of consecutive items joined by links. A reader goes from
one item to the next until it meets a stop, and follows the links on its way. -/

namespace Cesvga2.Chains

/-- What an address holds. -/
inductive Cell (α A : Type*) where
  | item (x : α)
  | link (target : A)
  | stop

variable {α A : Type*} (read : A → Cell α A) (next : A → Option A)

/-- The items from an address on, read in at most the given number of steps. The reader fails
where an item has no next address. -/
def walk : ℕ → A → Option (List α)
  | 0, _ => none
  | n + 1, a =>
    match read a with
    | .stop => some []
    | .link b => walk n b
    | .item x => (next a).bind fun b => (walk n b).map (x :: ·)

/-- The items that stand in memory from an address on. -/
inductive Chain : A → List α → Prop
  | stop {a : A} (h : read a = .stop) : Chain a []
  | link {a b : A} {l : List α} (h : read a = .link b) (hl : Chain b l) : Chain a l
  | item {a b : A} {x : α} {l : List α} (h : read a = .item x) (hb : next a = some b)
      (hl : Chain b l) : Chain a (x :: l)

variable {read next} {a : A} {l : List α}

/-- The reader comes to the end of a chain, with its items in order. -/
theorem Chain.walk_eq (h : Chain read next a l) :
    ∃ n, ∀ fuel, n ≤ fuel → walk read next fuel a = some l := by
  induction h with
  | stop h =>
    refine ⟨1, fun fuel hf => ?_⟩
    obtain ⟨k, rfl⟩ : ∃ k, fuel = k + 1 := ⟨fuel - 1, by omega⟩
    simp only [walk, h]
  | link h _ ih =>
    obtain ⟨n, hn⟩ := ih
    refine ⟨n + 1, fun fuel hf => ?_⟩
    obtain ⟨k, rfl⟩ : ∃ k, fuel = k + 1 := ⟨fuel - 1, by omega⟩
    simp only [walk, h]
    exact hn k (by omega)
  | item h hb _ ih =>
    obtain ⟨n, hn⟩ := ih
    refine ⟨n + 1, fun fuel hf => ?_⟩
    obtain ⟨k, rfl⟩ : ∃ k, fuel = k + 1 := ⟨fuel - 1, by omega⟩
    simp only [walk, h, hb, Option.bind_some, hn k (by omega), Option.map_some]

end Cesvga2.Chains
