import Mathlib.Data.List.Basic
import Mathlib.Logic.Function.Basic
import Mathlib.Order.Nat

/-! Ids that are handed out for objects and used again. A holder takes a free id for a new object,
may put a new object in the place of the old one, and lets both go in the end. An id that was
noted down still names the same object exactly as long as its holder has not let that object go. -/

namespace Cesvga2.Leases

variable {O : Type*}

/-- Who has which id, which object each id names, how often a holder has let an object go, and the
number of objects made so far. `holders` are all who ever took an id. -/
structure Table (O : Type*) where
  id : O → Option ℕ
  object : ℕ → Option ℕ
  lost : O → ℕ
  holders : List O
  made : ℕ

namespace Table

def empty : Table O := ⟨fun _ => none, fun _ => none, fun _ => 0, [], 0⟩

section Steps

variable [DecidableEq O] (T : Table O) (o : O)

/-- A holder without an id takes the id `i`, if nothing has it, for a new object. -/
def acquire (i : ℕ) : Table O :=
  if (T.id o).isSome ∨ (T.object i).isSome then T
  else
    { T with
      id := Function.update T.id o (some i)
      object := Function.update T.object i (some T.made)
      holders := o :: T.holders
      made := T.made + 1 }

/-- The holder's object goes, and the id is free. -/
def release : Table O :=
  match T.id o with
  | none => T
  | some i =>
    { T with
      id := Function.update T.id o none
      object := Function.update T.object i none
      lost := Function.update T.lost o (T.lost o + 1) }

/-- The holder's object goes, and the id names a new one. -/
def replace : Table O :=
  match T.id o with
  | none => T
  | some i =>
    { T with
      object := Function.update T.object i (some T.made)
      lost := Function.update T.lost o (T.lost o + 1)
      made := T.made + 1 }

def releaseAll (os : List O) : Table O := os.foldl release T

end Steps

/-- The ids in use are those that name objects, each with one holder. -/
structure Sound (T : Table O) : Prop where
  named : ∀ {o i}, T.id o = some i → ∃ x, T.object i = some x
  held : ∀ {i x}, T.object i = some x → ∃ o, T.id o = some i
  unique : ∀ {o o' i}, T.id o = some i → T.id o' = some i → o = o'
  made : ∀ {i x}, T.object i = some x → x < T.made
  holders : ∀ {o i}, T.id o = some i → o ∈ T.holders

/-- `T'` is a later state than `T`: an id of a holder who has let nothing go since names the same
object, and that of any other holder does not. -/
structure Since (T T' : Table O) : Prop where
  made : T.made ≤ T'.made
  lost : ∀ o, T.lost o ≤ T'.lost o
  kept : ∀ {o i}, T.id o = some i → T'.lost o = T.lost o →
    T'.id o = some i ∧ T'.object i = T.object i
  gone : ∀ {o i}, T.id o = some i → T'.lost o ≠ T.lost o → T'.object i ≠ T.object i

theorem sound_empty : (empty : Table O).Sound where
  named := nofun
  held := nofun
  unique := nofun
  made := nofun
  holders := nofun

/-- No one else has the id of a holder. -/
theorem Sound.ne_of_ne {T : Table O} (h : T.Sound) {o p : O} {i j : ℕ}
    (ho : T.id o = some i) (hp : T.id p = some j) (hne : p ≠ o) : j ≠ i := by
  rintro rfl
  exact hne (h.unique hp ho)

namespace Since

theorem refl (T : Table O) : Since T T :=
  ⟨le_rfl, fun _ => le_rfl, fun h _ => ⟨h, rfl⟩, fun _ h => absurd rfl h⟩

/-- An object made now is none of those that there were then. -/
theorem made_ne {T T' : Table O} (h : Since T T') (hT : T.Sound) {i : ℕ} :
    some T'.made ≠ T.object i := by
  intro hx
  exact absurd (hT.made hx.symm) (Nat.not_lt.mpr h.made)

/-- An id names the object that it named then exactly if its holder then has let nothing go. -/
theorem same_iff {T T' : Table O} (h : Since T T') (hT : T.Sound) {i : ℕ} :
    (∃ x, T.object i = some x ∧ T'.object i = some x) ↔
      ∃ o, T.id o = some i ∧ T'.lost o = T.lost o := by
  constructor
  · rintro ⟨x, hx, hx'⟩
    obtain ⟨o, ho⟩ := hT.held hx
    by_contra hnone
    exact h.gone ho (fun hlost => hnone ⟨o, ho, hlost⟩) (hx'.trans hx.symm)
  · rintro ⟨o, ho, hlost⟩
    obtain ⟨x, hx⟩ := hT.named ho
    exact ⟨x, hx, (h.kept ho hlost).2.trans hx⟩

end Since

section StepLemmas

variable [DecidableEq O] {T T₀ : Table O} {o p : O} {i j : ℕ}

theorem release_of_none (h : T.id o = none) : T.release o = T := by
  rw [release, h]

/-- What letting go does to the ids, and who has lost something. -/
theorem release_id : (T.release o).id p = if p = o then none else T.id p := by
  cases ho : T.id o with
  | none =>
    rw [release_of_none ho]
    split_ifs with hp
    · rw [hp, ho]
    · rfl
  | some i => rw [release, ho]; exact Function.update_apply ..

theorem release_lost (hp : p ≠ o) : (T.release o).lost p = T.lost p := by
  cases ho : T.id o with
  | none => rw [release_of_none ho]
  | some i => rw [release, ho]; exact Function.update_of_ne hp _ _

theorem acquire_id (h : p ≠ o) : (T.acquire o i).id p = T.id p := by
  unfold acquire
  split_ifs
  · rfl
  · exact Function.update_of_ne h _ _

theorem acquire_lost : (T.acquire o i).lost = T.lost := by
  unfold acquire
  split_ifs <;> rfl

theorem replace_id : (T.replace o).id = T.id := by
  unfold replace
  split <;> rfl

theorem replace_lost (hp : p ≠ o) : (T.replace o).lost p = T.lost p := by
  cases ho : T.id o with
  | none => rw [replace, ho]
  | some i => rw [replace, ho]; exact Function.update_of_ne hp _ _

section Update

variable {β γ : Type*} [DecidableEq β] {f : β → Option γ} {b b' : β} {v w : γ}

theorem update_some_eq : Function.update f b (some v) b' = some w ↔
    (b' = b ∧ w = v) ∨ (b' ≠ b ∧ f b' = some w) := by
  by_cases hb : b' = b
  · rw [hb, Function.update_self]
    simp [eq_comm]
  · rw [Function.update_of_ne hb]
    simp [hb]

theorem update_none_eq : Function.update f b none b' = some w ↔ b' ≠ b ∧ f b' = some w := by
  by_cases hb : b' = b
  · rw [hb, Function.update_self]
    simp
  · rw [Function.update_of_ne hb]
    simp [hb]

end Update

omit [DecidableEq O] in
/-- A free id is no one's. -/
theorem Sound.ne_of_free (h : T.Sound) (hfree : ¬ ((T.id o).isSome ∨ (T.object i).isSome))
    (hp : T.id p = some j) : p ≠ o ∧ j ≠ i := by
  obtain ⟨x, hx⟩ := h.named hp
  constructor
  · rintro rfl
    exact hfree (.inl (by rw [hp]; rfl))
  · rintro rfl
    exact hfree (.inr (by rw [hx]; rfl))

theorem Sound.acquire (h : T.Sound) : (T.acquire o i).Sound := by
  unfold Table.acquire
  split_ifs with hbusy
  · exact h
  have hfree : ∀ {p j}, T.id p = some j → p ≠ o ∧ j ≠ i := fun hp => h.ne_of_free hbusy hp
  constructor <;> dsimp only
  · intro p j hp
    rcases update_some_eq.mp hp with ⟨rfl, rfl⟩ | ⟨-, hp⟩
    · exact ⟨T.made, Function.update_self ..⟩
    · obtain ⟨x, hx⟩ := h.named hp
      exact ⟨x, update_some_eq.mpr (.inr ⟨(hfree hp).2, hx⟩)⟩
  · intro j x hx
    rcases update_some_eq.mp hx with ⟨rfl, -⟩ | ⟨-, hx⟩
    · exact ⟨o, Function.update_self ..⟩
    · obtain ⟨p, hp⟩ := h.held hx
      exact ⟨p, update_some_eq.mpr (.inr ⟨(hfree hp).1, hp⟩)⟩
  · intro p p' j hp hp'
    rcases update_some_eq.mp hp with ⟨hpo, hj⟩ | ⟨-, hold⟩
    · rcases update_some_eq.mp hp' with ⟨hpo', -⟩ | ⟨-, hold'⟩
      · exact hpo.trans hpo'.symm
      · exact absurd hj (hfree hold').2
    · rcases update_some_eq.mp hp' with ⟨-, hj⟩ | ⟨-, hold'⟩
      · exact absurd hj (hfree hold).2
      · exact h.unique hold hold'
  · intro j x hx
    rcases update_some_eq.mp hx with ⟨-, rfl⟩ | ⟨-, hx⟩
    · exact Nat.lt_succ_self _
    · exact Nat.lt_succ_of_lt (h.made hx)
  · intro p j hp
    rcases update_some_eq.mp hp with ⟨rfl, -⟩ | ⟨-, hp⟩
    · exact List.mem_cons_self
    · exact List.mem_cons_of_mem o (h.holders hp)

theorem Sound.release (h : T.Sound) : (T.release o).Sound := by
  cases ho : T.id o with
  | none =>
    rw [release_of_none ho]
    exact h
  | some i =>
    rw [Table.release, ho]
    constructor <;> dsimp only
    · intro p j hp
      obtain ⟨hpo, hp⟩ := update_none_eq.mp hp
      obtain ⟨x, hx⟩ := h.named hp
      exact ⟨x, update_none_eq.mpr ⟨h.ne_of_ne ho hp hpo, hx⟩⟩
    · intro j x hx
      obtain ⟨hj, hx⟩ := update_none_eq.mp hx
      obtain ⟨p, hp⟩ := h.held hx
      refine ⟨p, update_none_eq.mpr ⟨?_, hp⟩⟩
      rintro rfl
      exact hj (Option.some.inj (hp.symm.trans ho))
    · intro p p' j hp hp'
      exact h.unique (update_none_eq.mp hp).2 (update_none_eq.mp hp').2
    · intro j x hx
      exact h.made (update_none_eq.mp hx).2
    · intro p j hp
      exact h.holders (update_none_eq.mp hp).2

theorem Sound.replace (h : T.Sound) : (T.replace o).Sound := by
  cases ho : T.id o with
  | none =>
    rw [Table.replace, ho]
    exact h
  | some i =>
    rw [Table.replace, ho]
    refine ⟨?_, ?_, h.unique, ?_, h.holders⟩ <;> dsimp only
    · intro p j hp
      by_cases hj : j = i
      · exact ⟨T.made, by rw [hj, Function.update_self]⟩
      · obtain ⟨x, hx⟩ := h.named hp
        exact ⟨x, update_some_eq.mpr (.inr ⟨hj, hx⟩)⟩
    · intro j x hx
      rcases update_some_eq.mp hx with ⟨rfl, -⟩ | ⟨-, hx⟩
      · exact ⟨o, ho⟩
      · exact h.held hx
    · intro j x hx
      rcases update_some_eq.mp hx with ⟨-, rfl⟩ | ⟨-, hx⟩
      · exact Nat.lt_succ_self _
      · exact Nat.lt_succ_of_lt (h.made hx)

namespace Since

theorem acquire (h : Since T₀ T) (h₀ : T₀.Sound) (hT : T.Sound) :
    Since T₀ (T.acquire o i) := by
  unfold Table.acquire
  split_ifs with hbusy
  · exact h
  · refine ⟨Nat.le_succ_of_le h.made, h.lost, ?_, ?_⟩ <;> dsimp only
    · intro p j hp hlost
      obtain ⟨hid, hobj⟩ := h.kept hp hlost
      obtain ⟨x, hx⟩ := hT.named hid
      obtain ⟨hpo, hj⟩ := hT.ne_of_free hbusy hid
      rw [Function.update_of_ne hpo, Function.update_of_ne hj]
      exact ⟨hid, hobj⟩
    · intro p j hp hlost
      by_cases hj : j = i
      · rw [hj, Function.update_self]
        exact h.made_ne h₀
      · rw [Function.update_of_ne hj]
        exact h.gone hp hlost

/-- Both ways of letting an object go: `x` takes its place. -/
theorem lose (h : Since T₀ T) (hT : T.Sound) (ho : T.id o = some i) {id' : O → Option ℕ}
    {x : Option ℕ} {made : ℕ} (hid : ∀ p, p ≠ o → id' p = T.id p)
    (hx : ∀ {p j}, T₀.id p = some j → x ≠ T₀.object j) (hmade : T.made ≤ made) :
    Since T₀ ⟨id', Function.update T.object i x, Function.update T.lost o (T.lost o + 1),
      T.holders, made⟩ := by
  refine ⟨Nat.le_trans h.made hmade, fun p => ?_, ?_, ?_⟩ <;> dsimp only
  · by_cases hp : p = o
    · rw [hp, Function.update_self]
      exact Nat.le_succ_of_le (h.lost o)
    · rw [Function.update_of_ne hp]
      exact h.lost p
  · intro p j hp hlost
    by_cases hpo : p = o
    · rw [hpo, Function.update_self] at hlost
      exact absurd (h.lost o) (by omega)
    · rw [Function.update_of_ne hpo] at hlost
      obtain ⟨hpid, hobj⟩ := h.kept hp hlost
      rw [hid p hpo, Function.update_of_ne (hT.ne_of_ne ho hpid hpo)]
      exact ⟨hpid, hobj⟩
  · intro p j hp hlost
    by_cases hj : j = i
    · rw [hj, Function.update_self, ← hj]
      exact hx hp
    · rw [Function.update_of_ne hj]
      refine h.gone hp fun hsame => ?_
      -- who has lost nothing so far still has the id, and loses something only now
      have hpo : p ≠ o := by
        rintro rfl
        exact hj (Option.some.inj ((h.kept hp hsame).1.symm.trans ho))
      exact hlost ((Function.update_of_ne hpo _ _).trans hsame)

theorem release (h : Since T₀ T) (h₀ : T₀.Sound) (hT : T.Sound) : Since T₀ (T.release o) := by
  cases ho : T.id o with
  | none =>
    rw [release_of_none ho]
    exact h
  | some i =>
    rw [Table.release, ho]
    refine h.lose hT ho (fun p hp => Function.update_of_ne hp _ _) (fun hp => ?_) le_rfl
    obtain ⟨x, hx⟩ := h₀.named hp
    rw [hx]
    exact nofun

theorem replace (h : Since T₀ T) (h₀ : T₀.Sound) (hT : T.Sound) : Since T₀ (T.replace o) := by
  cases ho : T.id o with
  | none =>
    rw [Table.replace, ho]
    exact h
  | some i =>
    rw [Table.replace, ho]
    exact h.lose hT ho (fun _ _ => rfl) (fun _ => h.made_ne h₀) (Nat.le_succ _)

end Since

/-! ### Several holders -/

theorem Sound.releaseAll (os : List O) (h : T.Sound) : (T.releaseAll os).Sound := by
  induction os generalizing T with
  | nil => exact h
  | cons o os ih => exact ih h.release

theorem Since.releaseAll (os : List O) (h : Since T₀ T) (h₀ : T₀.Sound) (hT : T.Sound) :
    Since T₀ (T.releaseAll os) := by
  induction os generalizing T with
  | nil => exact h
  | cons o os ih => exact ih (h.release h₀ hT) hT.release

theorem releaseAll_id (os : List O) :
    (T.releaseAll os).id p = if p ∈ os then none else T.id p := by
  induction os generalizing T with
  | nil => rfl
  | cons o os ih =>
    change ((T.release o).releaseAll os).id p = _
    rw [ih, release_id]
    by_cases hp : p = o <;> simp [hp]

theorem releaseAll_lost (os : List O) (h : p ∉ os) : (T.releaseAll os).lost p = T.lost p := by
  induction os generalizing T with
  | nil => rfl
  | cons o os ih =>
    obtain ⟨hpo, hp⟩ := not_or.mp (List.mem_cons.not.mp h)
    change ((T.release o).releaseAll os).lost p = _
    rw [ih hp, release_lost hpo]

theorem releaseAll_lost_of_none (os : List O) (h : T.id p = none) :
    (T.releaseAll os).lost p = T.lost p := by
  induction os generalizing T with
  | nil => rfl
  | cons o os ih =>
    have hid : (T.release o).id p = none := by
      rw [release_id, h, ite_self]
    have hlost : (T.release o).lost p = T.lost p := by
      by_cases hp : p = o
      · rw [← hp, release_of_none h]
      · exact release_lost hp
    exact (ih hid).trans hlost

end StepLemmas

end Table

end Cesvga2.Leases
