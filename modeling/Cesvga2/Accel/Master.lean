import Cesvga2.Basic
import Cesvga2.Runs.Prefix
import Mathlib.Data.Finset.Option

/-! The master surface, which surfaces share and count. `retainMasterSurface` creates it when it
takes the count from 0 to 1, and `releaseMasterSurface` destroys it when it takes the count back;
only the change of the count is atomic. Calls of any number of threads are interleaved statement
by statement. -/

namespace Cesvga2.Accel.Master

/-- Where a thread is: outside of a call without or with a retain of its own (`idle` and
`held`), or before a statement of a call that has changed the count. -/
inductive Pc where
  | idle
  | alloc
  | define
  | freeFailed
  | clearFailed
  | resetCount
  | held
  | test
  | destroy
  | free
  | clear
  deriving DecidableEq, Repr

/-- In `createMasterSurface`. -/
def Pc.creating : Pc → Bool
  | .alloc | .define | .freeFailed | .clearFailed => true
  | _ => false

/-- In `destroyMasterSurface`. -/
def Pc.destroying : Pc → Bool
  | .test | .destroy | .free | .clear => true
  | _ => false

/-- The retain count, `m_master_surface_id`, the surfaces that the host has defined, the surface
ids that are allocated, and the threads. The count is an `int`, which does not wrap with less than
`2 ^ 31` threads that hold the surface. -/
structure Sys where
  haveSVGA3D : Bool
  retainCount : ℤ
  id : Option ℕ
  defined : Finset ℕ
  ids : Finset ℕ
  pc : ℕ → Pc

/-- The next statement of a thread, with the id that `AllocSurfaceID` would give it and whether
`createSurface` would succeed. -/
structure Act where
  thread : ℕ
  id : ℕ
  created : Bool
  deriving DecidableEq, Repr

namespace Sys

def init (haveSVGA3D : Bool) : Sys := ⟨haveSVGA3D, 0, none, ∅, ∅, fun _ => .idle⟩

def goto (s : Sys) (t : ℕ) (pc : Pc) : Sys := { s with pc := Function.update s.pc t pc }

/-- The statement that comes next at a place. The id is read again by every statement that
uses it. -/
def next (s : Sys) (a : Act) : Pc → Sys
  -- `retainMasterSurface`
  | .idle =>
    if s.haveSVGA3D then
      { s with retainCount := s.retainCount + 1 }.goto a.thread
        (if s.retainCount = 0 then .alloc else .held)
    else s
  | .alloc => { s with id := some a.id, ids := insert a.id s.ids }.goto a.thread .define
  | .define =>
    if a.created then { s with defined := s.defined ∪ s.id.toFinset }.goto a.thread .held
    else s.goto a.thread .freeFailed
  | .freeFailed => { s with ids := s.ids \ s.id.toFinset }.goto a.thread .clearFailed
  | .clearFailed => { s with id := none }.goto a.thread .resetCount
  | .resetCount => { s with retainCount := 0 }.goto a.thread .idle
  -- `releaseMasterSurface`
  | .held =>
    { s with retainCount := s.retainCount - 1 }.goto a.thread
      (if s.retainCount ≤ 0 then .resetCount else if s.retainCount = 1 then .test else .idle)
  | .test => s.goto a.thread (if s.id = none then .idle else .destroy)
  | .destroy => { s with defined := s.defined \ s.id.toFinset }.goto a.thread .free
  | .free => { s with ids := s.ids \ s.id.toFinset }.goto a.thread .clear
  | .clear => { s with id := none }.goto a.thread .idle

def exec (s : Sys) (a : Act) : Sys := s.next a (s.pc a.thread)

/-- Whoever holds the master surface finds the id of a surface that the host has. -/
def Safe (s : Sys) : Prop := ∀ t, s.pc t = .held → ∃ id ∈ s.id, id ∈ s.defined

end Sys

/-- Whether a call may change the count while another call creates the surface, and while
another destroys it. -/
structure Overlap where
  creating : Bool
  destroying : Bool
  deriving DecidableEq, Repr

/-- `AllocSurfaceID` gives an id that is not allocated, and `createSurface` succeeds. -/
def Sys.Legal (p : Overlap) (s : Sys) (a : Act) : Prop :=
  match s.pc a.thread with
  | .idle | .held => ∀ u, u ≠ a.thread →
      ((s.pc u).creating → p.creating) ∧ ((s.pc u).destroying → p.destroying)
  | .alloc => a.id ∉ s.ids
  | .define => a.created
  | _ => True

/-! ### Calls that do not overlap -/

/-- The thread is part of the count. -/
def Pc.counted (q : Pc) : Bool := q.creating || decide (q = .held)

def Pc.busy (q : Pc) : Bool := q.creating || q.destroying

namespace Sys

variable {s s' : Sys} {a : Act} {t u : ℕ} {q : Pc}

/-- The count is the number of threads that are part of it, and a thread that creates or destroys
the surface is the only one that is not idle. -/
structure Inv (s : Sys) : Prop where
  counted : ∃ H : Finset ℕ, (∀ t, t ∈ H ↔ (s.pc t).counted) ∧ s.retainCount = H.card
  safe : s.Safe
  define : ∀ t, s.pc t = .define → s.id ≠ none
  alone : ∀ t, (s.pc t).busy → ∀ u, u ≠ t → s.pc u = .idle
  works : ∀ t, s.pc t ≠ .freeFailed ∧ s.pc t ≠ .clearFailed ∧ s.pc t ≠ .resetCount

theorem inv_init (haveSVGA3D : Bool) : (init haveSVGA3D).Inv where
  counted := ⟨∅, by simp [init, Pc.counted, Pc.creating], rfl⟩
  safe t ht := by cases ht
  define t ht := by cases ht
  alone t ht := by cases ht
  works t := by simp [init]

/-- A thread that is part of the count and not busy holds the surface. -/
theorem held_of_counted (hc : q.counted) (hb : ¬ q.busy) : q = .held := by
  cases q <;> simp_all [Pc.counted, Pc.busy, Pc.creating, Pc.destroying]

theorem idle_of_not_counted (hc : ¬ q.counted) (hb : ¬ q.busy) (hr : q ≠ .resetCount) :
    q = .idle := by
  cases q <;> simp_all [Pc.counted, Pc.busy, Pc.creating, Pc.destroying]

/-- One thread goes on while no other is at work; the surface stays as it is unless the others
are idle. -/
theorem Inv.update (h : s.Inv) (hpc : s'.pc = Function.update s.pc t q)
    (hquiet : ∀ u, u ≠ t → ¬ (s.pc u).busy)
    (hothers : s'.id = s.id ∧ s'.defined = s.defined ∨ ∀ u, u ≠ t → s.pc u = .idle)
    (hcounted : ∃ H : Finset ℕ, (∀ t, t ∈ H ↔ (s'.pc t).counted) ∧ s'.retainCount = H.card)
    (hheld : q = .held → ∃ id ∈ s'.id, id ∈ s'.defined) (hdefine : q = .define → s'.id ≠ none)
    (halone : q.busy → ∀ u, u ≠ t → s.pc u = .idle)
    (hworks : q ≠ .freeFailed ∧ q ≠ .clearFailed ∧ q ≠ .resetCount) : s'.Inv := by
  have hself : s'.pc t = q := by rw [hpc, Function.update_self]
  have hother : ∀ u, u ≠ t → s'.pc u = s.pc u := fun u hu => by rw [hpc, Function.update_of_ne hu]
  refine ⟨hcounted, ?_, ?_, ?_, ?_⟩
  · intro u hu
    by_cases hut : u = t
    · exact hheld (hself.symm.trans (hut ▸ hu))
    · rw [hother u hut] at hu
      rcases hothers with ⟨hid, hdefined⟩ | hidle
      · rw [hid, hdefined]
        exact h.safe u hu
      · cases (hidle u hut).symm.trans hu
  · intro u hu
    by_cases hut : u = t
    · exact hdefine (hself.symm.trans (hut ▸ hu))
    · refine absurd ?_ (hquiet u hut)
      rw [← hother u hut, hu]
      rfl
  · intro u hu v hv
    by_cases hut : u = t
    · rw [hut] at hu hv
      rw [hother v hv]
      exact halone (hself ▸ hu) v hv
    · exact absurd (hother u hut ▸ hu) (hquiet u hut)
  · intro u
    by_cases hut : u = t
    · rw [hut, hself]
      exact hworks
    · rw [hother u hut]
      exact h.works u

/-- A thread at work is the only one, and goes on. -/
theorem Inv.move {q₀ : Pc} (h : s.Inv) (ht : s.pc t = q₀) (hbusy : q₀.busy)
    (hpc : s'.pc = Function.update s.pc t q)
    (hcount : s'.retainCount = s.retainCount) (hcounted : q.counted = q₀.counted)
    (hheld : q = .held → ∃ id ∈ s'.id, id ∈ s'.defined) (hdefine : q = .define → s'.id ≠ none)
    (hworks : q ≠ .freeFailed ∧ q ≠ .clearFailed ∧ q ≠ .resetCount) : s'.Inv := by
  have hidle := h.alone t (ht ▸ hbusy)
  refine h.update hpc (fun u hu => ?_) (.inr hidle) ?_ hheld hdefine (fun _ => hidle) hworks
  · rw [hidle u hu]
    decide
  · obtain ⟨H, hH, hcard⟩ := h.counted
    refine ⟨H, fun u => ?_, hcount.trans hcard⟩
    rw [hH u, hpc]
    by_cases hu : u = t
    · rw [hu, Function.update_self, hcounted, ht]
    · rw [Function.update_of_ne hu]

/-- `destroyMasterSurface` is at work while nobody holds the surface. -/
theorem Inv.wreck {q₀ : Pc} (h : s.Inv) (ht : s.pc t = q₀) (hq₀ : q₀.destroying)
    (hq : q.destroying ∨ q = .idle) (hpc : s'.pc = Function.update s.pc t q)
    (hcount : s'.retainCount = s.retainCount) : s'.Inv := by
  have hbusy : q₀.busy := by simp [Pc.busy, hq₀]
  have hcounted : q.counted = q₀.counted := by
    cases q₀ <;> cases q <;> simp_all [Pc.destroying, Pc.counted, Pc.creating]
  refine h.move ht hbusy hpc hcount hcounted ?_ ?_ ?_ <;>
    cases q <;> simp_all [Pc.destroying]

theorem Inv.retain (h : s.Inv) (ht : s.pc t = .idle) (hquiet : ∀ u, u ≠ t → ¬ (s.pc u).busy) :
    ({ s with retainCount := s.retainCount + 1 }.goto t
      (if s.retainCount = 0 then .alloc else .held)).Inv := by
  obtain ⟨H, hH, hcard⟩ := h.counted
  have htH : t ∉ H := by
    rw [hH t, ht]
    decide
  have hcounted : (if s.retainCount = 0 then Pc.alloc else .held).counted := by
    split_ifs <;> rfl
  refine h.update rfl hquiet (.inl ⟨rfl, rfl⟩) ⟨insert t H, fun u => ?_, ?_⟩ ?_ ?_ ?_ ?_
  · simp only [goto]
    by_cases hu : u = t
    · simp [hu, hcounted]
    · simp [hu, hH u]
  · simp [goto, Finset.card_insert_of_notMem htH, hcard]
  · -- someone holds the surface already
    intro hq
    have hne : H.card ≠ 0 := by
      rintro h0
      simp [hcard, h0] at hq
    obtain ⟨u, hu⟩ := Finset.card_pos.mp (Nat.pos_of_ne_zero hne)
    have hut : u ≠ t := by
      rintro rfl
      exact htH hu
    exact h.safe u (held_of_counted ((hH u).mp hu) (hquiet u hut))
  · intro hq
    split_ifs at hq
  · -- nobody is part of the count
    intro hq u hu
    have h0 : s.retainCount = 0 := by
      by_contra hne
      simp [hne, Pc.busy, Pc.creating, Pc.destroying] at hq
    have hempty : H = ∅ := by
      rw [← Finset.card_eq_zero]
      exact_mod_cast hcard.symm.trans h0
    have hnot : ¬ (s.pc u).counted := fun hc => by simp [hempty] at hH; simp [hH u] at hc
    exact idle_of_not_counted hnot (hquiet u hu) (h.works u).2.2
  · split_ifs <;> decide

theorem Inv.release (h : s.Inv) (ht : s.pc t = .held) (hquiet : ∀ u, u ≠ t → ¬ (s.pc u).busy) :
    ({ s with retainCount := s.retainCount - 1 }.goto t
      (if s.retainCount ≤ 0 then .resetCount
        else if s.retainCount = 1 then .test else .idle)).Inv := by
  obtain ⟨H, hH, hcard⟩ := h.counted
  have htH : t ∈ H := by
    rw [hH t, ht]
    decide
  have hpos : 0 < H.card := Finset.card_pos.mpr ⟨t, htH⟩
  rw [if_neg (by omega : ¬ s.retainCount ≤ 0)]
  have hcounted : (if s.retainCount = 1 then Pc.test else .idle).counted = false := by
    split_ifs <;> rfl
  refine h.update rfl hquiet (.inl ⟨rfl, rfl⟩) ⟨H.erase t, fun u => ?_, ?_⟩ ?_ ?_ ?_ ?_
  · simp only [goto]
    by_cases hu : u = t
    · simp [hu, hcounted]
    · simp [hu, hH u]
  · simp only [goto, Finset.card_erase_of_mem htH, hcard]
    omega
  · intro hq
    split_ifs at hq
  · intro hq
    split_ifs at hq
  · -- the count was that of this thread alone
    intro hq u hu
    have h1 : s.retainCount = 1 := by
      by_contra hne
      simp [hne, Pc.busy, Pc.creating, Pc.destroying] at hq
    have hone : H.card = 1 := by exact_mod_cast hcard.symm.trans h1
    have hnot : ¬ (s.pc u).counted := fun hc =>
      hu (Finset.card_le_one.mp hone.le u ((hH u).mpr hc) t htH)
    exact idle_of_not_counted hnot (hquiet u hu) (h.works u).2.2
  · split_ifs <;> decide

theorem Legal.quiet {p : Overlap} (hp : p.creating = false ∧ p.destroying = false)
    (ht : s.pc a.thread = .idle ∨ s.pc a.thread = .held) (hl : s.Legal p a) :
    ∀ u, u ≠ a.thread → ¬ (s.pc u).busy := by
  intro u hu hbusy
  have hboth : ((s.pc u).creating → p.creating) ∧ ((s.pc u).destroying → p.destroying) := by
    rcases ht with ht | ht <;> simp only [Legal, ht] at hl <;> exact hl u hu
  rw [hp.1, hp.2] at hboth
  simp only [Pc.busy, Bool.or_eq_true] at hbusy
  rcases hbusy with hc | hd
  · cases hboth.1 hc
  · cases hboth.2 hd

theorem Inv.exec {p : Overlap} (hp : p.creating = false ∧ p.destroying = false) (h : s.Inv)
    (hl : s.Legal p a) : (s.exec a).Inv := by
  cases hpc : s.pc a.thread <;> simp only [Sys.exec, hpc, next]
  case idle =>
    by_cases h3D : s.haveSVGA3D
    · rw [if_pos h3D]
      exact h.retain hpc (hl.quiet hp (.inl hpc))
    · rw [if_neg h3D]
      exact h
  case alloc => exact h.move hpc rfl rfl rfl rfl nofun (by simp [goto]) (by decide)
  case define =>
    have hcreated : a.created = true := by simpa only [Legal, hpc] using hl
    obtain ⟨id, hid⟩ := Option.ne_none_iff_exists'.mp (h.define _ hpc)
    rw [if_pos hcreated]
    exact h.move hpc rfl rfl rfl rfl (fun _ => ⟨id, hid, by simp [goto, hid]⟩) nofun (by decide)
  case freeFailed => exact absurd hpc (h.works _).1
  case clearFailed => exact absurd hpc (h.works _).2.1
  case resetCount => exact absurd hpc (h.works _).2.2
  case held => exact h.release hpc (hl.quiet hp (.inr hpc))
  case test => exact h.wreck hpc rfl (by split_ifs <;> decide) rfl rfl
  case destroy => exact h.wreck hpc rfl (.inl rfl) rfl rfl
  case free => exact h.wreck hpc rfl (.inl rfl) rfl rfl
  case clear => exact h.wreck hpc rfl (.inr rfl) rfl rfl

end Sys

/-! ### Calls that overlap -/

open Sys

/-- The first thread has added itself to the count; the second returns before the surface is
created. -/
def early : List Act := [⟨0, 0, true⟩, ⟨1, 0, true⟩]

/-- The first thread gives the surface back and is about to destroy it; the second creates a
new one, and the first destroys that. -/
def late : List Act :=
  [⟨0, 0, true⟩, ⟨0, 0, true⟩, ⟨0, 0, true⟩, ⟨0, 0, true⟩, ⟨1, 0, true⟩, ⟨1, 1, true⟩, ⟨1, 1, true⟩,
    ⟨0, 0, true⟩, ⟨0, 0, true⟩]

theorem not_safe_early : ¬ (early.foldl exec (init true)).Safe := by
  intro h
  obtain ⟨id, hid, -⟩ := h 1 (by decide)
  cases hid

theorem not_safe_late : ¬ (late.foldl exec (init true)).Safe := by
  intro h
  obtain ⟨id, hid, hdefined⟩ := h 1 (by decide)
  have hnot : ∀ id ∈ (late.foldl exec (init true)).id,
      id ∉ (late.foldl exec (init true)).defined := by decide
  exact hnot id hid hdefined

theorem legal_early {p : Overlap} (hp : p.creating = true) :
    Runs.Each exec (Legal p) (init true) early := by
  simp only [early, Runs.each_cons, Runs.each_nil, and_true]
  simp [Legal, exec, next, goto, init, Function.update_apply, hp, Pc.creating, Pc.destroying]
  intro u _
  split_ifs <;> simp

theorem legal_late {p : Overlap} (hp : p.destroying = true) :
    Runs.Each exec (Legal p) (init true) late := by
  simp only [late, Runs.each_cons, Runs.each_nil, and_true]
  simp [Legal, exec, next, goto, init, Function.update_apply, hp, Pc.creating, Pc.destroying]
  constructor <;>
  · intro u _
    split_ifs <;> simp

/-- Without 3D nobody gets the surface. -/
theorem foldl_init_false (acts : List Act) : acts.foldl exec (init false) = init false :=
  Runs.foldl_of_step (I := (· = init false)) (fun _ _ hs => by rw [hs]; rfl) rfl acts

/-- All interleavings are safe exactly if no call changes the count while another creates or
destroys the surface. -/
theorem safe_iff_no_overlap (haveSVGA3D : Bool) (p : Overlap) :
    (∀ acts, Runs.Each exec (Legal p) (init haveSVGA3D) acts →
      (acts.foldl exec (init haveSVGA3D)).Safe) ↔
    (haveSVGA3D = true → p.creating = false ∧ p.destroying = false) := by
  constructor
  · rintro hsafe rfl
    constructor
    · by_contra hc
      exact not_safe_early (hsafe early (legal_early (by simpa using hc)))
    · by_contra hd
      exact not_safe_late (hsafe late (legal_late (by simpa using hd)))
  · intro hp acts hlegal
    cases haveSVGA3D with
    | false =>
      rw [foldl_init_false]
      exact fun t ht => by cases ht
    | true =>
      exact (Runs.foldl_of_each (inv_init true) (fun _ _ h hl => h.exec (hp rfl) hl) hlegal).safe

/-- Both runs are interleavings of matching calls; the second destroys a surface that was
created anew. -/
theorem not_safe_overlap :
    (Runs.Each exec (Legal ⟨true, true⟩) (init true) early ∧
      ¬ (early.foldl exec (init true)).Safe) ∧
    Runs.Each exec (Legal ⟨true, true⟩) (init true) late ∧
      ¬ (late.foldl exec (init true)).Safe :=
  ⟨⟨legal_early rfl, not_safe_early⟩, legal_late rfl, not_safe_late⟩

end Cesvga2.Accel.Master
