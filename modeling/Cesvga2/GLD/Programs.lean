import Cesvga2.Links.Linked
import Mathlib.Data.Set.Insert
import Mathlib.Logic.Relation

/-! The list of pipeline programs of a shared object. `gldCreatePipelineProgram` pushes a program
on the list without taking the mutex; `gldDestroyPipelineProgram` unlinks one under it and frees
it. Any number of calls run at a time, and each takes one step at a time: a load or a store of a
link, or an operation on the mutex or the allocator. A program is named by the call that made it,
so that a freed program is told from every later one. -/

namespace Cesvga2.GLD

open Links

/-- A `gld_pipeline_program_t*`. -/
inductive Ptr (α ι : Type*) where
  | null
  | initial (a : α)
  | created (i : ι)
  deriving DecidableEq

/-- Where a call of `gldCreatePipelineProgram` stands, with what it has loaded. -/
inductive CreatePc (α ι : Type*) where
  | calloc
  | init
  | testList
  | loadList
  | storePrev (r : Ptr α ι)
  | loadNext
  | storeNext (r : Ptr α ι)
  | storeList
  | output

/-- Where a call of `gldDestroyPipelineProgram` stands, with what it has loaded. -/
inductive DestroyPc (α ι : Type*) where
  | release
  | lock
  | testCount
  | deleteCached
  | testList
  | loadList
  | storeList (r : Ptr α ι)
  | testNext
  | loadNext
  | loadPrev (n : Ptr α ι)
  | storeNextPrev (n r : Ptr α ι)
  | testPrev
  | loadPrevOfPrev
  | loadNextOfPrev (m : Ptr α ι)
  | storePrevNext (m r : Ptr α ι)
  | unlock
  | deleteSys
  | free

inductive Pc (α ι : Type*) where
  | idle
  | create (c : CreatePc α ι)
  | destroy (p : Ptr α ι) (d : DestroyPc α ι)
  | returned

theorem Ptr.created_ne_null {α ι : Type*} (i : ι) : (created i : Ptr α ι) ≠ null := nofun

namespace Pc

variable {α ι : Type*}

theorem idle_ne_returned : (idle : Pc α ι) ≠ returned := nofun

theorem create_ne_returned (c : CreatePc α ι) : create c ≠ returned := nofun

theorem destroy_ne_returned (p : Ptr α ι) (d : DestroyPc α ι) : destroy p d ≠ returned := nofun

end Pc

/-- The shared object, with `needs_locking` set, and the programs. Memory that is not allocated yet
is zero, as `calloc` hands it out. The cached programs of a program are a list of its own, of which
the length is kept. -/
structure Memory (α ι : Type*) where
  ppList : Ptr α ι
  locked : Bool
  next : Ptr α ι → Ptr α ι
  prev : Ptr α ι → Ptr α ι
  ctxCount : Ptr α ι → ℕ
  freed : Ptr α ι → Bool

variable {α ι : Type*} [DecidableEq α] [DecidableEq ι]

namespace Memory

variable (m : Memory α ι)

/-- One step of the creation of `p`; nothing follows the last one. A store through a null pointer
stops the call for good. -/
def create (p : Ptr α ι) : CreatePc α ι → Option (Memory α ι × Option (CreatePc α ι))
  | .calloc => some (m, some .init)
  -- `f1`, `arg2` and `f3`, which nobody else reads
  | .init => some (m, some .testList)
  | .testList => some (m, some (if m.ppList = .null then .loadNext else .loadList))
  | .loadList => some (m, some (.storePrev m.ppList))
  | .storePrev r =>
    if r = .null then none
    else some ({ m with prev := Function.update m.prev r p }, some .loadNext)
  | .loadNext => some (m, some (.storeNext m.ppList))
  | .storeNext r => some ({ m with next := Function.update m.next p r }, some .storeList)
  | .storeList => some ({ m with ppList := p }, some .output)
  | .output => some (m, none)

/-- One step of the destruction of `p`. The lock is waited for. -/
def destroy (p : Ptr α ι) : DestroyPc α ι → Option (Memory α ι × Option (DestroyPc α ι))
  | .release => some (m, some .lock)
  | .lock => if m.locked then none else some ({ m with locked := true }, some .testCount)
  | .testCount => some (m, some (if m.ctxCount p = 0 then .testList else .deleteCached))
  | .deleteCached =>
    some ({ m with ctxCount := Function.update m.ctxCount p (m.ctxCount p - 1) }, some .testCount)
  | .testList => some (m, some (if m.ppList = p then .loadList else .testNext))
  | .loadList => some (m, some (.storeList (m.next p)))
  | .storeList r => some ({ m with ppList := r }, some .testNext)
  | .testNext => some (m, some (if m.next p = .null then .testPrev else .loadNext))
  | .loadNext => some (m, some (.loadPrev (m.next p)))
  | .loadPrev n => some (m, some (.storeNextPrev n (m.prev p)))
  | .storeNextPrev n r =>
    if n = .null then none
    else some ({ m with prev := Function.update m.prev n r }, some .testPrev)
  | .testPrev => some (m, some (if m.prev p = .null then .unlock else .loadPrevOfPrev))
  | .loadPrevOfPrev => some (m, some (.loadNextOfPrev (m.prev p)))
  | .loadNextOfPrev k => some (m, some (.storePrevNext k (m.next p)))
  | .storePrevNext k r =>
    if k = .null then none
    else some ({ m with next := Function.update m.next k r }, some .unlock)
  | .unlock => some ({ m with locked := false }, some .deleteSys)
  | .deleteSys => some (m, some .free)
  | .free => some ({ m with freed := Function.update m.freed p true }, none)

end Memory

/-- The program that the next step of a creation of `p` reads or writes. -/
def CreatePc.touches (p : Ptr α ι) : CreatePc α ι → Option (Ptr α ι)
  | .init | .storeNext _ => some p
  | .storePrev r => some r
  | _ => none

/-- The program that the next step of a destruction of `p` reads, writes or frees. -/
def DestroyPc.touches (p : Ptr α ι) : DestroyPc α ι → Option (Ptr α ι)
  | .lock | .testList | .storeList _ | .unlock => none
  | .storeNextPrev n _ => some n
  | .storePrevNext k _ => some k
  | _ => some p

structure State (α ι : Type*) where
  mem : Memory α ι
  pc : ι → Pc α ι

namespace State

variable (s : State α ι)

def goto (i : ι) (x : Pc α ι) : State α ι := { s with pc := Function.update s.pc i x }

/-- The next step of a call that has begun. -/
def exec (i : ι) : Option (State α ι) :=
  match s.pc i with
  | .idle | .returned => none
  | .create c => (s.mem.create (.created i) c).map fun r =>
      { s with mem := r.1 }.goto i (r.2.elim .returned .create)
  | .destroy p d => (s.mem.destroy p d).map fun r =>
      { s with mem := r.1 }.goto i (r.2.elim .returned (.destroy p))

def touches (i : ι) : Option (Ptr α ι) :=
  match s.pc i with
  | .idle | .returned => none
  | .create c => c.touches (.created i)
  | .destroy p d => d.touches p

/-- The calls that have returned. -/
def finished : Set ι := {i | s.pc i = .returned}

/-- No call is in progress. -/
def Quiet : Prop := ∀ i, s.pc i = .idle ∨ s.pc i = .returned

variable {s} {i j : ι}

omit [DecidableEq α]

theorem goto_pc_self (x : Pc α ι) : (s.goto i x).pc i = x := Function.update_self _ _ _

theorem goto_pc_of_ne (hij : i ≠ j) (x : Pc α ι) : (s.goto j x).pc i = s.pc i :=
  Function.update_of_ne hij _ _

end State

/-! ### Calls made together -/

inductive Call (α ι : Type*) where
  | create
  | destroy (p : Ptr α ι)

/-- The calls `ι`, made on a shared object whose programs are live at the start. Call `i` begins
after call `j` has returned if `after i j` says so; all else may overlap. Each `destroy` has a
program of its own, which is live at the start or made by one of the calls. -/
structure Workload (α ι : Type*) where
  programs : List α
  call : ι → Call α ι
  after : ι → ι → Prop
  ctxCount : Ptr α ι → ℕ
  nodup : programs.Nodup
  exists_program : ∀ {i p}, call i = .destroy p →
    (∃ a ∈ programs, p = .initial a) ∨ ∃ j, call j = .create ∧ p = .created j
  own : ∀ {i j p}, call i = .destroy p → call j = .destroy p → i = j

namespace Workload

variable (W : Workload α ι)

/-- Call `i` cannot begin before call `j` has returned. -/
def Needs (i j : ι) : Prop := W.after i j ∨ W.call i = .destroy (.created j)

def Ready (i : ι) (done : Set ι) : Prop := ∀ j, W.Needs i j → j ∈ done

/-- The counter of a call that has just begun. -/
def entry (i : ι) : Pc α ι :=
  match W.call i with
  | .create => .create .calloc
  | .destroy p => .destroy p .release

def live : List (Ptr α ι) := W.programs.map .initial

/-- The live programs are linked in order. -/
def start : State α ι where
  mem :=
    { ppList := W.live.headD .null
      locked := false
      next := fun p => Linked.follow .null p W.live
      prev := fun p => Linked.follow .null p W.live.reverse
      ctxCount := W.ctxCount
      freed := fun _ => false }
  pc _ := .idle

/-- A call begins or takes its next step. -/
inductive Step (i : ι) (s : State α ι) : State α ι → Prop
  | enter (hi : s.pc i = .idle) (hr : W.Ready i s.finished) :
      Step i s (s.goto i (W.entry i))
  | exec {s' : State α ι} (h : s.exec i = some s') : Step i s s'

/-- The states of all interleavings. -/
inductive Reachable : State α ι → Prop
  | start : Reachable W.start
  | step {s s' : State α ι} {i : ι} (h : Reachable s) (hs : W.Step i s s') : Reachable s'

/-- The program exists and no call has destroyed it. -/
def Live (s : State α ι) (p : Ptr α ι) : Prop :=
  ((∃ a ∈ W.programs, p = .initial a) ∨
    ∃ j, W.call j = .create ∧ s.pc j = .returned ∧ p = .created j) ∧
  ∀ j, W.call j = .destroy p → s.pc j ≠ .returned

/-- Over every interleaving: whenever no call is in progress the list holds the live programs,
linked both ways, and no step touches a freed program. -/
def Safe : Prop := ∀ s, W.Reachable s →
  (s.Quiet → ∃ l, Linked .null s.mem.prev s.mem.next s.mem.ppList l ∧ ∀ p, p ∈ l ↔ W.Live s p) ∧
  ∀ i s', W.Step i s s' → ∀ p ∈ s.touches i, s.mem.freed p = false

/-! ### One call at a time -/

/-- What a whole call does to the list. -/
def apply (i : ι) (l : List (Ptr α ι)) : List (Ptr α ι) :=
  match W.call i with
  | .create => .created i :: l
  | .destroy p => l.erase p

/-- The lists that calls made one after another lead to, with the calls made. -/
inductive Sequential : Set ι → List (Ptr α ι) → Prop
  | start : Sequential ∅ W.live
  | call {done : Set ι} {l : List (Ptr α ι)} {i : ι} (h : Sequential done l) (hi : i ∉ done)
      (hr : W.Ready i done) : Sequential (insert i done) (W.apply i l)

/-- Call `i` may be made next. -/
def Open (done : Set ι) (i : ι) : Prop := i ∉ done ∧ W.Ready i done

/-- Two calls that must not overlap on the list `l`: a creation, and a second one or the
destruction of the first program of the list. -/
def Clash (l : List (Ptr α ι)) (i j : ι) : Prop :=
  W.call i = .create ∧ (W.call j = .create ∨ ∃ p, W.call j = .destroy p ∧ l.head? = some p)

/-- Calls made one after another lead to a point where two that clash may both be made. -/
def Race : Prop := ∃ done l i j, W.Sequential done l ∧ i ≠ j ∧ W.Open done i ∧ W.Open done j ∧
  W.Clash l i j

variable {W} {done : Set ι} {l : List (Ptr α ι)} {i j : ι} {p : Ptr α ι}

omit [DecidableEq α] [DecidableEq ι] in
theorem Ready.mono {done' : Set ι} (h : W.Ready i done) (hsub : done ⊆ done') : W.Ready i done' :=
  fun j hj => hsub (h j hj)

/-- The program exists once the calls `done` are made. -/
def Made (W : Workload α ι) (done : Set ι) (p : Ptr α ι) : Prop :=
  (∃ a ∈ W.programs, p = .initial a) ∨ ∃ j ∈ done, W.call j = .create ∧ p = .created j

section Made

omit [DecidableEq α] [DecidableEq ι]

theorem made_insert :
    W.Made (insert i done) p ↔ W.Made done p ∨ (W.call i = .create ∧ p = .created i) := by
  simp only [Made, Set.exists_mem_insert]
  exact (or_congr_right or_comm).trans or_assoc.symm

theorem not_made_created (hi : i ∉ done) : ¬ W.Made done (.created i) := by
  rintro (⟨a, -, he⟩ | ⟨j, hj, -, he⟩)
  · cases he
  · cases he
    exact hi hj

end Made

namespace Sequential

/-- A call is made after those that it needs. -/
theorem closed (h : W.Sequential done l) (hj : j ∈ done) (hn : W.Needs j i) : i ∈ done := by
  induction h with
  | start => exact absurd hj (Set.notMem_empty j)
  | @call done l k _ _ hr ih =>
    rcases Set.mem_insert_iff.mp hj with rfl | hj
    · exact Set.mem_insert_of_mem _ (hr i hn)
    · exact Set.mem_insert_of_mem _ (ih hj)

theorem nodup_apply (hnd : l.Nodup) (hnew : .created i ∉ l) : (W.apply i l).Nodup := by
  rw [apply]
  cases W.call i with
  | create => exact List.nodup_cons.mpr ⟨hnew, hnd⟩
  | destroy q => exact hnd.erase q

theorem mem_apply (h : W.Sequential done l) (hi : i ∉ done) (hnd : l.Nodup)
    (hmem : ∀ p, p ∈ l ↔ W.Made done p ∧ ∀ j ∈ done, W.call j ≠ .destroy p) (p : Ptr α ι) :
    p ∈ W.apply i l ↔ W.Made (insert i done) p ∧ ∀ j ∈ insert i done, W.call j ≠ .destroy p := by
  rw [apply, made_insert, Set.forall_mem_insert]
  cases hc : W.call i with
  | create =>
    -- nobody has destroyed a program before it was made
    have hown : p = .created i → ∀ j ∈ done, W.call j ≠ .destroy p := by
      rintro rfl j hj hcall
      exact hi (h.closed hj (.inr hcall))
    simp only [List.mem_cons, hmem]
    tauto
  | destroy q =>
    simp only [hnd.mem_erase_iff, hmem, ne_eq, Call.destroy.injEq, reduceCtorEq, false_and,
      or_false, eq_comm (a := q)]
    tauto

/-- The list holds the programs that exist and were not destroyed, once each. -/
theorem nodup_and_mem (h : W.Sequential done l) :
    l.Nodup ∧ ∀ p, p ∈ l ↔ W.Made done p ∧ ∀ j ∈ done, W.call j ≠ .destroy p := by
  induction h with
  | start =>
    refine ⟨W.nodup.map fun a b hab => Ptr.initial.inj hab, fun p => ?_⟩
    simp [live, Made, eq_comm]
  | @call done l i h hi _ ih =>
    obtain ⟨hnd, hmem⟩ := ih
    have hnew : .created i ∉ l := fun hl => not_made_created hi ((hmem _).mp hl).1
    exact ⟨nodup_apply hnd hnew, h.mem_apply hi hnd hmem⟩

theorem mem_iff (h : W.Sequential done l) :
    p ∈ l ↔ W.Made done p ∧ ∀ j ∈ done, W.call j ≠ .destroy p :=
  h.nodup_and_mem.2 p

theorem null_notMem (h : W.Sequential done l) : .null ∉ l := by
  rw [h.mem_iff]
  rintro ⟨⟨a, -, he⟩ | ⟨j, -, -, he⟩, -⟩ <;> cases he

theorem created_notMem (h : W.Sequential done l) (hi : i ∉ done) : .created i ∉ l :=
  fun hl => not_made_created hi (h.mem_iff.mp hl).1

/-- The program of a call that may be made is on the list. -/
theorem target_mem (h : W.Sequential done l) (hi : W.Open done i) (hc : W.call i = .destroy p) :
    p ∈ l := by
  rw [h.mem_iff]
  refine ⟨(W.exists_program hc).imp_right ?_, fun j hj hcj => hi.1 (W.own hc hcj ▸ hj)⟩
  rintro ⟨j, hcj, rfl⟩
  exact ⟨j, hi.2 j (.inr hc), hcj, rfl⟩

end Sequential

end Workload

end Cesvga2.GLD
