import Cesvga2.GLD.Programs
import Cesvga2.Links.Pending

/-! How far each call on the list of pipeline programs has come. A call takes effect on the list
with the last link that it writes there, and until then the list is the one without it. `Book` is
what holds of the calls, the mutex and the allocator, and `Shape` what holds of the links; here is
what each step does to the two. -/

namespace Cesvga2.GLD

open Links

variable {α ι : Type*} [DecidableEq α] [DecidableEq ι]

/-! ### How far a call has come -/

/-- The old head points back to the new program, or there was no old head. -/
def CreatePc.Backed : CreatePc α ι → Prop
  | .loadNext | .storeNext _ | .storeList => True
  | _ => False

/-- The call has taken effect. -/
def CreatePc.Done : CreatePc α ι → Prop
  | .output => True
  | _ => False

namespace DestroyPc

/-- The head of the list has moved on if it was the program. -/
def Moved : DestroyPc α ι → Prop
  | .testNext | .loadNext | .loadPrev _ | .storeNextPrev _ _ | .testPrev | .loadPrevOfPrev
  | .loadNextOfPrev _ | .storePrevNext _ _ => True
  | _ => False

/-- The successor points past the program. -/
def Joined : DestroyPc α ι → Prop
  | .testPrev | .loadPrevOfPrev | .loadNextOfPrev _ | .storePrevNext _ _ => True
  | _ => False

def Done : DestroyPc α ι → Prop
  | .unlock | .deleteSys | .free => True
  | _ => False

/-- The call has the mutex. -/
def Holds : DestroyPc α ι → Prop
  | .release | .lock | .deleteSys | .free => False
  | _ => True

end DestroyPc

namespace Pc

def Backed : Pc α ι → Prop
  | .create c => c.Backed
  | _ => False

def Moved (p : Ptr α ι) : Pc α ι → Prop
  | .destroy q d => q = p ∧ d.Moved
  | _ => False

def Joined (p : Ptr α ι) : Pc α ι → Prop
  | .destroy q d => q = p ∧ d.Joined
  | _ => False

def Holds : Pc α ι → Prop
  | .destroy _ d => d.Holds
  | _ => False

/-- The call has begun and not taken effect yet. -/
def Pending : Pc α ι → Prop
  | .create c => ¬ c.Done
  | .destroy _ d => ¬ d.Done
  | _ => False

end Pc

namespace Pc

variable {x : Pc α ι} {p : Ptr α ι}

omit [DecidableEq α] [DecidableEq ι]

theorem Backed.exists_create (h : x.Backed) : ∃ c, x = .create c ∧ c.Backed := by
  cases x with
  | create c => exact ⟨c, rfl, h⟩
  | _ => exact h.elim

theorem Backed.pending (h : x.Backed) : x.Pending := by
  obtain ⟨c, rfl, hc⟩ := h.exists_create
  cases c <;> first | exact id | exact hc.elim

theorem Moved.exists_destroy (h : x.Moved p) : ∃ d, x = .destroy p d ∧ d.Moved := by
  cases x with
  | destroy q d => exact ⟨d, by rw [h.1], h.2⟩
  | _ => exact h.elim

theorem Moved.holds (h : x.Moved p) : x.Holds := by
  obtain ⟨d, rfl, hd⟩ := h.exists_destroy
  cases d <;> first | exact trivial | exact hd.elim

theorem Moved.pending (h : x.Moved p) : x.Pending := by
  obtain ⟨d, rfl, hd⟩ := h.exists_destroy
  cases d <;> first | exact id | exact hd.elim

theorem Joined.moved (h : x.Joined p) : x.Moved p := by
  cases x with
  | destroy q d =>
    refine ⟨h.1, ?_⟩
    obtain ⟨-, hd⟩ := h
    cases d <;> first | exact trivial | exact hd.elim
  | _ => exact h.elim

end Pc

/-- What a creation of `p` knows of the list whose first program is `first`. -/
def CreatePc.Local (m : Memory α ι) (p first : Ptr α ι) : CreatePc α ι → Prop
  | .loadList => first ≠ .null
  | .storePrev r => r = first ∧ first ≠ .null
  | .storeNext r => r = first
  | .storeList => m.next p = first
  | _ => True

def DestroyPc.Local (m : Memory α ι) (p first : Ptr α ι) : DestroyPc α ι → Prop
  | .deleteCached => m.ctxCount p ≠ 0
  | .loadList => p = first
  | .storeList r => p = first ∧ r = m.next p
  | .loadNext => m.next p ≠ .null
  | .loadPrev n => n = m.next p ∧ n ≠ .null
  | .storeNextPrev n r => n = m.next p ∧ n ≠ .null ∧ r = m.prev p
  | .loadPrevOfPrev => m.prev p ≠ .null
  | .loadNextOfPrev k => k = m.prev p ∧ k ≠ .null
  | .storePrevNext k r => k = m.prev p ∧ k ≠ .null ∧ r = m.next p
  | _ => True

def Pc.Local (m : Memory α ι) (i : ι) (first : Ptr α ι) : Pc α ι → Prop
  | .create c => c.Local m (.created i) first
  | .destroy p d => d.Local m p first
  | _ => True

section Local

variable {m m' : Memory α ι} {p first first' : Ptr α ι} {c : CreatePc α ι} {d : DestroyPc α ι}

omit [DecidableEq α] [DecidableEq ι]

theorem CreatePc.local_of_done (h : c.Done) : c.Local m p first := by
  cases c <;> first | exact trivial | exact h.elim

theorem CreatePc.Local.congr (h : c.Local m p first) (hn : m'.next p = m.next p) :
    c.Local m' p first := by
  cases c with
  | storeList => exact hn.trans h
  | _ => exact h

theorem DestroyPc.local_of_done (h : d.Done) : d.Local m p first := by
  cases d <;> first | exact trivial | exact h.elim

theorem DestroyPc.local_of_not_holds (h : ¬ d.Holds) : d.Local m p first := by
  cases d <;> first | exact trivial | exact (h trivial).elim

theorem Pc.local_congr {x : Pc α ι} {i : ι} (hn : m'.next = m.next) (hp : m'.prev = m.prev)
    (hc : m'.ctxCount = m.ctxCount) (h : x.Local m i first) : x.Local m' i first := by
  obtain ⟨_, _, next, prev, count, _⟩ := m
  obtain ⟨_, _, next', prev', count', _⟩ := m'
  subst hn hp hc
  cases x with
  | idle | returned => exact trivial
  | create c => cases c <;> exact h
  | destroy q d => cases d <;> exact h

/-- What is known of a program that is not the first one does not depend on which one is. -/
theorem DestroyPc.Local.congr (h : d.Local m p first) (hne : p ≠ first)
    (hn : m'.next p = m.next p) (hp : m'.prev p = m.prev p) (hc : m'.ctxCount p = m.ctxCount p) :
    d.Local m' p first' := by
  cases d with
  | loadList => exact absurd h hne
  | storeList r => exact absurd h.1 hne
  | deleteCached => exact hc.trans_ne h
  | loadNext => exact hn.trans_ne h
  | loadPrev n => exact ⟨h.1.trans hn.symm, h.2⟩
  | storeNextPrev n r => exact ⟨h.1.trans hn.symm, h.2.1, h.2.2.trans hp.symm⟩
  | loadPrevOfPrev => exact hp.trans_ne h
  | loadNextOfPrev k => exact ⟨h.1.trans hp.symm, h.2⟩
  | storePrevNext k r => exact ⟨h.1.trans hp.symm, h.2.1, h.2.2.trans hn.symm⟩
  | _ => exact trivial

end Local

namespace State

variable (s : State α ι)

def Backed (b : Ptr α ι) : Prop := ∃ i, (s.pc i).Backed ∧ b = .created i

def Moved (p : Ptr α ι) : Prop := ∃ i, (s.pc i).Moved p

def Joined (p : Ptr α ι) : Prop := ∃ i, (s.pc i).Joined p

end State

namespace Workload

variable {W : Workload α ι} {s : State α ι} {done : Set ι} {l : List (Ptr α ι)} {i j : ι}
  {m : Memory α ι} {x y : Pc α ι} {p : Ptr α ι}

/-! ### The calls -/

/-- The counter of call `i` is one of its own function, and agrees with the calls done. -/
def Fits (W : Workload α ι) (done : Set ι) (i : ι) : Pc α ι → Prop
  | .idle => i ∉ done
  | .create c => W.call i = .create ∧ W.Ready i done ∧ (i ∈ done ↔ c.Done)
  | .destroy p d => W.call i = .destroy p ∧ W.Ready i done ∧ (i ∈ done ↔ d.Done)
  | .returned => i ∈ done

/-- The state of the calls, of the mutex and of the allocator. -/
structure Book (W : Workload α ι) (s : State α ι) (done : Set ι) (l : List (Ptr α ι)) :
    Prop where
  seq : W.Sequential done l
  fits : ∀ i, W.Fits done i (s.pc i)
  locked : s.mem.locked = true ↔ ∃ i, (s.pc i).Holds
  holder : ∀ {i j}, (s.pc i).Holds → (s.pc j).Holds → i = j
  freed : ∀ p, s.mem.freed p = true ↔ ∃ i, W.call i = .destroy p ∧ s.pc i = .returned

omit [DecidableEq α] [DecidableEq ι] in
theorem Fits.open_of_pending (h : W.Fits done i x) (hp : x.Pending) : W.Open done i := by
  cases x with
  | idle | returned => exact hp.elim
  | create c | destroy p d => exact ⟨fun hi => hp (h.2.2.mp hi), h.2.1⟩

omit [DecidableEq α] [DecidableEq ι] in
/-- A call that another one does not need stays as it is when that one takes effect. -/
theorem Fits.mono (h : W.Fits done j x) (hne : j ≠ i) : W.Fits (insert i done) j x := by
  have hiff : j ∈ insert i done ↔ j ∈ done := Set.mem_insert_iff.trans (or_iff_right hne)
  cases x with
  | idle => exact fun hj => h (hiff.mp hj)
  | returned => exact hiff.mpr h
  | create c | destroy p d =>
    exact ⟨h.1, h.2.1.mono (Set.subset_insert i done), hiff.trans h.2.2⟩

omit [DecidableEq α] in
theorem exists_update_iff {P : ι → Pc α ι → Prop} {pc : ι → Pc α ι} :
    (∃ j, P j (Function.update pc i y j)) ↔ P i y ∨ ∃ j, j ≠ i ∧ P j (pc j) := by
  constructor
  · rintro ⟨j, hj⟩
    by_cases hji : j = i
    · subst hji
      rw [Function.update_self] at hj
      exact .inl hj
    · rw [Function.update_of_ne hji] at hj
      exact .inr ⟨j, hji, hj⟩
  · rintro (hy | ⟨j, hji, hj⟩)
    · exact ⟨i, by rwa [Function.update_self]⟩
    · exact ⟨j, by rwa [Function.update_of_ne hji]⟩

omit [DecidableEq α] [DecidableEq ι] in
theorem exists_iff_or {P : ι → Pc α ι → Prop} {pc : ι → Pc α ι} (i : ι) :
    (∃ j, P j (pc j)) ↔ P i (pc i) ∨ ∃ j, j ≠ i ∧ P j (pc j) := by
  classical
  have h : (∃ j, P j (Function.update pc i (pc i) j)) ↔ _ := exists_update_iff
  rwa [Function.update_eq_self] at h

namespace Book

variable {done' : Set ι} {l' : List (Ptr α ι)}

/-- One call moves on to the counter `y`. -/
theorem step (h : Book W s done l) (hseq : W.Sequential done' l')
    (hfits : ∀ j, j ≠ i → W.Fits done' j (s.pc j)) (hy : W.Fits done' i y)
    (hlocked : m.locked = true ↔ y.Holds ∨ ∃ j, j ≠ i ∧ (s.pc j).Holds)
    (hholder : y.Holds → ∀ j, j ≠ i → ¬ (s.pc j).Holds)
    (hfreed : ∀ q, m.freed q = true ↔
      s.mem.freed q = true ∨ (y = .returned ∧ W.call i = .destroy q))
    (hpc : s.pc i ≠ .returned) : Book W (({ s with mem := m } : State α ι).goto i y) done' l' := by
  refine ⟨hseq, fun j => ?_, hlocked.trans (exists_update_iff (P := fun _ x => x.Holds)).symm,
    fun {j k} hj hk => ?_, fun q => ?_⟩
  · by_cases hj : j = i
    · rwa [hj, State.goto_pc_self]
    · rw [State.goto_pc_of_ne hj]
      exact hfits j hj
  · by_cases hji : j = i <;> by_cases hki : k = i
    · rw [hji, hki]
    · rw [hji, State.goto_pc_self] at hj
      rw [State.goto_pc_of_ne hki] at hk
      exact absurd hk (hholder hj k hki)
    · rw [hki, State.goto_pc_self] at hk
      rw [State.goto_pc_of_ne hji] at hj
      exact absurd hj (hholder hk j hji)
    · rw [State.goto_pc_of_ne hji] at hj
      rw [State.goto_pc_of_ne hki] at hk
      exact h.holder hj hk
  · refine (hfreed q).trans ?_
    rw [h.freed]
    constructor
    · rintro (⟨j, hcall, hj⟩ | ⟨hyr, hcall⟩)
      · refine ⟨j, hcall, ?_⟩
        have hji : j ≠ i := fun he => hpc (he ▸ hj)
        exact (State.goto_pc_of_ne hji y).trans hj
      · exact ⟨i, hcall, (State.goto_pc_self y).trans hyr⟩
    · rintro ⟨j, hcall, hj⟩
      by_cases hji : j = i
      · rw [hji, State.goto_pc_self] at hj
        exact .inr ⟨hj, hji ▸ hcall⟩
      · rw [State.goto_pc_of_ne hji] at hj
        exact .inl ⟨j, hcall, hj⟩

/-- A step that leaves the mutex and the allocator alone. -/
theorem move (h : Book W s done l) (hseq : W.Sequential done' l')
    (hfits : ∀ j, j ≠ i → W.Fits done' j (s.pc j)) (hy : W.Fits done' i y)
    (hl : m.locked = s.mem.locked) (hf : m.freed = s.mem.freed)
    (hholds : y.Holds ↔ (s.pc i).Holds) (hpc : s.pc i ≠ .returned)
    (hret : y = .returned → W.call i = .create) :
    Book W (({ s with mem := m } : State α ι).goto i y) done' l' := by
  refine h.step hseq hfits hy ?_ (fun hyh j hji hj => ?_) (fun q => ?_) hpc
  · rw [hl, h.locked, hholds]
    exact exists_iff_or (P := fun _ x => x.Holds) i
  · exact hji (h.holder hj (hholds.mp hyh))
  · rw [hf]
    refine (or_iff_left ?_).symm
    rintro ⟨hyr, hcall⟩
    rw [hret hyr] at hcall
    cases hcall

theorem goto (h : Book W s done l) (hy : W.Fits done i y) (hl : m.locked = s.mem.locked)
    (hf : m.freed = s.mem.freed) (hholds : y.Holds ↔ (s.pc i).Holds) (hpc : s.pc i ≠ .returned)
    (hret : y = .returned → W.call i = .create) :
    Book W (({ s with mem := m } : State α ι).goto i y) done l :=
  h.move h.seq (fun j _ => h.fits j) hy hl hf hholds hpc hret

section Counters

variable {c c' : CreatePc α ι} {d d' : DestroyPc α ι}

theorem gotoCreate (h : Book W s done l) (hi : s.pc i = .create c) (hd : c'.Done ↔ c.Done)
    (hl : m.locked = s.mem.locked) (hf : m.freed = s.mem.freed) :
    Book W (({ s with mem := m } : State α ι).goto i (.create c')) done l := by
  have hfit := h.fits i
  rw [hi] at hfit
  refine h.goto ⟨hfit.1, hfit.2.1, hfit.2.2.trans hd.symm⟩ hl hf ?_
    (hi.trans_ne (Pc.create_ne_returned c)) fun he => absurd he (Pc.create_ne_returned c')
  rw [hi]
  exact Iff.rfl

theorem gotoDestroy (h : Book W s done l) (hi : s.pc i = .destroy p d) (hd : d'.Done ↔ d.Done)
    (hh : d'.Holds ↔ d.Holds) (hl : m.locked = s.mem.locked) (hf : m.freed = s.mem.freed) :
    Book W (({ s with mem := m } : State α ι).goto i (.destroy p d')) done l := by
  have hfit := h.fits i
  rw [hi] at hfit
  refine h.goto ⟨hfit.1, hfit.2.1, hfit.2.2.trans hd.symm⟩ hl hf ?_
    (hi.trans_ne (Pc.destroy_ne_returned p d)) fun he => absurd he (Pc.destroy_ne_returned p d')
  rw [hi]
  exact hh

/-- A destruction takes the mutex. -/
theorem lock (h : Book W s done l) (hi : s.pc i = .destroy p .lock) (hl : s.mem.locked = false) :
    Book W (({ s with mem := { s.mem with locked := true } } : State α ι).goto i
      (.destroy p .testCount)) done l := by
  have hfit := h.fits i
  rw [hi] at hfit
  have hfree : ∀ j, ¬ (s.pc j).Holds := fun j hj => by
    rw [h.locked.mpr ⟨j, hj⟩] at hl
    cases hl
  exact h.step h.seq (fun j _ => h.fits j) hfit (iff_of_true rfl (.inl trivial))
    (fun _ j _ => hfree j) (fun q => (or_iff_left fun he => Pc.destroy_ne_returned _ _ he.1).symm)
    (hi.trans_ne (Pc.destroy_ne_returned _ _))

theorem unlock (h : Book W s done l) (hi : s.pc i = .destroy p .unlock) :
    Book W (({ s with mem := { s.mem with locked := false } } : State α ι).goto i
      (.destroy p .deleteSys)) done l := by
  have hfit := h.fits i
  rw [hi] at hfit
  have hothers : ¬ ∃ j, j ≠ i ∧ (s.pc j).Holds := by
    rintro ⟨j, hj, hh⟩
    exact hj (h.holder hh (by rw [hi]; exact trivial))
  exact h.step h.seq (fun j _ => h.fits j) hfit
    (iff_of_false Bool.false_ne_true fun hor => hor.elim id hothers) (fun hf => hf.elim)
    (fun q => (or_iff_left fun he => Pc.destroy_ne_returned _ _ he.1).symm)
    (hi.trans_ne (Pc.destroy_ne_returned _ _))

/-- A destruction frees its program and returns. -/
theorem free (h : Book W s done l) (hi : s.pc i = .destroy p .free) :
    Book W (({ s with mem := { s.mem with freed := Function.update s.mem.freed p true } } :
      State α ι).goto i .returned) done l := by
  have hfit := h.fits i
  rw [hi] at hfit
  refine h.step h.seq (fun j _ => h.fits j) (hfit.2.2.mpr trivial) ?_ (fun hf => hf.elim)
    (fun q => ?_) (hi.trans_ne (Pc.destroy_ne_returned _ _))
  · refine h.locked.trans ((exists_iff_or (P := fun _ x => x.Holds) i).trans ?_)
    rw [hi]
    exact Iff.rfl
  · show Function.update s.mem.freed p true q = true ↔ _
    by_cases hq : q = p
    · rw [hq, Function.update_self]
      exact iff_of_true rfl (.inr ⟨rfl, hfit.1⟩)
    · rw [Function.update_of_ne hq]
      refine (or_iff_left ?_).symm
      rintro ⟨-, hcall⟩
      rw [hfit.1] at hcall
      cases hcall
      exact hq rfl

end Counters

/-- The step with which a call takes effect. -/
theorem effect (h : Book W s done l) (hi : W.Open done i) (hy : W.Fits (insert i done) i y)
    (hl : m.locked = s.mem.locked) (hf : m.freed = s.mem.freed)
    (hholds : y.Holds ↔ (s.pc i).Holds) (hpc : s.pc i ≠ .returned) (hret : y ≠ .returned) :
    Book W (({ s with mem := m } : State α ι).goto i y) (insert i done) (W.apply i l) :=
  h.move (h.seq.call hi.1 hi.2) (fun j hj => (h.fits j).mono hj) hy hl hf hholds hpc
    fun he => absurd he hret

end Book

/-! ### The list -/

/-- The counters stand at the same stage of the work on the list. -/
structure SameStage (x y : Pc α ι) : Prop where
  backed : y.Backed ↔ x.Backed
  moved : ∀ p, y.Moved p ↔ x.Moved p
  joined : ∀ p, y.Joined p ↔ x.Joined p

omit [DecidableEq α] [DecidableEq ι] in
theorem SameStage.create {c c' : CreatePc α ι} (hb : c'.Backed ↔ c.Backed) :
    SameStage (.create c) (.create c') :=
  ⟨hb, fun _ => Iff.rfl, fun _ => Iff.rfl⟩

omit [DecidableEq α] [DecidableEq ι] in
theorem SameStage.destroy {d d' : DestroyPc α ι} (hm : d'.Moved ↔ d.Moved)
    (hj : d'.Joined ↔ d.Joined) : SameStage (.destroy p d) (.destroy p d') :=
  ⟨Iff.rfl, fun _ => and_congr_right fun _ => hm, fun _ => and_congr_right fun _ => hj⟩

/-- The list `l` with the work under way on it; `first` is its first program. -/
structure Shape (W : Workload α ι) (s : State α ι) (done : Set ι) (l : List (Ptr α ι))
    (prev₀ : Ptr α ι → Ptr α ι) (first : Ptr α ι) : Prop where
  zero : ∀ {i}, i ∉ done → s.mem.prev (.created i) = .null
  pending : Links.Pending .null s.Backed s.Moved s.Joined s.mem.prev s.mem.next s.mem.ppList
    prev₀ first l
  knows : ∀ i, (s.pc i).Local s.mem i first

/-- No two calls in progress clash. -/
def Calm (W : Workload α ι) (s : State α ι) (l : List (Ptr α ι)) : Prop :=
  ∀ i j, i ≠ j → (s.pc i).Pending → (s.pc j).Pending → ¬ W.Clash l i j

section Stages

omit [DecidableEq α]

theorem goto_backed (hb : y.Backed ↔ (s.pc i).Backed) (b : Ptr α ι) :
    (({ s with mem := m } : State α ι).goto i y).Backed b ↔ s.Backed b := by
  refine (exists_update_iff (P := fun j x => x.Backed ∧ b = .created j)).trans ?_
  rw [hb]
  exact (exists_iff_or (P := fun j x => x.Backed ∧ b = .created j) i).symm

theorem goto_moved (hm : ∀ p, y.Moved p ↔ (s.pc i).Moved p) (p : Ptr α ι) :
    (({ s with mem := m } : State α ι).goto i y).Moved p ↔ s.Moved p := by
  refine (exists_update_iff (P := fun _ x => x.Moved p)).trans ?_
  rw [hm]
  exact (exists_iff_or (P := fun _ x => x.Moved p) i).symm

theorem goto_joined (hj : ∀ p, y.Joined p ↔ (s.pc i).Joined p) (p : Ptr α ι) :
    (({ s with mem := m } : State α ι).goto i y).Joined p ↔ s.Joined p := by
  refine (exists_update_iff (P := fun _ x => x.Joined p)).trans ?_
  rw [hj]
  exact (exists_iff_or (P := fun _ x => x.Joined p) i).symm

end Stages

/-- While call `i` has the mutex no other call unlinks a program. -/
theorem Book.moved_iff (h : Book W s done l) (hi : (s.pc i).Holds) (p : Ptr α ι) :
    s.Moved p ↔ (s.pc i).Moved p := by
  constructor
  · rintro ⟨j, hj⟩
    rwa [← h.holder hj.holds hi]
  · exact fun hp => ⟨i, hp⟩

theorem Book.joined_iff (h : Book W s done l) (hi : (s.pc i).Holds) (p : Ptr α ι) :
    s.Joined p ↔ (s.pc i).Joined p := by
  constructor
  · rintro ⟨j, hj⟩
    rwa [← h.holder hj.moved.holds hi]
  · exact fun hp => ⟨i, hp⟩

omit [DecidableEq α] [DecidableEq ι] in
theorem Shape.first_eq {prev₀ : Ptr α ι → Ptr α ι} {first : Ptr α ι}
    (h : Shape W s done l prev₀ first) (hp : p ∈ l) : l.head? = some p ↔ p = first := by
  rw [h.pending.linked.head_eq]
  cases l with
  | nil => exact absurd hp List.not_mem_nil
  | cons q l => simp [eq_comm]

namespace Calm

variable {prev₀ : Ptr α ι → Ptr α ι} {first : Ptr α ι} {c : CreatePc α ι}

/-- A creation in progress is the only one. -/
theorem not_backed (h : W.Calm s l) (hB : Book W s done l) (hi : s.pc i = .create c)
    (hc : ¬ c.Done) (hj : j ≠ i) : ¬ (s.pc j).Backed := by
  intro hb
  obtain ⟨c', hpc, -⟩ := hb.exists_create
  have hci := hB.fits i
  have hcj := hB.fits j
  rw [hi] at hci
  rw [hpc] at hcj
  exact h i j hj.symm (by rw [hi]; exact hc) hb.pending ⟨hci.1, .inl hcj.1⟩

/-- No program that is being destroyed is the first one while another is being created. -/
theorem ne_first (h : W.Calm s l) (hB : Book W s done l) (hS : Shape W s done l prev₀ first)
    (hi : s.pc i = .create c) (hc : ¬ c.Done) {d : DestroyPc α ι} (hj : s.pc j = .destroy p d)
    (hd : ¬ d.Done) : p ≠ first := by
  intro he
  have hci := hB.fits i
  have hcj := hB.fits j
  have hpj : (s.pc j).Pending := by rw [hj]; exact hd
  have hne : i ≠ j := by
    rintro rfl
    rw [hi] at hj
    cases hj
  have hmem := hB.seq.target_mem (hcj.open_of_pending hpj) (by rw [hj] at hcj; exact hcj.1)
  rw [hi] at hci
  rw [hj] at hcj
  exact h i j hne (by rw [hi]; exact hc) hpj
    ⟨hci.1, .inr ⟨p, hcj.1, (hS.first_eq hmem).mpr he⟩⟩

/-- While a program is being created the head of the list is the first program. -/
theorem not_moved (h : W.Calm s l) (hB : Book W s done l) (hS : Shape W s done l prev₀ first)
    (hi : s.pc i = .create c) (hc : ¬ c.Done) : ¬ s.Moved first := by
  rintro ⟨j, hj⟩
  obtain ⟨d, hpc, -⟩ := hj.exists_destroy
  have hpend := hj.pending
  rw [hpc] at hpend
  exact h.ne_first hB hS hi hc hpc hpend rfl

theorem ppList_eq (h : W.Calm s l) (hB : Book W s done l) (hS : Shape W s done l prev₀ first)
    (hi : s.pc i = .create c) (hc : ¬ c.Done) : s.mem.ppList = first :=
  hS.pending.head_eq (h.not_moved hB hS hi hc)

/-- What the other calls know survives the steps of a creation. -/
theorem knows (h : W.Calm s l) (hB : Book W s done l) (hS : Shape W s done l prev₀ first)
    (hi : s.pc i = .create c) (hc : ¬ c.Done) (hn : ∀ q ∈ l, m.next q = s.mem.next q)
    (hp : ∀ q ∈ l, q ≠ first → m.prev q = s.mem.prev q) (hcount : m.ctxCount = s.mem.ctxCount)
    (first' : Ptr α ι) (hj : j ≠ i) : (s.pc j).Local m j first' := by
  have hk := hS.knows j
  have hci := hB.fits i
  have hcj := hB.fits j
  rw [hi] at hci
  cases hpc : s.pc j with
  | idle | returned => exact trivial
  | create c' =>
    by_cases hd : c'.Done
    · exact c'.local_of_done hd
    · rw [hpc] at hcj
      exact absurd ⟨hci.1, .inl hcj.1⟩
        (h i j hj.symm (by rw [hi]; exact hc) (by rw [hpc]; exact hd))
  | destroy q d =>
    by_cases hd : d.Done
    · exact d.local_of_done hd
    · have hne := h.ne_first hB hS hi hc hpc hd
      have hmem := hB.seq.target_mem (hcj.open_of_pending (by rw [hpc]; exact hd))
        (by rw [hpc] at hcj; exact hcj.1)
      rw [hpc] at hk
      exact hk.congr hne (hn q hmem) (hp q hmem hne) (congrFun hcount q)

end Calm

/-- What the other calls know survives the steps of the call that has the mutex. -/
theorem Book.knows {prev₀ : Ptr α ι → Ptr α ι} {first first' : Ptr α ι} (hB : Book W s done l)
    (hS : Shape W s done l prev₀ first) (hi : (s.pc i).Holds)
    (hn : ∀ j, j ∉ done → m.next (.created j) = s.mem.next (.created j))
    (hfirst : ∀ j c, s.pc j = .create c → ¬ c.Done → first' = first) (hj : j ≠ i) :
    (s.pc j).Local m j first' := by
  have hk := hS.knows j
  have hcj := hB.fits j
  cases hpc : s.pc j with
  | idle | returned => exact trivial
  | create c =>
    by_cases hd : c.Done
    · exact c.local_of_done hd
    · rw [hpc] at hk hcj
      rw [hfirst j c hpc hd]
      exact hk.congr (hn j fun hjd => hd (hcj.2.2.mp hjd))
  | destroy q d =>
    refine d.local_of_not_holds fun hd => hj ?_
    exact hB.holder (by rw [hpc]; exact hd) hi

namespace Shape

variable {prev₀ : Ptr α ι → Ptr α ι} {first : Ptr α ι} {c : CreatePc α ι} {d : DestroyPc α ι}

omit [DecidableEq α] in
/-- What each call knows after a step of call `i`. -/
theorem knows_goto (hy : y.Local m i first) (hknows : ∀ j, j ≠ i → (s.pc j).Local m j first)
    (j : ι) : ((({ s with mem := m } : State α ι).goto i y).pc j).Local m j first := by
  by_cases hj : j = i
  · rwa [hj, State.goto_pc_self]
  · rw [State.goto_pc_of_ne hj]
    exact hknows j hj

omit [DecidableEq α] in
/-- A step that writes no link and stays at its stage. -/
theorem goto (h : Shape W s done l prev₀ first) (hst : SameStage (s.pc i) y)
    (hnext : m.next = s.mem.next) (hprev : m.prev = s.mem.prev) (hhead : m.ppList = s.mem.ppList)
    (hy : y.Local m i first) (hknows : ∀ j, j ≠ i → (s.pc j).Local m j first) :
    Shape W (({ s with mem := m } : State α ι).goto i y) done l prev₀ first := by
  refine ⟨fun hi => ?_, ?_, fun j => ?_⟩
  · show m.prev _ = _
    rw [hprev]
    exact h.zero hi
  · show Links.Pending _ _ _ _ m.prev m.next m.ppList _ _ _
    rw [hnext, hprev, hhead]
    exact h.pending.congr (goto_backed hst.backed) (goto_moved hst.moved) (goto_joined hst.joined)
  · exact knows_goto hy hknows j

omit [DecidableEq α] in
/-- The steps that leave the links alone: those on the mutex, on the cached programs and on the
allocator. -/
theorem keep (h : Shape W s done l prev₀ first)
    (hst : SameStage (s.pc i) y) (hy : y.Local m i first) (hnext : m.next = s.mem.next)
    (hprev : m.prev = s.mem.prev) (hhead : m.ppList = s.mem.ppList)
    (hcount : m.ctxCount = s.mem.ctxCount) :
    Shape W (({ s with mem := m } : State α ι).goto i y) done l prev₀ first :=
  h.goto hst hnext hprev hhead hy fun j _ => Pc.local_congr hnext hprev hcount (h.knows j)

/-! The four links that a creation writes. -/

section Create

variable (hB : Book W s done l) (h : Shape W s done l prev₀ first) (hcalm : W.Calm s l)
  (hi : s.pc i = .create c)

include hB h hcalm hi

/-- The old head points back to the new program. -/
theorem writeBack (hb : ¬ c.Backed) (hc : ¬ c.Done) (hnext : m.next = s.mem.next)
    (hhead : m.ppList = s.mem.ppList) (hcount : m.ctxCount = s.mem.ctxCount)
    (hfirst : first ≠ .null → m.prev first = .created i)
    (hprev : ∀ q, q ≠ first → m.prev q = s.mem.prev q)
    (hnull : first = .null → m.prev = s.mem.prev) :
    Shape W (({ s with mem := m } : State α ι).goto i (.create .loadNext)) done l prev₀ first := by
  have hothers : ∀ j, j ≠ i → ¬ (s.pc j).Backed := fun j hj => hcalm.not_backed hB hi hc hj
  refine ⟨fun {j} hj => ?_, ?_, knows_goto trivial fun j hj =>
    hcalm.knows hB h hi hc (fun q _ => congrFun hnext q) (fun q _ => hprev q) hcount first hj⟩
  · show m.prev (.created j) = .null
    rw [← h.zero hj]
    by_cases hf : first = .null
    · rw [hnull hf]
    · refine hprev _ fun he => hB.seq.created_notMem hj ?_
      rw [he]
      exact h.pending.linked.head_mem hf
  · show Links.Pending _ _ _ _ m.prev m.next m.ppList _ _ _
    rw [hnext, hhead]
    refine (h.pending.writeBack (b := .created i) (hcalm.not_moved hB h hi hc) (fun b => ?_) hfirst
      (fun q _ hq => hprev q hq) fun b hb => ?_).congr (fun _ => Iff.rfl)
        (goto_moved (fun p => by rw [hi]; exact Iff.rfl))
        (goto_joined (fun p => by rw [hi]; exact Iff.rfl))
    · refine (exists_update_iff (P := fun j x => x.Backed ∧ b = .created j)).trans ?_
      constructor
      · rintro (⟨-, he⟩ | ⟨j, hj, hbj, -⟩)
        · exact he
        · exact absurd hbj (hothers j hj)
      · exact fun he => .inl ⟨trivial, he⟩
    · obtain ⟨j, hbj, -⟩ := hb
      by_cases hj : j = i
      · rw [hj, hi] at hbj
        exact absurd hbj ‹¬ c.Backed›
      · exact hothers j hj hbj

/-- The new program points to the old head. -/
theorem storeNext (hb : c.Backed) (hc : ¬ c.Done) :
    Shape W ((State.mk { s.mem with next := Function.update s.mem.next (.created i) first }
      s.pc).goto i (.create .storeList)) done l prev₀ first := by
  have hfit := hB.fits i
  rw [hi] at hfit
  have hnew : .created i ∉ l := hB.seq.created_notMem fun hid => hc (hfit.2.2.mp hid)
  have hn : ∀ q ∈ l, Function.update s.mem.next (.created i) first q = s.mem.next q := by
    intro q hq
    refine Function.update_of_ne ?_ _ _
    rintro rfl
    exact hnew hq
  refine ⟨h.zero, ?_, knows_goto (Function.update_self ..) fun j hj => hcalm.knows hB h hi hc
    (m := { s.mem with next := Function.update s.mem.next (.created i) first }) hn
    (fun _ _ _ => rfl) rfl first hj⟩
  exact (h.pending.congr_next hn).congr
    (goto_backed (by rw [hi]; exact iff_of_true trivial hb))
    (goto_moved (fun p => by rw [hi]; exact Iff.rfl))
    (goto_joined (fun p => by rw [hi]; exact Iff.rfl))

/-- The new program becomes the head, and the creation takes effect. -/
theorem push (hc : c = .storeList) :
    ∃ prev₀' first', Shape W ((State.mk { s.mem with ppList := .created i } s.pc).goto i
      (.create .output)) (insert i done) (.created i :: l) prev₀' first' := by
  subst hc
  have hfit := hB.fits i
  have hk := h.knows i
  rw [hi] at hfit hk
  have hid : i ∉ done := fun hid => hfit.2.2.mp hid
  have hnone : ∀ b, ¬ ((State.mk { s.mem with ppList := .created i } s.pc).goto i
      (.create .output)).Backed b := by
    intro b hb
    rcases (exists_update_iff (P := fun j x => x.Backed ∧ b = .created j)).mp hb with
      ⟨hbi, -⟩ | ⟨j, hj, hbj, -⟩
    · exact hbi
    · exact hcalm.not_backed hB hi id hj hbj
  obtain ⟨prev₀', hpend⟩ := h.pending.push ⟨i, by rw [hi]; exact trivial, rfl⟩ hnone
    (hB.seq.created_notMem hid) (Ptr.created_ne_null i) (h.zero hid) hk
  refine ⟨prev₀', .created i, fun hj => h.zero fun hjd => hj (Set.mem_insert_of_mem i hjd), ?_,
    knows_goto trivial fun j hj =>
      hcalm.knows hB h hi id (fun _ _ => rfl) (fun _ _ _ => rfl) rfl _ hj⟩
  exact hpend.congr (fun _ => Iff.rfl) (goto_moved (fun p => by rw [hi]; exact Iff.rfl))
    (goto_joined (fun p => by rw [hi]; exact Iff.rfl))

end Create

/-! The three links that a destruction writes. -/

section Destroy

variable (hB : Book W s done l) (h : Shape W s done l prev₀ first)
  (hi : s.pc i = .destroy p d)

include hB h hi

omit h in
theorem target_mem (hd : ¬ d.Done) : p ∈ l := by
  have hfit := hB.fits i
  refine hB.seq.target_mem (hfit.open_of_pending (by rw [hi]; exact hd)) ?_
  rw [hi] at hfit
  exact hfit.1

/-- The head moves on if the program is the first. -/
theorem moveHead (hholds : d.Holds) (hm : ¬ d.Moved) (hd : ¬ d.Done)
    (hback : ∀ b, s.Backed b → p ≠ first) {head : Ptr α ι}
    (hhead : head = if p = first then s.mem.next p else s.mem.ppList) :
    Shape W ((State.mk { s.mem with ppList := head } s.pc).goto i (.destroy p .testNext))
      done l prev₀ first := by
  have hih : (s.pc i).Holds := by rw [hi]; exact hholds
  have hnone : ∀ q, ¬ s.Moved q := fun q hq => by
    rw [hB.moved_iff hih, hi] at hq
    exact hm hq.2
  refine ⟨h.zero, ?_, knows_goto trivial fun j hj =>
    hB.knows h hih (fun _ _ => rfl) (fun _ _ _ _ => rfl) hj⟩
  refine (h.pending.moveHead (target_mem hB hi hd) hback hnone (fun q => ?_) hhead).congr
    (goto_backed (by rw [hi]; exact Iff.rfl)) (fun _ => Iff.rfl)
    (goto_joined (fun q => ?_))
  · refine (exists_update_iff (P := fun _ x => x.Moved q)).trans ?_
    constructor
    · rintro (⟨he, -⟩ | ⟨j, -, hj⟩)
      · exact he.symm
      · exact absurd ⟨j, hj⟩ (hnone q)
    · exact fun he => .inl ⟨he.symm, trivial⟩
  · rw [hi]
    exact iff_of_false (fun hq => hq.2) fun hq => hm hq.moved.2

/-- The links of a program that is being unlinked lead to null or along the list. -/
theorem created_ne_next (hm : d.Moved) (hj : j ∉ done) : .created j ≠ s.mem.next p := by
  intro he
  have hp : p ∈ l := h.pending.moved_mem ⟨i, by rw [hi]; exact ⟨rfl, hm⟩⟩
  refine hB.seq.created_notMem hj ?_
  rw [he]
  exact (h.pending.linked.next_mem hp (by rw [← he]; exact Ptr.created_ne_null j)).1

theorem prev_eq (hholds : d.Holds) (hm : d.Moved) : s.mem.prev p = prev₀ p := by
  refine h.pending.prev_of_moved ⟨i, by rw [hi]; exact ⟨rfl, hm⟩⟩ fun q hq => ?_
  rw [hB.joined_iff (by rw [hi]; exact hholds), hi] at hq
  exact hq.1.symm

theorem created_ne_prev (hholds : d.Holds) (hm : d.Moved) (hj : j ∉ done) :
    .created j ≠ s.mem.prev p := by
  intro he
  have hp : p ∈ l := h.pending.moved_mem ⟨i, by rw [hi]; exact ⟨rfl, hm⟩⟩
  refine hB.seq.created_notMem hj ?_
  rw [prev_eq hB h hi hholds hm] at he
  rw [he]
  exact (h.pending.linked.prev_mem hp (by rw [← he]; exact Ptr.created_ne_null j)).1

/-- The successor points past the program. -/
theorem join (hholds : d.Holds) (hm : d.Moved) (hj : ¬ d.Joined) {prev' : Ptr α ι → Ptr α ι}
    (hn : s.mem.next p ≠ .null → prev' (s.mem.next p) = s.mem.prev p)
    (ho : ∀ q, q ≠ s.mem.next p → prev' q = s.mem.prev q) :
    Shape W ((State.mk { s.mem with prev := prev' } s.pc).goto i (.destroy p .testPrev))
      done l prev₀ first := by
  have hih : (s.pc i).Holds := by rw [hi]; exact hholds
  have hnone : ∀ q, ¬ s.Joined q := fun q hq => by
    rw [hB.joined_iff hih, hi] at hq
    exact hj hq.2
  have hmoved : ∀ q, s.Moved q ↔ q = p := fun q => by
    rw [hB.moved_iff hih, hi]
    exact ⟨fun hq => hq.1.symm, fun he => ⟨he.symm, hm⟩⟩
  refine ⟨fun {k} hk => ?_, ?_, knows_goto trivial fun k hk =>
    hB.knows h hih (fun _ _ => rfl) (fun _ _ _ _ => rfl) hk⟩
  · exact (ho _ (created_ne_next hB h hi hm hk)).trans (h.zero hk)
  refine (h.pending.join hmoved hnone (fun q => ?_) hn fun q _ => ho q).congr
    (goto_backed (by rw [hi]; exact Iff.rfl))
    (goto_moved fun q => by rw [hi]; exact and_congr_right fun _ => iff_of_true trivial hm)
    fun _ => Iff.rfl
  refine (exists_update_iff (P := fun _ x => x.Joined q)).trans ?_
  constructor
  · rintro (⟨he, -⟩ | ⟨k, -, hk⟩)
    · exact he.symm
    · exact absurd ⟨k, hk⟩ (hnone q)
  · exact fun he => .inl ⟨he.symm, trivial⟩

/-- The predecessor points past the program, and the destruction takes effect. -/
theorem unlink (hcalm : W.Calm s l) (hholds : d.Holds) (hm : d.Moved) (hj : d.Joined)
    {next' : Ptr α ι → Ptr α ι}
    (hn : s.mem.prev p ≠ .null → next' (s.mem.prev p) = s.mem.next p)
    (ho : ∀ q, q ≠ s.mem.prev p → next' q = s.mem.next q) :
    ∃ prev₀' first', Shape W ((State.mk { s.mem with next := next' } s.pc).goto i
      (.destroy p .unlock)) (insert i done) (l.erase p) prev₀' first' := by
  have hih : (s.pc i).Holds := by rw [hi]; exact hholds
  have hmoved : ∀ q, s.Moved q ↔ q = p := fun q => by
    rw [hB.moved_iff hih, hi]
    exact ⟨fun hq => hq.1.symm, fun he => ⟨he.symm, hm⟩⟩
  set s' := (State.mk { s.mem with next := next' } s.pc).goto i (.destroy p .unlock)
  have hm' : ∀ q, ¬ s'.Moved q := fun q hq => by
    rcases (exists_update_iff (P := fun _ x => x.Moved q)).mp hq with ⟨-, hd⟩ | ⟨k, hk, hq⟩
    · exact hd
    · exact hk (hB.holder hq.holds hih)
  have hj' : ∀ q, ¬ s'.Joined q := fun q ⟨k, hk⟩ => hm' q ⟨k, hk.moved⟩
  have hd : ¬ d.Done := (show (Pc.destroy p d).Moved p from ⟨rfl, hm⟩).pending
  have hnext : ∀ q ∈ l, q ≠ p →
      next' q = if q = s.mem.prev p then s.mem.next p else s.mem.next q := by
    intro q hq _
    split_ifs with he
    · rw [he]
      exact hn fun hnull => hB.seq.null_notMem (hnull ▸ he ▸ hq)
    · exact ho q he
  obtain ⟨prev₀', first', hpend, hfirst⟩ := h.pending.unlink hmoved
    ⟨i, by rw [hi]; exact ⟨rfl, hj⟩⟩ hm' hj' hnext
  refine ⟨prev₀', first', fun hk => h.zero fun hkd => hk (Set.mem_insert_of_mem i hkd), ?_,
    knows_goto trivial fun k hk => hB.knows h hih (m := { s.mem with next := next' })
      (fun j hj => ho _ (created_ne_prev hB h hi hholds hm hj)) (fun j c hpc hc => ?_) hk⟩
  · exact hpend.congr (goto_backed (by rw [hi]; exact Iff.rfl)) (fun _ => Iff.rfl)
      fun _ => Iff.rfl
  · exact hfirst (hcalm.ne_first hB h hpc hc hi hd)

end Destroy

end Shape

end Workload

end Cesvga2.GLD
