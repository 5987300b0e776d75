import Cesvga2.GLD.Races

/-! Interleavings that go wrong. A call that runs alone returns and takes effect, so every point
that calls made one after another lead to is reached. From there a creation stops right after it
has read the head of the list, a call that clashes with it runs to its end, and the creation goes
on with the head that it has read. -/

namespace Cesvga2.GLD

open Links

variable {α ι : Type*} [DecidableEq α] [DecidableEq ι]

/-! ### Steps left -/

def CreatePc.rank : CreatePc α ι → ℕ
  | .calloc => 9
  | .init => 8
  | .testList => 7
  | .loadList => 6
  | .storePrev _ => 5
  | .loadNext => 4
  | .storeNext _ => 3
  | .storeList => 2
  | .output => 1

/-- The steps left to a destruction of a program with `count` cached programs, at most. -/
def DestroyPc.rank (count : ℕ) : DestroyPc α ι → ℕ
  | .release => 2 * count + 17
  | .lock => 2 * count + 16
  | .testCount => 2 * count + 15
  | .deleteCached => 2 * count + 14
  | .testList => 14
  | .loadList => 13
  | .storeList _ => 12
  | .testNext => 11
  | .loadNext => 10
  | .loadPrev _ => 9
  | .storeNextPrev _ _ => 8
  | .testPrev => 7
  | .loadPrevOfPrev => 6
  | .loadNextOfPrev _ => 5
  | .storePrevNext _ _ => 4
  | .unlock => 3
  | .deleteSys => 2
  | .free => 1

namespace Memory

variable {m : Memory α ι} {p first : Ptr α ι}

theorem create_progress {c : CreatePc α ι} (h : c.Local m p first) :
    ∃ r, m.create p c = some r ∧ r.2.elim 0 CreatePc.rank < c.rank := by
  cases c with
  | storePrev r =>
    obtain ⟨rfl, hne⟩ := h
    exact ⟨_, if_neg hne, by simp [CreatePc.rank]⟩
  | testList =>
    refine ⟨_, rfl, ?_⟩
    by_cases he : m.ppList = .null <;> simp [he, CreatePc.rank]
  | _ => exact ⟨_, rfl, by simp [CreatePc.rank]⟩

/-- A destruction that does not wait for the mutex goes on. -/
theorem destroy_progress {d : DestroyPc α ι} (h : d.Local m p first)
    (hl : d = .lock → m.locked = false) :
    ∃ r, m.destroy p d = some r ∧
      r.2.elim 0 (DestroyPc.rank (r.1.ctxCount p)) < d.rank (m.ctxCount p) := by
  cases d with
  | lock => exact ⟨_, if_neg (by simp [hl rfl]), by simp [DestroyPc.rank]⟩
  | storeNextPrev n r | storePrevNext n r => exact ⟨_, if_neg h.2.1, by simp [DestroyPc.rank]⟩
  | testCount =>
    refine ⟨_, rfl, ?_⟩
    by_cases he : m.ctxCount p = 0 <;> simp [he, DestroyPc.rank]
  | deleteCached =>
    have hpos : 0 < m.ctxCount p := Nat.pos_of_ne_zero h
    refine ⟨_, rfl, ?_⟩
    simp only [Option.elim_some, DestroyPc.rank, Function.update_self]
    omega
  | testList =>
    refine ⟨_, rfl, ?_⟩
    by_cases he : m.ppList = p <;> simp [he, DestroyPc.rank]
  | testNext =>
    refine ⟨_, rfl, ?_⟩
    by_cases he : m.next p = .null <;> simp [he, DestroyPc.rank]
  | testPrev =>
    refine ⟨_, rfl, ?_⟩
    by_cases he : m.prev p = .null <;> simp [he, DestroyPc.rank]
  | _ => exact ⟨_, rfl, by simp [DestroyPc.rank]⟩

end Memory

namespace State

variable {s s' : State α ι} {i j : ι}

/-- The steps left to call `i`, at most. -/
def rank (s : State α ι) (i : ι) : ℕ :=
  match s.pc i with
  | .idle | .returned => 0
  | .create c => c.rank
  | .destroy p d => d.rank (s.mem.ctxCount p)

omit [DecidableEq α] in
theorem goto_goto (x y : Pc α ι) : (s.goto i x).goto i y = s.goto i y := by
  simp only [goto, Function.update_idem]

omit [DecidableEq α] in
theorem goto_comm (hij : i ≠ j) (x y : Pc α ι) :
    (s.goto i x).goto j y = (s.goto j y).goto i x := by
  simp only [goto, Function.update_comm hij.symm]

/-- A step of one call changes the memory and its own counter. -/
theorem exec_eq_goto (h : s.exec i = some s') :
    ∃ m y, s' = ({ s with mem := m } : State α ι).goto i y := by
  cases hi : s.pc i with
  | idle | returned =>
    simp only [exec, hi] at h
    cases h
  | create c | destroy p d =>
    simp only [exec, hi, Option.map_eq_some_iff] at h
    obtain ⟨r, -, rfl⟩ := h
    exact ⟨_, _, rfl⟩

/-- What one call does, it does wherever another call stands. -/
theorem exec_goto (hij : i ≠ j) (x : Pc α ι) :
    (s.goto j x).exec i = (s.exec i).map fun s' => s'.goto j x := by
  have hpc : (s.goto j x).pc i = s.pc i := goto_pc_of_ne hij x
  cases hi : s.pc i with
  | idle | returned => simp only [exec, hpc, hi, Option.map_none]
  | create c | destroy p d =>
    simp only [exec, hpc, hi, Option.map_map]
    refine congrArg (fun f => Option.map f _) (funext fun r => ?_)
    exact goto_comm (s := { s with mem := r.1 }) hij.symm x _

omit [DecidableEq α] in
theorem rank_goto_create (m : Memory α ι) (y : Option (CreatePc α ι)) :
    (({ s with mem := m } : State α ι).goto i (y.elim .returned .create)).rank i =
      y.elim 0 CreatePc.rank := by
  cases y <;> simp [rank, goto]

omit [DecidableEq α] in
theorem rank_goto_destroy (m : Memory α ι) (p : Ptr α ι) (y : Option (DestroyPc α ι)) :
    (({ s with mem := m } : State α ι).goto i (y.elim .returned (.destroy p))).rank i =
      y.elim 0 (DestroyPc.rank (m.ctxCount p)) := by
  cases y <;> simp [rank, goto]

end State

namespace Workload

variable {W : Workload α ι} {s s' : State α ι} {done : Set ι} {l : List (Ptr α ι)} {i j : ι}
  {p : Ptr α ι}

/-! ### One call alone -/

/-- Steps of call `i` alone lead from one state to the other. -/
def Solo (W : Workload α ι) (i : ι) : State α ι → State α ι → Prop :=
  Relation.ReflTransGen (W.Step i)

theorem Reachable.solo (h : W.Reachable s) (hs : W.Solo i s s') : W.Reachable s' := by
  induction hs with
  | refl => exact h
  | tail _ hstep ih => exact ih.step hstep

theorem Step.pc_of_ne (h : W.Step i s s') (hj : j ≠ i) : s'.pc j = s.pc j := by
  cases h with
  | enter _ _ => exact State.goto_pc_of_ne hj _
  | exec h =>
    obtain ⟨m, y, rfl⟩ := State.exec_eq_goto h
    exact State.goto_pc_of_ne hj y

theorem Solo.pc_of_ne (h : W.Solo i s s') (hj : j ≠ i) : s'.pc j = s.pc j := by
  induction h with
  | refl => rfl
  | tail _ hstep ih => exact (hstep.pc_of_ne hj).trans ih

theorem Step.frame (h : W.Step i s s') (hij : i ≠ j) (hj : s.pc j ≠ .returned) (x : Pc α ι) :
    W.Step i (s.goto j x) (s'.goto j x) := by
  cases h with
  | enter hi hr =>
    rw [State.goto_comm hij]
    refine .enter ((State.goto_pc_of_ne hij x).trans hi) (hr.mono fun k hk => ?_)
    have hkj : k ≠ j := fun he => hj (he ▸ hk)
    exact (State.goto_pc_of_ne hkj x).trans hk
  | exec h =>
    refine .exec ?_
    rw [State.exec_goto hij, h, Option.map_some]

/-- A call runs alone wherever another one stands. -/
theorem Solo.frame (h : W.Solo i s s') (hij : i ≠ j) (hj : s.pc j ≠ .returned) (x : Pc α ι) :
    W.Solo i (s.goto j x) (s'.goto j x) := by
  induction h with
  | refl => exact .refl
  | tail hsolo hstep ih =>
    refine ih.tail (hstep.frame hij ?_ x)
    rwa [Solo.pc_of_ne hsolo hij.symm]

/-- No call but `i` is in progress. -/
def Alone (s : State α ι) (i : ι) : Prop := ∀ j, j ≠ i → s.pc j = .idle ∨ s.pc j = .returned

omit [DecidableEq α] [DecidableEq ι] in
theorem Alone.not_pending (h : Alone s i) (hj : j ≠ i) : ¬ (s.pc j).Pending := by
  intro hp
  rcases h j hj with he | he <;> rw [he] at hp <;> exact hp

omit [DecidableEq α] [DecidableEq ι] in
theorem Alone.not_holds (h : Alone s i) (hj : j ≠ i) : ¬ (s.pc j).Holds := by
  intro hp
  rcases h j hj with he | he <;> rw [he] at hp <;> exact hp

omit [DecidableEq α] [DecidableEq ι] in
theorem Alone.calm (h : Alone s i) : W.Calm s l := by
  intro j k hjk hj hk
  by_cases hji : j = i
  · exact absurd hk (h.not_pending fun hki => hjk (hji.trans hki.symm))
  · exact absurd hj (h.not_pending hji)

theorem Alone.step (h : Alone s i) (hs : W.Step i s s') : Alone s' i := fun j hj => by
  rw [hs.pc_of_ne hj]
  exact h j hj

/-- A call that runs alone goes on until it returns. -/
theorem Inv.progress (h : W.Inv s done l) (halone : Alone s i) (hidle : s.pc i ≠ .idle)
    (hret : s.pc i ≠ .returned) :
    ∃ s', W.Step i s s' ∧ s'.rank i < s.rank i ∧ s'.pc i ≠ .idle := by
  obtain ⟨hB, prev₀, first, hS⟩ := h
  have hk := hS.knows i
  cases hi : s.pc i with
  | idle => exact absurd hi hidle
  | returned => exact absurd hi hret
  | create c =>
    rw [hi] at hk
    obtain ⟨⟨m, y⟩, hr, hlt⟩ := Memory.create_progress hk
    refine ⟨({ s with mem := m } : State α ι).goto i (y.elim .returned .create), .exec ?_, ?_, ?_⟩
    · simp only [State.exec, hi, hr, Option.map_some]
    · rw [State.rank_goto_create]
      simpa only [State.rank, hi] using hlt
    · rw [State.goto_pc_self]
      cases y <;> rintro ⟨⟩
  | destroy p d =>
    rw [hi] at hk
    have hfree : d = .lock → s.mem.locked = false := by
      rintro rfl
      refine Bool.eq_false_iff.mpr fun hl => ?_
      obtain ⟨j, hj⟩ := hB.locked.mp hl
      have hji : j = i := by_contra fun hji => halone.not_holds hji hj
      rw [hji, hi] at hj
      exact hj
    obtain ⟨⟨m, y⟩, hr, hlt⟩ := Memory.destroy_progress hk hfree
    refine ⟨({ s with mem := m } : State α ι).goto i (y.elim .returned (.destroy p)), .exec ?_,
      ?_, ?_⟩
    · simp only [State.exec, hi, hr, Option.map_some]
    · rw [State.rank_goto_destroy]
      simpa only [State.rank, hi] using hlt
    · rw [State.goto_pc_self]
      cases y <;> rintro ⟨⟩

theorem Inv.run (h : W.Inv s done l) (halone : Alone s i) (hidle : s.pc i ≠ .idle) :
    ∃ s', W.Solo i s s' ∧ s'.pc i = .returned ∧ W.Moves s' done l i := by
  -- the steps left to the call
  induction hn : s.rank i using Nat.strong_induction_on generalizing s done l with
  | h n ih =>
    by_cases hret : s.pc i = .returned
    · exact ⟨s, .refl, hret, .inl h⟩
    obtain ⟨s₁, hstep, hlt, hidle₁⟩ := h.progress halone hidle hret
    rcases h.step halone.calm hstep with h₁ | ⟨hi, h₁⟩
    · obtain ⟨s', hsolo, hend, hmoves⟩ := ih _ (hn ▸ hlt) h₁ (halone.step hstep) hidle₁ rfl
      exact ⟨s', hsolo.head hstep, hend, hmoves⟩
    · obtain ⟨s', hsolo, hend, hmoves⟩ := ih _ (hn ▸ hlt) h₁ (halone.step hstep) hidle₁ rfl
      -- a call takes effect once
      rcases hmoves with h' | ⟨hi', -⟩
      · exact ⟨s', hsolo.head hstep, hend, .inr ⟨hi, h'⟩⟩
      · exact absurd (Set.mem_insert i done) hi'

/-- In a quiet state the calls that have returned are those done. -/
theorem Book.finished_eq (h : Book W s done l) (hq : s.Quiet) : s.finished = done := by
  ext i
  have hfit := h.fits i
  refine ⟨h.done_of_returned, fun hi => (hq i).resolve_left fun hidle => ?_⟩
  rw [hidle] at hfit
  exact hfit hi

theorem Inv.idle_and_ready (h : W.Inv s done l) (hq : s.Quiet) (hi : W.Open done i) :
    s.pc i = .idle ∧ W.Ready i s.finished := by
  rw [h.book.finished_eq hq]
  exact ⟨(hq i).resolve_right fun hr => hi.1 (h.book.done_of_returned hr), hi.2⟩

/-- **One call.** A call that may be made in a quiet state, and runs alone, takes effect. -/
theorem Inv.call (h : W.Inv s done l) (hq : s.Quiet) (hi : W.Open done i) :
    ∃ s', W.Solo i s s' ∧ s'.Quiet ∧ W.Inv s' (insert i done) (W.apply i l) := by
  obtain ⟨hidle, hready⟩ := h.idle_and_ready hq hi
  have henter : W.Step i s (s.goto i (W.entry i)) := .enter hidle hready
  have halone : Alone s i := fun j _ => hq j
  have h₁ : W.Inv (s.goto i (W.entry i)) done l := by
    obtain ⟨hB, prev₀, first, hS⟩ := h
    exact Inv.enter hB hS hidle hready
  have hbegun : (s.goto i (W.entry i)).pc i ≠ .idle := by
    rw [State.goto_pc_self, entry]
    cases W.call i <;> rintro ⟨⟩
  obtain ⟨s', hrun, hend, hmoves⟩ := h₁.run (halone.step henter) hbegun
  have hsolo : W.Solo i s s' := hrun.head henter
  refine ⟨s', hsolo, fun j => ?_, ?_⟩
  · by_cases hj : j = i
    · exact .inr (hj ▸ hend)
    · rw [hsolo.pc_of_ne hj]
      exact hq j
  · rcases hmoves with h' | ⟨-, h'⟩
    · exact absurd (h'.book.done_of_returned hend) hi.1
    · exact h'

/-- Every point that calls made one after another lead to is reached. -/
theorem Sequential.exists_reachable (h : W.Sequential done l) :
    ∃ s, W.Reachable s ∧ s.Quiet ∧ W.Inv s done l := by
  induction h with
  | start => exact ⟨W.start, .start, fun _ => .inl rfl, Inv.start W⟩
  | call _ hi hr ih =>
    obtain ⟨s, hs, hq, h⟩ := ih
    obtain ⟨s', hsolo, hq', h'⟩ := h.call hq ⟨hi, hr⟩
    exact ⟨s', hs.solo hsolo, hq', h'⟩

/-! ### A creation -/

theorem Step.create {c : CreatePc α ι} {m : Memory α ι} {y : Option (CreatePc α ι)}
    (h : s.mem.create (.created i) c = some (m, y)) :
    W.Step i (s.goto i (.create c))
      (({ s with mem := m } : State α ι).goto i (y.elim .returned .create)) := by
  have hpc : (s.goto i (.create c)).pc i = .create c := State.goto_pc_self _
  have hmem : (s.goto i (.create c)).mem.create (.created i) c = some (m, y) := h
  refine .exec ?_
  simp only [State.exec, hpc, hmem, Option.map_some, Option.some.injEq]
  exact State.goto_goto (s := { s with mem := m }) (.create c) _

theorem Solo.create {c : CreatePc α ι} {m : Memory α ι} {y : Option (CreatePc α ι)}
    (hs : W.Solo i s' (s.goto i (.create c))) (h : s.mem.create (.created i) c = some (m, y)) :
    W.Solo i s' (({ s with mem := m } : State α ι).goto i (y.elim .returned .create)) :=
  hs.tail (Step.create h)

section Creation

variable (hc : W.call i = .create) (hidle : s.pc i = .idle) (hr : W.Ready i s.finished)

include hc hidle hr

theorem solo_testList : W.Solo i s (s.goto i (.create .testList)) := by
  have henter : W.Step i s (s.goto i (W.entry i)) := .enter hidle hr
  have hentry : W.entry i = .create .calloc := by rw [entry, hc]
  rw [hentry] at henter
  have hsolo : W.Solo i s (s.goto i (.create .calloc)) := .single henter
  exact (hsolo.create rfl).create rfl

/-- A creation reads the head of the list. -/
theorem solo_storePrev (hne : s.mem.ppList ≠ .null) :
    W.Solo i s (s.goto i (.create (.storePrev s.mem.ppList))) := by
  have htest : s.mem.create (.created i) .testList = some (s.mem, some .loadList) := by
    simp only [Memory.create, if_neg hne]
  exact ((solo_testList hc hidle hr).create htest).create rfl

/-- A creation finds the list empty. -/
theorem solo_storeNext (hnull : s.mem.ppList = .null) :
    W.Solo i s (s.goto i (.create (.storeNext .null))) := by
  have htest : s.mem.create (.created i) .testList = some (s.mem, some .loadNext) := by
    simp only [Memory.create, if_pos hnull]
  rw [← hnull]
  exact ((solo_testList hc hidle hr).create htest).create rfl

end Creation

/-- The memory after a creation of `p` that read the head `r`. -/
def pushed (m : Memory α ι) (p r : Ptr α ι) : Memory α ι :=
  { m with next := Function.update m.next p r, ppList := p }

theorem Solo.finish_storeNext {r : Ptr α ι} (hs : W.Solo i s' (s.goto i (.create (.storeNext r)))) :
    W.Solo i s' (({ s with mem := pushed s.mem (.created i) r } : State α ι).goto i .returned) :=
  ((hs.create rfl).create rfl).create rfl

/-- The rest of a creation that goes on with the head `r`. -/
theorem Solo.finish_storePrev {r : Ptr α ι} (hne : r ≠ .null)
    (hs : W.Solo i s' (s.goto i (.create (.storePrev r)))) :
    W.Solo i s' (({ s with
      mem := pushed { s.mem with prev := Function.update s.mem.prev r (.created i) } (.created i)
        s.mem.ppList } : State α ι).goto i .returned) := by
  have hprev : s.mem.create (.created i) (.storePrev r) =
      some ({ s.mem with prev := Function.update s.mem.prev r (.created i) }, some .loadNext) :=
    if_neg hne
  exact ((hs.create hprev).create rfl).finish_storeNext

/-! ### Two calls that clash -/

omit [DecidableEq α] in
/-- A creation that returns takes no other program away. -/
theorem Live.returned {m : Memory α ι} (h : W.Live s p) (hc : W.call i = .create) :
    W.Live (({ s with mem := m } : State α ι).goto i .returned) p := by
  obtain ⟨hex, hnot⟩ := h
  constructor
  · refine hex.imp_right ?_
    rintro ⟨k, hk, hret, he⟩
    refine ⟨k, hk, ?_, he⟩
    by_cases hki : k = i
    · rw [hki, State.goto_pc_self]
    · rw [State.goto_pc_of_ne hki]
      exact hret
  · intro k hk
    have hki : k ≠ i := by
      rintro rfl
      rw [hc] at hk
      cases hk
    rw [State.goto_pc_of_ne hki]
    exact hnot k hk

omit [DecidableEq α] in
theorem quiet_returned {m : Memory α ι} (hq : s.Quiet) :
    (({ s with mem := m } : State α ι).goto i .returned).Quiet := by
  intro k
  by_cases hki : k = i
  · exact .inr (by rw [hki, State.goto_pc_self])
  · rw [State.goto_pc_of_ne hki]
    exact hq k

/-- A live program that nothing comes before, on a list that begins with another. -/
theorem not_safe_of_lost (hs : W.Reachable s) (hq : s.Quiet) (hlive : W.Live s p)
    (hprev : s.mem.prev p = .null) (hne : p ≠ s.mem.ppList) : ¬ W.Safe := by
  intro hsafe
  obtain ⟨l, hlinked, hmem⟩ := (hsafe s hs).1 hq
  exact hne (hlinked.eq_head_of_prev ((hmem p).mpr hlive) hprev)

section Clash

variable (hs : W.Reachable s) (hq : s.Quiet) (h : W.Inv s done l) (hij : i ≠ j)
  (hi : W.Open done i) (hj : W.Open done j) (hc : W.call i = .create)

include hs hq h hij hi hj hc

/-- The creation writes to the first program after it was freed. -/
theorem not_safe_of_destroy (hd : W.call j = .destroy p) (hp : l.head? = some p) : ¬ W.Safe := by
  intro hsafe
  have hlinked := (h.quiet hq).1
  have hhead : s.mem.ppList = p := by
    rw [hlinked.head_eq, List.headD_eq_head?_getD, hp, Option.getD_some]
  have hne : p ≠ .null := fun he => h.book.seq.null_notMem (he ▸ List.mem_of_head? hp)
  obtain ⟨hidle, hready⟩ := h.idle_and_ready hq hi
  have hfirst := solo_storePrev hc hidle hready (hhead ▸ hne)
  obtain ⟨s₂, hsolo, hq₂, h₂⟩ := h.call hq hj
  have hreach := (hs.solo hfirst).solo (hsolo.frame hij.symm (hidle.trans_ne Pc.idle_ne_returned) _)
  have hfreed : s₂.mem.freed p = true := by
    refine (h₂.book.freed p).mpr ⟨j, hd, ?_⟩
    have hj₂ : j ∈ s₂.finished := h₂.book.finished_eq hq₂ ▸ Set.mem_insert j done
    exact hj₂
  have htouch := (hsafe _ hreach).2 i _ (Step.create (if_neg (hhead ▸ hne))) p ?_
  · exact Bool.false_ne_true (htouch.symm.trans hfreed)
  · rw [State.touches, State.goto_pc_self, hhead]
    rfl

/-- The creation pushes its program on a head that is not the first any more. -/
theorem not_safe_of_create (hd : W.call j = .create) : ¬ W.Safe := by
  obtain ⟨hidle, hready⟩ := h.idle_and_ready hq hi
  obtain ⟨s₂, hsolo, hq₂, h₂⟩ := h.call hq hj
  obtain ⟨hlinked, hmem⟩ := h₂.quiet hq₂
  have happly : W.apply j l = .created j :: l := by rw [apply, hd]
  rw [happly] at hlinked hmem
  have hlive : W.Live s₂ (.created j) := (hmem _).mp List.mem_cons_self
  have hhead : s₂.mem.ppList = .created j := hlinked.head_eq
  have hprev : s₂.mem.prev (.created j) = .null := by
    rw [← hhead]
    exact hlinked.prev_head (hhead.trans_ne (Ptr.created_ne_null j))
  have hne : (Ptr.created j : Ptr α ι) ≠ .created i := fun he => hij (Ptr.created.inj he).symm
  have hframe := fun x => hsolo.frame hij.symm (hidle.trans_ne Pc.idle_ne_returned) x
  by_cases hnull : s.mem.ppList = .null
  · have hfirst := solo_storeNext hc hidle hready hnull
    have hreach := ((hs.solo hfirst).solo (hframe _)).solo (Solo.finish_storeNext .refl)
    exact not_safe_of_lost hreach (quiet_returned hq₂) (hlive.returned hc) hprev hne
  · have hfirst := solo_storePrev hc hidle hready hnull
    have hreach := ((hs.solo hfirst).solo (hframe _)).solo (Solo.finish_storePrev hnull .refl)
    refine not_safe_of_lost hreach (quiet_returned hq₂) (hlive.returned hc) ?_ hne
    -- the old head is another program
    have hold : .created j ≠ s.mem.ppList := fun he =>
      h.book.seq.created_notMem hj.1 (he ▸ (h.quiet hq).1.head_mem hnull)
    exact (Function.update_of_ne hold _ _).trans hprev

end Clash

theorem not_safe_of_race (h : W.Race) : ¬ W.Safe := by
  obtain ⟨done, l, i, j, hseq, hij, hi, hj, hc, hd⟩ := h
  obtain ⟨s, hs, hq, h⟩ := hseq.exists_reachable
  rcases hd with hd | ⟨p, hd, hp⟩
  · exact not_safe_of_create hs hq h hij hi hj hc hd
  · exact not_safe_of_destroy hs hq h hij hi hj hc hd hp

/-- **Which calls may overlap.** Every interleaving is as it should be if and only if no two
calls that clash may ever be made together. -/
theorem safe_iff_not_race (W : Workload α ι) : W.Safe ↔ ¬ W.Race :=
  ⟨fun hsafe hrace => not_safe_of_race hrace hsafe, safe_of_not_race⟩

end Workload

/-- A creation beside the destruction of the only program. -/
def createAndDestroy : Workload Unit Bool where
  programs := [()]
  call i := if i then .destroy (.initial ()) else .create
  after _ _ := False
  ctxCount _ := 0
  nodup := List.nodup_singleton ()
  exists_program {i p} h := by
    cases i with
    | false => cases h
    | true =>
      cases h
      exact .inl ⟨(), List.mem_cons_self, rfl⟩
  own {i j p} hi hj := by
    cases i with
    | false => cases hi
    | true =>
      cases j with
      | false => cases hj
      | true => rfl

/-- The creation reads `pp_list` and stops; the destruction runs to its end; the creation goes on
and writes to the program that was freed. -/
theorem createAndDestroy_touches_freed : (∃ s s', createAndDestroy.Reachable s ∧
    createAndDestroy.Step false s s' ∧ .initial () ∈ s.touches false ∧
      s.mem.freed (.initial ()) = true) ∧ ¬ createAndDestroy.Safe := by
  have hready : ∀ i done, createAndDestroy.Ready i done := by
    rintro i done j (h | h)
    · exact h.elim
    · cases i <;> cases h
  -- `calloc`, the fields, the test and the load of `pp_list`
  have hc := Workload.Reachable.start (W := createAndDestroy)
    |>.step (.enter (i := false) rfl (hready _ _))
    |>.step (.exec (i := false) rfl) |>.step (.exec (i := false) rfl)
    |>.step (.exec (i := false) rfl) |>.step (.exec (i := false) rfl)
  -- the mutex, and the two tests that follow
  have hl := hc.step (.enter (i := true) rfl (hready _ _))
    |>.step (.exec (i := true) rfl) |>.step (.exec (i := true) rfl)
    |>.step (.exec (i := true) rfl) |>.step (.exec (i := true) rfl)
  -- `pp_list` moves on, and there are no neighbours
  have hu := hl.step (.exec (i := true) rfl) |>.step (.exec (i := true) rfl)
    |>.step (.exec (i := true) rfl) |>.step (.exec (i := true) rfl)
  have hf := hu.step (.exec (i := true) rfl) |>.step (.exec (i := true) rfl)
    |>.step (.exec (i := true) rfl)
  refine ⟨⟨_, _, hf, .exec rfl, rfl, rfl⟩, fun hsafe => ?_⟩
  have hfreed := (hsafe _ hf).2 false _ (.exec rfl) (.initial ()) rfl
  cases hfreed

end Cesvga2.GLD
