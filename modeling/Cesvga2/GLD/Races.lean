import Cesvga2.GLD.Stages

/-! Which calls on the list of pipeline programs may overlap. While no two calls that clash are in
progress each step keeps the invariant, so that if none may ever be, every interleaving leaves the
list as it should be and no step touches a freed program. -/

namespace Cesvga2.GLD

open Links

variable {α ι : Type*} [DecidableEq α] [DecidableEq ι]

namespace Workload

variable {W : Workload α ι} {s : State α ι} {done : Set ι} {l : List (Ptr α ι)} {i j : ι}
  {y : Pc α ι} {p : Ptr α ι}

/-! ### One step -/

structure Inv (W : Workload α ι) (s : State α ι) (done : Set ι) (l : List (Ptr α ι)) : Prop where
  book : Book W s done l
  shape : ∃ prev₀ first, Shape W s done l prev₀ first

/-- A step of call `i` leaves the list, or the call takes effect on it. -/
def Moves (W : Workload α ι) (s' : State α ι) (done : Set ι) (l : List (Ptr α ι)) (i : ι) : Prop :=
  Inv W s' done l ∨ (i ∉ done ∧ Inv W s' (insert i done) (W.apply i l))

section Steps

variable {prev₀ : Ptr α ι → Ptr α ι} {first : Ptr α ι} {c c' : CreatePc α ι} {d d' : DestroyPc α ι}
  {s' : State α ι}

/-- A step that writes nothing and stays at its stage. -/
theorem Inv.goto (hB : Book W s done l) (hS : Shape W s done l prev₀ first)
    (hfit : W.Fits done i y) (hholds : y.Holds ↔ (s.pc i).Holds) (hpc : s.pc i ≠ .returned)
    (hret : y = .returned → W.call i = .create) (hst : SameStage (s.pc i) y)
    (hy : y.Local s.mem i first) : Inv W (s.goto i y) done l :=
  ⟨hB.goto (m := s.mem) hfit rfl rfl hholds hpc hret, prev₀, first,
    hS.goto (m := s.mem) hst rfl rfl rfl hy fun j _ => hS.knows j⟩

theorem Inv.gotoCreate (hB : Book W s done l) (hS : Shape W s done l prev₀ first)
    (hi : s.pc i = .create c) (hb : c'.Backed ↔ c.Backed) (hd : c'.Done ↔ c.Done)
    (hy : c'.Local s.mem (.created i) first) : Inv W (s.goto i (.create c')) done l :=
  ⟨hB.gotoCreate (m := s.mem) hi hd rfl rfl, prev₀, first,
    hS.goto (m := s.mem) (hi ▸ .create hb) rfl rfl rfl hy fun j _ => hS.knows j⟩

theorem Inv.create (hB : Book W s done l) (hS : Shape W s done l prev₀ first)
    (hcalm : W.Calm s l) (hi : s.pc i = .create c) (hs : s.exec i = some s') :
    W.Moves s' done l i := by
  have hfit := hB.fits i
  have hk := hS.knows i
  have hlist : ¬ c.Done → s.mem.ppList = first := hcalm.ppList_eq hB hS hi
  simp only [State.exec, hi] at hs
  rw [hi] at hfit hk
  cases c with
  | calloc | init =>
    cases hs
    exact .inl (Inv.gotoCreate hB hS hi Iff.rfl Iff.rfl trivial)
  | testList =>
    cases hs
    by_cases hnull : s.mem.ppList = .null
    · simp only [hnull, if_true, Option.elim_some]
      refine .inl ⟨hB.gotoCreate (m := s.mem) hi Iff.rfl rfl rfl, prev₀, first, ?_⟩
      rw [hlist id] at hnull
      exact hS.writeBack (m := s.mem) hB hcalm hi id id rfl rfl rfl (fun hne => absurd hnull hne)
        (fun _ _ => rfl) fun _ => rfl
    · simp only [hnull, if_false, Option.elim_some]
      exact .inl (Inv.gotoCreate hB hS hi Iff.rfl Iff.rfl (hlist id ▸ hnull))
  | loadList =>
    cases hs
    exact .inl (Inv.gotoCreate hB hS hi Iff.rfl Iff.rfl ⟨hlist id, hk⟩)
  | storePrev r =>
    obtain ⟨rfl, hne⟩ := hk
    simp only [Memory.create, if_neg hne] at hs
    cases hs
    refine .inl ⟨hB.gotoCreate hi Iff.rfl rfl rfl, prev₀, r, ?_⟩
    exact hS.writeBack hB hcalm hi id id rfl rfl rfl (fun _ => Function.update_self ..)
      (fun q hq => Function.update_of_ne hq _ _) fun hnull => absurd hnull hne
  | loadNext =>
    cases hs
    exact .inl (Inv.gotoCreate hB hS hi Iff.rfl Iff.rfl (hlist id))
  | storeNext r =>
    obtain rfl : r = first := hk
    cases hs
    exact .inl ⟨hB.gotoCreate hi Iff.rfl rfl rfl, prev₀, r, hS.storeNext hB hcalm hi trivial id⟩
  | storeList =>
    cases hs
    have hopen : W.Open done i := Fits.open_of_pending (x := .create .storeList) hfit id
    refine .inr ⟨hopen.1, hB.effect hopen ?_ rfl rfl (by rw [hi]; exact Iff.rfl)
      (hi.trans_ne (Pc.create_ne_returned _)) (Pc.create_ne_returned _), ?_⟩
    · exact ⟨hfit.1, hfit.2.1.mono (Set.subset_insert i done),
        iff_of_true (Set.mem_insert i done) trivial⟩
    · rw [apply, hfit.1]
      exact hS.push hB hcalm hi rfl
  | output =>
    cases hs
    refine .inl (Inv.goto hB hS (hfit.2.2.mpr trivial) ?_ (hi.trans_ne (Pc.create_ne_returned _))
      (fun _ => hfit.1) ?_ trivial)
    · rw [hi]
      exact Iff.rfl
    · rw [hi]
      exact ⟨Iff.rfl, fun _ => Iff.rfl, fun _ => Iff.rfl⟩

/-- A step of a destruction that writes nothing and stays at its stage. -/
theorem Inv.gotoDestroy (hB : Book W s done l) (hS : Shape W s done l prev₀ first)
    (hi : s.pc i = .destroy p d) (hm : d'.Moved ↔ d.Moved) (hj : d'.Joined ↔ d.Joined)
    (hd : d'.Done ↔ d.Done) (hh : d'.Holds ↔ d.Holds) (hy : d'.Local s.mem p first) :
    Inv W (s.goto i (.destroy p d')) done l :=
  ⟨hB.gotoDestroy (m := s.mem) hi hd hh rfl rfl, prev₀, first,
    hS.goto (m := s.mem) (hi ▸ .destroy hm hj) rfl rfl rfl hy fun j _ => hS.knows j⟩

/-- The first link that a destruction writes. -/
theorem Inv.moveHead (hB : Book W s done l) (hS : Shape W s done l prev₀ first)
    (hcalm : W.Calm s l) (hi : s.pc i = .destroy p d) (hholds : d.Holds) (hm : ¬ d.Moved)
    (hd : ¬ d.Done) (head : Ptr α ι)
    (hhead : head = if p = first then s.mem.next p else s.mem.ppList) :
    Inv W ((State.mk { s.mem with ppList := head } s.pc).goto i (.destroy p .testNext)) done l := by
  refine ⟨hB.gotoDestroy hi (iff_of_false id hd) (iff_of_true trivial hholds) rfl rfl,
    prev₀, first, hS.moveHead hB hi hholds hm hd ?_ hhead⟩
  -- a creation that has begun keeps the destruction of the first program away
  rintro b ⟨j, hb, -⟩
  have hpend := hb.pending
  obtain ⟨c, hpc, -⟩ := hb.exists_create
  rw [hpc] at hpend
  exact hcalm.ne_first hB hS hpc hpend hi hd

theorem Inv.join (hB : Book W s done l) (hS : Shape W s done l prev₀ first)
    (hi : s.pc i = .destroy p d) (hholds : d.Holds) (hm : d.Moved) (hj : ¬ d.Joined)
    (prev' : Ptr α ι → Ptr α ι)
    (hn : s.mem.next p ≠ .null → prev' (s.mem.next p) = s.mem.prev p)
    (ho : ∀ q, q ≠ s.mem.next p → prev' q = s.mem.prev q) :
    Inv W ((State.mk { s.mem with prev := prev' } s.pc).goto i (.destroy p .testPrev)) done l := by
  have hd : ¬ d.Done := (show (Pc.destroy p d).Moved p from ⟨rfl, hm⟩).pending
  exact ⟨hB.gotoDestroy hi (iff_of_false id hd) (iff_of_true trivial hholds) rfl rfl,
    prev₀, first, hS.join hB hi hholds hm hj hn ho⟩

/-- The last link that a destruction writes. -/
theorem Inv.unlink (hB : Book W s done l) (hS : Shape W s done l prev₀ first) (hcalm : W.Calm s l)
    (hi : s.pc i = .destroy p d) (hholds : d.Holds) (hm : d.Moved) (hj : d.Joined)
    (next' : Ptr α ι → Ptr α ι)
    (hn : s.mem.prev p ≠ .null → next' (s.mem.prev p) = s.mem.next p)
    (ho : ∀ q, q ≠ s.mem.prev p → next' q = s.mem.next q) :
    W.Moves ((State.mk { s.mem with next := next' } s.pc).goto i (.destroy p .unlock)) done l
      i := by
  have hfit := hB.fits i
  have hopen : W.Open done i := hfit.open_of_pending
    (by rw [hi]; exact (show (Pc.destroy p d).Moved p from ⟨rfl, hm⟩).pending)
  rw [hi] at hfit
  refine .inr ⟨hopen.1, hB.effect hopen ?_ rfl rfl ?_ (hi.trans_ne (Pc.destroy_ne_returned _ _))
    (Pc.destroy_ne_returned _ _), ?_⟩
  · exact ⟨hfit.1, hfit.2.1.mono (Set.subset_insert i done),
      iff_of_true (Set.mem_insert i done) trivial⟩
  · rw [hi]
    exact iff_of_true trivial hholds
  · rw [apply, hfit.1]
    exact hS.unlink hB hi hcalm hholds hm hj hn ho

theorem Inv.destroy (hB : Book W s done l) (hS : Shape W s done l prev₀ first)
    (hcalm : W.Calm s l) (hi : s.pc i = .destroy p d) (hs : s.exec i = some s') :
    W.Moves s' done l i := by
  have hk := hS.knows i
  simp only [State.exec, hi] at hs
  rw [hi] at hk
  cases d with
  | release | deleteSys =>
    cases hs
    exact .inl (Inv.gotoDestroy hB hS hi Iff.rfl Iff.rfl Iff.rfl Iff.rfl trivial)
  | lock =>
    cases hl : s.mem.locked with
    | true =>
      simp only [Memory.destroy, hl, if_true] at hs
      cases hs
    | false =>
      simp only [Memory.destroy, hl, Bool.false_eq_true, if_false] at hs
      cases hs
      exact .inl ⟨hB.lock hi hl, prev₀, first,
        hS.keep (hi ▸ .destroy Iff.rfl Iff.rfl) trivial rfl rfl rfl rfl⟩
  | testCount =>
    cases hs
    by_cases hc : s.mem.ctxCount p = 0
    · simp only [hc, if_true, Option.elim_some]
      exact .inl (Inv.gotoDestroy hB hS hi Iff.rfl Iff.rfl Iff.rfl Iff.rfl trivial)
    · simp only [hc, if_false, Option.elim_some]
      exact .inl (Inv.gotoDestroy hB hS hi Iff.rfl Iff.rfl Iff.rfl Iff.rfl hc)
  | deleteCached =>
    cases hs
    -- the others have not the mutex, and know nothing of cached programs
    have hih : (s.pc i).Holds := by rw [hi]; exact trivial
    exact .inl ⟨hB.gotoDestroy hi Iff.rfl Iff.rfl rfl rfl, prev₀, first,
      hS.goto (hi ▸ .destroy Iff.rfl Iff.rfl) rfl rfl rfl trivial fun j hj =>
        hB.knows hS hih (fun _ _ => rfl) (fun _ _ _ _ => rfl) hj⟩
  | testList =>
    have hlist : s.mem.ppList = first := hS.pending.head_eq fun hm => by
      rw [hB.moved_iff (i := i) (by rw [hi]; exact trivial), hi] at hm
      exact hm.2
    cases hs
    by_cases hp : s.mem.ppList = p
    · simp only [hp, if_true, Option.elim_some]
      exact .inl (Inv.gotoDestroy hB hS hi Iff.rfl Iff.rfl Iff.rfl Iff.rfl (hp.symm.trans hlist))
    · simp only [hp, if_false, Option.elim_some]
      exact .inl (Inv.moveHead hB hS hcalm hi trivial id id s.mem.ppList
        (if_neg fun he => hp (hlist.trans he.symm)).symm)
  | loadList =>
    cases hs
    exact .inl (Inv.gotoDestroy hB hS hi Iff.rfl Iff.rfl Iff.rfl Iff.rfl ⟨hk, rfl⟩)
  | storeList r =>
    obtain ⟨hp, rfl⟩ := hk
    cases hs
    exact .inl (Inv.moveHead hB hS hcalm hi trivial id id _ (if_pos hp).symm)
  | testNext =>
    cases hs
    by_cases hn : s.mem.next p = .null
    · simp only [hn, if_true, Option.elim_some]
      exact .inl (Inv.join hB hS hi trivial trivial id s.mem.prev (fun hne => absurd hn hne)
        fun _ _ => rfl)
    · simp only [hn, if_false, Option.elim_some]
      exact .inl (Inv.gotoDestroy hB hS hi Iff.rfl Iff.rfl Iff.rfl Iff.rfl hn)
  | loadNext | loadPrevOfPrev =>
    cases hs
    exact .inl (Inv.gotoDestroy hB hS hi Iff.rfl Iff.rfl Iff.rfl Iff.rfl ⟨rfl, hk⟩)
  | loadPrev n | loadNextOfPrev n =>
    cases hs
    exact .inl (Inv.gotoDestroy hB hS hi Iff.rfl Iff.rfl Iff.rfl Iff.rfl ⟨hk.1, hk.2, rfl⟩)
  | storeNextPrev n r =>
    obtain ⟨rfl, hne, rfl⟩ := hk
    simp only [Memory.destroy, if_neg hne] at hs
    cases hs
    exact .inl (Inv.join hB hS hi trivial trivial id _ (fun _ => Function.update_self ..)
      fun q hq => Function.update_of_ne hq _ _)
  | testPrev =>
    cases hs
    by_cases hp : s.mem.prev p = .null
    · simp only [hp, if_true, Option.elim_some]
      exact Inv.unlink hB hS hcalm hi trivial trivial trivial s.mem.next
        (fun hne => absurd hp hne) fun _ _ => rfl
    · simp only [hp, if_false, Option.elim_some]
      exact .inl (Inv.gotoDestroy hB hS hi Iff.rfl Iff.rfl Iff.rfl Iff.rfl hp)
  | storePrevNext k r =>
    obtain ⟨rfl, hne, rfl⟩ := hk
    simp only [Memory.destroy, if_neg hne] at hs
    cases hs
    exact Inv.unlink hB hS hcalm hi trivial trivial trivial _ (fun _ => Function.update_self ..)
      fun q hq => Function.update_of_ne hq _ _
  | unlock =>
    cases hs
    exact .inl ⟨hB.unlock hi, prev₀, first,
      hS.keep (hi ▸ .destroy Iff.rfl Iff.rfl) trivial rfl rfl rfl rfl⟩
  | free =>
    cases hs
    refine .inl ⟨hB.free hi, prev₀, first, hS.keep ?_ trivial rfl rfl rfl rfl⟩
    rw [hi]
    exact ⟨Iff.rfl, fun _ => iff_of_false id fun h => h.2, fun _ => iff_of_false id fun h => h.2⟩

theorem Inv.enter (hB : Book W s done l) (hS : Shape W s done l prev₀ first)
    (hi : s.pc i = .idle) (hr : W.Ready i s.finished) : Inv W (s.goto i (W.entry i)) done l := by
  have hfit := hB.fits i
  rw [hi] at hfit
  have hready : W.Ready i done := hr.mono fun j hj => by
    have hj' := hB.fits j
    rwa [show s.pc j = .returned from hj] at hj'
  have hstart : W.Fits done i (W.entry i) ∧ SameStage (s.pc i) (W.entry i) ∧
      ((W.entry i).Holds ↔ (s.pc i).Holds) ∧ W.entry i ≠ .returned ∧
      (W.entry i).Local s.mem i first := by
    rw [hi, entry]
    cases hc : W.call i with
    | create =>
      exact ⟨⟨hc, hready, iff_of_false hfit id⟩, ⟨Iff.rfl, fun _ => Iff.rfl, fun _ => Iff.rfl⟩,
        Iff.rfl, Pc.create_ne_returned _, trivial⟩
    | destroy p =>
      exact ⟨⟨hc, hready, iff_of_false hfit id⟩,
        ⟨Iff.rfl, fun _ => iff_of_false (fun h => h.2) id, fun _ => iff_of_false (fun h => h.2) id⟩,
        Iff.rfl, Pc.destroy_ne_returned _ _, trivial⟩
  obtain ⟨hfit', hst, hholds, hret, hlocal⟩ := hstart
  exact Inv.goto hB hS hfit' hholds (hi.trans_ne Pc.idle_ne_returned) (fun he => absurd he hret)
    hst hlocal

/-- **One step.** A step taken while no two calls in progress clash keeps the invariant. -/
theorem Inv.step (h : W.Inv s done l) (hcalm : W.Calm s l) (hs : W.Step i s s') :
    W.Moves s' done l i := by
  obtain ⟨hB, prev₀, first, hS⟩ := h
  cases hs with
  | enter hi hr => exact .inl (Inv.enter hB hS hi hr)
  | exec hs =>
    cases hi : s.pc i with
    | idle | returned =>
      simp only [State.exec, hi] at hs
      cases hs
    | create c => exact Inv.create hB hS hcalm hi hs
    | destroy p d => exact Inv.destroy hB hS hcalm hi hs

end Steps

/-! ### Without a race -/

theorem Inv.start (W : Workload α ι) : W.Inv W.start ∅ W.live := by
  have hseq : W.Sequential ∅ W.live := .start
  refine ⟨⟨hseq, fun i => Set.notMem_empty i, ?_, fun h => h.elim, fun p => ?_⟩,
    _, _, fun {i} _ => ?_, .of_linked ?_ ?_ ?_ ?_, fun i => trivial⟩
  · refine iff_of_false Bool.false_ne_true ?_
    rintro ⟨i, hi⟩
    exact hi
  · refine iff_of_false Bool.false_ne_true ?_
    rintro ⟨i, -, hi⟩
    exact Pc.idle_ne_returned hi
  · exact Linked.follow_of_notMem (by simp [live])
  · exact Linked.of_nodup hseq.nodup_and_mem.1 hseq.null_notMem
  · rintro b ⟨i, hb, -⟩
    exact hb
  · rintro p ⟨i, hp⟩
    exact hp
  · rintro p ⟨i, hp⟩
    exact hp

/-- If no race can come up, no two calls in progress clash. -/
theorem Book.calm (hB : Book W s done l) (hrace : ¬ W.Race) : W.Calm s l :=
  fun i j hij hi hj hclash => hrace ⟨done, l, i, j, hB.seq, hij,
    (hB.fits i).open_of_pending hi, (hB.fits j).open_of_pending hj, hclash⟩

theorem Inv.of_reachable (hrace : ¬ W.Race) (hs : W.Reachable s) : ∃ done l, W.Inv s done l := by
  induction hs with
  | start => exact ⟨∅, W.live, Inv.start W⟩
  | step _ hs ih =>
    obtain ⟨done, l, h⟩ := ih
    rcases h.step (h.book.calm hrace) hs with h' | ⟨-, h'⟩
    · exact ⟨_, _, h'⟩
    · exact ⟨_, _, h'⟩

/-- When no call is in progress the list is the sequential one. -/
theorem Inv.quiet (h : W.Inv s done l) (hq : s.Quiet) :
    Linked .null s.mem.prev s.mem.next s.mem.ppList l ∧ ∀ p, p ∈ l ↔ W.Live s p := by
  obtain ⟨hB, prev₀, first, hS⟩ := h
  have hdone : ∀ i, i ∈ done ↔ s.pc i = .returned := fun i => by
    have hfit := hB.fits i
    rcases hq i with hi | hi <;> rw [hi] at hfit ⊢
    · exact iff_of_false hfit Pc.idle_ne_returned
    · exact iff_of_true hfit rfl
  have hnone : ∀ i, ¬ (s.pc i).Pending := fun i hp => by
    rcases hq i with hi | hi <;> rw [hi] at hp <;> exact hp
  refine ⟨hS.pending.settled (fun b ⟨i, hb, _⟩ => hnone i hb.pending)
    fun p ⟨i, hp⟩ => hnone i hp.pending, fun p => ?_⟩
  rw [hB.seq.mem_iff, Made, Live]
  refine and_congr (or_congr_right (exists_congr fun j => ?_)) (forall_congr' fun j => ?_)
  · rw [hdone]
    tauto
  · rw [hdone]
    tauto

theorem Book.not_freed (hB : Book W s done l)
    (h : ∀ j, W.call j = .destroy p → s.pc j ≠ .returned) : s.mem.freed p = false := by
  cases hf : s.mem.freed p with
  | false => rfl
  | true =>
    obtain ⟨j, hcall, hj⟩ := (hB.freed p).mp hf
    exact absurd hj (h j hcall)

theorem Book.done_of_returned (hB : Book W s done l) (hj : s.pc j = .returned) : j ∈ done := by
  have hfit := hB.fits j
  rwa [hj] at hfit

theorem Book.not_freed_of_mem (hB : Book W s done l) (hp : p ∈ l) : s.mem.freed p = false :=
  hB.not_freed fun j hcall hj => (hB.seq.mem_iff.mp hp).2 j (hB.done_of_returned hj) hcall

section Touches

variable {prev₀ : Ptr α ι → Ptr α ι} {first : Ptr α ι} {c : CreatePc α ι} {d : DestroyPc α ι}
  {q : Ptr α ι}

theorem Shape.touches_create (hS : Shape W s done l prev₀ first) (hB : Book W s done l)
    (hi : s.pc i = .create c) (hp : p ∈ c.touches (.created i)) : s.mem.freed p = false := by
  have hfit := hB.fits i
  have hk := hS.knows i
  rw [hi] at hfit hk
  -- a program that is not made yet is not destroyed either
  have hown : i ∉ done → s.mem.freed (.created i) = false := fun hid =>
    hB.not_freed fun j hcall hj => hid (hB.seq.closed (hB.done_of_returned hj) (.inr hcall))
  cases c with
  | init | storeNext r =>
    cases hp
    exact hown fun hid => hfit.2.2.mp hid
  | storePrev r =>
    obtain ⟨rfl, hne⟩ := hk
    cases hp
    exact hB.not_freed_of_mem (hS.pending.linked.head_mem hne)
  | _ => cases hp

theorem Shape.touches_destroy (hS : Shape W s done l prev₀ first) (hB : Book W s done l)
    (hi : s.pc i = .destroy q d) (hp : p ∈ d.touches q) : s.mem.freed p = false := by
  have hfit := hB.fits i
  have hk := hS.knows i
  rw [hi] at hfit hk
  have hmoved : d.Moved → q ∈ l := fun hm =>
    hS.pending.moved_mem ⟨i, by rw [hi]; exact ⟨rfl, hm⟩⟩
  cases d with
  | lock | testList | storeList r | unlock => cases hp
  | storeNextPrev n r =>
    obtain ⟨rfl, hne, -⟩ := hk
    cases hp
    exact hB.not_freed_of_mem (hS.pending.linked.next_mem (hmoved trivial) hne).1
  | storePrevNext k r =>
    obtain ⟨rfl, hne, -⟩ := hk
    cases hp
    have hprev := hS.prev_eq hB hi trivial trivial
    rw [hprev] at hne ⊢
    exact hB.not_freed_of_mem (hS.pending.linked.prev_mem (hmoved trivial) hne).1
  | _ =>
    cases hp
    -- nobody else destroys it
    refine hB.not_freed fun j hcall hj => ?_
    rw [W.own hcall hfit.1, hi] at hj
    cases hj

end Touches

/-- No step of a call touches a freed program. -/
theorem Inv.touches (h : W.Inv s done l) (hp : p ∈ s.touches i) : s.mem.freed p = false := by
  obtain ⟨hB, prev₀, first, hS⟩ := h
  cases hi : s.pc i with
  | idle | returned =>
    simp only [State.touches, hi] at hp
    cases hp
  | create c =>
    simp only [State.touches, hi] at hp
    exact hS.touches_create hB hi hp
  | destroy q d =>
    simp only [State.touches, hi] at hp
    exact hS.touches_destroy hB hi hp

theorem safe_of_not_race (hrace : ¬ W.Race) : W.Safe := by
  intro s hs
  obtain ⟨done, l, h⟩ := Inv.of_reachable hrace hs
  exact ⟨fun hq => ⟨l, h.quiet hq⟩, fun i s' _ p hp => h.touches hp⟩

end Workload

end Cesvga2.GLD
