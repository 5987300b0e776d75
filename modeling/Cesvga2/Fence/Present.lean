import Cesvga2.Fence.Device

/-! `surfacePresentAutoSync`: before a present command is queued, the driver waits for the
fence of an earlier one. Other commands and fences may be queued at any time, and the device
may go on at any time. -/

namespace Cesvga2.Fence

def Cmd.isPresent : Cmd → Bool
  | .present _ => true
  | _ => false

def presents (l : List Cmd) : ℕ := l.countP Cmd.isPresent

namespace Svga

variable (d : Svga)

/-- The commands that the device has yet to process. -/
def pending : List Cmd := d.log.drop d.head

def pendingBytes : ℕ := (d.pending.map Cmd.bytes).sum

/-- The device reports not busy only once it has processed everything. -/
def Idle : Prop := d.head = d.log.length

end Svga

/-- `FenceTracker<N>`. -/
structure FenceTracker (N : ℕ) where
  counter : ℕ
  fences : ℕ → ℕ

namespace FenceTracker

variable {N : ℕ} (t : FenceTracker N)

def init : FenceTracker N := ⟨0, fun _ => 0⟩

def before : ℕ := t.fences t.counter

def after (fence : ℕ) : FenceTracker N where
  counter := if t.counter + 1 = N then 0 else t.counter + 1
  fences := Function.update t.fences t.counter fence

/-- The fence that will be waited for after `i` more presents. -/
def slot (i : ℕ) : ℕ := t.fences ((t.counter + i) % N)

end FenceTracker

/-- Where a call of `surfacePresentAutoSync` is: `sync` waits in `SyncToFence`. -/
inductive Pc where
  | idle
  | sync (fence : ℕ)
  | present
  | fence
  deriving DecidableEq, Repr

structure Sys (N : ℕ) where
  dev : Svga
  tracker : FenceTracker N
  pc : Pc

/-- `call` starts the function; `passed` and `notBusy` are the ways out of `SyncToFence`. The
last three are other users of the stream and the device. -/
inductive Step where
  | call
  | passed
  | notBusy
  | present (bytes : ℕ)
  | fence
  | insertFence
  | command (bytes : ℕ)
  | process
  deriving DecidableEq, Repr

/-- The ring between two 32-bit offsets in bytes. -/
structure Ring where
  bytes : ℕ
  lt : bytes < 2 ^ 32

/-- `FIFOReserve` waits until the command fits. -/
def Ring.Fits (R : Ring) (d : Svga) (c : Cmd) : Prop := d.pendingBytes + c.bytes ≤ R.bytes

namespace Sys

variable {N : ℕ}

def init : Sys N := ⟨.init, .init, .idle⟩

def Legal (R : Ring) (s : Sys N) : Step → Prop
  | .call => s.pc = .idle
  | .passed => ∃ f, s.pc = .sync f ∧ (f = 0 ∨ s.dev.hasFencePassedUnguarded f = true)
  | .notBusy => (∃ f, s.pc = .sync f) ∧ s.dev.Idle
  | .present bytes => s.pc = .present ∧ R.Fits s.dev (.present bytes)
  | .fence => s.pc = .fence ∧ R.Fits s.dev (.fence 0)
  | .insertFence => R.Fits s.dev (.fence 0)
  | .command bytes => R.Fits s.dev (.other bytes)
  | .process => True

def exec (s : Sys N) : Step → Sys N
  | .call => { s with pc := .sync s.tracker.before }
  | .passed | .notBusy => { s with pc := .present }
  | .present bytes => { s with dev := s.dev.commit (.present bytes), pc := .fence }
  | .fence =>
    let (fence, dev) := s.dev.insertFence true
    ⟨dev, s.tracker.after fence, .idle⟩
  | .insertFence => { s with dev := (s.dev.insertFence true).2 }
  | .command bytes => { s with dev := s.dev.commit (.other bytes) }
  | .process => { s with dev := s.dev.process }

inductive Reachable (R : Ring) : Sys N → Prop
  | init : Reachable R init
  | step {s : Sys N} (h : Reachable R s) (a : Step) (hl : s.Legal R a) : Reachable R (s.exec a)

end Sys

/-! ### The rotation of the fences -/

namespace FenceTracker

variable {N : ℕ} {t : FenceTracker N} {i f : ℕ}

theorem before_eq (hc : t.counter < N) : t.before = t.slot 0 := by
  rw [before, slot, Nat.add_zero, Nat.mod_eq_of_lt hc]

theorem after_counter_lt (hc : t.counter < N) : (t.after f).counter < N := by
  simp only [after]
  split_ifs <;> omega

theorem add_mod_ne {c : ℕ} (hc : c < N) (h0 : 0 < i) (hi : i < N) : (c + i) % N ≠ c := by
  rcases Nat.lt_or_ge (c + i) N with hlt | hge
  · rw [Nat.mod_eq_of_lt hlt]
    omega
  · rw [Nat.mod_eq_sub_mod hge, Nat.mod_eq_of_lt (by omega)]
    omega

theorem after_slot (i : ℕ) :
    (t.after f).slot i = Function.update t.fences t.counter f ((t.counter + (i + 1)) % N) := by
  have hcounter : ((t.after f).counter + i) % N = (t.counter + (i + 1)) % N := by
    simp only [after]
    split_ifs with hN
    · rw [show t.counter + (i + 1) = N + i by omega, Nat.add_mod_left, Nat.zero_add]
    · rw [add_assoc, add_comm 1 i]
  rw [slot, hcounter]
  rfl

/-- After a present the fences move up by one. -/
theorem after_slot_of_lt (hc : t.counter < N) (hi : i + 1 < N) :
    (t.after f).slot i = t.slot (i + 1) := by
  rw [after_slot, Function.update_of_ne (add_mod_ne hc (Nat.succ_pos i) hi)]
  rfl

/-- The new fence is the last to be waited for. -/
theorem after_slot_last (hc : t.counter < N) (hi : i + 1 = N) : (t.after f).slot i = f := by
  rw [after_slot, hi, Nat.add_mod_right, Nat.mod_eq_of_lt hc, Function.update_self]

end FenceTracker

/-! ### Presents behind a fence -/

/-- At most `n` presents follow the fence `f`; before the first fence it is zero. -/
def Behind (f n : ℕ) (l : List Cmd) : Prop :=
  f = 0 ∧ presents l ≤ n ∨
    ∃ A B, l = A ++ .fence f :: B ∧ f = serial (A.filterMap Cmd.id?).length ∧ presents B ≤ n

variable {d : Svga} {f n m : ℕ} {l l' : List Cmd} {c : Cmd}

theorem presents_append : presents (l ++ l') = presents l + presents l' := List.countP_append

theorem Behind.append (h : Behind f n l) (hm : n + presents l' ≤ m) : Behind f m (l ++ l') := by
  rcases h with ⟨hf, hn⟩ | ⟨A, B, rfl, hf, hn⟩
  · refine .inl ⟨hf, ?_⟩
    rw [presents_append]
    omega
  · refine .inr ⟨A, B ++ l', by simp, hf, ?_⟩
    rw [presents_append]
    omega

theorem Svga.presents_pending_le : presents d.pending ≤ presents d.log :=
  (List.drop_sublist _ _).countP_le

/-- Once the fence has passed, what is pending comes after it. -/
theorem Behind.pending (h : Behind f n d.log)
    (hp : ∀ k, f = serial k → k < d.issued.length → k < d.passed) : presents d.pending ≤ n := by
  rcases h with ⟨-, hn⟩ | ⟨A, B, hlog, hf, hn⟩
  · exact Svga.presents_pending_le.trans hn
  have hk : (A.filterMap Cmd.id?).length < d.issued.length := by
    rw [Svga.issued, hlog, List.filterMap_append, List.length_append, List.filterMap_cons]
    exact Nat.lt_add_of_pos_right (Nat.succ_pos _)
  have hpassed := hp _ hf hk
  -- the device is past the fence, or it could not have counted it
  have hhead : A.length < d.head := by
    by_contra hle
    have htake : d.log.take d.head = A.take d.head := by
      rw [hlog, List.take_append_of_le_length (by omega)]
    have hsub : (A.take d.head).Sublist A := List.take_sublist _ _
    have := (hsub.filterMap Cmd.id?).length_le
    rw [Svga.passed, htake] at hpassed
    omega
  have hdrop : d.pending = B.drop (d.head - (A.length + 1)) := by
    rw [Svga.pending, hlog, show A ++ Cmd.fence f :: B = (A ++ [.fence f]) ++ B by simp,
      List.drop_append, List.drop_eq_nil_of_le (by simp; omega)]
    simp
  rw [hdrop]
  exact ((List.drop_sublist _ _).countP_le).trans hn

/-! ### Pending commands -/

theorem Svga.pending_commit (h : d.head ≤ d.log.length) :
    (d.commit c).pending = d.pending ++ [c] := List.drop_append_of_le_length h

theorem Svga.pendingBytes_commit (h : d.head ≤ d.log.length) :
    (d.commit c).pendingBytes = d.pendingBytes + c.bytes := by
  simp [Svga.pendingBytes, Svga.pending_commit h]

theorem Svga.process_log : d.process.log = d.log := by
  unfold Svga.process
  split <;> rfl

theorem Svga.pending_process : d.process.pending.Sublist d.pending := by
  unfold Svga.process
  split
  · exact List.drop_sublist_drop_left _ (Nat.le_succ _)
  · exact List.Sublist.refl _

theorem Svga.pendingBytes_process : d.process.pendingBytes ≤ d.pendingBytes :=
  (Svga.pending_process.map _).sum_le_sum fun _ _ => Nat.zero_le _

/-- Every pending fence takes eight bytes of the ring. -/
theorem bytes_of_fences (l : List Cmd) :
    8 * (l.filterMap Cmd.id?).length ≤ (l.map Cmd.bytes).sum := by
  induction l with
  | nil => exact le_rfl
  | cons c l ih =>
    cases c with
    | fence id =>
      rw [List.filterMap_cons, List.map_cons, List.sum_cons]
      simp only [Cmd.id?, Cmd.bytes, List.length_cons]
      omega
    | _ =>
      rw [List.filterMap_cons, List.map_cons, List.sum_cons]
      simp only [Cmd.id?]
      omega

theorem Svga.outstanding (R : Ring) (h : d.pendingBytes ≤ R.bytes) :
    d.issued.length - d.passed < 2 ^ 29 := by
  have hsplit : d.issued.length = d.passed + (d.pending.filterMap Cmd.id?).length := by
    rw [Svga.issued, Svga.passed, Svga.pending, ← List.length_append, ← List.filterMap_append,
      List.take_append_drop]
  have := bytes_of_fences d.pending
  have := R.lt
  unfold Svga.pendingBytes at h
  omega

/-- In a ring there are never so many fences that one that is pending is taken as passed. -/
theorem Svga.Numbered.passed_of_unguarded {R : Ring} (h : d.Numbered)
    (hb : d.pendingBytes ≤ R.bytes) {k : ℕ} (hk : k < d.issued.length)
    (hp : d.hasFencePassedUnguarded (serial k) = true) : k < d.passed := by
  by_contra hge
  have hout := d.outstanding R hb
  rw [h.not_passed (by omega) (by omega)] at hp
  cases hp

/-! ### The invariant -/

namespace Sys

variable {N : ℕ} {R : Ring} {s : Sys N}

/-- The fences that the tracker keeps have ever fewer presents behind them. -/
def Phase (s : Sys N) : Prop :=
  match s.pc with
  | .idle => ∀ i < N, Behind (s.tracker.slot i) (N - 1 - i) s.dev.log
  | .sync f => f = s.tracker.before ∧ ∀ i < N, Behind (s.tracker.slot i) (N - 1 - i) s.dev.log
  | .present => presents s.dev.pending + 1 ≤ N ∧
      ∀ i, 0 < i → i < N → Behind (s.tracker.slot i) (N - 1 - i) s.dev.log
  | .fence => ∀ i, 0 < i → i < N → Behind (s.tracker.slot i) (N - i) s.dev.log

structure Inv (R : Ring) (s : Sys N) : Prop where
  numbered : s.dev.Numbered
  bytes : s.dev.pendingBytes ≤ R.bytes
  counter : s.tracker.counter < N
  le : presents s.dev.pending ≤ N
  phase : s.Phase

/-- Others add no presents to the log, and the device takes presents away. -/
theorem Phase.mono (h : s.Phase) {d : Svga} (hlog : d.log = s.dev.log ++ l)
    (hl : presents l = 0) (hp : presents d.pending ≤ presents s.dev.pending) :
    { s with dev := d : Sys N }.Phase := by
  have hbehind : ∀ f n, Behind f n s.dev.log → Behind f n d.log := by
    intro f n hb
    rw [hlog]
    exact hb.append (by omega)
  unfold Phase at h ⊢
  cases hpc : s.pc with
  | idle =>
    rw [hpc] at h
    exact fun i hi => hbehind _ _ (h i hi)
  | sync f =>
    rw [hpc] at h
    exact ⟨h.1, fun i hi => hbehind _ _ (h.2 i hi)⟩
  | present =>
    rw [hpc] at h
    exact ⟨by dsimp only; omega, fun i h0 hi => hbehind _ _ (h.2 i h0 hi)⟩
  | fence =>
    rw [hpc] at h
    exact fun i h0 hi => hbehind _ _ (h i h0 hi)

theorem inv_init (hN : 0 < N) : (init : Sys N).Inv R := by
  refine ⟨Svga.numbered_init, Nat.zero_le _, hN, Nat.zero_le _, ?_⟩
  exact fun i _ => .inl ⟨rfl, Nat.zero_le _⟩

/-- Out of `SyncToFence` with room for one more present. -/
theorem Inv.synced (h : s.Inv R) {f : ℕ} (hpc : s.pc = .sync f)
    (hp : presents s.dev.pending + 1 ≤ N) : { s with pc := .present : Sys N }.Inv R := by
  have hphase := h.phase
  unfold Phase at hphase
  rw [hpc] at hphase
  exact ⟨h.numbered, h.bytes, h.counter, h.le, hp, fun i _ hi => hphase.2 i hi⟩

theorem Inv.passed (h : s.Inv R) {f : ℕ} (hpc : s.pc = .sync f)
    (hf : f = 0 ∨ s.dev.hasFencePassedUnguarded f = true) :
    { s with pc := .present : Sys N }.Inv R := by
  have hphase := h.phase
  have hcounter := h.counter
  unfold Phase at hphase
  rw [hpc] at hphase
  obtain ⟨rfl, hbehind⟩ := hphase
  refine h.synced hpc ?_
  have hold := hbehind 0 (by omega)
  rw [← FenceTracker.before_eq h.counter] at hold
  have := hold.pending fun k hk hlt => by
    rcases hf with hzero | hpassed
    · exact absurd (hk.symm.trans hzero) (serial_pos k).ne'
    · exact h.numbered.passed_of_unguarded h.bytes hlt (hk ▸ hpassed)
  omega

theorem Inv.notBusy (h : s.Inv R) {f : ℕ} (hpc : s.pc = .sync f) (hidle : s.dev.Idle) :
    { s with pc := .present : Sys N }.Inv R := by
  have hcounter := h.counter
  have hempty : s.dev.pending = [] := List.drop_eq_nil_of_le (Nat.le_of_eq hidle.symm)
  refine h.synced hpc ?_
  rw [hempty]
  change 0 + 1 ≤ N
  omega

theorem Inv.present (h : s.Inv R) (hpc : s.pc = .present) {n : ℕ}
    (hfit : R.Fits s.dev (.present n)) :
    { s with dev := s.dev.commit (.present n), pc := .fence : Sys N }.Inv R := by
  have hphase := h.phase
  unfold Phase at hphase
  rw [hpc] at hphase
  refine ⟨h.numbered.commit rfl, ?_, h.counter, ?_, fun i h0 hi => ?_⟩
  · exact (Svga.pendingBytes_commit h.numbered.head).trans_le hfit
  · change presents (s.dev.commit (.present n)).pending ≤ N
    rw [Svga.pending_commit h.numbered.head, presents_append]
    exact hphase.1
  · refine (hphase.2 i h0 hi).append ?_
    change N - 1 - i + 1 ≤ N - i
    omega

/-- A fence goes to the end of the log and of what is pending. -/
theorem insertFence_log (h : d.Numbered) :
    (d.insertFence true).2.log = d.log ++ [.fence (serial d.issued.length)] ∧
      (d.insertFence true).2.pending = d.pending ++ [.fence (serial d.issued.length)] := by
  rw [h.insertFence_eq]
  exact ⟨rfl, List.drop_append_of_le_length h.head⟩

theorem insertFence_fits (h : d.Numbered) (hfit : R.Fits d (.fence 0)) :
    (d.insertFence true).2.pendingBytes ≤ R.bytes ∧
      presents (d.insertFence true).2.pending = presents d.pending := by
  unfold Svga.pendingBytes
  rw [(insertFence_log h).2, presents_append]
  refine ⟨?_, rfl⟩
  simpa [Ring.Fits, Svga.pendingBytes, Cmd.bytes] using hfit

/-- The fence after a present. -/
theorem Inv.fence (h : s.Inv R) (hpc : s.pc = .fence) (hfit : R.Fits s.dev (.fence 0)) :
    (s.exec .fence).Inv R := by
  have hphase := h.phase
  unfold Phase at hphase
  rw [hpc] at hphase
  obtain ⟨hbytes, hpresents⟩ := insertFence_fits h.numbered hfit
  have hlog := (insertFence_log h.numbered).1
  have hid : (s.dev.insertFence true).1 = serial s.dev.issued.length := by
    rw [h.numbered.insertFence_eq]
  refine ⟨h.numbered.insertFence, hbytes, FenceTracker.after_counter_lt h.counter,
    hpresents.trans_le h.le, fun i hi => ?_⟩
  change Behind ((s.tracker.after (s.dev.insertFence true).1).slot i) (N - 1 - i)
    (s.dev.insertFence true).2.log
  rw [hlog, hid]
  rcases Nat.lt_or_ge (i + 1) N with hlt | hge
  · rw [FenceTracker.after_slot_of_lt h.counter hlt]
    refine (hphase (i + 1) (Nat.succ_pos i) hlt).append ?_
    change N - (i + 1) + 0 ≤ N - 1 - i
    omega
  · rw [FenceTracker.after_slot_last h.counter (by omega)]
    exact .inr ⟨s.dev.log, [], rfl, rfl, Nat.zero_le _⟩

theorem Inv.step (h : s.Inv R) {a : Step} (hl : s.Legal R a) : (s.exec a).Inv R := by
  cases a with
  | call =>
    have hphase := h.phase
    unfold Phase at hphase
    rw [show s.pc = .idle from hl] at hphase
    exact ⟨h.numbered, h.bytes, h.counter, h.le, rfl, hphase⟩
  | passed =>
    obtain ⟨f, hpc, hf⟩ := hl
    exact h.passed hpc hf
  | notBusy =>
    obtain ⟨⟨f, hpc⟩, hidle⟩ := hl
    exact h.notBusy hpc hidle
  | present n => exact h.present hl.1 hl.2
  | fence => exact h.fence hl.1 hl.2
  | insertFence =>
    obtain ⟨hbytes, hpresents⟩ := insertFence_fits h.numbered hl
    exact ⟨h.numbered.insertFence, hbytes, h.counter, hpresents.trans_le h.le,
      h.phase.mono (insertFence_log h.numbered).1 rfl hpresents.le⟩
  | command n =>
    have hpending : presents (s.dev.commit (.other n)).pending = presents s.dev.pending := by
      rw [Svga.pending_commit h.numbered.head, presents_append]
      rfl
    exact ⟨h.numbered.commit rfl, (Svga.pendingBytes_commit h.numbered.head).trans_le hl,
      h.counter, hpending.trans_le h.le, h.phase.mono rfl rfl hpending.le⟩
  | process =>
    have hpending : presents s.dev.process.pending ≤ presents s.dev.pending :=
      Svga.pending_process.countP_le
    exact ⟨h.numbered.process, Svga.pendingBytes_process.trans h.bytes, h.counter,
      hpending.trans h.le, h.phase.mono (l := []) (by simp [Svga.process_log]) rfl hpending⟩

theorem Reachable.inv (hN : 0 < N) (h : s.Reachable R) : s.Inv R := by
  induction h with
  | init => exact inv_init hN
  | step _ a hl ih => exact ih.step hl

end Sys

/-- `AUTO_SYNC_PRESENT_FENCE_COUNT`. -/
def autoSyncPresentFenceCount : ℕ := 2

/-- Whatever else is queued and however the device gets on, it has at most two presents of
`surfacePresentAutoSync` before it. -/
theorem presents_pending_le_two (R : Ring) (s : Sys autoSyncPresentFenceCount)
    (h : s.Reachable R) : presents s.dev.pending ≤ 2 :=
  (h.inv (by decide)).le

/-- Two presents are queued, and a third call waits for the first of them. -/
def queuing : List Step :=
  [.call, .passed, .present 20, .fence, .call, .passed, .present 20, .fence, .call]

theorem presents_queuing :
    presents (queuing.foldl Sys.exec (.init : Sys autoSyncPresentFenceCount)).dev.pending = 2 ∧
    presents (queuing.foldl Sys.exec (.init : Sys autoSyncPresentFenceCount)).dev.pending ≤ 2 := by
  let R : Ring := ⟨4096, by decide⟩
  have hfits : ∀ (d : Svga) (c : Cmd), d.pendingBytes + c.bytes ≤ 4096 → R.Fits d c :=
    fun _ _ h => h
  have hinit : (Sys.init : Sys autoSyncPresentFenceCount).Reachable R := .init
  have hfirst := (((hinit.step .call rfl).step .passed ⟨0, rfl, .inl rfl⟩).step (.present 20)
    ⟨rfl, hfits _ _ (by decide)⟩).step .fence ⟨rfl, hfits _ _ (by decide)⟩
  have hsecond := (((hfirst.step .call rfl).step .passed ⟨0, rfl, .inl rfl⟩).step (.present 20)
    ⟨rfl, hfits _ _ (by decide)⟩).step .fence ⟨rfl, hfits _ _ (by decide)⟩
  exact ⟨by decide, presents_pending_le_two R _ (hsecond.step .call rfl)⟩

end Cesvga2.Fence
