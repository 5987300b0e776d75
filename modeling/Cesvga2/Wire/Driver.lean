import Cesvga2.Fifo.Stream
import Cesvga2.Wire.Parse

/-! The driver at the FIFO: one helper call after another reserves, fills and commits, while
the device consumes. What has been committed is what the calls have sent, so the device reads
the commands that were issued, unless the size of one of them has wrapped. -/

namespace Cesvga2.Wire

open Relation (ReflTransGen)
open Cesvga2.Fifo (World Act Dev Pc Started fifoNextCmd fifoStop fifoNumRegs bounceBufferSize)

/-! ### Helper calls -/

/-- Where the driver is: between two calls, in the loop of `FIFOReserve`, or with `k` words of
a command written. -/
inductive Prog where
  | idle
  | reserving (c : Call)
  | filling (c : Call) (k : ℕ)

structure Driver where
  world : World
  prog : Prog
  issued : List Call

/-- Runs of the driver and the device. A call whose reservation is refused returns; of a
command that is larger than its reservation, only what lies in it is modelled. -/
inductive Reachable : Driver → Prop
  | start {d : Dev} (h : Started d) : Reachable ⟨⟨d, .idle, [], [], []⟩, .idle, []⟩
  | reserve {s : Driver} (h : Reachable s) (c : Call) (hprog : s.prog = .idle)
      (hpc : s.world.pc = .idle) :
      Reachable { s with
        world := (Act.reserve c.bytes).exec s.world
        prog := if s.world.dev.rejects c.bytes then .idle else .reserving c }
  | retry {s : Driver} (h : Reachable s) {c : Call} (hprog : s.prog = .reserving c) :
      Reachable { s with
        world := Act.retry.exec s.world
        prog := if (Act.retry.exec s.world).pc = .idle then .filling c 0 else .reserving c }
  | fill {s : Driver} (h : Reachable s) {c : Call} {k v : ℕ} (hprog : s.prog = .filling c k)
      (hk : 4 * k < c.bytes) (hv : c.words[k]? = some v) :
      Reachable { s with world := (Act.fill k v).exec s.world, prog := .filling c (k + 1) }
  | commitAll {s : Driver} (h : Reachable s) {c : Call} {k : ℕ} (hprog : s.prog = .filling c k)
      (hk : 4 * k = c.bytes) :
      Reachable ⟨(Act.commit s.world.dev.reservedSize).exec s.world, .idle, s.issued ++ [c]⟩
  -- `FIFOCommit(0)`
  | abandon {s : Driver} (h : Reachable s) {c : Call} {k : ℕ} (hprog : s.prog = .filling c k) :
      Reachable { s with world := (Act.commit 0).exec s.world, prog := .idle }
  | store {s : Driver} (h : Reachable s) (hl : Act.store.Legal s.world) :
      Reachable { s with world := Act.store.exec s.world }
  | consume {s : Driver} (h : Reachable s) (hl : Act.consume.Legal s.world) :
      Reachable { s with world := Act.consume.exec s.world }

/-! ### The reserved words -/

variable {s : Driver} {w : World} {c : Call} {d : Dev} {i k v : ℕ}

/-- `NEXT_CMD` is past the registers. -/
theorem next_le (h : Fifo.Reachable w) : 4 * fifoNumRegs ≤ w.dev.fifo fifoNextCmd := by
  obtain ⟨N, unread, ahead, rest, hL, -⟩ := h.inv
  rw [hL.next_eq]
  omega

theorem reservedWord_fill (hnext : 4 * fifoNumRegs ≤ d.fifo fifoNextCmd) :
    (d.fill k v).reservedWord i = if i = k then v else d.reservedWord i := by
  have hindex : fifoNextCmd ≠ d.fifo fifoNextCmd / 4 + k := by
    unfold fifoNumRegs at hnext
    unfold fifoNextCmd at hnext ⊢
    omega
  unfold Dev.fill Dev.reservedWord
  by_cases hb : d.usingBounce
  · simp only [hb, if_true, Function.update_apply]
  · simp only [hb, Bool.false_eq_true, if_false, Dev.write,
      Function.update_of_ne hindex, Function.update_apply, Nat.add_left_cancel_iff]

theorem reservedWord_consume (hnext : 4 * fifoNumRegs ≤ w.dev.fifo fifoNextCmd) :
    (Act.consume.exec w).dev.reservedWord i = w.dev.reservedWord i := by
  have hindex : w.dev.fifo fifoNextCmd / 4 + i ≠ fifoStop := by
    unfold fifoNumRegs at hnext
    unfold fifoStop
    omega
  have hreg : fifoNextCmd ≠ fifoStop := by decide
  simp only [Act.exec, Dev.reservedWord, Dev.write, Function.update_of_ne hreg,
    Function.update_of_ne hindex]

/-! ### The invariant -/

/-- What the FIFO knows of the call. -/
def Prog.Holds (w : World) : Prog → Prop
  | idle => True
  | reserving c => w.pc = .reserving c.bytes ∧ w.dev.reservedSize = c.bytes ∧ c.bytes ≤ 65536
  | filling c k => w.pc = .idle ∧ w.dev.reservedSize = c.bytes ∧ c.bytes ≤ 65536 ∧
      ∀ i < k, c.words[i]? = some (w.dev.reservedWord i)

structure Inv (s : Driver) : Prop where
  fifo : Fifo.Reachable s.world
  sent : s.world.commands.flatten = (s.issued.map Call.sent).flatten
  granted : ∀ c ∈ s.issued, c.bytes ≤ 65536
  prog : s.prog.Holds s.world

namespace Inv

theorem reserve (hi : Inv s) (hpc : s.world.pc = .idle) :
    Inv { s with
      world := (Act.reserve c.bytes).exec s.world
      prog := if s.world.dev.rejects c.bytes then .idle else .reserving c } := by
  have hsame : ((Act.reserve c.bytes).exec s.world).commands = s.world.commands := by
    simp only [Act.exec]
    split_ifs <;> rfl
  refine ⟨hi.fifo.step (.reserve _) hpc, by rw [hsame]; exact hi.sent, hi.granted, ?_⟩
  split_ifs with hrej
  · trivial
  · have hle : c.bytes ≤ bounceBufferSize := Nat.not_lt.mp (not_or.mp hrej).1
    simp only [Act.exec, if_neg hrej]
    exact ⟨rfl, rfl, hle⟩

theorem retry (hi : Inv s) (hprog : s.prog = .reserving c) :
    Inv { s with
      world := Act.retry.exec s.world
      prog := if (Act.retry.exec s.world).pc = .idle then .filling c 0 else .reserving c } := by
  have hp := hi.prog
  rw [hprog] at hp
  obtain ⟨hpc, hsize, hle⟩ := hp
  have hdev := s.world.dev.afterPass_reservedSize c.bytes (s.world.dev.reservePass c.bytes)
  refine ⟨hi.fifo.step .retry ⟨_, hpc⟩, ?_, hi.granted, ?_⟩
  · simp only [Act.exec, hpc]
    exact hi.sent
  · simp only [Act.exec, hpc]
    by_cases hg : s.world.dev.reservePass c.bytes = .full
    · simp only [hg, if_true, reduceCtorEq, if_false]
      exact ⟨rfl, hsize, hle⟩
    · simp only [hg, if_false, if_true]
      exact ⟨rfl, hdev.trans hsize, hle, fun i hi => absurd hi (Nat.not_lt_zero i)⟩

theorem fill (hi : Inv s) (hprog : s.prog = .filling c k) (hk : 4 * k < c.bytes)
    (hv : c.words[k]? = some v) :
    Inv { s with world := (Act.fill k v).exec s.world, prog := .filling c (k + 1) } := by
  have hp := hi.prog
  rw [hprog] at hp
  obtain ⟨hpc, hsize, hle, hwords⟩ := hp
  have hnext := next_le hi.fifo
  have hsame : (s.world.dev.fill k v).reservedSize = s.world.dev.reservedSize := by
    unfold Dev.fill
    split_ifs <;> rfl
  refine ⟨hi.fifo.step (.fill k v) ⟨hpc, by rwa [hsize]⟩, hi.sent, hi.granted, hpc,
    hsame.trans hsize, hle, fun i hik => ?_⟩
  simp only [Act.exec, reservedWord_fill hnext]
  split_ifs with heq
  · rw [heq, hv]
  · exact hwords i (by omega)

/-- The words of a reservation that is filled are what the call sends. -/
theorem commitWords_eq (hk : 4 * k = c.bytes)
    (hwords : ∀ i < k, c.words[i]? = some (d.reservedWord i)) : d.commitWords c.bytes = c.sent := by
  have hcount : c.bytes / 4 = k := by omega
  have hlength : k ≤ c.words.length := by
    have := c.bytes_le
    omega
  rw [Dev.commitWords, Call.sent, hcount]
  refine List.ext_getElem? fun i => ?_
  rcases Nat.lt_or_ge i k with hik | hik
  · rw [List.getElem?_map, List.getElem?_range hik, Option.map_some, List.getElem?_take_of_lt hik,
      hwords i hik]
  · rw [List.getElem?_eq_none (by simpa using hik), List.getElem?_eq_none (by simp; omega)]

theorem commitAll (hi : Inv s) (hprog : s.prog = .filling c k) (hk : 4 * k = c.bytes) :
    Inv ⟨(Act.commit s.world.dev.reservedSize).exec s.world, .idle, s.issued ++ [c]⟩ := by
  have hp := hi.prog
  rw [hprog] at hp
  obtain ⟨hpc, hsize, hle, hwords⟩ := hp
  refine ⟨hi.fifo.step (.commit _) ⟨hpc, le_rfl⟩, ?_, ?_, trivial⟩
  · rw [hsize, List.map_append, List.flatten_append, ← hi.sent]
    simp only [Act.exec]
    split_ifs with hnone
    · -- a size that wraps to nothing reserves nothing
      have hzero : c.bytes = 0 := by omega
      simp [Call.sent, hzero]
    · rw [List.flatten_append, commitWords_eq hk hwords]
      rfl
  · rw [List.forall_mem_append]
    exact ⟨hi.granted, fun x hx => by rw [List.mem_singleton.mp hx]; exact hle⟩

theorem abandon (hi : Inv s) (hprog : s.prog = .filling c k) :
    Inv { s with world := (Act.commit 0).exec s.world, prog := .idle } := by
  have hp := hi.prog
  rw [hprog] at hp
  refine ⟨hi.fifo.step (.commit 0) ⟨hp.1, Nat.zero_le _⟩, ?_, hi.granted, trivial⟩
  simp only [Act.exec]
  split_ifs
  · exact hi.sent
  · rw [List.flatten_append, hi.sent]
    exact List.append_nil _

theorem store (hi : Inv s) (hl : Act.store.Legal s.world) :
    Inv { s with world := Act.store.exec s.world } := by
  obtain ⟨t, ts, hpc⟩ := hl
  refine ⟨hi.fifo.step .store ⟨t, ts, hpc⟩, ?_, hi.granted, ?_⟩
  · simp only [Act.exec, hpc]
    exact hi.sent
  · have hp := hi.prog
    cases hprog : s.prog with
    | idle => trivial
    | reserving c =>
      rw [hprog] at hp
      cases hpc.symm.trans hp.1
    | filling c k =>
      rw [hprog] at hp
      cases hpc.symm.trans hp.1

theorem consume (hi : Inv s) (hl : Act.consume.Legal s.world) :
    Inv { s with world := Act.consume.exec s.world } := by
  refine ⟨hi.fifo.step .consume hl, hi.sent, hi.granted, ?_⟩
  have hp := hi.prog
  cases hprog : s.prog with
  | idle => trivial
  | reserving c =>
    rw [hprog] at hp
    exact hp
  | filling c k =>
    rw [hprog] at hp
    obtain ⟨hpc, hsize, hle, hwords⟩ := hp
    refine ⟨hpc, hsize, hle, fun i hik => ?_⟩
    rw [reservedWord_consume (next_le hi.fifo)]
    exact hwords i hik

end Inv

theorem Reachable.inv (h : Reachable s) : Inv s := by
  induction h with
  | start hs => exact ⟨.start hs, rfl, by simp, trivial⟩
  | reserve _ c _ hpc ih => exact ih.reserve hpc
  | retry _ hprog ih => exact ih.retry hprog
  | fill _ hprog hk hv ih => exact ih.fill hprog hk hv
  | commitAll _ hprog hk ih => exact ih.commitAll hprog hk
  | abandon _ hprog ih => exact ih.abandon hprog
  | store _ hl ih => exact ih.store hl
  | consume _ hl ih => exact ih.consume hl

/-- With no commit under way, the ring has been given what the calls have sent. -/
theorem Reachable.committed_eq (h : Reachable s) (hpc : ∀ ss, s.world.pc ≠ .committing ss) :
    s.world.committed = (s.issued.map Call.sent).flatten := by
  rw [← h.inv.sent]
  exact h.inv.fifo.inv.committed_eq hpc

/-! ### A call goes through -/

/-- The steps of a call after its reservation, and those of the device. -/
inductive Step : Driver → Driver → Prop
  | retry {s : Driver} {c : Call} (hprog : s.prog = .reserving c) :
      Step s { s with
        world := Act.retry.exec s.world
        prog := if (Act.retry.exec s.world).pc = .idle then .filling c 0 else .reserving c }
  | fill {s : Driver} {c : Call} {k v : ℕ} (hprog : s.prog = .filling c k)
      (hk : 4 * k < c.bytes) (hv : c.words[k]? = some v) :
      Step s { s with world := (Act.fill k v).exec s.world, prog := .filling c (k + 1) }
  | commitAll {s : Driver} {c : Call} {k : ℕ} (hprog : s.prog = .filling c k)
      (hk : 4 * k = c.bytes) :
      Step s ⟨(Act.commit s.world.dev.reservedSize).exec s.world, .idle, s.issued ++ [c]⟩
  | store {s : Driver} (hl : Act.store.Legal s.world) :
      Step s { s with world := Act.store.exec s.world }
  | consume {s : Driver} (hl : Act.consume.Legal s.world) :
      Step s { s with world := Act.consume.exec s.world }

theorem Step.reachable {s' : Driver} (h : Reachable s) (hs : Step s s') : Reachable s' := by
  cases hs with
  | retry hprog => exact h.retry hprog
  | fill hprog hk hv => exact h.fill hprog hk hv
  | commitAll hprog hk => exact h.commitAll hprog hk
  | store hl => exact h.store hl
  | consume hl => exact h.consume hl

theorem Reachable.steps {s' : Driver} (h : Reachable s) (hs : ReflTransGen Step s s') :
    Reachable s' := by
  induction hs with
  | refl => exact h
  | tail _ hs ih => exact hs.reachable ih

/-- The call has reserved. -/
def Driver.begun (s : Driver) (c : Call) : Driver :=
  { s with world := (Act.reserve c.bytes).exec s.world, prog := .reserving c }

theorem Reachable.begun (h : Reachable s) (hprog : s.prog = .idle) (hpc : s.world.pc = .idle)
    (hrej : ¬ s.world.dev.rejects c.bytes) : Reachable (s.begun c) := by
  have := h.reserve c hprog hpc
  rwa [if_neg hrej] at this

theorem filled (hprog : s.prog = .filling c k) {n : ℕ} (hn : 4 * (k + n) = c.bytes) :
    ∃ s', ReflTransGen Step s s' ∧ s'.prog = .filling c (k + n) ∧ s'.issued = s.issued := by
  induction n generalizing s k with
  | zero => exact ⟨s, .refl, hprog, rfl⟩
  | succ n ih =>
    have hlt : k < c.words.length := by
      have := c.bytes_le
      omega
    have hfill := Step.fill hprog (by omega) (List.getElem?_eq_getElem hlt)
    obtain ⟨s', hs', hprog', hissued⟩ :=
      @ih { s with world := (Act.fill k c.words[k]).exec s.world, prog := .filling c (k + 1) }
        (k + 1) rfl (by omega)
    exact ⟨s', hs'.head hfill, by rw [hprog', Nat.add_right_comm, Nat.add_assoc], hissued⟩

theorem stored (hprog : s.prog = .idle) {ss : List Dev.Store} (hpc : s.world.pc = .ofStores ss) :
    ∃ s', ReflTransGen Step s s' ∧ s'.prog = .idle ∧ s'.world.pc = .idle ∧
      s'.issued = s.issued := by
  induction ss generalizing s with
  | nil => exact ⟨s, .refl, hprog, hpc, rfl⟩
  | cons t ts ih =>
    obtain ⟨s', hs', hprog', hpc', hissued⟩ :=
      @ih { s with world := Act.store.exec s.world } hprog
        (by simp only [Act.exec, hpc, Pc.ofStores])
    exact ⟨s', hs'.head (.store ⟨t, ts, hpc⟩), hprog', hpc', hissued⟩

/-- A call whose reservation is granted at once, from there on. -/
theorem Reachable.issues (h : Reachable s) (hprog : s.prog = .idle) (hpc : s.world.pc = .idle)
    (hrej : ¬ s.world.dev.rejects c.bytes)
    (hroom : s.world.dev.reservePass c.bytes ≠ .full) :
    ∃ s', ReflTransGen Step (s.begun c) s' ∧ s'.prog = .idle ∧ s'.world.pc = .idle ∧
      s'.issued = s.issued ++ [c] := by
  have hbegun := h.begun hprog hpc hrej
  obtain ⟨s₀, hs₀, hprog₀, hissued₀⟩ : ∃ t, Step (s.begun c) t ∧ t.prog = .filling c 0 ∧
      t.issued = s.issued := by
    refine ⟨_, .retry rfl, ?_, rfl⟩
    have hpass : ({ s.world.dev with reservedSize := c.bytes } : Dev).reservePass c.bytes =
        s.world.dev.reservePass c.bytes := rfl
    simp only [Driver.begun, Act.exec, if_neg hrej, hpass, if_neg hroom, if_true]
  obtain ⟨n, hn⟩ : ∃ n, 4 * (0 + n) = c.bytes := by
    have haligned : c.bytes % 4 = 0 := by
      simp only [Dev.rejects, not_or, not_not] at hrej
      exact hrej.2.2.1
    exact ⟨c.bytes / 4, by omega⟩
  obtain ⟨s₁, hs₁, hprog₁, hissued₁⟩ := filled hprog₀ hn
  have hp := (hbegun.steps (hs₁.head hs₀)).inv.prog
  rw [hprog₁] at hp
  have hcommit := Step.commitAll hprog₁ hn
  have hstores : ∃ ss,
      ((Act.commit s₁.world.dev.reservedSize).exec s₁.world).pc = .ofStores ss := by
    simp only [Act.exec]
    split_ifs
    · exact ⟨[], hp.1⟩
    · exact ⟨_, rfl⟩
  obtain ⟨ss, hss⟩ := hstores
  obtain ⟨s₂, hs₂, hprog₂, hpc₂, hissued₂⟩ :=
    @stored ⟨(Act.commit s₁.world.dev.reservedSize).exec s₁.world, .idle, s₁.issued ++ [c]⟩ rfl _
      hss
  exact ⟨s₂, ((hs₁.head hs₀).tail hcommit).trans hs₂, hprog₂, hpc₂,
    by rw [hissued₂, hissued₁, hissued₀]⟩

/-- A call whose reservation is granted at once. -/
theorem Reachable.issue (h : Reachable s) (hprog : s.prog = .idle) (hpc : s.world.pc = .idle)
    (hrej : ¬ s.world.dev.rejects c.bytes)
    (hroom : s.world.dev.reservePass c.bytes ≠ .full) :
    ∃ s', Reachable s' ∧ s'.prog = .idle ∧ s'.world.pc = .idle ∧
      s'.issued = s.issued ++ [c] := by
  obtain ⟨s', hs', hrest⟩ := h.issues hprog hpc hrej hroom
  exact ⟨s', (h.begun hprog hpc hrej).steps hs', hrest⟩

/-! ### What the device reads -/

def Cmd.is3D : Cmd → Bool
  | threeD .. => true
  | surfaceDMA .. => true
  | drawPrimitives .. => true
  | _ => false

theorem Call.header_of_fits (hfits : c.Fits) (hgranted : c.bytes ≤ 65536)
    (h3D : c.cmd.is3D = true) : c.words[1]? = some (4 * (c.words.length - 2)) := by
  have hbytes := c.fits_iff.mp hfits
  rw [hbytes] at hgranted
  obtain ⟨cmd, pad, hwf, hpad⟩ := c
  cases cmd with
  | threeD => exact congrArg some (header_eq (u64_lt _) hbytes hgranted)
  | surfaceDMA _ _ suffix =>
    cases suffix <;> exact congrArg some (header_eq (u64_lt _) hbytes hgranted)
  | drawPrimitives => exact congrArg some (header_eq (u64_lt _) hbytes hgranted)
  | _ => cases h3D

theorem Call.escape_of_fits (hfits : c.Fits) (hgranted : c.bytes ≤ 65536) {nsid : ℕ}
    {data : List Byte} (hcmd : c.cmd = .escape nsid data) :
    c.words[2]? = some data.length ∧ c.bytes = 12 + (data.length + 3) / 4 * 4 := by
  have hbytes := c.fits_iff.mp hfits
  obtain ⟨cmd, pad, hwf, hpad⟩ := c
  cases hcmd
  have hlength : (⟨.escape nsid data, pad, hwf, hpad⟩ : Call).words.length =
      3 + (data.length + 3) / 4 := by
    simp only [Cmd.slack] at hpad
    simp only [Call.words, Cmd.write, fifoReserveEscape, List.length_cons, Formats.length_pack,
      List.length_append, hpad]
    omega
  refine ⟨?_, by rw [hbytes, hlength]; omega⟩
  change some (u32 (u64 data.length)) = _
  rw [hbytes, hlength] at hgranted
  rw [u64_of_lt (by omega), u32_of_lt (by omega)]

/-- The committed stream is read back as the commands issued and as no others; each 3D header
has the size of its payload, each escape its length before padding, and nothing of a command
lies past its reservation. -/
structure Faithful (s : Driver) : Prop where
  parses : parseAll s.world.committed = some (s.issued.map Call.cmd)
  unique : ∀ calls : List Call, (∀ c ∈ calls, c.Fits ∧ c.bytes ≤ bounceBufferSize) →
    (calls.map Call.sent).flatten = s.world.committed →
    calls.map Call.cmd = s.issued.map Call.cmd
  header : ∀ c ∈ s.issued, c.cmd.is3D = true → c.words[1]? = some (4 * (c.words.length - 2))
  escape : ∀ c ∈ s.issued, ∀ nsid data, c.cmd = .escape nsid data →
    c.words[2]? = some data.length ∧ c.bytes = 12 + (data.length + 3) / 4 * 4
  apart : ∀ c ∈ s.issued, 4 * c.words.length ≤ c.bytes

/-- In every run the committed stream is read back as it was issued exactly when every size
fits, in a build with a `size_t` of 64 bits. -/
theorem faithful_iff_fits (s : Driver) (h : Reachable s) (hpc : ∀ ss, s.world.pc ≠ .committing ss) :
    Faithful s ↔ ∀ c ∈ s.issued, c.Fits := by
  have hcommitted := h.committed_eq hpc
  constructor
  · intro hf c hc
    exact c.fits_iff.mpr (Nat.le_antisymm c.bytes_le (hf.apart c hc))
  · intro hfits
    have hall : ∀ c ∈ s.issued, c.Fits ∧ c.bytes ≤ 65536 :=
      fun c hc => ⟨hfits c hc, h.inv.granted c hc⟩
    have hparses : parseAll s.world.committed = some (s.issued.map Call.cmd) := by
      rw [hcommitted]
      exact parseAll_sent hall
    refine ⟨hparses, fun calls hcalls heq => ?_, fun c hc h3D => ?_, fun c hc nsid data hcmd => ?_,
      fun c hc => (c.fits_iff.mp (hfits c hc)).ge⟩
    · have hother := parseAll_sent hcalls
      rw [heq, hparses] at hother
      exact (Option.some.inj hother).symm
    · exact Call.header_of_fits (hall c hc).1 (hall c hc).2 h3D
    · exact Call.escape_of_fits (hall c hc).1 (hall c hc).2 hcmd

/-! ### Two commands on a ring of four words -/

open Cesvga2.Fifo (smallDev started_smallDev) in
/-- A device that has started takes any command of three words. -/
theorem reachable_issued (hc : c.bytes = 12) :
    ∃ s, Reachable s ∧ (∀ ss, s.world.pc ≠ .committing ss) ∧ s.issued = [c] := by
  have hrej : ¬ (smallDev.fifoInit true).2.rejects c.bytes := by
    rw [hc]
    decide +kernel
  have hroom : (smallDev.fifoInit true).2.reservePass c.bytes ≠ .full := by
    rw [hc]
    decide +kernel
  obtain ⟨s, hs, -, hpc, hissued⟩ := (Reachable.start started_smallDev).issue rfl rfl hrej hroom
  exact ⟨s, hs, by simp [hpc], hissued⟩

/-- `DefineContext(5)`. -/
def defineContext5 : Call := ⟨(Helper.defineContext 5).cmd, [], Helper.wellFormed _, rfl⟩

theorem faithful_defineContext5 : ∃ s, Reachable s ∧ s.issued = [defineContext5] ∧ Faithful s := by
  obtain ⟨s, hs, hpc, hissued⟩ := reachable_issued (show defineContext5.bytes = 12 by decide)
  refine ⟨s, hs, hissued, (faithful_iff_fits s hs hpc).mpr ?_⟩
  rw [hissued, List.forall_mem_singleton, Call.fits_iff]
  decide

/-- An escape of `SIZE_MAX` bytes. -/
def largestEscape : Call where
  cmd := .escape 0 (List.replicate (2 ^ 64 - 1) 0)
  pad := [0]
  wf := trivial
  pad_length := by rw [Cmd.slack, List.length_replicate]; rfl

theorem largestEscape_bytes : largestEscape.bytes = 12 := by
  rw [Call.bytes, largestEscape, Cmd.write, List.length_replicate]
  decide

theorem largestEscape_sent : largestEscape.sent = [33, 0, 2 ^ 32 - 1] := by
  rw [Call.sent, largestEscape_bytes, Call.words, largestEscape, Cmd.write,
    List.length_replicate]
  rfl

/-- Its padded length wraps to 0, and the device is told of 4 GiB that are not there. -/
theorem not_faithful_largestEscape :
    ∃ s, Reachable s ∧ s.issued = [largestEscape] ∧ s.world.committed = [33, 0, 2 ^ 32 - 1] ∧
      parseAll s.world.committed = none ∧ ¬ Faithful s := by
  obtain ⟨s, hs, hpc, hissued⟩ := reachable_issued largestEscape_bytes
  have hcommitted : s.world.committed = [33, 0, 2 ^ 32 - 1] := by
    rw [hs.committed_eq hpc, hissued, List.map_singleton, List.flatten_singleton,
      largestEscape_sent]
  have hparse : parseAll s.world.committed = none := by
    rw [hcommitted]
    decide +kernel
  refine ⟨s, hs, hissued, hcommitted, hparse, fun hf => ?_⟩
  have hsome := hf.parses
  rw [hparse] at hsome
  cases hsome

end Cesvga2.Wire
