import Cesvga2.Fifo.Commit

/-! The FIFO as a stream. In every interleaving of the guest with the device, what the
device has consumed is the beginning of what has been committed, what it has not
consumed yet is safe in the ring, and `NEXT_CMD` meets `STOP` only when nothing is
left to consume. -/

namespace Cesvga2.Fifo

open Rings

variable {d : Dev} {N h t n i : ℕ} {unread ahead rest : List ℕ} {ss : List Dev.Store} {pc : Pc}
  {w : World} {act : Act}

/-! ### Invariant -/

/-- Where the guest is, with `n` of the `N` words unread and `NEXT_CMD` at position `t`:
`ahead` is stored after `NEXT_CMD`, and `rest` is still to be shown. -/
inductive Phase (N t n : ℕ) (d : Dev) : Pc → List ℕ → List ℕ → Prop
  | idle (hd : 4 ∣ d.reservedSize) (hle : d.reservedSize ≤ bounceBufferSize)
      (hroom : n + d.reservedSize / 4 < N)
      (hplace : d.usingBounce = false → t % N + d.reservedSize / 4 ≤ N) :
      Phase N t n d .idle [] []
  | reserving (hd : 4 ∣ d.reservedSize) (hle : d.reservedSize ≤ bounceBufferSize) (hn : n < N) :
      Phase N t n d (.reserving d.reservedSize) [] []
  | committing {room : ℕ} {ahead rest : List ℕ} {s : Dev.Store} {ss : List Dev.Store}
      (h : Pending N t room ahead (s :: ss) rest) (hroom : n + room < N)
      (h0 : d.reservedSize = 0) : Phase N t n d (.committing (s :: ss)) ahead rest

namespace Phase

theorem unread_lt (hp : Phase N t n d pc ahead rest) : n < N := by
  cases hp <;> omega

/-- The device only makes room. -/
theorem mono {m : ℕ} {d' : Dev} (hp : Phase N t n d pc ahead rest) (hm : m ≤ n)
    (hr : d'.reservedSize = d.reservedSize) (hu : d'.usingBounce = d.usingBounce) :
    Phase N t m d' pc ahead rest := by
  cases hp with
  | idle hd hle hroom hplace =>
    rw [← hr] at hd hle hroom
    refine .idle hd hle (by omega) ?_
    rw [hr, hu]
    exact hplace
  | reserving hd hle hn =>
    rw [← hr] at hd hle ⊢
    exact .reserving hd hle (by omega)
  | committing h hroom h0 =>
    exact .committing h (by omega) (hr.trans h0)

/-- With no store left the guest is back outside. -/
theorem ofStores {room : ℕ} (hs : Pending N t room ahead ss rest) (hroom : n + room < N)
    (hN : 0 < N) (h0 : d.reservedSize = 0) : Phase N t n d (.ofStores ss) ahead rest := by
  cases ss with
  | nil =>
    cases hs
    have := Nat.mod_lt t hN
    apply Phase.idle <;> rw [h0]
    · exact dvd_zero 4
    · exact Nat.zero_le _
    · omega
    · intro
      omega
  | cons s ss => exact .committing hs hroom h0

end Phase

/-- The stream so far: consumed, unread in the ring, and still owed by a commit. -/
def Inv (w : World) : Prop :=
  ∃ N unread ahead rest, Laid w.dev N w.consumed.length unread ahead ∧
    w.committed = w.consumed ++ unread ∧ w.commands.flatten = w.committed ++ rest ∧
    Phase N (w.consumed.length + unread.length) unread.length w.dev w.pc ahead rest

/-! ### Steps -/

theorem inv_reserve {bytes : ℕ} (hi : Inv w) (hl : (Act.reserve bytes).Legal w) :
    Inv ((Act.reserve bytes).exec w) := by
  obtain ⟨N, unread, ahead, rest, hL, hc, hf, hp⟩ := hi
  simp only [Act.exec]
  split_ifs with hrej
  · exact ⟨N, unread, ahead, rest, hL, hc, hf, hp⟩
  · simp only [Dev.rejects, not_or, not_lt, not_not] at hrej
    have hn := hp.unread_lt
    rw [Act.Legal] at hl
    rw [hl] at hp
    cases hp with
    | idle =>
      refine ⟨N, unread, [], [], hL.of_fifo_eq rfl, hc, hf, ?_⟩
      exact .reserving (Nat.dvd_of_mod_eq_zero hrej.2.2.1) hrej.1 hn

theorem inv_retry (hi : Inv w) (hl : Act.retry.Legal w) : Inv (Act.retry.exec w) := by
  obtain ⟨N, unread, ahead, rest, hL, hc, hf, hp⟩ := hi
  obtain ⟨bytes, hpc⟩ := hl
  rw [hpc] at hp
  cases hp with
  | reserving hd hle hn =>
    have hsize := w.dev.afterPass_reservedSize w.dev.reservedSize
      (w.dev.reservePass w.dev.reservedSize)
    have hfits : (w.dev.reservePass w.dev.reservedSize).Fits N unread.length
        ((w.consumed.length + unread.length) % N) (w.dev.reservedSize / 4) := by
      have := Dev.reservePass_fits hL hn (k := w.dev.reservedSize / 4)
      rwa [Nat.mul_div_cancel' hd] at this
    simp only [Act.exec, hpc]
    refine ⟨N, unread, [], [], hL.afterPass _, hc, hf, ?_⟩
    cases hg : w.dev.reservePass w.dev.reservedSize with
    | full => exact .reserving hd hle hn
    | inPlace =>
      rw [hg] at hfits hsize
      apply Phase.idle <;> rw [hsize]
      · exact hd
      · exact hle
      · exact hfits.1
      · exact fun _ => hfits.2
    | bounce =>
      rw [hg] at hfits hsize
      apply Phase.idle <;> rw [hsize]
      · exact hd
      · exact hle
      · exact hfits
      · exact fun hu => absurd hu (by simp [Dev.afterPass])

theorem inv_fill {i v : ℕ} (hi : Inv w) (hl : (Act.fill i v).Legal w) :
    Inv ((Act.fill i v).exec w) := by
  obtain ⟨N, unread, ahead, rest, hL, hc, hf, hp⟩ := hi
  obtain ⟨hpc, hlt⟩ := hl
  have hp' := hp
  rw [hpc] at hp
  cases hp with
  | idle hd hle hroom hplace =>
    simp only [Act.exec, Dev.fill]
    split_ifs with hu
    · exact ⟨N, unread, [], [], hL.of_fifo_eq rfl, hc, hf, hp'.mono le_rfl rfl rfl⟩
    · refine ⟨N, unread, [], [], ?_, hc, hf, hp'.mono le_rfl rfl rfl⟩
      rw [hL.slot_inPlace (hplace (by simpa using hu)) (by omega)]
      exact hL.fill (by omega) (by omega)

theorem inv_commit {bytes : ℕ} (hi : Inv w) (hl : (Act.commit bytes).Legal w) :
    Inv ((Act.commit bytes).exec w) := by
  obtain ⟨N, unread, ahead, rest, hL, hc, hf, hp⟩ := hi
  obtain ⟨hpc, hlt⟩ := hl
  simp only [Act.exec]
  split_ifs with hrej
  · exact ⟨N, unread, ahead, rest, hL, hc, hf, hp⟩
  · rw [hpc] at hp
    cases hp with
    | idle hd hle hroom hplace =>
      obtain ⟨k, rfl⟩ : ∃ k, bytes = 4 * k := ⟨bytes / 4, by omega⟩
      obtain ⟨ahead, hL', hs⟩ := hL.commit (k := k) (by omega) (by omega)
        (fun hu => by have := hplace hu; omega)
      refine ⟨N, unread, ahead, w.dev.commitWords (4 * k), hL'.of_fifo_eq rfl, hc, ?_, ?_⟩
      · rw [List.append_nil] at hf
        rw [List.flatten_append, hf, List.flatten_singleton]
      · exact .ofStores hs (by omega) hL.pos rfl

theorem inv_store (hi : Inv w) (hl : Act.store.Legal w) : Inv (Act.store.exec w) := by
  obtain ⟨N, unread, ahead, rest, hL, hc, hf, hp⟩ := hi
  obtain ⟨s, ss, hpc⟩ := hl
  rw [hpc] at hp
  simp only [Act.exec, hpc]
  cases hp with
  | committing hs hroom h0 =>
    cases hs with
    | reserved hs =>
      refine ⟨N, unread, ahead, rest, hL.write_reserved, ?_, ?_, .ofStores hs hroom hL.pos h0⟩
      · rw [List.append_nil, hc]
      · rw [List.append_nil, hf]
    | put hr hs =>
      refine ⟨N, unread, _, rest, hL.put (by omega), ?_, ?_, .ofStores hs hroom hL.pos h0⟩
      · rw [List.append_nil, hc]
      · rw [List.append_nil, hf]
    | @publish _ _ p ahead rest _ hr hs =>
      refine ⟨N, unread ++ p, ahead, rest, hL.publish, ?_, ?_, ?_⟩
      · rw [hc, List.append_assoc]
      · rw [hf, List.append_assoc]
      · rw [List.length_append, ← Nat.add_assoc]
        exact .ofStores hs (by omega) hL.pos h0

theorem inv_consume (hi : Inv w) (hl : Act.consume.Legal w) : Inv (Act.consume.exec w) := by
  obtain ⟨N, unread, ahead, rest, hL, hc, hf, hp⟩ := hi
  rw [Act.Legal, ne_eq, hL.next_eq_stop_iff hp.unread_lt] at hl
  obtain ⟨v, unread, rfl⟩ := List.exists_cons_of_ne_nil hl
  refine ⟨N, unread, ahead, rest, ?_, ?_, hf, ?_⟩
  · simp only [Act.exec, List.length_append, List.length_singleton]
    exact hL.consume
  · simp only [Act.exec, hL.stop_word]
    rw [hc, List.append_assoc, List.singleton_append]
  · simp only [Act.exec, List.length_append, List.length_singleton]
    rw [Nat.add_assoc, Nat.add_comm 1]
    exact hp.mono (by simp) rfl rfl

theorem inv_start (hs : Started d) : Inv ⟨d, .idle, [], [], []⟩ := by
  obtain ⟨d₀, hd₀⟩ := hs.init
  have hregs := d₀.fifoInit_regs
  rw [hd₀] at hregs
  obtain ⟨hmin, hmax, hnext, hstop⟩ := hregs
  obtain ⟨m, hm⟩ := hs.words
  have hroom := hs.room
  have hap := hs.aperture
  refine ⟨m - fifoNumRegs, [], [], [], ?_, rfl, rfl, ?_⟩
  · constructor
    · omega
    · omega
    · rw [hmin, Nat.mul_comm]
    · rw [hmax]
      omega
    · rw [hstop, List.length_nil, Nat.zero_mod]
      omega
    · rw [hnext, List.length_nil, Nat.zero_mod]
      omega
    · exact holds_nil
  · have hnone : Pending (m - fifoNumRegs) 0 0 [] [] [] := .done
    exact .ofStores hnone (by simp only [List.length_nil]; omega) (by omega) hs.unreserved

theorem Reachable.inv (hw : Reachable w) : Inv w := by
  induction hw with
  | start hs => exact inv_start hs
  | step act _ hl ih =>
    cases act with
    | reserve bytes => exact inv_reserve ih hl
    | retry => exact inv_retry ih hl
    | fill i v => exact inv_fill ih hl
    | commit bytes => exact inv_commit ih hl
    | store => exact inv_store ih hl
    | consume => exact inv_consume ih hl

/-! ### Nothing unread is overwritten -/

/-- The guest's stores miss the words between `STOP` and `NEXT_CMD`. -/
theorem Inv.not_mem_targets (hi : Inv w) (hl : act.Legal w) (hu : w.Unread i) :
    i ∉ act.targets w := by
  obtain ⟨N, unread, ahead, rest, hL, -, -, hp⟩ := hi
  obtain ⟨j, hj, rfl⟩ := hu.position hL hp.unread_lt
  -- a store to the ring goes to a position less than a lap past the unread word
  have hmiss : ∀ k, unread.length ≤ k → k < N →
      fifoNumRegs + (w.consumed.length + j) % N ≠ fifoNumRegs + (w.consumed.length + k) % N := by
    intro k hk hkN he
    exact mod_ne_mod (by omega) (by omega) (Nat.add_left_cancel he)
  have hreg : ∀ r < fifoNumRegs, fifoNumRegs + (w.consumed.length + j) % N ≠ r := by
    intro r hr
    omega
  cases act with
  | reserve bytes => exact List.not_mem_nil
  | retry => exact fun hm => hreg _ (by decide) (List.mem_singleton.mp hm)
  | fill i v =>
    obtain ⟨hpc, hlt⟩ := hl
    rw [hpc] at hp
    cases hp with
    | idle hd hle hroom hplace =>
      simp only [Act.targets]
      split_ifs with hb
      · exact List.not_mem_nil
      · rw [hL.slot_inPlace (hplace (by simpa using hb)) (by omega), List.mem_singleton]
        exact hmiss _ (by omega) (by omega)
  | commit bytes => exact List.not_mem_nil
  | store =>
    obtain ⟨s, ss, hpc⟩ := hl
    rw [hpc] at hp
    simp only [Act.targets, hpc, List.mem_singleton]
    cases hp with
    | committing hs hroom h0 =>
      cases hs with
      | reserved hs => exact hreg fifoReserved (by decide)
      | put hr hs =>
        rw [Nat.add_assoc]
        exact hmiss _ (by omega) (by omega)
      | publish hr hs => exact hreg fifoNextCmd (by decide)
  | consume => exact List.not_mem_nil

/-- Apart from `STOP`, which the device moves, only the guest's stores change FIFO
memory. -/
theorem exec_fifo (hs : i ≠ fifoStop) (ht : i ∉ act.targets w) :
    (act.exec w).dev.fifo i = w.dev.fifo i := by
  cases act with
  | reserve bytes =>
    simp only [Act.exec]
    split_ifs <;> rfl
  | retry =>
    have hne : i ≠ fifoReserved := fun he => ht (List.mem_singleton.mpr he)
    simp only [Act.exec]
    cases w.pc with
    | reserving bytes =>
      cases hg : w.dev.reservePass bytes with
      | inPlace =>
        simp only [hg, Dev.afterPass]
        split_ifs
        · exact Function.update_of_ne hne _ _
        · rfl
      | full => simp only [hg, Dev.afterPass]
      | bounce => simp only [hg, Dev.afterPass]
    | idle => rfl
    | committing ss => rfl
  | fill k v =>
    simp only [Act.exec, Act.targets, Dev.fill] at ht ⊢
    split_ifs at ht ⊢
    · rfl
    · exact Function.update_of_ne (fun he => ht (List.mem_singleton.mpr he)) _ _
  | commit bytes =>
    simp only [Act.exec]
    split_ifs <;> rfl
  | store =>
    simp only [Act.exec, Act.targets] at ht ⊢
    split
    · rename_i hpc
      simp only [hpc, List.mem_singleton] at ht
      exact Function.update_of_ne ht _ _
    · rfl
  | consume => exact Function.update_of_ne hs _ _

/-- Outside a commit, `NEXT_CMD` has passed every command. -/
theorem Inv.committed_eq (hi : Inv w) (hpc : ∀ ss, w.pc ≠ .committing ss) :
    w.committed = w.commands.flatten := by
  obtain ⟨N, unread, ahead, rest, hL, hc, hf, hp⟩ := hi
  generalize w.pc = pc at hp hpc
  cases hp with
  | idle => rw [hf, List.append_nil]
  | reserving => rw [hf, List.append_nil]
  | committing => exact absurd rfl (hpc _)

/-- In every interleaving the device consumes the committed words in order. `NEXT_CMD`
meets `STOP` exactly when everything committed has been consumed, and no store of the
guest goes to a word that has not been consumed yet. -/
theorem consumed_in_order (hw : Reachable w) :
    w.consumed <+: w.committed ∧ w.committed <+: w.commands.flatten ∧
    ((∀ ss, w.pc ≠ .committing ss) → w.committed = w.commands.flatten) ∧
    (w.dev.fifo fifoNextCmd = w.dev.fifo fifoStop ↔ w.consumed = w.committed) ∧
    ∀ act : Act, act.Legal w → ∀ i, w.Unread i →
      i ∉ act.targets w ∧ (act.exec w).dev.fifo i = w.dev.fifo i := by
  have hi := hw.inv
  have hi' := hi
  obtain ⟨N, unread, ahead, rest, hL, hc, hf, hp⟩ := hi
  refine ⟨⟨unread, hc.symm⟩, ⟨rest, hf.symm⟩, hi'.committed_eq, ?_, ?_⟩
  · rw [hL.next_eq_stop_iff hp.unread_lt, hc]
    exact ⟨fun h => by rw [h, List.append_nil], fun h => List.self_eq_append_right.mp h⟩
  · intro act hl i hu
    have ht := hi'.not_mem_targets hl hu
    obtain ⟨j, -, rfl⟩ := hu.position hL hp.unread_lt
    refine ⟨ht, exec_fifo ?_ ht⟩
    simp only [fifoNumRegs, fifoStop]
    omega

/-- A ring of four words on a device with both capabilities. -/
def smallDev : Dev where
  fifo i := if i = fifoCapabilities then capCursorBypass3 ||| capReserve else 0
  bounce _ := 0
  usingBounce := false
  reservedSize := 0
  fifoSize := (fifoNumRegs + 4) * 4

theorem started_smallDev : Started (smallDev.fifoInit true).2 where
  init := ⟨smallDev, rfl⟩
  words := by decide
  room := by decide
  aperture := by decide
  unreserved := by decide

/-- One command of two words, of which the device has taken one. -/
def smallWorld : World :=
  [Act.reserve 8, .retry, .fill 0 7, .fill 1 9, .commit 8, .store, .consume].foldl
    (fun w act => act.exec w) ⟨(smallDev.fifoInit true).2, .idle, [], [], []⟩

theorem reachable_smallWorld : Reachable smallWorld := by
  have h₀ := Reachable.start started_smallDev
  have h₁ := h₀.step (.reserve 8) rfl
  have h₂ := h₁.step .retry ⟨8, rfl⟩
  have h₃ := h₂.step (.fill 0 7) ⟨by decide +kernel, by decide +kernel⟩
  have h₄ := h₃.step (.fill 1 9) ⟨by decide +kernel, by decide +kernel⟩
  have h₅ := h₄.step (.commit 8) ⟨by decide +kernel, by decide +kernel⟩
  have h₆ := h₅.step .store
    ⟨⟨fifoNextCmd, 4 * (fifoNumRegs + 2), [7, 9]⟩, [⟨fifoReserved, 0, []⟩], by decide +kernel⟩
  exact h₆.step .consume (by rw [Act.Legal]; decide +kernel)

theorem consumed_in_order_smallWorld :
    smallWorld.consumed = [7] ∧ smallWorld.commands = [[7, 9]] ∧
    smallWorld.committed <+: smallWorld.commands.flatten :=
  ⟨by decide +kernel, by decide +kernel, (consumed_in_order reachable_smallWorld).2.1⟩

end Cesvga2.Fifo
