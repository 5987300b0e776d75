import Cesvga2.Fifo.Layout

/-! The stores of `FIFOCommit`, in place, copied from the bounce buffer or word by
word. In each of the three ways the ring ahead of `NEXT_CMD` is written only inside
the room the reservation found, and `NEXT_CMD` passes exactly the words of the
command, each after it has been stored. -/

namespace Cesvga2.Fifo

open Rings

variable {d : Dev} {N h t room : ℕ} {unread ahead p rest : List ℕ} {ss : List Dev.Store}

/-- Stores to go while `NEXT_CMD` is at position `t`, with room for `room` words from
there on and `ahead` already stored: in the end they have shown the device `rest`. -/
inductive Pending (N : ℕ) : ℕ → ℕ → List ℕ → List Dev.Store → List ℕ → Prop
  | done {t room : ℕ} : Pending N t room [] [] []
  | reserved {t room v : ℕ} {ahead rest : List ℕ} {ss : List Dev.Store}
      (h : Pending N t room ahead ss rest) :
      Pending N t room ahead (⟨fifoReserved, v, []⟩ :: ss) rest
  | put {t room v : ℕ} {ahead rest : List ℕ} {ss : List Dev.Store} (hr : ahead.length < room)
      (h : Pending N t room (ahead ++ [v]) ss rest) :
      Pending N t room ahead (⟨fifoNumRegs + (t + ahead.length) % N, v, []⟩ :: ss) rest
  | publish {t room : ℕ} {p ahead rest : List ℕ} {ss : List Dev.Store} (hr : p.length ≤ room)
      (h : Pending N (t + p.length) (room - p.length) ahead ss rest) :
      Pending N t room (p ++ ahead)
        (⟨fifoNextCmd, 4 * (fifoNumRegs + (t + p.length) % N), p⟩ :: ss) (p ++ rest)

namespace Pending

theorem copyStores {bounce : ℕ → ℕ} {dst src n : ℕ}
    (hdst : ∀ j < n, dst + j = fifoNumRegs + (t + (ahead.length + j)) % N)
    (hr : ahead.length + n ≤ room)
    (h : Pending N t room (ahead ++ (List.range n).map fun j => bounce (src + j)) ss rest) :
    Pending N t room ahead (Dev.copyStores bounce dst src n ++ ss) rest := by
  induction n generalizing ss with
  | zero => simpa [Dev.copyStores] using h
  | succ n ih =>
    simp only [Dev.copyStores, List.range_succ, List.map_append, List.map_cons, List.map_nil,
      List.append_assoc, List.singleton_append] at h ⊢
    apply ih (fun j hj => hdst j (by omega)) (by omega)
    rw [hdst n (by omega)]
    have hlen : (ahead ++ (List.range n).map fun j => bounce (src + j)).length =
        ahead.length + n := by simp
    rw [← hlen]
    apply put (by omega)
    rwa [List.append_assoc]

theorem wordLoop {b : ℕ → ℕ} {n k next : ℕ} (hN : 0 < N)
    (hlt : 4 * (fifoNumRegs + N) < 2 ^ 32) (hnext : next = 4 * (fifoNumRegs + t % N))
    (hr : n ≤ room) (h : Pending N (t + n) (room - n) [] ss rest) :
    Pending N t room [] (Dev.wordLoop b (4 * fifoNumRegs) (4 * (fifoNumRegs + N)) n k next ++
      ss) ((List.range n).map (fun j => b (k + j)) ++ rest) := by
  induction n generalizing t room k next with
  | zero => simpa [Dev.wordLoop] using h
  | succ n ih =>
    have hmod := succ_mod (p := t) hN
    have ht := Nat.mod_lt t hN
    have hstep : (if u32 (next + 4) = 4 * (fifoNumRegs + N) then 4 * fifoNumRegs
        else u32 (next + 4)) = 4 * (fifoNumRegs + (t + 1) % N) := by
      rw [u32_of_lt (by omega), hmod, hnext]
      split_ifs <;> omega
    have hwords : (List.range (n + 1)).map (fun j => b (k + j)) =
        b k :: (List.range n).map fun j => b (k + 1 + j) := by
      rw [List.range_succ_eq_map, List.map_cons, List.map_map]
      simp only [Nat.add_zero, Function.comp_def, Nat.succ_eq_add_one, Nat.add_assoc,
        Nat.add_comm 1]
    rw [Dev.wordLoop, hstep, hwords, List.cons_append, List.cons_append]
    have hput : next / 4 = fifoNumRegs + (t + ([] : List ℕ).length) % N := by
      rw [hnext, Nat.mul_div_cancel_left _ (by norm_num), List.length_nil, Nat.add_zero]
    rw [hput]
    apply put (by rw [List.length_nil]; omega)
    apply publish (p := [b k]) (by rw [List.length_singleton]; omega)
    apply ih rfl (by rw [List.length_singleton]; omega)
    rw [List.length_singleton, Nat.add_assoc, Nat.sub_sub, Nat.add_comm 1]
    exact h

theorem publishOne (hr : p.length ≤ room)
    (hs : Pending N (t + p.length) (room - p.length) [] ss []) :
    Pending N t room p (⟨fifoNextCmd, 4 * (fifoNumRegs + (t + p.length) % N), p⟩ :: ss) p := by
  have h := publish hr hs
  rwa [List.append_nil] at h

/-- The last store of a commit. -/
theorem last (reservable : Bool) :
    Pending N t room [] (if reservable then [⟨fifoReserved, 0, []⟩] else []) [] := by
  cases reservable with
  | true => exact .reserved .done
  | false => exact .done

end Pending

namespace Laid

theorem publishStore_eq (hL : Laid d N h unread ahead) {k : ℕ} (hk : 4 * k ≤ bounceBufferSize)
    (hkN : k ≤ N) : d.publishStore (4 * k) =
      ⟨fifoNextCmd, 4 * (fifoNumRegs + (h + unread.length + k) % N), d.commitWords (4 * k)⟩ := by
  have hap := hL.aperture
  have hpast := hL.past_lt
  have hlt := Nat.mod_lt (h + unread.length) hL.pos
  rw [Dev.publishStore, hL.next_eq, hL.max_eq, hL.min_eq, add_mod_of_le hkN hL.pos,
    u32_of_lt (n := 4 * k) (by omega), u32_of_lt (by omega),
    sub32_of_le (n := 4 * (fifoNumRegs + N)) (by omega) (by omega)]
  congr 1
  split_ifs with h₁ h₂ h₂
  · omega
  · rw [sub32_of_le (by omega) (by omega)]
    omega
  · omega
  · omega

/-- What the client put into its reservation stands in the ring already. -/
theorem holds_inPlace (hL : Laid d N h unread ahead) (hb : d.usingBounce = false) {k : ℕ}
    (hk : (h + unread.length) % N + k ≤ N) :
    Holds N (fun j => d.fifo (fifoNumRegs + j)) (h + unread.length) (d.commitWords (4 * k)) := by
  intro j hj
  simp only [Dev.commitWords, Nat.mul_div_cancel_left k (show 0 < 4 by norm_num),
    List.length_map, List.length_range] at hj
  simp only [Dev.commitWords, List.getElem_map, List.getElem_range, Dev.reservedWord, hb,
    Bool.false_eq_true, ↓reduceIte]
  rw [hL.slot_inPlace hk hj, Nat.add_assoc]

/-- The two copies of a bounced commit, up to the end of the ring and from its start. -/
theorem pending_copies (hL : Laid d N h unread []) {k : ℕ} (hk : 4 * k ≤ bounceBufferSize)
    (hroom : unread.length + k < N)
    (hs : Pending N (h + unread.length) k ((List.range k).map d.bounce) ss rest) :
    Pending N (h + unread.length) k []
      (Dev.copyStores d.bounce (d.fifo fifoNextCmd / 4) 0 (d.chunkSize (4 * k) / 4) ++
        (Dev.copyStores d.bounce (d.fifo fifoMin / 4) (d.chunkSize (4 * k) / 4)
          ((4 * k - d.chunkSize (4 * k)) / 4) ++ ss)) rest := by
  have hap := hL.aperture
  have hpast := hL.past_lt
  have hlt := Nat.mod_lt (h + unread.length) hL.pos
  have hmod := fun j (hj : j ≤ N) => add_mod_of_le (p := h + unread.length) hj hL.pos
  obtain ⟨c, hchunk, hc⟩ : ∃ c, d.chunkSize (4 * k) = 4 * c ∧
      c = min k (N - (h + unread.length) % N) := by
    refine ⟨_, ?_, rfl⟩
    rw [Dev.chunkSize, hL.next_eq, hL.max_eq, sub32_of_le (by omega) (by omega),
      u32_of_lt (by omega)]
    split_ifs <;> omega
  rw [hchunk, ← Nat.mul_sub, hL.next_eq, hL.min_eq]
  simp only [Nat.mul_div_cancel_left _ (show 0 < 4 by norm_num)]
  apply Pending.copyStores
  · intro j hj
    rw [List.length_nil, hmod _ (by omega), if_pos (by omega)]
    omega
  · rw [List.length_nil]
    omega
  · apply Pending.copyStores
    · intro j hj
      simp only [List.nil_append, List.length_map, List.length_range]
      rw [hmod _ (by omega), if_neg (by omega)]
      omega
    · simp only [List.nil_append, List.length_map, List.length_range]
      omega
    · have hsplit : List.range k = List.range c ++ (List.range (k - c)).map (c + ·) := by
        rw [← List.range_add, Nat.add_sub_cancel' (by omega)]
      rw [hsplit, List.map_append, List.map_map] at hs
      simpa [Function.comp_def] using hs

/-- A commit shows the device what the client put into its reservation. -/
theorem commit (hL : Laid d N h unread []) {k : ℕ} (hk : 4 * k ≤ bounceBufferSize)
    (hroom : unread.length + k < N)
    (hplace : d.usingBounce = false → (h + unread.length) % N + k ≤ N) :
    ∃ ahead, Laid d N h unread ahead ∧
      Pending N (h + unread.length) k ahead (d.commitStores (4 * k)) (d.commitWords (4 * k)) := by
  have hlen : (d.commitWords (4 * k)).length = k := by
    simp [Dev.commitWords]
  have hpub := Pending.publishOne (N := N) (t := h + unread.length) hlen.le
    (Pending.last (d.hasFifoCap capReserve))
  rw [hlen, ← hL.publishStore_eq hk (by omega)] at hpub
  cases hu : d.usingBounce with
  | false =>
    refine ⟨d.commitWords (4 * k), ?_, ?_⟩
    · have hh := hL.holds
      rw [List.append_nil] at hh
      exact { hL with holds := hh.extend (hL.holds_inPlace hu (hplace hu)) }
    · rw [Dev.commitStores_inPlace hu]
      exact hpub
  | true =>
    refine ⟨[], hL, ?_⟩
    have hwords : d.commitWords (4 * k) = (List.range k).map d.bounce := by
      simp [Dev.commitWords, Dev.reservedWord, hu]
    cases hr : d.hasFifoCap capReserve with
    | true =>
      rw [Dev.commitStores_copies hu hr]
      apply Pending.reserved
      apply hL.pending_copies hk hroom
      rw [hr, if_pos rfl] at hpub
      rwa [← hwords]
    | false =>
      rw [Dev.commitStores_words hu hr, hL.min_eq, hL.max_eq, hwords,
        Nat.mul_div_cancel_left k (by norm_num)]
      have hloop := Pending.wordLoop (b := d.bounce) (k := 0) (n := k) hL.pos hL.past_lt
        hL.next_eq le_rfl (.done (N := N))
      simpa using hloop

end Laid

end Cesvga2.Fifo
