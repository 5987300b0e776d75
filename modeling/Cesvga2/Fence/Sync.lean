import Cesvga2.Fence.Present

/-! What `SyncToFence` guarantees: when it returns, the device is past the fence, whatever else
has been queued and however often the ids have wrapped. -/

namespace Cesvga2.Fence.Svga

variable {R : Ring} {d : Svga} {c : Cmd} {f n p : ℕ}

/-- The device with a stream that has always fitted the ring. -/
structure Ready (R : Ring) (d : Svga) : Prop where
  numbered : d.Numbered
  bytes : d.pendingBytes ≤ R.bytes

theorem ready_init : init.Ready R := ⟨numbered_init, Nat.zero_le _⟩

theorem Ready.commit (h : d.Ready R) (hc : c.id? = none) (hfit : R.Fits d c) :
    (d.commit c).Ready R :=
  ⟨h.numbered.commit hc, (pendingBytes_commit h.numbered.head).trans_le hfit⟩

theorem Ready.insertFence (h : d.Ready R) (hfit : R.Fits d (.fence 0)) :
    (d.insertFence true).2.Ready R :=
  ⟨h.numbered.insertFence, (Sys.insertFence_fits h.numbered hfit).1⟩

theorem Ready.process (h : d.Ready R) : d.process.Ready R :=
  ⟨h.numbered.process, pendingBytes_process.trans h.bytes⟩

/-- The fence that is inserted has an id and comes last. -/
theorem Ready.insertFence_log (h : d.Ready R) :
    (d.insertFence true).2.log = d.log ++ [.fence (d.insertFence true).1] := by
  rw [(Sys.insertFence_log h.numbered).1, h.numbered.insertFence_eq]

theorem Ready.insertFence_ne_zero (h : d.Ready R) : (d.insertFence true).1 ≠ 0 := by
  rw [h.numbered.insertFence_eq]
  exact (serial_pos _).ne'

theorem insertFence_head : (d.insertFence true).2.head = d.head := by
  unfold Svga.insertFence
  split <;> rfl

/-! ### While the driver waits -/

/-- The device processes `n` commands. -/
def advance (d : Svga) (n : ℕ) : Svga := Svga.process^[n] d

theorem process_head_le : d.head ≤ d.process.head := by
  unfold Svga.process
  split
  · exact Nat.le_succ _
  · exact le_rfl

theorem Ready.advance (h : d.Ready R) (n : ℕ) : (d.advance n).Ready R :=
  Function.Iterate.rec (Ready R) h (fun _ hd => hd.process) n

theorem advance_log (d : Svga) (n : ℕ) : (d.advance n).log = d.log :=
  Function.Iterate.rec (fun e : Svga => e.log = d.log) rfl (fun _ he => process_log.trans he) n

theorem advance_head_le (d : Svga) (n : ℕ) : d.head ≤ (d.advance n).head :=
  Function.Iterate.rec (fun e : Svga => d.head ≤ e.head) le_rfl
    (fun _ he => he.trans process_head_le) n

/-- `SyncToFence` returns once the fence is taken as passed or the device is not busy. -/
def SyncedTo (d : Svga) (f : ℕ) : Prop := d.hasFencePassedUnguarded f = true ∨ d.Idle

/-- The fence at a place of the log has the id of its number. -/
theorem Numbered.serial_of_log (h : d.Numbered) (hp : d.log[p]? = some (.fence f)) :
    (((d.log.take p).filterMap Cmd.id?).length < d.issued.length) ∧
      f = serial ((d.log.take p).filterMap Cmd.id?).length := by
  obtain ⟨hlt, hget⟩ := List.getElem?_eq_some_iff.mp hp
  have hissued : d.issued = (d.log.take p).filterMap Cmd.id? ++
      f :: (d.log.drop (p + 1)).filterMap Cmd.id? := by
    have hsplit : d.log = d.log.take p ++ .fence f :: d.log.drop (p + 1) := by
      rw [← hget, List.cons_getElem_drop_succ, List.take_append_drop]
    rw [Svga.issued]
    nth_rewrite 1 [hsplit]
    rw [List.filterMap_append, List.filterMap_cons]
    rfl
  have hk : ((d.log.take p).filterMap Cmd.id?).length < d.issued.length := by
    rw [hissued, List.length_append, List.length_cons]
    omega
  refine ⟨hk, ?_⟩
  have hf := h.issued _ hk
  rw [hissued, List.getElem?_append_right le_rfl, Nat.sub_self, List.getElem?_cons_zero] at hf
  exact Option.some.inj hf

/-- When `SyncToFence` returns, the device has processed the fence. -/
theorem Ready.head_of_syncedTo (h : d.Ready R) (hp : d.log[p]? = some (.fence f))
    (hs : d.SyncedTo f) : p < d.head := by
  rcases hs with hpassed | hidle
  · obtain ⟨hk, rfl⟩ := h.numbered.serial_of_log hp
    have hlt := h.numbered.passed_of_unguarded h.bytes hk hpassed
    -- the device has counted the fence, so it is past it
    by_contra hle
    have hsub : (d.log.take d.head).Sublist (d.log.take p) :=
      (List.take_prefix_take_left (by omega)).sublist
    have := (hsub.filterMap Cmd.id?).length_le
    rw [Svga.passed] at hlt
    omega
  · rw [hidle]
    exact (List.getElem?_eq_some_iff.mp hp).1

end Cesvga2.Fence.Svga
