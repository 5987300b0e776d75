import Cesvga2.Basic

/-! Fences in the command stream of the device. A fence gets the next id, which wraps at
`2 ^ 32` and is never zero; the device puts the id into its `FENCE` register when it comes to
the fence. Commands are kept with those that the device has processed, in the order in which
they were committed. -/

namespace Cesvga2.Fence

/-- A command of the stream, with its size in bytes where it may vary. `present` is a present
command that goes through `surfacePresentAutoSync`. -/
inductive Cmd where
  | fence (id : ℕ)
  | present (bytes : ℕ)
  | other (bytes : ℕ)
  deriving DecidableEq, Repr

/-- The id of a fence. -/
def Cmd.id? : Cmd → Option ℕ
  | .fence id => some id
  | _ => none

def Cmd.bytes : Cmd → ℕ
  | .fence _ => 8
  | .present n => n
  | .other n => n

/-- The fence state of `SVGADevice` and the stream: the device has processed the first
`head` commands of the log. -/
structure Svga where
  capFence : Bool
  nextFence : ℕ
  fence : ℕ
  log : List Cmd
  head : ℕ
  deriving DecidableEq, Repr

namespace Svga

/-- The device after `Init`, with nothing in the stream. -/
def init : Svga := ⟨true, 1, 0, [], 0⟩

variable (d : Svga)

/-- `FIFOReserve`, the stores of the command and `FIFOCommitAll`. -/
def commit (c : Cmd) : Svga := { d with log := d.log ++ [c] }

/-- The result is the fence, or 1 without the capability and 0 without a reservation. -/
def insertFence (reserve : Bool) : ℕ × Svga :=
  if d.capFence then
    let fence := if d.nextFence = 0 then 1 else d.nextFence
    let d' := { d with nextFence := u32 (fence + 1) }
    if reserve then (fence, d'.commit (.fence fence)) else (0, d')
  else (1, d)

/-- The register minus the fence is not negative as an `int32_t`. -/
def hasFencePassedUnguarded (fence : ℕ) : Bool := decide (sub32 d.fence fence < 2 ^ 31)

def hasFencePassed (fence : ℕ) : Bool :=
  if fence = 0 then true
  else if d.capFence then d.hasFencePassedUnguarded fence
  else false

/-- The device processes its next command, if there is one. -/
def process : Svga :=
  match d.log[d.head]? with
  | some c => { d with fence := c.id?.getD d.fence, head := d.head + 1 }
  | none => d

/-- The fences issued so far, and those of them that are processed. -/
def issued : List ℕ := d.log.filterMap Cmd.id?

def passed : ℕ := ((d.log.take d.head).filterMap Cmd.id?).length

end Svga

/-! ### Fence ids -/

/-- The id of the fence number `k`. -/
def serial (k : ℕ) : ℕ := k % (2 ^ 32 - 1) + 1

theorem serial_pos (k : ℕ) : 0 < serial k := Nat.succ_pos _

/-- The id after that of fence `k`, with the zero that is never used. -/
theorem serial_succ (k : ℕ) :
    (if u32 (serial k + 1) = 0 then 1 else u32 (serial k + 1)) = serial (k + 1) := by
  unfold serial u32
  split_ifs <;> omega

/-- The ids start over at most once within a round of them. -/
theorem round_cases {j k : ℕ} (hjk : j ≤ k) (h : k - j < 2 ^ 32 - 1) :
    k / (2 ^ 32 - 1) = j / (2 ^ 32 - 1) ∨ k / (2 ^ 32 - 1) = j / (2 ^ 32 - 1) + 1 := by
  omega

/-- From one fence to a later one; the unused zero in between counts. -/
theorem sub32_serial {j k : ℕ} (hjk : j ≤ k) (h : k - j < 2 ^ 32 - 1) :
    sub32 (serial k) (serial j) = k - j ∨ sub32 (serial k) (serial j) = k - j + 1 := by
  unfold sub32 u32 serial
  rcases round_cases hjk h with hround | hround <;> omega

/-- Back from a fence to an earlier one. -/
theorem sub32_serial_neg {j k : ℕ} (hjk : j < k) (h : k - j < 2 ^ 32 - 1) :
    sub32 (serial j) (serial k) = 2 ^ 32 - (k - j) ∨
      sub32 (serial j) (serial k) = 2 ^ 32 - (k - j + 1) := by
  unfold sub32 u32 serial
  rcases round_cases hjk.le h with hround | hround <;> omega

/-! ### Runs -/

namespace Svga

variable {d : Svga} {c : Cmd} {k : ℕ}

/-- Every fence has the id of its number, and the register that of the last fence processed. -/
structure Numbered (d : Svga) : Prop where
  cap : d.capFence = true
  next : (if d.nextFence = 0 then 1 else d.nextFence) = serial d.issued.length
  issued : ∀ k < d.issued.length, d.issued[k]? = some (serial k)
  head : d.head ≤ d.log.length
  register : d.fence = if d.passed = 0 then 0 else serial (d.passed - 1)

theorem numbered_init : init.Numbered := ⟨rfl, rfl, by simp [Svga.issued, init], le_rfl, rfl⟩

theorem issued_commit : (d.commit c).issued = d.issued ++ c.id?.toList := by
  simp only [Svga.issued, commit, List.filterMap_append]
  cases c <;> rfl

theorem passed_commit (h : d.head ≤ d.log.length) : (d.commit c).passed = d.passed := by
  simp only [Svga.passed, commit, List.take_append_of_le_length h]

/-- A command that is not a fence. -/
theorem Numbered.commit (h : d.Numbered) (hc : c.id? = none) : (d.commit c).Numbered := by
  have hissued : (d.commit c).issued = d.issued := by
    rw [issued_commit, hc, Option.toList_none, List.append_nil]
  have hpassed := passed_commit (c := c) h.head
  refine ⟨h.cap, hissued ▸ h.next, hissued ▸ h.issued, ?_, hpassed ▸ h.register⟩
  exact h.head.trans (by simp [Svga.commit])

/-- A fence that finds room gets the id of its number. -/
theorem Numbered.insertFence_eq (h : d.Numbered) : d.insertFence true =
    (serial d.issued.length,
      { d with nextFence := u32 (serial d.issued.length + 1) }.commit
        (.fence (serial d.issued.length))) := by
  simp only [insertFence, h.cap, h.next, if_true]

theorem Numbered.insertFence (h : d.Numbered) : (d.insertFence true).2.Numbered := by
  rw [h.insertFence_eq]
  have hissued : ({ d with nextFence := u32 (serial d.issued.length + 1) }.commit
      (.fence (serial d.issued.length))).issued = d.issued ++ [serial d.issued.length] :=
    issued_commit
  have hpassed : ({ d with nextFence := u32 (serial d.issued.length + 1) }.commit
      (.fence (serial d.issued.length))).passed = d.passed := passed_commit h.head
  refine ⟨h.cap, ?_, ?_, h.head.trans (by simp [Svga.commit]), hpassed ▸ h.register⟩
  · rw [hissued, List.length_append, List.length_singleton, ← serial_succ]
    rfl
  · intro k hk
    rw [hissued] at hk ⊢
    rw [List.length_append, List.length_singleton] at hk
    rcases Nat.lt_succ_iff_lt_or_eq.mp hk with hlt | rfl
    · rw [List.getElem?_append_left hlt]
      exact h.issued k hlt
    · exact List.getElem?_concat_length

/-- The next command of the device, if it is a fence, is the first that has not passed. -/
theorem Numbered.next_fence (h : d.Numbered) {id : ℕ} (hc : d.log[d.head]? = some (.fence id)) :
    id = serial d.passed := by
  obtain ⟨hlt, hget⟩ := List.getElem?_eq_some_iff.mp hc
  have hsplit : d.log = d.log.take d.head ++ .fence id :: d.log.drop (d.head + 1) := by
    rw [← hget, List.cons_getElem_drop_succ, List.take_append_drop]
  have hissued : d.issued = (d.log.take d.head).filterMap Cmd.id? ++
      id :: (d.log.drop (d.head + 1)).filterMap Cmd.id? := by
    rw [Svga.issued]
    nth_rewrite 1 [hsplit]
    rw [List.filterMap_append, List.filterMap_cons]
    rfl
  have hk : d.passed < d.issued.length := by
    rw [hissued, List.length_append, List.length_cons, Svga.passed]
    omega
  have hpassed := h.issued d.passed hk
  rw [hissued, Svga.passed, List.getElem?_append_right le_rfl, Nat.sub_self,
    List.getElem?_cons_zero] at hpassed
  exact Option.some.inj hpassed

theorem Numbered.process (h : d.Numbered) : d.process.Numbered := by
  unfold Svga.process
  cases hc : d.log[d.head]? with
  | none => exact h
  | some c =>
    obtain ⟨hlt, hget⟩ := List.getElem?_eq_some_iff.mp hc
    have hpassed : ({ d with fence := c.id?.getD d.fence, head := d.head + 1 } : Svga).passed =
        d.passed + c.id?.toList.length := by
      simp only [Svga.passed]
      rw [List.take_succ_eq_append_getElem hlt, hget, List.filterMap_append, List.length_append]
      cases c <;> rfl
    refine ⟨h.cap, h.next, h.issued, hlt, ?_⟩
    rw [hpassed]
    cases c with
    | fence id => simpa [Cmd.id?] using h.next_fence hc
    | present n => simpa [Cmd.id?] using h.register
    | other n => simpa [Cmd.id?] using h.register

/-- An issued fence that has not passed is not taken as passed, if there are not too many
after it. -/
theorem Numbered.not_passed (h : d.Numbered) (hk : d.passed ≤ k)
    (hout : k + 1 - d.passed < 2 ^ 31) :
    d.hasFencePassedUnguarded (serial k) = false := by
  unfold hasFencePassedUnguarded
  rw [h.register]
  split_ifs with h0
  · have : serial k = k + 1 := by
      unfold serial
      omega
    rw [this, sub32, u32, decide_eq_false_iff_not]
    omega
  · have := sub32_serial_neg (j := d.passed - 1) (k := k) (by omega) (by omega)
    rw [decide_eq_false_iff_not]
    omega

theorem Numbered.has_passed (h : d.Numbered) (hk : k < d.passed)
    (hage : d.passed - k < 2 ^ 31) : d.hasFencePassedUnguarded (serial k) = true := by
  unfold hasFencePassedUnguarded
  rw [h.register, if_neg (by omega)]
  have := sub32_serial (j := k) (k := d.passed - 1) (by omega) (by omega)
  rw [decide_eq_true_iff]
  omega

end Svga

/-- What happens to the stream. -/
inductive Act where
  | insertFence
  | command (bytes : ℕ)
  | process
  deriving DecidableEq, Repr

def exec (d : Svga) : Act → Svga
  | .insertFence => (d.insertFence true).2
  | .command bytes => d.commit (.other bytes)
  | .process => d.process

theorem numbered_run (acts : List Act) : (acts.foldl exec .init).Numbered := by
  suffices h : ∀ d : Svga, d.Numbered → (acts.foldl exec d).Numbered from h _ Svga.numbered_init
  induction acts with
  | nil => exact fun d h => h
  | cons a acts ih =>
    intro d h
    refine ih _ ?_
    cases a with
    | insertFence => exact h.insertFence
    | command bytes => exact h.commit rfl
    | process => exact h.process

theorem Svga.passed_le (d : Svga) : d.passed ≤ d.issued.length := by
  have hsub : (d.log.take d.head).Sublist d.log := List.take_sublist _ _
  exact (hsub.filterMap _).length_le

/-- However often the ids have wrapped: with fewer than `2 ^ 30` fences outstanding and issued
since, an issued fence is taken as passed exactly when the device has processed it. -/
theorem hasFencePassed_iff (acts : List Act) (k : ℕ) :
    let d := acts.foldl exec .init
    k < d.issued.length → d.issued.length - d.passed < 2 ^ 30 →
      d.issued.length - (k + 1) < 2 ^ 30 →
      ∃ id ∈ d.issued[k]?, d.hasFencePassed id = true ↔ k < d.passed := by
  intro d hk hout hage
  have h : d.Numbered := numbered_run acts
  have hle := d.passed_le
  refine ⟨serial k, h.issued k hk, ?_⟩
  rw [Svga.hasFencePassed, if_neg (serial_pos k).ne', if_pos h.cap]
  rcases Nat.lt_or_ge k d.passed with hlt | hge
  · exact iff_of_true (h.has_passed hlt (by omega)) hlt
  · rw [h.not_passed hge (by omega)]
    exact iff_of_false (by simp) (by omega)

theorem hasFencePassed_two_fences :
    let d := [Act.insertFence, .insertFence, .process].foldl exec .init
    ∃ id ∈ d.issued[0]?, d.hasFencePassed id = true ↔ 0 < d.passed :=
  hasFencePassed_iff [.insertFence, .insertFence, .process] 0 (by decide) (by decide) (by decide)

end Cesvga2.Fence
