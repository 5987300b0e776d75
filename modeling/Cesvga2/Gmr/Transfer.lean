import Cesvga2.Ids.Accounted
import Cesvga2.Refs.Count

/-! Transfer buffers that share one provider. A buffer is prepared with a GMR id, a wired
descriptor and a GMR, and gives the three back when it is completed. Whichever of them fails on
the way, the ids and the wirings balance over any history of calls, and no GMR is destroyed under
a transfer. -/

namespace Cesvga2.Gmr

open Cesvga2.Bits (bit)
open Cesvga2.Ledgers (Turns)

/-- `VendorTransferBuffer`; no id is any for which `isIdValid` fails. -/
structure TransferBuffer (δ : Type*) where
  md : Option δ
  gmrId : Option ℕ
  fence : ℕ

/-- What is done with the buffers; `record` is a transfer that leaves its fence in a buffer. -/
inductive Event (ι : Type*) where
  | allocGMRID (id : ℕ)
  | freeGMRID (id : ℕ)
  | destroyGMR (i : ι) (id : ℕ)
  | record (i : ι) (fence : ℕ)
  | syncToFence (fence : ℕ)
  deriving DecidableEq

/-- The buffers `ι` over the descriptors `δ`, with the ids that are live elsewhere. -/
structure World (ι δ : Type*) where
  ids : Ids.Sys
  others : Finset ℕ
  /-- How often each descriptor is wired. -/
  wires : δ → ℕ
  buffers : ι → TransferBuffer δ
  /-- The latest event first. -/
  log : List (Event ι)

variable {ι δ : Type*} [DecidableEq ι] [DecidableEq δ]

namespace World

variable (w : World ι δ) (i : ι)

/-- `AllocGMRID` returned `id` and the buffer keeps it. -/
def takeGMRID (id : ℕ) : World ι δ :=
  { w with
    ids := ⟨w.ids.accel.allocGMRID.2, w.ids.surfaces, insert id w.ids.gmrs⟩
    buffers := Function.update w.buffers i { w.buffers i with gmrId := some id }
    log := .allocGMRID id :: w.log }

/-- `FreeGMRID`, and the id is invalid. -/
def dropGMRID (id : ℕ) : World ι δ :=
  { w with
    ids := ⟨w.ids.accel.freeGMRID id, w.ids.surfaces, w.ids.gmrs.erase id⟩
    buffers := Function.update w.buffers i { w.buffers i with gmrId := none }
    log := .freeGMRID id :: w.log }

def wire (d : δ) : World ι δ := { w with wires := Function.update w.wires d (w.wires d + 1) }

def unwire (d : δ) : World ι δ := { w with wires := Function.update w.wires d (w.wires d - 1) }

/-- `wired` and `created` are what `prepare` of the descriptor and `createGMR` return. -/
def prepare (provider : Bool) (wired created : IOReturn) : IOReturn × World ι δ :=
  if ¬ provider then (.notReady, w)
  else if (w.buffers i).gmrId.isSome then (.success, w)
  else
    match (w.buffers i).md with
    | none => (.notReady, w)
    | some d =>
      match w.ids.accel.allocGMRID.1 with
      | none => (.noResources,
          { w with ids := ⟨w.ids.accel.allocGMRID.2, w.ids.surfaces, w.ids.gmrs⟩ })
      | some id =>
        let w := w.takeGMRID i id
        if wired ≠ .success then (wired, w.dropGMRID i id)
        else
          let w := w.wire d
          if created ≠ .success then (created, (w.unwire d).dropGMRID i id)
          else (.success, w)

/-- Another fence in the buffer, with what is done for it. -/
def setFence (fence : ℕ) (event : Event ι) : World ι δ :=
  { w with
    buffers := Function.update w.buffers i { w.buffers i with fence := fence }
    log := event :: w.log }

def sync (provider : Bool) : World ι δ :=
  if ¬ provider ∨ (w.buffers i).fence = 0 then w
  else w.setFence i 0 (.syncToFence (w.buffers i).fence)

def complete (provider : Bool) : World ι δ :=
  let w := w.sync i provider
  if ¬ provider then w
  else
    match (w.buffers i).gmrId with
    | none => w
    | some id =>
      let w := { w with log := .destroyGMR i id :: w.log }
      let w := match (w.buffers i).md with
        | none => w
        | some d => w.unwire d
      w.dropGMRID i id

end World

/-- The calls on the buffers, the fences that transfers record in them, and `AllocGMRID` and
`FreeGMRID` for anybody else. -/
inductive Op (ι : Type*) where
  | prepare (i : ι) (provider : Bool) (wired created : IOReturn)
  | sync (i : ι) (provider : Bool)
  | complete (i : ι) (provider : Bool)
  | record (i : ι) (fence : ℕ)
  | otherAlloc
  | otherFree (id : ℕ)

def Op.exec : Op ι → World ι δ → World ι δ
  | prepare i provider wired created, w => (w.prepare i provider wired created).2
  | sync i provider, w => w.sync i provider
  | complete i provider, w => w.complete i provider
  | record i fence, w => w.setFence i fence (.record i fence)
  | otherAlloc, w => { w with
      ids := ⟨w.ids.accel.allocGMRID.2, w.ids.surfaces,
        w.ids.accel.allocGMRID.1.elim w.ids.gmrs (insert · w.ids.gmrs)⟩
      others := w.ids.accel.allocGMRID.1.elim w.others (insert · w.others) }
  | otherFree id, w => { w with
      ids := ⟨w.ids.accel.freeGMRID id, w.ids.surfaces, w.ids.gmrs.erase id⟩
      others := w.others.erase id }

/-- Others free what is theirs. -/
def Op.Legal : Op ι → World ι δ → Prop
  | otherFree id, w => id ∈ w.others
  | _, _ => True

/-- Buffers after `init`, on an accelerator with any history. -/
inductive Reachable (maxGMRIDs : ℕ) : World ι δ → Prop
  | start {w : World ι δ} (hids : Ids.Reachable maxGMRIDs w.ids) (hothers : w.others = w.ids.gmrs)
      (hwires : ∀ d, w.wires d = 0) (hinit : ∀ i, (w.buffers i).gmrId = none)
      (hlog : w.log = []) : Reachable maxGMRIDs w
  | step {w : World ι δ} (h : Reachable maxGMRIDs w) (op : Op ι) (hl : op.Legal w) :
      Reachable maxGMRIDs (op.exec w)

/-- The events by which an id is obtained and freed. -/
def gmrids : Ids.Marks (Event ι) where
  alloc := .allocGMRID
  free := .freeGMRID
  alloc_inj m n h := Event.allocGMRID.inj h
  free_inj m n h := Event.freeGMRID.inj h
  ne m n := by rintro ⟨⟩

/-! ### Fences -/

/-- The fence last recorded in a buffer, 0 once it was waited for. -/
def unsynced (i : ι) : List (Event ι) → ℕ
  | [] => 0
  | .record j f :: log => if j = i then f else unsynced i log
  | .syncToFence f :: log => if unsynced i log = f then 0 else unsynced i log
  | _ :: log => unsynced i log

/-- Each GMR is destroyed with nothing left to wait for in its buffer. -/
def SyncedFirst : List (Event ι) → Prop
  | [] => True
  | .destroyGMR i _ :: log => unsynced i log = 0 ∧ SyncedFirst log
  | _ :: log => SyncedFirst log

/-! ### The invariant -/

namespace World

/-- The ids that the buffers hold. -/
def hold (w : World ι δ) (i : ι) : Option ℕ := (w.buffers i).gmrId

/-- The descriptors that the buffers keep wired. -/
def wired (w : World ι δ) (i : ι) : Option δ :=
  if (w.buffers i).gmrId.isSome then (w.buffers i).md else none

variable {w : World ι δ} {i : ι} {b : TransferBuffer δ} {id : ℕ} {d e : δ}

omit [DecidableEq δ] in
/-- What an update leaves of one buffer it leaves of all. -/
theorem field_update {β : Type*} (f : TransferBuffer δ → β) (hb : f b = f (w.buffers i)) (j : ι) :
    f (Function.update w.buffers i b j) = f (w.buffers j) := by
  rcases eq_or_ne j i with rfl | hj
  · rw [Function.update_self, hb]
  · rw [Function.update_of_ne hj]

omit [DecidableEq δ] in
theorem hold_take : (w.takeGMRID i id).hold = Function.update w.hold i (some id) :=
  funext fun j => Function.apply_update (fun _ => TransferBuffer.gmrId) w.buffers i _ j

omit [DecidableEq δ] in
theorem hold_drop : (w.dropGMRID i id).hold = Function.update w.hold i none :=
  funext fun j => Function.apply_update (fun _ => TransferBuffer.gmrId) w.buffers i _ j

omit [DecidableEq δ] in
theorem hold_setFence {f : ℕ} {event : Event ι} : (w.setFence i f event).hold = w.hold :=
  funext fun j => field_update TransferBuffer.gmrId (by rfl) j

omit [DecidableEq δ] in
theorem wired_setFence {f : ℕ} {event : Event ι} : (w.setFence i f event).wired = w.wired :=
  funext fun j => field_update (fun b => if b.gmrId.isSome then b.md else none) (by rfl) j

omit [DecidableEq δ] in
theorem wired_take (hmd : (w.buffers i).md = some d) :
    (w.takeGMRID i id).wired = Function.update w.wired i (some d) := by
  funext j
  rcases eq_or_ne j i with rfl | hj
  · simp [wired, takeGMRID, hmd]
  · simp [wired, takeGMRID, hj]

omit [DecidableEq δ] in
theorem wired_drop : (w.dropGMRID i id).wired = Function.update w.wired i none := by
  funext j
  rcases eq_or_ne j i with rfl | hj
  · simp [wired, dropGMRID]
  · simp [wired, dropGMRID, hj]

omit [DecidableEq ι] in
theorem wires_wire : (w.wire d).wires e = w.wires e + if d = e then 1 else 0 := by
  rcases eq_or_ne d e with rfl | hd
  · simp [wire]
  · simp [wire, hd, hd.symm]

omit [DecidableEq ι] in
theorem wires_unwire (h : 0 < w.wires d) :
    (w.unwire d).wires e + (if d = e then 1 else 0) = w.wires e := by
  rcases eq_or_ne d e with rfl | hd
  · simp only [unwire, Function.update_self, if_true]
    omega
  · simp [unwire, hd, hd.symm]

omit [DecidableEq ι] in
theorem unwire_wire : (w.wire d).unwire d = w := by
  simp only [unwire, wire, Function.update_self, Function.update_idem, Nat.add_sub_cancel,
    Function.update_eq_self]

omit [DecidableEq δ] in
/-- An id that is taken and given back leaves no trace in the buffers. -/
theorem buffers_take_drop (hi : (w.buffers i).gmrId = none) :
    ((w.takeGMRID i id).dropGMRID i id).buffers = w.buffers := by
  have hb : { w.buffers i with gmrId := none } = w.buffers i := by rw [← hi]
  simp only [dropGMRID, takeGMRID, Function.update_self, Function.update_idem]
  rw [hb, Function.update_eq_self]

/-- What `prepare` does. -/
theorem prepare_cases (w : World ι δ) (i : ι) (provider : Bool) (wired created : IOReturn) :
    (w.prepare i provider wired created).2 = w ∨
    (w.ids.accel.allocGMRID.1 = none ∧ (w.prepare i provider wired created).2 =
      { w with ids := ⟨w.ids.accel.allocGMRID.2, w.ids.surfaces, w.ids.gmrs⟩ }) ∨
    ∃ d id, (w.buffers i).gmrId = none ∧ (w.buffers i).md = some d ∧
      w.ids.accel.allocGMRID.1 = some id ∧
      ((w.prepare i provider wired created).2 = (w.takeGMRID i id).dropGMRID i id ∨
        (w.prepare i provider wired created).2 = (w.takeGMRID i id).wire d) := by
  unfold prepare
  split
  · exact .inl rfl
  split
  · exact .inl rfl
  next hid =>
    cases hmd : (w.buffers i).md with
    | none => exact .inl rfl
    | some d =>
      cases halloc : w.ids.accel.allocGMRID.1 with
      | none => exact .inr (.inl ⟨rfl, rfl⟩)
      | some id =>
        refine .inr (.inr ⟨d, id, by simpa using hid, rfl, rfl, ?_⟩)
        split_ifs
        · exact .inl rfl
        · exact .inl (congrArg (dropGMRID · i id) unwire_wire)
        · exact .inr rfl

end World

variable [Fintype ι]

structure Inv (maxGMRIDs : ℕ) (w : World ι δ) : Prop where
  ids : Ids.Accounted gmrids maxGMRIDs w.others w.hold w.ids w.log
  md : ∀ i, (w.buffers i).gmrId.isSome = true → (w.buffers i).md.isSome = true
  wires : ∀ d, w.wires d = Refs.count Finset.univ w.wired d
  fence : ∀ i, unsynced i w.log = 0 ∨ unsynced i w.log = (w.buffers i).fence
  synced : SyncedFirst w.log

namespace Inv

variable {maxGMRIDs : ℕ} {w : World ι δ} {i : ι}

theorem start (hids : Ids.Reachable maxGMRIDs w.ids) (hothers : w.others = w.ids.gmrs)
    (hwires : ∀ d, w.wires d = 0) (hinit : ∀ i, (w.buffers i).gmrId = none)
    (hlog : w.log = []) : Inv maxGMRIDs w := by
  refine ⟨?_, fun i hi => ?_, fun d => ?_, fun i => .inl ?_, ?_⟩
  · rw [hothers, hlog]
    exact .start hids.inv hinit
  · simp [hinit] at hi
  · rw [hwires, eq_comm, Refs.count_eq_zero]
    simp [World.wired, hinit]
  · rw [hlog]
    rfl
  · rw [hlog]
    trivial

theorem prepare (h : Inv maxGMRIDs w) (i : ι) (provider : Bool) (wired created : IOReturn) :
    Inv maxGMRIDs (w.prepare i provider wired created).2 := by
  rcases World.prepare_cases w i provider wired created with
    he | ⟨hnone, he⟩ | ⟨d, id, hi, hmd, halloc, he | he⟩ <;> rw [he]
  · exact h
  · exact ⟨h.ids.refused hnone, h.md, h.wires, h.fence, h.synced⟩
  · -- the id is given back
    have hbuffers := @World.buffers_take_drop _ _ _ w i id hi
    refine ⟨?_, ?_, ?_, ?_, h.synced⟩
    · have hids := (h.ids.take hi halloc).drop (Function.update_self ..)
      rwa [← World.hold_take, ← World.hold_drop] at hids
    · rw [hbuffers]
      exact h.md
    · have hwired : ((w.takeGMRID i id).dropGMRID i id).wired = w.wired := by
        funext j
        rw [World.wired, hbuffers, World.wired]
      rw [hwired]
      exact h.wires
    · rw [hbuffers]
      exact h.fence
  · refine ⟨?_, fun j hj => ?_, fun e => ?_, fun j => ?_, h.synced⟩
    · have hids := h.ids.take hi halloc
      rwa [← World.hold_take] at hids
    · rcases eq_or_ne j i with rfl | hji
      · simp [World.wire, World.takeGMRID, hmd]
      · simp only [World.wire, World.takeGMRID, Function.update_of_ne hji] at hj ⊢
        exact h.md j hj
    · have hfree : w.wired i = none := by simp [World.wired, hi]
      have hwired : ((w.takeGMRID i id).wire d).wired = Function.update w.wired i (some d) :=
        World.wired_take hmd
      rw [World.wires_wire, hwired, Refs.count_fill (Finset.mem_univ i) hfree, ← h.wires]
      rfl
    · have hf : (((w.takeGMRID i id).wire d).buffers j).fence = (w.buffers j).fence :=
        World.field_update TransferBuffer.fence (by rfl) j
      rw [hf]
      exact h.fence j

/-- Another fence in a buffer. -/
theorem setFence (h : Inv maxGMRIDs w) {f : ℕ} {event : Event ι}
    (he : ∀ n, event ≠ .allocGMRID n ∧ event ≠ .freeGMRID n) (hs : SyncedFirst (event :: w.log))
    (hi : unsynced i (event :: w.log) = 0 ∨ unsynced i (event :: w.log) = f)
    (hother : ∀ j ≠ i, unsynced j (event :: w.log) = 0 ∨
      unsynced j (event :: w.log) = unsynced j w.log) :
    Inv maxGMRIDs (w.setFence i f event) := by
  refine ⟨?_, fun j hj => ?_, ?_, fun j => ?_, hs⟩
  · rw [World.hold_setFence]
    exact h.ids.cons he
  · have hmd : ((w.setFence i f event).buffers j).md = (w.buffers j).md :=
      World.field_update TransferBuffer.md (by rfl) j
    have hid : ((w.setFence i f event).buffers j).gmrId = (w.buffers j).gmrId :=
      congrFun World.hold_setFence j
    rw [hmd]
    exact h.md j (hid ▸ hj)
  · rw [World.wired_setFence]
    exact h.wires
  · rcases eq_or_ne j i with rfl | hj
    · simpa only [World.setFence, Function.update_self] using hi
    · have hf := h.fence j
      simp only [World.setFence, Function.update_of_ne hj]
      rcases hother j hj with h0 | hsame
      · exact .inl h0
      · rwa [hsame]

theorem sync (h : Inv maxGMRIDs w) (i : ι) (provider : Bool) :
    Inv maxGMRIDs (w.sync i provider) := by
  unfold World.sync
  split_ifs with hf
  · exact h
  refine h.setFence (fun n => ⟨nofun, nofun⟩) h.synced ?_ fun j _ => ?_
  · simp only [unsynced]
    have := h.fence i
    grind
  · simp only [unsynced]
    grind

/-- After `sync` there is nothing to wait for. -/
theorem unsynced_sync (h : Inv maxGMRIDs w) : unsynced i (w.sync i true).log = 0 := by
  have hfence := h.fence i
  unfold World.sync
  split_ifs with hf
  · simp only [not_true_eq_false, false_or] at hf
    rw [hf, or_self] at hfence
    exact hfence
  · simp only [World.setFence, unsynced]
    grind

/-- A buffer with nothing to wait for gives back its id, its wiring and its GMR. -/
theorem release (h : Inv maxGMRIDs w) {id : ℕ} {d : δ} (hid : (w.buffers i).gmrId = some id)
    (hmd : (w.buffers i).md = some d) (hsynced : unsynced i w.log = 0) :
    Inv maxGMRIDs (({ w with log := .destroyGMR i id :: w.log }.unwire d).dropGMRID i id) := by
  have hwired : w.wired i = some d := by simp [World.wired, hid, hmd]
  refine ⟨?_, fun j hj => ?_, fun e => ?_, fun j => ?_, hsynced, h.synced⟩
  · have hids : Ids.Accounted gmrids maxGMRIDs w.others w.hold w.ids (.destroyGMR i id :: w.log) :=
      h.ids.cons fun n => ⟨nofun, nofun⟩
    rw [World.hold_drop]
    exact hids.drop hid
  · rcases eq_or_ne j i with rfl | hji
    · simp [World.dropGMRID] at hj
    · simp only [World.dropGMRID, World.unwire, Function.update_of_ne hji] at hj ⊢
      exact h.md j hj
  · have hpos : 0 < w.wires d := by
      rw [h.wires]
      exact Refs.count_pos (Finset.mem_univ i) hwired
    have hunwire := World.wires_unwire (e := e) hpos
    have hempty := Refs.count_empty (a := e) (Finset.mem_univ i) hwired
    rw [← h.wires, ← hunwire] at hempty
    rw [World.wired_drop]
    exact (Nat.add_right_cancel hempty).symm
  · have hf : (((({ w with log := .destroyGMR i id :: w.log } : World ι δ).unwire d).dropGMRID i
        id).buffers j).fence = (w.buffers j).fence :=
      World.field_update TransferBuffer.fence (by rfl) j
    rw [hf]
    exact h.fence j

theorem complete (h : Inv maxGMRIDs w) (i : ι) (provider : Bool) :
    Inv maxGMRIDs (w.complete i provider) := by
  have hs := h.sync i provider
  unfold World.complete
  cases provider with
  | false => exact hs
  | true =>
    cases hid : ((w.sync i true).buffers i).gmrId with
    | none => simpa [hid] using hs
    | some id =>
      obtain ⟨d, hmd⟩ := Option.isSome_iff_exists.mp (hs.md i (by simp [hid]))
      simp only [not_true_eq_false, if_false, hid, hmd]
      exact hs.release hid hmd h.unsynced_sync

theorem exec (h : Inv maxGMRIDs w) (op : Op ι) (hl : op.Legal w) : Inv maxGMRIDs (op.exec w) := by
  cases op with
  | prepare i provider wired created => exact h.prepare i provider wired created
  | sync i provider => exact h.sync i provider
  | complete i provider => exact h.complete i provider
  | record i fence =>
    refine h.setFence (fun n => ⟨nofun, nofun⟩) h.synced (.inr ?_) fun j hj => .inr ?_
    · simp [unsynced]
    · simp [unsynced, hj.symm]
  | otherAlloc => exact ⟨h.ids.otherAlloc, h.md, h.wires, h.fence, h.synced⟩
  | otherFree id => exact ⟨h.ids.otherFree hl, h.md, h.wires, h.fence, h.synced⟩

end Inv

variable {maxGMRIDs : ℕ} {w : World ι δ}

theorem Reachable.inv (h : Reachable maxGMRIDs w) : Inv maxGMRIDs w := by
  induction h with
  | start hids hothers hwires hinit hlog => exact .start hids hothers hwires hinit hlog
  | step _ op hl ih => exact ih.exec op hl

/-- In every history: the ids that buffers hold are allocated, to one buffer each; an id that a
buffer obtained and that none holds now was freed, and is in use by nobody but others; a
descriptor is wired once for each buffer over it that holds an id; and each GMR was destroyed
after the fence recorded in its buffer had been waited for. -/
theorem transfers_balanced (h : Reachable maxGMRIDs w) :
    (∀ i n, (w.buffers i).gmrId = some n → bit w.ids.accel.gmr.mask n = true ∧
      ∀ j, (w.buffers j).gmrId = some n → j = i) ∧
    (∀ n, .allocGMRID n ∈ w.log → (∀ i, (w.buffers i).gmrId ≠ some n) →
      Turns (.allocGMRID n) (.freeGMRID n) false w.log ∧
        (bit w.ids.accel.gmr.mask n = true → n ∈ w.others)) ∧
    (∀ d, w.wires d = (Finset.univ.filter fun i =>
      (w.buffers i).md = some d ∧ (w.buffers i).gmrId.isSome = true).card) ∧
    SyncedFirst w.log := by
  have hinv := h.inv
  have hbits : ∀ n, .allocGMRID n ∈ w.log → (bit w.ids.accel.gmr.mask n = true ↔
      n ∈ w.others ∨ ∃ i, w.hold i = some n) := by
    intro n hn
    obtain ⟨hlt, hmax⟩ := hinv.ids.obtained n hn
    rw [hinv.ids.inv.gmr.bits n hlt, ← hinv.ids.live n]
    exact or_iff_left (by omega)
  refine ⟨fun i n hi => ⟨?_, fun j hj => hinv.ids.distinct j i n hj hi⟩, fun n hn hnone => ?_,
    fun d => ?_, hinv.synced⟩
  · obtain ⟨held, hturns, hheld⟩ := hinv.ids.turns n
    obtain rfl := hheld.mpr ⟨i, hi⟩
    exact (hbits n hturns.mem_of_held).mpr (.inr ⟨i, hi⟩)
  · obtain ⟨held, hturns, hheld⟩ := hinv.ids.turns n
    have hnot : ¬ ∃ i, w.hold i = some n := fun ⟨i, hi⟩ => hnone i hi
    obtain rfl : held = false := by
      rw [← Bool.not_eq_true, hheld]
      exact hnot
    exact ⟨hturns, fun hbit => ((hbits n hn).mp hbit).resolve_right hnot⟩
  · have hwired : ∀ i, w.wired i = some d ↔
        (w.buffers i).md = some d ∧ (w.buffers i).gmrId.isSome = true := by
      intro i
      rw [World.wired]
      split_ifs with hi <;> simp [hi]
    simp only [hinv.wires, Refs.count, hwired]

/-- Two buffers over one descriptor, on a device with one GMR id: the first is prepared, the
second finds no id, and the first is completed after its transfer. -/
theorem transfers_balanced_two :
    let w : World (Fin 2) Unit := ⟨⟨.init 1, ∅, ∅⟩, ∅, fun _ => 0, fun _ => ⟨some (), none, 0⟩, []⟩
    let w := (Op.prepare 0 true .success .success).exec w
    let w := (Op.prepare 1 true .success .success).exec w
    let w := (Op.record 0 7).exec w
    let w := (Op.complete 0 true).exec w
    w.log = [.freeGMRID 0, .destroyGMR 0 0, .syncToFence 7, .record 0 7, .allocGMRID 0] ∧
      SyncedFirst w.log := by
  intro w₀ w₁ w₂ w₃ w₄
  have h₀ : Reachable 1 w₀ := .start .init rfl (fun _ => rfl) (fun _ => rfl) rfl
  have h₁ : Reachable 1 w₁ := h₀.step (.prepare 0 true .success .success) trivial
  have h₂ : Reachable 1 w₂ := h₁.step (.prepare 1 true .success .success) trivial
  have h₃ : Reachable 1 w₃ := h₂.step (.record 0 7) trivial
  have h₄ : Reachable 1 w₄ := h₃.step (.complete 0 true) trivial
  exact ⟨by decide +kernel, (transfers_balanced h₄).2.2.2⟩

end Cesvga2.Gmr
