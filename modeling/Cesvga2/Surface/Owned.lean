import Cesvga2.Ids.Accounted
import Cesvga2.Surface.Owner
import Cesvga2.Runs.Prefix

/-! Whatever fails on the way, a surface holds a VRAM block or a descriptor, never both; it has a
GMR id exactly as long as it has a descriptor, and gives every id back once; and no backing is
freed, unwired or moved before the fence of its last transfer was waited for. -/

namespace Cesvga2.Surface

open Ledgers

/-- A transfer is started with its fence and awaited by it; it needs the backing where it is. -/
def transfers : Work Event ℕ where
  start
    | .post f => some f
    | _ => none
  await
    | .sync f => some f
    | _ => none
  undo
    | .destroyGMR _ | .unwire | .releaseMd | .reallocVRAM | .freeVRAM => true
    | _ => false

/-- The events by which an id is obtained and freed. -/
def gmrids : Ids.Marks Event where
  alloc := .allocGMRID
  free := .freeGMRID
  alloc_inj m n h := Event.allocGMRID.inj h
  free_inj m n h := Event.freeGMRID.inj h
  ne m n := by rintro ⟨⟩

/-- The id that a backing has. -/
def Gmr.held : Gmr → Option ℕ
  | .id n => some n
  | _ => none

/-- The ids when the backing is one of their holders and `others` are the rest. -/
def Accounted (maxGMRIDs : ℕ) (others : Finset ℕ) (gmr : Gmr) : Ids.Sys → List Event → Prop :=
  Ids.Accounted gmrids maxGMRIDs others fun _ : Unit => gmr.held

/-- No transfer is pending. -/
structure Calm (log : List Event) : Prop where
  settled : transfers.Settled log
  pending : transfers.pending log = none

section

variable {maxGMRIDs : ℕ} {others : Finset ℕ} {gmr gmr' : Gmr} {ids : Ids.Sys} {log : List Event}
  {event : Event} {n : ℕ}

theorem Calm.cons (h : Calm log) (hs : transfers.start event = none) : Calm (event :: log) :=
  ⟨⟨fun _ => h.pending, h.settled⟩, Work.pending_await hs (.inl h.pending)⟩

/-! ### Ids -/

theorem Gmr.held_eq_some : gmr.held = some n ↔ gmr = .id n := by
  cases gmr with
  | id m => exact ⟨fun h => congrArg Gmr.id (Option.some.inj h), by rintro ⟨⟩; rfl⟩
  | _ => exact ⟨by rintro ⟨⟩, by rintro ⟨⟩⟩

theorem Gmr.held_eq_none (hno : ∀ n, gmr ≠ .id n) : gmr.held = none := by
  cases gmr with
  | id m => exact absurd rfl (hno m)
  | _ => rfl

namespace Accounted

theorem clear (h : Accounted maxGMRIDs others gmr ids log) (hno : ∀ n, gmr ≠ .id n)
    (hno' : ∀ n, gmr' ≠ .id n) : Accounted maxGMRIDs others gmr' ids log := by
  have hheld : gmr'.held = gmr.held := (Gmr.held_eq_none hno').trans (Gmr.held_eq_none hno).symm
  unfold Accounted at h ⊢
  rwa [hheld]

theorem take (h : Accounted maxGMRIDs others gmr ids log) (hno : ∀ n, gmr ≠ .id n)
    (hn : ids.accel.allocGMRID.1 = some n) :
    Accounted maxGMRIDs others (.id n) ⟨ids.accel.allocGMRID.2, ids.surfaces, insert n ids.gmrs⟩
      (.allocGMRID n :: log) :=
  Ids.Accounted.take (i := ()) h (Gmr.held_eq_none hno) hn

theorem drop (h : Accounted maxGMRIDs others (.id n) ids log) :
    Accounted maxGMRIDs others .invalid
      ⟨ids.accel.freeGMRID n, ids.surfaces, ids.gmrs.erase n⟩ (.freeGMRID n :: log) :=
  Ids.Accounted.drop (i := ()) h rfl

end Accounted

end

/-! ### The holder -/

namespace Holder

variable (maxGMRIDs : ℕ) (others : Finset ℕ)

/-- The invariant between the calls. -/
structure Owns (h : Holder) : Prop where
  accounted : Accounted maxGMRIDs others h.backing.gmr h.ids h.log
  one : h.backing.self = none ∨ h.backing.md = none
  md_iff : h.backing.md.isSome = true ↔ ∃ n, h.backing.gmr = .id n
  settled : transfers.Settled h.log
  awaited : ∀ f, transfers.pending h.log = some f →
    h.fence = f ∧ f ≠ 0 ∧ h.backing.isValid = true

/-- Without a descriptor, and with nothing to wait for. -/
structure Bare (h : Holder) : Prop where
  accounted : Accounted maxGMRIDs others h.backing.gmr h.ids h.log
  gmr : ∀ n, h.backing.gmr ≠ .id n
  md : h.backing.md = none
  calm : Calm h.log

variable {maxGMRIDs others} {h : Holder} {e : Faults}

theorem Bare.owns (b : Bare maxGMRIDs others h) : Owns maxGMRIDs others h where
  accounted := b.accounted
  one := .inr b.md
  md_iff := iff_of_false (by simp [b.md]) fun ⟨n, hn⟩ => b.gmr n hn
  settled := b.calm.settled
  awaited f hf := absurd (b.calm.pending.symm.trans hf) nofun

/-! #### Completing and releasing -/

theorem Owns.calm_sync (o : Owns maxGMRIDs others h) : Calm h.sync.log := by
  unfold sync
  split_ifs with hf
  · refine ⟨o.settled, ?_⟩
    by_contra hne
    obtain ⟨f, hp⟩ := Option.ne_none_iff_exists'.mp hne
    exact (o.awaited f hp).2.1 ((o.awaited f hp).1.symm.trans hf)
  · refine ⟨o.settled.cons rfl, Work.pending_await rfl ?_⟩
    cases hp : transfers.pending h.log with
    | none => exact .inl rfl
    | some f => exact .inr (congrArg some (o.awaited f hp).1)

theorem Owns.accounted_sync (o : Owns maxGMRIDs others h) :
    Accounted maxGMRIDs others h.sync.backing.gmr h.sync.ids h.sync.log := by
  unfold sync
  split_ifs
  · exact o.accounted
  · exact o.accounted.cons fun n => ⟨nofun, nofun⟩

/-- The buffer is completed: the fence was waited for and the id is given back. -/
theorem Owns.complete (o : Owns maxGMRIDs others h) :
    Accounted maxGMRIDs others h.complete.backing.gmr h.complete.ids h.complete.log ∧
      (∀ n, h.complete.backing.gmr ≠ .id n) ∧ Calm h.complete.log := by
  have hsync := o.accounted_sync
  have hcalm := o.calm_sync
  unfold Holder.complete
  cases hg : h.backing.gmr with
  | id n =>
    rw [sync_backing, hg] at hsync
    have hdestroy : Accounted maxGMRIDs others (.id n) h.sync.ids (.destroyGMR n :: h.sync.log) :=
      hsync.cons fun m => ⟨by rintro ⟨⟩, by rintro ⟨⟩⟩
    have hcalmDestroy : Calm (.destroyGMR n :: h.sync.log) := hcalm.cons rfl
    have hunwire : Accounted maxGMRIDs others (.id n) h.sync.ids
        (.unwire :: .destroyGMR n :: h.sync.log) :=
      hdestroy.cons fun m => ⟨by rintro ⟨⟩, by rintro ⟨⟩⟩
    simp only [unwire]
    split_ifs
    · exact ⟨hunwire.drop, by rintro m ⟨⟩, (hcalmDestroy.cons rfl).cons rfl⟩
    · exact ⟨hdestroy.drop, by rintro m ⟨⟩, hcalmDestroy.cons rfl⟩
  | _ =>
    refine ⟨hsync, fun n => ?_, hcalm⟩
    rw [sync_backing, hg]
    rintro ⟨⟩

theorem Owns.bare (o : Owns maxGMRIDs others h) : Bare maxGMRIDs others h.complete.discard := by
  obtain ⟨hacc, hgmr, hcalm⟩ := o.complete
  unfold discard
  split_ifs with hmd
  · exact ⟨hacc.cons fun n => ⟨nofun, nofun⟩, hgmr, rfl, hcalm.cons rfl⟩
  · exact ⟨hacc, hgmr, by simpa using hmd, hcalm⟩

theorem Owns.releaseBacking (o : Owns maxGMRIDs others h) :
    Bare maxGMRIDs others h.releaseBacking := by
  have b := o.bare
  have hnone : ∀ {ids log}, Accounted maxGMRIDs others h.complete.discard.backing.gmr ids log →
      Accounted maxGMRIDs others Backing.empty.gmr ids log :=
    fun hacc => hacc.clear b.gmr (by rintro n ⟨⟩)
  unfold Holder.releaseBacking vramFree
  split
  · exact ⟨hnone (b.accounted.cons fun n => ⟨nofun, nofun⟩), nofun, rfl, b.calm.cons rfl⟩
  · exact ⟨hnone b.accounted, nofun, rfl, b.calm⟩

/-- A backing of no kind. -/
theorem Owns.bare_of_classify (o : Owns maxGMRIDs others h) (hc : h.backing.classify = 0) :
    Bare maxGMRIDs others h ∧ h.backing.self = none := by
  have hself : h.backing.self = none := by
    by_contra hne
    simp [Backing.classify, Option.isSome_iff_ne_none.mpr hne] at hc
  have hmd : h.backing.md = none := by
    by_contra hne
    simp only [Backing.classify, hself, Option.isSome_none, Bool.false_eq_true, if_false,
      Option.isSome_iff_ne_none.mpr hne, if_true] at hc
    split at hc <;> cases hc
  refine ⟨⟨o.accounted, fun n hn => ?_, hmd, o.settled, ?_⟩, hself⟩
  · have := o.md_iff.mpr ⟨n, hn⟩
    simp [hmd] at this
  · by_contra hne
    obtain ⟨f, hp⟩ := Option.ne_none_iff_exists'.mp hne
    have := (o.awaited f hp).2.2
    simp [Backing.isValid, hself, hmd] at this

/-! #### Allocating -/

theorem prepare_of_no_id (hno : ∀ n, h.backing.gmr ≠ .id n) : h.prepare e = h.obtainGMR e := by
  unfold prepare
  split
  · exact absurd ‹_› (hno _)
  · rfl

/-- A new descriptor has its id, or is gone again with it. -/
theorem Bare.attach (b : Bare maxGMRIDs others h) (hself : h.backing.self = none) (gartPtr : ℕ) :
    Owns maxGMRIDs others (h.attach e gartPtr).2 := by
  unfold Holder.attach
  rw [prepare_of_no_id (by exact b.gmr)]
  unfold obtainGMR
  cases hid : h.ids.accel.allocGMRID.1 with
  | none =>
    dsimp only
    exact Bare.owns ⟨((b.accounted.clear b.gmr (by rintro n ⟨⟩)).refused hid).cons
      fun n => ⟨nofun, nofun⟩, nofun, rfl, b.calm.cons rfl⟩
  | some n =>
    have htake := b.accounted.take b.gmr hid
    have hcalm : Calm (.allocGMRID n :: h.log) := b.calm.cons rfl
    have hwire : Accounted maxGMRIDs others (.id n)
        ⟨h.ids.accel.allocGMRID.2, h.ids.surfaces, insert n h.ids.gmrs⟩
        (.wire :: .allocGMRID n :: h.log) := htake.cons fun m => ⟨nofun, nofun⟩
    dsimp only
    cases e.wired with
    | false =>
      exact Bare.owns ⟨htake.drop.cons fun m => ⟨nofun, nofun⟩, nofun, rfl,
        (hcalm.cons rfl).cons rfl⟩
    | true =>
      cases e.prepared with
      | false =>
        have hunwire : Accounted maxGMRIDs others (.id n)
            ⟨h.ids.accel.allocGMRID.2, h.ids.surfaces, insert n h.ids.gmrs⟩
            (.unwire :: .wire :: .allocGMRID n :: h.log) := hwire.cons fun m => ⟨nofun, nofun⟩
        exact Bare.owns ⟨hunwire.drop.cons fun m => ⟨nofun, nofun⟩, nofun, rfl,
          (((hcalm.cons rfl).cons rfl).cons rfl).cons rfl⟩
      | true =>
        have hcreate : Calm (.createGMR n :: .wire :: .allocGMRID n :: h.log) :=
          (hcalm.cons rfl).cons rfl
        exact ⟨hwire.cons fun m => ⟨nofun, nofun⟩, .inl hself, iff_of_true rfl ⟨n, rfl⟩,
          hcreate.settled, fun f hf => absurd (hcreate.pending.symm.trans hf) nofun⟩

theorem Owns.forWrap (o : Owns maxGMRIDs others h) :
    Bare maxGMRIDs others h.forWrap ∧ h.forWrap.backing.self = none := by
  unfold Holder.forWrap
  split_ifs with hc
  · exact o.bare_of_classify hc
  · exact ⟨o.releaseBacking, rfl⟩

theorem Owns.forRealloc (o : Owns maxGMRIDs others h) : Bare maxGMRIDs others h.forRealloc := by
  unfold Holder.forRealloc
  split
  · exact o.bare
  · exact o.releaseBacking
  · refine (o.bare_of_classify ?_).1
    simp only [Backing.classify] at *
    split_ifs at * <;> simp_all

theorem Bare.resize (b : Bare maxGMRIDs others h) (size : ℕ) :
    Bare maxGMRIDs others (h.resize e size) := by
  unfold Holder.resize
  split_ifs
  · exact ⟨b.accounted.cons fun n => ⟨nofun, nofun⟩, b.gmr, b.md, b.calm.cons rfl⟩
  · exact ⟨b.accounted, b.gmr, b.md, b.calm⟩

theorem Bare.allocGMRBacking (b : Bare maxGMRIDs others h) (hself : h.backing.self = none) :
    Owns maxGMRIDs others (h.allocGMRBacking e).2 := by
  unfold Holder.allocGMRBacking
  split_ifs
  · exact Bare.attach (h := { h with backing := { h.backing with offset := 0 } })
      ⟨b.accounted, b.gmr, b.md, b.calm⟩ hself 0
  · exact b.owns

theorem Bare.inVRAM (b : Bare maxGMRIDs others h) (offset : ℕ) :
    Bare maxGMRIDs others
      { h with backing := { h.backing with offset := offset, gmr := .vram }, fence := 0 } :=
  ⟨b.accounted.clear b.gmr (by rintro n ⟨⟩), by rintro n ⟨⟩, b.md, b.calm⟩

theorem Bare.place (b : Bare maxGMRIDs others h) (clientAddr : ℕ) :
    Owns maxGMRIDs others (h.place e clientAddr).2 := by
  unfold Holder.place
  split
  next hself => exact b.allocGMRBacking hself
  · exact (b.inVRAM _).owns

/-- The invariant is kept by `allocBacking`, on all of its ways. -/
theorem Owns.allocBacking (o : Owns maxGMRIDs others h) (client : ClientBacking)
    (size clientAddr : ℕ) :
    Owns maxGMRIDs others (h.allocBacking e client size clientAddr).2 := by
  unfold Holder.allocBacking
  split_ifs with hc hkeep
  · unfold wrapClientBacking
    split_ifs with hreuse hd
    · exact o
    · obtain ⟨b, hself⟩ := o.forWrap
      exact Bare.attach (h := { h.forWrap with
        backing := { h.forWrap.backing with offset := pageResidue client.addr, size := size } })
        ⟨b.accounted, b.gmr, b.md, b.calm⟩ hself 1
    · exact Bare.owns ⟨o.forWrap.1.accounted, o.forWrap.1.gmr, o.forWrap.1.md, o.forWrap.1.calm⟩
  · exact o
  · exact (o.forRealloc.resize size).place clientAddr

/-! #### The end of a call -/

theorem Owns.mark (o : Owns maxGMRIDs others h) (gartPtr : ℕ) :
    Owns maxGMRIDs others { h with backing := h.backing.mark gartPtr } :=
  ⟨o.accounted, o.one, o.md_iff, o.settled, o.awaited⟩

theorem Owns.sync (o : Owns maxGMRIDs others h) : Owns maxGMRIDs others h.sync where
  accounted := o.accounted_sync
  one := by rw [sync_backing]; exact o.one
  md_iff := by rw [sync_backing]; exact o.md_iff
  settled := o.calm_sync.settled
  awaited f hf := absurd (o.calm_sync.pending.symm.trans hf) nofun

/-- Only a surface with a backing starts a transfer. -/
theorem isBackingValid_of_flush {s : Surf} {mask : ℕ} {env : Env}
    (hne : (s.flush mask env).2 ≠ []) : s.isBackingValid = true := by
  by_contra hv
  refine hne ?_
  unfold Surf.flush
  split
  · rfl
  · rw [if_pos (by simp [hv])]

theorem Owns.finish (o : Owns maxGMRIDs others h) (before after : Surf) (rc : IOReturn) (c : Call)
    (hflush : ∀ mask, c = .flush mask → h.backing = before.backing) :
    Owns maxGMRIDs others (h.finish e before after rc c) := by
  unfold Holder.finish
  cases c <;> dsimp only
  case writeLock =>
    split_ifs
    · exact o.sync
    · exact o
  case readLock =>
    split
    next f _ =>
      split_ifs
      · have hpost : Accounted maxGMRIDs others h.backing.gmr h.ids (.post f :: h.log) :=
          o.accounted.cons fun n => ⟨nofun, nofun⟩
        have hpending : transfers.pending (.sync f :: .post f :: h.log) = none :=
          Work.pending_await rfl (.inr rfl)
        exact ⟨hpost.cons fun n => ⟨nofun, nofun⟩, o.one, o.md_iff,
          (o.settled.cons rfl).cons rfl, fun g hg => absurd (hpending.symm.trans hg) nofun⟩
      · exact o
    next => exact o
  case flush mask =>
    split
    next f _ =>
      split_ifs with hnil
      · exact o
      · refine ⟨o.accounted.cons fun n => ⟨nofun, nofun⟩, o.one, o.md_iff, o.settled.cons rfl,
          fun g hg => ⟨Option.some.inj hg, ?_⟩⟩
        refine ⟨Option.some.inj hg ▸ f.2, ?_⟩
        have hvalid := isBackingValid_of_flush hnil
        rw [Surf.isBackingValid, ← hflush mask rfl] at hvalid
        exact hvalid
    next => exact o
  all_goals exact o

end Holder

/-! ### Runs -/

namespace Owner

/-- What holds between the calls. -/
structure Owned (o : Owner) : Prop where
  /-- No VRAM block and descriptor at once. -/
  one : ¬ (o.surf.backing.self.isSome = true ∧ o.surf.backing.md.isSome = true)
  /-- There is a descriptor exactly with an id that is allocated, and by no other object. -/
  md_iff : o.surf.backing.md.isSome = true ↔
    ∃ n, o.surf.backing.gmr = .id n ∧ n ∈ o.ids.gmrs ∧ n ∉ o.others
  /-- Each id that was obtained was freed once, but for the one that is held. -/
  turns : ∀ n, Turns (.allocGMRID n) (.freeGMRID n) (decide (o.surf.backing.gmr = .id n)) o.log
  /-- Nothing was freed, unwired or moved before the last fence was waited for. -/
  settled : transfers.Settled o.log

variable {maxGMRIDs : ℕ} {o : Owner}

theorem owned_of_owns (h : o.holder.Owns maxGMRIDs o.others) : o.Owned where
  one := by
    rintro ⟨hself, hmd⟩
    rcases h.one with hnone | hnone
    · exact absurd hself (by rw [show o.surf.backing.self = none from hnone]; nofun)
    · exact absurd hmd (by rw [show o.surf.backing.md = none from hnone]; nofun)
  md_iff := by
    refine h.md_iff.trans ⟨fun ⟨n, hn⟩ => ?_, fun ⟨n, hn, _⟩ => ⟨n, hn⟩⟩
    have hheld := Gmr.held_eq_some.mpr hn
    exact ⟨n, hn, (h.accounted.live n).mpr (.inr ⟨(), hheld⟩), h.accounted.own () n hheld⟩
  turns n := by
    obtain ⟨held, hturns, hheld⟩ := h.accounted.turns n
    have hid : held = decide (o.surf.backing.gmr = .id n) := by
      rw [Bool.eq_iff_iff, hheld, decide_eq_true_iff, ← Gmr.held_eq_some]
      exact ⟨fun ⟨_, hn⟩ => hn, fun hn => ⟨(), hn⟩⟩
    exact hid ▸ hturns
  settled := h.settled

theorem owns_init (surf : Surf) {ids : Ids.Sys} (vram : Allocator.Sys)
    (hids : Ids.Reachable maxGMRIDs ids) :
    (init surf ids vram).holder.Owns maxGMRIDs (init surf ids vram).others :=
  ⟨Ids.Accounted.start hids.inv fun _ => rfl, .inl rfl, iff_of_false nofun nofun, trivial, nofun⟩

theorem owns_exec (a : Act) (h : o.holder.Owns maxGMRIDs o.others) :
    (o.exec a).holder.Owns maxGMRIDs (o.exec a).others := by
  cases a with
  | call c e =>
    have halloc : (o.allocated c e).Owns maxGMRIDs o.others := by
      unfold allocated
      split_ifs
      · exact h.allocBacking _ _ _
      · exact h
    have hflush : ∀ mask, c = .flush mask → (o.allocated c e).backing = o.surf.backing := by
      rintro mask rfl
      rfl
    have hfinish := halloc.finish (e := e) o.surf (o.result c e).2 (o.result c e).1 c hflush
    obtain ⟨g, hg⟩ := result_backing (o := o) (c := c) (e := e)
    have hmark := hfinish.mark g
    rw [Holder.finish_backing, ← hg] at hmark
    exact hmark
  | release => exact h.releaseBacking.owns
  | otherAlloc => exact ⟨h.accounted.otherAlloc, h.one, h.md_iff, h.settled, h.awaited⟩
  | otherFree id =>
    simp only [exec]
    split_ifs with hid
    · exact ⟨h.accounted.otherFree hid, h.one, h.md_iff, h.settled, h.awaited⟩
    · exact h

/-- All along every run of calls and releases, with other objects that use ids as well. -/
theorem always_owned (maxGMRIDs : ℕ) (surf : Surf) (ids : Ids.Sys) (vram : Allocator.Sys)
    (hids : Ids.Reachable maxGMRIDs ids) (acts : List Act) :
    Runs.Always exec Owned (init surf ids vram) acts := by
  intro done _
  have howns : (done.foldl exec (init surf ids vram)).holder.Owns maxGMRIDs
      (done.foldl exec (init surf ids vram)).others :=
    Runs.foldl_of_step (I := fun o : Owner => o.holder.Owns maxGMRIDs o.others)
      (fun o a h => owns_exec a h) (owns_init surf vram hids) done
  exact owned_of_owns howns

/-- Nothing fails but the allocation in VRAM. -/
def noVRAM (fence : Option { f : ℕ // f ≠ 0 }) : Faults :=
  ⟨⟨none, true, none, true, true, true, true, true, true, .success⟩, true, true, fence⟩

/-- A shape of 32 by 16 pixels, a lock, a flush and the release. -/
def lockAndFlush : List Act :=
  [.call (.setShape ⟨13, 0, 0, 0, 0, some ⟨⟨0, 0, 32, 16⟩, [⟨0, 0, 32, 16⟩]⟩, 20⟩) (noVRAM none),
    .call (.writeLock true) (noVRAM none), .call (.flush 1) (noVRAM (some ⟨9, by decide⟩)),
    .release]

theorem always_owned_lockAndFlush :
    let o := init newSurf ⟨.init 3, ∅, ∅⟩ Allocator.smallSys
    (lockAndFlush.foldl exec o).log = [.releaseMd, .freeGMRID 0, .unwire, .destroyGMR 0, .sync 9,
      .post 9, .createGMR 0, .wire, .allocGMRID 0] ∧ Runs.Always exec Owned o lockAndFlush :=
  ⟨by decide +kernel, always_owned 3 newSurf _ _ .init lockAndFlush⟩

end Owner

end Cesvga2.Surface
