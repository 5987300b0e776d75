import Cesvga2.Surface.Screen
import Cesvga2.Wire.Attempt
import Mathlib

/-! The functions of the accelerator that send the rectangles of a region to the device. A
command that carries all of them grows with their number, and `FIFOReserve` refuses it when
it is larger than the bounce buffer or the ring; the functions report success all the same. -/

namespace Cesvga2.Accel

open Cesvga2.Surface (Bounds ExtraInfo Gmr convertRect)
open Cesvga2.Fifo (bounceBufferSize)
open Cesvga2.Wire (Helper Call Cmd Driver Ready Runs Accepts elements)

/-- `IOAccelDeviceRegion`, whose `num_rects` has 32 bits. -/
structure Region extends Surface.Region where
  num_rects_lt : rects.length < 2 ^ 32

/-! ### Rectangles as words -/

/-- `mem_gmr_id`. -/
def gmrId : Gmr → ℕ
  | .invalid => 2 ^ 32 - 1
  | .vram => 2 ^ 32 - 2
  | .id n => n

/-- `SVGA3dGuestImage`. -/
def guestImage (e : ExtraInfo) : Fin 3 → ℕ := ![gmrId e.memGmr, u32 e.memOffset, u32 e.memPitch]

/-- `SVGA3dCopyBox`. -/
def copyBox (e : ExtraInfo) (b : Bounds) : Fin 9 → ℕ :=
  ![(e.box b).x, (e.box b).y, 0, (e.box b).w, (e.box b).h, 1, (e.box b).srcx, (e.box b).srcy, 0]

/-- `SVGA3dCopyRect`. -/
def copyRect (e : ExtraInfo) (b : Bounds) : Fin 6 → ℕ :=
  ![(e.box b).x, (e.box b).y, (e.box b).w, (e.box b).h, (e.box b).srcx, (e.box b).srcy]

/-- `SVGASignedRect`. -/
def signedRect (r : Planes.Rect) : Fin 4 → ℕ :=
  ![ofInt32 r.left, ofInt32 r.top, ofInt32 r.right, ofInt32 r.bottom]

/-- The arguments of `BlitFromGMRFB` for one rectangle. -/
def blit (destScreenId : ℕ) (e : ExtraInfo) (b : Bounds) : Helper :=
  .blitFromGMRFB ![ofInt32 (b.x.toInt + e.srcDeltaX), ofInt32 (b.y.toInt + e.srcDeltaY)]
    (signedRect (convertRect b e.dstDeltaX e.dstDeltaY)) destScreenId

/-- A rectangle of the destination, measured from its corner. -/
def clipRect (r : Region) (b : Bounds) : Fin 4 → ℕ :=
  let destRect := convertRect r.bounds 0 0
  signedRect (convertRect b (-destRect.left) (-destRect.top))

/-! ### The functions -/

/-- What the device and its driver can do. -/
structure Caps where
  haveSVGA3D : Bool
  haveScreenObject : Bool
  fence : Bool

/-- A null region has no rectangles, except in `blitSurfaceToScreen`, which reads its bounds. -/
inductive RegionCall where
  | surfaceDMA2D (sid transfer : ℕ) (region : Option Region) (extra : Option ExtraInfo)
      (fence : Bool)
  | surfaceCopy (srcSid dstSid : ℕ) (region : Option Region) (extra : Option ExtraInfo)
  | surfacePresentAutoSync (sid : ℕ) (region : Option Region) (extra : Option ExtraInfo)
  | blitToScreen (destScreenId : ℕ) (region : Option Region) (extra : Option ExtraInfo)
      (fence : Bool)
  | blitSurfaceToScreen (srcSid destScreenId : ℕ) (srcRect : Bounds) (region : Region)

def rectsOf (region : Option Region) : List Bounds := region.elim [] (·.rects)

namespace RegionCall

def rects : RegionCall → List Bounds
  | surfaceDMA2D _ _ region _ _ => rectsOf region
  | surfaceCopy _ _ region _ => rectsOf region
  | surfacePresentAutoSync _ region _ => rectsOf region
  | blitToScreen _ region _ _ => rectsOf region
  | blitSurfaceToScreen _ _ _ region => region.rects

/-- `InsertFence`, which does nothing without the capability. -/
def insertFence (caps : Caps) (next : ℕ) : List Helper :=
  if caps.fence then [.insertFence next] else []

/-- The error before anything is sent, or the helpers called in turn and whether the result of
the first is looked at. -/
def script (caps : Caps) (next : ℕ) : RegionCall → Except IOReturn (Bool × List Helper)
  | surfaceDMA2D _ _ _ none _ => .error .badArgument
  | surfaceDMA2D sid transfer region (some e) fence =>
    if caps.haveSVGA3D then
      .ok (true, .beginSurfaceDMA (guestImage e) ![sid, 0, 0] transfer
        ((rectsOf region).map (copyBox e)) :: if fence then insertFence caps next else [])
    else .error .noDevice
  | surfaceCopy _ _ _ none => .error .badArgument
  | surfaceCopy srcSid dstSid region (some e) =>
    if caps.haveSVGA3D then
      .ok (true, [.beginSurfaceCopy ![srcSid, 0, 0] ![dstSid, 0, 0]
        ((rectsOf region).map (copyBox e))])
    else .error .noDevice
  | surfacePresentAutoSync _ _ none => .error .badArgument
  | surfacePresentAutoSync sid region (some e) =>
    if caps.haveSVGA3D then
      .ok (true, .beginPresent sid ((rectsOf region).map (copyRect e)) :: insertFence caps next)
    else .error .noDevice
  | blitToScreen _ _ none _ => .error .badArgument
  | blitToScreen destScreenId region (some e) fence =>
    if caps.haveScreenObject then
      .ok (false, .defineGMRFB ![gmrId e.memGmr, u32 e.memOffset] (u32 e.memPitch) 0x1820 ::
        ((rectsOf region).map (blit destScreenId e) ++
          if fence then insertFence caps next else []))
    else .error .noDevice
  | blitSurfaceToScreen srcSid destScreenId srcRect region =>
    if caps.haveScreenObject then
      .ok (true, [.beginBlitSurfaceToScreen ![srcSid, 0, 0] (signedRect (convertRect srcRect 0 0))
        destScreenId (signedRect (convertRect region.bounds 0 0))
        (region.rects.map (clipRect region))])
    else .error .noDevice

end RegionCall

/-- A helper call with whatever lies behind its data. -/
def issue (h : Helper) : Call :=
  ⟨h.cmd, List.replicate h.cmd.slack 0, h.wellFormed, List.length_replicate⟩

/-- The function returns `r` and leaves the driver in `s'`. -/
def RegionCall.Returns (call : RegionCall) (caps : Caps) (next : ℕ) (s : Driver) (r : IOReturn)
    (s' : Driver) : Prop :=
  match call.script caps next with
  | .error e => r = e ∧ s' = s
  | .ok (checked, hs) => r = .success ∧ Runs checked (hs.map issue) s s'

/-! ### What is carried -/

/-- The rectangles of a command, in words. -/
def rectWords : Cmd → List (List ℕ)
  | .surfaceDMA _ boxes _ => boxes
  | .threeD .surfaceCopy _ boxes => boxes
  | .threeD .present _ rects => rects
  | .threeD .blitSurfaceToScreen _ clipRects => clipRects
  | .plain .blitGMRFBToScreen fields => [fields]
  | _ => []

/-- The words of one rectangle in the commands of a function. -/
def RegionCall.words : RegionCall → Bounds → List ℕ
  | surfaceDMA2D _ _ _ e _, b => List.ofFn (copyBox (e.getD (.source 0 0)) b)
  | surfaceCopy _ _ _ e, b => List.ofFn (copyBox (e.getD (.source 0 0)) b)
  | surfacePresentAutoSync _ _ e, b => List.ofFn (copyRect (e.getD (.source 0 0)) b)
  | blitToScreen destScreenId _ e _, b =>
    (rectWords (blit destScreenId (e.getD (.source 0 0)) b).cmd).flatten
  | blitSurfaceToScreen _ _ _ region, b => List.ofFn (clipRect region b)

/-- Every rectangle is in one of the commands. -/
def RegionCall.Carried (call : RegionCall) (cs : List Call) : Prop :=
  ∀ b ∈ call.rects, ∃ c ∈ cs, call.words b ∈ rectWords c.cmd

/-- The size of the command that carries the rectangles, or of one of several. -/
def RegionCall.bytes : RegionCall → ℕ
  | surfaceDMA2D _ _ region _ _ => 36 + 36 * (rectsOf region).length
  | surfaceCopy _ _ region _ => 32 + 36 * (rectsOf region).length
  | surfacePresentAutoSync _ region _ => 12 + 24 * (rectsOf region).length
  | blitToScreen _ _ _ _ => 32
  | blitSurfaceToScreen _ _ _ region => 56 + 16 * region.rects.length

variable {s s' : Driver} {call : RegionCall} {caps : Caps} {next : ℕ}

theorem rectsOf_lt (region : Option Region) : (rectsOf region).length < 2 ^ 32 := by
  cases region with
  | none => norm_num [rectsOf]
  | some r => exact r.num_rects_lt

/-- One command carries the region and the function leaves when it is refused. -/
theorem checked_carries {h : Helper} {rest : List Helper} (rects : List Bounds)
    (words : Bounds → List ℕ) (hs : Ready s) (hr : Runs true ((h :: rest).map issue) s s')
    (hw : ∀ b ∈ rects, words b ∈ rectWords h.cmd) :
    (∀ b ∈ rects, ∃ c ∈ s'.issued.drop s.issued.length, words b ∈ rectWords c.cmd) ↔
      rects = [] ∨ Accepts s.ring (issue h).bytes := by
  have hi := hr.issued hs
  rw [if_pos rfl] at hi
  rw [hi, List.drop_left]
  by_cases hacc : Accepts s.ring (issue h).bytes
  · simp only [hacc, or_true, iff_true, List.map_cons, List.takeWhile_cons, decide_true, if_true]
    exact fun b hb => ⟨issue h, List.mem_cons_self, hw b hb⟩
  · simp only [hacc, or_false, List.map_cons, List.takeWhile_cons, decide_false,
      Bool.false_eq_true, if_false, List.not_mem_nil, false_and, exists_false, imp_false]
    exact List.eq_nil_iff_forall_not_mem.symm

/-- Each rectangle has a command of its own and no result is looked at. -/
theorem unchecked_carries {screen : ℕ} {e : ExtraInfo} {first : Helper} {rest : List Helper}
    {rects : List Bounds} (hs : Ready s)
    (hr : Runs false ((first :: (rects.map (blit screen e) ++ rest)).map issue) s s')
    (hfirst : rectWords first.cmd = []) (hrest : ∀ h ∈ rest, rectWords h.cmd = []) :
    (∀ b ∈ rects, ∃ c ∈ s'.issued.drop s.issued.length,
      (rectWords (blit screen e b).cmd).flatten ∈ rectWords c.cmd) ↔
      rects = [] ∨ Accepts s.ring 32 := by
  have hi := hr.issued hs
  simp only [Bool.false_eq_true, if_false] at hi
  have hbytes : ∀ b, (issue (blit screen e b)).bytes = 32 := fun b => by
    simp only [issue, Call.bytes, blit, Helper.cmd, Cmd.write, Wire.fifoReserveCmd]
    rfl
  rw [hi, List.drop_left]
  by_cases hacc : Accepts s.ring 32
  · simp only [hacc, or_true, iff_true]
    refine fun b hb => ⟨issue (blit screen e b), ?_, List.mem_singleton.mpr rfl⟩
    rw [List.mem_filter, hbytes b]
    refine ⟨List.mem_map_of_mem (List.mem_cons_of_mem _ (List.mem_append_left _ ?_)), by
      simpa using hacc⟩
    exact List.mem_map_of_mem hb
  · rw [or_iff_left hacc]
    constructor
    · intro h
      refine List.eq_nil_iff_forall_not_mem.mpr fun b hb => ?_
      obtain ⟨c, hc, hmem⟩ := h b hb
      obtain ⟨hc, hok⟩ := List.mem_filter.mp hc
      obtain ⟨h', hh, rfl⟩ := List.mem_map.mp hc
      rcases List.mem_cons.mp hh with rfl | hh
      · rw [issue, hfirst] at hmem
        cases hmem
      rcases List.mem_append.mp hh with hh | hh
      · obtain ⟨b', -, rfl⟩ := List.mem_map.mp hh
        rw [hbytes b'] at hok
        exact hacc (by simpa using hok)
      · rw [issue, hrest h' hh] at hmem
        cases hmem
    · rintro rfl b hb
      cases hb

theorem rectWords_insertFence : ∀ h ∈ RegionCall.insertFence caps next, rectWords h.cmd = [] := by
  intro h hh
  simp only [RegionCall.insertFence] at hh
  split_ifs at hh with hc
  · rw [List.mem_singleton.mp hh]
    rfl
  · cases hh

theorem bytes_beginSurfaceDMA {g host : Fin 3 → ℕ} {transfer : ℕ} {boxes : List (Fin 9 → ℕ)}
    (h : boxes.length < 2 ^ 32) :
    (issue (.beginSurfaceDMA g host transfer boxes)).bytes = 36 + 36 * boxes.length := by
  simp only [issue, Call.bytes, Helper.cmd, Cmd.write, Wire.fifoReserve3D, elements,
    List.length_map, u64]
  omega

/-- A command of a structure and an array. -/
theorem bytes_threeD {h : Helper} {op : Wire.Op3D} {fields : List ℕ} {k : ℕ}
    {items : List (Fin k → ℕ)} (hc : h.cmd = .threeD op fields (elements items))
    (hlen : items.length < 2 ^ 32) :
    (issue h).bytes = 8 + 4 * op.words + 4 * op.item * items.length := by
  have hop : op.words ≤ 31 ∧ op.item ≤ 9 := by cases op <;> decide
  have hmul : op.item * items.length ≤ 9 * items.length := Nat.mul_le_mul_right _ hop.2
  simp only [issue, Call.bytes, hc, Cmd.write, Wire.fifoReserve3D, u64, Nat.mul_assoc, elements,
    List.length_map]
  omega

theorem eq_of_guard {α : Type} {b : Bool} {r : IOReturn} {x y : α}
    (h : (if b then Except.ok x else Except.error r) = Except.ok y) : x = y := by
  split_ifs at h
  exact Except.ok.inj h

theorem RegionCall.script_ne_success : call.script caps next ≠ .error .success := by
  unfold RegionCall.script
  split
  all_goals try split_ifs
  all_goals simp

/-- What a function that returns success has run. -/
theorem RegionCall.Returns.runs (hr : call.Returns caps next s .success s') :
    ∃ checked hs, call.script caps next = .ok (checked, hs) ∧
      Runs checked (hs.map issue) s s' := by
  rw [RegionCall.Returns] at hr
  cases hscript : call.script caps next with
  | ok p =>
    rw [hscript] at hr
    exact ⟨p.1, p.2, rfl, hr.2⟩
  | error r =>
    rw [hscript] at hr
    exact absurd (hscript.trans (congrArg _ hr.1.symm)) RegionCall.script_ne_success

theorem accepts_bytes {ring : ℕ} : Accepts ring call.bytes ↔
    call.bytes ≤ bounceBufferSize ∧ call.bytes ≤ ring := by
  have h4 : call.bytes % 4 = 0 := by
    cases call <;> simp only [RegionCall.bytes] <;> omega
  simp [Accepts, h4]

/-- A function that returns success has sent every rectangle exactly when its command is no
larger than the bounce buffer and the ring. -/
theorem carried_iff_fits (h : Ready s) (hr : call.Returns caps next s .success s') :
    call.Carried (s'.issued.drop s.issued.length) ↔
      call.rects = [] ∨ call.bytes ≤ bounceBufferSize ∧ call.bytes ≤ s.ring := by
  obtain ⟨checked, hs, hscript, hruns⟩ := hr.runs
  rw [← accepts_bytes]
  cases call with
  | surfaceDMA2D sid transfer region extra fence =>
    cases extra with
    | none => cases hscript
    | some e =>
      cases eq_of_guard hscript
      have hc := checked_carries (rectsOf region) (fun b => List.ofFn (copyBox e b)) h hruns
        fun b hb => List.mem_map_of_mem (List.mem_map_of_mem hb)
      rwa [bytes_beginSurfaceDMA (by simpa using rectsOf_lt region), List.length_map] at hc
  | surfaceCopy srcSid dstSid region extra =>
    cases extra with
    | none => cases hscript
    | some e =>
      cases eq_of_guard hscript
      have hc := checked_carries (rectsOf region) (fun b => List.ofFn (copyBox e b)) h hruns
        fun b hb => List.mem_map_of_mem (List.mem_map_of_mem hb)
      rwa [bytes_threeD rfl (by simpa using rectsOf_lt region), List.length_map] at hc
  | surfacePresentAutoSync sid region extra =>
    cases extra with
    | none => cases hscript
    | some e =>
      cases eq_of_guard hscript
      have hc := checked_carries (rectsOf region) (fun b => List.ofFn (copyRect e b)) h hruns
        fun b hb => List.mem_map_of_mem (List.mem_map_of_mem hb)
      rwa [bytes_threeD rfl (by simpa using rectsOf_lt region), List.length_map] at hc
  | blitToScreen destScreenId region extra fence =>
    cases extra with
    | none => cases hscript
    | some e =>
      cases eq_of_guard hscript
      refine unchecked_carries h hruns rfl fun h' hh => ?_
      split_ifs at hh
      · exact rectWords_insertFence h' hh
      · cases hh
  | blitSurfaceToScreen srcSid destScreenId srcRect region =>
    cases eq_of_guard hscript
    have hc := checked_carries region.rects (fun b => List.ofFn (clipRect region b)) h hruns
      fun b hb => List.mem_map_of_mem (List.mem_map_of_mem hb)
    rwa [bytes_threeD rfl (by simpa using region.num_rects_lt), List.length_map] at hc

/-! ### Regions that are too large -/

/-- FIFO memory of 2 MiB. -/
def largeDev : Fifo.Dev := { Fifo.smallDev with fifoSize := 2 ^ 21 }

theorem started_largeDev : Fifo.Started (largeDev.fifoInit true).2 where
  init := ⟨largeDev, rfl⟩
  words := by decide
  room := by decide
  aperture := by decide
  unreserved := by decide

def largeDriver : Driver := ⟨⟨(largeDev.fifoInit true).2, .idle, [], [], []⟩, .idle, []⟩

theorem ready_largeDriver : Ready largeDriver := ⟨.start started_largeDev, rfl, rfl⟩

/-- A region of as many pixels. -/
def pixelRegion (n : ℕ) (h : n < 2 ^ 32) : Region :=
  ⟨⟨⟨0, 0, 1, 1⟩, List.replicate n ⟨0, 0, 1, 1⟩⟩, by simpa using h⟩

/-- `surfaceCopy` of so many pixels. -/
def pixelCopy (n : ℕ) (h : n < 2 ^ 32) : RegionCall :=
  .surfaceCopy 1 2 (some (pixelRegion n h)) (some (.source 0 0))

/-- The command of `pixelCopy`. -/
def pixelCommand (n : ℕ) : Helper :=
  .beginSurfaceCopy ![1, 0, 0] ![2, 0, 0]
    ((List.replicate n ⟨0, 0, 1, 1⟩).map (copyBox (.source 0 0)))

theorem bytes_pixelCommand {n : ℕ} (h : n < 2 ^ 32) :
    (issue (pixelCommand n)).bytes = 32 + 36 * n := by
  have hlen : ((List.replicate n ⟨0, 0, 1, 1⟩).map (copyBox (.source 0 0))).length = n := by
    rw [List.length_map, List.length_replicate]
  rw [pixelCommand, bytes_threeD rfl (hlen.trans_lt h), hlen]
  rfl

/-- 1820 rectangles take more than the bounce buffer, and `surfaceCopy` says that it succeeded
without a command. -/
theorem not_carried_pixelCopy :
    (pixelCopy 1820 (by norm_num)).Returns ⟨true, true, true⟩ 1 largeDriver .success largeDriver ∧
      ¬ (pixelCopy 1820 (by norm_num)).Carried
        (largeDriver.issued.drop largeDriver.issued.length) := by
  have hrej : largeDriver.world.dev.rejects (issue (pixelCommand 1820)).bytes := by
    rw [bytes_pixelCommand (by norm_num)]
    decide
  refine ⟨⟨rfl, .exit (.refused hrej) rfl⟩, fun h => ?_⟩
  obtain ⟨c, hc, -⟩ := h ⟨0, 0, 1, 1⟩ (List.mem_replicate.mpr ⟨by norm_num, rfl⟩)
  cases hc

/-- One rectangle is carried. -/
theorem carried_pixelCopy_one : ∃ s',
    (pixelCopy 1 (by norm_num)).Returns ⟨true, true, true⟩ 1 largeDriver .success s' ∧
      (pixelCopy 1 (by norm_num)).Carried (s'.issued.drop largeDriver.issued.length) := by
  have hrej : ¬ largeDriver.world.dev.rejects (issue (pixelCommand 1)).bytes := by
    rw [bytes_pixelCommand (by norm_num)]
    decide
  have hroom : largeDriver.world.dev.reservePass (issue (pixelCommand 1)).bytes ≠ .full := by
    rw [bytes_pixelCommand (by norm_num)]
    decide +kernel
  obtain ⟨s', hrun, hprog, hpc, -⟩ := ready_largeDriver.reach.issues rfl rfl hrej hroom
  have hr : (pixelCopy 1 (by norm_num)).Returns ⟨true, true, true⟩ 1 largeDriver .success s' :=
    ⟨rfl, .next (.issued hrej hrun hprog hpc) (fun _ => rfl) .nil⟩
  exact ⟨s', hr, (carried_iff_fits ready_largeDriver hr).mpr (Or.inr (by decide +kernel))⟩

end Cesvga2.Accel
