import Mathlib.Data.List.GetD
import Cesvga2.Basic

/-! The display modes of the framebuffer: the mode that `start` takes for the current one, the modes
that are offered, and the switch to a custom mode and back. The table of modes has one entry, whose
id is also the id of the custom mode. -/

namespace Cesvga2.FB

/-- `DisplayModeEntry`. -/
structure ModeEntry where
  width : ℕ
  height : ℕ
  flags : ℕ
  deriving DecidableEq, Repr

def ModeEntry.SameSize (a b : ModeEntry) : Prop := a.width = b.width ∧ a.height = b.height

instance (a b : ModeEntry) : Decidable (a.SameSize b) := inferInstanceAs (Decidable (_ ∧ _))

def kDisplayModeValidFlag : ℕ := 1
def kDisplayModeDefaultFlag : ℕ := 4

/-- What the driver is compiled with: `modeList` of `NUM_DISPLAY_MODES` entries and
`CUSTOM_MODE_ID`. -/
structure Config where
  modeList : List ModeEntry
  customModeId : ℤ
  nonempty : modeList ≠ []

/-- The constants of this driver. -/
def Config.driver : Config where
  modeList := [⟨1366, 768, kDisplayModeValidFlag ||| kDisplayModeDefaultFlag⟩]
  customModeId := 1
  nonempty := List.cons_ne_nil _ _

/-- The fields of the framebuffer that have to do with modes; `modes` are the active entries of
`m_modes`. -/
structure State where
  displayMode : ℤ
  customMode : ModeEntry
  customSwitch : ℕ
  customModeSwitched : Bool
  modes : List ℤ
  deriving DecidableEq, Repr

/-- The device at start: the current size and the largest one. -/
structure Hardware where
  width : ℕ
  height : ℕ
  maxWidth : ℕ
  maxHeight : ℕ
  deriving DecidableEq, Repr

/-- The device can show the entry. -/
def Hardware.Fits (hw : Hardware) (e : ModeEntry) : Prop :=
  e.width ≤ hw.maxWidth ∧ e.height ≤ hw.maxHeight

instance (hw : Hardware) (e : ModeEntry) : Decidable (hw.Fits e) :=
  inferInstanceAs (Decidable (_ ∧ _))

variable (cfg : Config)

def State.getDisplayMode (s : State) (displayMode : ℤ) : Option ModeEntry :=
  if displayMode = cfg.customModeId then some s.customMode
  else if 1 ≤ displayMode ∧ displayMode ≤ cfg.modeList.length then
    cfg.modeList[(displayMode - 1).toNat]?
  else none

/-- The loop of `TryDetectCurrentDisplayMode`, at entry `i` of the table. -/
def detectLoop (hw : Hardware) (defaultMode : ℤ) : List ModeEntry → ℤ → ℤ → ℤ
  | [], _, tableDefault => if tableDefault ≠ 0 then tableDefault else defaultMode
  | e :: rest, i, tableDefault =>
    if hw.width = e.width ∧ hw.height = e.height then i + 1
    else
      detectLoop hw defaultMode rest (i + 1)
        (if e.flags &&& kDisplayModeDefaultFlag ≠ 0 then i + 1 else tableDefault)

/-- `TryDetectCurrentDisplayMode`. The loop starts at entry 1, so that the first entry of the table
is never looked at. -/
def tryDetectCurrentDisplayMode (hw : Hardware) (defaultMode : ℤ) : ℤ :=
  detectLoop hw defaultMode (cfg.modeList.drop 1) 1 0

/-- The ids, from `i + 1` on, of the entries that fit. -/
def activeModes (hw : Hardware) : List ModeEntry → ℤ → List ℤ
  | [], _ => []
  | e :: rest, i =>
    if hw.Fits e then (i + 1) :: activeModes hw rest (i + 1) else activeModes hw rest (i + 1)

/-- The state that `start` sets up when it succeeds. -/
def start (hw : Hardware) : State where
  displayMode := tryDetectCurrentDisplayMode cfg hw 3
  customMode := cfg.modeList.head cfg.nonempty
  customSwitch := 0
  customModeSwitched := false
  modes := activeModes hw cfg.modeList 0

namespace State

def setDisplayMode (s : State) (displayMode depth : ℤ) : IOReturn × State :=
  if depth ≠ 0 then (.badArgument, s)
  else match s.getDisplayMode cfg displayMode with
    | none => (.badArgument, s)
    | some dme =>
      if s.customModeSwitched then
        (.success, { s with
          displayMode
          customModeSwitched := !decide (s.customMode.SameSize dme) })
      else (.success, { s with displayMode })

/-- `getDisplayModes`, as many as `getDisplayModeCount` tells. -/
def getDisplayModes (s : State) : List ℤ :=
  if s.customSwitch ≠ 0 then [cfg.customModeId] else s.modes

/-- The store of `CustomSwitchStepSet`; its wake-up is for the thread in `CustomSwitchStepWait`. -/
def customSwitchStepSet (s : State) (value : ℕ) : State := { s with customSwitch := value }

/-- `setAttribute`, by which the WindowServer tells that it has switched. `captured` is for
`kIOCapturedAttribute`. -/
def setAttribute (s : State) (versionMajor : ℕ) (captured : Bool) (value : ℕ) : State :=
  if captured ∧ value = 0 ∧ s.customSwitch = 1 ∧ s.displayMode = cfg.customModeId then
    s.customSwitchStepSet (if 13 ≤ versionMajor then 0 else 2)
  else s

/-- The first slot whose mode has another size than the custom mode. -/
def foundSlot (s : State) (dme1 : ModeEntry) : Option ℕ :=
  s.modes.findIdx? fun id => (s.getDisplayMode cfg id).any fun dme2 => ¬ dme2.SameSize dme1

/-- Slots 0 and `i` exchange their modes. -/
def swapSlots (s : State) (i : ℕ) : State :=
  { s with modes := (s.modes.set 0 (s.modes.getD i 0)).set i (s.modes.getD 0 0) }

def restoreAllModes (s : State) : State :=
  if s.customSwitch ≠ 2 then s
  else match s.getDisplayMode cfg cfg.customModeId with
    | none => s
    | some dme1 =>
      match s.foundSlot cfg dme1 with
      | none => s
      | some i => { s.swapSlots i with customModeSwitched := true }.customSwitchStepSet 0

end State

/-- `CustomModeData`. -/
structure CustomModeData where
  flags : ℕ
  width : ℕ
  height : ℕ
  deriving DecidableEq, Repr

def CustomModeData.bytes : ℕ := 12

/-- The arguments of `CustomMode`; a pointer that may be null is an option, or a flag where only
that is asked of it. -/
structure CustomCall where
  inData : Option CustomModeData
  outData : Bool
  inSize : ℕ
  outSize : Option ℕ
  deriving DecidableEq, Repr

/-- How far a call of `CustomMode` gets: it is answered, or waits for the WindowServer. -/
inductive CustomReply where
  | failed (rc : IOReturn)
  | answered (outData : CustomModeData)
  | waits
  deriving DecidableEq, Repr

namespace State

/-- `finish_up`. -/
def finishUp (s : State) (inData : CustomModeData) : CustomReply :=
  match s.getDisplayMode cfg s.displayMode with
  | none => .failed .unsupported
  | some dme1 => .answered ⟨inData.flags, dme1.width, dme1.height⟩

/-- `CustomMode` up to its wait for the WindowServer. -/
def customModeCall (s : State) (a : CustomCall) : CustomReply × State :=
  match a.inData with
  | none => (.failed .badArgument, s)
  | some inData =>
    if a.inSize < CustomModeData.bytes ∨ ¬ a.outData ∨
        ¬ ∃ n ∈ a.outSize, CustomModeData.bytes ≤ n then (.failed .badArgument, s)
    else if (s.getDisplayMode cfg s.displayMode).isNone then (.failed .unsupported, s)
    else if inData.flags &&& 1 ≠ 0 then
      (.waits, { s with
        customMode := { s.customMode with width := inData.width, height := inData.height }
      }.customSwitchStepSet 1)
    else (s.finishUp cfg inData, s)

end State

/-- What the framebuffer is called for; the last is the thread call that `CustomMode` schedules. -/
inductive Call where
  | setDisplayMode (displayMode depth : ℤ)
  | customMode (a : CustomCall)
  | setAttribute (captured : Bool) (value : ℕ)
  | restoreAllModes
  deriving DecidableEq, Repr

def State.exec (versionMajor : ℕ) (s : State) : Call → State
  | .setDisplayMode displayMode depth => (s.setDisplayMode cfg displayMode depth).2
  | .customMode a => (s.customModeCall cfg a).2
  | .setAttribute captured value => s.setAttribute cfg versionMajor captured value
  | .restoreAllModes => s.restoreAllModes cfg

def State.run (versionMajor : ℕ) (s : State) (calls : List Call) : State :=
  calls.foldl (State.exec cfg versionMajor) s

/-! ### The current mode

With one entry in the table the detection loop has nothing to look at, and the mode that `start`
falls back to is not in the table. -/

section

variable {s : State} {hw : Hardware} {versionMajor : ℕ} {calls : List Call}

@[simp] theorem State.getDisplayMode_custom (s : State) :
    s.getDisplayMode cfg cfg.customModeId = some s.customMode := if_pos rfl

theorem State.getDisplayMode_driver (s : State) (displayMode : ℤ) :
    s.getDisplayMode .driver displayMode = if displayMode = 1 then some s.customMode else none := by
  have hcustom : Config.driver.customModeId = 1 := rfl
  have hlen : (Config.driver.modeList.length : ℤ) = 1 := rfl
  rw [State.getDisplayMode, hcustom, hlen]
  by_cases hid : displayMode = 1
  · rw [if_pos hid, if_pos hid]
  · rw [if_neg hid, if_neg (by omega), if_neg hid]

/-- A call changes the mode only if it sets the one mode that there is. -/
theorem State.exec_displayMode (s : State) (versionMajor : ℕ) (c : Call) :
    (s.exec .driver versionMajor c).displayMode =
      if c = .setDisplayMode 1 0 then 1 else s.displayMode := by
  cases c with
  | setDisplayMode displayMode depth =>
    simp only [State.exec, State.setDisplayMode, State.getDisplayMode_driver,
      Call.setDisplayMode.injEq]
    by_cases hdepth : depth = 0
    · by_cases hid : displayMode = 1
      · rw [if_neg (not_not.mpr hdepth), if_pos hid, if_pos ⟨hid, hdepth⟩, ← hid]
        dsimp only
        split_ifs <;> rfl
      · rw [if_neg (not_not.mpr hdepth), if_neg hid, if_neg fun h => hid h.1]
    · rw [if_pos hdepth, if_neg fun h => hdepth h.2]
  | customMode a =>
    rw [if_neg nofun, State.exec, State.customModeCall]
    cases a.inData with
    | none => rfl
    | some inData =>
      dsimp only
      split_ifs <;> rfl
  | setAttribute captured value =>
    rw [if_neg nofun, State.exec, State.setAttribute]
    split_ifs <;> rfl
  | restoreAllModes =>
    rw [if_neg nofun, State.exec, State.restoreAllModes, State.getDisplayMode_custom]
    dsimp only
    cases s.foundSlot .driver s.customMode with
    | none => split_ifs <;> rfl
    | some i => split_ifs <;> rfl

theorem State.run_displayMode (s : State) (versionMajor : ℕ) (calls : List Call) :
    (s.run .driver versionMajor calls).displayMode =
      if .setDisplayMode 1 0 ∈ calls then 1 else s.displayMode := by
  induction calls generalizing s with
  | nil => rfl
  | cons c calls ih =>
    change (State.run .driver versionMajor (s.exec .driver versionMajor c) calls).displayMode = _
    rw [ih, State.exec_displayMode]
    simp only [List.mem_cons, eq_comm (b := c)]
    split_ifs <;> tauto

/-- After the calls there is a current mode, and if the device had the size of an entry at start
then that entry was the current mode. -/
structure CurrentMode (hw : Hardware) (versionMajor : ℕ) (calls : List Call) : Prop where
  valid : (((start cfg hw).run cfg versionMajor calls).getDisplayMode cfg
    ((start cfg hw).run cfg versionMajor calls).displayMode).isSome
  detected : ∀ (i : ℕ) e, cfg.modeList[i]? = some e → hw.width = e.width → hw.height = e.height →
    (start cfg hw).displayMode = i + 1

theorem start_displayMode (hw : Hardware) : (start .driver hw).displayMode = 3 := rfl

/-- Mode 3, which `start` sets, is not in the table: there is no current mode until mode 1 is set.
The size of the one entry is not detected. -/
theorem currentMode_iff (hw : Hardware) (versionMajor : ℕ) (calls : List Call) :
    CurrentMode .driver hw versionMajor calls ↔
      .setDisplayMode 1 0 ∈ calls ∧ ¬ (hw.width = 1366 ∧ hw.height = 768) := by
  have hvalid : (((start .driver hw).run .driver versionMajor calls).getDisplayMode .driver
      ((start .driver hw).run .driver versionMajor calls).displayMode).isSome ↔
        .setDisplayMode 1 0 ∈ calls := by
    rw [State.getDisplayMode_driver, State.run_displayMode]
    by_cases hcall : .setDisplayMode 1 0 ∈ calls
    · rw [if_pos hcall, if_pos rfl]
      exact iff_of_true rfl hcall
    · rw [if_neg hcall, start_displayMode, if_neg (by norm_num)]
      exact iff_of_false nofun hcall
  constructor
  · intro h
    refine ⟨hvalid.mp h.valid, fun hsize => ?_⟩
    have hdetected := h.detected 0 _ rfl hsize.1 hsize.2
    rw [start_displayMode] at hdetected
    exact absurd hdetected (by norm_num)
  · rintro ⟨hcall, hsize⟩
    refine ⟨hvalid.mpr hcall, fun i e he hwidth hheight => ?_⟩
    cases i with
    | zero =>
      cases he
      exact absurd ⟨hwidth, hheight⟩ hsize
    | succ i => cases he

/-- On a screen of 1366 by 768, mode 1 of the table, `start` takes mode 3 for the current one, which
does not exist. -/
theorem not_currentMode_start :
    (start .driver ⟨1366, 768, 1366, 768⟩).displayMode = 3 ∧
      (start .driver ⟨1366, 768, 1366, 768⟩).getDisplayMode .driver 3 = none ∧
      ¬ CurrentMode .driver ⟨1366, 768, 1366, 768⟩ 12 [] :=
  ⟨by decide, by decide, fun h => absurd h.valid (by decide)⟩

/-! ### The way back from a custom mode

`RestoreAllModes` looks for an active mode whose size is not that of the custom mode. The custom
mode itself is none, so that it takes a second entry in the table to find one. -/

variable {cfg}

theorem foundSlot_isSome_iff (s : State) (dme1 : ModeEntry) :
    (s.foundSlot cfg dme1).isSome ↔
      ∃ id ∈ s.modes, ∃ dme2, s.getDisplayMode cfg id = some dme2 ∧ ¬ dme2.SameSize dme1 := by
  rw [State.foundSlot, List.findIdx?_isSome, List.any_eq_true]
  simp only [Option.any_eq_true, decide_eq_true_eq]

theorem swapSlots_perm {i : ℕ} (hi : i < s.modes.length) : (s.swapSlots i).modes.Perm s.modes := by
  have h0 : 0 < s.modes.length := by omega
  rw [State.swapSlots, List.getD_eq_getElem _ _ hi, List.getD_eq_getElem _ _ h0]
  exact List.set_set_perm h0 hi

/-- What is done where a slot is found. -/
theorem restoreAllModes_eq (h : s.customSwitch = 2) :
    s.restoreAllModes cfg = (s.foundSlot cfg s.customMode).elim s fun i =>
      { s.swapSlots i with customModeSwitched := true }.customSwitchStepSet 0 := by
  rw [State.restoreAllModes, if_neg (not_not.mpr h), State.getDisplayMode_custom]
  cases hslot : s.foundSlot cfg s.customMode with
  | none => simp only [hslot, Option.elim_none]
  | some i => simp only [hslot, Option.elim_some]

theorem restoreAllModes_customSwitch_iff (h : s.customSwitch = 2) :
    (s.restoreAllModes cfg).customSwitch = 0 ↔ (s.foundSlot cfg s.customMode).isSome := by
  rw [restoreAllModes_eq h]
  cases s.foundSlot cfg s.customMode with
  | none => exact iff_of_false (by rw [Option.elim_none, h]; norm_num) nofun
  | some i => exact iff_of_true rfl rfl

theorem restoreAllModes_perm (s : State) : (s.restoreAllModes cfg).modes.Perm s.modes := by
  by_cases h : s.customSwitch = 2
  · rw [restoreAllModes_eq h]
    cases hslot : s.foundSlot cfg s.customMode with
    | none => exact .refl _
    | some i =>
      obtain ⟨hi, -⟩ := List.findIdx?_eq_some_iff_getElem.mp hslot
      exact swapSlots_perm hi
  · rw [State.restoreAllModes, if_pos h]

/-- A call that is no custom request leaves the custom mode alone, and any call the set of active
modes. -/
structure State.Frame (s s' : State) : Prop where
  customMode : s'.customMode = s.customMode
  modes : s'.modes.Perm s.modes

theorem State.Frame.refl (s : State) : s.Frame s := ⟨rfl, .refl _⟩

theorem setDisplayMode_frame (s : State) (displayMode depth : ℤ) :
    s.Frame (s.setDisplayMode cfg displayMode depth).2 := by
  unfold State.setDisplayMode
  cases s.getDisplayMode cfg displayMode with
  | none => split_ifs <;> exact .refl s
  | some dme =>
    dsimp only
    split_ifs
    · exact .refl s
    · exact ⟨rfl, .refl _⟩
    · exact ⟨rfl, .refl _⟩

theorem setAttribute_frame (s : State) (versionMajor : ℕ) (captured : Bool) (value : ℕ) :
    s.Frame (s.setAttribute cfg versionMajor captured value) := by
  unfold State.setAttribute
  by_cases h : captured ∧ value = 0 ∧ s.customSwitch = 1 ∧ s.displayMode = cfg.customModeId
  · rw [if_pos h]
    exact ⟨rfl, .refl _⟩
  · rw [if_neg h]
    exact .refl s

theorem restoreAllModes_customMode (s : State) :
    (s.restoreAllModes cfg).customMode = s.customMode := by
  by_cases h : s.customSwitch = 2
  · rw [restoreAllModes_eq h]
    cases s.foundSlot cfg s.customMode with
    | none => rfl
    | some i => rfl
  · rw [State.restoreAllModes, if_pos h]

theorem customModeCall_modes (s : State) (a : CustomCall) :
    (s.customModeCall cfg a).2.modes = s.modes := by
  unfold State.customModeCall
  cases a.inData with
  | none => rfl
  | some inData =>
    dsimp only
    split_ifs <;> rfl

theorem exec_frame (s : State) (versionMajor : ℕ) {c : Call} (hc : ∀ a, c ≠ .customMode a) :
    s.Frame (s.exec cfg versionMajor c) := by
  cases c with
  | setDisplayMode displayMode depth => exact setDisplayMode_frame s displayMode depth
  | customMode a => exact absurd rfl (hc a)
  | setAttribute captured value => exact setAttribute_frame s versionMajor captured value
  | restoreAllModes => exact ⟨restoreAllModes_customMode s, restoreAllModes_perm s⟩

theorem exec_perm (s : State) (versionMajor : ℕ) (c : Call) :
    (s.exec cfg versionMajor c).modes.Perm s.modes := by
  by_cases hc : ∃ a, c = .customMode a
  · obtain ⟨a, rfl⟩ := hc
    exact .of_eq (customModeCall_modes s a)
  · exact (exec_frame s versionMajor fun a ha => hc ⟨a, ha⟩).modes

theorem run_perm (s : State) (versionMajor : ℕ) (calls : List Call) :
    (s.run cfg versionMajor calls).modes.Perm s.modes := by
  induction calls generalizing s with
  | nil => exact .refl _
  | cons c calls ih => exact (ih (s.exec cfg versionMajor c)).trans (exec_perm s versionMajor c)

theorem run_customMode (s : State) (versionMajor : ℕ)
    (hcalls : ∀ c ∈ calls, ∀ a, c ≠ .customMode a) :
    (s.run cfg versionMajor calls).customMode = s.customMode := by
  induction calls generalizing s with
  | nil => rfl
  | cons c calls ih =>
    have hframe : s.Frame (s.exec cfg versionMajor c) :=
      exec_frame s versionMajor (hcalls c List.mem_cons_self)
    have hrest := ih (s.exec cfg versionMajor c)
      fun c' hc' => hcalls c' (List.mem_cons_of_mem c hc')
    exact hrest.trans hframe.customMode

theorem mem_activeModes_iff (entries : List ModeEntry) (i id : ℤ) :
    id ∈ activeModes hw entries i ↔
      ∃ (k : ℕ) (e : ModeEntry), entries[k]? = some e ∧ hw.Fits e ∧ id = i + k + 1 := by
  induction entries generalizing i with
  | nil => exact iff_of_false List.not_mem_nil nofun
  | cons e rest ih =>
    have hcons : id ∈ activeModes hw (e :: rest) i ↔
        (hw.Fits e ∧ id = i + 1) ∨ id ∈ activeModes hw rest (i + 1) := by
      rw [activeModes]
      split_ifs with hfits
      · rw [List.mem_cons, and_iff_right hfits]
      · rw [or_iff_right fun h => hfits h.1]
    rw [hcons, ih]
    constructor
    · rintro (⟨hfits, rfl⟩ | ⟨k, e', he', hfits, rfl⟩)
      · exact ⟨0, e, rfl, hfits, by simp⟩
      · exact ⟨k + 1, e', he', hfits, by push_cast; ring⟩
    · rintro ⟨k, e', he', hfits, rfl⟩
      cases k with
      | zero =>
        cases he'
        exact .inl ⟨hfits, by simp⟩
      | succ k => exact .inr ⟨k, e', he', hfits, by push_cast; ring⟩

/-- The mode of an entry that has an id of its own. -/
theorem getDisplayMode_entry (s : State) {k : ℕ} {e : ModeEntry} (he : cfg.modeList[k]? = some e)
    (hk : (k + 1 : ℤ) ≠ cfg.customModeId) : s.getDisplayMode cfg (k + 1) = some e := by
  obtain ⟨hlt, -⟩ := List.getElem?_eq_some_iff.mp he
  rw [State.getDisplayMode, if_neg hk, if_pos (by omega)]
  simpa using he

variable (cfg) in
/-- All modes are offered again, those that `start` found. -/
structure Restored (s₀ s : State) : Prop where
  customSwitch : s.customSwitch = 0
  offered : s.getDisplayModes cfg = s.modes
  modes : s.modes.Perm s₀.modes

variable (cfg) in
/-- The state of a driver after a custom request that was let in, and further calls that are
none. -/
def requested (hw : Hardware) (versionMajor : ℕ) (before : List Call) (a : CustomCall)
    (after : List Call) : State :=
  ((((start cfg hw).run cfg versionMajor before).customModeCall cfg a).2).run cfg versionMajor after

theorem finishUp_ne_waits (s : State) (inData : CustomModeData) :
    s.finishUp cfg inData ≠ .waits := by
  unfold State.finishUp
  cases s.getDisplayMode cfg s.displayMode with
  | none => exact nofun
  | some dme1 => exact nofun

/-- A request that was let in has set the size of the custom mode. -/
theorem customModeCall_waits {a : CustomCall} {d : CustomModeData} (hdata : a.inData = some d)
    (h : (s.customModeCall cfg a).1 = .waits) :
    (s.customModeCall cfg a).2.customMode =
      { s.customMode with width := d.width, height := d.height } := by
  unfold State.customModeCall at h ⊢
  simp only [hdata] at h ⊢
  split_ifs at h ⊢ with hargs hmode hflag
  · rfl
  · exact absurd h (finishUp_ne_waits s d)

/-- The slot that is looked for belongs to an entry of the table, as the custom mode has its own
size. -/
theorem foundSlot_isSome_iff_entry (hmodes : s.modes.Perm (start cfg hw).modes) :
    (s.foundSlot cfg s.customMode).isSome ↔
      ∃ (k : ℕ) (e : ModeEntry), cfg.modeList[k]? = some e ∧ (k + 1 : ℤ) ≠ cfg.customModeId ∧
        hw.Fits e ∧ ¬ e.SameSize s.customMode := by
  rw [foundSlot_isSome_iff]
  constructor
  · rintro ⟨id, hid, dme, hdme, hsize⟩
    obtain ⟨k, e, he, hfits, rfl⟩ := (mem_activeModes_iff _ _ _).mp (hmodes.mem_iff.mp hid)
    rw [zero_add] at hdme
    have hk : (k + 1 : ℤ) ≠ cfg.customModeId := by
      intro hk
      rw [hk, State.getDisplayMode_custom, Option.some.injEq] at hdme
      exact hsize (hdme ▸ ⟨rfl, rfl⟩)
    rw [getDisplayMode_entry s he hk, Option.some.injEq] at hdme
    exact ⟨k, e, he, hk, hfits, hdme ▸ hsize⟩
  · rintro ⟨k, e, he, hk, hfits, hsize⟩
    refine ⟨k + 1, hmodes.mem_iff.mpr ?_, e, getDisplayMode_entry s he hk, hsize⟩
    exact (mem_activeModes_iff _ _ _).mpr ⟨k, e, he, hfits, by ring⟩

/-- After an accepted request the restore brings all modes back exactly if the device can show an
entry of the table that has an id of its own and another size than the one requested. -/
theorem restored_iff {before after : List Call} {a : CustomCall} {d : CustomModeData}
    (hdata : a.inData = some d)
    (hwaits : (((start cfg hw).run cfg versionMajor before).customModeCall cfg a).1 = .waits)
    (hafter : ∀ c ∈ after, ∀ b, c ≠ .customMode b)
    (hack : (requested cfg hw versionMajor before a after).customSwitch = 2) :
    Restored cfg (start cfg hw)
        ((requested cfg hw versionMajor before a after).restoreAllModes cfg) ↔
      ∃ (k : ℕ) (e : ModeEntry), cfg.modeList[k]? = some e ∧ (k + 1 : ℤ) ≠ cfg.customModeId ∧
        hw.Fits e ∧ ¬ (e.width = d.width ∧ e.height = d.height) := by
  have hcustom : (requested cfg hw versionMajor before a after).customMode.width = d.width ∧
      (requested cfg hw versionMajor before a after).customMode.height = d.height := by
    rw [requested, run_customMode _ versionMajor hafter, customModeCall_waits hdata hwaits]
    exact ⟨rfl, rfl⟩
  have hmodes : (requested cfg hw versionMajor before a after).modes.Perm (start cfg hw).modes := by
    have hbefore : ((start cfg hw).run cfg versionMajor before).modes.Perm (start cfg hw).modes :=
      run_perm _ versionMajor before
    rw [← customModeCall_modes _ a] at hbefore
    exact (run_perm _ versionMajor after).trans hbefore
  generalize requested cfg hw versionMajor before a after = s at hack hcustom hmodes
  obtain ⟨hwidth, hheight⟩ := hcustom
  have hrestored : Restored cfg (start cfg hw) (s.restoreAllModes cfg) ↔
      (s.restoreAllModes cfg).customSwitch = 0 := by
    refine ⟨fun h => h.customSwitch, fun h => ⟨h, ?_, (restoreAllModes_perm s).trans hmodes⟩⟩
    rw [State.getDisplayModes, if_neg (not_not.mpr h)]
  rw [hrestored, restoreAllModes_customSwitch_iff hack, foundSlot_isSome_iff_entry hmodes,
    ← hwidth, ← hheight]
  rfl

/-- A request for a custom mode. -/
def customRequest (width height : ℕ) : CustomCall := ⟨some ⟨1, width, height⟩, true, 12, some 12⟩

/-- With the constants of this driver the switch stays at 2: the WindowServer sets mode 1 and tells
so, and the restore finds no mode to put first. -/
theorem not_restored_driver :
    let hw : Hardware := ⟨1366, 768, 1366, 768⟩
    let before : List Call := [.setDisplayMode 1 0]
    let after : List Call := [.setDisplayMode 1 0, .setAttribute true 0]
    (((start .driver hw).run .driver 12 before).customModeCall .driver (customRequest 800 600)).1 =
        .waits ∧
      (requested .driver hw 12 before (customRequest 800 600) after).customSwitch = 2 ∧
      ((requested .driver hw 12 before (customRequest 800 600) after).restoreAllModes
        .driver).customSwitch = 2 ∧
      ¬ Restored .driver (start .driver hw)
        ((requested .driver hw 12 before (customRequest 800 600) after).restoreAllModes .driver) :=
  ⟨by decide, by decide, by decide, fun h => absurd h.customSwitch (by decide)⟩

/-- Two entries, and an id for the custom mode that is not theirs. -/
def wideConfig : Config where
  modeList := [⟨800, 600, kDisplayModeValidFlag⟩, ⟨1024, 768, kDisplayModeValidFlag⟩]
  customModeId := 3
  nonempty := List.cons_ne_nil _ _

theorem restored_wide :
    let hw : Hardware := ⟨1024, 768, 1024, 768⟩
    let after : List Call := [.setDisplayMode 3 0, .setAttribute true 0]
    (requested wideConfig hw 12 [] (customRequest 640 480) after).customSwitch = 2 ∧
      Restored wideConfig (start wideConfig hw)
        ((requested wideConfig hw 12 [] (customRequest 640 480) after).restoreAllModes
          wideConfig) := by
  refine ⟨by decide, (restored_iff rfl (by decide) (by simp) (by decide)).mpr ?_⟩
  exact ⟨0, _, rfl, by decide, by decide, by decide⟩

end

end Cesvga2.FB
