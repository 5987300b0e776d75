import Mathlib.Data.List.Nodup
import Mathlib.Tactic.NormNum

/-! The table of displays of the GL driver in user space. `gldInitializeLibrarySelf` collects the
displays that it is to drive and asks the device of each for its configuration, and
`gldGetRendererInfo` looks a display up by its mask. The service and the mask of a display are
stored in its own entry; its configuration and the names of its engines are stored through the
pointer to the table, which is to say in the first entry. -/

namespace Cesvga2.GLD

/-- `display_info_t`. A service is a port, and the names are what the arrays hold as strings. -/
structure DisplayInfo where
  service : ℕ
  mask : BitVec 32
  config : Fin 5 → BitVec 32
  engine1 : String
  engine2 : String

/-- The arguments of `gldInitializeLibrarySelf`. -/
structure Request where
  pServices : ℕ → ℕ
  pServiceFlags : ℕ → UInt8
  displayMask : BitVec 32

/-- What IOKit does for a service: whether a device client is opened, and what
`kIOCEDeviceGetConfig` answers. -/
structure IOKit where
  serviceOpen : ℕ → Bool
  getConfig : ℕ → Option (Fin 5 → BitVec 64)

/-- What the arrays on the stack and the memory of `malloc` happen to hold. -/
structure Uninitialized where
  services : ℕ → ℕ
  masks : ℕ → BitVec 32
  dinfo : ℕ → DisplayInfo

/-! ### The displays -/

/-- The variables of the first loop. -/
structure Scan where
  lastDisplay : ℕ
  numDisplays : ℕ
  services : ℕ → ℕ
  masks : ℕ → BitVec 32

namespace Request

variable (q : Request)

/-- One pass of the first loop. -/
def scanDisplay (s : Scan) (displayNum : ℕ) : Scan :=
  let services := Function.update s.services displayNum 0
  let masks := Function.update s.masks displayNum 0
  if q.displayMask &&& (1#32 <<< displayNum) ≠ 0 then
    if q.pServiceFlags displayNum = 0 then
      { lastDisplay := displayNum + 1
        numDisplays := s.numDisplays + 1
        services := Function.update services s.numDisplays (q.pServices displayNum)
        masks := Function.update masks s.numDisplays
          (masks s.numDisplays ||| 1#32 <<< displayNum) }
    else { s with lastDisplay := displayNum + 1, services, masks }
  else { s with services, masks }

def scan (u : Uninitialized) : Scan :=
  (List.range 32).foldl q.scanDisplay ⟨0, 0, u.services, u.masks⟩

end Request

/-! ### Their entries -/

/-- `config[0]` to `config[4]`; the low bits of the second word are the log level. -/
def configWords (output : Fin 5 → BitVec 64) : Fin 5 → BitVec 32 := fun i =>
  if i = 1 then (output i).setWidth 32 &&& ~~~7#32 else (output i).setWidth 32

/-- It always succeeds. -/
def glrPopulateDevice (e : DisplayInfo) : DisplayInfo :=
  { e with engine1 := "CECL SVGA II OpenGL Engine", engine2 := "CECL SVGA II Compute Engine" }

/-- One pass of the second loop; none if IOKit fails, whereupon the table is freed. -/
def fillEntry (io : IOKit) (s : Scan) (dinfo : ℕ → DisplayInfo) (k : ℕ) :
    Option (ℕ → DisplayInfo) :=
  let dinfo := Function.update dinfo k { dinfo k with service := s.services k, mask := s.masks k }
  if io.serviceOpen (s.services k) then
    (io.getConfig (s.services k)).map fun output =>
      -- `dinfo->config` and `glrPopulateDevice(connect, dinfo)`: not of entry `k`.
      let dinfo := Function.update dinfo 0 { dinfo 0 with config := configWords output }
      Function.update dinfo 0 (glrPopulateDevice (dinfo 0))
  else none

/-- The fields of `glr_io_data` that have to do with the table. -/
structure IOData where
  lastDisplay : ℕ
  numDisplays : ℕ
  dinfo : Option (ℕ → DisplayInfo)

def gldInitializeLibrarySelf (q : Request) (io : IOKit) (u : Uninitialized) : IOData :=
  let s := q.scan u
  match (List.range s.numDisplays).foldlM (fillEntry io s) u.dinfo with
  | none => ⟨s.lastDisplay, 0, none⟩
  | some dinfo => ⟨s.lastDisplay, s.numDisplays, some dinfo⟩

/-! ### The lookup -/

/-- What `RendererInfo` tells of one display; the other fields are the same for all. -/
structure RendererInfo where
  rendererID : BitVec 32
  displayMask : BitVec 32
  vramSize : BitVec 32
  textureMemory : BitVec 32
  deriving DecidableEq, Repr

/-- `kCGLRendererIntel900ID & 0xFFFFU`. -/
def rendererIntel900ID : BitVec 32 := 0x4000#32

/-- What is reported of entry `i`. -/
def DisplayInfo.rendererInfo (e : DisplayInfo) (i : ℕ) : RendererInfo where
  rendererID := rendererIntel900ID ||| (BitVec.ofNat 32 (i + 1) <<< 24)
  displayMask := e.mask
  vramSize := e.config 3 >>> 20
  textureMemory := e.config 2 >>> 20

/-- The loop of `gldGetRendererInfo` over `n` entries from `i` on; none is `kCGLBadDisplay`. -/
def lookup (dinfo : ℕ → DisplayInfo) (displayMask : BitVec 32) : ℕ → ℕ → Option RendererInfo
  | 0, _ => none
  | n + 1, i =>
    if displayMask &&& (dinfo i).mask = 0 then lookup dinfo displayMask n (i + 1)
    else if displayMask &&& ~~~(dinfo i).mask ≠ 0 then none
    else some ((dinfo i).rendererInfo i)

def IOData.gldGetRendererInfo (g : IOData) (displayMask : BitVec 32) : Option RendererInfo :=
  g.dinfo.bind fun dinfo => lookup dinfo displayMask g.numDisplays 0

/-! ### What the loops leave behind -/

variable {q : Request} {io : IOKit} {u : Uninitialized} {s : Scan} {dinfo dinfo' : ℕ → DisplayInfo}
  {n k d : ℕ}

/-- A display that the driver is to drive: its bit is set and its flags are clear. -/
def Request.Eligible (q : Request) (d : ℕ) : Prop :=
  q.displayMask.getLsbD d = true ∧ q.pServiceFlags d = 0

instance (q : Request) (d : ℕ) : Decidable (q.Eligible d) := inferInstanceAs (Decidable (_ ∧ _))

/-- The displays below `n` to drive, in ascending order. -/
def Request.eligibleBelow (q : Request) (n : ℕ) : List ℕ := (List.range n).filter (q.Eligible ·)

def Request.eligible (q : Request) : List ℕ := q.eligibleBelow 32

theorem one_shiftLeft_eq (d : ℕ) : 1#32 <<< d = BitVec.twoPow 32 d := rfl

theorem twoPow_ne_zero (hd : d < 32) : BitVec.twoPow 32 d ≠ 0#32 := by
  intro h
  have hbit := BitVec.getLsbD_twoPow (w := 32) d d
  rw [h, BitVec.getLsbD_zero, decide_eq_true hd, decide_eq_true rfl] at hbit
  exact absurd hbit Bool.false_ne_true

/-- A mask of one bit picks that bit out. -/
theorem and_one_shiftLeft_ne_zero_iff (m : BitVec 32) (hd : d < 32) :
    m &&& (1#32 <<< d) ≠ 0 ↔ m.getLsbD d = true := by
  rw [one_shiftLeft_eq, BitVec.and_twoPow]
  cases m.getLsbD d with
  | true => exact iff_of_true (twoPow_ne_zero hd) rfl
  | false => exact iff_of_false (not_not.mpr rfl) Bool.false_ne_true

theorem one_shiftLeft_and_eq_zero_iff (hd : d < 32) (e : ℕ) :
    (1#32 <<< e) &&& (1#32 <<< d) = 0 ↔ e < 32 → e ≠ d := by
  rw [← not_iff_not, ← Ne, and_one_shiftLeft_ne_zero_iff _ hd, one_shiftLeft_eq,
    BitVec.getLsbD_twoPow, Bool.and_eq_true, decide_eq_true_eq, decide_eq_true_eq]
  tauto

theorem one_shiftLeft_and_not (d : ℕ) : (1#32 <<< d) &&& ~~~(1#32 <<< d) = 0 :=
  BitVec.and_not_self _

/-- The first loop after the displays below `n`: the places from the number found on are clear. -/
structure Scanned (q : Request) (n : ℕ) (s : Scan) : Prop where
  numDisplays : s.numDisplays = (q.eligibleBelow n).length
  services : ∀ k d, (q.eligibleBelow n)[k]? = some d → s.services k = q.pServices d
  masks : ∀ k d, (q.eligibleBelow n)[k]? = some d → s.masks k = 1#32 <<< d
  clear : ∀ k, s.numDisplays ≤ k → k < n → s.masks k = 0

theorem Request.eligibleBelow_succ (q : Request) (n : ℕ) :
    q.eligibleBelow (n + 1) = q.eligibleBelow n ++ if q.Eligible n then [n] else [] := by
  rw [Request.eligibleBelow, List.range_succ, List.filter_append, List.filter_singleton]
  simp [Request.eligibleBelow]

theorem Request.length_eligibleBelow_le (q : Request) (n : ℕ) : (q.eligibleBelow n).length ≤ n :=
  (List.length_filter_le _ _).trans (List.length_range).le

theorem Request.getElem?_eligibleBelow_succ (he : q.Eligible n) {k d : ℕ}
    (hk : (q.eligibleBelow (n + 1))[k]? = some d) :
    (q.eligibleBelow n)[k]? = some d ∨ k = (q.eligibleBelow n).length ∧ d = n := by
  rw [q.eligibleBelow_succ, if_pos he, List.getElem?_append] at hk
  split_ifs at hk with hk'
  · exact .inl hk
  · obtain ⟨hlen, hd⟩ := List.getElem?_eq_some_iff.mp hk
    rw [List.length_singleton] at hlen
    simp only [List.getElem_singleton] at hd
    exact .inr ⟨by omega, hd.symm⟩

theorem Scanned.lt_numDisplays (h : Scanned q n s) {k d : ℕ}
    (hk : (q.eligibleBelow n)[k]? = some d) : k < s.numDisplays := by
  rw [h.numDisplays]
  exact (List.getElem?_eq_some_iff.mp hk).1

/-- The place that is cleared now is not that of a display found so far. -/
theorem Scanned.clearPlace (h : Scanned q n s) :
    Scanned q n { s with
      services := Function.update s.services n 0
      masks := Function.update s.masks n 0 } := by
  have hle : s.numDisplays ≤ n := h.numDisplays ▸ q.length_eligibleBelow_le n
  refine ⟨h.numDisplays, fun k d hk => ?_, fun k d hk => ?_, fun k hk hkn => ?_⟩
  · have hlt := h.lt_numDisplays hk
    exact (Function.update_of_ne (by omega) _ _).trans (h.services k d hk)
  · have hlt := h.lt_numDisplays hk
    exact (Function.update_of_ne (by omega) _ _).trans (h.masks k d hk)
  · exact (Function.update_of_ne (by omega) _ _).trans (h.clear k hk hkn)

/-- The display found now is the last one, at the place that was the first free one. -/
theorem Scanned.found (h : Scanned q n s) (hn : s.masks n = 0) (he : q.Eligible n)
    (lastDisplay : ℕ) :
    Scanned q (n + 1)
      { lastDisplay := lastDisplay
        numDisplays := s.numDisplays + 1
        services := Function.update s.services s.numDisplays (q.pServices n)
        masks := Function.update s.masks s.numDisplays
          (s.masks s.numDisplays ||| 1#32 <<< n) } := by
  have hle : s.numDisplays ≤ n := h.numDisplays ▸ q.length_eligibleBelow_le n
  have hclear : ∀ k, s.numDisplays ≤ k → k < n + 1 → s.masks k = 0 := by
    intro k hk hkn
    rcases Nat.lt_succ_iff_lt_or_eq.mp hkn with hlt | rfl
    · exact h.clear k hk hlt
    · exact hn
  refine ⟨?_, fun k d hk => ?_, fun k d hk => ?_, fun k hk hkn => ?_⟩
  · rw [q.eligibleBelow_succ, if_pos he, List.length_append, h.numDisplays]
    rfl
  · rcases Request.getElem?_eligibleBelow_succ he hk with hk | ⟨hk, rfl⟩
    · exact (Function.update_of_ne (h.lt_numDisplays hk).ne _ _).trans (h.services k d hk)
    · rw [hk, ← h.numDisplays]
      exact Function.update_self _ _ _
  · rcases Request.getElem?_eligibleBelow_succ he hk with hk | ⟨hk, rfl⟩
    · exact (Function.update_of_ne (h.lt_numDisplays hk).ne _ _).trans (h.masks k d hk)
    · rw [hk, ← h.numDisplays]
      dsimp only
      rw [Function.update_self, hclear _ le_rfl (by omega)]
      exact BitVec.zero_or
  · dsimp only at hk ⊢
    rw [Function.update_of_ne (by omega), hclear k (by omega) hkn]

theorem Scanned.skipped (h : Scanned q n s) (hn : s.masks n = 0) (he : ¬ q.Eligible n)
    (lastDisplay : ℕ) : Scanned q (n + 1) { s with lastDisplay := lastDisplay } := by
  have hsame : q.eligibleBelow (n + 1) = q.eligibleBelow n := by
    rw [q.eligibleBelow_succ, if_neg he, List.append_nil]
  refine ⟨hsame ▸ h.numDisplays, hsame ▸ h.services, hsame ▸ h.masks, fun k hk hkn => ?_⟩
  rcases Nat.lt_succ_iff_lt_or_eq.mp hkn with hlt | rfl
  · exact h.clear k hk hlt
  · exact hn

theorem Scanned.scanDisplay (h : Scanned q n s) (hn : n < 32) :
    Scanned q (n + 1) (q.scanDisplay s n) := by
  have hbit := and_one_shiftLeft_ne_zero_iff q.displayMask hn
  have hzero : Function.update s.masks n 0 n = 0 := Function.update_self _ _ _
  unfold Request.scanDisplay
  split_ifs with hset hflag
  · exact h.clearPlace.found hzero ⟨hbit.mp hset, hflag⟩ (n + 1)
  · exact h.clearPlace.skipped hzero (fun he => hflag he.2) (n + 1)
  · exact h.clearPlace.skipped hzero (fun he => hset (hbit.mpr he.1)) s.lastDisplay

theorem scanned_scan (q : Request) (u : Uninitialized) : Scanned q 32 (q.scan u) := by
  have hfold : ∀ n ≤ 32,
      Scanned q n ((List.range n).foldl q.scanDisplay ⟨0, 0, u.services, u.masks⟩) := by
    intro n hn
    induction n with
    | zero => exact ⟨rfl, nofun, nofun, nofun⟩
    | succ n ih =>
      rw [List.range_succ, List.foldl_append]
      exact (ih (by omega)).scanDisplay (by omega)
  exact hfold 32 le_rfl

/-- IOKit opens the service and tells its configuration. -/
def IOKit.Answers (io : IOKit) (service : ℕ) : Prop :=
  io.serviceOpen service = true ∧ (io.getConfig service).isSome = true

/-- The second loop after `n` entries: the configuration of the last display is in the first entry,
and the other entries hold what they held in that place. -/
structure Filled (io : IOKit) (s : Scan) (start : ℕ → DisplayInfo) (n : ℕ)
    (dinfo : ℕ → DisplayInfo) : Prop where
  answered : ∀ k, k < n → io.Answers (s.services k)
  entry : ∀ k, k < n → (dinfo k).service = s.services k ∧ (dinfo k).mask = s.masks k
  first : ∀ m, n = m + 1 → ∃ output, io.getConfig (s.services m) = some output ∧
    (dinfo 0).config = configWords output ∧ (dinfo 0).engine1 = "CECL SVGA II OpenGL Engine" ∧
      (dinfo 0).engine2 = "CECL SVGA II Compute Engine"
  other : ∀ k, k ≠ 0 → (dinfo k).config = (start k).config

theorem Filled.fillEntry {start : ℕ → DisplayInfo} (h : Filled io s start n dinfo)
    (hfill : fillEntry io s dinfo n = some dinfo') : Filled io s start (n + 1) dinfo' := by
  unfold GLD.fillEntry at hfill
  dsimp only at hfill
  split_ifs at hfill with hopen
  obtain ⟨output, houtput, rfl⟩ := Option.map_eq_some_iff.mp hfill
  -- Entry `n` has its service and its mask before the first entry is written.
  generalize hstored : Function.update dinfo n
    { dinfo n with service := s.services n, mask := s.masks n } = stored
  have hentry : ∀ k, k < n + 1 →
      (stored k).service = s.services k ∧ (stored k).mask = s.masks k := by
    intro k hk
    by_cases hkn : k = n
    · rw [← hstored, hkn, Function.update_self]
      exact ⟨rfl, rfl⟩
    · rw [← hstored, Function.update_of_ne hkn]
      exact h.entry k (by omega)
  have hconfig : ∀ k, (stored k).config = (dinfo k).config := by
    intro k
    by_cases hkn : k = n
    · rw [← hstored, hkn, Function.update_self]
    · rw [← hstored, Function.update_of_ne hkn]
  rw [Function.update_self, Function.update_idem]
  refine ⟨fun k hk => ?_, fun k hk => ?_, fun m hm => ?_, fun k hk => ?_⟩
  · rcases Nat.lt_succ_iff_lt_or_eq.mp hk with hlt | rfl
    · exact h.answered k hlt
    · exact ⟨hopen, Option.isSome_iff_exists.mpr ⟨output, houtput⟩⟩
  · by_cases hk0 : k = 0
    · rw [hk0, Function.update_self]
      exact hk0 ▸ hentry k hk
    · rw [Function.update_of_ne hk0]
      exact hentry k hk
  · cases Nat.succ.inj hm
    rw [Function.update_self]
    exact ⟨output, houtput, rfl, rfl, rfl⟩
  · rw [Function.update_of_ne hk, hconfig, h.other k hk]

theorem fillEntry_isSome_iff (io : IOKit) (s : Scan) (dinfo : ℕ → DisplayInfo) (k : ℕ) :
    (fillEntry io s dinfo k).isSome ↔ io.Answers (s.services k) := by
  unfold fillEntry
  dsimp only
  split_ifs with hopen
  · rw [Option.isSome_map, IOKit.Answers, and_iff_right hopen]
  · exact iff_of_false Bool.false_ne_true fun h => hopen h.1

theorem filled_of_foldlM {start : ℕ → DisplayInfo}
    (h : (List.range n).foldlM (fillEntry io s) start = some dinfo) :
    Filled io s start n dinfo := by
  induction n generalizing dinfo with
  | zero =>
    cases h
    exact ⟨nofun, nofun, nofun, fun _ _ => rfl⟩
  | succ n ih =>
    rw [List.range_succ, List.foldlM_append] at h
    obtain ⟨dinfo₁, hbefore, hlast⟩ := Option.bind_eq_some_iff.mp h
    rw [List.foldlM_cons] at hlast
    obtain ⟨dinfo₂, hfill, hnil⟩ := Option.bind_eq_some_iff.mp hlast
    cases hnil
    exact (ih hbefore).fillEntry hfill

theorem exists_foldlM (start : ℕ → DisplayInfo) (h : ∀ k, k < n → io.Answers (s.services k)) :
    ∃ dinfo, (List.range n).foldlM (fillEntry io s) start = some dinfo := by
  induction n with
  | zero => exact ⟨start, rfl⟩
  | succ n ih =>
    obtain ⟨dinfo₁, hbefore⟩ := ih fun k hk => h k (by omega)
    obtain ⟨dinfo₂, hfill⟩ :=
      Option.isSome_iff_exists.mp ((fillEntry_isSome_iff io s dinfo₁ n).mpr (h n (by omega)))
    refine ⟨dinfo₂, ?_⟩
    rw [List.range_succ, List.foldlM_append, hbefore]
    simp [hfill]

/-! ### Whose entry is whose -/

/-- What the entry of display `d` is to hold, if its device tells its configuration. -/
def Request.expected (q : Request) (io : IOKit) (d : ℕ) : Option DisplayInfo :=
  (io.getConfig (q.pServices d)).map fun output =>
    { service := q.pServices d
      mask := 1#32 <<< d
      config := configWords output
      engine1 := "CECL SVGA II OpenGL Engine"
      engine2 := "CECL SVGA II Compute Engine" }

/-- The driver has a table: entry `k` is that of the `k`-th display to drive, and the lookup of a
display reports its entry, or none for a display without. -/
structure TableRight (q : Request) (io : IOKit) (g : IOData) (dinfo : ℕ → DisplayInfo) : Prop where
  numDisplays : g.numDisplays = q.eligible.length
  entry : ∀ k d, q.eligible[k]? = some d → q.expected io d = some (dinfo k)
  found : ∀ k d, q.eligible[k]? = some d →
    g.gldGetRendererInfo (1#32 <<< d) = some ((dinfo k).rendererInfo k)
  missing : ∀ d, d < 32 → d ∉ q.eligible → g.gldGetRendererInfo (1#32 <<< d) = none

/-- Whatever memory is used, a table that is set up is right. -/
def InitializesRight (q : Request) (io : IOKit) : Prop :=
  ∀ u dinfo, (gldInitializeLibrarySelf q io u).dinfo = some dinfo →
    TableRight q io (gldInitializeLibrarySelf q io u) dinfo

/-- The lookup passes the entries of other displays by. -/
theorem lookup_one_shiftLeft {ds : List ℕ} (hds : ∀ e ∈ ds, e < 32) (i : ℕ)
    (hmask : ∀ k e, ds[k]? = some e → (dinfo (i + k)).mask = 1#32 <<< e) :
    lookup dinfo (1#32 <<< d) ds.length i =
      (ds.findIdx? (· = d)).map fun k => (dinfo (i + k)).rendererInfo (i + k) := by
  induction ds generalizing i with
  | nil => rfl
  | cons e ds ih =>
    have hhead : (dinfo i).mask = 1#32 <<< e := hmask 0 e rfl
    have he : e < 32 := hds e List.mem_cons_self
    rw [List.length_cons, lookup, hhead, List.findIdx?_cons]
    by_cases hde : e = d
    · subst hde
      rw [if_neg fun h => (one_shiftLeft_and_eq_zero_iff he e).mp h he rfl,
        if_neg (not_not.mpr (one_shiftLeft_and_not e)), if_pos (decide_eq_true rfl)]
      rfl
    · have htail := ih (fun e' he' => hds e' (List.mem_cons_of_mem e he')) (i + 1) fun k e' hk => by
        rw [Nat.add_right_comm]
        exact hmask (k + 1) e' hk
      rw [if_pos ((one_shiftLeft_and_eq_zero_iff he d).mpr fun _ => Ne.symm hde), htail,
        if_neg (by simpa using hde)]
      cases ds.findIdx? (· = d) with
      | none => rw [Option.map_none, Option.map_none, Option.map_none]
      | some k =>
        have hk : i + 1 + k = i + (k + 1) := by omega
        rw [Option.map_some, Option.map_some, Option.map_some, hk]

theorem Request.lt_of_mem_eligible (h : d ∈ q.eligible) : d < 32 := by
  unfold Request.eligible Request.eligibleBelow at h
  exact List.mem_range.mp (List.mem_filter.mp h).1

theorem Request.nodup_eligible (q : Request) : q.eligible.Nodup := List.nodup_range.filter _

/-- A table that is set up has the masks and the services right, and its lookup finds them. -/
theorem exists_filled (h : (gldInitializeLibrarySelf q io u).dinfo = some dinfo) :
    (gldInitializeLibrarySelf q io u).numDisplays = q.eligible.length ∧
      Filled io (q.scan u) u.dinfo q.eligible.length dinfo := by
  have hnum := (scanned_scan q u).numDisplays
  unfold gldInitializeLibrarySelf at h ⊢
  dsimp only at h ⊢
  cases hfold : (List.range (q.scan u).numDisplays).foldlM (fillEntry io (q.scan u)) u.dinfo with
  | none =>
    rw [hfold] at h
    cases h
  | some dinfo₁ =>
    rw [hfold] at h
    cases h
    refine ⟨hnum, ?_⟩
    have hfilled := filled_of_foldlM hfold
    rwa [hnum] at hfilled

theorem gldGetRendererInfo_eq (h : (gldInitializeLibrarySelf q io u).dinfo = some dinfo) (d : ℕ) :
    (gldInitializeLibrarySelf q io u).gldGetRendererInfo (1#32 <<< d) =
      (q.eligible.findIdx? (· = d)).map fun k => (dinfo k).rendererInfo k := by
  obtain ⟨hnum, hfilled⟩ := exists_filled h
  rw [IOData.gldGetRendererInfo, h, Option.bind_some, hnum,
    lookup_one_shiftLeft (fun e he => q.lt_of_mem_eligible he)]
  · simp only [Nat.zero_add]
  · intro k e hk
    have hlt := (List.getElem?_eq_some_iff.mp hk).1
    rw [Nat.zero_add, (hfilled.entry k hlt).2, (scanned_scan q u).masks k e hk]

theorem Request.findIdx?_eligible (h : q.eligible[k]? = some d) :
    q.eligible.findIdx? (· = d) = some k := by
  obtain ⟨hk, hd⟩ := List.getElem?_eq_some_iff.mp h
  refine List.findIdx?_eq_some_iff_getElem.mpr ⟨hk, decide_eq_true hd, fun j hj hjd => ?_⟩
  have hsame : q.eligible[j] = q.eligible[k] := (of_decide_eq_true hjd).trans hd.symm
  exact absurd ((List.Nodup.getElem_inj_iff q.nodup_eligible).mp hsame) hj.ne

/-- The devices of the displays that were found answer exactly if those at the places do. -/
theorem answers_iff (q : Request) (io : IOKit) (u : Uninitialized) :
    (∀ d ∈ q.eligible, io.Answers (q.pServices d)) ↔
      ∀ k, k < q.eligible.length → io.Answers ((q.scan u).services k) := by
  constructor
  · intro h k hk
    rw [(scanned_scan q u).services k _ (List.getElem?_eq_getElem hk)]
    exact h _ (List.getElem_mem hk)
  · intro h d hd
    obtain ⟨k, hk, rfl⟩ := List.getElem_of_mem hd
    have hservice := (scanned_scan q u).services k _ (List.getElem?_eq_getElem hk)
    exact hservice ▸ h k hk

theorem exists_dinfo (u : Uninitialized) (h : ∀ d ∈ q.eligible, io.Answers (q.pServices d)) :
    ∃ dinfo, (gldInitializeLibrarySelf q io u).dinfo = some dinfo := by
  have hnum := (scanned_scan q u).numDisplays
  have hplaces := (answers_iff q io u).mp h
  obtain ⟨dinfo, hfold⟩ := exists_foldlM u.dinfo hplaces
  rw [Request.eligible, ← hnum] at hfold
  refine ⟨dinfo, ?_⟩
  rw [gldInitializeLibrarySelf, hfold]

theorem configWords_one_ne (output : Fin 5 → BitVec 64) : configWords output ≠ fun _ => 7#32 := by
  intro h
  have h1 := congrFun h 1
  rw [configWords, if_pos rfl] at h1
  have hbit := congrArg (BitVec.getLsbD · 0) h1
  simp at hbit

/-- Every entry is that of its display exactly if there is at most one display to drive, or the
table is not set up because a device does not answer. -/
theorem initializesRight_iff (q : Request) (io : IOKit) :
    InitializesRight q io ↔
      ((∀ d ∈ q.eligible, io.Answers (q.pServices d)) → q.eligible.length ≤ 1) := by
  constructor
  · intro h hanswers
    by_contra hlen
    -- Memory that holds what no device tells.
    let u : Uninitialized := ⟨fun _ => 0, fun _ => 0, fun _ => ⟨0, 0, fun _ => 7#32, "", ""⟩⟩
    obtain ⟨dinfo, hdinfo⟩ := exists_dinfo u hanswers
    have hentry := (h u dinfo hdinfo).entry 1 _ (List.getElem?_eq_getElem (by omega))
    obtain ⟨output, -, hone⟩ := Option.map_eq_some_iff.mp hentry
    have hconfig : configWords output = (dinfo 1).config := congrArg DisplayInfo.config hone
    rw [(exists_filled hdinfo).2.other 1 one_ne_zero] at hconfig
    exact configWords_one_ne output hconfig
  · intro hlen u dinfo hdinfo
    obtain ⟨hnum, hfilled⟩ := exists_filled hdinfo
    have hone := hlen ((answers_iff q io u).mpr hfilled.answered)
    refine ⟨hnum, fun k d hk => ?_, fun k d hk => ?_, fun d hd hmem => ?_⟩
    · have hlt := (List.getElem?_eq_some_iff.mp hk).1
      obtain rfl : k = 0 := by omega
      have hservice := (scanned_scan q u).services 0 d hk
      have hmask := (scanned_scan q u).masks 0 d hk
      obtain ⟨output, houtput, hconfig, hengine1, hengine2⟩ := hfilled.first 0 (by omega)
      obtain ⟨hservice', hmask'⟩ := hfilled.entry 0 hlt
      rw [hservice] at houtput hservice'
      rw [Request.expected, houtput, Option.map_some, ← hservice', ← hmask, ← hmask', ← hconfig,
        ← hengine1, ← hengine2]
    · rw [gldGetRendererInfo_eq hdinfo, Request.findIdx?_eligible hk, Option.map_some]
    · have hnone : q.eligible.findIdx? (· = d) = none := by
        rw [List.findIdx?_eq_none_iff]
        exact fun e he => decide_eq_false fun hed => hmem (hed ▸ he)
      rw [gldGetRendererInfo_eq hdinfo, hnone, Option.map_none]

/-! ### Two displays -/

/-- Displays 0 and 1, with the services 10 and 11. -/
def twoDisplays : Request := ⟨fun d => d + 10, fun _ => 0, 3#32⟩

/-- The device of service 10 has 64 megabytes, that of service 11 has 128. -/
def twoDevices : IOKit :=
  ⟨fun _ => true, fun service => some fun _ => if service = 10 then 0x4000000#64 else 0x8000000#64⟩

/-- Memory of zeros. -/
def zeroMemory : Uninitialized := ⟨fun _ => 0, fun _ => 0, fun _ => ⟨0, 0, fun _ => 0, "", ""⟩⟩

/-- The first display is reported with the memory of the second, and the second with none. -/
theorem not_initializesRight_twoDisplays :
    let g := gldInitializeLibrarySelf twoDisplays twoDevices zeroMemory
    g.numDisplays = 2 ∧ (g.gldGetRendererInfo 1#32).map (·.vramSize) = some 128#32 ∧
      (g.gldGetRendererInfo 2#32).map (·.vramSize) = some 0#32 ∧
      ¬ InitializesRight twoDisplays twoDevices := by
  refine ⟨by decide +kernel, by decide +kernel, by decide +kernel, fun h => ?_⟩
  have hanswers : ∀ d ∈ twoDisplays.eligible, twoDevices.Answers (twoDisplays.pServices d) :=
    fun d _ => ⟨rfl, rfl⟩
  obtain ⟨dinfo, hdinfo⟩ := exists_dinfo zeroMemory hanswers
  have hright := h zeroMemory dinfo hdinfo
  have hentry := hright.entry 1 1 (by decide +kernel)
  have hfound := hright.found 1 1 (by decide +kernel)
  have hvram : ((gldInitializeLibrarySelf twoDisplays twoDevices zeroMemory).gldGetRendererInfo
      (1#32 <<< 1)).map (·.vramSize) = some 0#32 := by
    decide +kernel
  rw [hfound, Option.map_some, Option.some.injEq] at hvram
  obtain ⟨output, houtput, hone⟩ := Option.map_eq_some_iff.mp hentry
  cases houtput
  rw [← hone] at hvram
  exact absurd hvram (by decide +kernel)

end Cesvga2.GLD
