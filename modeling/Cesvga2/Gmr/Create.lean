import Cesvga2.Basic
import Cesvga2.Chains.Walk

/-! `createGMR`: the guest memory of a region, segment by segment, as a chain of descriptors
in helper pages. The last descriptor of a helper page is a link to the next page, which may
stand anywhere in physical memory. -/

namespace Cesvga2.Gmr

open Cesvga2.Chains (Cell Chain walk)

/-- `SVGAGuestMemDescriptor`. -/
structure Desc where
  ppn : ℕ
  numPages : ℕ
  deriving DecidableEq

/-- Physical memory as descriptors, by page and place in the page. -/
abbrev Memory := ℕ → ℕ → Desc

/-! ### The device -/

def Desc.cell (d : Desc) : Cell Desc (ℕ × ℕ) :=
  if d.numPages ≠ 0 then .item d else if d.ppn ≠ 0 then .link (d.ppn, 0) else .stop

/-- The device never crosses a page boundary by itself. -/
def next (a : ℕ × ℕ) : Option (ℕ × ℕ) := if a.2 + 1 < 512 then some (a.1, a.2 + 1) else none

/-- What the device reads when the page number of a descriptor table is written to
`SVGA_REG_GMR_DESCRIPTOR`. -/
def readTable (mem : Memory) (fuel ppn : ℕ) : Option (List Desc) :=
  walk (fun a => (mem a.1 a.2).cell) next fuel (ppn, 0)

/-! ### Memory descriptors -/

/-- A physical segment, in bytes. -/
structure Segment where
  addr : ℕ
  length : ℕ

/-- `IOMemoryDescriptor`; its length is an `IOByteCount`. -/
structure MemoryDescriptor where
  segments : List Segment
  length_lt : (segments.map Segment.length).sum < 2 ^ 64

/-- The rest of the segment that an offset falls into; address 0 past the end. -/
def getPhysicalSegment : List Segment → ℕ → Segment
  | [], _ => ⟨0, 0⟩
  | s :: rest, offset =>
    if offset < s.length then ⟨s.addr + offset, s.length - offset⟩
    else getPhysicalSegment rest (offset - s.length)

/-- The results of `getPhysicalSegment` while they are not 0, each from where the last one
ended. No call returns less than the rest of a segment. -/
def successive (segments : List Segment) : (calls offset : ℕ) → List Segment
  | 0, _ => []
  | calls + 1, offset =>
    let s := getPhysicalSegment segments offset
    if s.addr = 0 then [] else s :: successive segments calls (u64 (offset + s.length))

def MemoryDescriptor.ranges (md : MemoryDescriptor) : List Segment :=
  successive md.segments md.segments.length 0

/-- The helper's `n` pages in physical memory, below `2 ^ 44` as its mask asks and never at 0,
where `getPhysicalSegment` fails. From page `k` on it reports `run k` pages. -/
structure Helper (n : ℕ) where
  ppn : ℕ → ℕ
  run : ℕ → ℕ
  ppn_pos : ∀ k < n, 0 < ppn k
  ppn_lt : ∀ k < n, ppn k < 2 ^ 32
  ppn_inj : ∀ j < n, ∀ k < n, ppn j = ppn k → j = k
  run_pos : ∀ k < n, 0 < run k
  run_le : ∀ k < n, k + run k ≤ n
  contiguous : ∀ k < n, ∀ j < run k, ppn (k + j) = ppn k + j

namespace Helper

variable {n : ℕ} (h : Helper n)

def getPhysicalSegment (offset : ℕ) : Segment :=
  ⟨4096 * h.ppn (offset / 4096), 4096 * h.run (offset / 4096)⟩

/-- The place of the helper's descriptor `i`. -/
def place (i : ℕ) : ℕ × ℕ := (h.ppn (i / 512), i % 512)

def read (mem : Memory) (i : ℕ) : Desc := mem (h.place i).1 (h.place i).2

def write (mem : Memory) (i : ℕ) (d : Desc) : Memory := fun p s =>
  if (p, s) = h.place i then d else mem p s

def bzero (mem : Memory) : Memory := fun p s =>
  if ∃ k < n, h.ppn k = p then ⟨0, 0⟩ else mem p s

end Helper

/-! ### `createGMR` -/

/-- Descriptors per page, the link apart. -/
def dpp : ℕ := 4096 / 8 - 1

/-- The helper's `num_pages`. -/
def helperPages (numPhysicalRanges : ℕ) : ℕ := (numPhysicalRanges + (dpp - 1)) / dpp

structure Env where
  framebuffer : Bool
  capGMR : Bool
  maxGMRDescriptorLength : Fin (2 ^ 32)
  /-- `inTaskWithPhysicalMask`, for a number of pages. -/
  helper : (n : ℕ) → Option (Helper n)
  prepare : IOReturn

/-- The locals of the loop that fills the helper; `ptr` counts descriptors from its base. -/
structure Build where
  mem : Memory
  ptr : ℕ
  nextPage : ℕ
  inPageCount : ℕ
  helperPpn : ℕ
  helperLength : ℕ

namespace Build

variable {n : ℕ} (h : Helper n)

def put (b : Build) (s : Segment) : Build :=
  let length := u64 (s.length + s.addr % 4096)
  let length := u64 (length + 4095) / 4096 * 4096
  { b with
    mem := h.write b.mem b.ptr ⟨u32 (s.addr / 4096), u32 (length / 4096)⟩
    ptr := b.ptr + 1
    inPageCount := b.inPageCount - 1 }

def link (b : Build) : Build where
  mem := h.write b.mem b.ptr { h.read b.mem b.ptr with ppn := b.helperPpn }
  ptr := 512 * b.nextPage
  nextPage := b.nextPage + 1
  inPageCount := dpp
  helperPpn := u32 (b.helperPpn + 1)
  helperLength := sub64 b.helperLength 4096

def seek (b : Build) : Build :=
  let s := h.getPhysicalSegment (4096 * b.nextPage)
  { b with helperPpn := u32 (s.addr / 4096), helperLength := s.length }

def start (mem : Memory) : Build :=
  let s := h.getPhysicalSegment 0
  ⟨h.bzero mem, 0, 1, dpp, u32 (u32 (s.addr / 4096) + 1), sub64 s.length 4096⟩

def fill : List Segment → Build → Build
  | [], b => b
  | s :: rest, b =>
    let b := b.put h s
    if b.inPageCount ≠ 0 then fill rest b
    -- `static_cast<intptr_t>(helper_length) > 0`
    else if 0 < b.helperLength ∧ b.helperLength < 2 ^ 63 then fill rest (b.link h)
    else if b.nextPage < n then fill rest ((b.seek h).link h)
    else b

end Build

/-- Memory and the table's page number when `defineGMR` is called. -/
structure Defined where
  mem : Memory
  gmrId : ℕ
  ppn : ℕ

def createGMR (e : Env) (mem : Memory) (gmrId : ℕ) (md : Option MemoryDescriptor) :
    Except IOReturn Defined :=
  match md with
  | none => .error .badArgument
  | some md =>
    if !e.framebuffer then .error .noDevice
    else if !e.capGMR then .error .unsupported
    else if md.ranges.any fun s => s.addr / 2 ^ 44 ≠ 0 then .error .unsupported
    else
      let numPhysicalRanges := md.ranges.length
      if numPhysicalRanges = 0 then .error .badArgument
      else
        let numPages := helperPages numPhysicalRanges
        if e.maxGMRDescriptorLength < numPhysicalRanges + numPages then .error .noResources
        else
          match e.helper numPages with
          | none => .error .noResources
          | some h =>
            if e.prepare ≠ .success then .error e.prepare
            else .ok ⟨(Build.fill h md.ranges (.start h mem)).mem, gmrId,
              u32 ((h.getPhysicalSegment 0).addr / 4096)⟩

/-! ### The segments of a memory descriptor -/

/-- Page-aligned, with page numbers that are not 0 and have 32 bits. -/
structure Segment.Paged (s : Segment) : Prop where
  addr_dvd : 4096 ∣ s.addr
  length_dvd : 4096 ∣ s.length
  addr_pos : 0 < s.addr
  length_pos : 0 < s.length
  end_le : s.addr + s.length ≤ 2 ^ 44

/-- A segment's page number and its number of pages. -/
def Segment.desc (s : Segment) : Desc := ⟨s.addr / 4096, s.length / 4096⟩

variable {segs : List Segment}

theorem getPhysicalSegment_append (l : List Segment) (offset : ℕ) :
    getPhysicalSegment (l ++ segs) ((l.map Segment.length).sum + offset) =
      getPhysicalSegment segs offset := by
  induction l with
  | nil => simp
  | cons s l ih =>
    rw [List.cons_append, getPhysicalSegment, List.map_cons, List.sum_cons, if_neg (by omega),
      show s.length + (l.map Segment.length).sum + offset - s.length =
        (l.map Segment.length).sum + offset by omega, ih]

theorem successive_append (l : List Segment) (hp : ∀ s ∈ segs, s.Paged)
    (hlt : ((l ++ segs).map Segment.length).sum < 2 ^ 64) :
    successive (l ++ segs) segs.length (l.map Segment.length).sum = segs := by
  induction segs generalizing l with
  | nil => rfl
  | cons s segs ih =>
    have hs := hp s (List.mem_cons_self ..)
    have hpos := hs.length_pos
    have hfirst : getPhysicalSegment (l ++ s :: segs) (l.map Segment.length).sum = s := by
      rw [← Nat.add_zero (l.map Segment.length).sum, getPhysicalSegment_append,
        getPhysicalSegment, if_pos hpos, Nat.add_zero, Nat.sub_zero]
    have hsum : ((l ++ [s]).map Segment.length).sum = (l.map Segment.length).sum + s.length := by
      simp
    rw [List.append_cons] at hlt hfirst ⊢
    have hle : ((l ++ [s]).map Segment.length).sum < 2 ^ 64 := by
      rw [List.map_append, List.sum_append] at hlt
      omega
    rw [List.length_cons, successive, hfirst, if_neg hs.addr_pos.ne', ← hsum, u64_of_lt hle,
      ih _ (fun t ht => hp t (List.mem_cons_of_mem _ ht)) hlt]

theorem MemoryDescriptor.ranges_eq (md : MemoryDescriptor) (hp : ∀ s ∈ md.segments, s.Paged) :
    md.ranges = md.segments :=
  successive_append [] hp md.length_lt

/-! ### Filling the helper -/

namespace Helper

variable {n : ℕ} (h : Helper n) (mem : Memory) {i j : ℕ} (d : Desc)

theorem read_write_self : h.read (h.write mem i d) i = d := if_pos rfl

theorem read_write_of_ne (hi : i < 512 * n) (hj : j < 512 * n) (hne : j ≠ i) :
    h.read (h.write mem i d) j = h.read mem j := by
  refine if_neg fun heq => hne ?_
  have hpage := h.ppn_inj _ (by omega) _ (by omega) (congrArg Prod.fst heq)
  have hslot : j % 512 = i % 512 := congrArg Prod.snd heq
  omega

theorem read_bzero (hi : i < 512 * n) : h.read (h.bzero mem) i = ⟨0, 0⟩ :=
  if_pos ⟨i / 512, by omega, rfl⟩

/-- The chain that the device reads from the helper's descriptor `i` on. -/
def Chain (i : ℕ) (l : List Desc) : Prop :=
  Chains.Chain (fun a => (mem a.1 a.2).cell) next (h.place i) l

variable {h mem} {l : List Desc}

theorem chain_stop (hread : h.read mem i = ⟨0, 0⟩) : h.Chain mem i [] :=
  .stop (congrArg Desc.cell hread)

theorem chain_item (hd : d.numPages ≠ 0) (hread : h.read mem i = d) (hslot : i % 512 + 1 < 512)
    (hl : h.Chain mem (i + 1) l) : h.Chain mem i (d :: l) := by
  refine .item (b := h.place (i + 1)) ((congrArg Desc.cell hread).trans (if_pos hd)) ?_ hl
  rw [next, if_pos (show (h.place i).2 + 1 < 512 from hslot), place, place,
    show (i + 1) / 512 = i / 512 by omega, show (i + 1) % 512 = i % 512 + 1 by omega]

theorem chain_link {k : ℕ} (hk : k < n) (hread : h.read mem i = ⟨h.ppn k, 0⟩)
    (hl : h.Chain mem (512 * k) l) : h.Chain mem i l := by
  refine .link (b := h.place (512 * k)) ((congrArg Desc.cell hread).trans ?_) hl
  rw [Desc.cell, if_neg (by simp), if_pos (h.ppn_pos k hk).ne', place,
    Nat.mul_div_cancel_left k (by decide), Nat.mul_mod_right]

end Helper

theorem Segment.Paged.desc_ne (s : Segment) (hs : s.Paged) : s.desc.numPages ≠ 0 := by
  obtain ⟨k, hk⟩ := hs.length_dvd
  have := hs.length_pos
  simp only [Segment.desc]
  omega

namespace Build

variable {n : ℕ} {h : Helper n} {b : Build}

/-- The length is what is left of a run that begins at the page. -/
def Left (h : Helper n) (page ppn length : ℕ) : Prop :=
  ∃ r, length = 4096 * r ∧ page + r ≤ n ∧ ∀ j < r, h.ppn (page + j) = ppn + j

/-- Room for `inPageCount` more descriptors in the page, and zeros from the cursor on. -/
structure Ready (h : Helper n) (b : Build) : Prop where
  lt : n < 2 ^ 32
  nextPage_le : b.nextPage ≤ n
  cursor : b.ptr + b.inPageCount + 1 = 512 * b.nextPage
  inPageCount_le : b.inPageCount ≤ dpp
  zero : ∀ i, b.ptr ≤ i → i < 512 * n → h.read b.mem i = ⟨0, 0⟩
  left : Left h b.nextPage b.helperPpn b.helperLength

theorem put_mem {s : Segment} (hs : s.Paged) :
    (b.put h s).mem = h.write b.mem b.ptr s.desc := by
  obtain ⟨k, hk⟩ := hs.addr_dvd
  obtain ⟨m, hm⟩ := hs.length_dvd
  have hend := hs.end_le
  have haddr := hs.addr_pos
  have hlength := hs.length_pos
  rw [hk] at haddr
  rw [hm] at hlength
  simp only [put, Segment.desc, u32, u64, hk, hm] at hend ⊢
  congr 2 <;> omega

theorem Ready.put (hb : b.Ready h) {s : Segment} (hs : s.Paged) (hpos : 0 < b.inPageCount) :
    (b.put h s).Ready h ∧ h.read (b.put h s).mem b.ptr = s.desc ∧
      ∀ i < b.ptr, h.read (b.put h s).mem i = h.read b.mem i := by
  have hle := hb.nextPage_le
  have hcursor := hb.cursor
  have hcount := hb.inPageCount_le
  rw [put_mem hs]
  refine ⟨⟨hb.lt, hle, ?_, ?_, fun i hi hin => ?_, hb.left⟩, h.read_write_self _ _,
    fun i hi => h.read_write_of_ne _ _ (by omega) (by omega) (by omega)⟩
  · simp only [Build.put]
    omega
  · simp only [Build.put]
    omega
  · have hi' : b.ptr + 1 ≤ i := hi
    rw [put_mem hs, h.read_write_of_ne _ _ (by omega) hin (by omega)]
    exact hb.zero i (by omega) hin

/-- A new run where the last one is used up. -/
theorem Ready.seek (hb : b.Ready h) (hn : b.nextPage < n) :
    (b.seek h).Ready h ∧ 0 < (b.seek h).helperLength := by
  have hpage : 4096 * b.nextPage / 4096 = b.nextPage := by omega
  have hrun := h.run_pos _ hn
  have hppn := h.ppn_lt _ hn
  refine ⟨⟨hb.lt, hb.nextPage_le, hb.cursor, hb.inPageCount_le, hb.zero, ?_⟩, ?_⟩
  · refine ⟨h.run b.nextPage, ?_, h.run_le _ hn, fun j hj => ?_⟩
    · simp only [Build.seek, Helper.getPhysicalSegment, hpage]
    · simp only [Build.seek, Helper.getPhysicalSegment, hpage]
      rw [Nat.mul_div_cancel_left _ (by decide), u32_of_lt hppn]
      exact h.contiguous _ hn j hj
  · simp only [Build.seek, Helper.getPhysicalSegment, hpage]
    omega

/-- The run after its first page. -/
theorem left_tail (hlt : n < 2 ^ 32) {page ppn length : ℕ} (hleft : Left h page ppn length)
    (hpos : 0 < length) :
    page < n ∧ h.ppn page = ppn ∧ Left h (page + 1) (u32 (ppn + 1)) (sub64 length 4096) := by
  obtain ⟨r, hr, hle, hrun⟩ := hleft
  have hfirst : h.ppn page = ppn := hrun 0 (by omega)
  refine ⟨by omega, hfirst, r - 1, ?_, by omega, fun j hj => ?_⟩
  · rw [sub64_of_le (by omega) (by omega)]
    omega
  · have hsecond := hrun 1 (by omega)
    have hbound := h.ppn_lt (page + 1) (by omega)
    rw [u32_of_lt (by omega), Nat.add_assoc, hrun (1 + j) (by omega), Nat.add_assoc]

theorem Ready.link (hb : b.Ready h) (hfull : b.inPageCount = 0) (hpos : 0 < b.helperLength) :
    b.nextPage < n ∧ (b.link h).Ready h ∧
      h.read (b.link h).mem b.ptr = ⟨h.ppn b.nextPage, 0⟩ ∧
      ∀ i < b.ptr, h.read (b.link h).mem i = h.read b.mem i := by
  have hcursor := hb.cursor
  obtain ⟨hn, hppn, hleft⟩ := left_tail hb.lt hb.left hpos
  refine ⟨hn, ⟨hb.lt, hn, ?_, le_rfl, fun i hi hin => ?_, hleft⟩, ?_, fun i hi => ?_⟩
  · simp only [Build.link, dpp]
    omega
  · have hi' : 512 * b.nextPage ≤ i := hi
    rw [Build.link, h.read_write_of_ne _ _ (by omega) hin (by omega)]
    exact hb.zero i (by omega) hin
  · rw [Build.link, h.read_write_self, hb.zero b.ptr le_rfl (by omega), hppn]
  · exact h.read_write_of_ne _ _ (by omega) (by omega) (by omega)

/-- The memory has the descriptors from the cursor on, and what is before it stays. -/
structure Completes (h : Helper n) (b : Build) (mem : Memory) (l : List Desc) : Prop where
  chain : h.Chain mem b.ptr l
  before : ∀ i < b.ptr, h.read mem i = h.read b.mem i

variable {mem : Memory} {l : List Desc} {s : Segment}

theorem Ready.completes_nil (hb : b.Ready h) : b.Completes h b.mem [] := by
  have hle := hb.nextPage_le
  have hcursor := hb.cursor
  exact ⟨Helper.chain_stop (hb.zero _ le_rfl (by omega)), fun _ _ => rfl⟩

theorem Ready.completes_put (hb : b.Ready h) (hs : s.Paged) (hpos : 0 < b.inPageCount)
    (hc : (b.put h s).Completes h mem l) : b.Completes h mem (s.desc :: l) := by
  obtain ⟨-, hitem, hbefore⟩ := hb.put hs hpos
  have hptr : (b.put h s).ptr = b.ptr + 1 := rfl
  have hcursor := hb.cursor
  have hcount := hb.inPageCount_le
  have hslot : b.ptr % 512 + 1 < 512 := by
    unfold dpp at hcount
    omega
  refine ⟨Helper.chain_item _ (Segment.Paged.desc_ne s hs) ?_ hslot hc.chain, fun i hi => ?_⟩
  · rw [hc.before _ (by omega), hitem]
  · rw [hc.before i (by omega), hbefore i hi]

/-- A page that is full goes on behind its link. -/
theorem Ready.completes_link (hb : b.Ready h) (hfull : b.inPageCount = 0)
    (hpos : 0 < b.helperLength) (hc : (b.link h).Completes h mem l) : b.Completes h mem l := by
  obtain ⟨hn, -, hread, hbefore⟩ := hb.link hfull hpos
  have hptr : (b.link h).ptr = 512 * b.nextPage := rfl
  have hcursor := hb.cursor
  refine ⟨Helper.chain_link hn ?_ hc.chain, fun i hi => ?_⟩
  · rw [hc.before _ (by omega), hread]
  · rw [hc.before i (by omega), hbefore i hi]

/-- Filling leaves a chain of the segments from the cursor on, and all that is before it. -/
theorem Ready.fill (hb : b.Ready h) (hp : ∀ s ∈ segs, s.Paged)
    (hroom : segs.length ≤ b.inPageCount + dpp * (n - b.nextPage)) (hpos : 0 < b.inPageCount) :
    b.Completes h (Build.fill h segs b).mem (segs.map Segment.desc) := by
  induction segs generalizing b with
  | nil => exact hb.completes_nil
  | cons s segs ih =>
    have hs := hp s (List.mem_cons_self ..)
    have hp' : ∀ t ∈ segs, t.Paged := fun t ht => hp t (List.mem_cons_of_mem _ ht)
    have hput := (hb.put hs hpos).1
    have hpage : (b.put h s).nextPage = b.nextPage := rfl
    have hin : (b.put h s).inPageCount = b.inPageCount - 1 := rfl
    rw [List.length_cons] at hroom
    -- a page that is full has room for no more, and the next one for `dpp`
    have hlink : ∀ c : Build, c.Ready h → c.inPageCount = 0 → 0 < c.helperLength →
        c.nextPage = b.nextPage → b.inPageCount = 1 →
        c.Completes h (Build.fill h segs (c.link h)).mem (segs.map Segment.desc) := by
      intro c hc hfull hlen hcpage hone
      obtain ⟨hn, hready, -⟩ := hc.link hfull hlen
      refine hc.completes_link hfull hlen (ih hready hp' ?_ (by simp [Build.link, dpp]))
      change segs.length ≤ dpp + dpp * (n - (c.nextPage + 1))
      rw [hcpage] at hn ⊢
      rw [hone, show n - b.nextPage = n - (b.nextPage + 1) + 1 by omega, Nat.mul_add_one] at hroom
      omega
    rw [Build.fill]
    split_ifs with hmore hrun hnext
    · exact hb.completes_put hs hpos (ih hput hp' (by rw [hin, hpage]; omega) (by omega))
    · exact hb.completes_put hs hpos (hlink _ hput (by omega) hrun.1 hpage (by omega))
    · obtain ⟨hseek, hlen⟩ := hput.seek hnext
      have hdone := hlink _ hseek (by simp only [Build.seek]; omega) hlen hpage (by omega)
      exact hb.completes_put hs hpos ⟨hdone.chain, hdone.before⟩
    · have hempty : segs = [] := by
        rw [hpage] at hnext
        rw [show n - b.nextPage = 0 by omega] at hroom
        exact List.length_eq_zero_iff.mp (by omega)
      subst hempty
      exact hb.completes_put hs hpos hput.completes_nil

theorem ready_start (mem : Memory) (hn : 0 < n) (hlt : n < 2 ^ 32) :
    (Build.start h mem).Ready h := by
  have hrun := h.run_pos 0 hn
  have hle := h.run_le 0 hn
  have hppn := h.ppn_lt 0 hn
  have hwhole : Left h 0 (h.ppn 0) (4096 * h.run 0) :=
    ⟨h.run 0, rfl, by omega, fun j hj => h.contiguous 0 hn j hj⟩
  obtain ⟨-, -, hleft⟩ := left_tail hlt hwhole (by omega)
  refine ⟨hlt, hn, rfl, le_rfl, fun i _ hi => h.read_bzero mem hi, ?_⟩
  simp only [Build.start, Helper.getPhysicalSegment]
  rwa [Nat.zero_div, Nat.mul_div_cancel_left _ (by decide), u32_of_lt hppn]

end Build

variable {e : Env} {mem : Memory} {gmrId : ℕ} {md : MemoryDescriptor} {r : Defined}

theorem createGMR_ok (hr : createGMR e mem gmrId (some md) = .ok r) :
    0 < md.ranges.length ∧ helperPages md.ranges.length < 2 ^ 32 ∧
      ∃ h : Helper (helperPages md.ranges.length),
        r.mem = (Build.fill h md.ranges (.start h mem)).mem ∧
          r.ppn = u32 ((h.getPhysicalSegment 0).addr / 4096) := by
  unfold createGMR at hr
  dsimp only at hr
  have hmaxLt := e.maxGMRDescriptorLength.isLt
  split_ifs at hr with _ _ _ hempty hmax
  · split at hr <;> cases hr
  · split at hr
    · cases hr
    next h _ =>
      cases hr
      exact ⟨by omega, by omega, h, rfl, rfl⟩

theorem createGMR_succeeds (hfb : e.framebuffer = true) (hcap : e.capGMR = true)
    (hprepare : e.prepare = .success) (hp : ∀ s ∈ md.segments, s.Paged) (hne : md.segments ≠ [])
    (hmax : md.segments.length + helperPages md.segments.length ≤ e.maxGMRDescriptorLength)
    (hhelper : (e.helper (helperPages md.segments.length)).isSome) :
    ∃ r, createGMR e mem gmrId (some md) = .ok r := by
  have heq := md.ranges_eq hp
  have haddr : (md.ranges.any fun s => s.addr / 2 ^ 44 ≠ 0) = false := by
    simp only [List.any_eq_false, decide_eq_true_eq, not_not, heq]
    intro s hs
    have hend := (hp s hs).end_le
    have hlength := (hp s hs).length_pos
    omega
  have hlen : md.ranges.length ≠ 0 := by
    rw [heq]
    exact fun h0 => hne (List.length_eq_zero_iff.mp h0)
  rw [← heq] at hmax hhelper
  obtain ⟨h, hh⟩ := Option.isSome_iff_exists.mp hhelper
  simp only [createGMR, hfb, hcap, haddr, hlen, hprepare, hh, Nat.not_lt.mpr hmax]
  exact ⟨_, rfl⟩

/-- When `createGMR` succeeds, the device reads the segments of the memory descriptor, in
order, wherever the helper's pages are. -/
theorem readTable_createGMR (e : Env) (mem : Memory) (gmrId : ℕ) (md : MemoryDescriptor)
    (hp : ∀ s ∈ md.segments, s.Paged) (r : Defined)
    (hr : createGMR e mem gmrId (some md) = .ok r) :
    ∃ n, ∀ fuel, n ≤ fuel → readTable r.mem fuel r.ppn = some (md.segments.map Segment.desc) := by
  obtain ⟨hsome, hlt, h, hmem, hppn⟩ := createGMR_ok hr
  have heq := md.ranges_eq hp
  rw [← heq] at hp ⊢
  have hpages : 0 < helperPages md.ranges.length := by
    unfold helperPages dpp
    omega
  have hready : (Build.start h mem).Ready h := Build.ready_start mem hpages hlt
  have hroom : md.ranges.length ≤ (Build.start h mem).inPageCount +
      dpp * (helperPages md.ranges.length - (Build.start h mem).nextPage) := by
    simp only [Build.start, helperPages, dpp]
    omega
  have hbase : u32 ((h.getPhysicalSegment 0).addr / 4096) = h.ppn 0 := by
    simp only [Helper.getPhysicalSegment]
    rw [Nat.zero_div, Nat.mul_div_cancel_left _ (by decide), u32_of_lt (h.ppn_lt 0 hpages)]
  rw [hmem, hppn, hbase]
  have hcount : 0 < (Build.start h mem).inPageCount := by simp [Build.start, dpp]
  have hplace : h.place (Build.start h mem).ptr = (h.ppn 0, 0) := by
    simp [Build.start, Helper.place]
  obtain ⟨n, hn⟩ := (hready.fill hp hroom hcount).chain.walk_eq
  rw [hplace] at hn
  exact ⟨n, hn⟩

/-! ### A table of two pages -/

/-- Pages 9 and 4, in this order; each is a run of its own. -/
def apart : Helper 2 where
  ppn k := if k = 0 then 9 else 4
  run _ := 1
  ppn_pos := by decide
  ppn_lt := by decide
  ppn_inj := by decide
  run_pos := by decide
  run_le := by decide
  contiguous := by decide

def roomy : Env where
  framebuffer := true
  capGMR := true
  maxGMRDescriptorLength := 1000
  helper n := if hn : n = 2 then some (hn ▸ apart) else none
  prepare := .success

/-- One page, 512 times. -/
def scattered : MemoryDescriptor where
  segments := List.replicate 512 ⟨4096, 4096⟩
  length_lt := by decide +kernel

theorem scattered_paged : ∀ s ∈ scattered.segments, s.Paged := by
  intro s hs
  rw [List.eq_of_mem_replicate hs]
  exact ⟨by decide, by decide, by decide, by decide, by decide⟩

/-- The 512th segment is read behind the link. -/
theorem readTable_scattered :
    ∃ r, createGMR roomy (fun _ _ => ⟨7, 7⟩) 0 (some scattered) = .ok r ∧
      ∃ n, ∀ fuel, n ≤ fuel → readTable r.mem fuel r.ppn = some (List.replicate 512 ⟨1, 1⟩) := by
  have hlen : scattered.segments.length = 512 := List.length_replicate
  obtain ⟨r, hr⟩ : ∃ r, createGMR roomy (fun _ _ => ⟨7, 7⟩) 0 (some scattered) = .ok r :=
    createGMR_succeeds rfl rfl rfl scattered_paged (List.cons_ne_nil _ _) (by rw [hlen]; decide)
      (by rw [hlen]; rfl)
  refine ⟨r, hr, ?_⟩
  have hread := readTable_createGMR roomy _ 0 scattered scattered_paged r hr
  rwa [scattered, List.map_replicate] at hread

end Cesvga2.Gmr
