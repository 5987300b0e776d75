import Cesvga2.GL.Stream
import Cesvga2.GL.Outline

/-! Which command buffers keep the stream processor inside. The cursor, the downstream
offset and the downstream count move together, so a submission ends at the cursor;
the exception is the first token, whose count starts at `-1`. The buffer is safe
exactly when every token that the loop comes to fits. -/

namespace Cesvga2.GL

variable {lion : Bool} {e : Env} {s : Info} {l : List Access} {a : Access}

namespace Info

def outline (lion : Bool) (s : Info) : Outline :=
  (s.token lion).elim ⟨1, false, false⟩ fun t => t.outline s.word

theorem bounded (lion : Bool) (e : Env) (s : Info) :
    Bounded (s.outline lion) (s.accesses lion e) := by
  unfold outline accesses
  cases s.token lion with
  | none => exact ⟨by simp, by simp, by simp⟩
  | some t => exact t.bounded

theorem attains (lion : Bool) (s : Info) :
    Attains 1 (s.outline lion) (s.accesses lion (.generous (s.word 1))) := by
  unfold outline accesses
  cases s.token lion with
  | none => exact ⟨.inl rfl, by simp, by simp⟩
  | some t => exact t.attains

/-- The token at the cursor fits: its handler stays in the buffer, and so does the
token itself unless the handler is bound to fail. The first token is not empty and
cannot submit. -/
structure Fits (lion : Bool) (s : Info) : Prop where
  span : s.p + (s.outline lion).span ≤ words
  first : s.p = downstream - 1 → (s.outline lion).submits = false
  length : (s.outline lion).fails = true ∨
    s.p + s.length ≤ words ∧ (s.p = downstream - 1 → 0 < s.length)

instance (lion : Bool) (s : Info) : Decidable (s.Fits lion) :=
  decidable_of_iff (s.p + (s.outline lion).span ≤ words ∧
      (s.p = downstream - 1 → (s.outline lion).submits = false) ∧
      ((s.outline lion).fails = true ∨
        s.p + s.length ≤ words ∧ (s.p = downstream - 1 → 0 < s.length)))
    ⟨fun h => ⟨h.1, h.2.1, h.2.2⟩, fun h => ⟨h.span, h.first, h.length⟩⟩

/-! ### A handler's accesses -/

theorem submitMidbuffer_frame :
    s.submitMidbuffer.p = s.p ∧ s.submitMidbuffer.touched = s.touched ∧
    s.submitMidbuffer.streamError = s.streamError ∧ s.submitMidbuffer.running = s.running := by
  unfold submitMidbuffer
  split_ifs <;> exact ⟨rfl, rfl, rfl, rfl⟩

@[simp]
theorem apply_p : (s.apply a).p = s.p := by
  cases a with
  | submitMidbuffer => exact submitMidbuffer_frame.1
  | _ => rfl

theorem foldl_p : (l.foldl apply s).p = s.p := by
  induction l generalizing s with
  | nil => rfl
  | cons a l ih => rw [List.foldl_cons, ih, apply_p]

theorem mem_apply_touched {i : ℕ} :
    i ∈ (s.apply a).touched ↔ i ∈ s.touched ∨ ∃ k, a.Touches k ∧ i = s.p + k := by
  cases a with
  | read k => simp [apply, touch, or_comm]
  | write k v => simp [apply, touch, or_comm]
  | submitMidbuffer => simp [apply, submitMidbuffer_frame.2.1]
  | fail r => simp [apply]
  | flags v => simp [apply]

theorem mem_foldl_touched {i : ℕ} : i ∈ (l.foldl apply s).touched ↔
    i ∈ s.touched ∨ ∃ a ∈ l, ∃ k, a.Touches k ∧ i = s.p + k := by
  induction l generalizing s with
  | nil => simp
  | cons a l ih =>
    rw [List.foldl_cons, ih, mem_apply_touched, apply_p, or_assoc]
    simp

theorem apply_streamError :
    (s.apply a).streamError = true ↔ s.streamError = true ∨ ∃ r, a = .fail r := by
  cases a with
  | submitMidbuffer => simp [apply, submitMidbuffer_frame.2.2.1]
  | _ => simp [apply, touch]

theorem foldl_streamError : (l.foldl apply s).streamError = true ↔
    s.streamError = true ∨ ∃ r, .fail r ∈ l := by
  induction l generalizing s with
  | nil => simp
  | cons a l ih =>
    rw [List.foldl_cons, ih, apply_streamError, or_assoc]
    simp only [List.mem_cons, exists_or, eq_comm]

/-- Without a submission the downstream window stays. -/
theorem foldl_quiet (hl : .submitMidbuffer ∉ l) : (l.foldl apply s).dsoBytes = s.dsoBytes ∧
    (l.foldl apply s).ranges = s.ranges ∧
    ((∀ r, .fail r ∉ l) → (l.foldl apply s).dsCountDwords = s.dsCountDwords) := by
  induction l generalizing s with
  | nil => exact ⟨rfl, rfl, fun _ => rfl⟩
  | cons a l ih =>
    simp only [List.mem_cons, not_or] at hl
    obtain ⟨hdso, hranges, hds⟩ := ih (s := s.apply a) hl.2
    rw [List.foldl_cons, hdso, hranges]
    cases a with
    | submitMidbuffer => exact absurd rfl hl.1
    | fail r => exact ⟨rfl, rfl, fun hf => absurd List.mem_cons_self (hf r)⟩
    | read k => exact ⟨rfl, rfl, fun hf => hds fun r hr => hf r (List.mem_cons_of_mem _ hr)⟩
    | write k v => exact ⟨rfl, rfl, fun hf => hds fun r hr => hf r (List.mem_cons_of_mem _ hr)⟩
    | flags v => exact ⟨rfl, rfl, fun hf => hds fun r hr => hf r (List.mem_cons_of_mem _ hr)⟩

/-- The downstream window ends at the cursor. -/
structure Cursor (s : Info) : Prop where
  dvd : 4 ∣ s.dsoBytes
  nonneg : 0 ≤ s.dsCountDwords
  le : (downstream + s.dsoBytes / 4 : ℤ) + s.dsCountDwords ≤ s.p
  eq : s.streamError = false → (downstream + s.dsoBytes / 4 : ℤ) + s.dsCountDwords = s.p

theorem wc_of_nonneg (h0 : 0 ≤ s.dsCountDwords) (hlt : s.dsCountDwords < 2 ^ 32) :
    (s.wc : ℤ) = s.dsCountDwords := by
  rw [wc, Int.emod_eq_of_lt h0 hlt, Int.toNat_of_nonneg h0]

theorem words_eq : words = 16384 := rfl

theorem downstream_eq : downstream = 8 := rfl

/-- A submission under the cursor ends before it. -/
theorem Cursor.submitMidbuffer (h : s.Cursor) (hp : s.p ≤ words) :
    s.submitMidbuffer.Cursor ∧
      ∀ r ∈ s.submitMidbuffer.ranges, r ∈ s.ranges ∨ r.1 + r.2 ≤ s.p := by
  obtain ⟨d, hd⟩ := h.dvd
  have h0 := h.nonneg
  have hle := h.le
  rw [words_eq] at hp
  rw [downstream_eq, hd] at hle
  have hwc := wc_of_nonneg h0 (by omega)
  unfold Info.submitMidbuffer
  by_cases hz : s.wc = 0
  · rw [if_pos hz]
    exact ⟨h, fun r hr => .inl hr⟩
  rw [if_neg hz]
  constructor
  · have hdso : u32 (s.dsoBytes + u32 (s.wc * 4)) = 4 * (d + s.wc) := by
      rw [u32_of_lt (n := s.wc * 4) (by omega), u32_of_lt (by omega)]
      omega
    constructor
    · exact hdso ▸ Nat.dvd_mul_right 4 _
    · exact le_rfl
    · show ((downstream : ℤ) + (u32 (s.dsoBytes + u32 (s.wc * 4)) : ℕ) / 4) + 0 ≤ s.p
      rw [hdso, downstream_eq]
      omega
    · intro he
      have heq := h.eq he
      show ((downstream : ℤ) + (u32 (s.dsoBytes + u32 (s.wc * 4)) : ℕ) / 4) + 0 = s.p
      rw [downstream_eq, hd] at heq
      rw [hdso, downstream_eq]
      omega
  · intro r hr
    simp only at hr
    split_ifs at hr with h2
    · rcases List.mem_cons.mp hr with rfl | hr
      · right
        rw [downstream_eq, hd]
        omega
      · exact .inl hr
    · exact .inl hr

theorem Cursor.apply (h : s.Cursor) (hp : s.p ≤ words) :
    (s.apply a).Cursor ∧ ∀ r ∈ (s.apply a).ranges, r ∈ s.ranges ∨ r.1 + r.2 ≤ s.p := by
  cases a with
  | submitMidbuffer => exact h.submitMidbuffer hp
  | fail reset =>
    refine ⟨?_, fun r hr => .inl hr⟩
    have hle := h.le
    have h0 := h.nonneg
    cases reset with
    | false => exact ⟨h.dvd, h.nonneg, h.le, fun he => absurd he (by simp [Info.apply])⟩
    | true =>
      refine ⟨h.dvd, le_rfl, ?_, fun he => absurd he (by simp [Info.apply])⟩
      show ((downstream : ℤ) + s.dsoBytes / 4) + 0 ≤ s.p
      omega
  | _ => exact ⟨⟨h.dvd, h.nonneg, h.le, h.eq⟩, fun r hr => .inl hr⟩

theorem Cursor.foldl (h : s.Cursor) (hp : s.p ≤ words) : (l.foldl Info.apply s).Cursor ∧
    ∀ r ∈ (l.foldl Info.apply s).ranges, r ∈ s.ranges ∨ r.1 + r.2 ≤ s.p := by
  induction l generalizing s with
  | nil => exact ⟨h, fun r hr => .inl hr⟩
  | cons a l ih =>
    obtain ⟨hc, hr⟩ := h.apply (a := a) hp
    obtain ⟨hc', hr'⟩ := ih hc (by rwa [apply_p])
    refine ⟨hc', fun r hm => ?_⟩
    rcases hr' r hm with hm | hm
    · exact hr r hm
    · right
      rwa [apply_p] at hm

/-! ### Passes of the loop -/

/-- At the first token, or at a later one with the downstream window up to the cursor. -/
def Place (s : Info) : Prop :=
  s.p = downstream - 1 ∧ s.dsCountDwords = -1 ∧ s.dsoBytes = 0 ∨ downstream ≤ s.p ∧ s.Cursor

structure Good (s : Info) : Prop where
  touched : ∀ i ∈ s.touched, i < words
  ranges : ∀ r ∈ s.ranges, r.1 + r.2 ≤ words
  running : s.running = true → s.streamError = false ∧ s.p < words ∧ s.Place
  ended : s.running = false → s.streamError = false → s.wc ≠ 0 →
    downstream + s.dsoBytes / 4 + s.wc ≤ words

theorem Good.inside (h : s.Good) : s.Inside := by
  refine ⟨h.touched, ?_⟩
  unfold submitted
  split_ifs with hs
  · exact List.forall_mem_cons.mpr ⟨h.ended hs.1 hs.2.1 hs.2.2, h.ranges⟩
  · exact h.ranges

theorem good_start (b : ℕ → ℕ) : (start b).Good := by
  refine ⟨by simp [start], by simp [start], ?_, by simp [start]⟩
  exact fun _ => ⟨rfl, show downstream - 1 < words by decide, .inl ⟨rfl, rfl, rfl⟩⟩

/-- The handler of a token, unless it is the first and submits. -/
theorem Place.handle (h : s.Place) (hp : s.p ≤ words)
    (hq : s.p = downstream - 1 → .submitMidbuffer ∉ s.accesses lion e) :
    (∀ r ∈ (s.handle lion e).ranges, r ∈ s.ranges ∨ r.1 + r.2 ≤ words) ∧
      ((∀ r, .fail r ∉ s.accesses lion e) → (s.handle lion e).Place) := by
  unfold Info.handle
  rcases h with ⟨h7, hds, hdso⟩ | ⟨h8, hc⟩
  · obtain ⟨hdso', hranges, hds'⟩ := foldl_quiet (s := s.touch 0) (hq h7)
    rw [hranges]
    refine ⟨fun r hr => .inl hr, fun hf => .inl ⟨foldl_p.trans h7, (hds' hf).trans hds, ?_⟩⟩
    exact hdso'.trans hdso
  · have hc₀ : (s.touch 0).Cursor := ⟨hc.dvd, hc.nonneg, hc.le, hc.eq⟩
    obtain ⟨hc', hranges⟩ := hc₀.foldl (l := s.accesses lion e) hp
    refine ⟨fun r hr => (hranges r hr).imp_right fun h => h.trans hp, fun _ => .inr ⟨?_, hc'⟩⟩
    rw [foldl_p]
    exact h8

@[simp]
theorem handle_p : (s.handle lion e).p = s.p := foldl_p

theorem mem_handle_touched {i : ℕ} : i ∈ (s.handle lion e).touched ↔
    i = s.p ∨ i ∈ s.touched ∨ ∃ a ∈ s.accesses lion e, ∃ k, a.Touches k ∧ i = s.p + k := by
  unfold handle
  rw [mem_foldl_touched, ← or_assoc]
  exact or_congr_left List.mem_cons

theorem handle_streamError (he : s.streamError = false) :
    (s.handle lion e).streamError = false ↔ ∀ r, .fail r ∉ s.accesses lion e := by
  have h := foldl_streamError (s := s.touch 0) (l := s.accesses lion e)
  rw [← Bool.not_eq_true, ← not_exists]
  refine not_congr (h.trans ⟨?_, .inr⟩)
  rintro (h | h)
  · exact absurd (he.symm.trans h) (by simp)
  · exact h

/-- Going on by `n` dwords; an empty first token would leave the count at `-1`. -/
theorem Place.advance {n : ℕ} (h : s.Place) (he : s.streamError = false)
    (h7 : s.p = downstream - 1 → 0 < n) : (s.advance n).Cursor := by
  have hp : (s.advance n).p = s.p + n := rfl
  have hds : (s.advance n).dsCountDwords = s.dsCountDwords + n := rfl
  have hdso : (s.advance n).dsoBytes = s.dsoBytes := rfl
  rcases h with ⟨hp7, hds7, hdso7⟩ | ⟨-, hc⟩
  · have hn := h7 hp7
    rw [downstream_eq] at hp7
    constructor
    · rw [hdso, hdso7]
      exact dvd_zero 4
    · omega
    · rw [downstream_eq, hdso, hdso7]
      omega
    · intro
      rw [downstream_eq, hdso, hdso7]
      omega
  · have heq := hc.eq he
    have h0 := hc.nonneg
    constructor
    · rw [hdso]
      exact hc.dvd
    · omega
    · rw [hdso]
      omega
    · intro
      rw [hdso]
      omega

/-- The type-0 caller submits up to the cursor. -/
theorem Cursor.wc_le (h : s.Cursor) (hp : s.p ≤ words) :
    downstream + s.dsoBytes / 4 + s.wc ≤ words := by
  have hle := h.le
  have h0 := h.nonneg
  rw [words_eq] at hp ⊢
  rw [downstream_eq] at hle ⊢
  have hwc := wc_of_nonneg h0 (by omega)
  omega

/-- A pass over a token that fits. -/
theorem Good.step (h : s.Good) (hr : s.running = true) (hf : s.Fits lion) :
    (s.step lion e).Good := by
  obtain ⟨he, hp, hplace⟩ := h.running hr
  have hb := s.bounded lion e
  have hspan := hf.span
  obtain ⟨hranges, hplace'⟩ := hplace.handle (e := e) hp.le
    (fun h7 => hb.quiet (hf.first h7))
  have hranges' : ∀ r ∈ (s.handle lion e).ranges, r.1 + r.2 ≤ words :=
    fun r hr => (hranges r hr).elim (h.ranges r) id
  have htouched : ∀ i ∈ (s.handle lion e).touched, i < words := by
    intro i hi
    rcases mem_handle_touched.mp hi with rfl | hi | ⟨a, ha, k, hk, rfl⟩
    · exact hp
    · exact h.touched i hi
    · have := (hb.span a ha).lt hk
      omega
  unfold Info.step
  split_ifs with herr
  · exact ⟨htouched, hranges', by simp, by simp [herr]⟩
  rw [Bool.not_eq_true] at herr
  have hok := (handle_streamError he).mp herr
  have hlen := hf.length.resolve_left fun hfail => by
    obtain ⟨r, hr⟩ := hb.fails hfail
    exact hok r hr
  have hc := (hplace' hok).advance (n := s.length) herr (by rw [handle_p]; exact hlen.2)
  have hp' : ((s.handle lion e).advance s.length).p = s.p + s.length :=
    congrArg (· + s.length) handle_p
  refine ⟨htouched, hranges', ?_, fun _ _ _ => hc.wc_le (by omega)⟩
  intro hrun
  obtain ⟨hlt, hne⟩ := of_decide_eq_true hrun
  refine ⟨herr, hlt, .inr ⟨?_, hc⟩⟩
  rw [hp', downstream_eq]
  rcases hplace with ⟨h7, -⟩ | ⟨h8, -⟩
  · rw [h7, downstream_eq]
    omega
  · rw [downstream_eq] at h8
    omega

theorem foldl_ranges {r : ℕ × ℕ} (hr : r ∈ s.ranges) : r ∈ (l.foldl apply s).ranges := by
  induction l generalizing s with
  | nil => exact hr
  | cons a l ih =>
    apply ih
    cases a with
    | submitMidbuffer =>
      simp only [apply, submitMidbuffer]
      split_ifs
      · exact hr
      · exact List.mem_cons_of_mem _ hr
      · exact hr
    | _ => exact hr

theorem step_touched : (s.step lion e).touched = (s.handle lion e).touched := by
  unfold step
  split_ifs <;> rfl

theorem mem_submitted {r : ℕ × ℕ} (hr : r ∈ (s.handle lion e).ranges) :
    r ∈ (s.step lion e).submitted := by
  have hstep : r ∈ (s.step lion e).ranges := by
    unfold step
    split_ifs <;> exact hr
  unfold submitted
  split_ifs
  · exact List.mem_cons_of_mem _ hstep
  · exact hstep

/-- Read as unsigned, the count of the first token is all of a `uint32_t`. -/
theorem wc_first (h : s.dsCountDwords = -1) : s.wc = 2 ^ 32 - 1 := by
  rw [wc, h]
  rfl

/-- A first token that submits hands out nearly all of a 32-bit range. -/
theorem first_submits (hds : s.dsCountDwords = -1) (hdso : s.dsoBytes = 0)
    (ha : Attains 1 (s.outline lion) (s.accesses lion e))
    (hs : (s.outline lion).submits = true) :
    (downstream, 2 ^ 32 - 3) ∈ (s.handle lion e).ranges := by
  obtain ⟨l₁, l₂, hl, htouch⟩ := ha.submits hs
  have hquiet : .submitMidbuffer ∉ l₁ := fun hm => by simpa using htouch _ hm
  obtain ⟨hdso', -, hds'⟩ := foldl_quiet (s := s.touch 0) hquiet
  have hwc := wc_first ((hds' fun r hm => by simpa using htouch _ hm).trans hds)
  rw [handle, hl, List.foldl_append, List.foldl_cons]
  apply foldl_ranges
  simp only [apply, submitMidbuffer, hwc, hdso'.trans hdso]
  simp

/-- If the loop goes on or ends inside, the token ended inside. -/
theorem Place.length_of_inside {n : ℕ} (h : s.Place) (he : s.streamError = false)
    (hp : s.p < words) (hn : n < 2 ^ 24) (hi : (s.advance n).Inside) :
    s.p + n ≤ words ∧ (s.p = downstream - 1 → 0 < n) := by
  have hlast : (s.advance n).running = false → (s.advance n).wc ≠ 0 →
      downstream + s.dsoBytes / 4 + (s.advance n).wc ≤ words := by
    intro hr hwc
    have hm : (downstream + s.dsoBytes / 4, (s.advance n).wc) ∈ (s.advance n).submitted := by
      rw [submitted, if_pos ⟨hr, he, hwc⟩]
      exact List.mem_cons_self
    exact hi.2 _ hm
  have hfirst : s.p = downstream - 1 → 0 < n := by
    intro h7
    rw [Nat.pos_iff_ne_zero]
    rintro rfl
    rcases h with ⟨-, hds, -⟩ | ⟨h8, -⟩
    · have hwc : (s.advance 0).wc = 2 ^ 32 - 1 := wc_first (by simpa [Info.advance] using hds)
      have := hlast (by simp [Info.advance]) (by omega)
      rw [hwc, words_eq] at this
      omega
    · rw [downstream_eq] at h7 h8
      omega
  refine ⟨?_, hfirst⟩
  by_contra hlt
  have hc := h.advance he hfirst
  have heq : (downstream + s.dsoBytes / 4 : ℤ) + (s.advance n).dsCountDwords = (s.p + n : ℕ) :=
    hc.eq he
  have hwc := wc_of_nonneg hc.nonneg (by rw [words_eq] at hp; omega)
  have hstart : downstream + s.dsoBytes / 4 ≤ words := by
    rcases h with ⟨-, -, hdso⟩ | ⟨-, hc⟩
    · rw [hdso]
      decide
    · have hle := hc.le
      have h0 := hc.nonneg
      omega
  have := hlast (by simp [Info.advance]; omega) (by omega)
  omega

/-- If no environment takes the pass outside, the token fits. -/
theorem Good.fits (h : s.Good) (hr : s.running = true) (hi : ∀ e, (s.step lion e).Inside) :
    s.Fits lion := by
  obtain ⟨he, hp, hplace⟩ := h.running hr
  have hb := s.bounded lion (.generous (s.word 1))
  have ha := s.attains lion
  have hin := hi (.generous (s.word 1))
  generalize Env.generous (s.word 1) = e at *
  have hspan : s.p + (s.outline lion).span ≤ words := by
    rcases ha.span with h1 | ⟨a, hm, ht⟩
    · omega
    · have := hin.1 (s.p + ((s.outline lion).span - 1))
        (step_touched ▸ mem_handle_touched.mpr (.inr (.inr ⟨a, hm, _, ht, rfl⟩)))
      omega
  have hfirst : s.p = downstream - 1 → (s.outline lion).submits = false := by
    intro h7
    rcases hplace with ⟨-, hds, hdso⟩ | ⟨h8, -⟩
    · rw [← Bool.not_eq_true]
      intro hs
      exact absurd (hin.2 _ (mem_submitted (first_submits hds hdso ha hs))) (by decide)
    · rw [downstream_eq] at h7 h8
      omega
  refine ⟨hspan, hfirst, ?_⟩
  cases hfail : (s.outline lion).fails with
  | true => exact .inl rfl
  | false =>
    right
    have hok := ha.ok hfail
    have herr := (handle_streamError he).mpr hok
    have hplace' := (hplace.handle hp.le fun h7 => hb.quiet (hfirst h7)).2 hok
    have hstep : s.step lion e = (s.handle lion e).advance s.length := by
      rw [Info.step, if_neg (by simp [herr])]
    rw [hstep] at hin
    have hlen := hplace'.length_of_inside herr (handle_p.trans_lt hp) (Nat.mod_lt _ (by norm_num))
      hin
    rwa [handle_p] at hlen

end Info

/-! ### Runs -/

variable {env : ℕ → Env} {b : ℕ → ℕ} {n : ℕ}

/-- A pass after which the loop goes on has moved the cursor. -/
theorem Info.step_running (h : (s.step lion e).running = true) :
    s.p < (s.step lion e).p ∧ (s.step lion e).p < words := by
  unfold Info.step at h ⊢
  split_ifs at h ⊢
  obtain ⟨hlt, hne⟩ := of_decide_eq_true h
  have hp : ((s.handle lion e).advance s.length).p = s.p + s.length :=
    congrArg (· + s.length) handle_p
  rw [handle_p] at hlt
  omega

/-- The loop comes to an end: every pass but the last moves the cursor on. -/
theorem processCommandBuffer_cursor (h : (processCommandBuffer lion env b n).running = true) :
    downstream - 1 + n ≤ (processCommandBuffer lion env b n).p ∧
      (processCommandBuffer lion env b n).p < words := by
  induction n with
  | zero => exact ⟨le_rfl, show downstream - 1 < words by decide⟩
  | succ n ih =>
    unfold processCommandBuffer at h ih ⊢
    cases hr : Info.running (Oracle.run (Info.step lion) Info.running (.start b) env n) with
    | true =>
      rw [Oracle.run_succ hr] at h ⊢
      have hstep := Info.step_running h
      have hle := (ih hr).1
      omega
    | false =>
      rw [Oracle.run_stop hr, hr] at h
      exact absurd h (by simp)

theorem processCommandBuffer_ends :
    (processCommandBuffer lion env b words).running = false := by
  rw [← Bool.not_eq_true]
  intro h
  have := processCommandBuffer_cursor h
  omega

/-- Whatever the textures and their records hold, a command buffer keeps every access
and every submitted range inside exactly when every token that the loop comes to
fits. -/
theorem inside_iff_fits (lion : Bool) (b : ℕ → ℕ) :
    (∀ env n, (processCommandBuffer lion env b n).Inside) ↔
      ∀ env n, (processCommandBuffer lion env b n).running = true →
        (processCommandBuffer lion env b n).Fits lion := by
  apply Oracle.safe_iff_fits (Info.good_start b)
  · exact fun s hs => hs.inside
  · exact fun s e hs hr hf => hs.step hr hf
  · exact fun s hs hr hi => hs.fits hr hi

/-- Dword 7 is the first token, at `downstream[-1]`. A buffer of zeros is one empty
token, and the type-0 caller submits `2 ^ 32 - 1` dwords; a `DrawBuffer` token in the
last dword rewrites ten dwords past the buffer. -/
theorem outside_zero_and_last :
    ¬ (processCommandBuffer false (fun _ => .generous 0) (fun _ => 0) 1).Inside ∧
    words + 9 ∈ (processCommandBuffer false (fun _ => .generous 0)
      (fun i => if i = 7 then words - 8 else 54 <<< 24 ||| 1) 2).touched := by
  decide +kernel

/-- The buffer as the driver hands it to the client: `Start` and `End`. -/
def freshBuffer (i : ℕ) : ℕ := if i = 7 then 1 else if i = 8 then 1 <<< 24 else 0

theorem step_of_no_access (hs : s.accesses lion e = []) (he : s.streamError = false) :
    s.step lion e = (s.touch 0).advance s.length := by
  rw [Info.step, Info.handle, hs, List.foldl_nil]
  exact if_neg (by rw [Info.touch, he]; simp)

theorem inside_freshBuffer : ∀ env n, (processCommandBuffer false env freshBuffer n).Inside := by
  refine (inside_iff_fits false freshBuffer).mpr fun env n => ?_
  have h₁ : processCommandBuffer false env freshBuffer 1 =
      ((Info.start freshBuffer).touch 0).advance 1 := by
    have ha : (Info.start freshBuffer).accesses false (env 0) = [] := by
      rw [Info.accesses, show (Info.start freshBuffer).token false = some .start by decide]
      rfl
    exact step_of_no_access ha rfl
  have h₂ : ∀ n, (processCommandBuffer false env freshBuffer (n + 2)).running = false := by
    intro n
    induction n with
    | zero =>
      have ha : (((Info.start freshBuffer).touch 0).advance 1).accesses false (env 1) = [] := by
        rw [Info.accesses, show (((Info.start freshBuffer).touch 0).advance 1).token false =
          some .endToken by decide]
        rfl
      rw [processCommandBuffer] at h₁ ⊢
      rw [Oracle.run_succ (h₁ ▸ (by decide)), h₁, step_of_no_access ha rfl]
      decide
    | succ n ih => rwa [processCommandBuffer, Oracle.run_stop ih]
  match n with
  | 0 => exact fun _ => show (Info.start freshBuffer).Fits false by decide
  | 1 => exact fun _ => h₁ ▸ (by decide)
  | n + 2 => exact fun h => absurd (h₂ n) (by simp [h])

end Cesvga2.GL
