import Cesvga2.Cuts.Segments
import Cesvga2.GL.Rewrite

/-! How the submissions of a command buffer lie over its tokens. Each mid-buffer submission
ends a segment of whole tokens, and leaves out the last two dwords of it. -/

namespace Cesvga2.GL

open Cesvga2.Cuts (segments Increasing clip)

/-! ### The tokens of a stream -/

/-- Where the tokens of the buffer start. -/
def tokenAt (b : ℕ → ℕ) : ℕ → ℕ
  | 0 => downstream - 1
  | n + 1 => tokenAt b n + b (tokenAt b n) % 2 ^ 24

/-- The accesses of the handler of the token at dword `k`. -/
def accessesAt (lion : Bool) (e : Env) (b : ℕ → ℕ) (k : ℕ) : List Access :=
  (dispatch lion (b k)).elim [] fun t => t.accesses e fun j => b (k + j)

/-- The first token is `Start`, of one dword; every token ends inside the buffer and is as
long as what its handler rewrites. -/
structure WellFormed (lion : Bool) (b : ℕ → ℕ) : Prop where
  start : b (downstream - 1) = 1
  inside : ∀ n, tokenAt b n < words → tokenAt b (n + 1) ≤ words
  rewrites : ∀ n, tokenAt b n < words → ∀ e k v, .write k v ∈ accessesAt lion e b (tokenAt b n) →
    k < b (tokenAt b n) % 2 ^ 24

variable {lion : Bool} {b : ℕ → ℕ} {e : Env} {l : List Access} {s : Info} {cuts : List ℕ}

theorem tokenAt_mono : Monotone (tokenAt b) :=
  monotone_nat_of_le_succ fun _ => Nat.le_add_right _ _

theorem WellFormed.tokenAt_one (h : WellFormed lion b) : tokenAt b 1 = downstream := by
  rw [tokenAt, tokenAt, h.start]
  rfl

/-- A token as long as its outline. -/
theorem rewrites_of_outline {k j v : ℕ}
    (h : ((dispatch lion (b k)).elim 0 fun t => (t.outline fun j => b (k + j)).span) ≤
      b k % 2 ^ 24) (hw : .write j v ∈ accessesAt lion e b k) : j < b k % 2 ^ 24 := by
  unfold accessesAt at hw
  cases hd : dispatch lion (b k) with
  | none =>
    rw [hd] at hw
    cases hw
  | some t =>
    rw [hd, Option.elim_some] at hw h
    exact (t.bounded.span _ hw).trans_le h

/-- A range between two tokens holds a token as a whole or not at all. -/
theorem whole_of_tokenAt {x y : ℕ} (hx : ∃ i, x = tokenAt b i) (hy : ∃ j, y = tokenAt b j) (n : ℕ) :
    tokenAt b (n + 1) ≤ x ∨ y ≤ tokenAt b n ∨ x ≤ tokenAt b n ∧ tokenAt b (n + 1) ≤ y := by
  obtain ⟨i, rfl⟩ := hx
  obtain ⟨j, rfl⟩ := hy
  rcases Nat.lt_or_ge n i with hi | hi
  · exact .inl (tokenAt_mono hi)
  rcases Nat.lt_or_ge n j with hj | hj
  · exact .inr (.inr ⟨tokenAt_mono hi, tokenAt_mono hj⟩)
  · exact .inr (.inl (tokenAt_mono hj))

/-! ### Submissions from inside a handler -/

namespace Info

/-- The state has submitted the segments of these cuts, each without its last two dwords. -/
structure Cut (b : ℕ → ℕ) (cuts : List ℕ) (s : Info) : Prop where
  token : ∀ c ∈ cuts, ∃ n, c = tokenAt b n
  increasing : Increasing downstream cuts
  next : downstream + s.dsoBytes / 4 = cuts.headD downstream
  ranges : s.ranges = (segments downstream cuts).filterMap (clip 2)

theorem Cursor.wc_eq (h : s.Cursor) (he : s.streamError = false) (hp : s.p ≤ words) :
    downstream + s.dsoBytes / 4 + s.wc = s.p := by
  have h0 := h.nonneg
  have heq := h.eq he
  rw [words_eq] at hp
  have hwc := wc_of_nonneg h0 (by omega)
  omega

/-- A submission cuts at the token whose handler asks for it. -/
theorem Cut.submitMidbuffer (h : s.Cut b cuts) (hc : s.Cursor) (he : s.streamError = false)
    (hp : s.p ≤ words) (ht : ∃ n, s.p = tokenAt b n) :
    ∃ cuts', s.submitMidbuffer.Cut b cuts' := by
  have hwc := hc.wc_eq he hp
  have hnext := h.next
  unfold Info.submitMidbuffer
  by_cases hz : s.wc = 0
  · exact ⟨cuts, by rwa [if_pos hz]⟩
  rw [if_neg hz]
  have hdso : u32 (s.dsoBytes + u32 (s.wc * 4)) = s.dsoBytes + s.wc * 4 := by
    rw [words_eq] at hp
    rw [u32_of_lt (n := s.wc * 4) (by omega), u32_of_lt (by omega)]
  refine ⟨s.p :: cuts, List.forall_mem_cons.mpr ⟨ht, h.token⟩, ⟨by omega, h.increasing⟩, ?_, ?_⟩
  · show downstream + u32 (s.dsoBytes + u32 (s.wc * 4)) / 4 = s.p
    rw [hdso]
    omega
  · rw [segments, List.filterMap_cons, ← h.ranges]
    by_cases h2 : 2 < s.wc
    · rw [if_pos h2, clip, if_pos (by dsimp only; omega)]
      simp only [List.cons.injEq, Prod.mk.injEq, and_true]
      omega
    · rw [if_neg h2, clip, if_neg (by dsimp only; omega)]

theorem Cut.apply {a : Access} (h : s.Cut b cuts) (hc : s.Cursor) (he : s.streamError = false)
    (hp : s.p ≤ words) (ht : ∃ n, s.p = tokenAt b n) : ∃ cuts', (s.apply a).Cut b cuts' := by
  cases a with
  | submitMidbuffer => exact h.submitMidbuffer hc he hp ht
  | _ => exact ⟨cuts, h.token, h.increasing, h.next, h.ranges⟩

theorem Cut.foldl (h : s.Cut b cuts) (hc : s.Cursor) (he : s.streamError = false)
    (hp : s.p ≤ words) (ht : ∃ n, s.p = tokenAt b n) (hl : ∀ r, .fail r ∉ l) :
    ∃ cuts', (l.foldl Info.apply s).Cut b cuts' := by
  induction l generalizing s cuts with
  | nil => exact ⟨cuts, h⟩
  | cons a l ih =>
    have he' : (s.apply a).streamError = false := by
      rw [← Bool.not_eq_true, apply_streamError]
      rintro (herr | ⟨r, rfl⟩)
      · simp [he] at herr
      · exact hl r List.mem_cons_self
    obtain ⟨cuts', h'⟩ := h.apply (a := a) hc he hp ht
    exact ih h' (hc.apply hp).1 he' (by rwa [apply_p]) (by rwa [apply_p])
      fun r hr => hl r (List.mem_cons_of_mem _ hr)

/-! ### Passes of the loop -/

/-- At a token of the stream, with the words from there on as the client left them. -/
structure Laid (b : ℕ → ℕ) (s : Info) : Prop where
  error : s.streamError = false
  cursor : s.Cursor
  le : s.p ≤ words
  token : ∃ n, s.p = tokenAt b n
  buf : ∀ k, s.p ≤ k → s.buf k = b k
  cut : ∃ cuts, s.Cut b cuts

theorem Laid.word_eq (h : s.Laid b) : s.word = fun k => b (s.p + k) := by
  funext k
  exact h.buf _ (Nat.le_add_right _ _)

theorem foldl_store_of_le {w : ℕ → ℕ} {n k : ℕ} (hl : ∀ j v, .write j v ∈ l → j < n)
    (hk : n ≤ k) : l.foldl Access.store w k = w k := by
  induction l generalizing w with
  | nil => rfl
  | cons a l ih =>
    rw [List.foldl_cons, ih fun j v hj => hl j v (List.mem_cons_of_mem _ hj)]
    cases a with
    | write j v =>
      have := hl j v List.mem_cons_self
      exact Function.update_of_ne (by omega) _ _
    | _ => rfl

/-- A handler leaves the words after its token alone. -/
theorem Laid.handle_buf (h : s.Laid b) (hb : WellFormed lion b) (hp : s.p < words) {k : ℕ}
    (hk : s.p + s.length ≤ k) : (s.handle lion e).buf k = b k := by
  obtain ⟨n, hn⟩ := h.token
  have hacc : s.accesses lion e = accessesAt lion e b (tokenAt b n) := by
    rw [Info.accesses, Info.token, h.word_eq, accessesAt, hn]
    rfl
  have hlen : s.length = b (tokenAt b n) % 2 ^ 24 := by
    rw [Info.length, h.word_eq, ← hn]
    rfl
  have hword : (s.handle lion e).word (k - s.p) = s.word (k - s.p) := by
    rw [handle_word, hacc]
    refine foldl_store_of_le (hb.rewrites n (hn ▸ hp) e) ?_
    omega
  rw [Info.word, Info.word, handle_p, Nat.add_sub_cancel' (by omega)] at hword
  rw [hword]
  exact h.buf k (by omega)

/-- A pass without an error goes on by the token's length. -/
theorem step_eq_advance (hok : (s.step lion e).streamError = false) :
    (s.handle lion e).streamError = false ∧
      s.step lion e = (s.handle lion e).advance s.length := by
  unfold Info.step at hok ⊢
  split_ifs at hok ⊢ with herr
  · exact absurd (herr.symm.trans hok) (by simp)
  · exact ⟨by simpa using herr, rfl⟩

theorem Laid.step (h : s.Laid b) (hb : WellFormed lion b) (hp : s.p < words)
    (hok : (s.step lion e).streamError = false) : (s.step lion e).Laid b := by
  obtain ⟨herr, hstep⟩ := step_eq_advance hok
  have hnofail := (handle_streamError h.error).mp herr
  have hc₀ : (s.touch 0).Cursor := ⟨h.cursor.dvd, h.cursor.nonneg, h.cursor.le, h.cursor.eq⟩
  have hc : (s.handle lion e).Cursor := (hc₀.foldl h.le).1
  obtain ⟨cuts, hcut⟩ := h.cut
  have hcut₀ : (s.touch 0).Cut b cuts := ⟨hcut.token, hcut.increasing, hcut.next, hcut.ranges⟩
  obtain ⟨cuts', hcut'⟩ := hcut₀.foldl hc₀ h.error h.le h.token hnofail
  obtain ⟨n, hn⟩ := h.token
  have hlen : s.p + s.length = tokenAt b (n + 1) := by
    rw [Info.length, h.word_eq, tokenAt, ← hn]
    rfl
  have hle : s.p + s.length ≤ words := hlen ▸ hb.inside n (hn ▸ hp)
  rw [hstep]
  have hpadv : ((s.handle lion e).advance s.length).p = s.p + s.length :=
    congrArg (· + s.length) handle_p
  have hplace : (s.handle lion e).Place := by
    have h8 : downstream ≤ (s.handle lion e).p := by
      have := hc.le
      have := hc.nonneg
      rw [downstream_eq] at *
      omega
    exact .inr ⟨h8, hc⟩
  have h7 : (s.handle lion e).p = downstream - 1 → 0 < s.length := by
    have := hc.le
    have := hc.nonneg
    rw [downstream_eq] at *
    omega
  refine ⟨herr, hplace.advance herr h7, hpadv.trans_le hle, ⟨n + 1, hpadv.trans hlen⟩, ?_,
    ⟨cuts', hcut'.token, hcut'.increasing, hcut'.next, hcut'.ranges⟩⟩
  intro k hk
  exact h.handle_buf hb hp (hpadv ▸ hk)

theorem accesses_start (hb : WellFormed lion b) : (start b).accesses lion e = [] := by
  have htoken : (start b).token lion = some .start := by
    rw [Info.token, show (start b).word 0 = 1 from hb.start]
    cases lion <;> rfl
  rw [Info.accesses, htoken]
  rfl

theorem step_start (hb : WellFormed lion b) :
    (start b).step lion e = ((start b).touch 0).advance 1 := by
  have hlen : (start b).length = 1 := by
    rw [Info.length, show (start b).word 0 = 1 from hb.start]
    rfl
  rw [step_of_no_access (accesses_start hb) rfl, hlen]

theorem laid_start (hb : WellFormed lion b) : ((start b).step lion e).Laid b := by
  have hplace : ((start b).touch 0).Place := .inl ⟨rfl, rfl, rfl⟩
  rw [step_start hb]
  refine ⟨rfl, hplace.advance rfl fun _ => Nat.one_pos, ?_, ⟨1, hb.tokenAt_one.symm⟩,
    fun k _ => rfl, ⟨[], by simp, trivial, ?_, rfl⟩⟩
  · show downstream - 1 + 1 ≤ words
    decide
  · show downstream + 0 / 4 = downstream
    decide

end Info

/-! ### Runs -/

variable {env : ℕ → Env}

/-- The loop goes on after a pass without an error only. -/
theorem Info.step_ok (h : (s.step lion e).running = true) :
    (s.step lion e).streamError = false := by
  unfold Info.step at h ⊢
  split_ifs at h ⊢ with herr
  exact Bool.not_eq_true _ ▸ herr

theorem processCommandBuffer_ok {n : ℕ} (h : (processCommandBuffer lion env b n).running = true) :
    (processCommandBuffer lion env b n).streamError = false := by
  cases n with
  | zero => rfl
  | succ n =>
    unfold processCommandBuffer at h ⊢
    cases hr : Info.running (Oracle.run (Info.step lion) Info.running (.start b) env n) with
    | true =>
      rw [Oracle.run_succ hr] at h ⊢
      exact Info.step_ok h
    | false =>
      rw [Oracle.run_stop hr, hr] at h
      cases h

theorem laid_processCommandBuffer (hb : WellFormed lion b)
    (hok : ∀ n, (processCommandBuffer lion env b n).streamError = false) (n : ℕ) :
    (processCommandBuffer lion env b (n + 1)).Laid b := by
  induction n with
  | zero => exact Info.laid_start hb
  | succ n ih =>
    have hok' := hok (n + 2)
    unfold processCommandBuffer at hok' ih ⊢
    cases hr : Info.running (Oracle.run (Info.step lion) Info.running (.start b) env (n + 1)) with
    | true =>
      rw [Oracle.run_succ hr] at hok' ⊢
      exact ih.step hb (processCommandBuffer_cursor hr).2 hok'
    | false => rwa [Oracle.run_stop hr]

theorem submitted_eq (h : s.Laid b) (hc : s.Cut b cuts) (hr : s.running = false) :
    s.submitted = Cuts.ranges downstream 2 s.p cuts := by
  have hwc := h.cursor.wc_eq h.error h.le
  have hnext := hc.next
  unfold Info.submitted Cuts.ranges
  rw [← hc.ranges, ← hnext]
  split_ifs with hs hp
  · omega
  · rw [List.singleton_append, show s.wc = s.p - (downstream + s.dsoBytes / 4) by omega]
  · rfl
  · exact absurd ⟨hr, h.error, by omega⟩ hs

/-- In a well-formed stream without an error, the cursor is where the downstream window ends
at every loop head. The submissions, the last one first, are the segments between increasing cuts
at tokens of the stream, each but the final one without its last two dwords; a segment is made of
whole tokens, the submissions are in order, and they cover all but those dwords. -/
theorem submissions_of_wellFormed (lion : Bool) (env : ℕ → Env) (b : ℕ → ℕ)
    (hb : WellFormed lion b)
    (hok : ∀ n, (processCommandBuffer lion env b n).streamError = false) :
    (∀ n, let s := processCommandBuffer lion env b n
      s.running = true → (s.p : ℤ) = downstream + s.dsoBytes / 4 + s.dsCountDwords) ∧
    (∃ n, (processCommandBuffer lion env b n).running = false) ∧
    ∀ n, let s := processCommandBuffer lion env b n
      s.running = false → ∃ cuts : List ℕ,
        s.submitted = Cuts.ranges downstream 2 s.p cuts ∧
        Increasing downstream cuts ∧ cuts.headD downstream ≤ s.p ∧
        (∀ c ∈ s.p :: cuts, ∃ k, c = tokenAt b k) ∧
        (∀ g ∈ segments downstream (s.p :: cuts), ∀ i, tokenAt b (i + 1) ≤ g.1 ∨
          g.2 ≤ tokenAt b i ∨ g.1 ≤ tokenAt b i ∧ tokenAt b (i + 1) ≤ g.2) ∧
        s.submitted.Pairwise (fun r r' => r'.1 + r'.2 ≤ r.1) ∧
        ∀ i, downstream ≤ i → i < s.p → ((∃ r ∈ s.submitted, r.1 ≤ i ∧ i < r.1 + r.2) ↔
          ∀ g ∈ segments downstream cuts, g.1 ≤ i → i < g.2 → i + 2 < g.2) := by
  refine ⟨fun n => ?_, ⟨words, processCommandBuffer_ends⟩, fun n => ?_⟩
  · intro s _
    cases n with
    | zero =>
      show ((downstream - 1 : ℕ) : ℤ) = downstream + (0 : ℕ) / 4 + -1
      decide
    | succ n =>
      have h := laid_processCommandBuffer hb hok n
      exact (h.cursor.eq h.error).symm
  · intro s hr
    obtain ⟨n, rfl⟩ : ∃ m, n = m + 1 := Nat.exists_eq_succ_of_ne_zero (by
      rintro rfl
      cases hr)
    have h : s.Laid b := laid_processCommandBuffer hb hok n
    obtain ⟨cuts, hc⟩ := h.cut
    have heq := submitted_eq h hc hr
    have hlast : cuts.headD downstream ≤ s.p := by
      rw [← hc.next, ← h.cursor.wc_eq h.error h.le]
      exact Nat.le_add_right _ _
    have htokens : ∀ c ∈ s.p :: cuts, ∃ k, c = tokenAt b k :=
      List.forall_mem_cons.mpr ⟨h.token, hc.token⟩
    refine ⟨cuts, heq, hc.increasing, hlast, htokens, ?_, ?_, ?_⟩
    · intro g hg
      have hends := Cuts.ends_of_mem_segments ⟨1, hb.tokenAt_one.symm⟩ htokens hg
      exact whole_of_tokenAt hends.1 hends.2
    · rw [heq]
      exact Cuts.ranges_pairwise hc.increasing
    · intro i hi hlt
      rw [heq]
      exact Cuts.mem_ranges_iff hc.increasing hi hlt

/-- `Start`, a token of five dwords without a handler, a texture for unit 0, and `End` up to
the end of the buffer. -/
def midBuffer (i : ℕ) : ℕ :=
  if i = 7 then 1 else if i = 8 then 100 <<< 24 ||| 5 else if i = 13 then 32 <<< 24 ||| 5
  else if i = 14 then 1 else if i = 18 then 1 <<< 24 ||| (words - 18) else 0

theorem tokenAt_midBuffer (n : ℕ) : tokenAt midBuffer (n + 4) = words := by
  induction n with
  | zero => decide +kernel
  | succ n ih =>
    rw [tokenAt, ih]
    decide +kernel

theorem wellFormed_midBuffer : WellFormed false midBuffer := by
  have hspan : ∀ n < 4, ((dispatch false (midBuffer (tokenAt midBuffer n))).elim 0 fun t =>
      (t.outline fun j => midBuffer (tokenAt midBuffer n + j)).span) ≤
        midBuffer (tokenAt midBuffer n) % 2 ^ 24 := by
    decide +kernel
  refine ⟨rfl, fun n hn => ?_, fun n hn => ?_⟩
  · match n with
    | 0 => decide +kernel
    | 1 => decide +kernel
    | 2 => decide +kernel
    | n + 3 => exact (tokenAt_midBuffer n).le
  · rcases Nat.lt_or_ge n 4 with h4 | h4
    · exact fun e k v => rewrites_of_outline (hspan n h4)
    · obtain ⟨m, rfl⟩ := Nat.exists_eq_add_of_le' h4
      exact absurd (tokenAt_midBuffer m) hn.ne

theorem midBuffer_ends : (processCommandBuffer false (fun _ => .generous 0) midBuffer 4).p = words ∧
    (processCommandBuffer false (fun _ => .generous 0) midBuffer 4).running = false ∧
    ∀ n, (processCommandBuffer false (fun _ => .generous 0) midBuffer n).streamError = false := by
  have hstop : (processCommandBuffer false (fun _ => .generous 0) midBuffer 4).running = false := by
    decide +kernel
  refine ⟨by decide +kernel, hstop, fun n => ?_⟩
  have hok : ∀ n < 5,
      (processCommandBuffer false (fun _ => .generous 0) midBuffer n).streamError = false := by
    decide +kernel
  rcases Nat.lt_or_ge n 4 with hn | hn
  · exact hok n (by omega)
  · have hrun : processCommandBuffer false (fun _ => .generous 0) midBuffer n =
        processCommandBuffer false (fun _ => .generous 0) midBuffer 4 :=
      Oracle.run_stopped hstop hn
    rw [hrun]
    exact hok 4 (by decide)

/-- The submission before the texture ends inside the second token. -/
theorem midBuffer_splits_token : WellFormed false midBuffer ∧
    (∀ n, (processCommandBuffer false (fun _ => .generous 0) midBuffer n).streamError = false) ∧
    ∃ r ∈ (processCommandBuffer false (fun _ => .generous 0) midBuffer 4).submitted,
      tokenAt midBuffer 1 < r.1 + r.2 ∧ r.1 + r.2 < tokenAt midBuffer 2 := by
  refine ⟨wellFormed_midBuffer, midBuffer_ends.2.2, (8, 3), ?_, ?_⟩
  · decide +kernel
  · decide +kernel

theorem submissions_midBuffer : ∃ cuts : List ℕ,
    (processCommandBuffer false (fun _ => .generous 0) midBuffer 4).submitted =
      Cuts.ranges downstream 2 words cuts := by
  obtain ⟨hp, hr, hok⟩ := midBuffer_ends
  obtain ⟨cuts, hs, -⟩ :=
    (submissions_of_wellFormed false _ midBuffer wellFormed_midBuffer hok).2.2 4 hr
  exact ⟨cuts, hp ▸ hs⟩

end Cesvga2.GL
