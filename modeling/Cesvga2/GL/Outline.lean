import Cesvga2.GL.Token

/-! What a token's words alone say about its handler: how far the handler reaches, and
whether it may submit or is bound to fail. The outline bounds the handler in every
environment, and in one where every name of the handle table is taken the handler
does all that the outline allows. -/

namespace Cesvga2.GL

/-- The dwords a handler may touch from its token on, whether it may call
`submit_midbuffer`, and whether it fails in every environment. -/
structure Outline where
  span : ℕ
  submits : Bool
  fails : Bool
  deriving DecidableEq, Repr

/-- The id can be one of a texture. -/
def named (id : ℕ) : Bool := decide (id < numTextureHandles)

section Outlines

variable (w : ℕ → ℕ)

def bindOutline : (n i : ℕ) → Outline
  | 0, _ => ⟨12, false, false⟩
  | n + 1, i =>
    if w (4 * i + 4) = noTexture then bindOutline n (i + 1)
    else if named (w (4 * i + 4)) then { bindOutline n (i + 1) with submits := true }
    else ⟨4 * i + 5, false, true⟩

def textureOutline : (n i q : ℕ) → Outline
  | 0, _, q => ⟨q, false, false⟩
  | n + 1, i, q =>
    if (w 1).testBit i then
      if named (w q) then { textureOutline n (i + 1) (q + 3) with submits := true }
      else ⟨q + 1, false, true⟩
    else textureOutline n (i + 1) q

def Token.outline : Token → Outline
  | start | endToken | userEnd | bindHeap | setShaderHeapOffsets | swap | flush =>
    ⟨1, false, false⟩
  | textureVolatile => ⟨3, false, !named (w 1)⟩
  | textureNonVolatile => ⟨2, false, !named (w 1)⟩
  | setSurfaceState => ⟨3, false, false⟩
  | bindDrawFBO | bindReadFBO => bindOutline w (min (w 3) 2) 0
  | unbindDrawFBO | unbindReadFBO => ⟨1, false, false⟩
  | texture => textureOutline w 16 0 2
  | noTex => ⟨2, false, decide (w 1 ≠ noTexture) && !named (w 1)⟩
  | vertexBuffer => ⟨2, named (w 1), !named (w 1)⟩
  | noVertexBuffer => ⟨1, false, false⟩
  | drawBuffer => ⟨11, false, false⟩
  | setFence => ⟨4, false, false⟩
  | texSubImage2D => ⟨9, named (w 6), !named (w 6)⟩
  | copyPixelsDst => if named (w 1) then ⟨6, true, false⟩ else ⟨2, false, true⟩
  | copyPixelsSrc => ⟨5, false, false⟩
  | copyPixelsSrcFBO => ⟨5, false, !named (w 1)⟩
  | drawRect => ⟨5, false, false⟩
  | asyncReadDrawBuffer => if named (w 1) then ⟨10, false, false⟩ else ⟨2, false, true⟩

end Outlines

/-- The access touches none but the first `n` dwords. -/
@[simp]
def Access.Within (n : ℕ) : Access → Prop
  | read k => k < n
  | write k _ => k < n
  | _ => True

/-- The access touches dword `k`. -/
@[simp]
def Access.Touches (k : ℕ) : Access → Prop
  | read j => j = k
  | write j _ => j = k
  | _ => False

theorem Access.Within.lt {n k : ℕ} {a : Access} (h : a.Within n) (ht : a.Touches k) : k < n := by
  cases a with
  | read j => exact ht ▸ h
  | write j v => exact ht ▸ h
  | _ => exact absurd ht id

/-- The accesses keep to the outline. -/
structure Bounded (o : Outline) (l : List Access) : Prop where
  span : ∀ a ∈ l, a.Within o.span
  quiet : o.submits = false → .submitMidbuffer ∉ l
  fails : o.fails = true → ∃ r, .fail r ∈ l

/-- The accesses do all that the outline allows, up to the first `k` dwords; the first
submission comes before any failure. -/
structure Attains (k : ℕ) (o : Outline) (l : List Access) : Prop where
  span : o.span = k ∨ ∃ a ∈ l, a.Touches (o.span - 1)
  submits : o.submits = true → ∃ l₁ l₂, l = l₁ ++ .submitMidbuffer :: l₂ ∧
    ∀ a ∈ l₁, ∃ k, a.Touches k
  ok : o.fails = false → ∀ r, .fail r ∉ l

variable {e : Env} {w : ℕ → ℕ} {l : List Access} {o : Outline} {n i q count : ℕ}

theorem Env.find_of_not_named {id : ℕ} (h : named id = false) :
    e.findTextureBuffer i id = false := by
  cases hf : e.findTextureBuffer i id with
  | false => rfl
  | true => exact absurd (e.find_lt i id hf) (by simpa [named] using h)

@[simp]
theorem mem_bzero {a : Access} : a ∈ bzero n ↔ ∃ j < n, .write j 0 = a := by
  simp [bzero]

@[simp]
theorem mem_drawrect {a : Access} {k : ℕ} :
    a ∈ drawrect e k ↔ ∃ j < 4, .write (k + j) (e.word (k + j)) = a := by
  simp [drawrect]

theorem last_mem_drawrect {k : ℕ} : .write (k + 3) (e.word (k + 3)) ∈ drawrect e k :=
  mem_drawrect.mpr ⟨3, by omega, rfl⟩

/-! ### Every environment -/

namespace Bounded

theorem append {l₁ : List Access} (h : Bounded o l) (hw : ∀ a ∈ l₁, a.Within o.span)
    (hq : o.submits = false → .submitMidbuffer ∉ l₁) : Bounded o (l₁ ++ l) := by
  constructor
  · exact List.forall_mem_append.mpr ⟨hw, h.span⟩
  · intro hs hm
    exact (List.mem_append.mp hm).elim (hq hs) (h.quiet hs)
  · intro hf
    obtain ⟨r, hr⟩ := h.fails hf
    exact ⟨r, List.mem_append_right _ hr⟩

theorem read {k : ℕ} (h : Bounded o l) (hk : k < o.span) : Bounded o (.read k :: l) := by
  have hw : ∀ a ∈ [Access.read k], a.Within o.span := by simpa using hk
  exact h.append hw (by simp)

theorem submits (h : Bounded o l) : Bounded { o with submits := true } l :=
  ⟨h.span, fun hs => absurd hs (by simp), h.fails⟩

theorem fail {r : Bool} : Bounded o [.fail r] := ⟨by simp, by simp, by simp⟩

end Bounded

theorem bindOutline_span (hi : n + i ≤ 2) : 4 * i + 4 ≤ (bindOutline w n i).span := by
  induction n generalizing i with
  | zero =>
    simp only [bindOutline]
    omega
  | succ n ih =>
    have hrec := ih (i := i + 1) (by omega)
    simp only [bindOutline]
    split_ifs
    · omega
    · exact le_trans (by omega) hrec
    · exact Nat.le_succ _

theorem bounded_bindLoop (hi : n + i ≤ 2) : Bounded (bindOutline w n i) (bindLoop e w n i) := by
  induction n generalizing i with
  | zero => exact ⟨by simp [bindLoop, bindOutline], by simp [bindLoop], by simp [bindOutline]⟩
  | succ n ih =>
    have hrec := ih (i := i + 1) (by omega)
    have hspan := bindOutline_span (w := w) (n := n) (i := i + 1) (by omega)
    simp only [bindOutline, bindLoop]
    by_cases hno : w (4 * i + 4) = noTexture
    · rw [if_pos hno, if_pos hno]
      exact hrec.read (by omega)
    rw [if_neg hno, if_neg hno]
    cases hn : named (w (4 * i + 4)) with
    | false =>
      rw [Env.find_of_not_named hn, if_neg (by simp), if_neg (by simp)]
      exact Bounded.fail.read (by simp)
    | true =>
      rw [if_pos rfl]
      split_ifs
      · apply Bounded.read
        · apply hrec.submits.append
          · simp only [getTexture]
            split_ifs <;> simp <;> omega
          · simp
        · show _ < (bindOutline w n (i + 1)).span
          omega
      · apply Bounded.fail.read
        show _ < (bindOutline w n (i + 1)).span
        omega

theorem textureOutline_span : q ≤ (textureOutline w n i q).span := by
  induction n generalizing i q with
  | zero => exact le_rfl
  | succ n ih =>
    simp only [textureOutline]
    split_ifs
    · exact le_trans (by omega) (ih (q := q + 3))
    · exact Nat.le_succ _
    · exact ih

theorem bounded_textureLoop (hq : 0 < q) :
    Bounded (textureOutline w n i q) (textureLoop e w n i q count) := by
  induction n generalizing i q count with
  | zero => exact ⟨by simpa [textureLoop, textureOutline] using hq, by simp [textureLoop],
      by simp [textureOutline]⟩
  | succ n ih =>
    have hspan := textureOutline_span (w := w) (n := n) (i := i + 1) (q := q + 3)
    simp only [textureOutline, textureLoop]
    by_cases hbit : (w 1).testBit i
    · rw [if_pos hbit, if_pos hbit]
      cases hn : named (w q) with
      | false =>
        rw [Env.find_of_not_named hn, if_neg (by simp), if_neg (by simp)]
        exact Bounded.fail.read (by simp)
      | true =>
        rw [if_pos rfl]
        apply Bounded.read
        · split_ifs
          all_goals first
            | exact Bounded.fail
            | apply (ih (by omega)).submits.append
              · simp only [getTexture]
                split_ifs <;> simp <;> omega
              · simp
        · show _ < (textureOutline w n (i + 1) (q + 3)).span
          omega
    · rw [if_neg hbit, if_neg hbit]
      exact ih hq

theorem bounded_bindFBO : Bounded (bindOutline w (min (w 3) 2) 0) (bindFBO e w) := by
  have hspan := bindOutline_span (w := w) (n := min (w 3) 2) (i := 0) (by omega)
  unfold bindFBO
  split_ifs
  · exact Bounded.fail
  · apply (bounded_bindLoop (by omega)).append
    · simp
      omega
    · simp

theorem Token.bounded (t : Token) : Bounded (t.outline w) (t.accesses e w) := by
  cases t with
  | texture =>
    exact (bounded_textureLoop (by omega)).read (lt_of_lt_of_le (by omega) textureOutline_span)
  | bindDrawFBO | bindReadFBO => exact bounded_bindFBO
  | start | endToken | userEnd | bindHeap | setShaderHeapOffsets | swap | flush | unbindDrawFBO
  | unbindReadFBO | noVertexBuffer | copyPixelsSrc =>
    dsimp only [accesses, outline]
    constructor <;> simp
  | drawRect =>
    constructor <;> simp [accesses, outline]
    omega
  | setSurfaceState | setFence | drawBuffer =>
    simp only [accesses, outline, setupDrawbufferRegisters]
    split_ifs <;> constructor <;> simp
    all_goals omega
  | textureVolatile | textureNonVolatile | noTex | vertexBuffer | copyPixelsDst
  | copyPixelsSrcFBO | asyncReadDrawBuffer =>
    -- a name outside the table is never found
    cases hn : named (w 1) with
    | false =>
      simp only [accesses, outline, hn, Env.find_of_not_named hn]
      constructor <;> simp
      all_goals split_ifs <;> simp_all
    | true =>
      simp only [accesses, outline, hn, getTexture]
      split_ifs <;> constructor <;> simp
  | texSubImage2D =>
    cases hn : named (w 6) with
    | false =>
      simp only [accesses, outline, hn, Env.find_of_not_named hn]
      constructor <;> simp
    | true =>
      simp only [accesses, outline, hn, getTexture]
      split_ifs <;> constructor <;> simp

/-! ### Every name taken -/

/-- Every name of the handle table is taken, each texture is to be loaded, and fence
`fence` exists. -/
def Env.generous (fence : ℕ) : Env where
  findTextureBuffer _ id := named id
  find_lt _ id h := by simpa [named] using h
  inUse _ := true
  formatInvalid _ := false
  fbo := true
  malloc := true
  surfaceClient := true
  gart := false
  fencesLen := fence * gldFenceSize + 1
  word _ := 0

section

variable {fence : ℕ}

@[simp]
theorem generous_find {id : ℕ} : (Env.generous fence).findTextureBuffer i id = named id := rfl

@[simp]
theorem generous_inUse : (Env.generous fence).inUse i = true := rfl

@[simp]
theorem generous_formatInvalid : (Env.generous fence).formatInvalid i = false := rfl

@[simp]
theorem generous_fbo : (Env.generous fence).fbo = true := rfl

@[simp]
theorem generous_surfaceClient : (Env.generous fence).surfaceClient = true := rfl

@[simp]
theorem generous_gart : (Env.generous fence).gart = false := rfl

@[simp]
theorem generous_fencesLen :
    (Env.generous fence).fencesLen = fence * gldFenceSize + 1 := rfl

end

namespace Attains

variable {j k : ℕ}

theorem read (h : Attains k o l) : Attains k o (.read j :: l) := by
  constructor
  · refine h.span.imp_right ?_
    rintro ⟨a, ha, ht⟩
    exact ⟨a, List.mem_cons_of_mem _ ha, ht⟩
  · intro hs
    obtain ⟨l₁, l₂, rfl, hl⟩ := h.submits hs
    exact ⟨.read j :: l₁, l₂, rfl, List.forall_mem_cons.mpr ⟨⟨j, rfl⟩, hl⟩⟩
  · intro hf r hm
    exact h.ok hf r (by simpa using hm)

/-- A submission and further accesses before the rest. -/
theorem submit {l₁ : List Access} (h : Attains k o l) (hl : ∀ r, .fail r ∉ l₁) :
    Attains k { o with submits := true } (.submitMidbuffer :: l₁ ++ l) := by
  constructor
  · refine h.span.imp_right ?_
    rintro ⟨a, ha, ht⟩
    exact ⟨a, List.mem_append_right _ ha, ht⟩
  · exact fun _ => ⟨[], l₁ ++ l, rfl, by simp⟩
  · intro hf r hm
    rcases List.mem_append.mp hm with hm | hm
    · exact hl r (by simpa using hm)
    · exact h.ok hf r hm

/-- A name outside the table ends the handler. -/
theorem fail {r : Bool} : Attains k ⟨j + 1, false, true⟩ [.read j, .fail r] :=
  ⟨.inr (by simp), by simp, by simp⟩

/-- The first `k` dwords may be less when the last of them is touched. -/
theorem rebase {a : Access} (h : Attains k o l) (ha : a ∈ l) (ht : a.Touches (k - 1)) :
    Attains j o l := by
  refine ⟨.inr ?_, h.submits, h.ok⟩
  rcases h.span with hk | hk
  · exact ⟨a, ha, hk ▸ ht⟩
  · exact hk

end Attains

variable {fence : ℕ}

theorem attains_bindLoop : Attains 1 (bindOutline w n i) (bindLoop (.generous fence) w n i) := by
  induction n generalizing i with
  | zero =>
    have hlast : Access.write 11 0 ∈ bzero 12 := by simp
    exact ⟨.inr ⟨_, hlast, rfl⟩, by simp [bindOutline], by simp [bindLoop]⟩
  | succ n ih =>
    simp only [bindOutline, bindLoop, getTexture, generous_find, generous_inUse, if_true]
    split_ifs with hno hn
    · exact ih.read
    · apply Attains.read
      exact ih.submit (by simp)
    · exact Attains.fail

theorem attains_textureLoop :
    Attains q (textureOutline w n i q) (textureLoop (.generous fence) w n i q count) := by
  induction n generalizing i q count with
  | zero => exact ⟨.inl rfl, by simp [textureOutline], by simp [textureLoop]⟩
  | succ n ih =>
    simp only [textureOutline, textureLoop, getTexture, generous_find, generous_inUse,
      generous_formatInvalid, if_true, Bool.false_eq_true, if_false, List.nil_append]
    split_ifs with hbit hn
    · apply Attains.read
      apply Attains.rebase (a := .read (q + 2)) (ih.submit (by simp)) (by simp)
      rfl
    · exact Attains.fail
    · exact ih

theorem Token.attains (t : Token) :
    Attains 1 (t.outline w) (t.accesses (.generous (w 1)) w) := by
  cases t with
  | texture =>
    apply Attains.rebase (a := .read 1) attains_textureLoop.read (by simp)
    rfl
  | bindDrawFBO | bindReadFBO =>
    simp only [accesses, outline, bindFBO, generous_fbo, Bool.true_eq_false, false_and, if_false]
    exact attains_bindLoop.read.read.read.read
  | start | endToken | userEnd | bindHeap | setShaderHeapOffsets | swap | flush | unbindDrawFBO
  | unbindReadFBO | noVertexBuffer | copyPixelsSrc | setFence =>
    dsimp only [accesses, outline]
    constructor <;> simp
  | drawRect =>
    refine ⟨.inr ⟨.write 4 0, ?_, rfl⟩, by simp [outline], by simp [accesses]⟩
    exact List.mem_cons_of_mem _ (last_mem_drawrect (k := 1))
  | drawBuffer =>
    refine ⟨.inr ⟨.write 10 0, ?_, rfl⟩, by simp [outline], ?_⟩
    swap
    · simp [accesses, setupDrawbufferRegisters]
    exact List.mem_append_right _ (List.mem_append_right _ (last_mem_drawrect (k := 7)))
  | setSurfaceState =>
    exact ⟨.inr ⟨.write 2 0, by simp [accesses], rfl⟩, by simp [outline], by simp [accesses]⟩
  | vertexBuffer | copyPixelsDst =>
    cases hn : named (w 1) with
    | false => constructor <;> simp [accesses, outline, hn]
    | true =>
      simp only [accesses, outline, hn, getTexture, generous_find, generous_gart, generous_inUse]
      exact ⟨by simp, fun _ => ⟨[.read 1], _, rfl, by simp⟩, by simp⟩
  | texSubImage2D =>
    cases hn : named (w 6) with
    | false => constructor <;> simp [accesses, outline, hn]
    | true =>
      simp only [accesses, outline, hn, getTexture, generous_find, generous_inUse]
      exact ⟨by simp, fun _ => ⟨[.read 1, .read 3, .read 8, .read 6], _, rfl, by simp⟩, by simp⟩
  | noTex =>
    constructor
    · simp [accesses, outline]
    · simp [outline]
    · simp only [accesses, outline]
      split_ifs <;> simp_all
  | textureVolatile | textureNonVolatile | copyPixelsSrcFBO | asyncReadDrawBuffer =>
    dsimp only [accesses, outline]
    cases hn : named (w 1) <;> constructor <;> simp [hn]

end Cesvga2.GL
