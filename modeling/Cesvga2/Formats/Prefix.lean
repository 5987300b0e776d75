import Cesvga2.Formats.Frames

/-! Streams that arrive a word at a time. A decoder is local if words behind a frame do not
change what it reads; then the frames that are complete at the front of a stream are read as in
the whole of it, and what is left is a proper beginning of the next frame. -/

namespace Cesvga2.Formats

variable {ω α β : Type*}

/-- More words behind a frame stay behind it, and there is no frame without words. -/
structure Local (decode : List ω → Option (α × List ω)) : Prop where
  nil : decode [] = none
  append : ∀ {l : List ω} {v : α} {r : List ω}, decode l = some (v, r) →
    ∀ x, decode (l ++ x) = some (v, r ++ x)

theorem split_local {n : ℕ} {l a r : List ω} (h : split n l = some (a, r)) (x : List ω) :
    split n (l ++ x) = some (a, r ++ x) := by
  unfold split at h ⊢
  split_ifs at h with hn
  obtain ⟨rfl, rfl⟩ := Prod.mk.inj (Option.some.inj h)
  rw [if_pos (hn.trans (by simp)), List.take_append_of_le_length hn,
    List.drop_append_of_le_length hn]

/-- The complete frames at the front of a stream, at most the given number, and the rest. -/
def decodePrefix (decode : List ω → Option (α × List ω)) : ℕ → List ω → List α × List ω
  | 0, l => ([], l)
  | n + 1, l =>
    match decode l with
    | none => ([], l)
    | some (a, r) => (a :: (decodePrefix decode n r).1, (decodePrefix decode n r).2)

/-- The stream `w` consists of the first `k` of these frames and of `part`, which is not the
whole of the next one. -/
structure Framed (encode : β → List ω) (bs : List β) (w : List ω) (k : ℕ) (part : List ω) :
    Prop where
  le : k ≤ bs.length
  eq : w = ((bs.take k).map encode).flatten ++ part
  next : ∀ b ∈ bs[k]?, part <+: encode b ∧ part ≠ encode b
  last : k = bs.length → part = []

variable {decode : List ω → Option (α × List ω)} {encode : β → List ω} {value : β → α}
  {bs : List β} {w part : List ω} {k : ℕ}

namespace Framed

theorem start (h : ∀ b ∈ bs, encode b ≠ []) : Framed encode bs [] 0 [] where
  le := Nat.zero_le _
  eq := rfl
  next b hb := ⟨List.nil_prefix, fun he => h b (List.mem_of_getElem? hb) he.symm⟩
  last _ := rfl

/-- Every beginning of the stream is framed. -/
theorem of_prefix (hne : ∀ b ∈ bs, encode b ≠ []) (hw : w <+: (bs.map encode).flatten) :
    ∃ k part, Framed encode bs w k part := by
  induction bs generalizing w with
  | nil =>
    obtain rfl := List.prefix_nil.mp hw
    exact ⟨0, [], start hne⟩
  | cons b bs ih =>
    rw [List.map_cons, List.flatten_cons] at hw
    by_cases hwhole : encode b <+: w
    · obtain ⟨t, rfl⟩ := hwhole
      obtain ⟨k, part, hf⟩ := ih (fun c hc => hne c (List.mem_cons_of_mem _ hc))
        ((List.prefix_append_right_inj _).mp hw)
      refine ⟨k + 1, part, Nat.succ_le_succ hf.le, ?_, fun c hc => hf.next c (by simpa using hc),
        fun hk => hf.last (Nat.succ_injective hk)⟩
      rw [List.take_succ_cons, List.map_cons, List.flatten_cons, List.append_assoc, ← hf.eq]
    · have hfront : w <+: encode b := (List.prefix_or_prefix_of_prefix hw
        (List.prefix_append (encode b) _)).resolve_right hwhole
      refine ⟨0, w, Nat.zero_le _, rfl, fun c hc => ?_, by simp⟩
      obtain rfl : b = c := by simpa using hc
      exact ⟨hfront, fun heq => hwhole (heq ▸ List.prefix_rfl)⟩

/-- The whole stream is read to its end. -/
theorem complete (hf : Framed encode bs w k part) (hw : w = (bs.map encode).flatten) :
    k = bs.length ∧ part = [] := by
  rcases Nat.lt_or_ge k bs.length with hlt | hge
  · obtain ⟨hpart, hproper⟩ := hf.next _ (List.getElem?_eq_getElem hlt)
    have hrest : part = encode bs[k] ++ ((bs.drop (k + 1)).map encode).flatten := by
      rw [← List.flatten_cons, ← List.map_cons, ← List.drop_eq_getElem_cons hlt]
      refine List.append_cancel_left (hf.eq.symm.trans (hw.trans ?_))
      rw [← List.flatten_append, ← List.map_append, List.take_append_drop]
    exact absurd (hpart.eq_of_length_le (by simp [hrest])) hproper
  · have hk := Nat.le_antisymm hf.le hge
    exact ⟨hk, hf.last hk⟩

end Framed

/-- A proper beginning of a frame is no frame. -/
theorem Local.decode_part (hl : Local decode) {b : β}
    (hb : decode (encode b) = some (value b, [])) (hpart : part <+: encode b)
    (hproper : part ≠ encode b) : decode part = none := by
  obtain ⟨s, hs⟩ := hpart
  cases hd : decode part with
  | none => rfl
  | some r =>
    obtain ⟨v, r⟩ := r
    have := hl.append hd s
    rw [hs, hb] at this
    have hr := (Prod.mk.inj (Option.some.inj this)).2
    obtain ⟨-, rfl⟩ := List.append_eq_nil_iff.mp hr.symm
    exact absurd (by rw [← hs, List.append_nil]) hproper

/-- A local decoder reads the complete frames of a framed stream. -/
theorem Local.decodePrefix_eq (hl : Local decode) (h : ∀ b ∈ bs, encode b ≠ [] ∧
      ∀ rest, decode (encode b ++ rest) = some (value b, rest))
    (hf : Framed encode bs w k part) {n : ℕ} (hn : w.length ≤ n) :
    decodePrefix decode n w = ((bs.take k).map value, part) := by
  induction k generalizing bs w n with
  | zero =>
    have hw : w = part := hf.eq
    subst hw
    cases n with
    | zero => rfl
    | succ n =>
      have hnone : decode w = none := by
        cases bs with
        | nil => rw [hf.last rfl, hl.nil]
        | cons b bs =>
          obtain ⟨hpart, hproper⟩ := hf.next b rfl
          have hb := (h b (List.mem_cons_self ..)).2 []
          rw [List.append_nil] at hb
          exact hl.decode_part hb hpart hproper
      rw [decodePrefix, hnone]
      rfl
  | succ k ih =>
    cases bs with
    | nil => exact absurd hf.le (by simp)
    | cons b bs =>
      obtain ⟨hne, hb⟩ := h b (List.mem_cons_self ..)
      have htail : Framed encode bs (((bs.take k).map encode).flatten ++ part) k part :=
        ⟨Nat.le_of_succ_le_succ hf.le, rfl, fun c hc => hf.next c (by simpa using hc),
          fun hk => hf.last (congrArg (· + 1) hk)⟩
      have hw : w = encode b ++ (((bs.take k).map encode).flatten ++ part) := by
        rw [hf.eq, List.take_succ_cons, List.map_cons, List.flatten_cons, List.append_assoc]
      have hpos := List.length_pos_iff.mpr hne
      rw [hw, List.length_append] at hn
      obtain ⟨m, rfl⟩ : ∃ m, n = m + 1 := ⟨n - 1, by omega⟩
      have hrec := ih (fun c hc => h c (List.mem_cons_of_mem _ hc)) htail (n := m) (by omega)
      rw [hw, decodePrefix, hb]
      simp only [hrec, List.take_succ_cons, List.map_cons]

end Cesvga2.Formats
