import Mathlib.Data.Fin.Basic
import Mathlib.Data.List.Basic
import Mathlib.Tactic.Ring

/-! Streams of frames that carry their own length. A decoder that reads one frame and leaves
the rest of the stream reads back any sequence of frames. The parts of a frame are blocks of a
known length, arrays of blocks, and bytes packed four to a word. -/

namespace Cesvga2.Formats

variable {ω α β : Type*}

/-! ### Blocks -/

/-- The first `n` words and the rest. -/
def split (n : ℕ) (l : List ω) : Option (List ω × List ω) :=
  if n ≤ l.length then some (l.take n, l.drop n) else none

theorem split_append {n : ℕ} {a : List ω} (ha : a.length = n) (l : List ω) :
    split n (a ++ l) = some (a, l) := by
  subst ha
  rw [split, if_pos (by simp), List.take_left, List.drop_left]

/-- `n` blocks of `k` words. -/
def chunks (k : ℕ) : ℕ → List ω → List (List ω)
  | 0, _ => []
  | n + 1, l => l.take k :: chunks k n (l.drop k)

variable {k : ℕ} {items : List (List ω)}

theorem chunks_flatten (h : ∀ x ∈ items, x.length = k) (l : List ω) :
    chunks k items.length (items.flatten ++ l) = items := by
  induction items with
  | nil => rfl
  | cons a items ih =>
    have ha := h a (List.mem_cons_self ..)
    rw [List.length_cons, chunks, List.flatten_cons, List.append_assoc, List.take_left' ha,
      List.drop_left' ha, ih fun x hx => h x (List.mem_cons_of_mem _ hx)]

theorem length_flatten (h : ∀ x ∈ items, x.length = k) :
    items.flatten.length = k * items.length := by
  induction items with
  | nil => simp
  | cons a items ih =>
    rw [List.flatten_cons, List.length_append, h a (List.mem_cons_self ..),
      ih fun x hx => h x (List.mem_cons_of_mem _ hx), List.length_cons]
    ring

/-! ### Bytes -/

instance neZero_byte : NeZero 256 := ⟨by norm_num⟩

/-- Four bytes to a word, the first one lowest. -/
def pack : List (Fin 256) → List ℕ
  | a :: b :: c :: d :: l => (a + 256 * (b + 256 * (c + 256 * d)) : ℕ) :: pack l
  | _ => []

def unpack (words : List ℕ) : List (Fin 256) :=
  words.flatMap fun w => [Fin.ofNat 256 w, Fin.ofNat 256 (w / 256), Fin.ofNat 256 (w / 65536),
    Fin.ofNat 256 (w / 16777216)]

theorem unpack_pack : ∀ {l : List (Fin 256)} (_ : l.length % 4 = 0), unpack (pack l) = l
  | [], _ => rfl
  | [_], h => by simp at h
  | [_, _], h => by simp at h
  | [_, _, _], h => by simp at h
  | a :: b :: c :: d :: l, h => by
    have hl : l.length % 4 = 0 := by
      simp only [List.length_cons] at h
      omega
    rw [pack, unpack, List.flatMap_cons, ← unpack, unpack_pack hl]
    simp only [List.cons_append, List.nil_append, List.cons.injEq, and_true, Fin.ext_iff,
      Fin.ofNat]
    have := a.isLt
    have := b.isLt
    have := c.isLt
    have := d.isLt
    omega

theorem length_pack : ∀ l : List (Fin 256), (pack l).length = l.length / 4
  | [] => rfl
  | [_] => by simp [pack]
  | [_, _] => by simp [pack]
  | [_, _, _] => by simp [pack]
  | _ :: _ :: _ :: _ :: l => by
    rw [pack, List.length_cons, length_pack l]
    simp only [List.length_cons]
    omega

/-! ### Sequences of frames -/

/-- The frames of a whole stream, at most the given number of them. -/
def decodeAll (decode : List ω → Option (α × List ω)) : ℕ → List ω → Option (List α)
  | _, [] => some []
  | 0, _ :: _ => none
  | n + 1, x :: l => (decode (x :: l)).bind fun r => (decodeAll decode n r.2).map (r.1 :: ·)

variable {decode : List ω → Option (α × List ω)} {encode : β → List ω} {value : β → α}

/-- Frames that are read back one by one are read back in sequence. -/
theorem decodeAll_flatten {l : List β} (h : ∀ b ∈ l, encode b ≠ [] ∧
      ∀ rest, decode (encode b ++ rest) = some (value b, rest)) {n : ℕ}
    (hn : (l.map encode).flatten.length ≤ n) :
    decodeAll decode n (l.map encode).flatten = some (l.map value) := by
  induction l generalizing n with
  | nil => simp [decodeAll]
  | cons b l ih =>
    obtain ⟨hne, hb⟩ := h b (List.mem_cons_self ..)
    obtain ⟨x, t, hx⟩ := List.exists_cons_of_ne_nil hne
    have hfirst := hb (l.map encode).flatten
    rw [List.map_cons, List.flatten_cons, hx, List.cons_append] at hn ⊢
    rw [List.length_cons, List.length_append] at hn
    obtain ⟨m, rfl⟩ : ∃ m, n = m + 1 := ⟨n - 1, by omega⟩
    have hl := ih (fun c hc => h c (List.mem_cons_of_mem _ hc)) (n := m) (by omega)
    rw [hx, List.cons_append] at hfirst
    rw [decodeAll, hfirst, Option.bind_some, hl, Option.map_some, List.map_cons]

end Cesvga2.Formats
