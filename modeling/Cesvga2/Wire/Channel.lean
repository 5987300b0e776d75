import Cesvga2.Formats.Prefix
import Cesvga2.Wire.Attempt

/-! The command channel from end to end. The device takes words off the ring one at a time and
executes a command as soon as it has all of its words. In every interleaving of the calls with
the device, what has been executed is the beginning of what has been issued, and all of it when
the ring is empty. -/

namespace Cesvga2.Wire

open Relation (ReflTransGen)
open Cesvga2.Formats (split split_local Local Framed decodePrefix)
open Cesvga2.Fifo (World Act Dev Pc fifoNextCmd fifoStop)

/-! ### Words that follow a command -/

variable {l r x : List ℕ} {c : Cmd} {n : ℕ}

theorem split_map_local {f : List ℕ → Cmd}
    (h : ((split n l).map fun s => (f s.1, s.2)) = some (c, r)) (x : List ℕ) :
    ((split n (l ++ x)).map fun s => (f s.1, s.2)) = some (c, r ++ x) := by
  obtain ⟨⟨a, t⟩, hsplit, heq⟩ := Option.map_eq_some_iff.mp h
  obtain ⟨rfl, rfl⟩ := Prod.mk.inj heq
  rw [split_local hsplit, Option.map_some]

theorem parse3D_local {t : Tag} (h : parse3D t l = some (c, r)) (x : List ℕ) :
    parse3D t (l ++ x) = some (c, r ++ x) := by
  cases l with
  | nil => cases h
  | cons size l =>
    simp only [List.cons_append, parse3D] at h ⊢
    split_ifs at h ⊢ with hsize
    obtain ⟨⟨a, t⟩, hsplit, hmap⟩ := Option.bind_eq_some_iff.mp h
    obtain ⟨cmd, hpayload, heq⟩ := Option.map_eq_some_iff.mp hmap
    obtain ⟨rfl, rfl⟩ := Prod.mk.inj heq
    rw [split_local hsplit, Option.bind_some, hpayload, Option.map_some]

theorem parseBody_local {t : Tag} (h : parseBody t l = some (c, r)) (x : List ℕ) :
    parseBody t (l ++ x) = some (c, r ++ x) := by
  cases t with
  | plain op => exact split_map_local h x
  | alphaCursor =>
    rcases l with _ | ⟨_, _ | ⟨_, _ | ⟨_, _ | ⟨_, _ | ⟨_, l⟩⟩⟩⟩⟩
    case cons.cons.cons.cons.cons => exact split_map_local h x
    all_goals cases h
  | screen =>
    cases l with
    | nil => cases h
    | cons structSize l => exact split_map_local h x
  | remapGMR2 =>
    rcases l with _ | ⟨_, _ | ⟨_, _ | ⟨_, _ | ⟨_, l⟩⟩⟩⟩
    case cons.cons.cons.cons => exact split_map_local h x
    all_goals cases h
  | escape =>
    rcases l with _ | ⟨_, _ | ⟨_, l⟩⟩
    case cons.cons =>
      exact split_map_local (f := fun a => .escape _ ((Formats.unpack a).take _)) h x
    all_goals cases h
  | threeD op =>
    rw [parseBody] at h ⊢
    exact parse3D_local h x
  | surfaceDMA =>
    rw [parseBody] at h ⊢
    exact parse3D_local h x
  | drawPrimitives =>
    rw [parseBody] at h ⊢
    exact parse3D_local h x

/-- What the device reads as a command does not depend on what follows. -/
theorem parse_local : Local parse where
  nil := rfl
  append {l v r} h x := by
    cases l with
    | nil => cases h
    | cons code l =>
      obtain ⟨t, ht, hbody⟩ := Option.bind_eq_some_iff.mp h
      rw [List.cons_append, parse, ht, Option.bind_some]
      exact parseBody_local hbody x

/-! ### Execution -/

/-- The commands that the device has all the words of, and the words of the one that it is
reading. -/
def received (words : List ℕ) : List Cmd × List ℕ := decodePrefix parse words.length words

namespace Driver

/-- What the device has executed. -/
def executed (s : Driver) : List Cmd := (received s.world.consumed).1

/-- What the device has of the next command. -/
def reading (s : Driver) : List ℕ := (received s.world.consumed).2

/-- The device takes a word off the ring. -/
def consume (s : Driver) : Driver := { s with world := Act.consume.exec s.world }

/-- Nothing between `STOP` and `NEXT_CMD`. -/
def Drained (s : Driver) : Prop := s.world.dev.fifo fifoNextCmd = s.world.dev.fifo fifoStop

end Driver

variable {s s' : Driver} {w : World}

theorem consumed_begins (hw : Fifo.Reachable w) : w.consumed <+: w.commands.flatten := by
  obtain ⟨N, unread, ahead, rest, -, hc, hf, -⟩ := hw.inv
  rw [hf, hc, List.append_assoc]
  exact List.prefix_append _ _

theorem drained_iff_consumed (hw : Fifo.Reachable w) (hpc : ∀ ss, w.pc ≠ .committing ss) :
    w.dev.fifo fifoNextCmd = w.dev.fifo fifoStop ↔ w.consumed = w.commands.flatten := by
  have hcommitted := hw.inv.committed_eq hpc
  obtain ⟨N, unread, ahead, rest, hL, hc, -, hp⟩ := hw.inv
  rw [hL.next_eq_stop_iff hp.unread_lt, ← hcommitted, hc]
  exact ⟨fun h => by rw [h, List.append_nil], fun h => List.self_eq_append_right.mp h⟩

section Fitting

variable (h : Reachable s) (hfits : ∀ c ∈ s.issued, c.Fits)
include h hfits

theorem Reachable.sent_eq : s.world.commands.flatten = (s.issued.map Call.words).flatten := by
  rw [h.inv.sent, List.map_congr_left fun c hc => (hfits c hc).sent_eq]

theorem Reachable.received_eq {words part : List ℕ} {k : ℕ}
    (hf : Framed Call.words s.issued words k part) :
    received words = ((s.issued.take k).map Call.cmd, part) :=
  parse_local.decodePrefix_eq (fun c hc => ⟨c.words_ne_nil, fun _ =>
    parse_words (hfits c hc) (h.inv.granted c hc)⟩) hf le_rfl

/-- The device has read whole commands as they were issued and part of the next. -/
theorem Reachable.framed : Framed Call.words s.issued s.world.consumed s.executed.length
    s.reading ∧ s.executed = (s.issued.take s.executed.length).map Call.cmd := by
  have hprefix := consumed_begins h.inv.fifo
  rw [h.sent_eq hfits] at hprefix
  obtain ⟨k, part, hf⟩ := Framed.of_prefix (fun c _ => c.words_ne_nil) hprefix
  have hread := h.received_eq hfits hf
  have hexecuted : s.executed = (s.issued.take k).map Call.cmd := congrArg Prod.fst hread
  have hreading : s.reading = part := congrArg Prod.snd hread
  have hk : s.executed.length = k := by
    rw [hexecuted, List.length_map, List.length_take, Nat.min_eq_left hf.le]
  rw [hk, hreading]
  exact ⟨hf, hexecuted⟩

/-- Outside a commit the ring is empty exactly when everything has been executed. -/
theorem Reachable.drained_iff (hpc : ∀ ss, s.world.pc ≠ .committing ss) :
    s.Drained ↔ s.executed = s.issued.map Call.cmd := by
  obtain ⟨hf, hexecuted⟩ := h.framed hfits
  rw [Driver.Drained, drained_iff_consumed h.inv.fifo hpc, h.sent_eq hfits]
  constructor
  · intro heq
    rw [hexecuted, (hf.complete heq).1, List.take_length]
  · intro heq
    have hk : s.executed.length = s.issued.length := by rw [heq, List.length_map]
    have heq := hf.eq
    rw [hf.last hk, hk, List.take_length, List.append_nil] at heq
    exact heq

end Fitting

/-! ### The device alone -/

/-- A word that the device takes while the driver stands still. -/
inductive Consume : Driver → Driver → Prop
  | word {s : Driver} (hl : Act.consume.Legal s.world) : Consume s s.consume

/-- What the driver has done stays. -/
theorem Consume.same (hs : ReflTransGen Consume s s') (h : Reachable s) :
    Reachable s' ∧ s'.issued = s.issued ∧ s'.prog = s.prog ∧ s'.world.pc = s.world.pc := by
  induction hs with
  | refl => exact ⟨h, rfl, rfl, rfl⟩
  | tail _ hc ih =>
    cases hc with
    | word hl => exact ⟨ih.1.consume hl, ih.2⟩

/-- Left alone, the device empties the ring. -/
theorem Reachable.drains (h : Reachable s) : ∃ s', ReflTransGen Consume s s' ∧ s'.Drained := by
  induction hn : s.world.commands.flatten.length - s.world.consumed.length using
    Nat.strong_induction_on generalizing s with
  | _ n ih =>
    by_cases hd : s.Drained
    · exact ⟨s, .refl, hd⟩
    · have hstep := h.consume hd
      have hlength : s.consume.world.consumed.length = s.world.consumed.length + 1 :=
        List.length_append
      have hle := (consumed_begins hstep.inv.fifo).length_le
      change s.consume.world.consumed.length ≤ s.world.commands.flatten.length at hle
      have hless : s.consume.world.commands.flatten.length - s.consume.world.consumed.length <
          n := by
        change s.world.commands.flatten.length - _ < n
        omega
      obtain ⟨s', hs', hd'⟩ := ih _ hless hstep rfl
      exact ⟨s', hs'.head (.word hd), hd'⟩

/-! ### What is executed -/

/-- In every interleaving the device executes the commands that were issued, in that order and
each once: what it has taken off the ring is the words of those that it has executed and a
proper part of the next. Once no commit is under way, the ring is empty exactly when it has
executed all of them. -/
theorem executed_in_order (s : Driver) (h : Reachable s) (hfits : ∀ c ∈ s.issued, c.Fits) :
    let k := s.executed.length
    s.executed = (s.issued.take k).map Call.cmd ∧
      s.world.consumed = ((s.issued.take k).map Call.words).flatten ++ s.reading ∧
      (∀ c ∈ s.issued[k]?, s.reading <+: c.words ∧ s.reading ≠ c.words) ∧
      ((∀ ss, s.world.pc ≠ .committing ss) →
        (s.Drained ↔ s.executed = s.issued.map Call.cmd)) := by
  obtain ⟨hf, hexecuted⟩ := h.framed hfits
  exact ⟨hexecuted, hf.eq, hf.next, h.drained_iff hfits⟩

/-- A context is defined and the device comes to it. -/
theorem executed_in_order_defineContext5 : ∃ s, Reachable s ∧ s.issued = [defineContext5] ∧
    s.executed = [.threeD .contextDefine [5] []] := by
  obtain ⟨s, hs, hpc, hissued⟩ := reachable_issued (show defineContext5.bytes = 12 by decide)
  obtain ⟨s', hrun, hd⟩ := hs.drains
  obtain ⟨hs', hissued', -, hpc'⟩ := Consume.same hrun hs
  rw [hissued] at hissued'
  have hfits : ∀ c ∈ s'.issued, c.Fits := by
    rw [hissued', List.forall_mem_singleton, Call.fits_iff]
    decide
  refine ⟨s', hs', hissued', ?_⟩
  rw [((executed_in_order s' hs' hfits).2.2.2 (hpc'.symm ▸ hpc)).mp hd, hissued']
  rfl

end Cesvga2.Wire
