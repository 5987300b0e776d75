import Mathlib.Data.List.Basic
import Mathlib.Data.List.Infix

/-! Runs of a machine that takes one action at a time: what holds of all the actions of a run,
each at the state in which it is taken, and of all the states on the way. -/

namespace Cesvga2.Runs

variable {S A : Type*} (exec : S → A → S) {C Q : S → A → Prop} {I P : S → Prop} {s : S} {a : A}
  {acts : List A}

/-- `C` holds of every action at the state in which it is taken. -/
def Each (C : S → A → Prop) (s : S) (acts : List A) : Prop :=
  ∀ done a, done ++ [a] <+: acts → C (done.foldl exec s) a

/-- `P` holds of the state before, between and after the actions. -/
def Always (P : S → Prop) (s : S) (acts : List A) : Prop :=
  ∀ done, done <+: acts → P (done.foldl exec s)

variable {exec}

theorem each_nil : Each exec C s [] := by
  intro done a h
  simp at h

theorem each_cons : Each exec C s (a :: acts) ↔ C s a ∧ Each exec C (exec s a) acts := by
  constructor
  · intro h
    exact ⟨h [] a (by simp), fun done b hb => h (a :: done) b (by simpa using hb)⟩
  · rintro ⟨ha, hrest⟩ done b hb
    cases done with
    | nil =>
      obtain ⟨rfl, -⟩ := List.cons_prefix_cons.mp hb
      exact ha
    | cons c done =>
      obtain ⟨rfl, htail⟩ := List.cons_prefix_cons.mp hb
      exact hrest done b htail

theorem always_nil : Always exec P s [] ↔ P s := by
  simp [Always]

theorem always_cons : Always exec P s (a :: acts) ↔ P s ∧ Always exec P (exec s a) acts := by
  constructor
  · intro h
    exact ⟨h [] (List.nil_prefix), fun done hd => h (a :: done) (by simpa using hd)⟩
  · rintro ⟨hs, hrest⟩ done hd
    cases done with
    | nil => exact hs
    | cons c done =>
      obtain ⟨rfl, htail⟩ := List.cons_prefix_cons.mp hd
      exact hrest done htail

/-- What every action keeps holds along the run. -/
theorem foldl_of_step (hstep : ∀ s a, I s → I (exec s a)) (hs : I s) (acts : List A) :
    I (acts.foldl exec s) := by
  induction acts generalizing s with
  | nil => exact hs
  | cons a acts ih => exact ih (hstep s a hs)

/-- What every action keeps that meets the condition holds along a run of such actions. -/
theorem foldl_of_each (hs : I s) (hkeep : ∀ s a, I s → C s a → I (exec s a))
    (hacts : Each exec C s acts) : I (acts.foldl exec s) := by
  induction acts generalizing s with
  | nil => exact hs
  | cons a acts ih =>
    obtain ⟨ha, hrest⟩ := each_cons.mp hacts
    exact ih (hkeep s a hs ha) hrest

/-- What follows from the invariant and the condition holds of every action. -/
theorem each_of_each (hs : I s) (himp : ∀ s a, I s → C s a → Q s a)
    (hkeep : ∀ s a, I s → C s a → I (exec s a)) (hacts : Each exec C s acts) :
    Each exec Q s acts := by
  induction acts generalizing s with
  | nil => exact each_nil
  | cons a acts ih =>
    obtain ⟨ha, hrest⟩ := each_cons.mp hacts
    exact each_cons.mpr ⟨himp s a hs ha, ih (hkeep s a hs ha) hrest⟩

/-- Two conditions on actions that agree where the invariant holds agree along a run, if the
invariant is kept as long as one of them holds. -/
theorem each_iff_each (hs : I s) (hiff : ∀ s a, I s → (Q s a ↔ C s a))
    (hkeep : ∀ s a, I s → C s a → I (exec s a)) : Each exec Q s acts ↔ Each exec C s acts := by
  induction acts generalizing s with
  | nil => exact iff_of_true each_nil each_nil
  | cons a acts ih =>
    rw [each_cons, each_cons, hiff s a hs]
    exact and_congr_right fun hc => ih (hkeep s a hs hc)

/-- A condition that looks at the state through `f` only, along which the run is a run of another
machine. -/
theorem each_map {T : Type*} {exec' : T → A → T} {C : T → A → Prop} (f : S → T)
    (hf : ∀ s a, f (exec s a) = exec' (f s) a) :
    Each exec (fun s a => C (f s) a) s acts ↔ Each exec' C (f s) acts := by
  induction acts generalizing s with
  | nil => exact iff_of_true each_nil each_nil
  | cons a acts ih => rw [each_cons, each_cons, ih, hf]

/-- A property of the states holds all along exactly if every action meets the condition. -/
theorem always_iff_each (hs : I s) (hgood : ∀ s, I s → P s)
    (hkeep : ∀ s a, I s → C s a → I (exec s a))
    (hbreak : ∀ s a, I s → ¬ C s a → ¬ P (exec s a)) :
    Always exec P s acts ↔ Each exec C s acts := by
  induction acts generalizing s with
  | nil => exact iff_of_true (always_nil.mpr (hgood s hs)) each_nil
  | cons a acts ih =>
    rw [always_cons, each_cons, and_iff_right (hgood s hs)]
    by_cases hc : C s a
    · rw [ih (hkeep s a hs hc), and_iff_right hc]
    · exact iff_of_false (fun h => hbreak s a hs hc (h [] List.nil_prefix)) (fun h => hc h.1)

/-- A property of the last state tells whether every action met the condition, if the damage that
one action does stays. -/
theorem foldl_iff_each {J : S → Prop} (hs : I s) (hgood : ∀ s, I s → P s)
    (hbad : ∀ s, J s → ¬ P s) (hkeep : ∀ s a, I s → C s a → I (exec s a))
    (hbreak : ∀ s a, I s → ¬ C s a → J (exec s a)) (hstay : ∀ s a, J s → J (exec s a)) :
    P (acts.foldl exec s) ↔ Each exec C s acts := by
  induction acts generalizing s with
  | nil => exact iff_of_true (hgood s hs) each_nil
  | cons a acts ih =>
    rw [List.foldl_cons, each_cons]
    by_cases hc : C s a
    · rw [ih (hkeep s a hs hc), and_iff_right hc]
    · refine iff_of_false (hbad _ ?_) (fun h => hc h.1)
      exact foldl_of_step hstay (hbreak s a hs hc) acts

/-! ### Actions that keep others apart -/

variable (exec) in
/-- Some action of the run meets `C` at the state in which it is taken. -/
def Somewhere (C : S → A → Prop) (s : S) (acts : List A) : Prop :=
  ∃ done a, done ++ [a] <+: acts ∧ C (done.foldl exec s) a

variable (exec) in
/-- Between an action with `T` and a later one with `U` there is one with `R`. -/
def Between (T R U : S → A → Prop) (s : S) (acts : List A) : Prop :=
  ∀ before a mid b, before ++ a :: (mid ++ [b]) <+: acts → T (before.foldl exec s) a →
    U (mid.foldl exec (exec (before.foldl exec s) a)) b →
      Somewhere exec R (exec (before.foldl exec s) a) mid

variable {T R U : S → A → Prop} {H : S → Prop}

/-- `T` brings about what only `R` ends, so that `R` comes before an action that has it ended. -/
theorem between_of_each (hs : I s) (hstep : ∀ s a, I s → I (exec s a))
    (htake : ∀ s a, I s → T s a → H (exec s a))
    (hkeep : ∀ s a, I s → H s → ¬ R s a → H (exec s a))
    (huse : Each exec (fun s a => U s a → ¬ H s) s acts) : Between exec T R U s acts := by
  intro before a mid b hpre hT hU
  by_contra hnone
  have hbefore : I (before.foldl exec s) := foldl_of_step hstep hs before
  have hmid : Each exec (fun s a => ¬ R s a) (exec (before.foldl exec s) a) mid :=
    fun done c hc hR => hnone ⟨done, c, hc, hR⟩
  have hheld := foldl_of_each (I := fun s => I s ∧ H s)
    ⟨hstep _ a hbefore, htake _ a hbefore hT⟩
    (fun s c h hR => ⟨hstep s c h.1, hkeep s c h.1 h.2 hR⟩) hmid
  refine huse (before ++ a :: mid) b (by simpa using hpre) ?_ ?_
  · simpa using hU
  · simpa using hheld.2

/-- What holds after a run and not before it was brought about by one action, and has held
since. -/
theorem exists_gain (hs : ¬ H s) (hdone : H (acts.foldl exec s)) :
    ∃ before a mid, acts = before ++ a :: mid ∧ ¬ H (before.foldl exec s) ∧
      Always exec H (exec (before.foldl exec s) a) mid := by
  induction acts using List.reverseRecOn with
  | nil => exact absurd hdone hs
  | append_singleton acts c ih =>
    rw [List.foldl_append] at hdone
    by_cases hlast : H (acts.foldl exec s)
    · obtain ⟨before, a, mid, rfl, hbefore, hmid⟩ := ih hlast
      refine ⟨before, a, mid ++ [c], by simp, hbefore, fun done hd => ?_⟩
      rcases List.prefix_concat_iff.mp hd with rfl | hd
      · simpa using hdone
      · exact hmid done hd
    · exact ⟨acts, c, [], rfl, hlast, always_nil.mpr hdone⟩

/-- If only `T` brings about what `R` ends, and `R` comes between, it has ended. -/
theorem each_of_between (hs : I s) (hstep : ∀ s a, I s → I (exec s a)) (hnot : ¬ H s)
    (hgain : ∀ s a, I s → ¬ H s → H (exec s a) → T s a)
    (hlose : ∀ s a, I s → R s a → ¬ H (exec s a)) (hbetween : Between exec T R U s acts) :
    Each exec (fun s a => U s a → ¬ H s) s acts := by
  intro done b hpre hU hH
  obtain ⟨before, a, mid, rfl, hbefore, hmid⟩ := exists_gain hnot hH
  have hinv : I (before.foldl exec s) := foldl_of_step hstep hs before
  have hT : T (before.foldl exec s) a := hgain _ a hinv hbefore (hmid [] List.nil_prefix)
  obtain ⟨ahead, c, hc, hR⟩ := hbetween before a mid b (by simpa using hpre) hT (by simpa using hU)
  have hended := hlose _ c (foldl_of_step hstep (hstep _ a hinv) ahead) hR
  refine hended ?_
  simpa using hmid _ hc

end Cesvga2.Runs
