import Cesvga2.Textures.Full

/-! The memory descriptors behind the textures. `new_texture` and `new_agpref_texture` retain the
descriptor of the memory of a texture, and what deletes a texture releases it. A call may fail at
each of its allocations; then the textures, their reference counts and the retained descriptors are
those from before. -/

namespace Cesvga2.Textures

/-- What a call finds. Each of the two checks against the size limit may turn out either way.
`agpMd` and `bufferMd` are the descriptors that are made, and `otherMd` is what
`withPersistentMemoryDescriptor` gives in place of the descriptor of a texture. -/
structure MdEnv extends Env where
  agpFits : Bool
  fits : Bool
  agpMd : ℕ
  otherMd : ℕ → ℕ
  bufferMd : ℕ

/-- The textures with their descriptors `xfer.md` and the retains of each descriptor. The textures
that calls have returned and that are not deleted yet are kept with their shared objects. -/
structure Holdings where
  store : Store
  md : ℕ → Option ℕ
  retains : ℕ → ℕ
  returned : ℕ → Option ℕ

namespace Holdings

variable (w : Holdings)

def setStore (m : Store) : Holdings := { w with store := m }

def retain (d : ℕ) : Holdings :=
  { w with retains := Function.update w.retains d (w.retains d + 1) }

def release (d : ℕ) : Holdings :=
  { w with retains := Function.update w.retains d (w.retains d - 1) }

def setMd (t : ℕ) (d : Option ℕ) : Holdings := { w with md := Function.update w.md t d }

/-- `xfer.discard`. -/
def discard (t : ℕ) : Holdings :=
  match w.md t with
  | none => w
  | some d => (w.release d).setMd t none

/-! ### Deletion -/

def deref (t n : ℕ) (del : Holdings → Holdings) : Holdings :=
  match w.store.textures t with
  | none => w
  | some x =>
    if (w.store.sysObj x).refcount = n then
      del (w.setStore (w.store.fetchAndAdd x (2 ^ 32 - n)))
    else w.setStore (w.store.fetchAndAdd x (2 ^ 32 - n))

/-- `delete_texture_internal`, with `finalize_texture`. -/
def deleteTextureInternal : ℕ → Holdings → ℕ → ℕ → Holdings
  | 0, w, _, _ => w
  | depth + 1, w, k, t =>
    match w.store.textures t with
    | none => w
    | some x =>
      let w := match x.type.isLinked, x.linkedAgp with
        | true, some l =>
          let w := w.deref l 1 fun w => deleteTextureInternal depth w k l
          w.setStore (w.store.setTexture t (some { x with linkedAgp := none }))
        | _, _ => w
      (w.setStore ((w.store.freeTexture k t x).unlinkTexture k t)).discard t

def deleteTexture (k t : ℕ) : Holdings := deleteTextureInternal (w.store.next + 1) w k t

/-! ### AGP textures -/

/-- `withPersistentMemoryDescriptor` gives the descriptor of a texture itself, retained, and it is
released. -/
def askPersistent (t : ℕ) : Holdings :=
  match w.md t with
  | none => w
  | some d => (w.retain d).release d

variable (e : MdEnv)

/-- The end of `new_agp_texture`, with the descriptor `d` retained. -/
def commonAgp (k offset addr size d : ℕ) : Holdings × Option ℕ :=
  match w.store.commonAgp e.toEnv k offset addr size with
  | (m, none) => ((w.setStore m).release d, none)
  | (m, some t) => ((w.setStore m).setMd t (some d), some t)

def wrapAgp (k offset addr size : ℕ) : Holdings × Option ℕ :=
  if e.region = false then (w, none)
  else if e.addressRange = false then (w, none)
  else (w.retain e.agpMd).commonAgp e k offset addr size e.agpMd

def newAgpTexture (k pixels textureSize : ℕ) : Holdings × Option ℕ :=
  let offset := pixels % pageSize
  let size := roundPage (offset + textureSize)
  let addr := pixels - offset
  let head := (w.store.shareds k).textureList.head?
  if e.agpFits = false then (w, none)
  else if addr = 0 then
    if e.agpBuffer = false then (w, none)
    else (w.retain e.agpMd).commonAgp e k offset e.agpBytes size e.agpMd
  else
    match w.store.searchAgp e.toEnv offset addr size (w.store.shareds k).textureList with
    | .reuse t =>
      let w := w.askPersistent t
      (if head = some t then w
        else w.setStore ((w.store.unlinkTexture k t).linkTextureAtHead k t), some t)
    | .changed t x true =>
      ((w.setStore (w.store.setTexture t (some { x with memChanged := true }))).retain
        (e.otherMd t)).commonAgp e k offset addr size (e.otherMd t)
    | .changed t x false =>
      (w.setStore (w.store.setTexture t (some { x with memChanged := true }))).wrapAgp e k offset
        addr size
    | .absent => w.wrapAgp e k offset addr size

/-! ### The other types -/

def cleanAgp (k : ℕ) : Option ℕ → Holdings
  | none => w
  | some p =>
    match w.store.textures p with
    | none => w
    | some y => if (w.store.sysObj y).refcount = 0 then w.deleteTexture k p else w

/-- `new_texture` once the AGP texture `p` of an out-of-band texture is there, with its labels
`clean3`, `clean2` and `clean1`. -/
def newTextureOver (k : ℕ) (type : TexType) (p : Option ℕ) : Holdings × Option ℕ :=
  if e.fits = false then (w.cleanAgp k p, none)
  else
    match w.store.commonTextureInit k type e.init with
    | (m, none) => ((w.setStore m).cleanAgp k p, none)
    | (m, some t) =>
      let w := w.setStore m
      match m.textures t with
      | none => (w, none)
      | some x =>
        if e.buffer = false then ((w.setStore (m.freeTexture k t x)).cleanAgp k p, none)
        else
          let w := (w.retain e.bufferMd).setMd t (some e.bufferMd)
          if e.clientMap = false then
            let w := (w.release e.bufferMd).setMd t none
            ((w.setStore (m.freeTexture k t x)).cleanAgp k p, none)
          else
            match p with
            | none => (w.setStore (m.linkTextureAtHead k t), some t)
            | some l => (w.setStore ((m.linkAgp t l).linkTextureAtHead k t), some t)

def newTexture (k size₁ pixels textureSize : ℕ) : Holdings × Option ℕ :=
  if pixels ≠ 0 ∧ textureSize ≠ 0 then
    match w.newAgpTexture e k pixels textureSize with
    | (w, none) => (w, none)
    | (w, some p) => w.newTextureOver e k .oob (some p)
  else if size₁ ≠ 0 then w.newTextureOver e k .std none
  else w.newTextureOver e k .vb none

def newAgprefTexture (k pixels₁ pixels₂ textureSize : ℕ) : Holdings × Option ℕ :=
  match w.newAgpTexture e k pixels₂ textureSize with
  | (w, none) => (w, none)
  | (w, some p) =>
    match w.store.commonTextureInit k .agpref e.init with
    | (m, none) => ((w.setStore m).cleanAgp k (some p), none)
    | (m, some t) =>
      match m.textures t, m.textures p with
      | some x, some y =>
        (w.setStore (((m.setTexture t (some { x with
            agpAddr := if pixels₁ ≠ 0 then sub64 pixels₁ y.agpAddr else 0 })).linkAgp t p)
          |>.linkTextureAtHead k t), some t)
      | _, _ => (w.setStore m, none)

end Holdings

/-- The two calls, for the shared object `k`. -/
inductive NewCall where
  | newTexture (k size₁ pixels textureSize : ℕ) (e : MdEnv)
  | newAgprefTexture (k pixels₁ pixels₂ textureSize : ℕ) (e : MdEnv)

namespace NewCall

def home : NewCall → ℕ
  | .newTexture k _ _ _ _ => k
  | .newAgprefTexture k _ _ _ _ => k

def run (w : Holdings) : NewCall → Holdings × Option ℕ
  | .newTexture k size₁ pixels textureSize e => w.newTexture e k size₁ pixels textureSize
  | .newAgprefTexture k pixels₁ pixels₂ textureSize e =>
    w.newAgprefTexture e k pixels₁ pixels₂ textureSize

/-- The holdings after a call; a texture that it returns is noted. -/
def after (w : Holdings) (c : NewCall) : Holdings :=
  match c.run w with
  | (w', none) => w'
  | (w', some t) => { w' with returned := Function.update w'.returned t (some c.home) }

end NewCall

namespace Holdings

def fresh (task : ℕ → ℕ) : Holdings := ⟨Store.fresh task, fun _ => none, fun _ => 0, fun _ => none⟩

/-- The deletion of a texture that a call returned. -/
def delete (w : Holdings) (k t : ℕ) : Holdings :=
  { w.deleteTexture k t with returned := Function.update w.returned t none }

inductive Reachable (task : ℕ → ℕ) : Holdings → Prop where
  | init : Reachable task (fresh task)
  | new {w : Holdings} (h : Reachable task w) (c : NewCall) : Reachable task (c.after w)
  | delete {w : Holdings} {k t : ℕ} (h : Reachable task w) (ht : w.returned t = some k) :
    Reachable task (w.delete k t)

end Holdings

/-! ### The retains -/

namespace Holdings

variable {w : Holdings} {m : Store} {k t u d n : ℕ}

/-- Every retain is that of a live texture. -/
structure Accounts (w : Holdings) : Prop where
  live : ∀ {t d}, w.md t = some d → w.store.Live t
  lt : ∀ {t d}, w.md t = some d → t < w.store.next
  retains : ∀ d, w.retains d = Refs.count (Finset.range w.store.next) w.md d

theorem release_retain : (w.retain d).release d = w := by
  simp [retain, release]

theorem askPersistent_eq : w.askPersistent t = w := by
  unfold askPersistent
  split
  · rfl
  · exact release_retain

namespace Accounts

theorem setStore (h : w.Accounts) (hlive : ∀ {t d}, w.md t = some d → m.Live t)
    (hnext : w.store.next ≤ m.next) : (w.setStore m).Accounts where
  live := hlive
  lt ht := (h.lt ht).trans_le hnext
  retains d := by
    refine (h.retains d).trans (Refs.count_range_of_le hnext fun i hi hmd => ?_).symm
    exact absurd (h.lt hmd) (Nat.not_lt.mpr hi)

theorem md_of_next_le (h : w.Accounts) (ht : w.store.next ≤ t) : w.md t = none := by
  cases hmd : w.md t with
  | none => rfl
  | some d => exact absurd (h.lt hmd) (Nat.not_lt.mpr ht)

/-- A texture gets its descriptor. -/
theorem back (h : w.Accounts) (hlive : w.store.Live t) (ht : t < w.store.next)
    (hmd : w.md t = none) : ((w.retain d).setMd t (some d)).Accounts := by
  have hcases : ∀ {u c}, ((w.retain d).setMd t (some d)).md u = some c →
      u = t ∨ w.md u = some c := by
    intro u c hu
    simp only [setMd, retain, Function.update_apply] at hu
    split_ifs at hu with hut
    · exact .inl hut
    · exact .inr hu
  refine ⟨fun hu => ?_, fun hu => ?_, fun c => ?_⟩
  · rcases hcases hu with rfl | hu
    · exact hlive
    · exact h.live hu
  · rcases hcases hu with rfl | hu
    · exact ht
    · exact h.lt hu
  · have hcount := Refs.count_fill (a := c) (b := d) (Finset.mem_range.mpr ht) hmd
    refine Eq.trans ?_ hcount.symm
    simp only [setMd, retain, Function.update_apply, ← h.retains c]
    by_cases hc : c = d
    · simp [hc]
    · simp [hc, Ne.symm hc]

/-- A texture goes with its descriptor. -/
theorem drop (h : w.Accounts) (hlive : ∀ u, u ≠ t → w.store.Live u → m.Live u)
    (hnext : m.next = w.store.next) : ((w.setStore m).discard t).Accounts := by
  unfold discard
  split
  · next hmd =>
    refine h.setStore (fun {u d} hu => hlive u ?_ (h.live hu)) hnext.ge
    rintro rfl
    exact absurd (hu.symm.trans hmd) (Option.some_ne_none d)
  · next d hmd =>
    replace hmd : w.md t = some d := hmd
    have hcases : ∀ {u c}, (((w.setStore m).release d).setMd t none).md u = some c →
        u ≠ t ∧ w.md u = some c := by
      intro u c hu
      simp only [setMd, release, Function.update_apply] at hu
      split_ifs at hu with hut
      exact ⟨hut, hu⟩
    refine ⟨fun {u c} hu => ?_, fun {u c} hu => ?_, fun c => ?_⟩
    · exact hlive u (hcases hu).1 (h.live (hcases hu).2)
    · exact (h.lt (hcases hu).2).trans_eq hnext.symm
    · have hcount := Refs.count_empty (a := c) (Finset.mem_range.mpr (h.lt hmd)) hmd
      have hretains := h.retains c
      change Function.update w.retains d (w.retains d - 1) c =
        Refs.count (Finset.range m.next) (Function.update w.md t none) c
      rw [hnext, Function.update_apply]
      split_ifs with hc
      · rw [hc] at hcount hretains ⊢
        rw [if_pos rfl] at hcount
        omega
      · rw [if_neg (Ne.symm hc)] at hcount
        omega

end Accounts

/-! ### Deletion -/

theorem store_discard : (w.discard t).store = w.store := by
  unfold discard
  split <;> rfl

theorem returned_discard : (w.discard t).returned = w.returned := by
  unfold discard
  split <;> rfl

theorem deref_induction {Q : Holdings → Prop} {del : Holdings → Holdings}
    (hw : Q w) (hadd : ∀ x n, Q (w.setStore (w.store.fetchAndAdd x n)))
    (hdel : ∀ v, Q v → Q (del v)) : Q (w.deref t n del) := by
  unfold deref
  split
  · exact hw
  · split_ifs
    · exact hdel _ (hadd ..)
    · exact hadd ..

theorem store_deref {del : Holdings → Holdings} {del' : Store → Store}
    (hdel : ∀ w : Holdings, (del w).store = del' w.store) :
    (w.deref t n del).store = w.store.deref t n del' := by
  rw [deref, Store.deref]
  cases w.store.textures t with
  | none => rfl
  | some x =>
    dsimp only
    split_ifs
    · exact hdel _
    · rfl

/-- The registries do not depend on the descriptors. -/
theorem store_deleteTextureInternal (depth : ℕ) : ∀ (w : Holdings) (t : ℕ),
    (deleteTextureInternal depth w k t).store = w.store.deleteTextureInternal depth k t := by
  induction depth with
  | zero => exact fun _ _ => rfl
  | succ depth ih =>
    intro w t
    rw [deleteTextureInternal, Store.deleteTextureInternal]
    cases hx : w.store.textures t with
    | none => rfl
    | some x =>
      dsimp only
      rw [store_discard]
      cases x.type.isLinked with
      | false => rfl
      | true =>
        cases x.linkedAgp with
        | none => rfl
        | some l =>
          have hderef : (w.deref l 1 fun w => deleteTextureInternal depth w k l).store =
              w.store.deref l 1 fun m => m.deleteTextureInternal depth k l :=
            store_deref fun w => ih w l
          dsimp only [setStore]
          rw [hderef]

theorem returned_deleteTextureInternal (depth : ℕ) : ∀ (w : Holdings) (t : ℕ),
    (deleteTextureInternal depth w k t).returned = w.returned := by
  induction depth with
  | zero => exact fun _ _ => rfl
  | succ depth ih =>
    intro w t
    rw [deleteTextureInternal]
    cases w.store.textures t with
    | none => rfl
    | some x =>
      dsimp only
      rw [returned_discard]
      cases x.type.isLinked with
      | false => rfl
      | true =>
        cases x.linkedAgp with
        | none => rfl
        | some l =>
          exact deref_induction (Q := fun v => v.returned = w.returned) rfl (fun _ _ => rfl)
            fun v hv => (ih v l).trans hv

theorem Accounts.delete (depth : ℕ) : ∀ {w : Holdings} (_ : w.Accounts) (t : ℕ),
    (deleteTextureInternal depth w k t).Accounts := by
  induction depth with
  | zero => exact fun h _ => h
  | succ depth ih =>
    intro w h t
    rw [deleteTextureInternal]
    cases hx : w.store.textures t with
    | none => exact h
    | some x =>
      dsimp only
      refine Accounts.drop (m := _) ?_ (fun u hu hlive => ?_) ?_
      · cases x.type.isLinked with
        | false => exact h
        | true =>
          cases x.linkedAgp with
          | none => exact h
          | some l =>
            have hdrop : (w.deref l 1 fun w => deleteTextureInternal depth w k l).Accounts :=
              deref_induction h (fun _ _ => h.setStore h.live le_rfl) fun v hv => ih hv l
            refine hdrop.setStore (fun {u d} hu => ?_) le_rfl
            obtain ⟨y, hy⟩ := hdrop.live hu
            by_cases hut : u = t
            · rw [hut]
              exact ⟨_, Store.setTexture_self ..⟩
            · exact ⟨y, by rw [Store.setTexture_textures, if_neg hut, hy]⟩
      · obtain ⟨y, hy⟩ := hlive
        refine ⟨y, ?_⟩
        change (Store.freeTexture _ k t x).textures u = some y
        rw [Store.freeTexture_textures, Function.update_of_ne hu, hy]
      · exact Store.freeTexture_next

/-! ### The calls without the descriptors -/

/-- The registries and the texture that a call leaves. -/
def toStore (r : Holdings × Option ℕ) : Store × Option ℕ := (r.1.store, r.2)

section Calls

variable {e : MdEnv} {offset addr size : ℕ}

theorem toStore_commonAgp :
    toStore (w.commonAgp e k offset addr size d) =
      w.store.commonAgp e.toEnv k offset addr size := by
  unfold commonAgp
  rcases w.store.commonAgp e.toEnv k offset addr size with ⟨m, _ | t⟩ <;> rfl

theorem toStore_wrapAgp : toStore (w.wrapAgp e k offset addr size) =
    w.store.wrapAgp e.toEnv k offset addr size := by
  unfold wrapAgp Store.wrapAgp
  split_ifs
  · rfl
  · rfl
  · exact toStore_commonAgp

theorem toStore_newAgpTexture {pixels textureSize : ℕ}
    (hfits : e.agpFits = decide (roundPage (pixels % pageSize + textureSize) ≤ e.limit)) :
    toStore (w.newAgpTexture e k pixels textureSize) =
      w.store.newAgpTexture e.toEnv k pixels textureSize := by
  have hlimit : e.agpFits = false ↔
      e.limit < roundPage (pixels % pageSize + textureSize) := by
    rw [hfits, decide_eq_false_iff_not, Nat.not_le]
  unfold newAgpTexture Store.newAgpTexture
  simp only [hlimit]
  split_ifs
  · rfl
  · rfl
  · exact toStore_commonAgp
  cases w.store.searchAgp e.toEnv (pixels % pageSize) (pixels - pixels % pageSize)
    (roundPage (pixels % pageSize + textureSize)) (w.store.shareds k).textureList with
  | absent => exact toStore_wrapAgp
  | reuse t =>
    simp only [askPersistent_eq, toStore]
    split_ifs <;> rfl
  | changed t x md =>
    cases md with
    | false => exact toStore_wrapAgp
    | true => exact toStore_commonAgp

theorem store_cleanAgp (p : Option ℕ) : (w.cleanAgp k p).store = w.store.cleanAgp k p := by
  unfold cleanAgp Store.cleanAgp
  cases p with
  | none => rfl
  | some p =>
    cases hy : w.store.textures p with
    | none => simp only [hy]
    | some y =>
      simp only [hy]
      split_ifs
      · exact store_deleteTextureInternal ..
      · rfl

theorem toStore_newTextureOver {type : TexType} {p : Option ℕ}
    (hfits : e.fits = decide (size ≤ e.limit)) :
    toStore (w.newTextureOver e k type p) = w.store.newTextureOver e.toEnv k size type p := by
  have hlimit : e.fits = false ↔ e.limit < size := by
    rw [hfits, decide_eq_false_iff_not, Nat.not_le]
  have hclean : ∀ w : Holdings,
      toStore (w.cleanAgp k p, none) = (w.store.cleanAgp k p, none) :=
    fun w => Prod.ext (store_cleanAgp p) rfl
  unfold newTextureOver Store.newTextureOver
  by_cases hsize : e.limit < size
  · rw [if_pos (hlimit.mpr hsize), if_pos hsize]
    exact hclean w
  rw [if_neg (mt hlimit.mp hsize), if_neg hsize]
  rcases w.store.commonTextureInit k type e.init with ⟨m, _ | t⟩
  · exact hclean (w.setStore m)
  dsimp only
  cases m.textures t with
  | none => rfl
  | some x =>
    dsimp only
    cases e.buffer with
    | false =>
      rw [if_pos rfl, if_pos (.inl rfl)]
      exact hclean _
    | true =>
      cases e.clientMap with
      | false =>
        rw [if_neg nofun, if_pos rfl, if_pos (.inr rfl)]
        exact hclean _
      | true =>
        rw [if_neg nofun, if_neg nofun, if_neg (not_or.mpr ⟨nofun, nofun⟩)]
        cases p <;> rfl

/-- What the descriptors do does not change what a call makes. -/
theorem toStore_newTexture {size₀ size₁ pixels textureSize : ℕ}
    (hagp : e.agpFits = decide (roundPage (pixels % pageSize + textureSize) ≤ e.limit))
    (hfits : e.fits = decide (roundPage (size₀ +
      if pixels ≠ 0 ∧ textureSize ≠ 0 ∨ size₁ ≠ 0 then 0x900 else 0x80) ≤ e.limit)) :
    toStore (w.newTexture e k size₁ pixels textureSize) =
      w.store.newTexture e.toEnv k size₀ size₁ pixels textureSize := by
  unfold newTexture Store.newTexture
  by_cases hoob : pixels ≠ 0 ∧ textureSize ≠ 0
  · rw [if_pos hoob, if_pos hoob, ← toStore_newAgpTexture hagp]
    rw [if_pos (.inl hoob)] at hfits
    rcases w.newAgpTexture e k pixels textureSize with ⟨w₁, _ | p⟩
    · rfl
    · exact toStore_newTextureOver hfits
  · rw [if_neg hoob, if_neg hoob]
    by_cases hstd : size₁ ≠ 0
    · rw [if_pos (.inr hstd)] at hfits
      rw [if_pos hstd, if_pos hstd]
      exact toStore_newTextureOver hfits
    · rw [if_neg (not_or.mpr ⟨hoob, hstd⟩)] at hfits
      rw [if_neg hstd, if_neg hstd]
      exact toStore_newTextureOver hfits

theorem toStore_newAgprefTexture {pixels₁ pixels₂ textureSize : ℕ}
    (hagp : e.agpFits = decide (roundPage (pixels₂ % pageSize + textureSize) ≤ e.limit)) :
    toStore (w.newAgprefTexture e k pixels₁ pixels₂ textureSize) =
      w.store.newAgprefTexture e.toEnv k pixels₁ pixels₂ textureSize := by
  unfold newAgprefTexture Store.newAgprefTexture
  rw [← toStore_newAgpTexture hagp]
  rcases w.newAgpTexture e k pixels₂ textureSize with ⟨w₁, _ | p⟩
  · rfl
  dsimp only [toStore]
  rcases w₁.store.commonTextureInit k .agpref e.init with ⟨m, _ | t⟩
  · exact Prod.ext (store_cleanAgp (w := w₁.setStore m) (some p)) rfl
  · dsimp only
    cases m.textures t with
    | none => rfl
    | some x => cases m.textures p <;> rfl

end Calls

end Holdings

end Cesvga2.Textures
