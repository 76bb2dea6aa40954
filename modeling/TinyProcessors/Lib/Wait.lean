import Mathlib

namespace TinyProcessors

/-- What stands in an entry of a table of processes. -/
inductive Life (κ : Type)
  | free
  | alive (awaits : Option Nat)
  | zombie (code : κ)

def Life.lives : Life κ → Bool
  | .alive _ => true
  | _ => false

theorem Life.ne_free {l : Life κ} (h : l.lives = true) : l ≠ .free := by
  rintro rfl
  cases h

structure Member (κ : Type) where
  life : Life κ
  id : Nat
  parent : Nat

/-- The wait protocol: the table, the waits, the codes returned and a count. -/
@[ext] structure Families (ι κ : Type) where
  member : ι → Member κ
  pending : ι → Option Nat
  returned : List (Nat × κ)
  born : Nat

variable {ι κ : Type} [DecidableEq ι]

def Families.set (f : Families ι κ) (i : ι) (l : Life κ) : Families ι κ :=
  { f with member := Function.update f.member i { f.member i with life := l } }

def Families.settle (f : Families ι κ) (p : ι) (c : Option Nat) : Families ι κ :=
  { f with pending := Function.update f.pending p c }

def Families.give (f : Families ι κ) (c : Nat) (code : κ) : Families ι κ :=
  { f with returned := f.returned ++ [(c, code)] }

def Families.add (f : Families ι κ) (i : ι) (parent : Nat) : Families ι κ where
  member := Function.update f.member i ⟨.alive none, f.born + 1, parent⟩
  pending := Function.update f.pending i none
  returned := f.returned
  born := f.born + 1

/-- The children of `p` that have ended are let go. -/
def Families.disown (f : Families ι κ) (p : ι) : Families ι κ :=
  { f with member := fun i => match (f.member i).life with
      | .zombie _ => if (f.member i).parent = (f.member p).id then { f.member i with life := .free }
        else f.member i
      | _ => f.member i }

/-- The protocol's steps. -/
inductive Families.Step (f : Families ι κ) : Families ι κ → Prop
  | birth (hi : (f.member i).life = .free)
      (hp : parent = 0 ∨ ∃ p, (f.member p).life.lives = true ∧ (f.member p).id = parent) :
      f.Step (f.add i parent)
  | wait (hp : (f.member p).life = .alive none) (hi : (f.member i).life.lives = true)
      (hc : (f.member i).id = c) (hpar : (f.member i).parent = (f.member p).id) :
      f.Step ((f.set p (.alive (some c))).settle p (some c))
  | collect (hp : (f.member p).life = .alive none) (hi : (f.member i).life = .zombie code)
      (hc : (f.member i).id = c) (hpar : (f.member i).parent = (f.member p).id) :
      f.Step (((f.settle p none).set i .free).give c code)
  | disown (hp : (f.member p).life = .alive none) : f.Step ((f.settle p none).disown p)
  | leave (hp : (f.member p).life = .alive none)
      (hz : ∀ i code, (f.member i).life = .zombie code → (f.member i).parent ≠ (f.member p).id)
      (hn : ∀ i, (f.member i).life.lives = true → (f.member i).id ≠ (f.member p).parent) :
      f.Step (f.set p .free)
  | die (hp : (f.member p).life = .alive none)
      (hz : ∀ i code, (f.member i).life = .zombie code → (f.member i).parent ≠ (f.member p).id)
      (hq : (f.member q).life = .alive w) (hid : (f.member q).id = (f.member p).parent) :
      f.Step (if w = some (f.member p).id then (f.set q (.alive none)).set p (.zombie code)
        else f.set p (.zombie code))
  | answer : f.Step (f.settle p none)

structure Families.Sound (f : Families ι κ) : Prop where
  known : (f.member i).life ≠ .free → 0 < (f.member i).id ∧ (f.member i).id ≤ f.born ∧
    (f.member i).parent < (f.member i).id
  unique : (f.member i).life ≠ .free → (f.member j).life ≠ .free →
    (f.member i).id = (f.member j).id → i = j
  mourned : (f.member i).life = .zombie code →
    ∃ p, (f.member p).life.lives = true ∧ (f.member p).id = (f.member i).parent
  awaited : (f.member p).life = .alive (some c) → ∃ i, (f.member i).life.lives = true ∧
    (f.member i).id = c ∧ (f.member i).parent = (f.member p).id
  pending : (f.member p).life.lives = true → f.pending p = some c →
    ∃ i, (f.member i).life ≠ .free ∧ (f.member i).id = c ∧ (f.member i).parent = (f.member p).id
  gone : r ∈ f.returned → r.1 ≤ f.born ∧ ∀ i, (f.member i).life ≠ .free → (f.member i).id ≠ r.1
  once : (f.returned.map Prod.fst).Nodup

theorem Families.set_self (f : Families ι κ) (i : ι) (l : Life κ) :
    (f.set i l).member i = { f.member i with life := l } := Function.update_self _ _ _

theorem Families.set_of_ne (f : Families ι κ) (l : Life κ) (h : j ≠ i) :
    (f.set i l).member j = f.member j := Function.update_of_ne h _ _

theorem Families.set_id (f : Families ι κ) (i j : ι) (l : Life κ) :
    ((f.set i l).member j).id = (f.member j).id := by
  by_cases h : j = i
  · rw [h, set_self]
  · rw [set_of_ne _ _ h]

theorem Families.set_parent (f : Families ι κ) (i j : ι) (l : Life κ) :
    ((f.set i l).member j).parent = (f.member j).parent := by
  by_cases h : j = i
  · rw [h, set_self]
  · rw [set_of_ne _ _ h]

theorem Families.set_comm (f : Families ι κ) (l l' : Life κ) (h : i ≠ j) :
    (f.set i l).set j l' = (f.set j l').set i l := by
  have hm : ((f.set i l).set j l').member = ((f.set j l').set i l).member := by
    unfold set
    dsimp only
    rw [Function.update_of_ne h.symm, Function.update_of_ne h]
    exact Function.update_comm h _ _ _
  exact Families.ext hm rfl rfl rfl

theorem Families.settle_pending {f : Families ι κ} (h : (f.settle p d).pending i = some c) :
    (i = p ∧ d = some c) ∨ f.pending i = some c := by
  rw [settle] at h
  dsimp only at h
  by_cases hi : i = p
  · rw [hi, Function.update_self] at h
    exact .inl ⟨hi, h⟩
  · rw [Function.update_of_ne hi] at h
    exact .inr h

structure Families.Renews (f f' : Families ι κ) : Prop where
  id : ∀ i, (f'.member i).id = (f.member i).id
  parent : ∀ i, (f'.member i).parent = (f.member i).parent
  used : ∀ i, (f'.member i).life ≠ .free → (f.member i).life ≠ .free
  returned : f'.returned = f.returned
  born : f'.born = f.born

omit [DecidableEq ι] in
theorem Families.Sound.renew {f f' : Families ι κ} (h : f.Sound) (hk : f.Renews f')
    (hm : ∀ i code, (f'.member i).life = .zombie code →
      ∃ p, (f'.member p).life.lives = true ∧ (f.member p).id = (f.member i).parent)
    (ha : ∀ p c, (f'.member p).life = .alive (some c) → ∃ i, (f'.member i).life.lives = true ∧
      (f.member i).id = c ∧ (f.member i).parent = (f.member p).id)
    (hp : ∀ p c, (f'.member p).life.lives = true → f'.pending p = some c →
      ∃ i, (f'.member i).life ≠ .free ∧ (f.member i).id = c ∧
        (f.member i).parent = (f.member p).id) : f'.Sound := by
  constructor
  · intro i hi
    rw [hk.id, hk.parent, hk.born]
    exact h.known (hk.used i hi)
  · intro i j hi hj he
    rw [hk.id, hk.id] at he
    exact h.unique (hk.used i hi) (hk.used j hj) he
  · intro i code hi
    simp only [hk.id, hk.parent]
    exact hm i code hi
  · intro p c hc
    simp only [hk.id, hk.parent]
    exact ha p c hc
  · intro p c hw hc
    simp only [hk.id, hk.parent]
    exact hp p c hw hc
  · intro r hr
    rw [hk.returned] at hr
    rw [hk.born]
    obtain ⟨hle, hno⟩ := h.gone hr
    refine ⟨hle, fun i hi => ?_⟩
    rw [hk.id]
    exact hno i (hk.used i hi)
  · rw [hk.returned]
    exact h.once

theorem Families.Sound.settle {f : Families ι κ} (h : f.Sound)
    (hd : ∀ c, d = some c → (f.member p).life.lives = true → ∃ i, (f.member i).life ≠ .free ∧
      (f.member i).id = c ∧ (f.member i).parent = (f.member p).id) : (f.settle p d).Sound := by
  refine h.renew ⟨fun _ => rfl, fun _ => rfl, fun _ => id, rfl, rfl⟩ (fun _ _ => h.mourned)
    (fun _ _ => h.awaited) fun q c hq hc => ?_
  rcases settle_pending hc with ⟨rfl, hdc⟩ | hc
  · exact hd c hdc hq
  · exact h.pending hq hc

theorem Families.Sound.answer {f : Families ι κ} (h : f.Sound) (p : ι) :
    (f.settle p none).Sound :=
  h.settle fun c hc => by cases hc

theorem Families.Sound.add {f : Families ι κ} (h : f.Sound) (hi : (f.member i).life = .free)
    (hp : parent = 0 ∨ ∃ p, (f.member p).life.lives = true ∧ (f.member p).id = parent) :
    (f.add i parent).Sound := by
  have hself : (f.add i parent).member i = ⟨.alive none, f.born + 1, parent⟩ :=
    Function.update_self _ _ _
  have hother {j : ι} (hj : j ≠ i) : (f.add i parent).member j = f.member j :=
    Function.update_of_ne hj _ _
  have hne {j : ι} (hj : (f.member j).life ≠ .free) : j ≠ i := by
    rintro rfl
    exact hj hi
  have hbound : parent ≤ f.born := by
    rcases hp with rfl | ⟨p, hl, rfl⟩
    · exact Nat.zero_le _
    · exact (h.known (Life.ne_free hl)).2.1
  constructor
  · intro j hj
    by_cases hji : j = i
    · rw [hji, hself]
      exact ⟨Nat.succ_pos _, Nat.le_refl _, Nat.lt_succ_of_le hbound⟩
    · rw [hother hji] at hj ⊢
      obtain ⟨h0, hle, hlt⟩ := h.known hj
      exact ⟨h0, Nat.le_succ_of_le hle, hlt⟩
  · intro j k hj hk he
    by_cases hji : j = i <;> by_cases hki : k = i
    · rw [hji, hki]
    · rw [hother hki] at hk he
      rw [hji, hself] at he
      exact absurd (he ▸ (h.known hk).2.1) (Nat.not_succ_le_self _)
    · rw [hother hji] at hj he
      rw [hki, hself] at he
      exact absurd (he ▸ (h.known hj).2.1) (Nat.not_succ_le_self _)
    · rw [hother hji] at hj he
      rw [hother hki] at hk he
      exact h.unique hj hk he
  · intro j code hj
    have hji : j ≠ i := by
      rintro rfl
      rw [hself] at hj
      cases hj
    rw [hother hji] at hj ⊢
    obtain ⟨p, hw, hid⟩ := h.mourned hj
    refine ⟨p, ?_⟩
    rw [hother (hne (Life.ne_free hw))]
    exact ⟨hw, hid⟩
  · intro p c hc
    have hpi : p ≠ i := by
      rintro rfl
      rw [hself] at hc
      cases hc
    rw [hother hpi] at hc ⊢
    obtain ⟨j, hw, hid⟩ := h.awaited hc
    refine ⟨j, ?_⟩
    rw [hother (hne (Life.ne_free hw))]
    exact ⟨hw, hid⟩
  · intro p c hw hc
    have hpi : p ≠ i := by
      rintro rfl
      have hnone : (f.add p parent).pending p = none := Function.update_self _ _ _
      cases hnone.symm.trans hc
    have hc' : f.pending p = some c := (Function.update_of_ne hpi _ _).symm.trans hc
    rw [hother hpi] at hw ⊢
    obtain ⟨j, hu, hid⟩ := h.pending hw hc'
    refine ⟨j, ?_⟩
    rw [hother (hne hu)]
    exact ⟨hu, hid⟩
  · intro r hr
    obtain ⟨hle, hno⟩ := h.gone hr
    refine ⟨Nat.le_succ_of_le hle, fun j hj => ?_⟩
    by_cases hji : j = i
    · rw [hji, hself]
      exact (Nat.lt_succ_of_le hle).ne'
    · rw [hother hji] at hj ⊢
      exact hno j hj
  · exact h.once

theorem Families.Sound.relive {f : Families ι κ} (h : f.Sound)
    (hp : (f.member p).life.lives = true)
    (hw : ∀ c, w = some c → ∃ i, (f.member i).life.lives = true ∧ (f.member i).id = c ∧
      (f.member i).parent = (f.member p).id) : (f.set p (.alive w)).Sound := by
  have hlives (j : ι) : ((f.set p (.alive w)).member j).life.lives = (f.member j).life.lives := by
    by_cases hj : j = p
    · rw [hj, set_self, hp]
      rfl
    · rw [set_of_ne _ _ hj]
  have hused (j : ι) : ((f.set p (.alive w)).member j).life ≠ .free ↔
      (f.member j).life ≠ .free := by
    by_cases hj : j = p
    · rw [hj, set_self]
      exact ⟨fun _ => Life.ne_free hp, fun _ => by rintro ⟨⟩⟩
    · rw [set_of_ne _ _ hj]
  refine h.renew ⟨fun j => f.set_id p j _, fun j => f.set_parent p j _, fun j => (hused j).1, rfl,
    rfl⟩ ?_ ?_ ?_
  · intro i code hi
    have hip : i ≠ p := by
      rintro rfl
      rw [set_self] at hi
      cases hi
    rw [set_of_ne _ _ hip] at hi
    simp only [hlives]
    exact h.mourned hi
  · intro q c hq
    simp only [hlives]
    by_cases hqp : q = p
    · rw [hqp, set_self] at hq
      rw [hqp]
      exact hw c (Life.alive.inj hq)
    · rw [set_of_ne _ _ hqp] at hq
      exact h.awaited hq
  · intro q c hq hc
    simp only [hused]
    exact h.pending ((hlives q).symm.trans hq) hc

theorem Families.Sound.unmourned {f : Families ι κ} (h : f.Sound)
    (hz : ∀ i code, (f.member i).life = .zombie code → (f.member i).parent ≠ (f.member p).id)
    (hi : ((f.set p l).member i).life = .zombie code) (hip : i ≠ p) :
    ∃ q, ((f.set p l).member q).life.lives = true ∧ (f.member q).id = (f.member i).parent := by
  rw [set_of_ne _ _ hip] at hi
  obtain ⟨q, hq, hid⟩ := h.mourned hi
  have hqp : q ≠ p := by
    rintro rfl
    exact hz i code hi hid.symm
  refine ⟨q, ?_, hid⟩
  rwa [set_of_ne _ _ hqp]

theorem Families.Sound.leave {f : Families ι κ} (h : f.Sound)
    (hp : (f.member p).life = .alive none)
    (hz : ∀ i code, (f.member i).life = .zombie code → (f.member i).parent ≠ (f.member p).id)
    (hn : ∀ i, (f.member i).life.lives = true → (f.member i).id ≠ (f.member p).parent) :
    (f.set p .free).Sound := by
  have hne {j : ι} (hj : ((f.set p .free).member j).life ≠ .free) : j ≠ p := by
    rintro rfl
    rw [set_self] at hj
    exact hj rfl
  refine h.renew ⟨fun j => f.set_id p j _, fun j => f.set_parent p j _, fun j hj => ?_, rfl, rfl⟩
    (fun i code hi => ?_) (fun q c hq => ?_) fun q c hq hc => ?_
  · have hjp := hne hj
    rwa [set_of_ne _ _ hjp] at hj
  · exact h.unmourned hz hi (hne (by rw [hi]; rintro ⟨⟩))
  · have hqp := hne (j := q) (by rw [hq]; rintro ⟨⟩)
    rw [set_of_ne _ _ hqp] at hq
    obtain ⟨i, hi, hid, hpar⟩ := h.awaited hq
    have hip : i ≠ p := by
      rintro rfl
      exact hn q (by rw [hq]; rfl) hpar.symm
    refine ⟨i, ?_, hid, hpar⟩
    rwa [set_of_ne _ _ hip]
  · have hqp := hne (Life.ne_free hq)
    rw [set_of_ne _ _ hqp] at hq
    obtain ⟨i, hi, hid, hpar⟩ := h.pending hq hc
    have hip : i ≠ p := by
      rintro rfl
      exact hn q hq hpar.symm
    refine ⟨i, ?_, hid, hpar⟩
    rwa [set_of_ne _ _ hip]

theorem Families.Sound.die {f : Families ι κ} (h : f.Sound)
    (hp : (f.member p).life = .alive none)
    (hz : ∀ i code, (f.member i).life = .zombie code → (f.member i).parent ≠ (f.member p).id)
    (hq : (f.member q).life.lives = true) (hw : (f.member q).life ≠ .alive (some (f.member p).id))
    (hid : (f.member q).id = (f.member p).parent) : (f.set p (.zombie code)).Sound := by
  have hqp : q ≠ p := by
    rintro rfl
    exact absurd hid (h.known (Life.ne_free hq)).2.2.ne'
  have hused (j : ι) : ((f.set p (.zombie code)).member j).life ≠ .free ↔
      (f.member j).life ≠ .free := by
    by_cases hj : j = p
    · rw [hj, set_self, hp]
      exact ⟨fun _ => by rintro ⟨⟩, fun _ => by rintro ⟨⟩⟩
    · rw [set_of_ne _ _ hj]
  have hne {j : ι} (hj : ((f.set p (.zombie code)).member j).life.lives = true) : j ≠ p := by
    rintro rfl
    rw [set_self] at hj
    cases hj
  refine h.renew ⟨fun j => f.set_id p j _, fun j => f.set_parent p j _, fun j => (hused j).1, rfl,
    rfl⟩ (fun i code' hi => ?_) (fun r c hr => ?_) fun r c hr hc => ?_
  · by_cases hip : i = p
    · refine ⟨q, ?_, hip ▸ hid⟩
      rwa [set_of_ne _ _ hqp]
    · exact h.unmourned hz hi hip
  · have hrp := hne (j := r) (by rw [hr]; rfl)
    rw [set_of_ne _ _ hrp] at hr
    obtain ⟨i, hi, hic, hpar⟩ := h.awaited hr
    have hip : i ≠ p := by
      rintro rfl
      -- its parent is `q`, and `q` does not wait for it
      have hrq : r = q := h.unique (by rw [hr]; rintro ⟨⟩) (Life.ne_free hq)
        (hpar.symm.trans hid.symm)
      rw [← hrq, hr, hic] at hw
      exact hw rfl
    refine ⟨i, ?_, hic, hpar⟩
    rwa [set_of_ne _ _ hip]
  · have hrp := hne hr
    rw [set_of_ne _ _ hrp] at hr
    simp only [hused]
    exact h.pending hr hc

theorem Families.Sound.free_zombie {f : Families ι κ} (h : f.Sound)
    (hi : (f.member i).life = .zombie code) (hpar : (f.member i).parent = (f.member p).id)
    (hp : (f.member p).life.lives = true) (hc : f.pending p = none) : (f.set i .free).Sound := by
  have hlives (j : ι) : ((f.set i .free).member j).life.lives = (f.member j).life.lives := by
    by_cases hj : j = i
    · rw [hj, set_self, hi]
      rfl
    · rw [set_of_ne _ _ hj]
  have hne {j : ι} (hj : ((f.set i .free).member j).life ≠ .free) : j ≠ i := by
    rintro rfl
    rw [set_self] at hj
    exact hj rfl
  refine h.renew ⟨fun j => f.set_id i j _, fun j => f.set_parent i j _, fun j hj => ?_, rfl, rfl⟩
    (fun j code' hj => ?_) (fun q c hq => ?_) fun q c hq hqc => ?_
  · have hji := hne hj
    rwa [set_of_ne _ _ hji] at hj
  · have hji := hne (j := j) (by rw [hj]; rintro ⟨⟩)
    rw [set_of_ne _ _ hji] at hj
    simp only [hlives]
    exact h.mourned hj
  · have hqi := hne (j := q) (by rw [hq]; rintro ⟨⟩)
    rw [set_of_ne _ _ hqi] at hq
    simp only [hlives]
    exact h.awaited hq
  · rw [hlives] at hq
    obtain ⟨j, hj, hid, hjpar⟩ := h.pending hq hqc
    have hji : j ≠ i := by
      rintro rfl
      -- only `p` can be waiting for it, and `p` is not
      have hqp : q = p := h.unique (Life.ne_free hq) (Life.ne_free hp) (hjpar.symm.trans hpar)
      rw [hqp] at hqc
      cases hqc.symm.trans hc
    refine ⟨j, ?_, hid, hjpar⟩
    rwa [set_of_ne _ _ hji]

omit [DecidableEq ι] in
theorem Families.Sound.give {f : Families ι κ} (h : f.Sound) (hle : c ≤ f.born)
    (hno : ∀ i, (f.member i).life ≠ .free → (f.member i).id ≠ c)
    (hnew : c ∉ f.returned.map Prod.fst) (code : κ) : (f.give c code).Sound := by
  refine ⟨h.known, h.unique, h.mourned, h.awaited, h.pending, fun {r} hr => ?_, ?_⟩
  · rcases List.mem_append.1 hr with hr | hr
    · exact h.gone hr
    · rw [List.mem_singleton.1 hr]
      exact ⟨hle, hno⟩
  · change ((f.returned ++ [(c, code)]).map Prod.fst).Nodup
    rw [List.map_append, List.map_singleton, List.nodup_append]
    refine ⟨h.once, List.nodup_singleton _, ?_⟩
    rintro a ha b hb rfl
    rw [List.mem_singleton.1 hb] at ha
    exact hnew ha

omit [DecidableEq ι] in
theorem Families.disown_life (f : Families ι κ) (p i : ι) :
    ((f.disown p).member i).life = (f.member i).life ∨
      ((f.disown p).member i).life = .free ∧ ∃ code, (f.member i).life = .zombie code ∧
        (f.member i).parent = (f.member p).id := by
  rw [disown]
  dsimp only
  split
  next code hl =>
    split
    next hpar => exact .inr ⟨rfl, code, hl, hpar⟩
    next => exact .inl rfl
  next => exact .inl rfl

omit [DecidableEq ι] in
theorem Families.Sound.disown {f : Families ι κ} (h : f.Sound)
    (hp : (f.member p).life.lives = true) (hc : f.pending p = none) : (f.disown p).Sound := by
  have hsame (i : ι) : ((f.disown p).member i).id = (f.member i).id ∧
      ((f.disown p).member i).parent = (f.member i).parent := by
    rw [Families.disown]
    dsimp only
    split
    · split <;> exact ⟨rfl, rfl⟩
    · exact ⟨rfl, rfl⟩
  have hkeep {i : ι} (hi : ((f.disown p).member i).life ≠ .free) :
      ((f.disown p).member i).life = (f.member i).life :=
    (f.disown_life p i).resolve_right fun hn => hi hn.1
  have hlives (i : ι) : ((f.disown p).member i).life.lives = (f.member i).life.lives := by
    rcases f.disown_life p i with he | ⟨he, code, hz, -⟩
    · rw [he]
    · rw [he, hz]
      rfl
  refine h.renew ⟨fun i => (hsame i).1, fun i => (hsame i).2, fun i hi => hkeep hi ▸ hi, rfl, rfl⟩
    (fun i code hi => ?_) (fun q c hq => ?_) fun q c hq hqc => ?_
  · rw [hkeep (by rw [hi]; rintro ⟨⟩)] at hi
    simp only [hlives]
    exact h.mourned hi
  · rw [hkeep (by rw [hq]; rintro ⟨⟩)] at hq
    simp only [hlives]
    exact h.awaited hq
  · rw [hlives] at hq
    obtain ⟨i, hi, hid, hpar⟩ := h.pending hq hqc
    refine ⟨i, ?_, hid, hpar⟩
    rcases f.disown_life p i with he | ⟨-, code, -, hpp⟩
    · rwa [he]
    · have hqp : q = p := h.unique (Life.ne_free hq) (Life.ne_free hp) (hpar.symm.trans hpp)
      rw [hqp] at hqc
      cases hqc.symm.trans hc

theorem Families.Step.sound {f f' : Families ι κ} (hs : f.Step f') (h : f.Sound) : f'.Sound := by
  cases hs with
  | birth hi hp => exact h.add hi hp
  | wait hp hi hc hpar =>
    rename_i p i c
    have hlive : (f.member p).life.lives = true := by rw [hp]; rfl
    refine (h.relive hlive ?_).settle ?_
    · rintro _ ⟨⟩
      exact ⟨i, hi, hc, hpar⟩
    · rintro _ ⟨⟩ -
      refine ⟨i, ?_, ?_, ?_⟩
      · by_cases hip : i = p
        · rw [hip, set_self]
          rintro ⟨⟩
        · rw [set_of_ne _ _ hip]
          exact Life.ne_free hi
      · rw [set_id, hc]
      · rw [set_parent, set_id, hpar]
  | collect hp hi hc hpar =>
    rename_i p i code c
    have hlive : (f.member p).life.lives = true := by rw [hp]; rfl
    have hused : (f.member i).life ≠ .free := by
      rw [hi]
      rintro ⟨⟩
    have hclear := (h.answer p).free_zombie hi hpar hlive (Function.update_self _ _ _)
    refine hclear.give (hc ▸ (h.known hused).2.1) ?_ ?_ code
    · intro j hj hid
      rw [set_id] at hid
      have hji : j ≠ i := by
        rintro rfl
        rw [set_self] at hj
        exact hj rfl
      rw [set_of_ne _ _ hji] at hj
      exact hji (h.unique hj hused (hid.trans hc.symm))
    · intro hmem
      obtain ⟨r, hr, hrc⟩ := List.mem_map.1 hmem
      exact (h.gone hr).2 i hused (hc.trans hrc.symm)
  | disown hp =>
    exact (h.answer _).disown (by rw [settle, hp]; rfl) (Function.update_self _ _ _)
  | leave hp hz hn => exact h.leave hp hz hn
  | die hp hz hq hid =>
    rename_i p q w code
    split
    next hw =>
      have hqp : q ≠ p := by
        rintro rfl
        rw [hp, hw] at hq
        cases hq
      have hrelive := h.relive (p := q) (w := none) (by rw [hq]; rfl) (by rintro _ ⟨⟩)
      refine hrelive.die (q := q) ?_ ?_ ?_ ?_ ?_
      · rw [set_of_ne _ _ hqp.symm, hp]
      · intro i code hi
        have hiq : i ≠ q := by
          rintro rfl
          rw [set_self] at hi
          cases hi
        rw [set_of_ne _ _ hiq] at hi
        rw [set_parent, set_id]
        exact hz i code hi
      · rw [set_self]
        rfl
      · rw [set_self]
        rintro ⟨⟩
      · rw [set_id, set_parent, hid]
    next hw =>
      refine h.die hp hz (by rw [hq]; rfl) ?_ hid
      rw [hq]
      exact fun he => hw (Life.alive.inj he)
  | answer => exact h.answer _

end TinyProcessors
