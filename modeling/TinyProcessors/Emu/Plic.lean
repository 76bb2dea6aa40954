import TinyProcessors.Lib.Bits
import TinyProcessors.Lib.Bytes
import TinyProcessors.Lib.Logic

namespace TinyProcessors

structure Plic where
  priority : Fin 32 → BitVec 8
  enable : Word
  claimed : Word
  pending : Word
  threshold : BitVec 8

def Plic.reset : Plic := ⟨fun _ => 0, 0, 0, 0, 0⟩

structure PlicLines where
  input : Bool
  virtio : Bool

abbrev plicWired : Word := 0x1002

def plicLines (l : PlicLines) : Word :=
  (if l.input then (1 : Word) <<< 12 else 0) ||| if l.virtio then (1 : Word) <<< 1 else 0

def Plic.sample (p : Plic) (l : PlicLines) : Plic :=
  { p with pending := p.pending ||| plicLines l &&& plicWired &&& ~~~p.claimed }

def plicSources : List (Fin 32) := (List.finRange 32).tail

def Plic.best (p : Plic) : Fin 32 :=
  let candidates : Word := if p.enable ≠ 0 then p.pending &&& p.enable else 0
  (plicSources.foldl (fun (s : Fin 32 × Nat) (id : Fin 32) =>
    if candidates.getLsbD id.val && s.2 < (p.priority id).toNat then (id, (p.priority id).toNat)
    else s) (0, p.threshold.toNat)).1

def Plic.load (p : Plic) (offset width : Nat) : Option (Word × Plic) :=
  if width ≠ 4 then none
  else if h : offset < 4 * 32 then some ((p.priority ⟨offset / 4, by omega⟩).setWidth 32, p)
  else if offset = 0x1000 then some (p.pending, p)
  else if offset = 0x2000 then some (p.enable, p)
  else if offset = 0x200000 then some (p.threshold.setWidth 32, p)
  else if offset = 0x200004 then
    let value := p.best
    some (BitVec.ofNat 32 value, { p with
      claimed := p.claimed ||| (1 : Word) <<< value.val &&& ~~~1
      pending := p.pending &&& ~~~((1 : Word) <<< value.val) })
  else none

def Plic.store (p : Plic) (offset width : Nat) (value : Word) : Option Plic :=
  if width ≠ 4 then none
  else if h : offset < 4 * 32 then
    if plicWired.getLsbD (offset / 4) then
      some { p with
        priority := Function.update p.priority ⟨offset / 4, by omega⟩ ((value &&& 7).setWidth 8) }
    else some p
  else if offset = 0x2000 then some { p with enable := value &&& plicWired }
  else if offset = 0x200000 then some { p with threshold := (value &&& 7).setWidth 8 }
  else if offset = 0x200004 then
    if value.toNat < 32 && p.enable.getLsbD value.toNat then
      some { p with claimed := p.claimed &&& ~~~((1 : Word) <<< value.toNat) }
    else some p
  else none

inductive PlicAccess
  | load (offset : BitVec 23) (width : Fin 3)
  | store (offset : BitVec 23) (width : Fin 3) (value : Word)

inductive PlicReply
  | fault
  | value (v : Word)
  | stored
  deriving DecidableEq

def PlicAccess.claim : PlicAccess := .load 0x200004 2

def PlicAccess.complete (source : Word) : PlicAccess := .store 0x200004 2 source

def Plic.access (p : Plic) : PlicAccess → PlicReply × Plic
  | .load offset width =>
    match p.load offset.toNat (2 ^ width.val) with
    | none => (.fault, p)
    | some (v, p') => (.value v, p')
  | .store offset width v =>
    match p.store offset.toNat (2 ^ width.val) v with
    | none => (.fault, p)
    | some p' => (.stored, p')

inductive PlicEvent
  | sample (l : PlicLines)
  | access (a : PlicAccess)

def Plic.step (p : Plic) : PlicEvent → Plic
  | .sample l => p.sample l
  | .access a => (p.access a).2

def Plic.run (p : Plic) (events : List PlicEvent) : Plic := events.foldl Plic.step p

theorem getLsbD_one_shiftLeft (n i : Nat) (hn : n < 32) :
    ((1 : Word) <<< n).getLsbD i = decide (i = n) := by
  rw [BitVec.getLsbD_shiftLeft, show (1 : Word) = 1#32 from rfl, BitVec.getLsbD_one, Bool.eq_iff_iff]
  simp only [Bool.and_eq_true, Bool.not_eq_true', decide_eq_true_eq, decide_eq_false_iff_not]
  omega

def Plic.taken (p : Plic) (value : Fin 32) : Plic :=
  { p with
    claimed := p.claimed ||| (1 : Word) <<< value.val &&& ~~~1
    pending := p.pending &&& ~~~((1 : Word) <<< value.val) }

def Plic.completed (p : Plic) (value : Word) : Plic :=
  { p with claimed := p.claimed &&& ~~~((1 : Word) <<< value.toNat) }

def Plic.completes (p : Plic) (value : Word) : Bool :=
  value.toNat < 32 && p.enable.getLsbD value.toNat

theorem Plic.access_complete (p : Plic) (v : Word) :
    p.access (.complete v) = (.stored, if p.completes v then p.completed v else p) := by
  change (match (if p.completes v then some (p.completed v) else some p) with
    | none => (PlicReply.fault, p)
    | some p' => (PlicReply.stored, p')) = _
  split_ifs <;> rfl

theorem Plic.load_cases (h : Plic.load p offset width = some (v, p')) :
    p' = p ∨ (width = 4 ∧ offset = 0x200004) := by
  unfold Plic.load at h
  split_ifs at h with hw hp hpending henable hthreshold hclaim
  · exact .inl (congrArg Prod.snd (Option.some.inj h)).symm
  · exact .inl (congrArg Prod.snd (Option.some.inj h)).symm
  · exact .inl (congrArg Prod.snd (Option.some.inj h)).symm
  · exact .inl (congrArg Prod.snd (Option.some.inj h)).symm
  · exact .inr ⟨not_not.mp hw, hclaim⟩

theorem Plic.store_cases (h : Plic.store p offset width v = some p') :
    (p'.pending = p.pending ∧ p'.claimed = p.claimed) ∨
      (width = 4 ∧ offset = 0x200004 ∧ p.completes v = true) := by
  unfold Plic.store at h
  split_ifs at h with hw hp hwired henable hthreshold hclaim hcompletes
  · cases h
    exact .inl ⟨rfl, rfl⟩
  · cases h
    exact .inl ⟨rfl, rfl⟩
  · cases h
    exact .inl ⟨rfl, rfl⟩
  · cases h
    exact .inl ⟨rfl, rfl⟩
  · exact .inr ⟨not_not.mp hw, hclaim, hcompletes⟩
  · cases h
    exact .inl ⟨rfl, rfl⟩

theorem width_four (width : Fin 3) (h : 2 ^ width.val = 4) : width = 2 := by
  revert width
  decide

theorem Plic.access_load_none (h : Plic.load p offset.toNat (2 ^ width.val) = none) :
    p.access (.load offset width) = (.fault, p) := by
  simp only [Plic.access, h]

theorem Plic.access_load_some (h : Plic.load p offset.toNat (2 ^ width.val) = some (v, p')) :
    p.access (.load offset width) = (.value v, p') := by
  simp only [Plic.access, h]

theorem Plic.access_store_none (h : Plic.store p offset.toNat (2 ^ width.val) v = none) :
    p.access (.store offset width v) = (.fault, p) := by
  simp only [Plic.access, h]

theorem Plic.access_store_some (h : Plic.store p offset.toNat (2 ^ width.val) v = some p') :
    p.access (.store offset width v) = (.stored, p') := by
  simp only [Plic.access, h]

theorem Plic.step_cases (p : Plic) (e : PlicEvent) :
    (∃ l, e = .sample l) ∨ e = .access .claim ∨
    (∃ v, e = .access (.complete v) ∧ p.completes v = true) ∨
    ((p.step e).pending = p.pending ∧ (p.step e).claimed = p.claimed) := by
  cases e with
  | sample l => exact .inl ⟨l, rfl⟩
  | access a =>
    refine .inr ?_
    change _ ∨ _ ∨ (p.access a).2.pending = _ ∧ (p.access a).2.claimed = _
    cases a with
    | load offset width =>
      cases hload : p.load offset.toNat (2 ^ width.val) with
      | none =>
        rw [Plic.access_load_none hload]
        exact .inr (.inr ⟨rfl, rfl⟩)
      | some r =>
        rcases Plic.load_cases hload with heq | ⟨hw, ho⟩
        · rw [Plic.access_load_some hload, heq]
          exact .inr (.inr ⟨rfl, rfl⟩)
        · obtain rfl := width_four width hw
          obtain rfl : offset = 0x200004 := BitVec.eq_of_toNat_eq ho
          exact .inl rfl
    | store offset width v =>
      refine .inr ?_
      cases hstore : p.store offset.toNat (2 ^ width.val) v with
      | none =>
        rw [Plic.access_store_none hstore]
        exact .inr ⟨rfl, rfl⟩
      | some p' =>
        rcases Plic.store_cases hstore with heq | ⟨hw, ho, hcompletes⟩
        · rw [Plic.access_store_some hstore]
          exact .inr heq
        · obtain rfl := width_four width hw
          obtain rfl : offset = 0x200004 := BitVec.eq_of_toNat_eq ho
          exact .inl ⟨v, rfl, hcompletes⟩

section Bits

variable (p : Plic) (i : Nat)

theorem Plic.sample_pending (l : PlicLines) :
    (p.sample l).pending.getLsbD i = (p.pending.getLsbD i ||
      ((plicLines l &&& plicWired).getLsbD i && !p.claimed.getLsbD i)) := by
  unfold Plic.sample
  rw [BitVec.getLsbD_or, getLsbD_and_not]

theorem Plic.taken_pending (s : Fin 32) :
    (p.taken s).pending.getLsbD i = (p.pending.getLsbD i && !decide (i = s.val)) := by
  unfold Plic.taken
  rw [getLsbD_and_not, getLsbD_one_shiftLeft _ _ s.isLt]

theorem Plic.taken_claimed (s : Fin 32) :
    (p.taken s).claimed.getLsbD i = (p.claimed.getLsbD i || (decide (i = s.val) && !decide (i = 0))) := by
  unfold Plic.taken
  rw [BitVec.getLsbD_or, getLsbD_and_not, getLsbD_one_shiftLeft _ _ s.isLt]
  rw [show (1 : Word).getLsbD i = decide (i = 0) from getLsbD_one_shiftLeft 0 i (by omega)]

theorem Plic.completed_claimed (v : Word) (hv : v.toNat < 32) :
    (p.completed v).claimed.getLsbD i = (p.claimed.getLsbD i && !decide (i = v.toNat)) := by
  unfold Plic.completed
  rw [getLsbD_and_not, getLsbD_one_shiftLeft _ _ hv]

end Bits

structure Plic.Gated (p : Plic) : Prop where
  wired : ∀ i, p.pending.getLsbD i = true → plicWired.getLsbD i = true
  unclaimed : ∀ i, p.pending.getLsbD i = true → p.claimed.getLsbD i = false

theorem Plic.reset_gated : Plic.reset.Gated := by
  refine ⟨fun i hi => ?_, fun i hi => ?_⟩
  · rw [show Plic.reset.pending = 0#32 from rfl, BitVec.getLsbD_zero] at hi
    cases hi
  · exact BitVec.getLsbD_zero

theorem Plic.Gated.sample {p : Plic} (h : p.Gated) (l : PlicLines) : (p.sample l).Gated := by
  refine ⟨fun i hi => ?_, fun i hi => ?_⟩
  · rw [p.sample_pending, Bool.or_eq_true, Bool.and_eq_true, BitVec.getLsbD_and,
      Bool.and_eq_true] at hi
    rcases hi with hi | ⟨⟨-, hw⟩, -⟩
    · exact h.wired i hi
    · exact hw
  · rw [p.sample_pending, Bool.or_eq_true, Bool.and_eq_true] at hi
    rcases hi with hi | ⟨-, hc⟩
    · exact h.unclaimed i hi
    · rwa [Bool.not_eq_true'] at hc

theorem Plic.Gated.taken {p : Plic} (h : p.Gated) (s : Fin 32) : (p.taken s).Gated := by
  refine ⟨fun i hi => ?_, fun i hi => ?_⟩
  · rw [p.taken_pending, Bool.and_eq_true] at hi
    exact h.wired i hi.1
  · rw [p.taken_pending, Bool.and_eq_true, Bool.not_eq_true'] at hi
    rw [p.taken_claimed, h.unclaimed i hi.1, hi.2]
    rfl

theorem Plic.Gated.completed {p : Plic} (h : p.Gated) (v : Word) (hv : v.toNat < 32) :
    (p.completed v).Gated := by
  refine ⟨h.wired, fun i hi => ?_⟩
  rw [p.completed_claimed i v hv, h.unclaimed i hi]
  rfl

theorem Plic.completes_lt {p : Plic} (h : p.completes v = true) : v.toNat < 32 := by
  unfold Plic.completes at h
  rw [Bool.and_eq_true, decide_eq_true_eq] at h
  exact h.1

theorem Plic.step_complete {p : Plic} (h : p.completes v = true) :
    p.step (.access (.complete v)) = p.completed v := by
  change (p.access _).2 = _
  rw [p.access_complete, if_pos h]

theorem Plic.Gated.step {p : Plic} (h : p.Gated) (e : PlicEvent) : (p.step e).Gated := by
  rcases p.step_cases e with ⟨l, rfl⟩ | rfl | ⟨v, rfl, hv⟩ | ⟨hp, hc⟩
  · exact h.sample l
  · exact h.taken p.best
  · rw [Plic.step_complete hv]
    exact h.completed v (Plic.completes_lt hv)
  · exact ⟨fun i hi => h.wired i (hp ▸ hi), fun i hi => hc ▸ h.unclaimed i (hp ▸ hi)⟩

theorem Plic.Gated.run {p : Plic} (h : p.Gated) (events : List PlicEvent) :
    (p.run events).Gated := by
  induction events generalizing p with
  | nil => exact h
  | cons e events ih => exact ih (h.step e)

def Plic.Candidate (p : Plic) (s : Fin 32) : Prop :=
  s ≠ 0 ∧ p.pending.getLsbD s.val = true ∧ p.enable.getLsbD s.val = true ∧
    p.threshold.toNat < (p.priority s).toNat

def Plic.Choice (p : Plic) (r : Fin 32) : Prop :=
  (r = 0 ∧ ∀ s, ¬p.Candidate s) ∨
  (p.Candidate r ∧ ∀ s, p.Candidate s → p.priority s < p.priority r ∨
    p.priority s = p.priority r ∧ r ≤ s)

theorem mem_plicSources (s : Fin 32) : s ∈ plicSources ↔ s ≠ 0 := by
  revert s
  decide

theorem Plic.candidates_eq (p : Plic) :
    (if p.enable ≠ 0 then p.pending &&& p.enable else 0) = p.pending &&& p.enable := by
  split_ifs with h
  · rfl
  · rw [not_not.mp h]
    exact (BitVec.and_zero).symm

theorem Plic.best_chosen (p : Plic) :
    Chosen (fun id : Fin 32 => (p.pending &&& p.enable).getLsbD id.val)
      (fun id => (p.priority id).toNat) plicSources 0 p.threshold.toNat p.best := by
  unfold Plic.best
  simp only [p.candidates_eq]
  exact foldl_chosen _ _ _ (by decide) _ _

theorem Plic.best_choice (p : Plic) : p.Choice p.best := by
  have hbits (s : Fin 32) : (p.pending &&& p.enable).getLsbD s.val = true ↔
      p.pending.getLsbD s.val = true ∧ p.enable.getLsbD s.val = true := by
    rw [BitVec.getLsbD_and, Bool.and_eq_true]
  rcases p.best_chosen with ⟨hb, hnone⟩ | ⟨hb, hp, hgt, hmax⟩
  · refine .inl ⟨hb, ?_⟩
    rintro s ⟨hs, hpending, henable, hpriority⟩
    have hle := hnone s ((mem_plicSources s).mpr hs) ((hbits s).mpr ⟨hpending, henable⟩)
    exact absurd hpriority (Nat.not_lt.mpr hle)
  · obtain ⟨hpending, henable⟩ := (hbits _).mp hp
    refine .inr ⟨⟨(mem_plicSources _).mp hb, hpending, henable, hgt⟩, ?_⟩
    rintro s ⟨hs, hpending, henable, -⟩
    rcases hmax s ((mem_plicSources s).mpr hs) ((hbits s).mpr ⟨hpending, henable⟩) with h | ⟨h, hle⟩
    · exact .inl h
    · exact .inr ⟨BitVec.eq_of_toNat_eq h, hle⟩

theorem Plic.best_pending (p : Plic) (h : p.best ≠ 0) : p.pending.getLsbD p.best.val = true := by
  rcases p.best_choice with ⟨hb, -⟩ | ⟨hb, -⟩
  · exact absurd hb h
  · exact hb.2.1

theorem Plic.step_claimed (p : Plic) (e : PlicEvent) (s : Fin 32)
    (hs : p.claimed.getLsbD s.val = true) (hstep : (p.step e).claimed.getLsbD s.val = false) :
    e = .access (.complete (BitVec.ofNat 32 s)) ∧ p.completes (BitVec.ofNat 32 s) = true := by
  rcases p.step_cases e with ⟨l, rfl⟩ | rfl | ⟨v, rfl, hv⟩ | ⟨-, hc⟩
  · rw [show (p.step (.sample l)).claimed = p.claimed from rfl, hs] at hstep
    cases hstep
  · rw [show p.step (.access .claim) = p.taken p.best from rfl, p.taken_claimed, hs] at hstep
    cases hstep
  · have hlt := Plic.completes_lt hv
    rw [Plic.step_complete hv, p.completed_claimed _ v hlt, hs, Bool.true_and,
      Bool.not_eq_false', decide_eq_true_eq] at hstep
    obtain rfl : v = BitVec.ofNat 32 s := by
      rw [hstep, BitVec.ofNat_toNat, BitVec.setWidth_eq]
    exact ⟨rfl, hv⟩
  · rw [hc, hs] at hstep
    cases hstep

theorem Plic.step_pending (p : Plic) (e : PlicEvent) (s : Fin 32)
    (hs : p.pending.getLsbD s.val = true) (hstep : (p.step e).pending.getLsbD s.val = false) :
    e = .access .claim ∧ p.best = s := by
  rcases p.step_cases e with ⟨l, rfl⟩ | rfl | ⟨v, rfl, hv⟩ | ⟨hp, -⟩
  · rw [show p.step (.sample l) = p.sample l from rfl, p.sample_pending, hs] at hstep
    cases hstep
  · rw [show p.step (.access .claim) = p.taken p.best from rfl, p.taken_pending, hs, Bool.true_and,
      Bool.not_eq_false', decide_eq_true_eq] at hstep
    exact ⟨rfl, Fin.ext hstep.symm⟩
  · rw [Plic.step_complete hv, show (p.completed v).pending = p.pending from rfl, hs] at hstep
    cases hstep
  · rw [hp, hs] at hstep
    cases hstep

theorem Plic.run_ends (holds : Plic → Bool) (p : Plic) (events : List PlicEvent)
    (hs : holds p = true) (hrun : holds (p.run events) = false) :
    ∃ before e after, events = before ++ e :: after ∧ holds (p.run before) = true ∧
      holds ((p.run before).step e) = false := by
  induction events generalizing p with
  | nil =>
    rw [show p.run [] = p from rfl, hs] at hrun
    cases hrun
  | cons e events ih =>
    cases hnext : holds (p.step e) with
    | true =>
      obtain ⟨before, e', after, heq, hbefore, hstep⟩ := ih (p.step e) hnext hrun
      exact ⟨e :: before, e', after, by rw [heq]; rfl, hbefore, hstep⟩
    | false => exact ⟨[], e, events, rfl, hs, hnext⟩

theorem Plic.run_append (p : Plic) (es es' : List PlicEvent) :
    p.run (es ++ es') = (p.run es).run es' :=
  List.foldl_append

theorem Plic.claimed_once {p : Plic} (h : p.Gated) (events : List PlicEvent) (hs : p.best ≠ 0)
    (hagain : ((p.taken p.best).run events).best = p.best) :
    ∃ before after,
      events = before ++ .access (.complete (BitVec.ofNat 32 p.best)) :: after ∧
      ((p.taken p.best).run before).completes (BitVec.ofNat 32 p.best) = true := by
  have hnow : (p.taken p.best).claimed.getLsbD p.best.val = true := by
    have hne : p.best.val ≠ 0 := fun hz => hs (Fin.ext hz)
    rw [p.taken_claimed, decide_eq_true rfl, decide_eq_false hne]
    exact Bool.or_true _
  have hthen : ((p.taken p.best).run events).claimed.getLsbD p.best.val = false := by
    have hpending := ((p.taken p.best).run events).best_pending (by rw [hagain]; exact hs)
    rw [hagain] at hpending
    exact ((h.taken p.best).run events).unclaimed _ hpending
  obtain ⟨before, e, after, heq, hbefore, hstep⟩ :=
    Plic.run_ends (fun q => q.claimed.getLsbD p.best.val) _ events hnow hthen
  obtain ⟨rfl, hcompletes⟩ := Plic.step_claimed _ e p.best hbefore hstep
  exact ⟨before, after, heq, hcompletes⟩

theorem Plic.latched (p : Plic) (l : PlicLines) (events : List PlicEvent) (s : Fin 32)
    (hline : (plicLines l &&& plicWired).getLsbD s.val = true)
    (hunclaimed : p.claimed.getLsbD s.val = false)
    (hclaims : ∀ before after, events = before ++ .access .claim :: after →
      ((p.sample l).run before).best ≠ s) :
    ((p.sample l).run events).pending.getLsbD s.val = true := by
  have hnow : (p.sample l).pending.getLsbD s.val = true := by
    rw [p.sample_pending, hline, hunclaimed]
    exact Bool.or_true _
  by_contra hend
  obtain ⟨before, e, after, heq, hbefore, hstep⟩ :=
    Plic.run_ends (fun q => q.pending.getLsbD s.val) _ events hnow (eq_false_of_ne_true hend)
  obtain ⟨rfl, hbest⟩ := Plic.step_pending _ e s hbefore hstep
  exact hclaims before after heq hbest

end TinyProcessors
