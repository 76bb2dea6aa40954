import Mathlib
import TinyProcessors.Lib.Division

namespace TinyProcessors

inductive Rounding
  | nearestEven | towardZero | down | up | nearestAway
  deriving DecidableEq

instance twoAtLeastTwo : Nat.AtLeastTwo 2 := ⟨Nat.le_refl 2⟩

namespace Rounding

noncomputable def toInt (mode : Rounding) (x : ℝ) : ℤ :=
  match mode with
  | .nearestEven =>
    if x - ⌊x⌋ < 1 / 2 then ⌊x⌋
    else if 1 / 2 < x - ⌊x⌋ then ⌊x⌋ + 1
    else if Even ⌊x⌋ then ⌊x⌋ else ⌊x⌋ + 1
  | .towardZero => if x < 0 then ⌈x⌉ else ⌊x⌋
  | .down => ⌊x⌋
  | .up => ⌈x⌉
  | .nearestAway => if x < 0 then ⌈x - 1 / 2⌉ else ⌊x + 1 / 2⌋

theorem toInt_intCast (mode : Rounding) (k : ℤ) : mode.toInt k = k := by
  have hup : ⌈(k : ℝ) - 1 / 2⌉ = k := by
    rw [Int.ceil_eq_iff]
    constructor <;> linarith
  have hdown : ⌊(k : ℝ) + 1 / 2⌋ = k := by
    rw [Int.floor_eq_iff]
    constructor <;> linarith
  cases mode with
  | nearestEven | towardZero => simp [toInt]
  | down => exact Int.floor_intCast k
  | up => exact Int.ceil_intCast k
  | nearestAway =>
    unfold toInt
    dsimp only
    rw [hup, hdown, ite_self]

/-- Whether a magnitude goes up to the next integer. -/
def bumps (mode : Rounding) (negative odd half rest : Bool) : Bool :=
  match mode with
  | .nearestEven => half && (rest || odd)
  | .towardZero => false
  | .down => negative && (half || rest)
  | .up => !negative && (half || rest)
  | .nearestAway => half

end Rounding

def Lies (t : ℝ) (n : ℕ) (half rest : Bool) : Prop :=
  ∃ r : ℝ, t = n + (if half then 1 / 2 else 0) + r ∧ if rest then 0 < r ∧ r < 1 / 2 else r = 0

section Lies

variable {t : ℝ} {n : ℕ} {half rest : Bool}

theorem exists_lies (h : 0 ≤ t) : ∃ n half rest, Lies t n half rest := by
  have hlow := Nat.floor_le h
  have hhigh := Nat.lt_floor_add_one t
  by_cases hhalf : t - ⌊t⌋₊ < 1 / 2
  · by_cases hrest : t = ⌊t⌋₊
    · exact ⟨⌊t⌋₊, false, false, 0, by simpa using hrest, rfl⟩
    · have hne : (⌊t⌋₊ : ℝ) < t := lt_of_le_of_ne hlow (Ne.symm hrest)
      exact ⟨⌊t⌋₊, false, true, t - ⌊t⌋₊, by simp, sub_pos.mpr hne, hhalf⟩
  · rw [not_lt] at hhalf
    by_cases hrest : t = ⌊t⌋₊ + 1 / 2
    · exact ⟨⌊t⌋₊, true, false, 0, by simpa using hrest, rfl⟩
    · have hne : (⌊t⌋₊ : ℝ) + 1 / 2 < t := lt_of_le_of_ne (by linarith) (Ne.symm hrest)
      refine ⟨⌊t⌋₊, true, true, t - ⌊t⌋₊ - 1 / 2, ?_, ?_⟩
      · rw [if_pos rfl]
        ring
      · rw [if_pos rfl]
        constructor <;> linarith

theorem Lies.floor (h : Lies t n half rest) : ⌊t⌋ = n := by
  obtain ⟨r, rfl, hr⟩ := h
  rw [Int.floor_eq_iff]
  push_cast
  cases half <;> cases rest <;> simp at hr ⊢ <;> constructor <;> linarith

theorem Lies.ceil (h : Lies t n half rest) : ⌈t⌉ = n + if half || rest then 1 else 0 := by
  obtain ⟨r, rfl, hr⟩ := h
  rw [Int.ceil_eq_iff]
  cases half <;> cases rest <;> simp at hr ⊢ <;> (try constructor) <;> linarith

theorem Lies.nonneg (h : Lies t n half rest) : 0 ≤ t := by
  obtain ⟨r, rfl, hr⟩ := h
  have hn : (0 : ℝ) ≤ n := Nat.cast_nonneg n
  cases half <;> cases rest <;> simp at hr ⊢ <;> linarith

theorem Lies.exact_iff (h : Lies t n half rest) :
    (∃ k : ℤ, t = k) ↔ half = false ∧ rest = false := by
  constructor
  · rintro ⟨k, rfl⟩
    have hc := h.ceil
    have hf := h.floor
    rw [Int.ceil_intCast] at hc
    rw [Int.floor_intCast] at hf
    rw [hf] at hc
    cases half <;> cases rest <;> simp at hc ⊢
  · rintro ⟨rfl, rfl⟩
    obtain ⟨r, rfl, hr⟩ := h
    have hr : r = 0 := by simpa using hr
    exact ⟨n, by simp [hr]⟩

theorem Lies.half_floor (h : Lies t n half rest) :
    ⌊t + 1 / 2⌋ = n + if half then 1 else 0 := by
  obtain ⟨r, rfl, hr⟩ := h
  rw [Int.floor_eq_iff]
  cases half <;> cases rest <;> simp at hr ⊢ <;> constructor <;> linarith

theorem Lies.fraction (h : Lies t n half rest) :
    (t - n < 1 / 2 ↔ half = false) ∧ (1 / 2 < t - n ↔ half = true ∧ rest = true) := by
  obtain ⟨r, rfl, hr⟩ := h
  cases half <;> cases rest <;> simp at hr ⊢ <;> (try constructor) <;> linarith

theorem nearestEven_of_floor {x : ℝ} {m : ℤ} (hm : ⌊x⌋ = m) :
    Rounding.nearestEven.toInt x = if x - m < 1 / 2 then m
      else if 1 / 2 < x - m then m + 1 else if Even m then m else m + 1 := by
  rw [← hm]
  rfl

theorem Lies.round_nonneg (h : Lies t n half rest) (mode : Rounding) :
    mode.toInt t = n + if mode.bumps false (n % 2 = 1) half rest then 1 else 0 := by
  have hpos : ¬t < 0 := not_lt.mpr h.nonneg
  have hfloor := h.floor
  cases mode with
  | nearestEven =>
    obtain ⟨hlow, hhigh⟩ := h.fraction
    rw [nearestEven_of_floor hfloor, Int.cast_natCast]
    cases half with
    | false =>
      rw [if_pos (hlow.mpr rfl)]
      exact (add_zero _).symm
    | true =>
      rw [if_neg (by rw [hlow]; decide)]
      cases rest with
      | true =>
        rw [if_pos (hhigh.mpr ⟨rfl, rfl⟩)]
        rfl
      | false =>
        rw [if_neg (by rw [hhigh]; decide)]
        by_cases hodd : n % 2 = 1
        · rw [if_neg (by rw [Int.even_coe_nat, Nat.even_iff]; omega), decide_eq_true hodd]
          rfl
        · rw [if_pos (by rw [Int.even_coe_nat, Nat.even_iff]; omega), decide_eq_false hodd]
          exact (add_zero _).symm
  | towardZero =>
    change (if t < 0 then ⌈t⌉ else ⌊t⌋) = _
    rw [if_neg hpos, hfloor]
    exact (add_zero _).symm
  | down => exact hfloor.trans (add_zero _).symm
  | up => exact h.ceil
  | nearestAway =>
    change (if t < 0 then ⌈t - 1 / 2⌉ else ⌊t + 1 / 2⌋) = _
    rw [if_neg hpos]
    exact h.half_floor

theorem Lies.round_neg (h : Lies t n half rest) (mode : Rounding) :
    mode.toInt (-t) = -(n + if mode.bumps true (n % 2 = 1) half rest then 1 else 0 : ℤ) := by
  have hfloor := h.floor
  have hceil := h.ceil
  -- at zero the branches on the sign do not matter
  have hzero (ht : ¬-t < 0) : t = 0 ∧ n = 0 ∧ half = false := by
    have ht0 : t = 0 := le_antisymm (by linarith) h.nonneg
    have hn : (n : ℤ) = 0 := by rw [← hfloor, ht0, Int.floor_zero]
    exact ⟨ht0, by exact_mod_cast hn, (h.exact_iff.mp ⟨0, by simpa using ht0⟩).1⟩
  cases mode with
  | nearestEven =>
    obtain ⟨hlow, hhigh⟩ := h.fraction
    have hf : ⌊-t⌋ = -(n + if half || rest then 1 else 0 : ℤ) := by
      rw [Int.floor_neg, hceil]
    cases half with
    | false =>
      cases rest with
      | false =>
        have ht : t = n := by
          obtain ⟨r, rfl, hr⟩ := h
          have hr : r = 0 := by simpa using hr
          simp [hr]
        rw [nearestEven_of_floor hf, if_pos (by rw [ht]; norm_num)]
        rfl
      | true =>
        have hlt := hlow.mpr rfl
        have hcast : ((-(n + if (false || true) = true then 1 else 0 : ℤ) : ℤ) : ℝ) = -(n + 1) := by
          push_cast
          rfl
        rw [nearestEven_of_floor hf, hcast, if_neg (by linarith), if_pos (by linarith)]
        simp [Rounding.bumps]
    | true =>
      have hcast : ((-(n + if (true || rest) = true then 1 else 0 : ℤ) : ℤ) : ℝ) = -(n + 1) := by
        push_cast
        rfl
      have hge : ¬t - n < 1 / 2 := by
        rw [hlow]
        decide
      rw [nearestEven_of_floor hf, hcast]
      cases rest with
      | true =>
        have hgt := hhigh.mpr ⟨rfl, rfl⟩
        rw [if_pos (by linarith)]
        rfl
      | false =>
        have hle : ¬1 / 2 < t - n := by
          rw [hhigh]
          decide
        rw [if_neg (by linarith), if_neg (by linarith)]
        have heven : Even (-(n + if (true || false) = true then 1 else 0 : ℤ)) ↔ n % 2 = 1 := by
          rw [even_neg]
          change Even ((n : ℤ) + 1) ↔ _
          rw [Int.even_add_one, Int.not_even_iff_odd, Int.odd_iff]
          omega
        by_cases hodd : n % 2 = 1
        · rw [if_pos (heven.mpr hodd), decide_eq_true hodd]
          rfl
        · rw [if_neg (mt heven.mp hodd), decide_eq_false hodd]
          change -((n : ℤ) + 1) + 1 = -((n : ℤ) + 0)
          ring
  | towardZero =>
    change (if -t < 0 then ⌈-t⌉ else ⌊-t⌋) = _
    by_cases ht : -t < 0
    · rw [if_pos ht, Int.ceil_neg, hfloor]
      exact congrArg Neg.neg (add_zero _).symm
    · obtain ⟨ht0, hn, _⟩ := hzero ht
      rw [ht0, hn]
      simp [Rounding.bumps]
  | down =>
    change ⌊-t⌋ = _
    rw [Int.floor_neg, hceil]
    rfl
  | up =>
    change ⌈-t⌉ = _
    rw [Int.ceil_neg, hfloor]
    exact congrArg Neg.neg (add_zero _).symm
  | nearestAway =>
    change (if -t < 0 then ⌈-t - 1 / 2⌉ else ⌊-t + 1 / 2⌋) = _
    by_cases ht : -t < 0
    · rw [if_pos ht, ← neg_add', Int.ceil_neg, h.half_floor]
      rfl
    · obtain ⟨ht0, hn, hh⟩ := hzero ht
      rw [ht0, hn, hh]
      norm_num [Rounding.bumps]

theorem Lies.round (h : Lies t n half rest) (mode : Rounding) (negative : Bool) :
    mode.toInt (if negative then -t else t) =
      signed negative (n + if mode.bumps negative (n % 2 = 1) half rest then 1 else 0) := by
  cases negative with
  | false =>
    refine (h.round_nonneg mode).trans ?_
    unfold signed
    push_cast
    rfl
  | true =>
    refine (h.round_neg mode).trans ?_
    unfold signed
    push_cast
    rfl

theorem Lies.round_eq_iff (h : Lies t n half rest) (mode : Rounding) (negative : Bool) :
    (mode.toInt (if negative then -t else t) : ℝ) = (if negative then -t else t) ↔
      (half || rest) = false := by
  rw [Bool.or_eq_false_iff, ← h.exact_iff]
  constructor
  · intro heq
    cases negative with
    | false => exact ⟨_, heq.symm⟩
    | true =>
      refine ⟨-mode.toInt (-t), ?_⟩
      have heq : (mode.toInt (-t) : ℝ) = -t := heq
      push_cast
      rw [heq, neg_neg]
  · rintro ⟨k, rfl⟩
    cases negative with
    | false => exact congrArg _ (mode.toInt_intCast k)
    | true =>
      have hneg := mode.toInt_intCast (-k)
      push_cast at hneg
      rw [if_pos rfl, hneg]
      push_cast
      rfl

end Lies

end TinyProcessors
