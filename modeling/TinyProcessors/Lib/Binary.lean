import TinyProcessors.Lib.Bits
import TinyProcessors.Lib.Sticky

namespace TinyProcessors

/-- A format: the bits of its fraction and the range of its exponents. -/
structure Format where
  fraction : ℕ
  emin : ℤ
  emax : ℤ

namespace Format

section Spec

variable (F : Format) (mode : Rounding) (x : ℝ)

noncomputable def unit : ℤ := max (Int.log 2 |x|) F.emin - F.fraction

noncomputable def round : ℝ := mode.toInt (x / 2 ^ F.unit x) * 2 ^ F.unit x

/-- A number rounded to the precision of the format with an unbounded exponent. -/
noncomputable def roundFree : ℝ :=
  mode.toInt (x / 2 ^ (Int.log 2 |x| - F.fraction)) * 2 ^ (Int.log 2 |x| - F.fraction)

noncomputable def largest : ℝ := (2 ^ (F.fraction + 1) - 1) * 2 ^ (F.emax - F.fraction)

def Overflows : Prop := F.largest < |F.roundFree mode x|

def Tiny : Prop := |F.roundFree mode x| < 2 ^ F.emin

def Inexact : Prop := F.round mode x ≠ x

end Spec

section Rounds

variable {F : Format} {mode : Rounding} {x y : ℝ} {negative : Bool} {e : ℤ} {n m : ℕ}

theorem log_of_bounds (hlow : (2 : ℝ) ^ e ≤ y) (hhigh : y < 2 ^ (e + 1)) : Int.log 2 y = e := by
  have hpos : 0 < y := lt_of_lt_of_le (by positivity) hlow
  have h1 := (Int.zpow_le_iff_le_log (R := ℝ) one_lt_two hpos).mp (by exact_mod_cast hlow)
  have h2 := (Int.lt_zpow_iff_log_lt (R := ℝ) one_lt_two hpos).mp (by exact_mod_cast hhigh)
  omega

theorem abs_of_signed (hx : x = if negative then -y else y) (hy : 0 < y) : |x| = y := by
  rw [hx]
  cases negative with
  | false => exact abs_of_pos hy
  | true => exact (abs_neg y).trans (abs_of_pos hy)

theorem units_eq (hx : x = if negative then -y else y) (u : ℝ) :
    x / u = if negative then -(y / u) else y / u := by
  rw [hx]
  cases negative with
  | false => rfl
  | true => exact neg_div _ _

theorem toInt_of_lies (hx : x = if negative then -y else y)
    (h : Lies (y / 2 ^ e) n half rest) :
    mode.toInt (x / 2 ^ e) =
      signed negative (n + if mode.bumps negative (n % 2 = 1) half rest then 1 else 0) := by
  rw [← h.round mode negative, units_eq hx]

theorem abs_signed (negative : Bool) (m : ℕ) : |((signed negative m : ℤ) : ℝ)| = m := by
  unfold signed
  cases negative with
  | false => simp
  | true => simp

theorem base_mul (F : Format) (e : ℤ) : (2 : ℝ) ^ F.fraction * 2 ^ (e - F.fraction) = 2 ^ e := by
  rw [← zpow_natCast, ← zpow_add₀ two_ne_zero, add_sub_cancel]

theorem top_mul (F : Format) (e : ℤ) :
    (2 : ℝ) ^ (F.fraction + 1) * 2 ^ (e - F.fraction) = 2 ^ (e + 1) := by
  rw [pow_succ, mul_right_comm, F.base_mul, zpow_add_one₀ two_ne_zero]

theorem significand_bounds (h : Lies (y / 2 ^ (e - F.fraction)) n half rest)
    (hlow : 2 ^ e ≤ y) (hhigh : y < 2 ^ (e + 1)) (hm : m = n ∨ m = n + 1) :
    2 ^ F.fraction ≤ m ∧ m ≤ 2 ^ (F.fraction + 1) := by
  have hpos : (0 : ℝ) < 2 ^ (e - F.fraction) := by positivity
  have hfloor := h.floor
  have h1 : ((2 ^ F.fraction : ℕ) : ℤ) ≤ n := by
    rw [← hfloor, Int.le_floor, le_div_iff₀ hpos]
    push_cast
    rw [F.base_mul]
    exact hlow
  have h2 : (n : ℤ) < (2 ^ (F.fraction + 1) : ℕ) := by
    rw [← hfloor, Int.floor_lt, div_lt_iff₀ hpos]
    push_cast
    rw [F.top_mul]
    exact hhigh
  have h1' : 2 ^ F.fraction ≤ n := by exact_mod_cast h1
  have h2' : n < 2 ^ (F.fraction + 1) := by exact_mod_cast h2
  omega

/-- The exponent of a rounded significand, once a carry is put right. -/
def carried (F : Format) (e : ℤ) (m : ℕ) : ℤ := e + if m = 2 ^ (F.fraction + 1) then 1 else 0

theorem carried_le (F : Format) (e : ℤ) (m : ℕ) : F.carried e m ≤ e + 1 := by
  unfold carried
  split_ifs
  · exact le_refl _
  · omega

theorem scaled_lt_iff (hm : 2 ^ F.fraction ≤ m ∧ m ≤ 2 ^ (F.fraction + 1)) (k : ℤ) :
    (m : ℝ) * 2 ^ (e - F.fraction) < 2 ^ k ↔ F.carried e m < k := by
  have hpos : (0 : ℝ) < 2 ^ (e - F.fraction) := by positivity
  unfold carried
  split_ifs with hc
  · rw [hc]
    push_cast
    rw [F.top_mul, zpow_lt_zpow_iff_right₀ one_lt_two]
  · have hlt : m < 2 ^ (F.fraction + 1) := lt_of_le_of_ne hm.2 hc
    have hlow : (2 : ℝ) ^ e ≤ m * 2 ^ (e - F.fraction) := by
      rw [← F.base_mul]
      exact mul_le_mul_of_nonneg_right (by exact_mod_cast hm.1) hpos.le
    have hhigh : (m : ℝ) * 2 ^ (e - F.fraction) < 2 ^ (e + 1) := by
      rw [← F.top_mul]
      exact mul_lt_mul_of_pos_right (by exact_mod_cast hlt) hpos
    constructor
    · intro h
      have := (zpow_lt_zpow_iff_right₀ (one_lt_two : (1 : ℝ) < 2)).mp (hlow.trans_lt h)
      omega
    · intro h
      exact hhigh.trans_le (zpow_le_zpow_right₀ one_le_two (by omega))

theorem bumped {up : Bool} (hm : m = n + if up then 1 else 0) : m = n ∨ m = n + 1 := by
  split_ifs at hm
  · exact .inr hm
  · exact .inl hm

theorem pow_le_largest (F : Format) : (2 : ℝ) ^ F.emax ≤ F.largest := by
  have hone : (1 : ℝ) ≤ 2 ^ F.fraction := one_le_pow₀ one_le_two
  unfold largest
  rw [← F.base_mul, pow_succ]
  exact mul_le_mul_of_nonneg_right (by linarith) (by positivity)

theorem Overflows.not_tiny (h : F.Overflows mode x) (hF : F.emin ≤ F.emax) : ¬F.Tiny mode x := by
  intro ht
  have hpow : (2 : ℝ) ^ F.emin ≤ 2 ^ F.emax := zpow_le_zpow_right₀ one_le_two hF
  have hlargest := F.pow_le_largest
  unfold Overflows at h
  unfold Tiny at ht
  linarith

/-- What lies above the largest number is at the next power of two or beyond. -/
theorem largest_lt_iff (hm : 2 ^ F.fraction ≤ m ∧ m ≤ 2 ^ (F.fraction + 1)) :
    F.largest < m * 2 ^ (e - F.fraction) ↔ F.emax < F.carried e m := by
  have htop : F.largest < 2 ^ (F.emax + 1) := by
    have hpos : (0 : ℝ) < 2 ^ (F.emax - F.fraction) := by positivity
    unfold largest
    rw [← F.top_mul]
    exact mul_lt_mul_of_pos_right (by linarith) hpos
  have hbase := F.pow_le_largest
  have hlt := scaled_lt_iff (e := e) hm (F.emax + 1)
  constructor
  · intro h
    by_contra hle
    rcases eq_or_ne m (2 ^ (F.fraction + 1)) with hc | hc
    · have hdouble : (m : ℝ) * 2 ^ (e - F.fraction) ≤ 2 ^ F.emax := by
        unfold carried at hle
        rw [if_pos hc] at hle
        rw [hc]
        push_cast
        rw [F.top_mul]
        exact zpow_le_zpow_right₀ one_le_two (by omega)
      linarith
    · unfold carried at hle
      rw [if_neg hc] at hle
      have hmle : (m : ℝ) ≤ 2 ^ (F.fraction + 1) - 1 := by
        have : m + 1 ≤ 2 ^ (F.fraction + 1) := lt_of_le_of_ne hm.2 hc
        have : (m : ℝ) + 1 ≤ 2 ^ (F.fraction + 1) := by exact_mod_cast this
        linarith
      have hpow : (2 : ℝ) ^ (e - F.fraction) ≤ 2 ^ (F.emax - F.fraction) :=
        zpow_le_zpow_right₀ one_le_two (by omega)
      have : (m : ℝ) * 2 ^ (e - F.fraction) ≤ F.largest :=
        mul_le_mul hmle hpow (by positivity) ((Nat.cast_nonneg m).trans hmle)
      linarith
  · intro h
    have hge : ¬(m : ℝ) * 2 ^ (e - F.fraction) < 2 ^ (F.emax + 1) := by
      rw [hlt]
      omega
    linarith

section Signed

variable (hx : x = if negative then -y else y) (hlow : (2 : ℝ) ^ e ≤ y) (hhigh : y < 2 ^ (e + 1))

include hx hlow hhigh

theorem unit_eq : F.unit x = max e F.emin - F.fraction := by
  unfold unit
  rw [abs_of_signed hx (lt_of_lt_of_le (by positivity) hlow), log_of_bounds hlow hhigh]

theorem round_eq (h : Lies (y / 2 ^ (max e F.emin - F.fraction)) n half rest)
    (hm : m = n + if mode.bumps negative (n % 2 = 1) half rest then 1 else 0) :
    F.round mode x = signed negative m * 2 ^ (max e F.emin - F.fraction) := by
  unfold round
  rw [unit_eq hx hlow hhigh, toInt_of_lies hx h, hm]

theorem abs_roundFree (h : Lies (y / 2 ^ (e - F.fraction)) n half rest)
    (hm : m = n + if mode.bumps negative (n % 2 = 1) half rest then 1 else 0) :
    |F.roundFree mode x| = m * 2 ^ (e - F.fraction) := by
  unfold roundFree
  rw [abs_of_signed hx (lt_of_lt_of_le (by positivity) hlow), log_of_bounds hlow hhigh,
    toInt_of_lies hx h, ← hm, abs_mul, abs_signed, abs_of_pos (by positivity)]

theorem tiny_iff (h : Lies (y / 2 ^ (e - F.fraction)) n half rest)
    (hm : m = n + if mode.bumps negative (n % 2 = 1) half rest then 1 else 0) :
    F.Tiny mode x ↔ F.carried e m < F.emin := by
  unfold Tiny
  rw [abs_roundFree hx hlow hhigh h hm]
  exact scaled_lt_iff (significand_bounds h hlow hhigh (bumped hm)) _

theorem overflows_iff (h : Lies (y / 2 ^ (e - F.fraction)) n half rest)
    (hm : m = n + if mode.bumps negative (n % 2 = 1) half rest then 1 else 0) :
    F.Overflows mode x ↔ F.emax < F.carried e m := by
  unfold Overflows
  rw [abs_roundFree hx hlow hhigh h hm]
  exact largest_lt_iff (significand_bounds h hlow hhigh (bumped hm))

theorem not_overflows (he : e < F.emax) : ¬F.Overflows mode x := by
  obtain ⟨n, half, rest, h⟩ := exists_lies (t := y / 2 ^ (e - F.fraction))
    (div_nonneg ((zpow_pos two_pos e).le.trans hlow) (by positivity))
  rw [overflows_iff hx hlow hhigh h rfl, not_lt]
  exact (carried_le _ _ _).trans he

theorem inexact_iff (h : Lies (y / 2 ^ (max e F.emin - F.fraction)) n half rest) :
    F.Inexact mode x ↔ (half || rest) = true := by
  have hpos : (0 : ℝ) < 2 ^ (max e F.emin - F.fraction) := by positivity
  have hexact := h.round_eq_iff mode negative
  unfold Inexact round
  rw [unit_eq hx hlow hhigh, ← Bool.not_eq_false, ← hexact, ← units_eq hx, ne_eq,
    ← eq_div_iff hpos.ne']

end Signed

end Rounds

theorem round_zero (F : Format) (mode : Rounding) : F.round mode 0 = 0 := by
  unfold round
  rw [zero_div, ← Int.cast_zero, mode.toInt_intCast, Int.cast_zero, zero_mul]

theorem not_overflows_zero (F : Format) (mode : Rounding) : ¬F.Overflows mode 0 := by
  have hzero : F.roundFree mode 0 = 0 := by
    unfold roundFree
    rw [zero_div, ← Int.cast_zero, mode.toInt_intCast, Int.cast_zero, zero_mul]
  unfold Overflows largest
  rw [hzero, abs_zero, not_lt]
  have hone : (1 : ℝ) ≤ 2 ^ (F.fraction + 1) := one_le_pow₀ one_le_two
  exact mul_nonneg (by linarith) (by positivity)

end Format

def binary32 : Format := { fraction := 23, emin := -126, emax := 127 }

namespace Binary32

section Words

variable (w : BitVec 32)

def biased : BitVec 8 := w.extractLsb' 23 8

def trailing : BitVec 23 := w.extractLsb' 0 23

def IsFinite : Prop := biased w ≠ 0xff

def IsNan : Prop := biased w = 0xff ∧ trailing w ≠ 0

noncomputable def absValue : ℝ :=
  if biased w = 0 then (trailing w).toNat * 2 ^ (-149 : ℤ)
  else (2 ^ 23 + (trailing w).toNat) * 2 ^ ((biased w).toNat - 150 : ℤ)

noncomputable def value : ℝ := if w.msb then -absValue w else absValue w

theorem absValue_nonneg : 0 ≤ absValue w := by
  unfold absValue
  split_ifs
  · positivity
  · positivity

end Words

section Pack

def pack (sign : Bool) (e : BitVec 8) (f : BitVec 23) : BitVec 32 := BitVec.ofBool sign ++ e ++ f

variable (sign : Bool) (e : BitVec 8) (f : BitVec 23)

theorem pack_toNat : (pack sign e f).toNat = sign.toNat * 2 ^ 31 + e.toNat * 2 ^ 23 + f.toNat := by
  unfold pack
  rw [append_toNat, append_toNat, BitVec.toNat_ofBool]
  omega

theorem biased_pack : biased (pack sign e f) = e := by
  apply BitVec.eq_of_toNat_eq
  have he := e.isLt
  have hf := f.isLt
  have hs := sign.toNat_lt
  unfold biased
  rw [extractLsb'_toNat_div, pack_toNat]
  omega

theorem trailing_pack : trailing (pack sign e f) = f := by
  apply BitVec.eq_of_toNat_eq
  have hf := f.isLt
  unfold trailing
  rw [extractLsb'_toNat_div, pack_toNat]
  omega

theorem msb_pack : (pack sign e f).msb = sign := by
  have he := e.isLt
  have hf := f.isLt
  rw [BitVec.msb_eq_decide, pack_toNat]
  cases sign with
  | false =>
    rw [decide_eq_false_iff_not, Bool.toNat_false]
    omega
  | true =>
    rw [decide_eq_true_eq, Bool.toNat_true]
    omega

end Pack

structure Raises (flags : BitVec 5) (invalid byZero overflow underflow inexact : Prop) : Prop where
  invalid : flags.getLsbD 4 = true ↔ invalid
  byZero : flags.getLsbD 3 = true ↔ byZero
  overflow : flags.getLsbD 2 = true ↔ overflow
  underflow : flags.getLsbD 1 = true ↔ underflow
  inexact : flags.getLsbD 0 = true ↔ inexact

/-- The result of an overflow: an infinity, or the largest number. -/
def overflowed (mode : Rounding) (negative : Bool) : BitVec 32 :=
  let finite := match mode with
    | .nearestEven => false
    | .towardZero => true
    | .down => !negative
    | .up => negative
    | .nearestAway => false
  if finite then pack negative 0xfe 0x7fffff else pack negative 0xff 0

/-- A word and flags are those of an exact result rounded once. -/
structure Rounded (mode : Rounding) (x : ℝ) (zeroSign : Bool) (w : BitVec 32)
    (flags : BitVec 5) : Prop where
  overflow : binary32.Overflows mode x → w = overflowed mode (w.msb)
  finite : ¬binary32.Overflows mode x → IsFinite w ∧ value w = binary32.round mode x
  sign : w.msb = true ↔ x < 0 ∨ x = 0 ∧ zeroSign = true
  flags : Raises flags False False (binary32.Overflows mode x)
    (binary32.Tiny mode x ∧ binary32.Inexact mode x)
    (binary32.Overflows mode x ∨ binary32.Inexact mode x)

section Rounds

variable {mode : Rounding} {x y : ℝ} {negative zeroSign : Bool} {e : ℤ} {n m : ℕ}

theorem absValue_of_fields (hm : m < 2 ^ 24) (he : -126 ≤ e ∧ e ≤ 127)
    (hsub : m < 2 ^ 23 → e = -126)
    (hexp : ((biased w).toNat : ℤ) = if m < 2 ^ 23 then 0 else e + 127)
    (hfrac : (trailing w).toNat = m % 2 ^ 23) :
    IsFinite w ∧ absValue w = m * 2 ^ (e - 23) := by
  by_cases hlow : m < 2 ^ 23
  · rw [if_pos hlow] at hexp
    have hzero : biased w = 0 := BitVec.eq_of_toNat_eq (by exact_mod_cast hexp)
    unfold IsFinite absValue
    rw [hzero, if_pos rfl, hfrac, Nat.mod_eq_of_lt hlow, hsub hlow]
    exact ⟨by decide, rfl⟩
  · rw [if_neg hlow] at hexp
    have hne (k : BitVec 8) (hk : (k.toNat : ℤ) ≠ e + 127) : biased w ≠ k := by
      intro h
      rw [h] at hexp
      exact hk hexp
    have hsplit : m = 2 ^ 23 + m % 2 ^ 23 := by omega
    have hcast : (m : ℝ) = 2 ^ 23 + (m % 2 ^ 23 : ℕ) := by exact_mod_cast hsplit
    refine ⟨hne _ ?_, ?_⟩
    · change (255 : ℤ) ≠ _
      omega
    · unfold absValue
      rw [if_neg (hne _ (by change (0 : ℤ) ≠ _; omega)), hfrac, hexp, hcast]
      congr 2
      ring

theorem rounded_zero : Rounded mode 0 zeroSign (pack zeroSign 0 0) 0 := by
  have hround := binary32.round_zero mode
  have hover := binary32.not_overflows_zero mode
  have hexact : ¬binary32.Inexact mode 0 := not_not.mpr hround
  refine ⟨fun h => absurd h hover, fun _ => ⟨?_, ?_⟩, ?_, by simp, by simp, ?_, ?_, ?_⟩
  · unfold IsFinite
    rw [biased_pack]
    decide
  · unfold value absValue
    rw [hround, biased_pack, trailing_pack]
    simp
  · rw [msb_pack]
    simp
  · simp [hover]
  · simp [hexact]
  · simp [hexact, hover]

theorem neg_iff (hx : x = if negative then -y else y) (hy : 0 < y) :
    negative = true ↔ x < 0 ∨ x = 0 ∧ zeroSign = true := by
  rw [hx]
  cases negative with
  | false => simp [hy.not_gt, hy.ne']
  | true => simp [hy, hy.ne']

theorem rounded_overflow (hx : x = if negative then -y else y) (hy : 0 < y)
    (h : binary32.Overflows mode x) :
    Rounded mode x zeroSign (overflowed mode negative) 0x5 := by
  have htiny : ¬binary32.Tiny mode x := h.not_tiny (by decide)
  have hmsb : (overflowed mode negative).msb = negative := by
    unfold overflowed
    dsimp only
    split_ifs
    · exact msb_pack _ _ _
    · exact msb_pack _ _ _
  refine ⟨fun _ => by rw [hmsb], fun hno => absurd h hno, ?_, by simp, by simp, ?_, ?_, ?_⟩
  · rw [hmsb]
    exact neg_iff hx hy
  · simp [h]
  · simp [htiny]
  · simp [h]

theorem rounded_finite (hx : x = if negative then -y else y) (hlow : (2 : ℝ) ^ e ≤ y)
    (hhigh : y < 2 ^ (e + 1)) (h : Lies (y / 2 ^ (max e (-126) - 23)) n half rest)
    (hm : m = n + if mode.bumps negative (n % 2 = 1) half rest then 1 else 0)
    (hover : ¬binary32.Overflows mode x)
    (hw : IsFinite w ∧ absValue w = m * 2 ^ (max e (-126) - 23)) (hsign : w.msb = negative)
    (hflags : Raises flags False False False (binary32.Tiny mode x ∧ (half || rest) = true)
      ((half || rest) = true)) :
    Rounded mode x zeroSign w flags := by
  have hy : 0 < y := lt_of_lt_of_le (by positivity) hlow
  have hinexact : binary32.Inexact mode x ↔ (half || rest) = true :=
    Format.inexact_iff hx hlow hhigh h
  refine ⟨fun ho => absurd ho hover, fun _ => ⟨hw.1, ?_⟩, ?_, ?_⟩
  · have hround : binary32.round mode x = _ := Format.round_eq hx hlow hhigh h hm
    rw [hround]
    unfold value
    rw [hsign, hw.2]
    unfold signed
    cases negative with
    | false | true => simp [binary32]
  · rw [hsign]
    exact neg_iff hx hy
  · obtain ⟨hnv, hdz, hof, huf, hnx⟩ := hflags
    refine ⟨hnv, hdz, ?_, ?_, ?_⟩
    · simpa [hover] using hof
    · rw [huf, hinexact]
    · rw [hnx, hinexact]
      simp [hover]

end Rounds

end Binary32

end TinyProcessors
