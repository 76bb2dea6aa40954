import TinyProcessors.Rtl.Fp32Add

namespace TinyProcessors

namespace Fp32

open Binary32 (IsFinite IsNan absValue value pack Rounded)

theorem Yields.later {s : Fp32} (k : Nat) (h : (work^[k] s).Yields Q) : s.Yields Q := by
  induction k generalizing s with
  | zero => exact h
  | succ k ih => exact .next (ih h)

structure Recurred (s t : Fp32) (q : Nat) (rest : Bool) : Prop where
  state : t.state = .normalize
  mode : t.mode = s.mode
  sign : t.signResult = s.signResult
  exponent : t.exponent = s.exponent
  window : t.magnitude.toNat = q * 2 ^ 53 + rest.toNat

section Window

variable {s t : Fp32} {mode : Rounding} {y : ℝ} {e : ℤ} {q : Nat} {rest : Bool}

theorem Recurred.yields (h : Recurred s t q rest) (hm : s.mode = rmOf mode)
    (he : Reg s.exponent e 400) (hbig : 2 ^ 25 ≤ q)
    (hy : (q : ℝ) ≤ y * 2 ^ (26 - e) ∧ y * 2 ^ (26 - e) < q + 1)
    (hexact : rest = false ↔ y * 2 ^ (26 - e) = q) :
    t.Yields (Rounded mode (if s.signResult then -y else y) zeroSign) := by
  have hwindow := h.window
  have hne : t.magnitude ≠ 0 := by
    intro hz
    rw [hz] at hwindow
    change 0 = _ at hwindow
    omega
  have hscale : y * 2 ^ (79 - e) = y * 2 ^ (26 - e) * 2 ^ 53 := by
    rw [mul_assoc, ← zpow_natCast, ← zpow_add₀ two_ne_zero]
    congr 2
    push_cast
    ring
  have hstands : Stands (2 ^ 53) t.magnitude.toNat (y * 2 ^ (79 - e)) := by
    have hrest : (rest.toNat : ℝ) < 2 ^ 53 := by
      cases rest <;> norm_num
    have hpos : (0 : ℝ) < 2 ^ 53 := by positivity
    have hcast : (t.magnitude.toNat : ℝ) = q * 2 ^ 53 + rest.toNat := by
      rw [hwindow, Nat.cast_add, Nat.cast_mul, Nat.cast_pow, Nat.cast_ofNat]
    rw [hscale, hcast]
    refine stands_of_between (q := q) hpos ⟨?_, ?_⟩ ⟨?_, ?_⟩ ?_
    · push_cast
      linarith [(Nat.cast_nonneg rest.toNat : (0 : ℝ) ≤ rest.toNat)]
    · push_cast
      linarith
    · push_cast
      exact mul_le_mul_of_nonneg_right hy.1 hpos.le
    · push_cast
      exact mul_lt_mul_of_pos_right hy.2 hpos
    · push_cast
      rw [mul_left_inj' hpos.ne', ← hexact, add_eq_left, Nat.cast_eq_zero]
      cases rest <;> decide
  obtain ⟨hzeros, hlog⟩ := leadingZeros_toNat t.magnitude hne
  have htop : 78 ≤ t.magnitude.toNat.log2 :=
    (Nat.le_log2 (by omega)).mpr (by omega)
  obtain ⟨k, hk⟩ : ∃ k, 55 = k + 53 + (leadingZeros t.magnitude).toNat :=
    ⟨2 - (leadingZeros t.magnitude).toNat, by omega⟩
  refine normalize_nonzero h.state (h.mode.trans hm) h.sign (by rw [h.exponent]; exact he) hne ?_
  have hgrid : (2 : ℝ) ^ 55 / 2 ^ (leadingZeros t.magnitude).toNat =
      ((2 ^ k : ℤ) : ℝ) * 2 ^ 53 := by
    rw [hk, pow_add, mul_div_cancel_right₀ _ (by positivity), pow_add]
    push_cast
    rfl
  rw [hgrid]
  exact hstands.coarser _

end Window

section Divide

variable {s : Fp32} {mode : Rounding}

theorem work_divide (hd : s.state = .divide) : s.work = s.divide := by
  unfold work
  rw [hd]

theorem divBit_iff (s : Fp32) : s.divBit = true ↔ s.divisor.toNat ≤ s.divRemainder.toNat := by
  have hlt := s.divisor.isLt
  unfold divBit
  rw [decide_eq_true_eq, BitVec.le_def, BitVec.toNat_setWidth, Nat.mod_eq_of_lt (by omega)]

theorem divBit_toNat (s : Fp32) :
    s.divBit.toNat = if s.divisor.toNat ≤ s.divRemainder.toNat then 1 else 0 := by
  by_cases h : s.divisor.toNat ≤ s.divRemainder.toNat
  · rw [if_pos h, (divBit_iff s).mpr h]
    rfl
  · rw [if_neg h, (Bool.not_eq_true _).mp (mt (divBit_iff s).mp h)]
    rfl

theorem divDifference_toNat (s : Fp32) :
    s.divDifference.toNat = s.divRemainder.toNat - s.divBit.toNat * s.divisor.toNat := by
  have hlt := s.divisor.isLt
  have hwide : (s.divisor.setWidth 27).toNat = s.divisor.toNat := by
    rw [BitVec.toNat_setWidth, Nat.mod_eq_of_lt (by omega)]
  unfold divDifference
  cases hb : s.divBit with
  | false =>
    rw [if_neg (by decide)]
    simp
  | true =>
    have hle := (divBit_iff s).mp hb
    rw [if_pos rfl, BitVec.toNat_sub_of_le (by rw [BitVec.le_def, hwide]; exact hle), hwide]
    simp

theorem nextQuotient_toNat (s : Fp32) :
    s.nextQuotient.toNat = 2 * s.quotient.toNat + s.divBit.toNat := by
  unfold nextQuotient
  rw [append_toNat, BitVec.toNat_ofBool]
  omega

theorem iteration_eq_one (h : s.iteration.toNat = 1) : s.iteration = 1 := BitVec.eq_of_toNat_eq h

theorem iteration_succ (h : s.iteration.toNat = j + 2) :
    s.iteration ≠ 1 ∧ (s.iteration - 1).toNat = j + 1 := by
  constructor
  · intro hone
    rw [hone] at h
    change 1 = _ at h
    omega
  · have hlt := s.iteration.isLt
    rw [BitVec.toNat_sub]
    change (2 ^ 6 - 1 + s.iteration.toNat) % 2 ^ 6 = _
    omega

theorem divide_loop (hd : s.state = .divide) (hit : s.iteration.toNat = j + 1) (hj : j ≤ 26)
    (hq : s.quotient.toNat < 2 ^ (26 - j))
    (h : Digits n s.divisor.toNat (26 - j) s.quotient.toNat s.divRemainder.toNat) :
    ∃ k q r, Recurred s (work^[k] s) q (decide (r ≠ 0)) ∧ n * 2 ^ 26 = q * s.divisor.toNat + r ∧
      r < s.divisor.toNat := by
  induction j generalizing s with
  | zero =>
    obtain ⟨htaken, hsmall⟩ := h.digit _ (divBit_toNat s)
    refine ⟨1, _, _, ?_, htaken, hsmall⟩
    rw [Function.iterate_one, work_divide hd]
    unfold divide
    rw [if_pos (iteration_eq_one hit)]
    refine ⟨rfl, rfl, rfl, rfl, ?_⟩
    have hrest : decide (s.divDifference ≠ 0) =
        decide (s.divRemainder.toNat - s.divBit.toNat * s.divisor.toNat ≠ 0) := by
      rw [decide_eq_decide, ← divDifference_toNat]
      exact not_congr BitVec.toNat_inj.symm
    change (s.nextQuotient ++ 0#52 ++ BitVec.ofBool (decide (s.divDifference ≠ 0))).toNat = _
    rw [append_toNat, append_toNat, BitVec.toNat_ofBool, BitVec.toNat_zero, nextQuotient_toNat,
      hrest]
    omega
  | succ j ih =>
    obtain ⟨hne, hnext⟩ := iteration_succ hit
    have hlt := s.divisor.isLt
    have hround := h.round _ (divBit_toNat s)
    have hpow : 2 ^ (26 - j) = 2 * 2 ^ (26 - (j + 1)) := by
      rw [← pow_succ', show 26 - (j + 1) + 1 = 26 - j by omega]
    have hmax : 2 ^ (26 - j) ≤ 2 ^ 26 := Nat.pow_le_pow_right two_pos (by omega)
    have hbit := s.divBit.toNat_lt
    have hwork : s.work = { s with
        quotient := s.nextQuotient.extractLsb' 0 26
        divRemainder := s.divDifference <<< 1
        iteration := s.iteration - 1 } := by
      rw [work_divide hd]
      unfold divide
      exact if_neg hne
    have hquot : (s.nextQuotient.extractLsb' 0 26).toNat =
        2 * s.quotient.toNat + s.divBit.toNat := by
      rw [extractLsb'_toNat_div, nextQuotient_toNat]
      omega
    have hrem : (s.divDifference <<< 1).toNat =
        2 * (s.divRemainder.toNat - s.divBit.toNat * s.divisor.toNat) := by
      have hsmall := hround.small
      rw [BitVec.toNat_shiftLeft, Nat.shiftLeft_eq, divDifference_toNat,
        Nat.mod_eq_of_lt (by omega)]
      omega
    obtain ⟨k, q, r, hrec, hdiv⟩ := ih (s := s.work) (by rw [hwork]; exact hd)
      (by rw [hwork]; exact hnext) (by omega)
      (by
        rw [hwork]
        change (s.nextQuotient.extractLsb' 0 26).toNat < _
        rw [hquot]
        omega)
      (by
        rw [hwork]
        change Digits n s.divisor.toNat _ (s.nextQuotient.extractLsb' 0 26).toNat
          (s.divDifference <<< 1).toNat
        rw [hquot, hrem, show 26 - j = 26 - (j + 1) + 1 by omega]
        exact hround)
    refine ⟨k + 1, q, r, ?_, ?_⟩
    · rw [Function.iterate_succ_apply]
      refine ⟨hrec.state, hrec.mode.trans ?_, hrec.sign.trans ?_, hrec.exponent.trans ?_,
        hrec.window⟩
      · rw [hwork]
      · rw [hwork]
      · rw [hwork]
    · rw [hwork] at hdiv
      exact hdiv

theorem decode_div (hop : s.operation = opDiv) (hm : s.mode = rmOf mode) :
    s.decode = s.decodeDiv := by
  unfold decode
  rw [hm, hop]
  cases mode <;> rfl

theorem value_div (v w : Word) : value v / value w =
    if v.msb ^^ w.msb then -(absValue v / absValue w) else absValue v / absValue w := by
  unfold value
  cases v.msb <;> cases w.msb <;> simp [neg_div, div_neg]

theorem significand_of_nonzero (hv : IsFinite v) (hne : absValue v ≠ 0) : ∃ e,
    Reg (unpack v).1 e 150 ∧ absValue v = (unpack v).2.toNat * 2 ^ (e - 23) ∧
      2 ^ 23 ≤ (unpack v).2.toNat := by
  obtain ⟨e, he, hval, hsig⟩ := unpack_spec v hv
  refine ⟨e, he, hval, hsig.resolve_left ?_⟩
  rintro ⟨hzero, _⟩
  rw [hzero, Nat.cast_zero, zero_mul] at hval
  exact hne hval

theorem quotient_bounds {m d q r : Nat} (hm : 2 ^ 23 ≤ m) (hd : 0 < d) (hd' : d < 2 ^ 24)
    (hdiv : m * 2 ^ 26 = q * d + r) (hr : r < d) :
    2 ^ 25 ≤ q ∧ (q : ℝ) ≤ m / d * 2 ^ 26 ∧ (m : ℝ) / d * 2 ^ 26 < q + 1 ∧
      (r = 0 ↔ (m : ℝ) / d * 2 ^ 26 = q) := by
  have hpos : (0 : ℝ) < d := by exact_mod_cast hd
  have heq : (m : ℝ) / d * 2 ^ 26 = q + r / d := by
    have hcast : (m : ℝ) * 2 ^ 26 = q * d + r := by exact_mod_cast hdiv
    rw [div_mul_eq_mul_div, hcast, add_div, mul_div_cancel_right₀ _ hpos.ne']
  have hfrac : (0 : ℝ) ≤ r / d := by positivity
  have hless : (r : ℝ) / d < 1 := by
    rw [div_lt_one hpos]
    exact_mod_cast hr
  refine ⟨?_, ?_, ?_, ?_⟩
  · by_contra hq
    have hle : q + 1 ≤ 2 ^ 25 := by omega
    have h1 : (q + 1) * d ≤ 2 ^ 25 * d := Nat.mul_le_mul_right d hle
    have h2 : (q + 1) * d = q * d + d := by ring
    omega
  · linarith
  · linarith
  · rw [heq, add_eq_left, div_eq_zero_iff, or_iff_left hpos.ne', Nat.cast_eq_zero]

theorem div_yields (hd : s.state = .decode) (hm : s.mode = rmOf mode) (hop : s.operation = opDiv)
    (hx : IsFinite s.x) (hy : IsFinite s.y) (hne : value s.y ≠ 0) :
    s.Yields (Rounded mode (value s.x / value s.y) (s.x.msb ^^ s.y.msb)) := by
  have hny : absValue s.y ≠ 0 := by
    intro h
    apply hne
    rw [value_eq, h]
    simp
  have hzy : isZero s.y = false := by
    rw [← Bool.not_eq_true, isZero_iff]
    exact hny
  apply Yields.next
  rw [work_decode hd, decode_div hop hm]
  unfold decodeDiv
  dsimp only
  rw [not_nan_of_finite hx, not_nan_of_finite hy, not_inf_of_finite hx, not_inf_of_finite hy, hzy]
  simp only [Bool.or_self, Bool.and_false, Bool.false_eq_true, if_false, Bool.or_false]
  by_cases hnx : absValue s.x = 0
  · have hzero : value s.x / value s.y = 0 := by
      rw [value_div, hnx]
      simp
    rw [if_pos ((isZero_iff _).mpr hnx), hzero, zero_eq]
    exact .finish _ Binary32.rounded_zero
  · obtain ⟨ex, hex, hvx, hsx⟩ := significand_of_nonzero hx hnx
    obtain ⟨ey, hey, hvy, hsy⟩ := significand_of_nonzero hy hny
    have hlx := (unpack s.x).2.isLt
    have hly := (unpack s.y).2.isLt
    rw [if_neg (by rw [isZero_iff]; exact hnx), value_div]
    obtain ⟨k, q, r, hrec, hdiv, hr⟩ := divide_loop (s := { s with
        signResult := s.x.msb ^^ s.y.msb
        divRemainder := s.sigX.setWidth 27
        divisor := s.sigY
        quotient := 0
        iteration := 27
        exponent := s.expX - s.expY
        state := .divide }) (j := 26) (n := (unpack s.x).2.toNat) rfl rfl (le_refl _) Nat.one_pos
      ⟨by
        change _ = 2 * (0 * _) + (s.sigX.setWidth 27).toNat
        rw [BitVec.toNat_setWidth]
        change _ = 2 * (0 * _) + (unpack s.x).2.toNat % _
        omega, by
        change (s.sigX.setWidth 27).toNat < 2 * (unpack s.y).2.toNat
        rw [BitVec.toNat_setWidth]
        change (unpack s.x).2.toNat % _ < _
        omega⟩
    obtain ⟨hbig, hlow, hhigh, hexact⟩ := quotient_bounds hsx (by omega) hly hdiv hr
    have hscale : absValue s.x / absValue s.y * 2 ^ (26 - (ex - ey)) =
        (unpack s.x).2.toNat / (unpack s.y).2.toNat * 2 ^ 26 := by
      rw [hvx, hvy, mul_div_mul_comm, ← zpow_sub₀ two_ne_zero, mul_assoc, ← zpow_add₀ two_ne_zero]
      congr 1
      rw [show ex - 23 - (ey - 23) + (26 - (ex - ey)) = 26 by ring]
      norm_num
    apply Yields.later k
    refine hrec.yields hm ((hex.sub hey (by norm_num)).mono (by norm_num)) hbig ?_ ?_
    · rw [hscale]
      exact ⟨hlow, hhigh⟩
    · rw [hscale, ← hexact, decide_eq_false_iff_not, not_not]

end Divide

section Sqrt

variable {s : Fp32} {mode : Rounding}

theorem work_sqrt (hd : s.state = .sqrt) : s.work = s.sqrt := by
  unfold work
  rw [hd]

theorem sqrtStep_toNat (s : Fp32) : s.sqrtStep.toNat =
    4 * s.sqrtRemainder.toNat + s.radicand.toNat / 4 ^ 26 := by
  have hlt := s.radicand.isLt
  unfold sqrtStep
  rw [append_toNat, extractLsb'_toNat_div]
  omega

theorem sqrtTrial_toNat (s : Fp32) : s.sqrtTrial.toNat = 4 * s.root.toNat + 1 := by
  unfold sqrtTrial
  rw [append_toNat, append_toNat, BitVec.toNat_zero]
  change (0 * 2 ^ 27 + s.root.toNat) * 2 ^ 2 + 1 = _
  omega

theorem sqrtBit_iff (s : Fp32) : s.sqrtBit = true ↔ 4 * s.root.toNat + 1 ≤ s.sqrtStep.toNat := by
  unfold sqrtBit
  rw [decide_eq_true_eq, BitVec.le_def, sqrtTrial_toNat]

theorem sqrtBit_toNat (s : Fp32) :
    s.sqrtBit.toNat = if 4 * s.root.toNat + 1 ≤ s.sqrtStep.toNat then 1 else 0 := by
  by_cases h : 4 * s.root.toNat + 1 ≤ s.sqrtStep.toNat
  · rw [if_pos h, (sqrtBit_iff s).mpr h]
    rfl
  · rw [if_neg h, (Bool.not_eq_true _).mp (mt (sqrtBit_iff s).mp h)]
    rfl

theorem sqrtDifference_toNat (s : Fp32) : s.sqrtDifference.toNat =
    s.sqrtStep.toNat - s.sqrtBit.toNat * (4 * s.root.toNat + 1) := by
  unfold sqrtDifference
  cases hb : s.sqrtBit with
  | false =>
    rw [if_neg (by decide)]
    simp
  | true =>
    have hle := (sqrtBit_iff s).mp hb
    rw [if_pos rfl, BitVec.toNat_sub_of_le (by rw [BitVec.le_def, sqrtTrial_toNat]; exact hle),
      sqrtTrial_toNat]
    simp

theorem nextRoot_toNat (h : s.root.toNat < 2 ^ 26) :
    s.nextRoot.toNat = 2 * s.root.toNat + s.sqrtBit.toNat := by
  unfold nextRoot
  rw [append_toNat, extractLsb'_toNat_div, BitVec.toNat_ofBool]
  omega

theorem sqrt_round (hj : j ≤ 26) (hroot : s.root.toNat < 2 ^ (26 - j))
    (hrad : s.radicand.toNat = n % 4 ^ (j + 1) * 4 ^ (26 - j))
    (h : Rooted n (j + 1) s.root.toNat s.sqrtRemainder.toNat) :
    Rooted n j s.nextRoot.toNat s.sqrtDifference.toNat ∧ s.nextRoot.toNat < 2 ^ (26 - j + 1) ∧
      (s.radicand <<< 2).toNat = n % 4 ^ j * 4 ^ (26 - j + 1) := by
  obtain ⟨htop, hshift⟩ := feeding_digit (w := 27) (by omega) hrad
  have hmax : 2 ^ (26 - j) ≤ 2 ^ 26 := Nat.pow_le_pow_right two_pos (by omega)
  have hbit := s.sqrtBit.toNat_lt
  have hnext := nextRoot_toNat (s := s) (by omega)
  have hround := h.round s.sqrtBit.toNat s.sqrtStep.toNat (by rw [sqrtStep_toNat, ← htop])
    (sqrtBit_toNat s)
  rw [← hnext, ← sqrtDifference_toNat] at hround
  refine ⟨hround, ?_, ?_⟩
  · rw [pow_succ]
    omega
  · rw [BitVec.toNat_shiftLeft, Nat.shiftLeft_eq, ← hshift]
    rfl

theorem sqrt_loop (hd : s.state = .sqrt) (hit : s.iteration.toNat = j + 1) (hj : j ≤ 26)
    (hroot : s.root.toNat < 2 ^ (26 - j))
    (hrad : s.radicand.toNat = n % 4 ^ (j + 1) * 4 ^ (26 - j))
    (h : Rooted n (j + 1) s.root.toNat s.sqrtRemainder.toNat) :
    ∃ k q r, Recurred s (work^[k] s) q (decide (r ≠ 0)) ∧ n = q * q + r ∧ r ≤ 2 * q := by
  induction j generalizing s with
  | zero =>
    obtain ⟨hround, _, _⟩ := sqrt_round hj hroot hrad h
    have htaken := hround.taken
    rw [pow_zero, Nat.div_one] at htaken
    refine ⟨1, _, _, ?_, htaken, hround.small⟩
    rw [Function.iterate_one, work_sqrt hd]
    unfold sqrt
    rw [if_pos (iteration_eq_one hit)]
    refine ⟨rfl, rfl, rfl, rfl, ?_⟩
    have hrest : decide (s.sqrtDifference ≠ 0) = decide (s.sqrtDifference.toNat ≠ 0) := by
      rw [decide_eq_decide]
      exact not_congr BitVec.toNat_inj.symm
    change (s.nextRoot ++ 0#52 ++ BitVec.ofBool (decide (s.sqrtDifference ≠ 0))).toNat = _
    rw [append_toNat, append_toNat, BitVec.toNat_ofBool, BitVec.toNat_zero, hrest]
    omega
  | succ j ih =>
    obtain ⟨hround, hsmall, hfed⟩ := sqrt_round hj hroot hrad h
    obtain ⟨hne, hnext⟩ := iteration_succ hit
    have hwork : s.work = { s with
        root := s.nextRoot
        sqrtRemainder := s.sqrtDifference.extractLsb' 0 54
        radicand := s.radicand <<< 2
        iteration := s.iteration - 1 } := by
      rw [work_sqrt hd]
      unfold sqrt
      exact if_neg hne
    have hrem : (s.sqrtDifference.extractLsb' 0 54).toNat = s.sqrtDifference.toNat := by
      have hle := hround.small
      have hlt := s.nextRoot.isLt
      rw [extractLsb'_toNat_div]
      omega
    rw [show 26 - (j + 1) + 1 = 26 - j by omega] at hsmall hfed
    rw [← hrem] at hround
    obtain ⟨k, q, r, hrec, hval⟩ := ih (s := s.work) (by rw [hwork]; exact hd)
      (by rw [hwork]; exact hnext) (by omega) (by rw [hwork]; exact hsmall)
      (by rw [hwork]; exact hfed) (by rw [hwork]; exact hround)
    refine ⟨k + 1, q, r, ?_, hval⟩
    rw [Function.iterate_succ_apply]
    refine ⟨hrec.state, hrec.mode.trans ?_, hrec.sign.trans ?_, hrec.exponent.trans ?_,
      hrec.window⟩
    · rw [hwork]
    · rw [hwork]
    · rw [hwork]

theorem decode_sqrt (hop : s.operation = opSqrt) (hm : s.mode = rmOf mode) :
    s.decode = s.decodeSqrt := by
  unfold decode
  rw [hm, hop]
  cases mode <;> rfl

theorem root_bounds {n q r : Nat} (hn : 2 ^ 52 ≤ n) (hval : n = q * q + r) (hr : r ≤ 2 * q) :
    2 ^ 25 ≤ q ∧ (q : ℝ) ≤ √n ∧ √(n : ℝ) < q + 1 ∧ (r = 0 ↔ √(n : ℝ) = q) := by
  have hq : (0 : ℝ) ≤ q := Nat.cast_nonneg q
  have hcast : (n : ℝ) = q * q + r := by exact_mod_cast hval
  have hr' : (r : ℝ) ≤ 2 * q := by exact_mod_cast hr
  refine ⟨?_, ?_, ?_, ?_⟩
  · by_contra hlt
    have hle : q ≤ 2 ^ 25 - 1 := by omega
    have hmul : q * q ≤ (2 ^ 25 - 1) * (2 ^ 25 - 1) := Nat.mul_le_mul hle hle
    omega
  · apply Real.le_sqrt_of_sq_le
    rw [pow_two, hcast]
    linarith [(Nat.cast_nonneg r : (0 : ℝ) ≤ r)]
  · rw [Real.sqrt_lt' (by linarith), hcast]
    nlinarith
  · rw [Real.sqrt_eq_iff_mul_self_eq (by positivity) hq, hcast]
    constructor
    · intro h
      rw [h, Nat.cast_zero, add_zero]
    · intro h
      have : (r : ℝ) = 0 := by linarith
      exact_mod_cast this

theorem radicand_eq {v : Word} (he : Reg (unpack v).1 e 150) :
    (if (unpack v).1.getLsbD 0 then (unpack v).2 ++ 0#30
      else 0#1 ++ (unpack v).2 ++ 0#29 : BitVec 54).toNat =
    (unpack v).2.toNat * 2 ^ (29 + (e - 2 * (e / 2)).toNat) := by
  have hval := he.value
  rw [BitVec.toInt_eq_toNat_cond] at hval
  have hodd : (unpack v).1.getLsbD 0 = true ↔ e % 2 = 1 := by
    rw [getLsbD_eq_decide, decide_eq_true_eq]
    split at hval <;> omega
  by_cases hbit : e % 2 = 1
  · rw [if_pos (hodd.mpr hbit), append_toNat, BitVec.toNat_zero, Nat.add_zero,
      show (e - 2 * (e / 2)).toNat = 1 by omega]
  · rw [if_neg (mt hodd.mp hbit), append_toNat, append_toNat, BitVec.toNat_zero,
      BitVec.toNat_zero, show (e - 2 * (e / 2)).toNat = 0 by omega]
    omega

theorem sqrt_yields (hd : s.state = .decode) (hm : s.mode = rmOf mode)
    (hop : s.operation = opSqrt) (hx : IsFinite s.x) (hpos : 0 ≤ value s.x) :
    s.Yields (Rounded mode √(value s.x) s.x.msb) := by
  apply Yields.next
  rw [work_decode hd, decode_sqrt hop hm]
  unfold decodeSqrt
  dsimp only
  rw [not_nan_of_finite hx, not_inf_of_finite hx]
  simp only [Bool.false_eq_true, if_false]
  by_cases hnx : absValue s.x = 0
  · have hzero : value s.x = 0 := by
      rw [value_eq, hnx]
      simp
    have hword : s.x = pack s.x.msb 0 0 := by
      have hlow : (s.x.extractLsb' 0 31).toNat = 0 := by
        have h := (isZero_iff s.x).mpr hnx
        unfold isZero at h
        rw [decide_eq_true_eq] at h
        exact congrArg BitVec.toNat h
      have hlt := s.x.isLt
      apply BitVec.eq_of_toNat_eq
      rw [extractLsb'_toNat_div] at hlow
      rw [Binary32.pack_toNat, BitVec.msb_eq_decide]
      change _ = _ + 0 * _ + 0
      by_cases hbig : 2 ^ 31 ≤ s.x.toNat
      · rw [decide_eq_true hbig, Bool.toNat_true]
        omega
      · rw [decide_eq_false hbig, Bool.toNat_false]
        omega
    rw [if_pos ((isZero_iff _).mpr hnx), hzero, Real.sqrt_zero]
    refine .finish _ ?_
    have h : Rounded mode 0 s.x.msb (pack s.x.msb 0 0) 0 := Binary32.rounded_zero
    rwa [← hword] at h
  · have hneg : s.x.msb = false := by
      by_contra h
      have hlt : 0 < absValue s.x := lt_of_le_of_ne (Binary32.absValue_nonneg _) (Ne.symm hnx)
      rw [value_eq, if_pos (Bool.not_eq_false _ ▸ h)] at hpos
      linarith
    have hvalue : value s.x = absValue s.x := by
      rw [value_eq, hneg]
      rfl
    obtain ⟨e, he, hval, hsig⟩ := significand_of_nonzero hx hnx
    have hlt := (unpack s.x).2.isLt
    have hrad := radicand_eq he
    have hparity : (e - 2 * (e / 2)).toNat ≤ 1 := by omega
    have hexp : Reg (s.expX.sshiftRight 1) (e / 2) 150 := by
      refine ⟨?_, ?_⟩
      · rw [BitVec.toInt_sshiftRight, Int.shiftRight_eq_div_pow]
        change (unpack s.x).1.toInt / _ = _
        rw [he.value]
        rfl
      · have := he.bound
        rw [abs_le] at this ⊢
        omega
    generalize hn : (unpack s.x).2.toNat * 2 ^ (29 + (e - 2 * (e / 2)).toNat) = n at hrad
    have hlow : 2 ^ 52 ≤ n := by
      rw [← hn, pow_add]
      have h1 : 1 ≤ 2 ^ (e - 2 * (e / 2)).toNat := Nat.one_le_two_pow
      have h2 : 2 ^ 23 * (2 ^ 29 * 1) ≤ _ := Nat.mul_le_mul hsig (Nat.mul_le_mul_left (2 ^ 29) h1)
      exact le_trans (by norm_num) h2
    have hhigh : n < 2 ^ 54 := by
      rw [← hrad]
      exact BitVec.isLt _
    rw [if_neg (by rw [isZero_iff]; exact hnx), hneg, if_neg (by decide), hvalue]
    obtain ⟨k, q, r, hrec, hroot, hr⟩ := sqrt_loop (s := { s with
        signResult := false
        radicand := if s.expX.getLsbD 0 then s.sigX ++ 0#30 else 0#1 ++ s.sigX ++ 0#29
        exponent := s.expX.sshiftRight 1
        root := 0
        sqrtRemainder := 0
        iteration := 27
        state := .sqrt }) (j := 26) (n := n) rfl rfl (le_refl _) Nat.one_pos
      (by
        refine hrad.trans ?_
        rw [Nat.mod_eq_of_lt (by omega)]
        omega)
      ⟨by
        rw [Nat.div_eq_of_lt (by omega)]
        rfl, Nat.zero_le _⟩
    obtain ⟨hbig, hge, hless, hexact⟩ := root_bounds hlow hroot hr
    have hscale : √(absValue s.x) * 2 ^ (26 - e / 2) = √n := by
      have hpow : (0 : ℝ) ≤ 2 ^ (26 - e / 2) := by positivity
      have hsquare : (n : ℝ) = absValue s.x * (2 ^ (26 - e / 2) * 2 ^ (26 - e / 2)) := by
        rw [← hn, hval, Nat.cast_mul, Nat.cast_pow, Nat.cast_ofNat, mul_assoc,
          ← zpow_add₀ two_ne_zero, ← zpow_add₀ two_ne_zero, ← zpow_natCast]
        congr 2
        push_cast
        omega
      rw [hsquare, Real.sqrt_mul (Binary32.absValue_nonneg _), Real.sqrt_mul_self hpow]
    apply Yields.later k
    refine hrec.yields (y := √(absValue s.x)) hm (hexp.mono (by norm_num)) hbig ?_ ?_
    · rw [hscale]
      exact ⟨hge, hless⟩
    · rw [hscale, ← hexact, decide_eq_false_iff_not, not_not]

end Sqrt

/-- Quotients and square roots are rounded once. -/
theorem quotient_and_root_rounded (ins : Nat → FpPort) (n : Nat) (mode : Rounding)
    (ha : accepts ins n) (hm : (ins n).rm = rmOf mode) (hx : IsFinite (ins n).a) :
    ((ins n).op = opDiv → IsFinite (ins n).b → value (ins n).b ≠ 0 →
      Answers ins n (Rounded mode (value (ins n).a / value (ins n).b)
        ((ins n).a.msb ^^ (ins n).b.msb))) ∧
    ((ins n).op = opSqrt → 0 ≤ value (ins n).a →
      Answers ins n (Rounded mode √(value (ins n).a) (ins n).a.msb)) :=
  ⟨fun hop hy hne => answers_of_yields ha (div_yields rfl hm hop hx hy hne),
    fun hop hpos => answers_of_yields ha (sqrt_yields rfl hm hop hx hpos)⟩

/-- A unit that is asked at once for the quotient of 1 and 3. -/
theorem quotient_and_root_rounded_third :
    Answers (fun _ => ⟨false, true, opDiv, rmRne, 0x3f800000, 0x40400000, 0, true⟩) 0
      (Rounded .nearestEven (value 0x3f800000 / value 0x40400000) false) :=
  (quotient_and_root_rounded _ 0 .nearestEven ⟨rfl, rfl⟩ rfl (by unfold IsFinite; decide)).1 rfl
    (by unfold IsFinite; decide) (by
      have hb : Binary32.biased 0x40400000 ≠ 0 := by decide
      rw [value_eq, if_neg (by decide)]
      unfold absValue
      rw [if_neg hb]
      positivity)

end Fp32

end TinyProcessors
