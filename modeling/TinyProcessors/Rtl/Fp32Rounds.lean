import TinyProcessors.Rtl.Fp32Serve

namespace TinyProcessors

namespace Fp32

open Binary32 (biased trailing IsFinite absValue pack Raises Rounded)

def rmOf : Rounding → BitVec 3
  | .nearestEven => rmRne
  | .towardZero => rmRtz
  | .down => rmRdn
  | .up => rmRup
  | .nearestAway => rmRmm

theorem increment_rmOf (mode : Rounding) (negative odd guardBit sticky : Bool) :
    increment (rmOf mode) negative odd guardBit sticky =
      mode.bumps negative odd guardBit sticky := by
  cases mode <;> rfl

def Yields (s : Fp32) (Q : Word → BitVec 5 → Prop) : Prop :=
  ∃ k, (work^[k] s).state = .response ∧ (work^[k] s).error = false ∧
    Q (work^[k] s).result (work^[k] s).flags

theorem Yields.next {s : Fp32} (h : s.work.Yields Q) : s.Yields Q := by
  obtain ⟨k, hk⟩ := h
  exact ⟨k + 1, hk⟩

theorem Yields.finish (s : Fp32) (h : Q v f) : (s.finish v f false).Yields Q := ⟨0, rfl, rfl, h⟩

section Answers

variable {ins : Nat → FpPort} {n : Nat} {Q : Word → BitVec 5 → Prop}

/-- The first response within 34 cycles has such a result and flags, unless reset. -/
def Answers (ins : Nat → FpPort) (n : Nat) (Q : Word → BitVec 5 → Prop) : Prop :=
  ∃ k, 1 ≤ k ∧ k ≤ 34 ∧
    (∀ j, 1 ≤ j → j < k → (ins (n + j)).reset = false ∧ ¬responds ins (n + j)) ∧
    ((ins (n + k)).reset = true ∨ responds ins (n + k) ∧ (after ins (n + k)).error = false ∧
      Q (after ins (n + k)).result (after ins (n + k)).flags)

theorem iterate_work_response {s : Fp32} (h : s.state = .response) (k : Nat) : work^[k] s = s := by
  have hfix : s.work = s := by
    unfold work
    rw [h]
  exact Function.iterate_fixed hfix k

theorem Yields.response {s : Fp32} (h : s.Yields Q) (hk : (work^[k] s).state = .response) :
    (work^[k] s).error = false ∧ Q (work^[k] s).result (work^[k] s).flags := by
  obtain ⟨j, hj, hQ⟩ := h
  have hsame : work^[k] s = work^[j] s := by
    rcases le_total j k with hle | hle
    · obtain ⟨d, rfl⟩ := Nat.exists_eq_add_of_le' hle
      rw [Function.iterate_add_apply, iterate_work_response hj]
    · obtain ⟨d, rfl⟩ := Nat.exists_eq_add_of_le' hle
      rw [Function.iterate_add_apply, iterate_work_response hk]
  rw [hsame]
  exact hQ

theorem after_accepts (ha : accepts ins n) (j : Nat)
    (hno : ∀ i, 1 ≤ i → i ≤ j → (ins (n + i)).reset = false ∧ ¬responds ins (n + i)) :
    after ins (n + j + 1) = work^[j] ((after ins n).accept (ins n).op (ins n).rm (ins n).a
      (ins n).b (ins n).c) := by
  have ha' := (accepts_iff ins n).mp ha
  induction j with
  | zero =>
    change (after ins n).clock (ins n) = _
    have hidle : (after ins n).state = .idle := (kind_free_iff _).mp ha'.1
    unfold clock
    rw [if_neg ha'.2.1, hidle]
    exact if_pos ha'.2.2
  | succ j ih =>
    obtain ⟨hr, hresp⟩ := hno (j + 1) (by omega) (le_refl _)
    have hbusy : (after ins (n + (j + 1))).state ≠ .idle := by
      rw [ne_eq, ← kind_free_iff]
      refine server.occupied ha' (by omega) fun i hi hi' => ?_
      obtain ⟨d, rfl⟩ := Nat.exists_eq_add_of_le hi.le
      obtain ⟨hr', hresp'⟩ := hno d (by omega) (by omega)
      exact ⟨fun h => hresp' ((responds_iff ins _).mpr h.1), Bool.eq_false_iff.mp hr'⟩
    have hdone : (after ins (n + (j + 1))).state ≠ .response := by
      intro hs
      apply hresp
      unfold responds respValid
      rw [hs, hr]
      rfl
    change (after ins (n + (j + 1))).clock (ins (n + (j + 1))) = _
    rw [clock_work hbusy hdone hr, Function.iterate_succ_apply',
      ← ih fun i hi hi' => hno i hi (by omega)]
    rfl

theorem answers_of_yields (ha : accepts ins n)
    (h : ((after ins n).accept (ins n).op (ins n).rm (ins n).a (ins n).b (ins n).c).Yields Q) :
    Answers ins n Q := by
  obtain ⟨k, hk, hk', hend, hbefore⟩ := server.answers ((accepts_iff ins n).mp ha)
  have hbefore' (j : Nat) (hj : 1 ≤ j) (hj' : j < k) :
      (ins (n + j)).reset = false ∧ ¬responds ins (n + j) := by
    obtain ⟨hr, hno⟩ := hbefore j hj hj'
    exact ⟨Bool.not_eq_true _ ▸ hr, mt (responds_iff ins _).mp hno⟩
  refine ⟨k, hk, hk', hbefore', hend.imp id fun hresp => ?_⟩
  obtain ⟨j, rfl⟩ := Nat.exists_eq_add_of_le' hk
  have hafter := after_accepts ha j fun i hi hi' => hbefore' i hi (by omega)
  have hdone := (kind_done_iff _).mp hresp.1
  refine ⟨(responds_iff ins _).mpr hresp, ?_⟩
  change (after ins (n + j + 1)).state = _ at hdone
  change (after ins (n + j + 1)).error = _ ∧ Q (after ins (n + j + 1)).result
    (after ins (n + j + 1)).flags
  rw [hafter] at hdone ⊢
  exact h.response hdone

end Answers

/-- The window holds a magnitude exactly enough to round it at bit 79. -/
structure Holds (s : Fp32) (mode : Rounding) (negative : Bool) (y : ℝ) (e : ℤ) : Prop where
  mode : s.mode = rmOf mode
  sign : s.signResult = negative
  exponent : Reg s.exponent e 500
  window : Stands (2 ^ 55) s.magnitude.toNat (y * 2 ^ (79 - e))

section Window

variable {s : Fp32} {mode : Rounding} {negative : Bool} {y : ℝ} {e : ℤ}

theorem extract_ne_zero (v : BitVec w) (k : Nat) :
    decide (v.extractLsb' 0 k ≠ 0) = decide (v.toNat % 2 ^ k ≠ 0) := by
  have h : v.extractLsb' 0 k = 0 ↔ v.toNat % 2 ^ k = 0 := by
    rw [← BitVec.toNat_inj, extractLsb'_toNat_div, Nat.pow_zero, Nat.div_one]
    rfl
  exact decide_eq_decide.mpr (not_congr h)

theorem Holds.lies (h : Holds s mode negative y e) :
    Lies (y / 2 ^ (e - 23)) (s.magnitude.toNat / 2 ^ 56) (s.magnitude.getLsbD 55)
      (s.magnitude.toNat % 2 ^ 55 ≠ 0) := by
  have hlies := h.window.lies
  have hunit : y * 2 ^ (79 - e) / 2 ^ (55 + 1) = y / 2 ^ (e - 23) := by
    rw [← zpow_natCast, mul_div_assoc, ← zpow_sub₀ two_ne_zero, div_eq_mul_inv, ← zpow_neg]
    congr 2
    push_cast
    ring
  rw [hunit] at hlies
  exact hlies

theorem Holds.roundUp (h : Holds s mode negative y e) :
    s.roundUp = mode.bumps negative (s.magnitude.toNat / 2 ^ 56 % 2 = 1)
      (s.magnitude.getLsbD 55) (s.magnitude.toNat % 2 ^ 55 ≠ 0) := by
  unfold Fp32.roundUp
  rw [h.mode, h.sign, increment_rmOf, extract_ne_zero, getLsbD_eq_decide s.magnitude 56]

theorem rounded_toNat (s : Fp32) :
    s.rounded.toNat = s.magnitude.toNat / 2 ^ 56 + if s.roundUp then 1 else 0 := by
  have hlt := s.magnitude.isLt
  have hup : ((BitVec.ofBool s.roundUp).setWidth 25).toNat = if s.roundUp then 1 else 0 := by
    rw [toNat_ofBool_setWidth _ (by omega)]
    cases s.roundUp <;> rfl
  have hle : (if s.roundUp then 1 else 0) ≤ 1 := by
    split_ifs <;> omega
  unfold rounded
  rw [BitVec.toNat_add, BitVec.toNat_setWidth, extractLsb'_toNat_div, hup]
  omega

theorem discarded_eq (s : Fp32) :
    s.discarded = (s.magnitude.getLsbD 55 || decide (s.magnitude.toNat % 2 ^ 55 ≠ 0)) := by
  unfold discarded
  rw [extract_ne_zero, getLsbD_eq_decide, ← Bool.decide_or, decide_eq_decide]
  omega

theorem rounded_le (s : Fp32) : s.rounded.toNat ≤ 2 ^ 24 := by
  have hlt := s.magnitude.isLt
  rw [rounded_toNat]
  split_ifs <;> omega

theorem carry_iff (s : Fp32) : s.rounded.getLsbD 24 = true ↔ s.rounded.toNat = 2 ^ 24 := by
  have hle := rounded_le s
  rw [getLsbD_eq_decide, decide_eq_true_eq]
  omega

theorem carried_eq (e : ℤ) (m : ℕ) :
    binary32.carried e m = e + if m = 2 ^ 24 then 1 else 0 := rfl

theorem finalExponent_reg (h : Reg s.exponent e 500) :
    Reg s.finalExponent (binary32.carried e s.rounded.toNat) 501 := by
  have hcarry : Reg (if s.rounded.getLsbD 24 then 1 else 0 : BitVec 12)
      (if s.rounded.toNat = 2 ^ 24 then 1 else 0) 1 :=
    .ite (carry_iff s) ⟨rfl, le_refl _⟩ ⟨rfl, by decide⟩
  exact h.add hcarry (by norm_num)

theorem finalSignificand_toNat (s : Fp32) :
    s.finalSignificand.toNat = if s.rounded.toNat = 2 ^ 24 then 2 ^ 23 else s.rounded.toNat := by
  have hle := rounded_le s
  unfold finalSignificand
  by_cases hc : s.rounded.toNat = 2 ^ 24
  · rw [if_pos ((carry_iff s).mpr hc), if_pos hc, extractLsb'_toNat_div, hc]
    rfl
  · rw [if_neg (mt (carry_iff s).mp hc), if_neg hc, extractLsb'_toNat_div]
    omega

theorem packed_value (h : Reg s.exponent e 500) (he : -126 ≤ e)
    (hfit : binary32.carried e s.rounded.toNat ≤ 127)
    (hsub : s.rounded.toNat < 2 ^ 23 → e = -126) :
    IsFinite (pack s.signResult s.packedExponent (s.finalSignificand.extractLsb' 0 23)) ∧
      absValue (pack s.signResult s.packedExponent (s.finalSignificand.extractLsb' 0 23)) =
        s.rounded.toNat * 2 ^ (e - 23) := by
  have hle := rounded_le s
  have hsig := finalSignificand_toNat s
  have hsiglt := s.finalSignificand.isLt
  have hexp := finalExponent_reg h
  have hbias : Reg (s.finalExponent + 127) (binary32.carried e s.rounded.toNat + 127) 628 :=
    hexp.add (n := 127) (k := 127) ⟨rfl, le_refl _⟩ (by norm_num)
  have hcarried : e ≤ binary32.carried e s.rounded.toNat := by
    rw [carried_eq]
    split_ifs <;> omega
  have htop : s.finalSignificand.getLsbD 23 = true ↔ 2 ^ 23 ≤ s.finalSignificand.toNat := by
    rw [getLsbD_eq_decide, decide_eq_true_eq]
    omega
  -- the carry moves one bit of the significand to the exponent
  have hvalue : (s.rounded.toNat : ℝ) * 2 ^ (e - 23) =
      s.finalSignificand.toNat * 2 ^ (binary32.carried e s.rounded.toNat - 23) := by
    rw [carried_eq, hsig]
    by_cases hc : s.rounded.toNat = 2 ^ 24
    · rw [if_pos hc, if_pos hc, hc, add_sub_right_comm, zpow_add_one₀ two_ne_zero]
      norm_num
      ring
    · rw [if_neg hc, if_neg hc, add_zero]
  rw [hvalue]
  apply Binary32.absValue_of_fields hsiglt ⟨by omega, hfit⟩
  · intro hlow
    have hnc : s.rounded.toNat ≠ 2 ^ 24 := by
      intro hc
      rw [hsig, if_pos hc] at hlow
      omega
    rw [hsig, if_neg hnc] at hlow
    rw [carried_eq, if_neg hnc, hsub hlow]
    rfl
  · rw [Binary32.biased_pack]
    unfold packedExponent
    by_cases hlow : s.finalSignificand.toNat < 2 ^ 23
    · rw [if_pos hlow, if_neg (by rw [htop]; omega)]
      rfl
    · rw [if_neg hlow, if_pos (by rw [htop]; omega), extractLsb'_toNat_div]
      have hv := hbias.value
      rw [BitVec.toInt_eq_toNat_cond] at hv
      have := (s.finalExponent + 127).isLt
      split at hv <;> omega
  · rw [Binary32.trailing_pack, extractLsb'_toNat_div]
    omega

theorem overflowed_eq (hm : s.mode = rmOf mode) (hs : s.signResult = negative) :
    BitVec.ofBool s.signResult ++ (if s.overflowInf then 0x7f800000#31 else 0x7f7fffff#31) =
      Binary32.overflowed mode negative := by
  unfold overflowInf
  rw [hm, hs]
  cases mode <;> cases negative <;> rfl

theorem Holds.round (h : Holds s mode negative y (max e (-126))) (hlow : (2 : ℝ) ^ e ≤ y)
    (hhigh : y < 2 ^ (e + 1))
    (htiny : s.tinyAfterRounding = true ↔
      binary32.Tiny mode (if negative then -y else y)) :
    s.round.Yields (Rounded mode (if negative then -y else y) zeroSign) := by
  have hy : 0 < y := lt_of_lt_of_le (by positivity) hlow
  have hlies := h.lies
  have hrounded := rounded_toNat s
  rw [h.roundUp] at hrounded
  have hfinal := finalExponent_reg h.exponent
  have hmax : Reg (127 : BitVec 12) 127 127 := ⟨rfl, le_refl _⟩
  have hpow : (0 : ℝ) < 2 ^ (max e (-126) - 23) := by positivity
  have hcarried := Format.carried_le binary32 (max e (-126)) s.rounded.toNat
  -- below the least exponent nothing overflows
  have hover : binary32.Overflows mode (if negative then -y else y) ↔
      127 < binary32.carried (max e (-126)) s.rounded.toNat := by
    by_cases he : -126 ≤ e
    · rw [max_eq_left he] at hlies ⊢
      exact Format.overflows_iff rfl hlow hhigh hlies hrounded
    · have hno : ¬binary32.Overflows mode (if negative then -y else y) :=
        Format.not_overflows rfl hlow hhigh (by change e < 127; omega)
      refine ⟨fun ho => absurd ho hno, fun ho => ?_⟩
      omega
  unfold Fp32.round
  rw [hmax.slt hfinal]
  by_cases ho : 127 < binary32.carried (max e (-126)) s.rounded.toNat
  · rw [if_pos (decide_eq_true ho), overflowed_eq h.mode h.sign]
    exact .finish _ (Binary32.rounded_overflow rfl hy (hover.mpr ho))
  · have hsub : s.rounded.toNat < 2 ^ 23 → max e (-126) = -126 := by
      intro hsmall
      by_contra hne
      have he : -126 ≤ e := by omega
      rw [max_eq_left he] at hlies
      have := (Format.significand_bounds (F := binary32) hlies hlow hhigh
        (Format.bumped hrounded)).1
      change 2 ^ 23 ≤ _ at this
      omega
    rw [if_neg (by rwa [decide_eq_true_eq])]
    refine .finish _ (Binary32.rounded_finite rfl hlow hhigh hlies hrounded (mt hover.mp ho)
      (packed_value h.exponent (le_max_right _ _) (not_lt.mp ho) hsub) ?_ ?_)
    · exact (Binary32.msb_pack _ _ _).trans h.sign
    · rw [discarded_eq]
      generalize (s.magnitude.getLsbD 55 || decide (s.magnitude.toNat % 2 ^ 55 ≠ 0)) = d
      rw [← htiny]
      cases d <;> cases s.tinyAfterRounding <;> constructor <;> decide

theorem Holds.jammed (h : Holds s mode negative y e) (hd : s.state = .denormalize)
    (he : e < -126) :
    Holds { s with magnitude := s.magnitudeJammed, exponent := -126 } mode negative y (-126) := by
  have hdistance : Reg s.jamDistance (-126 - e) 626 := by
    unfold jamDistance jamTarget
    rw [if_pos hd]
    exact Reg.sub (j := 126) ⟨rfl, by decide⟩ (h.exponent.signExtend (by omega)) (by norm_num)
  have hjam : s.magnitudeJammed.toNat = jam s.magnitude.toNat (-126 - e).toNat := by
    unfold magnitudeJammed jamAmount
    rw [hd, if_neg (by decide)]
    exact jam_clamped _ hdistance
  obtain ⟨d, hdist⟩ : ∃ d : ℕ, -126 - e = d := ⟨(-126 - e).toNat, by omega⟩
  rw [hdist, Int.toNat_natCast] at hjam
  refine ⟨h.mode, h.sign, ⟨rfl, by decide⟩, ?_⟩
  change Stands _ (s.magnitudeJammed.toNat : ℝ) _
  rw [hjam]
  -- the shifted window stands for the magnitude, and the jammed one for it
  have hscaled := h.window.scale (c := (2 ^ d)⁻¹) (by positivity)
  have hcoarse := hscaled.coarser (2 ^ d)
  have hgrid : ((2 ^ d : ℤ) : ℝ) * ((2 ^ d)⁻¹ * 2 ^ 55) = 2 ^ 55 := by
    push_cast
    rw [← mul_assoc, mul_inv_cancel₀ (by positivity), one_mul]
  have hexact : (2 ^ d : ℝ)⁻¹ * (y * 2 ^ (79 - e)) = y * 2 ^ (79 - (-126) : ℤ) := by
    rw [← zpow_natCast, ← zpow_neg, mul_left_comm, ← zpow_add₀ two_ne_zero]
    congr 2
    omega
  have hwindow : (2 ^ d : ℝ)⁻¹ * s.magnitude.toNat = s.magnitude.toNat / 2 ^ d := by
    rw [mul_comm, div_eq_mul_inv]
  rw [hgrid, hexact, hwindow] at hcoarse
  have hjammed := (jam_stands s.magnitude.toNat d).coarser (2 ^ 54)
  have hgrid' : ((2 ^ 54 : ℤ) : ℝ) * 2 = 2 ^ 55 := by norm_num
  rw [hgrid'] at hjammed
  exact hcoarse.trans hjammed

theorem work_denormalize (hd : s.state = .denormalize) : s.work = s.denormalize := by
  unfold work
  rw [hd]

theorem work_normalize (hd : s.state = .normalize) : s.work = s.normalize := by
  unfold work
  rw [hd]

theorem Holds.denormalize (h : Holds s mode negative y e) (hd : s.state = .denormalize)
    (hlow : (2 : ℝ) ^ e ≤ y) (hhigh : y < 2 ^ (e + 1))
    (htiny : s.tinyAfterRounding = true ↔
      binary32.Tiny mode (if negative then -y else y)) :
    s.Yields (Rounded mode (if negative then -y else y) zeroSign) := by
  have hmin : Reg (-126 : BitVec 12) (-126) 126 := ⟨rfl, by decide⟩
  -- at or above the least exponent only the state changes
  have hlast {t : Fp32} {e' : ℤ} (ht : Holds t mode negative y e') (hs : t.state = .denormalize)
      (he : e' = max e (-126)) (hsame : t.tinyAfterRounding = s.tinyAfterRounding) :
      t.Yields (Rounded mode (if negative then -y else y) zeroSign) := by
    apply Yields.next
    rw [work_denormalize hs]
    unfold Fp32.denormalize
    rw [ht.exponent.slt hmin, if_neg (by rw [decide_eq_true_eq]; omega)]
    apply Yields.next
    rw [he] at ht
    exact Holds.round ⟨ht.mode, ht.sign, ht.exponent, ht.window⟩ hlow hhigh
      (by rw [← htiny, ← hsame])
  by_cases he : e < -126
  · apply Yields.next
    rw [work_denormalize hd]
    unfold Fp32.denormalize
    rw [h.exponent.slt hmin, if_pos (decide_eq_true he)]
    exact hlast (h.jammed hd he) hd (by omega) rfl
  · exact hlast h hd (by omega) rfl

theorem Holds.latch (h : Holds s mode negative y e) (hd : s.state = .normalize)
    (htop : 2 ^ 79 ≤ s.magnitude.toNat) :
    s.Yields (Rounded mode (if negative then -y else y) zeroSign) := by
  have hpow : (0 : ℝ) < 2 ^ (79 - e) := by positivity
  have hmin : Reg (-126 : BitVec 12) (-126) 126 := ⟨rfl, by decide⟩
  have hnonzero : s.magnitude ≠ 0 := by
    intro hz
    rw [hz] at htop
    exact absurd htop (by decide)
  have hscale (k : ℤ) : (2 : ℝ) ^ (79 + k) = 2 ^ (e + k) * 2 ^ (79 - e) := by
    rw [← zpow_add₀ two_ne_zero]
    congr 1
    ring
  have hlow : (2 : ℝ) ^ e ≤ y := by
    have hm : ((2 ^ 24 : ℤ) : ℝ) * 2 ^ 55 ≤ s.magnitude.toNat := by
      have : ((2 ^ 79 : ℕ) : ℝ) ≤ s.magnitude.toNat := by exact_mod_cast htop
      norm_num at this ⊢
      exact this
    have ht := (h.window.le_iff (2 ^ 24)).mpr hm
    have heq : ((2 ^ 24 : ℤ) : ℝ) * 2 ^ 55 = 2 ^ (e + 0) * 2 ^ (79 - e) := by
      rw [← hscale]
      norm_num
    rw [heq, add_zero, mul_le_mul_iff_left₀ hpow] at ht
    exact ht
  have hhigh : y < 2 ^ (e + 1) := by
    have hm : (s.magnitude.toNat : ℝ) < ((2 ^ 25 : ℤ) : ℝ) * 2 ^ 55 := by
      have : (s.magnitude.toNat : ℝ) < ((2 ^ 80 : ℕ) : ℝ) := by exact_mod_cast s.magnitude.isLt
      norm_num at this ⊢
      exact this
    have ht := ((h.window (2 ^ 25)).1).mpr hm
    have heq : ((2 ^ 25 : ℤ) : ℝ) * 2 ^ 55 = 2 ^ (e + 1) * 2 ^ (79 - e) := by
      rw [← hscale]
      norm_num
    rw [heq, mul_lt_mul_iff_left₀ hpow] at ht
    exact ht
  have hrounded := rounded_toNat s
  rw [h.roundUp] at hrounded
  apply Yields.next
  rw [work_normalize hd]
  unfold Fp32.normalize
  rw [if_neg hnonzero, (top_iff _).mpr htop, if_neg (by decide)]
  refine Holds.denormalize ⟨h.mode, h.sign, h.exponent, h.window⟩ rfl hlow hhigh ?_
  rw [(finalExponent_reg h.exponent).slt hmin, decide_eq_true_eq]
  exact (Format.tiny_iff (F := binary32) rfl hlow hhigh h.lies hrounded).symm

theorem zero_eq (sign : Bool) : zero sign = pack sign 0 0 := by
  cases sign <;> rfl

theorem normalize_zero (hd : s.state = .normalize) (hz : s.magnitude = 0) :
    s.Yields (Rounded mode 0 s.signResult) := by
  apply Yields.next
  rw [work_normalize hd]
  unfold Fp32.normalize
  rw [if_pos hz, zero_eq]
  exact .finish _ Binary32.rounded_zero

theorem normalize_nonzero (hd : s.state = .normalize) (hm : s.mode = rmOf mode)
    (hs : s.signResult = negative) (he : Reg s.exponent e 400) (hne : s.magnitude ≠ 0)
    (hw : Stands (2 ^ 55 / 2 ^ (leadingZeros s.magnitude).toNat) s.magnitude.toNat
      (y * 2 ^ (79 - e))) :
    s.Yields (Rounded mode (if negative then -y else y) zeroSign) := by
  obtain ⟨hzeros, hlog⟩ := leadingZeros_toNat s.magnitude hne
  obtain ⟨hshift, hbig⟩ := normalized_toNat s.magnitude hne
  by_cases htop : 2 ^ 79 ≤ s.magnitude.toNat
  · have hpos : s.magnitude.toNat ≠ 0 := by omega
    have hn : (leadingZeros s.magnitude).toNat = 0 := by
      have := (Nat.le_log2 hpos).mpr htop
      omega
    rw [hn, pow_zero, div_one] at hw
    exact Holds.latch ⟨hm, hs, he.mono (by norm_num), hw⟩ hd htop
  · have hpow : (0 : ℝ) < 2 ^ (leadingZeros s.magnitude).toNat := by positivity
    have hn : Reg ((leadingZeros s.magnitude).setWidth 12) (leadingZeros s.magnitude).toNat 79 :=
      .of_toNat (by
        rw [BitVec.toNat_setWidth]
        exact Nat.mod_eq_of_lt (by omega)) (by omega) (by norm_num)
    apply Yields.next
    rw [work_normalize hd]
    unfold Fp32.normalize
    rw [if_neg hne, if_pos (by rw [Bool.not_eq_true', ← Bool.not_eq_true, top_iff]; exact htop)]
    refine Holds.latch ⟨hm, hs, (he.sub hn (by norm_num)).mono (by norm_num), ?_⟩ hd
      (hbig.trans_eq hshift.symm)
    have hscaled := hw.scale hpow
    change Stands _ ((s.magnitude <<< leadingZeros s.magnitude).toNat : ℝ) _
    rw [mul_div_cancel₀ _ hpow.ne'] at hscaled
    have hexact : (2 : ℝ) ^ (leadingZeros s.magnitude).toNat * (y * 2 ^ (79 - e)) =
        y * 2 ^ (79 - (e - (leadingZeros s.magnitude).toNat)) := by
      rw [← zpow_natCast, mul_left_comm, ← zpow_add₀ two_ne_zero]
      congr 2
      ring
    rw [hshift, Nat.cast_mul, Nat.cast_pow, Nat.cast_ofNat, mul_comm (s.magnitude.toNat : ℝ),
      ← hexact]
    exact hscaled

end Window

end Fp32

end TinyProcessors
