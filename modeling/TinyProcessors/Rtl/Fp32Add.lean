import TinyProcessors.Rtl.Fp32Convert

namespace TinyProcessors

namespace Fp32

open Binary32 (IsFinite IsNan absValue value Rounded)

def sumSign (mode : Rounding) (a b : Bool) : Bool := if a = b then a else mode = .down

theorem sumSign_comm (mode : Rounding) (a b : Bool) : sumSign mode a b = sumSign mode b a := by
  cases a <;> cases b <;> rfl

section Combine

variable {s : Fp32} {mode : Rounding} {x t : ℝ} {e : ℤ}

theorem fine_window {v : BitVec 80} (hne : v ≠ 0)
    (h : (v.toNat : ℝ) = t ∨ 2 ^ 77 ≤ v.toNat ∧ Stands 2 v.toNat t) :
    Stands (2 ^ 55 / 2 ^ (leadingZeros v).toNat) v.toNat t := by
  rcases h with heq | ⟨hbig, hstands⟩
  · rw [heq]
    exact .refl _ _
  · obtain ⟨hzeros, hlog⟩ := leadingZeros_toNat v hne
    have htop : 77 ≤ v.toNat.log2 := (Nat.le_log2 (by omega)).mpr hbig
    obtain ⟨k, hk⟩ : ∃ k, 55 = k + 1 + (leadingZeros v).toNat :=
      ⟨54 - (leadingZeros v).toNat, by omega⟩
    have hgrid : (2 : ℝ) ^ 55 / 2 ^ (leadingZeros v).toNat = ((2 ^ k : ℤ) : ℝ) * 2 := by
      rw [hk, pow_add, mul_div_cancel_right₀ _ (by positivity), pow_succ]
      push_cast
      rfl
    rw [hgrid]
    exact hstands.coarser _

theorem sum_yields (hd : s.state = .normalize) (hm : s.mode = rmOf mode)
    (he : Reg s.exponent e 400)
    (hfine : (s.magnitude.toNat : ℝ) = t ∨
      2 ^ 77 ≤ s.magnitude.toNat ∧ Stands 2 s.magnitude.toNat t)
    (hx : x = (if s.signResult then -t else t) * 2 ^ (e - 79))
    (hz : s.magnitude = 0 → s.signResult = zeroSign) : s.Yields (Rounded mode x zeroSign) := by
  by_cases hne : s.magnitude = 0
  · have ht : t = 0 := by
      rw [hne] at hfine
      rcases hfine with heq | ⟨hbig, _⟩
      · rw [← heq]
        exact Nat.cast_zero
      · exact absurd hbig (by decide)
    have hx0 : x = 0 := by
      rw [hx, ht]
      simp
    rw [hx0, ← hz hne]
    exact normalize_zero hd hne
  · have hscaled : t * 2 ^ (e - 79) * 2 ^ (79 - e) = t := by
      rw [mul_assoc, ← zpow_add₀ two_ne_zero]
      simp
    have hsigned : x = if s.signResult then -(t * 2 ^ (e - 79)) else t * 2 ^ (e - 79) := by
      rw [hx]
      cases s.signResult with
      | false => rfl
      | true => exact neg_mul _ _
    rw [hsigned]
    refine normalize_nonzero hd hm rfl he hne ?_
    rw [hscaled]
    exact fine_window hne hfine

structure Aligned (s : Fp32) (t : ℝ) : Prop where
  lead : ∃ m, m < 2 ^ 48 ∧ s.addend.toNat = m * 2 ^ 31
  small : s.magnitude.toNat < 2 ^ 79
  trail : Stands 2 s.magnitude.toNat t
  exact : (s.magnitude.toNat : ℝ) = t ∨ 2 ^ 78 ≤ s.addend.toNat ∧ s.magnitude.toNat ≤ 2 ^ 47

theorem mode_down_iff (hm : s.mode = rmOf mode) :
    decide (s.mode = rmRdn) = decide (mode = .down) := by
  rw [hm]
  cases mode <;> rfl

theorem Aligned.add (h : Aligned s t) (hm : s.mode = rmOf mode)
    (he : Reg s.exponent e 400) (hsame : s.signResult = s.signAddend) :
    s.combine.Yields (Rounded mode
      (((if s.signAddend then -(s.addend.toNat : ℝ) else s.addend.toNat) +
        (if s.signResult then -t else t)) * 2 ^ (e - 79))
      (sumSign mode s.signAddend s.signResult)) := by
  obtain ⟨m, hm48, hlead⟩ := h.lead
  have hsmall := h.small
  have hsum : (s.magnitude + s.addend).toNat = s.addend.toNat + s.magnitude.toNat := by
    rw [BitVec.toNat_add, Nat.mod_eq_of_lt (by omega)]
    omega
  have hstands := h.trail.add (m * 2 ^ 30)
  have heven : ((m * 2 ^ 30 : ℤ) : ℝ) * 2 = s.addend.toNat := by
    rw [hlead]
    push_cast
    ring
  rw [heven] at hstands
  unfold combine
  rw [if_pos hsame]
  refine sum_yields (t := s.addend.toNat + t) rfl hm he ?_ ?_ fun _ => ?_
  · change ((s.magnitude + s.addend).toNat : ℝ) = _ ∨ 2 ^ 77 ≤ (s.magnitude + s.addend).toNat ∧
      Stands 2 ((s.magnitude + s.addend).toNat : ℝ) _
    rw [hsum, Nat.cast_add]
    rcases h.exact with heq | ⟨hbig, _⟩
    · exact .inl (by rw [heq])
    · exact .inr ⟨by omega, hstands⟩
  · change _ = (if s.signResult then _ else _) * _
    rw [hsame]
    cases s.signAddend with
    | false => rfl
    | true =>
      simp only [if_true]
      ring
  · unfold sumSign
    rw [if_pos hsame.symm]
    exact hsame

theorem Aligned.sub (h : Aligned s t) (hm : s.mode = rmOf mode)
    (he : Reg s.exponent e 400) (hdiff : s.signResult ≠ s.signAddend) :
    s.combine.Yields (Rounded mode
      (((if s.signAddend then -(s.addend.toNat : ℝ) else s.addend.toNat) +
        (if s.signResult then -t else t)) * 2 ^ (e - 79))
      (sumSign mode s.signAddend s.signResult)) := by
  obtain ⟨m, hm48, hlead⟩ := h.lead
  have hsmall := h.small
  have hlt := s.addend.isLt
  have heven : ((m * 2 ^ 30 : ℤ) : ℝ) * 2 = s.addend.toNat := by
    rw [hlead]
    push_cast
    ring
  have hsign : s.signResult = !s.signAddend := by
    revert hdiff
    cases s.signResult <;> cases s.signAddend <;> decide
  have hzero : sumSign mode s.signAddend s.signResult = decide (mode = .down) :=
    if_neg hdiff.symm
  unfold combine
  rw [if_neg hdiff, hzero]
  by_cases hle : s.addend ≤ s.magnitude
  · have hle' : s.addend.toNat ≤ s.magnitude.toNat := hle
    have hsub : ((s.magnitude - s.addend).toNat : ℝ) = -s.addend.toNat + s.magnitude.toNat := by
      rw [BitVec.toNat_sub_of_le hle, Nat.cast_sub hle']
      ring
    have hexact : ((s.magnitude - s.addend).toNat : ℝ) = -s.addend.toNat + t := by
      rcases h.exact with heq | ⟨hbig, hless⟩
      · rw [hsub, heq]
      · omega
    rw [if_pos hle]
    have heq : s.magnitude = s.addend ↔ s.magnitude - s.addend = 0 := by
      rw [← BitVec.toNat_inj, ← BitVec.toNat_inj, BitVec.toNat_sub_of_le hle]
      change _ ↔ _ = 0
      omega
    refine sum_yields (t := -s.addend.toNat + t) rfl hm he (.inl hexact) ?_ fun hz => ?_
    · change _ = (if (if s.magnitude = s.addend then decide (s.mode = rmRdn) else s.signResult)
        then _ else _) * _
      by_cases hz : s.magnitude = s.addend
      · have ht : -(s.addend.toNat : ℝ) + t = 0 := by
          rw [← hexact, heq.mp hz]
          exact Nat.cast_zero
        have ht' : t = s.addend.toNat := by linarith
        rw [ht, ht', hsign]
        cases s.signAddend <;> simp
      · rw [if_neg hz, hsign]
        cases s.signAddend with
        | false =>
          simp only [Bool.not_false, if_true, Bool.false_eq_true, if_false]
          ring
        | true => rfl
    · change (if s.magnitude = s.addend then decide (s.mode = rmRdn) else s.signResult) = _
      rw [if_pos (heq.mpr hz), mode_down_iff hm]
  · have hgt : s.magnitude.toNat < s.addend.toNat := not_le.mp hle
    have hle' : s.magnitude ≤ s.addend := hgt.le
    have hsub : ((s.addend - s.magnitude).toNat : ℝ) = s.addend.toNat + -s.magnitude.toNat := by
      rw [BitVec.toNat_sub_of_le hle', Nat.cast_sub hgt.le]
      ring
    have hstands := h.trail.neg.add (m * 2 ^ 30)
    rw [heven, ← hsub] at hstands
    rw [if_neg hle]
    refine sum_yields (t := s.addend.toNat + -t) rfl hm he ?_ ?_ fun hz => ?_
    · rcases h.exact with heq | ⟨hbig, hless⟩
      · exact .inl (by rw [← heq]; exact hsub)
      · refine .inr ⟨?_, hstands⟩
        change _ ≤ (s.addend - s.magnitude).toNat
        rw [BitVec.toNat_sub_of_le hle']
        omega
    · change _ = (if s.signAddend then _ else _) * _
      rw [hsign]
      cases s.signAddend with
      | false => rfl
      | true =>
        simp only [Bool.not_true, if_true, Bool.false_eq_true, if_false]
        ring
    · have hz' : (s.addend - s.magnitude).toNat = 0 := congrArg BitVec.toNat hz
      rw [BitVec.toNat_sub_of_le hle'] at hz'
      omega

theorem Aligned.combine (h : Aligned s t) (hd : s.state = .combine) (hm : s.mode = rmOf mode)
    (he : Reg s.exponent e 400) :
    s.Yields (Rounded mode
      (((if s.signAddend then -(s.addend.toNat : ℝ) else s.addend.toNat) +
        (if s.signResult then -t else t)) * 2 ^ (e - 79))
      (sumSign mode s.signAddend s.signResult)) := by
  have hwork : s.work = s.combine := by
    unfold work
    rw [hd]
  apply Yields.next
  rw [hwork]
  by_cases hsame : s.signResult = s.signAddend
  · exact h.add hm he hsame
  · exact h.sub hm he hsame

theorem aligned_of_jam (hlead : ∃ m, m < 2 ^ 48 ∧ s.addend.toNat = m * 2 ^ 31)
    (hmag : s.magnitude.toNat = jam (m * 2 ^ 31) d) (hm : m < 2 ^ 48)
    (hfar : m = 0 ∨ 2 ^ 78 ≤ s.addend.toNat) :
    Aligned s (((m * 2 ^ 31 : ℕ) : ℝ) / 2 ^ d) := by
  have hstands := jam_stands (m * 2 ^ 31) d
  refine ⟨hlead, ?_, ?_, ?_⟩
  · rw [hmag]
    exact jam_lt (by omega) (by omega)
  · rw [hmag]
    exact hstands
  · rw [hmag]
    by_cases hexact : m * 2 ^ 31 % 2 ^ d = 0
    · exact .inl (jam_exact hexact)
    · have hd : 32 ≤ d := by
        by_contra hle
        obtain ⟨k, hk⟩ := Nat.exists_eq_add_of_le' (by omega : d ≤ 31)
        rw [hk, pow_add, ← mul_assoc, Nat.mul_mod_left] at hexact
        exact hexact rfl
      have hne : m ≠ 0 := by
        rintro rfl
        rw [Nat.zero_mul, Nat.zero_mod] at hexact
        exact hexact rfl
      refine .inr ⟨hfar.resolve_left hne, (jam_lt_of_div ?_ (by omega)).le⟩
      rw [← pow_add]
      exact lt_of_lt_of_le (by omega : m * 2 ^ 31 < 2 ^ (47 + 32))
        (Nat.pow_le_pow_right two_pos (by omega))

theorem scale_signed (b : Bool) (y c : ℝ) :
    (if b then -y else y) * c = if b then -(y * c) else y * c := by
  cases b with
  | false => rfl
  | true => exact neg_mul _ _

/-- From ALIGN on: the leading operand, and the trailing one shifted down. -/
theorem align_yields (hd : s.state = .align) (hm : s.mode = rmOf mode)
    (he : Reg s.exponent (e + 1) 400) (ha : a < 2 ^ 48) (hlead : s.addend.toNat = a * 2 ^ 31)
    (hb : b < 2 ^ 48) (htrail : s.magnitude.toNat = b * 2 ^ 31)
    (hshift : s.alignShift = clampShift distance) (hdistance : Reg distance n k)
    (hfar : b = 0 ∨ 2 ^ 47 ≤ a) :
    s.Yields (Rounded mode
      ((if s.signAddend then -(a * 2 ^ (e - 47) : ℝ) else a * 2 ^ (e - 47)) +
        (if s.signResult then -(b * 2 ^ (e - n.toNat - 47) : ℝ) else b * 2 ^ (e - n.toNat - 47)))
      (sumSign mode s.signAddend s.signResult)) := by
  have hjam : s.magnitudeJammed.toNat = jam (b * 2 ^ 31) n.toNat := by
    unfold magnitudeJammed jamAmount
    rw [if_pos hd, hshift, jam_clamped _ hdistance, htrail]
  have hwork : s.work = { s with magnitude := s.magnitudeJammed, state := .combine } := by
    unfold work
    rw [hd]
  have haligned : Aligned { s with magnitude := s.magnitudeJammed, state := .combine }
      (((b * 2 ^ 31 : ℕ) : ℝ) / 2 ^ n.toNat) :=
    aligned_of_jam ⟨a, ha, hlead⟩ hjam hb (hfar.imp id fun h => by
      change 2 ^ 78 ≤ s.addend.toNat
      omega)
  have hresult := haligned.combine rfl hm he
  dsimp only at hresult
  have hA : (s.addend.toNat : ℝ) * 2 ^ (e + 1 - 79) = a * 2 ^ (e - 47) := by
    rw [hlead, Nat.cast_mul, Nat.cast_pow, Nat.cast_ofNat, mul_assoc, ← zpow_natCast,
      ← zpow_add₀ two_ne_zero]
    congr 2
    push_cast
    ring
  have hB : ((b * 2 ^ 31 : ℕ) : ℝ) / 2 ^ n.toNat * 2 ^ (e + 1 - 79) =
      b * 2 ^ (e - n.toNat - 47) := by
    rw [Nat.cast_mul, Nat.cast_pow, Nat.cast_ofNat, div_eq_mul_inv, mul_assoc, mul_assoc,
      ← zpow_natCast, ← zpow_natCast, ← zpow_neg, ← zpow_add₀ two_ne_zero,
      ← zpow_add₀ two_ne_zero]
    congr 2
    push_cast
    ring
  rw [add_mul, scale_signed, scale_signed, hA, hB] at hresult
  apply Yields.next
  rw [hwork]
  exact hresult

theorem lhsLeads_iff (hl : Reg s.lhsExp el k) (hr : Reg s.rhsExp er k) : s.lhsLeads = true ↔
    s.rhsMag.toNat = 0 ∨ s.lhsMag.toNat ≠ 0 ∧ er ≤ el := by
  have hzr : s.rhsMag = 0 ↔ s.rhsMag.toNat = 0 := BitVec.toNat_inj.symm
  have hzl : s.lhsMag = 0 ↔ s.lhsMag.toNat = 0 := BitVec.toNat_inj.symm
  unfold lhsLeads
  rw [Bool.or_eq_true, Bool.and_eq_true, decide_eq_true_eq, decide_eq_true_eq, hr.sle hl,
    decide_eq_true_eq, ne_eq, hzr, hzl]

theorem load_toNat (m : BitVec 48) : (0#1 ++ m ++ 0#31).toNat = m.toNat * 2 ^ 31 := by
  rw [append_toNat, append_toNat, BitVec.toNat_zero, BitVec.toNat_zero]
  omega

theorem loadOperands_yields (hm : s.mode = rmOf mode) (hl : Reg s.lhsExp el 302)
    (hr : Reg s.rhsExp er 302) (hnl : s.lhsMag.toNat = 0 ∨ 2 ^ 47 ≤ s.lhsMag.toNat)
    (hnr : s.rhsMag.toNat = 0 ∨ 2 ^ 47 ≤ s.rhsMag.toNat) (lhsSign rhsSign : Bool) :
    (s.loadOperands lhsSign rhsSign).Yields (Rounded mode
      ((if lhsSign then -(s.lhsMag.toNat * 2 ^ (el - 47) : ℝ) else s.lhsMag.toNat * 2 ^ (el - 47)) +
        (if rhsSign then -(s.rhsMag.toNat * 2 ^ (er - 47) : ℝ) else s.rhsMag.toNat * 2 ^ (er - 47)))
      (sumSign mode lhsSign rhsSign)) := by
  have hone : Reg (1 : BitVec 12) 1 1 := ⟨rfl, le_refl _⟩
  have hgap : Reg s.expGap (el - er) 604 :=
    (hl.signExtend (by omega)).sub (hr.signExtend (by omega)) (by norm_num)
  have hleads := lhsLeads_iff hl hr
  -- a trailing operand that is not zero is shifted by the difference of the exponents
  have hweight {m : ℕ} {e e' : ℤ} (h : m = 0 ∨ e' ≤ e) :
      (m : ℝ) * 2 ^ (e - ((e - e').toNat : ℤ) - 47) = m * 2 ^ (e' - 47) := by
    rcases h with rfl | hle
    · rw [Nat.cast_zero, zero_mul, zero_mul]
    · congr 2
      omega
  unfold loadOperands
  by_cases hlead : s.lhsLeads = true
  · have hcases := hleads.mp hlead
    rw [if_pos hlead, if_pos hlead, if_pos hlead, if_pos hlead, if_pos hlead, if_pos hlead,
      ← hweight (hcases.imp id And.right)]
    exact align_yields rfl hm ((hl.add hone (by norm_num)).mono (by norm_num)) s.lhsMag.isLt
      (load_toNat _) s.rhsMag.isLt (load_toNat _) rfl hgap (hcases.imp id fun h =>
        hnl.resolve_left h.1)
  · have hcases : s.rhsMag.toNat ≠ 0 ∧ (s.lhsMag.toNat = 0 ∨ el ≤ er) := by
      rw [hleads] at hlead
      omega
    have hneg : Reg (-s.expGap) (er - el) 604 := by
      have h := hgap.neg (by norm_num)
      rwa [neg_sub] at h
    rw [if_neg hlead, if_neg hlead, if_neg hlead, if_neg hlead, if_neg hlead, if_neg hlead,
      ← hweight hcases.2, add_comm (G := ℝ), sumSign_comm]
    exact align_yields rfl hm ((hr.add hone (by norm_num)).mono (by norm_num)) s.rhsMag.isLt
      (load_toNat _) s.lhsMag.isLt (load_toNat _) rfl hneg (.inr (hnr.resolve_left hcases.1))

end Combine

section Operations

variable {s : Fp32} {mode : Rounding}

theorem not_nan_of_finite (hv : IsFinite v) : isNan v = false := by
  rw [← Bool.not_eq_true, isNan_iff]
  exact fun h => hv h.1

theorem not_inf_of_finite (hv : IsFinite v) : isInf v = false := by
  rw [← Bool.not_eq_true, isInf_iff]
  exact fun h => h.1 hv

theorem widened_operand (v : Word) (hv : IsFinite v) : ∃ e, Reg (unpack v).1 e 150 ∧
    (((unpack v).2 ++ 0#24).toNat = 0 ∨ 2 ^ 47 ≤ ((unpack v).2 ++ 0#24).toNat) ∧
    absValue v = ((unpack v).2 ++ 0#24).toNat * 2 ^ (e - 47) := by
  obtain ⟨e, he, hval, hsig⟩ := unpack_spec v hv
  rw [append_toNat, BitVec.toNat_zero, Nat.add_zero]
  refine ⟨e, he, by omega, ?_⟩
  rw [hval, Nat.cast_mul, Nat.cast_pow, Nat.cast_ofNat, mul_assoc, ← zpow_natCast,
    ← zpow_add₀ two_ne_zero]
  congr 2
  push_cast
  ring

theorem decode_add (hop : s.operation = opAdd ∨ s.operation = opSub) (hm : s.mode = rmOf mode) :
    s.decode = s.decodeAdd := by
  unfold decode
  rw [hm]
  rcases hop with hop | hop
  · rw [hop]
    cases mode <;> rfl
  · rw [hop]
    cases mode <;> rfl

theorem sum_of_two_yields (hd : s.state = .decode) (hm : s.mode = rmOf mode)
    (hop : s.operation = opAdd ∨ s.operation = opSub) (hx : IsFinite s.x) (hy : IsFinite s.y) :
    s.Yields (Rounded mode (value s.x + if s.secondSign then -absValue s.y else absValue s.y)
      (sumSign mode s.x.msb s.secondSign)) := by
  have hadd : s.isAdd = true := by
    unfold isAdd
    rw [Bool.or_eq_true, decide_eq_true_eq, decide_eq_true_eq]
    exact hop
  obtain ⟨ex, hex, hnx, hvx⟩ := widened_operand s.x hx
  obtain ⟨ey, hey, hny, hvy⟩ := widened_operand s.y hy
  have hlm : s.lhsMag = (unpack s.x).2 ++ 0#24 := if_pos hadd
  have hle : s.lhsExp = (unpack s.x).1 := if_pos hadd
  have hrm : s.rhsMag = (unpack s.y).2 ++ 0#24 := if_pos hadd
  have hre : s.rhsExp = (unpack s.y).1 := if_pos hadd
  have hload := loadOperands_yields hm (by rw [hle]; exact hex.mono (by norm_num))
    (by rw [hre]; exact hey.mono (by norm_num)) (by rw [hlm]; exact hnx) (by rw [hrm]; exact hny)
    s.x.msb s.secondSign
  rw [hlm, hrm, ← hvx, ← hvy] at hload
  apply Yields.next
  rw [work_decode hd, decode_add hop hm]
  unfold decodeAdd
  rw [not_nan_of_finite hx, not_nan_of_finite hy, not_inf_of_finite hx, not_inf_of_finite hy]
  exact hload

theorem signed_xor (a b : Bool) (y : ℝ) :
    (if a ^^ b then -y else y) = if b then -(if a then -y else y) else if a then -y else y := by
  cases a <;> cases b <;> simp

theorem add_yields (hd : s.state = .decode) (hm : s.mode = rmOf mode)
    (hop : s.operation = opAdd) (hx : IsFinite s.x) (hy : IsFinite s.y) :
    s.Yields (Rounded mode (value s.x + value s.y) (sumSign mode s.x.msb s.y.msb)) := by
  have h := sum_of_two_yields hd hm (.inl hop) hx hy
  have hsign : s.secondSign = s.y.msb := by
    unfold secondSign
    rw [hop]
    exact Bool.xor_false _
  rw [hsign] at h
  exact h

theorem sub_yields (hd : s.state = .decode) (hm : s.mode = rmOf mode)
    (hop : s.operation = opSub) (hx : IsFinite s.x) (hy : IsFinite s.y) :
    s.Yields (Rounded mode (value s.x - value s.y) (sumSign mode s.x.msb !s.y.msb)) := by
  have h := sum_of_two_yields hd hm (.inr hop) hx hy
  have hsign : s.secondSign = (s.y.msb ^^ true) := by
    unfold secondSign
    rw [hop]
    rfl
  rw [hsign, signed_xor, Bool.xor_true] at h
  exact h

theorem product_toNat (s : Fp32) : s.product.toNat = s.sigX.toNat * s.sigY.toNat := by
  have hx := s.sigX.isLt
  have hy := s.sigY.isLt
  have hlt : s.sigX.toNat * s.sigY.toNat < 2 ^ 24 * 2 ^ 24 := Nat.mul_lt_mul'' hx hy
  unfold product
  rw [BitVec.toNat_mul, BitVec.toNat_setWidth, BitVec.toNat_setWidth,
    Nat.mod_eq_of_lt (by omega : s.sigX.toNat < 2 ^ 48),
    Nat.mod_eq_of_lt (by omega : s.sigY.toNat < 2 ^ 48)]
  exact Nat.mod_eq_of_lt (by omega)

theorem product_operand (hadd : s.isAdd = false) (hx : IsFinite s.x) (hy : IsFinite s.y) :
    ∃ e, Reg s.lhsExp e 301 ∧ (s.lhsMag.toNat = 0 ∨ 2 ^ 47 ≤ s.lhsMag.toNat) ∧
      absValue s.x * absValue s.y = s.lhsMag.toNat * 2 ^ (e - 47) := by
  obtain ⟨ex, hex, hvx, hsx⟩ := unpack_spec s.x hx
  obtain ⟨ey, hey, hvy, hsy⟩ := unpack_spec s.y hy
  change Reg s.expX ex 150 at hex
  change Reg s.expY ey 150 at hey
  change absValue s.x = s.sigX.toNat * _ at hvx
  change absValue s.y = s.sigY.toNat * _ at hvy
  change s.sigX.toNat = 0 ∧ _ ∨ 2 ^ 23 ≤ s.sigX.toNat at hsx
  change s.sigY.toNat = 0 ∧ _ ∨ 2 ^ 23 ≤ s.sigY.toNat at hsy
  have hprod := product_toNat s
  have hlt := s.product.isLt
  have htop : s.product.getLsbD 47 = true ↔ 2 ^ 47 ≤ s.product.toNat := by
    rw [getLsbD_eq_decide, decide_eq_true_eq]
    omega
  have hlow : s.product.toNat = 0 ∨ 2 ^ 46 ≤ s.product.toNat := by
    rw [hprod]
    rcases hsx with ⟨hzero, _⟩ | hsx
    · exact .inl (by rw [hzero, Nat.zero_mul])
    · rcases hsy with ⟨hzero, _⟩ | hsy
      · exact .inl (by rw [hzero, Nat.mul_zero])
      · have hmul : 2 ^ 23 * 2 ^ 23 ≤ s.sigX.toNat * s.sigY.toNat := Nat.mul_le_mul hsx hsy
        exact .inr (le_trans (by norm_num) hmul)
  have hmag : s.lhsMag = if s.product.getLsbD 47 then s.product else s.product <<< 1 := by
    unfold lhsMag
    rw [hadd]
    rfl
  have hexp : s.lhsExp = s.expX + s.expY + (if s.product.getLsbD 47 then 1 else 0) := by
    unfold lhsExp
    rw [hadd]
    rfl
  have hcarry : Reg (if s.product.getLsbD 47 then 1 else 0 : BitVec 12)
      (if 2 ^ 47 ≤ s.product.toNat then 1 else 0) 1 :=
    .ite htop ⟨rfl, le_refl _⟩ ⟨rfl, by decide⟩
  have hreg := (hex.add hey (by norm_num)).add hcarry (by norm_num)
  have hexact : absValue s.x * absValue s.y = s.product.toNat * 2 ^ (ex + ey - 46) := by
    rw [hvx, hvy, hprod, mul_mul_mul_comm, ← zpow_add₀ two_ne_zero, Nat.cast_mul]
    congr 2
    ring
  rw [← hexp] at hreg
  refine ⟨_, hreg, ?_, ?_⟩
  · rw [hmag]
    by_cases hbig : 2 ^ 47 ≤ s.product.toNat
    · rw [if_pos (htop.mpr hbig)]
      exact .inr hbig
    · rw [if_neg (mt htop.mp hbig), BitVec.toNat_shiftLeft, Nat.shiftLeft_eq,
        Nat.mod_eq_of_lt (by omega)]
      omega
  · rw [hmag, hexact]
    by_cases hbig : 2 ^ 47 ≤ s.product.toNat
    · rw [if_pos (htop.mpr hbig), if_pos hbig]
      congr 2
      ring
    · rw [if_neg (mt htop.mp hbig), if_neg hbig, BitVec.toNat_shiftLeft, Nat.shiftLeft_eq,
        Nat.mod_eq_of_lt (by omega), Nat.cast_mul, mul_assoc, add_zero]
      congr 1
      rw [show ex + ey - 46 = 1 + (ex + ey - 47) by ring, zpow_add₀ two_ne_zero]
      norm_num

theorem decode_mul (hop : opMul ≤ s.operation ∧ s.operation ≤ opFnmadd)
    (hm : s.mode = rmOf mode) : s.decode = s.decodeMul := by
  have hlow : 2 ≤ s.operation.toNat := hop.1
  have hhigh : s.operation.toNat ≤ 6 := hop.2
  have hmode : ¬rmRmm < rmOf mode := by
    cases mode <;> decide
  have hvalid : ¬opMax < s.operation := by
    rw [BitVec.lt_def]
    change ¬17 < s.operation.toNat
    omega
  have hne (k : BitVec 5) (hk : k.toNat < 2) : s.operation ≠ k := by
    intro h
    rw [h] at hlow
    omega
  unfold decode
  rw [hm, if_neg (by tauto), if_neg (not_or.mpr ⟨hne 0 (by decide), hne 1 (by decide)⟩),
    if_pos hop]

theorem product_yields (hd : s.state = .decode) (hm : s.mode = rmOf mode)
    (hop : opMul ≤ s.operation ∧ s.operation ≤ opFnmadd) (hx : IsFinite s.x) (hy : IsFinite s.y)
    (hz : s.fused = true → IsFinite s.z) :
    s.Yields (Rounded mode
      ((if s.productSign then -(absValue s.x * absValue s.y) else absValue s.x * absValue s.y) +
        (if s.fused then if s.thirdSign then -absValue s.z else absValue s.z else 0))
      (sumSign mode s.productSign (if s.fused then s.thirdSign else s.productSign))) := by
  have hlow : 2 ≤ s.operation.toNat := hop.1
  have hadd : s.isAdd = false := by
    unfold isAdd
    rw [Bool.or_eq_false_iff, decide_eq_false_iff_not, decide_eq_false_iff_not]
    constructor <;> (intro h; rw [h] at hlow; exact absurd hlow (by decide))
  obtain ⟨e, he, hn, hval⟩ := product_operand hadd hx hy
  apply Yields.next
  rw [work_decode hd, decode_mul hop hm]
  unfold decodeMul
  rw [not_nan_of_finite hx, not_nan_of_finite hy, not_inf_of_finite hx, not_inf_of_finite hy]
  by_cases hf : s.fused = true
  · obtain ⟨ez, hez, hnz, hvz⟩ := widened_operand s.z (hz hf)
    have hrm : s.rhsMag = (unpack s.z).2 ++ 0#24 := by
      unfold rhsMag
      rw [hadd, hf]
      rfl
    have hre : s.rhsExp = (unpack s.z).1 := by
      unfold rhsExp
      rw [hadd, hf]
      rfl
    have hload := loadOperands_yields hm (he.mono (by norm_num))
      (by rw [hre]; exact hez.mono (by norm_num)) hn (by rw [hrm]; exact hnz) s.productSign
      s.thirdSign
    rw [hrm, ← hval, ← hvz] at hload
    rw [not_nan_of_finite (hz hf), not_inf_of_finite (hz hf), hf]
    simpa using hload
  · have hf : s.fused = false := Bool.not_eq_true _ ▸ hf
    have hrm : s.rhsMag.toNat = 0 := by
      unfold rhsMag
      rw [hadd, hf]
      rfl
    have hre : s.rhsExp = s.lhsExp := by
      unfold rhsExp
      rw [hadd, hf]
      rfl
    have hload := loadOperands_yields hm (he.mono (by norm_num))
      (by rw [hre]; exact he.mono (by norm_num)) hn (.inl hrm) s.productSign s.productSign
    rw [hrm, ← hval] at hload
    rw [hf]
    simpa using hload

theorem value_mul (v w : Word) : value v * value w =
    if v.msb ^^ w.msb then -(absValue v * absValue w) else absValue v * absValue w := by
  unfold value
  cases v.msb <;> cases w.msb <;> simp

theorem mul_yields (hd : s.state = .decode) (hm : s.mode = rmOf mode)
    (hop : s.operation = opMul) (hx : IsFinite s.x) (hy : IsFinite s.y) :
    s.Yields (Rounded mode (value s.x * value s.y) (s.x.msb ^^ s.y.msb)) := by
  have hf : s.fused = false := by
    unfold fused
    rw [hop]
    rfl
  have hsign : s.productSign = (s.x.msb ^^ s.y.msb) := by
    unfold productSign
    rw [hop]
    exact Bool.xor_false _
  have h := product_yields hd hm (by rw [hop]; decide) hx hy fun hf' => by
    rw [hf] at hf'
    cases hf'
  rw [hf, hsign, ← value_mul] at h
  simpa [sumSign] using h

/-- The fused operations, by the signs they change. -/
theorem fused_yields (hd : s.state = .decode) (hm : s.mode = rmOf mode) (negated minus : Bool)
    (hop : s.operation = match negated, minus with
      | false, false => opFmadd
      | false, true => opFmsub
      | true, false => opFnmsub
      | true, true => opFnmadd)
    (hx : IsFinite s.x) (hy : IsFinite s.y) (hz : IsFinite s.z) :
    s.Yields (Rounded mode
      ((if negated then -(value s.x * value s.y) else value s.x * value s.y) +
        (if minus then -value s.z else value s.z))
      (sumSign mode (s.x.msb ^^ s.y.msb ^^ negated) (s.z.msb ^^ minus))) := by
  have hf : s.fused = true := by
    unfold fused
    rw [hop]
    cases negated <;> cases minus <;> rfl
  have hproduct : s.productSign = (s.x.msb ^^ s.y.msb ^^ negated) := by
    unfold productSign
    rw [hop]
    cases negated <;> cases minus <;> rfl
  have hthird : s.thirdSign = (s.z.msb ^^ minus) := by
    unfold thirdSign
    rw [hop]
    cases negated <;> cases minus <;> rfl
  have h := product_yields hd hm (by rw [hop]; cases negated <;> cases minus <;> decide) hx hy
    fun _ => hz
  rw [hf, hproduct, hthird, if_pos rfl, if_pos rfl, signed_xor _ negated, ← value_mul,
    signed_xor _ minus] at h
  exact h

end Operations

/-- Sums, products and fused operations of finite numbers are rounded once. -/
theorem arithmetic_rounded (ins : Nat → FpPort) (n : Nat) (mode : Rounding)
    (ha : accepts ins n) (hm : (ins n).rm = rmOf mode) (hx : IsFinite (ins n).a)
    (hy : IsFinite (ins n).b) :
    ((ins n).op = opAdd → Answers ins n (Rounded mode (value (ins n).a + value (ins n).b)
      (sumSign mode (ins n).a.msb (ins n).b.msb))) ∧
    ((ins n).op = opSub → Answers ins n (Rounded mode (value (ins n).a - value (ins n).b)
      (sumSign mode (ins n).a.msb !(ins n).b.msb))) ∧
    ((ins n).op = opMul → Answers ins n (Rounded mode (value (ins n).a * value (ins n).b)
      ((ins n).a.msb ^^ (ins n).b.msb))) ∧
    (IsFinite (ins n).c →
      ((ins n).op = opFmadd → Answers ins n
        (Rounded mode (value (ins n).a * value (ins n).b + value (ins n).c)
          (sumSign mode ((ins n).a.msb ^^ (ins n).b.msb) (ins n).c.msb))) ∧
      ((ins n).op = opFmsub → Answers ins n
        (Rounded mode (value (ins n).a * value (ins n).b - value (ins n).c)
          (sumSign mode ((ins n).a.msb ^^ (ins n).b.msb) !(ins n).c.msb))) ∧
      ((ins n).op = opFnmsub → Answers ins n
        (Rounded mode (-(value (ins n).a * value (ins n).b) + value (ins n).c)
          (sumSign mode (!((ins n).a.msb ^^ (ins n).b.msb)) (ins n).c.msb))) ∧
      ((ins n).op = opFnmadd → Answers ins n
        (Rounded mode (-(value (ins n).a * value (ins n).b) - value (ins n).c)
          (sumSign mode (!((ins n).a.msb ^^ (ins n).b.msb)) !(ins n).c.msb)))) := by
  refine ⟨fun hop => answers_of_yields ha (add_yields rfl hm hop hx hy),
    fun hop => answers_of_yields ha (sub_yields rfl hm hop hx hy),
    fun hop => answers_of_yields ha (mul_yields rfl hm hop hx hy),
    fun hz => ⟨fun hop => ?_, fun hop => ?_, fun hop => ?_, fun hop => ?_⟩⟩
  · apply answers_of_yields ha
    have h := fused_yields (s := (after ins n).accept (ins n).op (ins n).rm (ins n).a (ins n).b
      (ins n).c) rfl hm false false hop hx hy hz
    rw [Bool.xor_false, Bool.xor_false] at h
    exact h
  · apply answers_of_yields ha
    have h := fused_yields (s := (after ins n).accept (ins n).op (ins n).rm (ins n).a (ins n).b
      (ins n).c) rfl hm false true hop hx hy hz
    rw [Bool.xor_false, Bool.xor_true] at h
    exact h
  · apply answers_of_yields ha
    have h := fused_yields (s := (after ins n).accept (ins n).op (ins n).rm (ins n).a (ins n).b
      (ins n).c) rfl hm true false hop hx hy hz
    rw [Bool.xor_true, Bool.xor_false] at h
    exact h
  · apply answers_of_yields ha
    have h := fused_yields (s := (after ins n).accept (ins n).op (ins n).rm (ins n).a (ins n).b
      (ins n).c) rfl hm true true hop hx hy hz
    rw [Bool.xor_true, Bool.xor_true] at h
    exact h

/-- A unit that is asked at once for the sum of 1 and 1. -/
theorem arithmetic_rounded_ones :
    Answers (fun _ => ⟨false, true, opAdd, rmRne, 0x3f800000, 0x3f800000, 0, true⟩) 0
      (Rounded .nearestEven (value 0x3f800000 + value 0x3f800000) false) :=
  (arithmetic_rounded _ 0 .nearestEven ⟨rfl, rfl⟩ rfl (by unfold IsFinite; decide)
    (by unfold IsFinite; decide)).1 rfl

end Fp32

end TinyProcessors
