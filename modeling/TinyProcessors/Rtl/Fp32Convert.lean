import TinyProcessors.Rtl.Fp32Rounds

namespace TinyProcessors

namespace Fp32

open Binary32 (IsFinite IsNan absValue value Raises Rounded)

structure Converted (mode : Rounding) (low high : ℤ) (v w : Word) (flags : BitVec 5) : Prop where
  nan : IsNan v → w = BitVec.ofInt 32 high ∧ Raises flags True False False False False
  infinite : ¬IsFinite v → ¬IsNan v → w = BitVec.ofInt 32 (if v.msb then low else high) ∧
    Raises flags True False False False False
  outside : IsFinite v → ¬(low ≤ mode.toInt (value v) ∧ mode.toInt (value v) ≤ high) →
    w = BitVec.ofInt 32 (if mode.toInt (value v) < low then low else high) ∧
      Raises flags True False False False False
  inside : IsFinite v → low ≤ mode.toInt (value v) → mode.toInt (value v) ≤ high →
    w = BitVec.ofInt 32 (mode.toInt (value v)) ∧
      Raises flags False False False False ((mode.toInt (value v) : ℝ) ≠ value v)

section FromInt

variable {s : Fp32} {mode : Rounding}

theorem work_decode (hd : s.state = .decode) : s.work = s.decode := by
  unfold work
  rw [hd]

theorem decode_fromInt (hop : s.operation = opI32ToF32 ∨ s.operation = opU32ToF32)
    (hm : s.mode = rmOf mode) : s.decode = s.decodeFromInt := by
  unfold decode
  rw [hm]
  rcases hop with hop | hop
  · rw [hop]
    cases mode <;> rfl
  · rw [hop]
    cases mode <;> rfl

theorem not_add_one (v : Word) : ~~~v + 1 = -v := (BitVec.neg_eq_not_add v).symm

def integerOperand (s : Fp32) : ℤ := if s.operation = opI32ToF32 then s.x.toInt else s.x.toNat

theorem decodeFromInt_window (s : Fp32) : ∃ m : ℕ,
    s.decodeFromInt.magnitude.toNat = m * 2 ^ 48 ∧
    s.integerOperand = signed s.decodeFromInt.signResult m ∧
    (s.decodeFromInt.signResult = true → m ≠ 0) := by
  have hlt := s.x.isLt
  have hmsb : s.x.msb = true ↔ 2 ^ 31 ≤ s.x.toNat := by
    rw [BitVec.msb_eq_decide, decide_eq_true_eq]
  have hcond := s.x.toInt_eq_toNat_cond
  unfold decodeFromInt integerOperand signed
  dsimp only
  by_cases hneg : s.operation = opI32ToF32 ∧ s.x.msb = true
  · have hsign : (decide (s.operation = opI32ToF32) && s.x.msb) = true := by
      rw [Bool.and_eq_true, decide_eq_true_eq]
      exact hneg
    have hval : (~~~s.x + 1).toNat = 2 ^ 32 - s.x.toNat := by
      have hbig := hmsb.mp hneg.2
      rw [not_add_one, BitVec.toNat_neg]
      omega
    rw [hsign, if_pos rfl, if_pos hneg.1, append_toNat, hval, BitVec.toNat_zero,
      Nat.add_zero, hcond]
    refine ⟨2 ^ 32 - s.x.toNat, rfl, ?_, fun _ => by omega⟩
    rw [hmsb] at hneg
    rw [if_pos rfl]
    split <;> omega
  · have hsign : (decide (s.operation = opI32ToF32) && s.x.msb) = false := by
      rw [← Bool.not_eq_true, Bool.and_eq_true, decide_eq_true_eq]
      exact hneg
    rw [hsign, if_neg (by decide), append_toNat, BitVec.toNat_zero, Nat.add_zero, hcond]
    refine ⟨s.x.toNat, rfl, ?_, fun h => by cases h⟩
    rw [hmsb] at hneg
    rw [if_neg Bool.false_ne_true]
    by_cases hop : s.operation = opI32ToF32
    · have hsmall : 2 * s.x.toNat < 2 ^ 32 := by
        by_contra hbig
        exact hneg ⟨hop, by omega⟩
      rw [if_pos hop, if_pos hsmall]
    · rw [if_neg hop]

theorem decodeFromInt_yields (hm : s.mode = rmOf mode) :
    s.decodeFromInt.Yields (Rounded mode s.integerOperand false) := by
  obtain ⟨m, hmag, hint, hne⟩ := decodeFromInt_window s
  have hx : (s.integerOperand : ℝ) = if s.decodeFromInt.signResult then -(m : ℝ) else m := by
    rw [hint]
    unfold signed
    cases s.decodeFromInt.signResult <;> simp
  by_cases hz : s.decodeFromInt.magnitude = 0
  · have hm0 : m = 0 := by
      rw [hz] at hmag
      change 0 = _ at hmag
      omega
    have hsign : s.decodeFromInt.signResult = false := by
      rw [← Bool.not_eq_true]
      exact fun h => hne h hm0
    rw [hx, hm0, hsign, ← hsign]
    have hzero : s.decodeFromInt.Yields (Rounded mode 0 s.decodeFromInt.signResult) :=
      normalize_zero rfl hz
    simpa using hzero
  · have hexact : (s.decodeFromInt.magnitude.toNat : ℝ) = m * 2 ^ (79 - 31 : ℤ) := by
      rw [hmag]
      push_cast
      norm_num
    rw [hx]
    refine normalize_nonzero rfl hm rfl (e := 31) ⟨rfl, by norm_num⟩ hz ?_
    rw [hexact]
    exact .refl _ _

theorem fromInt_yields (hd : s.state = .decode) (hm : s.mode = rmOf mode)
    (hop : s.operation = opI32ToF32) : s.Yields (Rounded mode s.x.toInt false) := by
  have h := decodeFromInt_yields hm
  unfold integerOperand at h
  rw [if_pos hop] at h
  apply Yields.next
  rw [work_decode hd, decode_fromInt (.inl hop) hm]
  exact h

theorem fromUint_yields (hd : s.state = .decode) (hm : s.mode = rmOf mode)
    (hop : s.operation = opU32ToF32) : s.Yields (Rounded mode s.x.toNat false) := by
  have h := decodeFromInt_yields hm
  unfold integerOperand at h
  rw [if_neg (by rw [hop]; decide), Int.cast_natCast] at h
  apply Yields.next
  rw [work_decode hd, decode_fromInt (.inr hop) hm]
  exact h

end FromInt

section ToInt

variable {s : Fp32} {mode : Rounding}

theorem decode_toInt (hop : s.operation = opF32ToI32 ∨ s.operation = opF32ToU32)
    (hm : s.mode = rmOf mode) : s.decode = s.decodeToInt := by
  unfold decode
  rw [hm]
  rcases hop with hop | hop
  · rw [hop]
    cases mode <;> rfl
  · rw [hop]
    cases mode <;> rfl

def integerLow (s : Fp32) : ℤ := if s.operation = opF32ToU32 then 0 else -2 ^ 31

def integerHigh (s : Fp32) : ℤ := if s.operation = opF32ToU32 then 2 ^ 32 - 1 else 2 ^ 31 - 1

theorem raises_nv : Raises flagNv True False False False False := by
  constructor <;> decide

theorem value_eq (v : Word) : value v = if v.msb then -absValue v else absValue v := rfl

theorem integerLimit_eq (s : Fp32) :
    s.integerLimit = BitVec.ofInt 32 (if s.signResult then s.integerLow else s.integerHigh) := by
  unfold integerLimit integerLow integerHigh
  by_cases hop : s.operation = opF32ToU32
  · rw [if_pos hop, if_pos hop, if_pos hop]
    cases s.signResult <;> rfl
  · rw [if_neg hop, if_neg hop, if_neg hop]
    cases s.signResult <;> rfl

theorem integerRounded_toNat (s : Fp32) :
    s.integerRounded.toNat = s.magnitude.toNat / 2 ^ 48 + if s.integerUp then 1 else 0 := by
  have hlt := s.magnitude.isLt
  have hup : ((BitVec.ofBool s.integerUp).setWidth 33).toNat = if s.integerUp then 1 else 0 := by
    rw [toNat_ofBool_setWidth _ (by omega)]
    cases s.integerUp <;> rfl
  have hle : (if s.integerUp then 1 else 0) ≤ 1 := by
    split_ifs <;> omega
  unfold integerRounded
  rw [BitVec.toNat_add, BitVec.toNat_setWidth, extractLsb'_toNat_div, hup]
  omega

theorem integerDiscarded_eq (s : Fp32) : s.integerDiscarded =
    (s.magnitude.getLsbD 47 || decide (s.magnitude.toNat % 2 ^ 47 ≠ 0)) := by
  unfold integerDiscarded
  rw [extract_ne_zero, getLsbD_eq_decide, ← Bool.decide_or, decide_eq_decide]
  omega

theorem integerInvalid_iff (s : Fp32) : s.integerInvalid = true ↔
    ¬(s.integerLow ≤ signed s.signResult s.integerRounded.toNat ∧
      signed s.signResult s.integerRounded.toNat ≤ s.integerHigh) := by
  have hlt := s.integerRounded.isLt
  have htop : s.integerRounded.getLsbD 32 = true ↔ 2 ^ 32 ≤ s.integerRounded.toNat := by
    rw [getLsbD_eq_decide, decide_eq_true_eq]
    omega
  have hzero : s.integerRounded = 0 ↔ s.integerRounded.toNat = 0 := BitVec.toNat_inj.symm
  unfold integerInvalid integerLow integerHigh signed
  by_cases hop : s.operation = opF32ToU32
  · rw [if_pos hop, if_pos hop, if_pos hop, Bool.or_eq_true, htop, Bool.and_eq_true,
      decide_eq_true_eq, ne_eq, hzero]
    cases s.signResult with
    | false =>
      rw [if_neg (by decide)]
      simp only [Bool.false_eq_true, false_and, or_false]
      omega
    | true =>
      rw [if_pos rfl]
      simp only [true_and]
      omega
  · rw [if_neg hop, if_neg hop, if_neg hop, decide_eq_true_eq, BitVec.lt_def]
    cases s.signResult with
    | false =>
      rw [if_neg (by decide), if_neg (by decide)]
      change 0x07fffffff < _ ↔ _
      omega
    | true =>
      rw [if_pos rfl, if_pos rfl]
      change 0x080000000 < _ ↔ _
      omega

theorem outside_iff (s : Fp32) {negative : Bool} {n : ℕ}
    (h : ¬(s.integerLow ≤ signed negative n ∧ signed negative n ≤ s.integerHigh)) :
    signed negative n < s.integerLow ↔ negative = true := by
  unfold integerLow integerHigh signed at h
  unfold integerLow signed
  cases negative with
  | false =>
    simp only [Bool.false_eq_true, if_false, iff_false] at h ⊢
    split_ifs <;> omega
  | true =>
    simp only [if_true, iff_true] at h ⊢
    split_ifs at h ⊢ <;> omega

theorem intRound_yields (hm : s.mode = rmOf mode) (hv : IsFinite v)
    (hs : s.signResult = v.msb)
    (hw : Stands (2 ^ 47) s.magnitude.toNat (absValue v * 2 ^ 48)) :
    s.intRound.Yields (Converted mode s.integerLow s.integerHigh v) := by
  have hlies : Lies (absValue v) (s.magnitude.toNat / 2 ^ 48) (s.magnitude.getLsbD 47)
      (s.magnitude.toNat % 2 ^ 47 ≠ 0) := by
    have h := hw.lies
    rw [mul_div_cancel_right₀ _ (by positivity)] at h
    exact h
  have hup : s.integerUp = mode.bumps v.msb (s.magnitude.toNat / 2 ^ 48 % 2 = 1)
      (s.magnitude.getLsbD 47) (s.magnitude.toNat % 2 ^ 47 ≠ 0) := by
    unfold integerUp
    rw [hm, hs, increment_rmOf, extract_ne_zero, getLsbD_eq_decide s.magnitude 48]
  have hround : mode.toInt (value v) = signed v.msb s.integerRounded.toNat := by
    rw [value_eq, hlies.round mode v.msb, integerRounded_toNat, hup]
  have hexact := hlies.round_eq_iff mode v.msb
  rw [← value_eq, ← integerDiscarded_eq] at hexact
  have hinvalid := integerInvalid_iff s
  rw [hs, ← hround] at hinvalid
  have hnan : ¬IsNan v := fun h => hv h.1
  unfold intRound
  by_cases hbad : s.integerInvalid = true
  · rw [if_pos hbad, integerLimit_eq]
    refine .finish _ ⟨fun h => absurd h hnan, fun h => absurd hv h, fun _ _ => ⟨?_, raises_nv⟩,
      fun _ h1 h2 => absurd ⟨h1, h2⟩ (hinvalid.mp hbad)⟩
    have hout := hinvalid.mp hbad
    rw [hround] at hout ⊢
    rw [hs]
    exact congrArg _ (if_congr (s.outside_iff hout).symm rfl rfl)
  · rw [if_neg hbad]
    refine .finish _ ⟨fun h => absurd h hnan, fun h => absurd hv h,
      fun _ h => absurd (hinvalid.mpr h) hbad, fun _ _ _ => ⟨?_, ?_⟩⟩
    · have hword : s.integerRounded.extractLsb' 0 32 = BitVec.ofInt 32 s.integerRounded.toNat := by
        apply BitVec.eq_of_toNat_eq
        rw [extractLsb'_toNat_div, Nat.pow_zero, Nat.div_one, BitVec.ofInt_natCast,
          BitVec.toNat_ofNat]
      rw [hround, hword, not_add_one, hs]
      unfold signed
      cases v.msb with
      | false => rfl
      | true =>
        rw [if_pos rfl, if_pos rfl, BitVec.ofInt_neg]
    · rw [ne_eq, hexact]
      cases s.integerDiscarded <;> constructor <;> decide

theorem converted_large (hv : IsFinite v) (hbig : (2 : ℝ) ^ 32 ≤ absValue v) (s : Fp32) :
    Converted mode s.integerLow s.integerHigh v
      (BitVec.ofInt 32 (if v.msb then s.integerLow else s.integerHigh)) flagNv := by
  obtain ⟨n, half, rest, hlies⟩ := exists_lies (Binary32.absValue_nonneg v)
  have hn : 2 ^ 32 ≤ n := by
    have hfloor : ((2 ^ 32 : ℤ)) ≤ ⌊absValue v⌋ := by
      rw [Int.le_floor, Int.cast_pow, Int.cast_ofNat]
      exact hbig
    rw [hlies.floor] at hfloor
    omega
  have hround : ∃ m : ℕ, 2 ^ 32 ≤ m ∧ mode.toInt (value v) = signed v.msb m :=
    ⟨_, Nat.le_add_right_of_le hn, hlies.round mode v.msb⟩
  obtain ⟨m, hm, hround⟩ := hround
  have hout : ¬(s.integerLow ≤ signed v.msb m ∧ signed v.msb m ≤ s.integerHigh) := by
    unfold integerLow integerHigh signed
    split_ifs <;> omega
  refine ⟨fun h => absurd h.1 hv, fun h => absurd hv h, fun _ _ => ⟨?_, raises_nv⟩,
    fun _ h1 h2 => ?_⟩
  swap
  · rw [hround] at h1 h2
    exact absurd ⟨h1, h2⟩ hout
  rw [hround]
  exact congrArg _ (if_congr (s.outside_iff hout).symm rfl rfl)

theorem intShift_window (he : Reg s.expX e 150) (hle : e ≤ 31)
    (hval : absValue s.x = s.sigX.toNat * 2 ^ (e - 23)) (hd : s.state = .intShift)
    (hexp : s.exponent = s.expX) (hmag : s.magnitude = s.sigX ++ 0#56) :
    Stands (2 ^ 47) s.magnitudeJammed.toNat (absValue s.x * 2 ^ 48) := by
  have hdistance : Reg s.jamDistance (31 - e) 181 := by
    unfold jamDistance jamTarget
    rw [hd, if_neg (by decide), hexp]
    exact Reg.sub (j := 31) ⟨rfl, by decide⟩ (he.signExtend (by omega)) (by norm_num)
  obtain ⟨d, hdist⟩ : ∃ d : ℕ, 31 - e = d := ⟨(31 - e).toNat, by omega⟩
  have hjam : s.magnitudeJammed.toNat = jam s.magnitude.toNat d := by
    unfold magnitudeJammed jamAmount
    rw [hd, if_neg (by decide), jam_clamped _ hdistance, hdist, Int.toNat_natCast]
  have hstands := (jam_stands s.magnitude.toNat d).coarser (2 ^ 46)
  have hgrid : ((2 ^ 46 : ℤ) : ℝ) * 2 = 2 ^ 47 := by norm_num
  have hexact : (s.magnitude.toNat : ℝ) / 2 ^ d = absValue s.x * 2 ^ 48 := by
    rw [hmag, append_toNat, BitVec.toNat_zero, Nat.add_zero, hval, Nat.cast_mul, div_eq_mul_inv,
      mul_assoc, mul_assoc]
    congr 1
    rw [Nat.cast_pow, Nat.cast_ofNat, ← zpow_natCast, ← zpow_natCast, ← zpow_natCast, ← zpow_neg,
      ← zpow_add₀ two_ne_zero, ← zpow_add₀ two_ne_zero]
    congr 1
    push_cast
    omega
  rw [hgrid, hexact] at hstands
  rw [hjam]
  exact hstands

theorem intShift_yields (hd : s.state = .intShift) (hm : s.mode = rmOf mode)
    (hs : s.signResult = s.x.msb) (hv : IsFinite s.x) (he : Reg s.expX e 150) (hle : e ≤ 31)
    (hval : absValue s.x = s.sigX.toNat * 2 ^ (e - 23)) (hexp : s.exponent = s.expX)
    (hmag : s.magnitude = s.sigX ++ 0#56) :
    s.Yields (Converted mode s.integerLow s.integerHigh s.x) := by
  have hwindow := intShift_window he hle hval hd hexp hmag
  have hwork : s.work = { s with magnitude := s.magnitudeJammed, state := .intRound } := by
    unfold work
    rw [hd]
  apply Yields.next
  rw [hwork]
  apply Yields.next
  exact intRound_yields (s := { s with magnitude := s.magnitudeJammed, state := .intRound })
    hm hv hs hwindow

theorem decodeToInt_yields (hm : s.mode = rmOf mode) :
    s.decodeToInt.Yields (Converted mode s.integerLow s.integerHigh s.x) := by
  have hlimit : (if s.operation = opF32ToU32 then if s.x.msb then 0 else 0xffffffff
      else if s.x.msb then 0x80000000 else 0x7fffffff) =
        BitVec.ofInt 32 (if s.x.msb then s.integerLow else s.integerHigh) :=
    integerLimit_eq { s with signResult := s.x.msb }
  unfold decodeToInt
  dsimp only
  by_cases hnan : isNan s.x = true
  · have hisNan := (isNan_iff s.x).mp hnan
    rw [if_pos hnan]
    refine .finish _ ⟨fun _ => ⟨?_, raises_nv⟩, fun _ h => absurd hisNan h,
      fun h => absurd hisNan.1 h, fun h => absurd hisNan.1 h⟩
    unfold integerHigh
    split_ifs <;> rfl
  · rw [if_neg hnan]
    rw [isNan_iff] at hnan
    have hexpX : Reg (31 : BitVec 12) 31 31 := ⟨rfl, le_refl _⟩
    by_cases hv : IsFinite s.x
    · obtain ⟨e, he, hval, hsig⟩ := unpack_spec s.x hv
      have hinf : isInf s.x = false := by
        rw [← Bool.not_eq_true, isInf_iff]
        exact fun h => h.1 hv
      change Reg s.expX e 150 at he
      have hslt : BitVec.slt 31 { s with signResult := s.x.msb }.expX = decide (31 < e) :=
        hexpX.slt he
      rw [hinf, Bool.false_or, hslt]
      by_cases hbig : 31 < e
      · rw [if_pos (decide_eq_true hbig)]
        have hlarge : (2 : ℝ) ^ 32 ≤ absValue s.x := by
          have hs : 2 ^ 23 ≤ (unpack s.x).2.toNat := hsig.resolve_left (by omega)
          have hcast : (2 : ℝ) ^ 23 ≤ (unpack s.x).2.toNat := by exact_mod_cast hs
          rw [hval]
          calc (2 : ℝ) ^ 32 = (2 : ℝ) ^ 23 * (2 : ℝ) ^ (32 - 23 : ℤ) := by norm_num
            _ ≤ ((unpack s.x).2.toNat : ℝ) * 2 ^ (e - 23) :=
              mul_le_mul hcast (zpow_le_zpow_right₀ one_le_two (by omega)) (by positivity)
                (by positivity)
        rw [hlimit]
        exact .finish _ (converted_large hv hlarge s)
      · rw [if_neg (by rwa [decide_eq_true_eq])]
        exact intShift_yields rfl hm rfl hv he (by omega) hval rfl rfl
    · have hinf : isInf s.x = true := (isInf_iff s.x).mpr ⟨hv, hnan⟩
      rw [hinf, Bool.true_or, if_pos rfl]
      refine .finish _ ⟨fun h => absurd h hnan, fun _ _ => ⟨hlimit, raises_nv⟩,
        fun h => absurd h hv, fun h => absurd h hv⟩

theorem toInt_yields (hd : s.state = .decode) (hm : s.mode = rmOf mode)
    (hop : s.operation = opF32ToI32) :
    s.Yields (Converted mode (-2 ^ 31) (2 ^ 31 - 1) s.x) := by
  have h := decodeToInt_yields hm
  unfold integerLow integerHigh at h
  rw [if_neg (by rw [hop]; decide), if_neg (by rw [hop]; decide)] at h
  apply Yields.next
  rw [work_decode hd, decode_toInt (.inl hop) hm]
  exact h

theorem toUint_yields (hd : s.state = .decode) (hm : s.mode = rmOf mode)
    (hop : s.operation = opF32ToU32) : s.Yields (Converted mode 0 (2 ^ 32 - 1) s.x) := by
  have h := decodeToInt_yields hm
  unfold integerLow integerHigh at h
  rw [if_pos hop, if_pos hop] at h
  apply Yields.next
  rw [work_decode hd, decode_toInt (.inr hop) hm]
  exact h

end ToInt

/-- Conversions are rounded once, or saturate with the invalid flag alone. -/
theorem conversions_rounded (ins : Nat → FpPort) (n : Nat) (mode : Rounding)
    (ha : accepts ins n) (hm : (ins n).rm = rmOf mode) :
    ((ins n).op = opI32ToF32 → Answers ins n (Rounded mode (ins n).a.toInt false)) ∧
    ((ins n).op = opU32ToF32 → Answers ins n (Rounded mode (ins n).a.toNat false)) ∧
    ((ins n).op = opF32ToI32 →
      Answers ins n (Converted mode (-2 ^ 31) (2 ^ 31 - 1) (ins n).a)) ∧
    ((ins n).op = opF32ToU32 → Answers ins n (Converted mode 0 (2 ^ 32 - 1) (ins n).a)) := by
  refine ⟨fun hop => ?_, fun hop => ?_, fun hop => ?_, fun hop => ?_⟩
  · exact answers_of_yields ha (fromInt_yields rfl hm hop)
  · exact answers_of_yields ha (fromUint_yields rfl hm hop)
  · exact answers_of_yields ha (toInt_yields rfl hm hop)
  · exact answers_of_yields ha (toUint_yields rfl hm hop)

/-- A unit that is asked at once, and then left alone, to convert the integer 5. -/
theorem conversions_rounded_five :
    Answers (fun _ => ⟨false, true, opI32ToF32, rmRne, 5, 0, 0, true⟩) 0
      (Rounded .nearestEven (BitVec.toInt 5#32) false) :=
  (conversions_rounded _ 0 .nearestEven ⟨rfl, rfl⟩ rfl).1 rfl

end Fp32

end TinyProcessors
