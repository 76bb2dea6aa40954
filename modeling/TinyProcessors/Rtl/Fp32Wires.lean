import TinyProcessors.Lib.Binary
import TinyProcessors.Lib.Signed
import TinyProcessors.Rtl.Fp32

namespace TinyProcessors

namespace Fp32

section LeadingZeros

theorem getLsbD_eq_decide (v : BitVec w) (i : Nat) :
    v.getLsbD i = decide (v.toNat / 2 ^ i % 2 = 1) := by
  rw [BitVec.getLsbD, Nat.testBit_eq_decide_div_mod_eq]

theorem leadingZeros_loop (v : BitVec 80) (n : Nat) :
    (List.range n).foldl (fun zeros i => if v.getLsbD i then 79 - BitVec.ofNat 7 i else zeros)
        (80 : BitVec 7) =
      if v.toNat % 2 ^ n = 0 then 80 else 79 - BitVec.ofNat 7 (v.toNat % 2 ^ n).log2 := by
  induction n with
  | zero => rw [Nat.pow_zero, Nat.mod_one, if_pos rfl]; rfl
  | succ n ih =>
    have hsplit : v.toNat % 2 ^ (n + 1) = v.toNat % 2 ^ n + 2 ^ n * (v.toNat / 2 ^ n % 2) :=
      Nat.mod_pow_succ
    have hlow : v.toNat % 2 ^ n < 2 ^ n := Nat.mod_lt _ (Nat.two_pow_pos n)
    rw [List.range_succ, List.foldl_append, List.foldl_cons, List.foldl_nil, ih,
      getLsbD_eq_decide]
    by_cases hbit : v.toNat / 2 ^ n % 2 = 1
    · rw [hbit, Nat.mul_one] at hsplit
      have hne : v.toNat % 2 ^ (n + 1) ≠ 0 := by
        have := Nat.two_pow_pos n
        omega
      have hlog : (v.toNat % 2 ^ (n + 1)).log2 = n := by
        rw [Nat.log2_eq_iff hne, hsplit, Nat.pow_succ]
        omega
      rw [if_pos (decide_eq_true hbit), if_neg hne, hlog]
    · have hzero : v.toNat / 2 ^ n % 2 = 0 := by omega
      rw [hzero, Nat.mul_zero] at hsplit
      rw [if_neg (by simpa using hbit), hsplit, Nat.add_zero]

theorem leadingZeros_toNat (v : BitVec 80) (h : v ≠ 0) :
    (leadingZeros v).toNat = 79 - v.toNat.log2 ∧ v.toNat.log2 ≤ 79 := by
  have hmod : v.toNat % 2 ^ 80 = v.toNat := Nat.mod_eq_of_lt v.isLt
  have hne : v.toNat ≠ 0 := by
    intro hz
    exact h (BitVec.eq_of_toNat_eq hz)
  have hlog : v.toNat.log2 < 80 := (Nat.log2_lt hne).mpr v.isLt
  have hzeros : leadingZeros v = 79 - BitVec.ofNat 7 v.toNat.log2 := by
    unfold leadingZeros
    rw [leadingZeros_loop, hmod, if_neg hne]
  refine ⟨?_, by omega⟩
  rw [hzeros, BitVec.toNat_sub, BitVec.toNat_ofNat]
  change (2 ^ 7 - _ + 79) % 2 ^ 7 = _
  omega

theorem normalized_toNat (v : BitVec 80) (h : v ≠ 0) :
    (v <<< leadingZeros v).toNat = v.toNat * 2 ^ (leadingZeros v).toNat ∧
      2 ^ 79 ≤ v.toNat * 2 ^ (leadingZeros v).toNat := by
  have hne : v.toNat ≠ 0 := by
    intro hz
    exact h (BitVec.eq_of_toNat_eq hz)
  obtain ⟨hzeros, hlog⟩ := leadingZeros_toNat v h
  have hlow : 2 ^ v.toNat.log2 ≤ v.toNat := Nat.log2_self_le hne
  have hhigh : v.toNat < 2 ^ (v.toNat.log2 + 1) := Nat.lt_log2_self
  have hpow : 2 ^ v.toNat.log2 * 2 ^ (79 - v.toNat.log2) = 2 ^ 79 := by
    rw [← Nat.pow_add]
    congr 1
    omega
  have hpow' : 2 ^ (v.toNat.log2 + 1) * 2 ^ (79 - v.toNat.log2) = 2 ^ 80 := by
    rw [← Nat.pow_add]
    congr 1
    omega
  rw [hzeros]
  constructor
  · change (v <<< (leadingZeros v).toNat).toNat = _
    rw [BitVec.toNat_shiftLeft, Nat.shiftLeft_eq, hzeros, Nat.mod_eq_of_lt]
    rw [← hpow']
    exact Nat.mul_lt_mul_of_pos_right hhigh (Nat.two_pow_pos _)
  · rw [← hpow]
    exact Nat.mul_le_mul_right _ hlow

theorem top_iff (v : BitVec 80) : v.getLsbD 79 = true ↔ 2 ^ 79 ≤ v.toNat := by
  have := v.isLt
  rw [getLsbD_eq_decide, decide_eq_true_eq]
  omega

end LeadingZeros

section Shifts

theorem toNat_ofBool_setWidth (b : Bool) (h : 0 < w) :
    ((BitVec.ofBool b).setWidth w).toNat = b.toNat := by
  have hw : 2 ^ 1 ≤ 2 ^ w := Nat.pow_le_pow_right two_pos h
  have hb : b.toNat < 2 ^ w := lt_of_lt_of_le b.toNat_lt hw
  rw [BitVec.toNat_setWidth, BitVec.toNat_ofBool, Nat.mod_eq_of_lt hb]

theorem not_shifted_ones (w k : Nat) :
    ~~~(BitVec.allOnes w <<< k) = BitVec.ofNat w (2 ^ k - 1) := by
  apply BitVec.eq_of_getLsbD_eq
  intro i hi
  rw [BitVec.getLsbD_not, BitVec.getLsbD_shiftLeft, BitVec.getLsbD_allOnes, BitVec.getLsbD_ofNat,
    Nat.testBit_two_pow_sub_one]
  by_cases hik : i < k
  · simp [hi, hik]
  · have : i - k < w := by omega
    simp [hi, hik, this]

theorem jamRight_toNat (v : BitVec 80) (amount : BitVec 7) :
    (jamRight v amount).toNat = jam v.toNat amount.toNat := by
  have hzero : v = 0 ↔ v.toNat = 0 := BitVec.toNat_inj.symm
  unfold jamRight
  by_cases hlong : 80 ≤ amount
  · have hlt : v.toNat < 2 ^ amount.toNat :=
      lt_of_lt_of_le v.isLt (Nat.pow_le_pow_right (by omega) hlong)
    rw [if_pos hlong, jam_of_lt hlt, toNat_ofBool_setWidth _ (by omega)]
    by_cases hv : v.toNat = 0
    · rw [if_pos hv, decide_eq_false (not_not.mpr (hzero.mpr hv))]
      rfl
    · rw [if_neg hv, decide_eq_true (mt hzero.mp hv)]
      rfl
  · have hlt : amount.toNat < 80 := by
      rw [BitVec.le_def] at hlong
      exact not_le.mp hlong
    have hlow : (v &&& ~~~(BitVec.allOnes 80 <<< amount)).toNat = v.toNat % 2 ^ amount.toNat := by
      have hmask : ~~~(BitVec.allOnes 80 <<< amount) = BitVec.ofNat 80 (2 ^ amount.toNat - 1) :=
        not_shifted_ones 80 amount.toNat
      rw [hmask]
      exact toNat_and_low v amount.toNat hlt.le
    have hrest : v &&& ~~~(BitVec.allOnes 80 <<< amount) = 0 ↔ v.toNat % 2 ^ amount.toNat = 0 := by
      rw [← hlow]
      exact BitVec.toNat_inj.symm
    have hshift : (v >>> amount).toNat = v.toNat / 2 ^ amount.toNat := by
      change (v >>> amount.toNat).toNat = _
      rw [BitVec.toNat_ushiftRight, Nat.shiftRight_eq_div_pow]
    unfold jam
    rw [if_neg hlong, BitVec.toNat_or, toNat_ofBool_setWidth _ (by omega), hshift]
    by_cases hr : v.toNat % 2 ^ amount.toNat = 0
    · rw [if_pos hr, decide_eq_false (not_not.mpr (hrest.mpr hr))]
      rfl
    · rw [if_neg hr, decide_eq_true (mt hrest.mp hr)]
      rfl

theorem clampShift_toNat {distance : BitVec 13} (h : Reg distance n k) :
    (clampShift distance).toNat = min n.toNat 80 := by
  have hzero : Reg (0 : BitVec 13) 0 0 := ⟨rfl, le_refl _⟩
  have htop : Reg (80 : BitVec 13) 80 80 := ⟨rfl, le_refl _⟩
  unfold clampShift
  rw [h.slt hzero, htop.slt h]
  by_cases hneg : n < 0
  · rw [if_pos (decide_eq_true hneg)]
    change 0 = _
    omega
  · rw [if_neg (by rwa [decide_eq_true_eq])]
    by_cases hbig : 80 < n
    · rw [if_pos (decide_eq_true hbig)]
      change 80 = _
      omega
    · have hval := h.value
      rw [BitVec.toInt_eq_toNat_cond] at hval
      rw [if_neg (by rwa [decide_eq_true_eq]), extractLsb'_toNat_div]
      have := distance.isLt
      split at hval <;> omega

theorem jam_clamped (v : BitVec 80) {distance : BitVec 13} (h : Reg distance n k) :
    (jamRight v (clampShift distance)).toNat = jam v.toNat n.toNat := by
  rw [jamRight_toNat, clampShift_toNat h]
  by_cases hle : n.toNat ≤ 80
  · rw [min_eq_left hle]
  · have hbig : v.toNat < 2 ^ n.toNat :=
      lt_of_lt_of_le v.isLt (Nat.pow_le_pow_right (by omega) (by omega))
    rw [min_eq_right (by omega), jam_of_lt v.isLt, jam_of_lt hbig]

end Shifts

section Unpack

open Binary32 (biased trailing IsFinite IsNan absValue value)

theorem significand_toNat (v : Word) : (significand v).toNat =
    (if biased v = 0 then 0 else 2 ^ 23) + (trailing v).toNat := by
  change (BitVec.ofBool (biased v ≠ 0) ++ trailing v).toNat = _
  rw [append_toNat, BitVec.toNat_ofBool]
  by_cases he : biased v = 0
  · rw [if_pos he, decide_eq_false (not_not.mpr he)]
    rfl
  · rw [if_neg he, decide_eq_true he]
    rfl

theorem effectiveExp_toNat (v : Word) : (effectiveExp v).toNat =
    if biased v = 0 then 1 else (biased v).toNat := by
  unfold effectiveExp
  have hlt := (biased v).isLt
  by_cases he : biased v = 0
  · rw [if_pos he]
    exact congrArg BitVec.toNat (if_pos he)
  · rw [if_neg he]
    refine (congrArg BitVec.toNat (if_neg he)).trans ?_
    rw [BitVec.toNat_setWidth]
    exact Nat.mod_eq_of_lt (by omega)

theorem absValue_eq (v : Word) :
    absValue v = (significand v).toNat * 2 ^ ((effectiveExp v).toNat - 150 : ℤ) := by
  rw [significand_toNat, effectiveExp_toNat]
  unfold absValue
  by_cases he : biased v = 0
  · rw [if_pos he, if_pos he, if_pos he, Nat.zero_add]
    norm_num
  · rw [if_neg he, if_neg he, if_neg he, Nat.cast_add, Nat.cast_pow, Nat.cast_ofNat]

theorem shiftUp_loop {u : BitVec 12 × BitVec 24} (hu : Reg u.1 e 127) (n : Nat) (hn : n ≤ 23) :
    ∃ j : ℕ, j ≤ n ∧ Reg (shiftUp^[n] u).1 (e - j) (127 + j) ∧
      (shiftUp^[n] u).2.toNat = u.2.toNat * 2 ^ j ∧
      ((shiftUp^[n] u).2.toNat < 2 ^ 23 → (shiftUp^[n] u).2.toNat ≠ 0 → j = n) := by
  induction n with
  | zero => exact ⟨0, le_refl _, by simpa using hu, by simp, fun _ _ => rfl⟩
  | succ n ih =>
    obtain ⟨j, hj, hexp, hsig, hstop⟩ := ih (by omega)
    rw [Function.iterate_succ_apply']
    generalize shiftUp^[n] u = t at *
    have hlt := t.2.isLt
    have htop : t.2.getLsbD 23 = true ↔ 2 ^ 23 ≤ t.2.toNat := by
      rw [getLsbD_eq_decide, decide_eq_true_eq]
      omega
    have hzero : t.2 = 0 ↔ t.2.toNat = 0 := BitVec.toNat_inj.symm
    unfold shiftUp
    by_cases hgo : 2 ^ 23 ≤ t.2.toNat ∨ t.2.toNat = 0
    · rw [if_neg (by
        rw [Bool.and_eq_true, Bool.not_eq_true', ← Bool.not_eq_true, htop, decide_eq_true_eq,
          ne_eq, hzero]
        tauto)]
      exact ⟨j, by omega, hexp, hsig, fun h1 h2 => absurd hgo (by omega)⟩
    · have hone : Reg (1 : BitVec 12) 1 1 := ⟨rfl, le_refl _⟩
      have hstep := hstop (by omega) (by omega)
      rw [if_pos (by
        rw [Bool.and_eq_true, Bool.not_eq_true', ← Bool.not_eq_true, htop, decide_eq_true_eq,
          ne_eq, hzero]
        tauto)]
      refine ⟨j + 1, by omega, ?_, ?_, fun _ _ => by omega⟩
      · have hsub := hexp.sub hone (by norm_num; omega)
        push_cast
        rw [← sub_sub, ← add_assoc]
        exact hsub
      · have hshift : (t.2 <<< 1).toNat = t.2.toNat * 2 := by
          rw [BitVec.toNat_shiftLeft, Nat.shiftLeft_eq, Nat.mod_eq_of_lt (by omega)]
        rw [hshift, hsig, pow_succ, mul_assoc]

theorem unpack_spec (v : Word) (hv : IsFinite v) : ∃ e : ℤ, Reg (unpack v).1 e 150 ∧
    absValue v = (unpack v).2.toNat * 2 ^ (e - 23) ∧
    ((unpack v).2.toNat = 0 ∧ e ≤ -126 ∨ 2 ^ 23 ≤ (unpack v).2.toNat) := by
  have heff := effectiveExp_toNat v
  have hlt := (biased v).isLt
  have hrange : 1 ≤ (effectiveExp v).toNat ∧ (effectiveExp v).toNat ≤ 254 := by
    have hne : (biased v).toNat ≠ 255 := fun h => hv (BitVec.eq_of_toNat_eq h)
    have hzero : biased v = 0 ↔ (biased v).toNat = 0 := BitVec.toNat_inj.symm
    rw [heff]
    split_ifs with he
    · omega
    · rw [hzero] at he
      omega
  have hwide : Reg ((effectiveExp v).setWidth 12) (effectiveExp v).toNat 254 :=
    .of_toNat (by
      rw [BitVec.toNat_setWidth]
      exact Nat.mod_eq_of_lt (by omega)) (by omega) (by norm_num)
  have hstart : Reg ((effectiveExp v).setWidth 12 - 127) ((effectiveExp v).toNat - 127) 127 :=
    ⟨(hwide.sub (b := 127) (n := 127) (k := 127) ⟨rfl, le_refl _⟩ (by norm_num)).value, by
      rw [abs_le]
      omega⟩
  obtain ⟨j, hj, hexp, hsig, hstop⟩ :=
    shiftUp_loop (u := ((effectiveExp v).setWidth 12 - 127, significand v)) hstart 23 (le_refl _)
  refine ⟨(effectiveExp v).toNat - 127 - j, hexp.mono (by omega), ?_, ?_⟩
  · rw [absValue_eq]
    unfold unpack
    rw [hsig]
    push_cast
    rw [mul_assoc, ← zpow_natCast, ← zpow_add₀ two_ne_zero]
    congr 2
    ring
  · change ((shiftUp^[23] _).2.toNat = 0 ∧ _) ∨ 2 ^ 23 ≤ (shiftUp^[23] _).2.toNat
    by_cases hz : (significand v).toNat = 0
    · refine .inl ⟨by rw [hsig, hz, Nat.zero_mul], ?_⟩
      have hsub : biased v = 0 := by
        by_contra he
        rw [significand_toNat, if_neg he] at hz
        omega
      rw [heff, if_pos hsub]
      omega
    · by_contra hno
      rw [not_or, not_le] at hno
      have hpos :
          (shiftUp^[23] ((effectiveExp v).setWidth 12 - 127, significand v)).2.toNat ≠ 0 := by
        rw [hsig]
        exact Nat.mul_ne_zero hz (Nat.two_pow_pos j).ne'
      have hlow := hno.2
      rw [hsig, hstop hno.2 hpos] at hlow
      change (significand v).toNat * 2 ^ 23 < 2 ^ 23 at hlow
      omega

theorem isNan_iff (v : Word) : isNan v = true ↔ IsNan v := by
  unfold isNan
  rw [Bool.and_eq_true, decide_eq_true_eq, decide_eq_true_eq]
  rfl

theorem split_word (v : Word) :
    (v.extractLsb' 0 31).toNat = (biased v).toNat * 2 ^ 23 + (trailing v).toNat := by
  unfold biased trailing
  rw [extractLsb'_toNat_div, extractLsb'_toNat_div, extractLsb'_toNat_div]
  omega

theorem isInf_iff (v : Word) : isInf v = true ↔ ¬IsFinite v ∧ ¬IsNan v := by
  have hsplit := split_word v
  have hlt := (trailing v).isLt
  have hall : biased v = 0xff ↔ (biased v).toNat = 255 := BitVec.toNat_inj.symm
  have hzero : trailing v = 0 ↔ (trailing v).toNat = 0 := BitVec.toNat_inj.symm
  have hinf : v.extractLsb' 0 31 = 0x7f800000 ↔ (v.extractLsb' 0 31).toNat = 0x7f800000 :=
    BitVec.toNat_inj.symm
  have hexp := (biased v).isLt
  unfold isInf IsFinite IsNan
  rw [decide_eq_true_eq, ne_eq, ne_eq, hinf, hall, hzero, hsplit]
  omega

theorem isZero_iff (v : Word) : isZero v = true ↔ absValue v = 0 := by
  have hsplit := split_word v
  have hzero : v.extractLsb' 0 31 = 0 ↔ (v.extractLsb' 0 31).toNat = 0 := BitVec.toNat_inj.symm
  have hsig := significand_toNat v
  have hexp : biased v = 0 ↔ (biased v).toNat = 0 := BitVec.toNat_inj.symm
  have hpow : (2 : ℝ) ^ ((effectiveExp v).toNat - 150 : ℤ) ≠ 0 := by positivity
  unfold isZero
  rw [absValue_eq, decide_eq_true_eq, hzero, hsplit, mul_eq_zero, or_iff_left hpow,
    Nat.cast_eq_zero, hsig]
  split_ifs with he
  · rw [hexp] at he
    omega
  · rw [hexp] at he
    omega

end Unpack

end Fp32

end TinyProcessors
