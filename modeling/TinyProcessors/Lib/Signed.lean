import Mathlib

namespace TinyProcessors

/-- A register has the value of an integer whose magnitude is known. -/
structure Reg (r : BitVec w) (n k : Int) : Prop where
  value : r.toInt = n
  bound : |n| ≤ k

section Reg

variable {w : Nat} {a b : BitVec w} {m n j k : Int}

theorem bmod_of_abs (h : |n| ≤ k) (hk : k < 2 ^ (w - 1)) : n.bmod (2 ^ w) = n := by
  rw [abs_le] at h
  cases w with
  | zero =>
    rw [pow_zero] at hk
    exact Int.bmod_eq_of_le (by rw [pow_zero]; omega) (by rw [pow_zero]; omega)
  | succ w =>
    rw [Nat.add_sub_cancel] at hk
    have hpow : ((2 ^ (w + 1) : Nat) : Int) = 2 * 2 ^ w := by
      push_cast
      ring
    exact Int.bmod_eq_of_le (by rw [hpow]; omega) (by rw [hpow]; omega)

theorem Reg.of_toNat {n : Nat} (h : a.toNat = n) (hn : n ≤ k) (hk : k < 2 ^ (w - 1)) :
    Reg a n k := by
  have habs : |(n : Int)| ≤ k := by
    rw [abs_of_nonneg (Int.natCast_nonneg n)]
    exact hn
  refine ⟨?_, habs⟩
  rw [BitVec.toInt_eq_toNat_bmod, h, bmod_of_abs habs hk]

theorem Reg.signExtend {v : Nat} (h : Reg a n k) (hv : w ≤ v) : Reg (a.signExtend v) n k :=
  ⟨(BitVec.toInt_signExtend_of_le hv).trans h.value, h.bound⟩

theorem Reg.mono (h : Reg a n j) (hk : j ≤ k) : Reg a n k := ⟨h.value, h.bound.trans hk⟩

theorem Reg.add (ha : Reg a m j) (hb : Reg b n k) (hk : j + k < 2 ^ (w - 1)) :
    Reg (a + b) (m + n) (j + k) := by
  have hsum : |m + n| ≤ j + k := (abs_add_le m n).trans (add_le_add ha.bound hb.bound)
  refine ⟨?_, hsum⟩
  rw [BitVec.toInt_add, ha.value, hb.value, bmod_of_abs hsum hk]

theorem Reg.sub (ha : Reg a m j) (hb : Reg b n k) (hk : j + k < 2 ^ (w - 1)) :
    Reg (a - b) (m - n) (j + k) := by
  have hsub : |m - n| ≤ j + k := (abs_sub m n).trans (add_le_add ha.bound hb.bound)
  refine ⟨?_, hsub⟩
  rw [BitVec.toInt_sub, ha.value, hb.value, bmod_of_abs hsub hk]

theorem Reg.mul (ha : Reg a m j) (hb : Reg b n k) (hk : j * k < 2 ^ (w - 1)) :
    Reg (a * b) (m * n) (j * k) := by
  have hmul : |m * n| ≤ j * k := by
    rw [abs_mul]
    exact mul_le_mul ha.bound hb.bound (abs_nonneg n) ((abs_nonneg m).trans ha.bound)
  refine ⟨?_, hmul⟩
  rw [BitVec.toInt_mul, ha.value, hb.value, bmod_of_abs hmul hk]

theorem Reg.neg (ha : Reg a m k) (hk : k < 2 ^ (w - 1)) : Reg (-a) (-m) k := by
  have hneg : |-m| ≤ k := (abs_neg m).trans_le ha.bound
  refine ⟨?_, hneg⟩
  rw [BitVec.toInt_neg, ha.value, bmod_of_abs hneg hk]

theorem Reg.slt (ha : Reg a m j) (hb : Reg b n k) : a.slt b = decide (m < n) := by
  rw [BitVec.slt_eq_decide, ha.value, hb.value]

theorem Reg.sle (ha : Reg a m j) (hb : Reg b n k) : a.sle b = decide (m ≤ n) := by
  rw [BitVec.sle_eq_decide, ha.value, hb.value]

theorem Reg.eq_iff (ha : Reg a m j) (hb : Reg b n k) : a = b ↔ m = n := by
  rw [← BitVec.toInt_inj, ha.value, hb.value]

theorem Reg.ite {p q : Prop} [Decidable p] [Decidable q] (hpq : p ↔ q) (ha : Reg a m k)
    (hb : Reg b n k) : Reg (if p then a else b) (if q then m else n) k := by
  by_cases h : p
  · rw [if_pos h, if_pos (hpq.mp h)]
    exact ha
  · rw [if_neg h, if_neg (fun hq => h (hpq.mpr hq))]
    exact hb

end Reg

end TinyProcessors
