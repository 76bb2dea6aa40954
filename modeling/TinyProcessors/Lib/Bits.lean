import TinyProcessors.Lib.Bytes

namespace TinyProcessors

theorem toNat_and_add_and_not (x m : BitVec w) :
    (x &&& m).toNat + (x &&& ~~~m).toNat = x.toNat := by
  have hz : (x &&& m) &&& (x &&& ~~~m) = 0#w := by
    ext k hk
    simp
    intro h₁ h₂ h₃
    exact h₂
  have ho : (x &&& m) ||| (x &&& ~~~m) = x := by
    ext k hk
    simp only [BitVec.getElem_or, BitVec.getElem_and, BitVec.getElem_not]
    cases x[k] <;> cases m[k] <;> rfl
  rw [← BitVec.toNat_add_of_and_eq_zero hz, BitVec.add_eq_or_of_and_eq_zero _ _ hz, ho]

theorem toNat_and_low (x : BitVec w) (k : Nat) (hk : k ≤ w) :
    (x &&& BitVec.ofNat w (2 ^ k - 1)).toNat = x.toNat % 2 ^ k := by
  have hle : 2 ^ k ≤ 2 ^ w := Nat.pow_le_pow_right (by omega) hk
  have hpos : 0 < 2 ^ k := Nat.two_pow_pos k
  rw [BitVec.toNat_and, BitVec.toNat_ofNat, Nat.mod_eq_of_lt (by omega),
    Nat.and_two_pow_sub_one_eq_mod]

theorem toNat_and_not_low (x : BitVec w) (k : Nat) (hk : k ≤ w) :
    (x &&& ~~~BitVec.ofNat w (2 ^ k - 1)).toNat = x.toNat / 2 ^ k * 2 ^ k := by
  have hsum := toNat_and_add_and_not x (BitVec.ofNat w (2 ^ k - 1))
  rw [toNat_and_low x k hk] at hsum
  have hdiv := Nat.div_add_mod x.toNat (2 ^ k)
  rw [Nat.mul_comm] at hdiv
  omega

theorem or_and_distrib (x c m : BitVec w) : (x ||| c) &&& m = (x &&& m) ||| (c &&& m) := by
  ext k hk
  simp only [BitVec.getElem_and, BitVec.getElem_or, Bool.and_or_distrib_right]

theorem or_and_of_disjoint {c m : BitVec w} (h : c &&& m = 0#w) (x : BitVec w) :
    (x ||| c) &&& m = x &&& m := by
  rw [or_and_distrib, h, BitVec.or_zero]

theorem and_and_of_covers {c m : BitVec w} (h : c &&& m = m) (x : BitVec w) :
    (x &&& c) &&& m = x &&& m := by
  rw [BitVec.and_assoc, h]

theorem and_two_pow_eq_zero (x : BitVec w) (k : Nat) (hk : k < w) :
    x &&& BitVec.ofNat w (2 ^ k) = 0#w ↔ x.toNat / 2 ^ k % 2 = 0 := by
  have hlt : 2 ^ k < 2 ^ w := Nat.pow_lt_pow_right (by omega) hk
  rw [← BitVec.toNat_inj, BitVec.toNat_and, BitVec.toNat_ofNat, Nat.mod_eq_of_lt hlt,
    Nat.and_two_pow, BitVec.toNat_ofNat, Nat.zero_mod, Nat.testBit_eq_decide_div_mod_eq]
  have hpos : 0 < 2 ^ k := Nat.two_pow_pos k
  by_cases h : x.toNat / 2 ^ k % 2 = 1
  · simp only [h, decide_true, Bool.toNat_true]
    omega
  · simp only [h, decide_false, Bool.toNat_false]
    omega

/-- The length of the run of ones at the low end of a number of `w` bits. -/
def trailingOnes : (w n : Nat) → Nat
  | 0, _ => 0
  | w + 1, n => if n % 2 = 1 then trailingOnes w (n / 2) + 1 else 0

theorem trailingOnes_le (w n : Nat) : trailingOnes w n ≤ w := by
  induction w generalizing n with
  | zero => exact Nat.le_refl _
  | succ w ih =>
    unfold trailingOnes
    have := ih (n / 2)
    split
    · omega
    · omega

theorem xor_halves (a b : Nat) : a ^^^ b = 2 * (a / 2 ^^^ b / 2) + (a + b) % 2 := by
  rw [← Nat.xor_div_two, ← Nat.xor_mod_two_eq]
  exact (Nat.div_add_mod _ _).symm

theorem xor_succ (w n : Nat) (h : n < 2 ^ w) :
    n ^^^ ((n + 1) % 2 ^ w) = 2 ^ min (trailingOnes w n + 1) w - 1 := by
  induction w generalizing n with
  | zero =>
    obtain rfl : n = 0 := by omega
    rfl
  | succ w ih =>
    have hpos : 0 < 2 ^ w := Nat.two_pow_pos w
    rw [pow_succ] at h ⊢
    unfold trailingOnes
    by_cases hodd : n % 2 = 1
    · obtain ⟨m, rfl⟩ : ∃ m, n = 2 * m + 1 := ⟨n / 2, by omega⟩
      have hm := ih m (by omega)
      have hdiv : (2 * m + 1) / 2 = m := by omega
      have hcarry : (2 * m + 1 + 1) % (2 ^ w * 2) = 2 * ((m + 1) % 2 ^ w) := by
        rw [show 2 * m + 1 + 1 = 2 * (m + 1) by ring, Nat.mul_comm (2 ^ w) 2, Nat.mul_mod_mul_left]
      have hxor : (2 * m + 1) ^^^ (2 * ((m + 1) % 2 ^ w)) = 2 * (m ^^^ (m + 1) % 2 ^ w) + 1 := by
        rw [xor_halves, hdiv, show 2 * ((m + 1) % 2 ^ w) / 2 = (m + 1) % 2 ^ w by omega]
        omega
      rw [if_pos hodd, hcarry, hxor, hdiv, hm,
        show min (trailingOnes w m + 1 + 1) (w + 1) = min (trailingOnes w m + 1) w + 1 by omega, pow_succ]
      have := Nat.two_pow_pos (min (trailingOnes w m + 1) w)
      omega
    · obtain ⟨m, rfl⟩ : ∃ m, n = 2 * m := ⟨n / 2, by omega⟩
      rw [if_neg hodd, Nat.mod_eq_of_lt (by omega), show min (0 + 1) (w + 1) = 1 by omega]
      rw [xor_halves, show 2 * m / 2 = m by omega, show (2 * m + 1) / 2 = m by omega, Nat.xor_self]
      omega

theorem xor_and_not_low (x y : BitVec w) (j : Nat) :
    (x ^^^ y) &&& ~~~BitVec.ofNat w (2 ^ j - 1) = 0#w ↔ x.toNat / 2 ^ j = y.toNat / 2 ^ j := by
  constructor
  · intro h
    apply Nat.eq_of_testBit_eq
    intro i
    rw [Nat.testBit_div_two_pow, Nat.testBit_div_two_pow]
    by_cases hi : j + i < w
    · have hbit := congrArg (BitVec.getLsbD · (j + i)) h
      simp only [BitVec.getLsbD_and, BitVec.getLsbD_xor, BitVec.getLsbD_not, BitVec.getLsbD_ofNat,
        Nat.testBit_two_pow_sub_one] at hbit
      simp only [BitVec.getLsbD] at hbit
      simpa [hi, Nat.add_comm] using hbit
    · rw [Nat.testBit_lt_two_pow (lt_of_lt_of_le x.isLt (Nat.pow_le_pow_right (by omega) (by omega))),
        Nat.testBit_lt_two_pow (lt_of_lt_of_le y.isLt (Nat.pow_le_pow_right (by omega) (by omega)))]
  · intro h
    apply BitVec.eq_of_getLsbD_eq
    intro i hi
    simp only [BitVec.getLsbD_and, BitVec.getLsbD_xor, BitVec.getLsbD_not, BitVec.getLsbD_ofNat,
      Nat.testBit_two_pow_sub_one]
    by_cases hij : i < j
    · simp [hi, hij]
    · have hbit := congrArg (Nat.testBit · (i - j)) h
      simp only [Nat.testBit_div_two_pow] at hbit
      rw [show i - j + j = i by omega] at hbit
      simp only [BitVec.getLsbD, hbit, Bool.xor_self, Bool.false_and, Nat.zero_testBit, Bool.and_false]

theorem append_toNat (x : BitVec w) (y : BitVec v) :
    (x ++ y).toNat = x.toNat * 2 ^ v + y.toNat := by
  rw [BitVec.toNat_append, Nat.shiftLeft_eq, Nat.mul_comm, ← Nat.two_pow_add_eq_or_of_lt y.isLt]

theorem extractLsb'_toNat_div (x : BitVec w) (start len : Nat) :
    (x.extractLsb' start len).toNat = x.toNat / 2 ^ start % 2 ^ len := by
  rw [BitVec.extractLsb'_toNat, Nat.shiftRight_eq_div_pow]

theorem getLsbD_and_not (x y : BitVec w) (i : Nat) :
    (x &&& ~~~y).getLsbD i = (x.getLsbD i && !y.getLsbD i) := by
  rw [BitVec.getLsbD_and, BitVec.getLsbD_not]
  by_cases hi : i < w
  · rw [decide_eq_true hi, Bool.true_and]
  · rw [BitVec.getLsbD_of_ge x i (Nat.le_of_not_lt hi), Bool.false_and, Bool.false_and]

def Masked (x mask : BitVec w) : Prop := x &&& ~~~mask = 0

instance (x mask : BitVec w) : Decidable (Masked x mask) :=
  inferInstanceAs (Decidable (x &&& ~~~mask = 0))

section Masked

variable {x y mask mask' : BitVec w}

theorem masked_iff : Masked x mask ↔ ∀ i, x.getLsbD i = true → mask.getLsbD i = true := by
  unfold Masked
  constructor
  · intro h i hi
    have hbit := congrArg (BitVec.getLsbD · i) h
    simp only [getLsbD_and_not, hi, Bool.true_and] at hbit
    simpa using hbit
  · intro h
    apply BitVec.eq_of_getLsbD_eq
    intro i _
    rw [getLsbD_and_not]
    cases hi : x.getLsbD i with
    | false => simp
    | true => simp [h i hi]

theorem Masked.or (hx : Masked x mask) (hy : Masked y mask) : Masked (x ||| y) mask := by
  rw [masked_iff] at *
  intro i hi
  rw [BitVec.getLsbD_or, Bool.or_eq_true] at hi
  exact hi.elim (hx i) (hy i)

theorem Masked.and (hx : Masked x mask) (y : BitVec w) : Masked (x &&& y) mask := by
  rw [masked_iff] at *
  intro i hi
  rw [BitVec.getLsbD_and, Bool.and_eq_true] at hi
  exact hx i hi.1

theorem masked_and (x mask : BitVec w) : Masked (x &&& mask) mask := by
  rw [masked_iff]
  intro i hi
  rw [BitVec.getLsbD_and, Bool.and_eq_true] at hi
  exact hi.2

theorem masked_zero (mask : BitVec w) : Masked 0 mask := BitVec.zero_and

theorem Masked.ite [Decidable p] (hx : Masked x mask) (hy : Masked y mask) :
    Masked (if p then x else y) mask := by
  split
  · exact hx
  · exact hy

theorem Masked.trans (hx : Masked x mask) (h : Masked mask mask') : Masked x mask' := by
  rw [masked_iff] at *
  exact fun i hi => h i (hx i hi)

end Masked

end TinyProcessors
