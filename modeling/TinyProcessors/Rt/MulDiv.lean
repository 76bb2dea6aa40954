import TinyProcessors.Emu.MulDiv
import TinyProcessors.Lib.Division

namespace TinyProcessors

/-- The loop of `rv32_mul`, while a bit of the multiplier is left. -/
def rv32MulLoop (product a b : Word) : Word :=
  if b = 0 then product
  else rv32MulLoop (if b &&& 1 ≠ 0 then product + a else product) (a <<< 1) (b >>> 1)
  termination_by b.toNat
  decreasing_by
    rename_i hb
    have hpos : b.toNat ≠ 0 := fun h => hb (BitVec.eq_of_toNat_eq h)
    rw [BitVec.toNat_ushiftRight, Nat.shiftRight_eq_div_pow]
    omega

def rv32Mul (a b : Word) : Word := rv32MulLoop 0 a b

/-- The rounds `bits - 1` down to 0 of `udivmod`. -/
def udivmodLoop (n d : Word) : (bits : Nat) → (quotient rem : Word) → Word × Word
  | 0, quotient, rem => (quotient, rem)
  | bit + 1, quotient, rem =>
    let high := rem >>> 31
    let rem := rem <<< 1 ||| (n >>> bit) &&& 1
    if high ≠ 0 ∨ d ≤ rem then udivmodLoop n d bit (quotient ||| (1 : Word) <<< bit) (rem - d)
    else udivmodLoop n d bit quotient rem

/-- The quotient, and the remainder that the source returns through a pointer. -/
def udivmod (n d : Word) : Word × Word := udivmodLoop n d 32 0 0

def rv32Divu (n d : Word) : Word := if d = 0 then 0xffffffff else (udivmod n d).1

def rv32Remu (n d : Word) : Word := if d = 0 then n else (udivmod n d).2

def magnitude (value : Word) : Word := if value.toInt < 0 then 0 - value else value

def rv32Div (n d : Word) : Word :=
  if d = 0 then -1
  else
    let quotient := (udivmod (magnitude n) (magnitude d)).1
    if decide (n.toInt < 0) ≠ decide (d.toInt < 0) then 0 - quotient else quotient

def rv32Rem (n d : Word) : Word :=
  if d = 0 then n
  else
    let rem := (udivmod (magnitude n) (magnitude d)).2
    if n.toInt < 0 then 0 - rem else rem

section Loops

theorem toNat_and_one (b : Word) : (b &&& 1).toNat = b.toNat % 2 := by
  rw [BitVec.toNat_and]
  exact Nat.and_one_is_mod _

theorem halve_word (b : Word) : b = 2 * (b >>> 1) + (b &&& 1) := by
  apply BitVec.eq_of_toNat_eq
  rw [BitVec.toNat_add, BitVec.toNat_mul, BitVec.toNat_ushiftRight, toNat_and_one,
    Nat.shiftRight_eq_div_pow]
  have := b.isLt
  change b.toNat = (2 * (b.toNat / 2 ^ 1) % 2 ^ 32 + b.toNat % 2) % 2 ^ 32
  omega

theorem double_word (a : Word) : a <<< 1 = 2 * a := by
  apply BitVec.eq_of_toNat_eq
  rw [BitVec.toNat_shiftLeft, BitVec.toNat_mul, Nat.shiftLeft_eq, Nat.mul_comm]
  rfl

theorem and_one_cases (b : Word) : b &&& 1 = 0 ∨ b &&& 1 = 1 := by
  have hbit := toNat_and_one b
  rcases Nat.mod_two_eq_zero_or_one b.toNat with h | h
  · exact .inl (BitVec.eq_of_toNat_eq (hbit.trans h))
  · exact .inr (BitVec.eq_of_toNat_eq (hbit.trans h))

theorem rv32MulLoop_eq (product a b : Word) : rv32MulLoop product a b = product + a * b := by
  fun_induction rv32MulLoop product a b with
  | case1 product a => simp
  | case2 product a b hb ih =>
    rw [dite_eq_ite] at ih
    have hhalf := halve_word b
    rw [ih, double_word]
    generalize b >>> 1 = half at hhalf
    rcases and_one_cases b with h | h
    · rw [if_neg (not_not.mpr h), hhalf, h]
      ring
    · rw [if_pos (by rw [h]; decide), hhalf, h]
      ring

theorem shifted_toNat (n rem : Word) (bit : Nat) :
    (rem <<< 1 ||| (n >>> bit) &&& 1).toNat = (2 * rem.toNat + n.toNat / 2 ^ bit % 2) % 2 ^ 32 := by
  rw [BitVec.toNat_or, BitVec.toNat_shiftLeft, toNat_and_one, BitVec.toNat_ushiftRight,
    Nat.shiftLeft_eq, Nat.shiftRight_eq_div_pow]
  have hlt := Nat.mod_lt (n.toNat / 2 ^ bit) (show 0 < 2 by omega)
  generalize n.toNat / 2 ^ bit % 2 = b at hlt
  have heven : rem.toNat * 2 ^ 1 % 2 ^ 32 = 2 ^ 1 * (rem.toNat % 2 ^ 31) := by omega
  rw [heven, ← Nat.two_pow_add_eq_or_of_lt hlt]
  omega

theorem quotient_toNat (quotient : Word) (hq : quotient.toNat = q * 2 ^ (bit + 1)) (hbit : bit < 32) :
    (quotient ||| (1 : Word) <<< bit).toNat = (2 * q + 1) * 2 ^ bit := by
  have hlt : 2 ^ bit < 2 ^ (bit + 1) := Nat.pow_lt_pow_right (by omega) (by omega)
  have hone : ((1 : Word) <<< bit).toNat = 2 ^ bit := by
    rw [BitVec.toNat_shiftLeft, Nat.shiftLeft_eq]
    exact (Nat.mod_eq_of_lt (by simpa using Nat.pow_lt_pow_right (show 1 < 2 by omega) hbit)).trans
      (Nat.one_mul _)
  rw [BitVec.toNat_or, hone, hq, Nat.mul_comm, ← Nat.two_pow_add_eq_or_of_lt hlt]
  ring

theorem udivmod_fits (n d rem : Word) (bit : Nat) (hsmall : rem.toNat < d.toNat) :
    (rem >>> 31 ≠ 0 ∨ d ≤ rem <<< 1 ||| (n >>> bit) &&& 1) ↔
      d.toNat ≤ 2 * rem.toNat + n.toNat / 2 ^ bit % 2 := by
  have hhigh : rem >>> 31 ≠ 0 ↔ 2 ^ 31 ≤ rem.toNat := by
    rw [ne_eq, ← BitVec.toNat_inj, BitVec.toNat_ushiftRight, Nat.shiftRight_eq_div_pow]
    change ¬rem.toNat / 2 ^ 31 = 0 ↔ _
    omega
  have hb := Nat.mod_lt (n.toNat / 2 ^ bit) (show 0 < 2 by omega)
  have hd := d.isLt
  rw [hhigh, BitVec.le_def, shifted_toNat]
  omega

theorem udivmodLoop_eq (n d : Word) (h : Divided n.toNat d.toNat bits rem.toNat q)
    (hq : quotient.toNat = q * 2 ^ bits) (hbits : bits ≤ 32) :
    udivmodLoop n d bits quotient rem = (n / d, n % d) := by
  induction bits generalizing quotient rem q with
  | zero =>
    have hdone := h.restoring_eq
    unfold restoring at hdone
    unfold udivmodLoop
    rw [pow_zero, Nat.mul_one] at hq
    injection hdone with hr hd
    congr
    · apply BitVec.eq_of_toNat_eq
      rw [hq, hd, BitVec.toNat_udiv]
    · apply BitVec.eq_of_toNat_eq
      rw [hr, BitVec.toNat_umod]
  | succ bit ih =>
    have hsmall := h.small
    have hd := d.isLt
    have hcut := shifted_toNat n rem bit
    have hfits := udivmod_fits n d rem bit hsmall
    unfold udivmodLoop
    dsimp only
    split_ifs with hfit
    · have hle := hfits.mp hfit
      apply ih _ (quotient_toNat quotient hq (by omega)) (by omega)
      have htake := h.take hle
      convert htake using 1
      rw [BitVec.toNat_sub, hcut]
      have := htake.small
      omega
    · have hlt := Nat.lt_of_not_le (mt hfits.mpr hfit)
      have hkeep := h.keep hlt
      have hrem : (rem <<< 1 ||| (n >>> bit) &&& 1).toNat =
          2 * rem.toNat + n.toNat / 2 ^ bit % 2 := by
        rw [hcut]
        exact Nat.mod_eq_of_lt (hlt.trans hd)
      apply ih (hrem ▸ hkeep) _ (by omega)
      rw [hq, pow_succ]
      ring

theorem udivmod_eq (n d : Word) (hd : d ≠ 0) : udivmod n d = (n / d, n % d) := by
  apply udivmodLoop_eq n d (q := 0) _ _ (Nat.le_refl _)
  · have hpos : d.toNat ≠ 0 := fun h => hd (BitVec.eq_of_toNat_eq h)
    have hdiv : n.toNat / 2 ^ 32 = 0 := Nat.div_eq_of_lt n.isLt
    have hstart : Divided n.toNat d.toNat 32 (n.toNat / 2 ^ 32) 0 := .of_high (by omega)
    rwa [hdiv] at hstart
  · rfl

end Loops

theorem rv32Mul_eq (a b : Word) : rv32Mul a b = muldiv 0 a b := by
  refine (rv32MulLoop_eq 0 a b).trans ?_
  exact BitVec.zero_add _

theorem rv32Divu_eq (n d : Word) : rv32Divu n d = muldiv 5 n d := by
  unfold rv32Divu
  change _ = if d = 0 then _ else n / d
  split_ifs with hd
  · rfl
  · rw [udivmod_eq n d hd]

theorem rv32Remu_eq (n d : Word) : rv32Remu n d = muldiv 7 n d := by
  unfold rv32Remu
  change _ = if d = 0 then n else n % d
  split_ifs with hd
  · rfl
  · rw [udivmod_eq n d hd]

theorem negative_iff (a : Word) : a.toInt < 0 ↔ a.msb = true := by
  rw [BitVec.msb_eq_toInt, decide_eq_true_eq]

theorem magnitude_eq_abs (a : Word) : magnitude a = a.abs := by
  unfold magnitude
  simp only [negative_iff, BitVec.abs_eq]
  rw [zero_sub]

theorem abs_ne_zero (a : Word) (ha : a ≠ 0) : a.abs ≠ 0 := by
  intro h
  rw [BitVec.abs_eq] at h
  split_ifs at h with hneg
  · exact ha (BitVec.neg_eq_zero_iff.mp h)
  · exact ha h

theorem rv32Div_eq (n d : Word) : rv32Div n d = muldiv 4 n d := by
  unfold rv32Div
  by_cases hd : d = 0
  · rw [if_pos hd, hd]
    rfl
  · have hsign : decide (n.toInt < 0) ≠ decide (d.toInt < 0) ↔ (n.msb ^^ d.msb) = true := by
      rw [BitVec.msb_eq_toInt, BitVec.msb_eq_toInt, bne_iff_ne]
    rw [if_neg hd, muldiv_div n d hd, toInt_signed n, toInt_signed d, signed_tdiv, ofInt_signed,
      magnitude_eq_abs, magnitude_eq_abs, udivmod_eq _ _ (abs_ne_zero d hd)]
    simp only [← toInt_signed, hsign, ← BitVec.udiv_def]
    rw [zero_sub]

theorem rv32Rem_eq (n d : Word) : rv32Rem n d = muldiv 6 n d := by
  unfold rv32Rem
  by_cases hd : d = 0
  · rw [if_pos hd, hd]
    rfl
  · rw [if_neg hd, muldiv_rem n d hd, toInt_signed n, toInt_signed d, signed_tmod, ofInt_signed,
      magnitude_eq_abs, magnitude_eq_abs, udivmod_eq _ _ (abs_ne_zero d hd)]
    simp only [← toInt_signed, negative_iff, ← BitVec.umod_def]
    rw [zero_sub]

end TinyProcessors
