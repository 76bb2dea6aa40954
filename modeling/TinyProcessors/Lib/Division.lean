import Mathlib

namespace TinyProcessors

/-- Restoring division of the bits `bits - 1` down to 0 of `n`, one a round. -/
def restoring (n d : Nat) : (bits rem q : Nat) → Nat × Nat
  | 0, rem, q => (rem, q)
  | bits + 1, rem, q =>
    let rem := 2 * rem + n / 2 ^ bits % 2
    if d ≤ rem then restoring n d bits (rem - d) (2 * q + 1) else restoring n d bits rem (2 * q)

/-- The bits of `n` that were taken, divided. -/
structure Divided (n d bits rem q : Nat) : Prop where
  taken : n / 2 ^ bits = q * d + rem
  small : rem < d

theorem div_two_pow_succ (n bits : Nat) :
    n / 2 ^ bits = 2 * (n / 2 ^ (bits + 1)) + n / 2 ^ bits % 2 := by
  rw [pow_succ, ← Nat.div_div_eq_div_mul]
  omega

theorem Divided.keep (h : Divided n d (bits + 1) rem q) (hlt : 2 * rem + n / 2 ^ bits % 2 < d) :
    Divided n d bits (2 * rem + n / 2 ^ bits % 2) (2 * q) := by
  refine ⟨?_, hlt⟩
  rw [mul_assoc, ← add_assoc, ← Nat.mul_add, ← h.taken]
  exact div_two_pow_succ n bits

theorem Divided.take (h : Divided n d (bits + 1) rem q) (hle : d ≤ 2 * rem + n / 2 ^ bits % 2) :
    Divided n d bits (2 * rem + n / 2 ^ bits % 2 - d) (2 * q + 1) := by
  have hsmall := h.small
  refine ⟨?_, by omega⟩
  have hbits := div_two_pow_succ n bits
  rw [h.taken] at hbits
  have hmul : (2 * q + 1) * d = 2 * (q * d) + d := by ring
  omega

theorem Divided.restoring_eq (h : Divided n d bits rem q) :
    restoring n d bits rem q = (n % d, n / d) := by
  induction bits generalizing rem q with
  | zero =>
    obtain ⟨htaken, hsmall⟩ := h
    rw [pow_zero, Nat.div_one] at htaken
    have hdiv : n / d = q := by
      rw [htaken, Nat.add_comm, Nat.add_mul_div_right _ _ (by omega), Nat.div_eq_of_lt hsmall,
        Nat.zero_add]
    have hmod : n % d = rem := by
      rw [htaken, Nat.add_comm, Nat.add_mul_mod_self_right, Nat.mod_eq_of_lt hsmall]
    rw [hdiv, hmod]
    rfl
  | succ bits ih =>
    unfold restoring
    dsimp only
    split_ifs with hle
    · exact ih (h.take hle)
    · exact ih (h.keep (by omega))

theorem Divided.of_high (h : n / 2 ^ bits < d) : Divided n d bits (n / 2 ^ bits) 0 :=
  ⟨by rw [Nat.zero_mul, Nat.zero_add], h⟩

/-- A register that a dividend leaves at the top while its quotient comes in. -/
structure Shifting (w n bits q reg : Nat) : Prop where
  le : bits ≤ w
  value : reg = n % 2 ^ bits * 2 ^ (w - bits) + q
  small : q < 2 ^ (w - bits)

theorem Shifting.start (hn : n < 2 ^ w) : Shifting w n w 0 n := by
  refine ⟨Nat.le_refl _, ?_, ?_⟩
  · rw [Nat.mod_eq_of_lt hn, Nat.sub_self, pow_zero, Nat.mul_one, Nat.add_zero]
  · exact Nat.two_pow_pos _

theorem Shifting.split (h : Shifting w n (bits + 1) q reg) :
    reg = n / 2 ^ bits % 2 * 2 ^ (w - 1) + (n % 2 ^ bits * 2 ^ (w - (bits + 1)) + q) ∧
      n % 2 ^ bits * 2 ^ (w - (bits + 1)) + q < 2 ^ (w - 1) := by
  obtain ⟨hle, hreg, hsmall⟩ := h
  obtain ⟨k, rfl⟩ : ∃ k, w = k + bits + 1 := ⟨w - bits - 1, by omega⟩
  rw [show k + bits + 1 - (bits + 1) = k by omega] at *
  rw [show k + bits + 1 - 1 = k + bits by omega]
  constructor
  · rw [hreg, Nat.mod_pow_succ, pow_add]
    ring
  · calc n % 2 ^ bits * 2 ^ k + q < n % 2 ^ bits * 2 ^ k + 2 ^ k := by omega
      _ = (n % 2 ^ bits + 1) * 2 ^ k := by ring
      _ ≤ 2 ^ bits * 2 ^ k := Nat.mul_le_mul_right _ (Nat.mod_lt _ (Nat.two_pow_pos _))
      _ = 2 ^ (k + bits) := by rw [pow_add, Nat.mul_comm]

theorem Shifting.top (h : Shifting w n (bits + 1) q reg) : reg / 2 ^ (w - 1) = n / 2 ^ bits % 2 := by
  obtain ⟨hreg, hlow⟩ := h.split
  rw [hreg, Nat.add_comm, Nat.add_mul_div_right _ _ (Nat.two_pow_pos _), Nat.div_eq_of_lt hlow,
    Nat.zero_add]

theorem Shifting.round (h : Shifting w n (bits + 1) q reg) (f : Nat) (hf : f < 2) :
    Shifting w n bits (2 * q + f) (2 * reg % 2 ^ w + f) := by
  obtain ⟨hreg, hlow⟩ := h.split
  obtain ⟨hle, -, hsmall⟩ := h
  obtain ⟨k, rfl⟩ : ∃ k, w = k + bits + 1 := ⟨w - bits - 1, by omega⟩
  rw [show k + bits + 1 - (bits + 1) = k by omega] at *
  rw [show k + bits + 1 - 1 = k + bits by omega] at *
  refine ⟨by omega, ?_, ?_⟩
  · have hdouble : 2 * reg =
        2 * (n % 2 ^ bits * 2 ^ k + q) + n / 2 ^ bits % 2 * 2 ^ (k + bits + 1) := by
      rw [hreg, pow_succ]
      ring
    rw [hdouble, Nat.add_mul_mod_self_right, Nat.mod_eq_of_lt (by rw [pow_succ]; omega),
      show k + bits + 1 - bits = k + 1 by omega, pow_succ]
    ring
  · rw [show k + bits + 1 - bits = k + 1 by omega, pow_succ]
    omega

theorem Shifting.done (h : Shifting w n 0 q reg) : reg = q := by
  rw [h.value, pow_zero, Nat.mod_one, Nat.zero_mul, Nat.zero_add]

/-- Shift and add, `k` of `w` rounds done. -/
def Multiplied (w a b k acc : Nat) : Prop :=
  acc = a * (b % 2 ^ k) * 2 ^ (w - k) + b / 2 ^ k

theorem Multiplied.start (w a b : Nat) : Multiplied w a b 0 b := by
  unfold Multiplied
  rw [pow_zero, Nat.mod_one, Nat.mul_zero, Nat.zero_mul, Nat.div_one, Nat.zero_add]

theorem Multiplied.round (h : Multiplied w a b k acc) (hk : k < w) :
    Multiplied w a b (k + 1) ((acc + acc % 2 * a * 2 ^ w) / 2) := by
  obtain ⟨n, rfl⟩ : ∃ n, w = n + k + 1 := ⟨w - k - 1, by omega⟩
  unfold Multiplied at h ⊢
  rw [show n + k + 1 - k = n + 1 by omega] at h
  rw [show n + k + 1 - (k + 1) = n by omega]
  have hbit : acc % 2 = b / 2 ^ k % 2 := by
    rw [h, pow_succ, ← mul_assoc, Nat.add_comm, Nat.add_mul_mod_self_right]
  have hacc : acc + acc % 2 * a * 2 ^ (n + k + 1) =
      2 * (a * (b % 2 ^ (k + 1)) * 2 ^ n + b / 2 ^ (k + 1)) + b / 2 ^ k % 2 := by
    rw [hbit, Nat.mod_pow_succ, h, pow_succ, pow_add]
    have hk := div_two_pow_succ b k
    generalize b / 2 ^ k % 2 = bit at hk ⊢
    rw [hk]
    ring
  rw [hacc]
  omega

theorem Multiplied.done (h : Multiplied w a b w acc) (hb : b < 2 ^ w) : acc = a * b := by
  unfold Multiplied at h
  rwa [Nat.mod_eq_of_lt hb, Nat.sub_self, pow_zero, Nat.mul_one, Nat.div_eq_of_lt hb,
    Nat.add_zero] at h

def signed (negative : Bool) (m : Nat) : Int := if negative then -m else m

theorem signed_mul (s t : Bool) (a b : Nat) : signed s a * signed t b = signed (s ^^ t) (a * b) := by
  cases s <;> cases t <;> simp [signed]

theorem signed_tdiv (s t : Bool) (a b : Nat) :
    (signed s a).tdiv (signed t b) = signed (s ^^ t) (a / b) := by
  cases s <;> cases t <;> simp [signed, Int.neg_tdiv, Int.tdiv_neg]

theorem signed_tmod (s t : Bool) (a b : Nat) :
    (signed s a).tmod (signed t b) = signed s (a % b) := by
  have hmod : (a : Int).tmod b = a % b := Int.tmod_eq_emod_of_nonneg (Int.natCast_nonneg a)
  cases s <;> cases t <;> simp [signed, Int.neg_tmod, Int.tmod_neg, hmod]

theorem ofInt_signed (w : Nat) (s : Bool) (m : Nat) :
    BitVec.ofInt w (signed s m) = if s then -BitVec.ofNat w m else BitVec.ofNat w m := by
  cases s <;> simp [signed, BitVec.ofInt_neg]

theorem toInt_signed (a : BitVec w) : a.toInt = signed a.msb a.abs.toNat := by
  rw [BitVec.toInt_eq_msb_cond, BitVec.toNat_abs, signed]
  have := a.isLt
  split_ifs
  · push_cast [this.le]
    ring
  · rfl

/-- Quotient digits of a fraction `n / d` below 2, after `k` of them. -/
structure Digits (n d k q rem : Nat) : Prop where
  taken : n * 2 ^ k = 2 * (q * d) + rem
  small : rem < 2 * d

theorem Digits.digit (h : Digits n d k q rem) (b : Nat) (hb : b = if d ≤ rem then 1 else 0) :
    n * 2 ^ k = (2 * q + b) * d + (rem - b * d) ∧ rem - b * d < d := by
  obtain ⟨htaken, hsmall⟩ := h
  rw [htaken, Nat.add_mul, Nat.mul_assoc, hb]
  split_ifs
  · omega
  · omega

theorem Digits.round (h : Digits n d k q rem) (b : Nat) (hb : b = if d ≤ rem then 1 else 0) :
    Digits n d (k + 1) (2 * q + b) (2 * (rem - b * d)) := by
  obtain ⟨htaken, hsmall⟩ := h.digit b hb
  refine ⟨?_, by omega⟩
  rw [pow_succ, ← Nat.mul_assoc, htaken]
  omega

/-- The root of the leading digits of `n`; `pairs` of them are left. -/
structure Rooted (n pairs root rem : Nat) : Prop where
  taken : n / 4 ^ pairs = root * root + rem
  small : rem ≤ 2 * root

theorem Rooted.round (h : Rooted n (pairs + 1) root rem) (b step : Nat)
    (hstep : step = 4 * rem + n / 4 ^ pairs % 4)
    (hb : b = if 4 * root + 1 ≤ step then 1 else 0) :
    Rooted n pairs (2 * root + b) (step - b * (4 * root + 1)) := by
  obtain ⟨htaken, hsmall⟩ := h
  have hsplit : n / 4 ^ pairs = 4 * (root * root) + step := by
    rw [pow_succ, ← Nat.div_div_eq_div_mul] at htaken
    omega
  rw [hb]
  split_ifs with hle
  · refine ⟨?_, by omega⟩
    have hsquare : (2 * root + 1) * (2 * root + 1) = 4 * (root * root) + (4 * root + 1) := by ring
    rw [hsplit, hsquare]
    omega
  · refine ⟨?_, by omega⟩
    have hsquare : (2 * root + 0) * (2 * root + 0) = 4 * (root * root) := by ring
    rw [hsplit, hsquare]
    omega

/-- A register that a number to the base four leaves at the top. -/
theorem feeding_digit (hw : w = k + (pairs + 1)) (h : reg = n % 4 ^ (pairs + 1) * 4 ^ k) :
    reg / 4 ^ (w - 1) = n / 4 ^ pairs % 4 ∧ reg * 4 % 4 ^ w = n % 4 ^ pairs * 4 ^ (k + 1) := by
  have hlow : n % 4 ^ pairs * 4 ^ k < 4 ^ (k + pairs) := by
    rw [Nat.pow_add, Nat.mul_comm (4 ^ k)]
    exact Nat.mul_lt_mul_of_pos_right (Nat.mod_lt _ (by positivity)) (by positivity)
  have hsplit : reg = n % 4 ^ pairs * 4 ^ k + n / 4 ^ pairs % 4 * 4 ^ (k + pairs) := by
    rw [h, Nat.mod_pow_succ, Nat.pow_add]
    ring
  have hnext : reg * 4 = n % 4 ^ pairs * 4 ^ (k + 1) + n / 4 ^ pairs % 4 * 4 ^ w := by
    rw [hsplit, hw, ← Nat.add_assoc, Nat.pow_succ, Nat.pow_succ]
    ring
  constructor
  · rw [hw, show k + (pairs + 1) - 1 = k + pairs by omega, hsplit,
      Nat.add_mul_div_right _ _ (by positivity), Nat.div_eq_of_lt hlow, Nat.zero_add]
  · rw [hnext, Nat.add_mul_mod_self_right, Nat.mod_eq_of_lt]
    rw [hw, ← Nat.add_assoc, Nat.pow_succ, Nat.pow_succ, ← Nat.mul_assoc]
    exact Nat.mul_lt_mul_of_pos_right hlow (by decide)

end TinyProcessors
