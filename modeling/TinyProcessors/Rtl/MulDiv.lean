import TinyProcessors.Lib.Bits
import TinyProcessors.Rt.MulDiv

namespace TinyProcessors

structure MulDiv where
  op : BitVec 3
  count : BitVec 6
  hi : Word
  lo : Word
  operand : Word
  negate : Bool
  negateRemainder : Bool
  valid : Bool

structure MulDivIn where
  reset : Bool
  start : Bool
  funct3 : BitVec 3
  a : Word
  b : Word

def MulDivIn.isDiv (i : MulDivIn) : Bool := i.funct3.getLsbD 2

def MulDivIn.aSigned (i : MulDivIn) : Bool :=
  if i.isDiv then !i.funct3.getLsbD 0 else i.funct3.extractLsb' 0 2 != 3

def MulDivIn.bSigned (i : MulDivIn) : Bool :=
  if i.isDiv then !i.funct3.getLsbD 0 else !i.funct3.getLsbD 1

def MulDivIn.aNegative (i : MulDivIn) : Bool := i.aSigned && i.a.getLsbD 31

def MulDivIn.bNegative (i : MulDivIn) : Bool := i.bSigned && i.b.getLsbD 31

def MulDivIn.aMagnitude (i : MulDivIn) : Word := if i.aNegative then -i.a else i.a

def MulDivIn.bMagnitude (i : MulDivIn) : Word := if i.bNegative then -i.b else i.b

def MulDiv.sum (m : MulDiv) : BitVec 33 :=
  m.hi.setWidth 33 + if m.lo.getLsbD 0 then m.operand.setWidth 33 else 0

def MulDiv.shifted (m : MulDiv) : BitVec 33 := m.hi ++ m.lo.extractLsb' 31 1

def MulDiv.trial (m : MulDiv) : BitVec 33 := m.shifted - m.operand.setWidth 33

def MulDiv.fits (m : MulDiv) : Bool := !m.trial.getLsbD 32

def MulDiv.clock (m : MulDiv) (i : MulDivIn) : MulDiv :=
  if i.reset then ⟨0, 0, 0, 0, 0, false, false, false⟩
  else if i.start then
    { op := i.funct3
      count := 32
      valid := false
      hi := 0
      lo := if i.isDiv then i.aMagnitude else i.bMagnitude
      operand := if i.isDiv then i.bMagnitude else i.aMagnitude
      negate := (i.aNegative ^^ i.bNegative) && !(i.isDiv && i.b = 0)
      negateRemainder := i.aNegative }
  else if m.count ≠ 0 then
    let m' := { m with count := m.count - 1, valid := m.count = 1 }
    if m.op.getLsbD 2 then
      { m' with
        hi := if m.fits then m.trial.extractLsb' 0 32 else m.shifted.extractLsb' 0 32
        lo := m.lo.extractLsb' 0 31 ++ BitVec.ofBool m.fits }
    else
      { m' with
        hi := m.sum.extractLsb' 1 32
        lo := m.sum.extractLsb' 0 1 ++ m.lo.extractLsb' 1 31 }
  else m

def MulDiv.result (m : MulDiv) : Word :=
  let product : BitVec 64 := m.hi ++ m.lo
  let signedProduct := if m.negate then -product else product
  match m.op.toNat with
  | 0 => signedProduct.extractLsb' 0 32
  | 1 | 2 | 3 => signedProduct.extractLsb' 32 32
  | 4 | 5 => if m.negate then -m.lo else m.lo
  | _ => if m.negateRemainder then -m.hi else m.hi

def MulDiv.run (m : MulDiv) (inputs : List MulDivIn) : MulDiv := inputs.foldl MulDiv.clock m

section Multiply

theorem MulDiv.sum_toNat (m : MulDiv) :
    m.sum.toNat = m.hi.toNat + m.lo.toNat % 2 * m.operand.toNat := by
  have hhi := m.hi.isLt
  have hop := m.operand.isLt
  have hbit : m.lo.getLsbD 0 = decide (m.lo.toNat % 2 = 1) := by
    rw [BitVec.getLsbD, Nat.testBit_zero]
  unfold MulDiv.sum
  rw [BitVec.toNat_add, BitVec.toNat_setWidth, hbit]
  rcases Nat.mod_two_eq_zero_or_one m.lo.toNat with h | h
  · simp [h]
    omega
  · simp [h]
    omega

def MulDiv.product (m : MulDiv) : Nat := m.hi.toNat * 2 ^ 32 + m.lo.toNat

theorem MulDiv.multiply_round (m : MulDiv) :
    (m.sum.extractLsb' 1 32).toNat * 2 ^ 32 +
      (m.sum.extractLsb' 0 1 ++ m.lo.extractLsb' 1 31 : BitVec 32).toNat =
      (m.product + m.product % 2 * m.operand.toNat * 2 ^ 32) / 2 := by
  have hsum := m.sum_toNat
  have hs := m.sum.isLt
  have hlo := m.lo.isLt
  have hlow : m.product % 2 = m.lo.toNat % 2 := by
    unfold MulDiv.product
    omega
  rw [append_toNat, extractLsb'_toNat_div, extractLsb'_toNat_div, extractLsb'_toNat_div, hlow]
  unfold MulDiv.product
  generalize m.lo.toNat % 2 * m.operand.toNat = t at hsum ⊢
  omega

end Multiply

section Divide

theorem MulDiv.shifted_toNat (m : MulDiv) :
    m.shifted.toNat = 2 * m.hi.toNat + m.lo.toNat / 2 ^ 31 := by
  have hlo := m.lo.isLt
  unfold MulDiv.shifted
  rw [append_toNat, extractLsb'_toNat_div]
  omega

theorem MulDiv.divide_round (m : MulDiv)
    (h : 2 * m.hi.toNat + m.lo.toNat / 2 ^ 31 < m.operand.toNat + 2 ^ 32) :
    m.fits = decide (m.operand.toNat ≤ 2 * m.hi.toNat + m.lo.toNat / 2 ^ 31) ∧
    (if m.fits then m.trial.extractLsb' 0 32 else m.shifted.extractLsb' 0 32).toNat =
      (if m.fits then 2 * m.hi.toNat + m.lo.toNat / 2 ^ 31 - m.operand.toNat
        else 2 * m.hi.toNat + m.lo.toNat / 2 ^ 31) ∧
    (m.lo.extractLsb' 0 31 ++ BitVec.ofBool m.fits : BitVec 32).toNat =
      2 * m.lo.toNat % 2 ^ 32 + m.fits.toNat := by
  have hshifted := m.shifted_toNat
  have hop := m.operand.isLt
  have hlo := m.lo.isLt
  have htrial : m.trial.toNat =
      (2 ^ 33 - m.operand.toNat + (2 * m.hi.toNat + m.lo.toNat / 2 ^ 31)) % 2 ^ 33 := by
    unfold MulDiv.trial
    rw [BitVec.toNat_sub, BitVec.toNat_setWidth, hshifted,
      Nat.mod_eq_of_lt (show m.operand.toNat < 2 ^ 33 by omega)]
  have hfits : m.fits = decide (m.operand.toNat ≤ 2 * m.hi.toNat + m.lo.toNat / 2 ^ 31) := by
    have hbit : m.trial.getLsbD 32 = decide (m.trial.toNat / 2 ^ 32 % 2 = 1) := by
      rw [BitVec.getLsbD, Nat.testBit_eq_decide_div_mod_eq]
    unfold MulDiv.fits
    rw [hbit, htrial, ← decide_not, decide_eq_decide]
    omega
  refine ⟨hfits, ?_, ?_⟩
  · cases hf : m.fits with
    | true =>
      rw [hfits, decide_eq_true_eq] at hf
      rw [if_pos rfl, if_pos rfl, extractLsb'_toNat_div, htrial]
      omega
    | false =>
      rw [hfits, decide_eq_false_iff_not] at hf
      rw [if_neg Bool.false_ne_true, if_neg Bool.false_ne_true, extractLsb'_toNat_div, hshifted]
      omega
  · rw [append_toNat, extractLsb'_toNat_div, BitVec.toNat_ofBool]
    omega

end Divide

/-- The unit with `bits` steps left of the operation that `m₀` starts. -/
structure MulDiv.Left (m₀ : MulDiv) (bits : Nat) (m : MulDiv) : Prop where
  le : bits ≤ 32
  op : m.op = m₀.op
  operand : m.operand = m₀.operand
  negate : m.negate = m₀.negate
  negateRemainder : m.negateRemainder = m₀.negateRemainder
  count : m.count.toNat = bits
  valid : m.valid = decide (bits = 0)
  multiplied : m₀.op.getLsbD 2 = false →
    Multiplied 32 m₀.operand.toNat m₀.lo.toNat (32 - bits) m.product
  divided : m₀.op.getLsbD 2 = true → m₀.operand.toNat ≠ 0 →
    ∃ q, Divided m₀.lo.toNat m₀.operand.toNat bits m.hi.toNat q ∧
      Shifting 32 m₀.lo.toNat bits q m.lo.toNat
  dividedByZero : m₀.op.getLsbD 2 = true → m₀.operand.toNat = 0 →
    m.hi.toNat = m₀.lo.toNat / 2 ^ bits ∧
      Shifting 32 m₀.lo.toNat bits (2 ^ (32 - bits) - 1) m.lo.toNat

structure MulDiv.Started (m : MulDiv) : Prop where
  hi : m.hi = 0
  count : m.count = 32
  valid : m.valid = false

theorem MulDiv.Started.left {m : MulDiv} (h : m.Started) : Left m 32 m where
  le := Nat.le_refl _
  op := rfl
  operand := rfl
  negate := rfl
  negateRemainder := rfl
  count := by rw [h.count]; rfl
  valid := h.valid
  multiplied := by
    intro _
    have hproduct : m.product = m.lo.toNat := by
      unfold MulDiv.product
      rw [h.hi]
      exact (congrArg (· + m.lo.toNat) (Nat.zero_mul _)).trans (Nat.zero_add _)
    rw [hproduct]
    exact .start 32 _ _
  divided := by
    intro _ hd
    have hdiv : m.lo.toNat / 2 ^ 32 = 0 := Nat.div_eq_of_lt m.lo.isLt
    have hstart : Divided m.lo.toNat m.operand.toNat 32 (m.lo.toNat / 2 ^ 32) 0 :=
      .of_high (by omega)
    rw [hdiv] at hstart
    refine ⟨0, ?_, .start m.lo.isLt⟩
    rw [h.hi]
    exact hstart
  dividedByZero := by
    intro _ _
    refine ⟨?_, .start m.lo.isLt⟩
    rw [h.hi, Nat.div_eq_of_lt m.lo.isLt]
    rfl

def MulDivIn.Quiet (i : MulDivIn) : Prop := i.reset = false ∧ i.start = false

theorem MulDiv.clock_divide (m : MulDiv) (hi : i.Quiet) (hc : m.count ≠ 0)
    (hop : m.op.getLsbD 2 = true) :
    m.clock i = { m with
      count := m.count - 1
      valid := m.count = 1
      hi := if m.fits then m.trial.extractLsb' 0 32 else m.shifted.extractLsb' 0 32
      lo := m.lo.extractLsb' 0 31 ++ BitVec.ofBool m.fits } := by
  unfold MulDiv.clock
  rw [hi.1, hi.2, if_neg Bool.false_ne_true, if_neg Bool.false_ne_true, if_pos hc, if_pos hop]

theorem MulDiv.clock_multiply (m : MulDiv) (hi : i.Quiet) (hc : m.count ≠ 0)
    (hop : m.op.getLsbD 2 = false) :
    m.clock i = { m with
      count := m.count - 1
      valid := m.count = 1
      hi := m.sum.extractLsb' 1 32
      lo := m.sum.extractLsb' 0 1 ++ m.lo.extractLsb' 1 31 } := by
  unfold MulDiv.clock
  rw [hi.1, hi.2, if_neg Bool.false_ne_true, if_neg Bool.false_ne_true, if_pos hc,
    if_neg (ne_true_of_eq_false hop)]

theorem MulDiv.clock_idle (m : MulDiv) (hi : i.Quiet) (hc : m.count = 0) : m.clock i = m := by
  unfold MulDiv.clock
  rw [hi.1, hi.2, if_neg Bool.false_ne_true, if_neg Bool.false_ne_true, if_neg (not_not.mpr hc)]

theorem MulDiv.Left.count_ne_zero {m : MulDiv} (h : Left m₀ (bits + 1) m) : m.count ≠ 0 := by
  intro hc
  have := h.count
  rw [hc] at this
  cases this

theorem MulDiv.Left.count_sub {m : MulDiv} (h : Left m₀ (bits + 1) m) :
    (m.count - 1).toNat = bits := by
  have hle := h.le
  rw [BitVec.toNat_sub, h.count]
  change (2 ^ 6 - 1 + (bits + 1)) % 2 ^ 6 = bits
  omega

theorem MulDiv.Left.last {m : MulDiv} (h : Left m₀ (bits + 1) m) :
    decide (m.count = 1) = decide (bits = 0) := by
  rw [decide_eq_decide, ← BitVec.toNat_inj, h.count]
  change bits + 1 = 1 ↔ _
  omega

theorem MulDiv.Left.multiply {m : MulDiv} (h : Left m₀ (bits + 1) m) (hi : i.Quiet)
    (hop : m₀.op.getLsbD 2 = false) : Left m₀ bits (m.clock i) := by
  have hle := h.le
  rw [m.clock_multiply hi h.count_ne_zero (by rw [h.op]; exact hop)]
  refine ⟨by omega, h.op, h.operand, h.negate, h.negateRemainder, h.count_sub, h.last, ?_, ?_, ?_⟩
  · intro _
    have hround := (h.multiplied hop).round (by omega)
    rw [← h.operand, show 32 - (bits + 1) + 1 = 32 - bits by omega, ← m.multiply_round] at hround
    rw [← h.operand]
    exact hround
  · intro hd
    rw [hop] at hd
    cases hd
  · intro hd
    rw [hop] at hd
    cases hd

theorem MulDiv.Left.divide {m : MulDiv} (h : Left m₀ (bits + 1) m) (hi : i.Quiet)
    (hop : m₀.op.getLsbD 2 = true) : Left m₀ bits (m.clock i) := by
  have hle := h.le
  rw [m.clock_divide hi h.count_ne_zero (by rw [h.op]; exact hop)]
  refine ⟨by omega, h.op, h.operand, h.negate, h.negateRemainder, h.count_sub, h.last, ?_, ?_, ?_⟩
  · intro hm
    rw [hop] at hm
    cases hm
  · intro _ hd
    obtain ⟨q, hdiv, hshift⟩ := h.divided hop hd
    have htop := hshift.top
    have hsmall := hdiv.small
    rw [← h.operand] at *
    have hlt := m.operand.isLt
    have hb := Nat.mod_lt (m₀.lo.toNat / 2 ^ bits) (show 0 < 2 by omega)
    obtain ⟨hfits, hrem, hquot⟩ := m.divide_round (by omega)
    rw [htop] at hfits hrem
    refine ⟨2 * q + m.fits.toNat, ?_, ?_⟩
    · rw [hrem]
      cases hf : m.fits with
      | true =>
        rw [hf, eq_comm, decide_eq_true_eq] at hfits
        exact hdiv.take hfits
      | false =>
        rw [hf, eq_comm, decide_eq_false_iff_not] at hfits
        exact hdiv.keep (by omega)
    · rw [hquot]
      exact hshift.round _ m.fits.toNat_lt
  · -- nothing is subtracted, so that every trial fits and every quotient bit is one
    intro _ hd
    obtain ⟨hhi, hshift⟩ := h.dividedByZero hop hd
    have htop := hshift.top
    have hbits := div_two_pow_succ m₀.lo.toNat bits
    have hn : m₀.lo.toNat / 2 ^ bits < 2 ^ 32 := (Nat.div_le_self _ _).trans_lt m₀.lo.isLt
    obtain ⟨hfits, hrem, hquot⟩ := m.divide_round (by omega)
    rw [htop, h.operand, hd] at hfits hrem
    have hf : m.fits = true := hfits.trans (decide_eq_true (Nat.zero_le _))
    rw [hf, if_pos rfl, if_pos rfl] at hrem
    refine ⟨?_, ?_⟩
    · rw [hf, if_pos rfl, hrem]
      omega
    · rw [hquot, hf]
      have hround := hshift.round 1 (by omega)
      have hpow : 2 ^ (32 - bits) = 2 * 2 ^ (32 - (bits + 1)) := by
        rw [show 32 - bits = 32 - (bits + 1) + 1 by omega, pow_succ, Nat.mul_comm]
      have hpos := Nat.two_pow_pos (32 - (bits + 1))
      rwa [show 2 * (2 ^ (32 - (bits + 1)) - 1) + 1 = 2 ^ (32 - bits) - 1 by omega] at hround

theorem MulDiv.Left.clock {m : MulDiv} (h : Left m₀ bits m) (hi : i.Quiet) :
    Left m₀ (bits - 1) (m.clock i) := by
  cases bits with
  | zero =>
    rw [m.clock_idle hi (BitVec.eq_of_toNat_eq h.count)]
    exact h
  | succ bits =>
    cases hop : m₀.op.getLsbD 2 with
    | true => exact h.divide hi hop
    | false => exact h.multiply hi hop

theorem MulDiv.Left.run {m : MulDiv} (h : Left m₀ bits m) (hq : ∀ i ∈ inputs, i.Quiet) :
    Left m₀ (bits - inputs.length) (m.run inputs) := by
  induction inputs generalizing m bits with
  | nil => exact h
  | cons i inputs ih =>
    have hstep := h.clock (hq i List.mem_cons_self)
    have hrest := ih hstep fun j hj => hq j (List.mem_cons_of_mem _ hj)
    rwa [Nat.sub_sub, Nat.add_comm 1] at hrest

section Results

def MulDiv.begin (m : MulDiv) (funct3 : BitVec 3) (a b : Word) : MulDiv :=
  m.clock ⟨false, true, funct3, a, b⟩

theorem MulDiv.begin_started (m : MulDiv) (funct3 : BitVec 3) (a b : Word) :
    (m.begin funct3 a b).Started := ⟨rfl, rfl, rfl⟩

theorem MulDiv.Left.signedProduct {m : MulDiv} (h : Left m₀ 0 m) (hop : m₀.op.getLsbD 2 = false) :
    (if m.negate then -(m.hi ++ m.lo : BitVec 64) else m.hi ++ m.lo) =
      BitVec.ofInt 64 (signed m₀.negate (m₀.operand.toNat * m₀.lo.toNat)) := by
  have hproduct : (m.hi ++ m.lo : BitVec 64) =
      BitVec.ofNat 64 (m₀.operand.toNat * m₀.lo.toNat) := by
    apply BitVec.eq_of_toNat_eq
    have hdone := (h.multiplied hop).done m₀.lo.isLt
    have hlt := (m.hi ++ m.lo : BitVec 64).isLt
    rw [append_toNat] at hlt
    rw [append_toNat, BitVec.toNat_ofNat, ← hdone]
    exact (Nat.mod_eq_of_lt hlt).symm
  rw [ofInt_signed, hproduct, h.negate]

theorem MulDiv.Left.quotient {m : MulDiv} (h : Left m₀ 0 m) (hop : m₀.op.getLsbD 2 = true)
    (hd : m₀.operand.toNat ≠ 0) :
    m.lo = m₀.lo / m₀.operand ∧ m.hi = m₀.lo % m₀.operand := by
  obtain ⟨q, hdiv, hshift⟩ := h.divided hop hd
  have hdone := hdiv.restoring_eq
  unfold restoring at hdone
  injection hdone with hrem hquot
  constructor
  · apply BitVec.eq_of_toNat_eq
    rw [hshift.done, hquot, BitVec.toNat_udiv]
  · apply BitVec.eq_of_toNat_eq
    rw [hrem, BitVec.toNat_umod]

theorem MulDiv.Left.quotientByZero {m : MulDiv} (h : Left m₀ 0 m) (hop : m₀.op.getLsbD 2 = true)
    (hd : m₀.operand.toNat = 0) : m.lo = 0xffffffff ∧ m.hi = m₀.lo := by
  obtain ⟨hhi, hshift⟩ := h.dividedByZero hop hd
  constructor
  · exact BitVec.eq_of_toNat_eq hshift.done
  · apply BitVec.eq_of_toNat_eq
    rw [hhi, pow_zero, Nat.div_one]

/-- An operand as an integer: the sign that `start` takes off, and the magnitude. -/
theorem signed_operand (isSigned : Bool) (x : Word) :
    signed (isSigned && x.getLsbD 31) (if isSigned && x.getLsbD 31 then -x else x).toNat =
      if isSigned then x.toInt else x.toNat := by
  cases isSigned with
  | false => rfl
  | true =>
    rw [if_pos rfl, toInt_signed x, BitVec.abs_eq, BitVec.msb_eq_getLsbD_last, Bool.true_and]

def MulDivIn.aValue (i : MulDivIn) : Int := if i.aSigned then i.a.toInt else i.a.toNat

def MulDivIn.bValue (i : MulDivIn) : Int := if i.bSigned then i.b.toInt else i.b.toNat

theorem MulDivIn.a_signed (i : MulDivIn) : signed i.aNegative i.aMagnitude.toNat = i.aValue :=
  signed_operand i.aSigned i.a

theorem MulDivIn.b_signed (i : MulDivIn) : signed i.bNegative i.bMagnitude.toNat = i.bValue :=
  signed_operand i.bSigned i.b

theorem MulDivIn.bMagnitude_ne_zero (i : MulDivIn) (hb : i.b ≠ 0) : i.bMagnitude.toNat ≠ 0 := by
  intro h
  have hzero : i.bMagnitude = 0 := BitVec.eq_of_toNat_eq h
  unfold MulDivIn.bMagnitude at hzero
  split_ifs at hzero
  · exact hb (BitVec.neg_eq_zero_iff.mp hzero)
  · exact hb hzero

variable {m₀ m : MulDiv} {funct3 : BitVec 3} {a b : Word}

/-- What `begin` puts on the inputs. -/
abbrev issue (funct3 : BitVec 3) (a b : Word) : MulDivIn := ⟨false, true, funct3, a, b⟩

theorem MulDivIn.aValue_toInt (h : (issue funct3 0 0).aSigned = true) :
    (issue funct3 a b).aValue = a.toInt := if_pos h

theorem MulDivIn.bValue_toInt (h : (issue funct3 0 0).bSigned = true) :
    (issue funct3 a b).bValue = b.toInt := if_pos h

theorem MulDivIn.aValue_toNat (h : (issue funct3 0 0).aSigned = false) :
    (issue funct3 a b).aValue = a.toNat := if_neg (ne_true_of_eq_false h)

theorem MulDivIn.bValue_toNat (h : (issue funct3 0 0).bSigned = false) :
    (issue funct3 a b).bValue = b.toNat := if_neg (ne_true_of_eq_false h)

theorem MulDiv.Left.product_value (h : Left (m₀.begin funct3 a b) 0 m)
    (hop : funct3.getLsbD 2 = false) :
    (if m.negate then -(m.hi ++ m.lo : BitVec 64) else m.hi ++ m.lo) = BitVec.ofInt 64
      ((issue funct3 a b).aValue * (issue funct3 a b).bValue) := by
  have hdiv : (issue funct3 a b).isDiv = false := hop
  rw [h.signedProduct hop, ← MulDivIn.a_signed, ← MulDivIn.b_signed, signed_mul]
  simp [MulDiv.begin, MulDiv.clock, hdiv]

theorem MulDiv.begin_divide (m₀ : MulDiv) (a b : Word) (hop : funct3.getLsbD 2 = true) :
    (m₀.begin funct3 a b).lo = (issue funct3 a b).aMagnitude ∧
    (m₀.begin funct3 a b).operand = (issue funct3 a b).bMagnitude ∧
    (m₀.begin funct3 a b).negate =
      (((issue funct3 a b).aNegative ^^ (issue funct3 a b).bNegative) && !decide (b = 0)) := by
  have hdiv : (issue funct3 a b).isDiv = true := hop
  simp [MulDiv.begin, MulDiv.clock, hdiv]

theorem MulDiv.Left.quotient_value (h : Left (m₀.begin funct3 a b) 0 m)
    (hop : funct3.getLsbD 2 = true) (hb : b ≠ 0) :
    (if m.negate then -m.lo else m.lo) =
        BitVec.ofInt 32 ((issue funct3 a b).aValue.tdiv (issue funct3 a b).bValue) ∧
      (if m.negateRemainder then -m.hi else m.hi) =
        BitVec.ofInt 32 ((issue funct3 a b).aValue.tmod (issue funct3 a b).bValue) := by
  obtain ⟨hlo, hoperand, hnegate⟩ := m₀.begin_divide a b hop
  have hmag := MulDivIn.bMagnitude_ne_zero (issue funct3 a b) hb
  obtain ⟨hquot, hrem⟩ := h.quotient hop (by rw [hoperand]; exact hmag)
  rw [hlo, hoperand] at hquot hrem
  rw [decide_eq_false hb, Bool.not_false, Bool.and_true] at hnegate
  rw [← MulDivIn.a_signed, ← MulDivIn.b_signed]
  constructor
  · rw [signed_tdiv, ofInt_signed, ← BitVec.udiv_def, h.negate, hnegate, hquot]
  · rw [signed_tmod, ofInt_signed, ← BitVec.umod_def, h.negateRemainder, hrem]
    rfl

theorem MulDiv.Left.byZero_value (h : Left (m₀.begin funct3 a 0) 0 m)
    (hop : funct3.getLsbD 2 = true) :
    (if m.negate then -m.lo else m.lo) = 0xffffffff ∧
      (if m.negateRemainder then -m.hi else m.hi) = a := by
  obtain ⟨hlo, hoperand, hnegate⟩ := m₀.begin_divide a 0 hop
  have hmag : (issue funct3 a 0).bMagnitude = 0 := by
    unfold MulDivIn.bMagnitude
    split_ifs
    · exact BitVec.neg_zero 32
    · rfl
  obtain ⟨hones, hrem⟩ := h.quotientByZero hop (by rw [hoperand, hmag]; rfl)
  rw [decide_eq_true rfl, Bool.not_true, Bool.and_false] at hnegate
  constructor
  · rw [h.negate, hnegate, hones]
    rfl
  · rw [h.negateRemainder, hrem, hlo]
    change (if (issue funct3 a 0).aNegative then _ else _) = a
    unfold MulDivIn.aMagnitude
    split_ifs
    · exact BitVec.neg_neg
    · rfl

theorem low_ofInt (v : Int) : (BitVec.ofInt 64 v).extractLsb' 0 32 = BitVec.ofInt 32 v := by
  apply BitVec.eq_of_toNat_eq
  rw [extractLsb'_toNat_div, BitVec.toNat_ofInt, BitVec.toNat_ofInt]
  omega

theorem top_ofInt (v : Int) :
    (BitVec.ofInt 64 v).extractLsb' 32 32 = BitVec.ofInt 32 (v / 2 ^ 32) := by
  apply BitVec.eq_of_toNat_eq
  rw [extractLsb'_toNat_div, BitVec.toNat_ofInt, BitVec.toNat_ofInt]
  omega

theorem udiv_ofInt (a b : Word) : a / b = BitVec.ofInt 32 ((a.toNat : Int).tdiv b.toNat) := by
  rw [BitVec.udiv_def, ← Int.ofNat_tdiv, BitVec.ofInt_natCast]

theorem umod_ofInt (a b : Word) : a % b = BitVec.ofInt 32 ((a.toNat : Int).tmod b.toNat) := by
  rw [BitVec.umod_def, ← Int.ofNat_tmod, BitVec.ofInt_natCast]

theorem MulDiv.Left.low_eq (h : Left (m₀.begin 0 a b) 0 m) :
    m.result = BitVec.ofInt 32 (a.toInt * b.toInt) := by
  have hop : m.op = 0 := h.op
  have hproduct := h.product_value rfl
  rw [MulDivIn.aValue_toInt rfl, MulDivIn.bValue_toInt rfl] at hproduct
  unfold MulDiv.result
  rw [hop]
  exact (congrArg (BitVec.extractLsb' 0 32) hproduct).trans (low_ofInt _)

theorem MulDiv.Left.high_eq (h : Left (m₀.begin funct3 a b) 0 m)
    (hf : funct3 = 1 ∨ funct3 = 2 ∨ funct3 = 3) :
    m.result = BitVec.ofInt 32 ((issue funct3 a b).aValue * (issue funct3 a b).bValue / 2 ^ 32) := by
  have hop : m.op = funct3 := h.op
  unfold MulDiv.result
  rw [hop]
  rcases hf with rfl | rfl | rfl
  all_goals exact (congrArg (BitVec.extractLsb' 32 32) (h.product_value rfl)).trans (top_ofInt _)

theorem MulDiv.Left.quotient_eq (h : Left (m₀.begin funct3 a b) 0 m)
    (hf : funct3 = 4 ∨ funct3 = 5) :
    m.result = if b = 0 then 0xffffffff else
      BitVec.ofInt 32 ((issue funct3 a b).aValue.tdiv (issue funct3 a b).bValue) := by
  have hop : m.op = funct3 := h.op
  have hresult : m.result = if m.negate then -m.lo else m.lo := by
    unfold MulDiv.result
    rw [hop]
    rcases hf with rfl | rfl <;> rfl
  have hdiv : funct3.getLsbD 2 = true := by rcases hf with rfl | rfl <;> rfl
  split_ifs with hb
  · subst hb
    exact hresult.trans (h.byZero_value hdiv).1
  · exact hresult.trans (h.quotient_value hdiv hb).1

theorem MulDiv.Left.remainder_eq (h : Left (m₀.begin funct3 a b) 0 m)
    (hf : funct3 = 6 ∨ funct3 = 7) :
    m.result = if b = 0 then a else
      BitVec.ofInt 32 ((issue funct3 a b).aValue.tmod (issue funct3 a b).bValue) := by
  have hop : m.op = funct3 := h.op
  have hresult : m.result = if m.negateRemainder then -m.hi else m.hi := by
    unfold MulDiv.result
    rw [hop]
    rcases hf with rfl | rfl <;> rfl
  have hdiv : funct3.getLsbD 2 = true := by rcases hf with rfl | rfl <;> rfl
  split_ifs with hb
  · subst hb
    exact hresult.trans (h.byZero_value hdiv).2
  · exact hresult.trans (h.quotient_value hdiv hb).2

theorem funct3_cases (funct3 : BitVec 3) : funct3 = 0 ∨ funct3 = 1 ∨ funct3 = 2 ∨ funct3 = 3 ∨
    funct3 = 4 ∨ funct3 = 5 ∨ funct3 = 6 ∨ funct3 = 7 := by
  revert funct3
  decide

theorem MulDiv.Left.result_eq (h : Left (m₀.begin funct3 a b) 0 m) :
    m.result = muldiv funct3 a b := by
  rcases funct3_cases funct3 with rfl | rfl | rfl | rfl | rfl | rfl | rfl | rfl
  · rw [muldiv_eq_riscvMulDiv]
    exact h.low_eq
  · rw [muldiv_eq_riscvMulDiv, h.high_eq (by decide), MulDivIn.aValue_toInt rfl,
      MulDivIn.bValue_toInt rfl]
    rfl
  · rw [muldiv_eq_riscvMulDiv, h.high_eq (by decide), MulDivIn.aValue_toInt rfl,
      MulDivIn.bValue_toNat rfl]
    rfl
  · rw [muldiv_eq_riscvMulDiv, h.high_eq (by decide), MulDivIn.aValue_toNat rfl,
      MulDivIn.bValue_toNat rfl]
    exact BitVec.ofInt_natCast 32 (a.toNat * b.toNat / 2 ^ 32)
  · rw [h.quotient_eq (by decide), MulDivIn.aValue_toInt rfl, MulDivIn.bValue_toInt rfl]
    split_ifs with hb
    · rw [hb]
      rfl
    · exact (muldiv_div a b hb).symm
  · rw [h.quotient_eq (by decide), MulDivIn.aValue_toNat rfl, MulDivIn.bValue_toNat rfl]
    change _ = if b = 0 then 0xffffffff else a / b
    rw [udiv_ofInt]
  · rw [h.remainder_eq (by decide), MulDivIn.aValue_toInt rfl, MulDivIn.bValue_toInt rfl]
    split_ifs with hb
    · rw [hb]
      rfl
    · exact (muldiv_rem a b hb).symm
  · rw [h.remainder_eq (by decide), MulDivIn.aValue_toNat rfl, MulDivIn.bValue_toNat rfl]
    change _ = if b = 0 then a else a % b
    rw [umod_ofInt]

end Results

/-- One result of the unit, the emulator, the instruction set and the runtime. -/
theorem muldiv_agree (funct3 : BitVec 3) (a b : Word) :
    muldiv funct3 a b = riscvMulDiv funct3 a b ∧
    (∀ (m : MulDiv) (inputs : List MulDivIn), (∀ i ∈ inputs, i.Quiet) →
      ((m.begin funct3 a b).run inputs).valid = decide (32 ≤ inputs.length) ∧
      (32 ≤ inputs.length → ((m.begin funct3 a b).run inputs).result = muldiv funct3 a b)) ∧
    rv32Mul a b = muldiv 0 a b ∧ rv32Div a b = muldiv 4 a b ∧ rv32Divu a b = muldiv 5 a b ∧
    rv32Rem a b = muldiv 6 a b ∧ rv32Remu a b = muldiv 7 a b := by
  refine ⟨muldiv_eq_riscvMulDiv funct3 a b, ?_, rv32Mul_eq a b, rv32Div_eq a b, rv32Divu_eq a b,
    rv32Rem_eq a b, rv32Remu_eq a b⟩
  intro m inputs hq
  have hleft := (m.begin_started funct3 a b).left.run hq
  constructor
  · rw [hleft.valid, decide_eq_decide]
    omega
  · intro hlen
    rw [Nat.sub_eq_zero_of_le hlen] at hleft
    exact hleft.result_eq

def MulDiv.zero : MulDiv := ⟨0, 0, 0, 0, 0, false, false, false⟩

theorem muldiv_agree_overflow :
    ((MulDiv.zero.begin 4 0x80000000 0xffffffff).run
      (List.replicate 32 ⟨false, false, 0, 0, 0⟩)).result = 0x80000000 :=
  ((muldiv_agree 4 0x80000000 0xffffffff).2.1 MulDiv.zero
    (List.replicate 32 ⟨false, false, 0, 0, 0⟩) (by
      intro i hi
      rw [List.eq_of_mem_replicate hi]
      exact ⟨rfl, rfl⟩)).2 (by decide)

end TinyProcessors
