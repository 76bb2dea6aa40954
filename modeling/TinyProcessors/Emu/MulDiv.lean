import TinyProcessors.Lib.Bytes

namespace TinyProcessors

def muldiv (funct3 : BitVec 3) (a b : Word) : Word :=
  let sa : BitVec 64 := a.signExtend 64
  let sb : BitVec 64 := b.signExtend 64
  let overflow := a = 0x80000000 && b = 0xffffffff
  match funct3.toNat with
  | 0 => a * b
  | 1 => ((sa * sb) >>> 32).setWidth 32
  | 2 => ((sa * b.setWidth 64) >>> 32).setWidth 32
  | 3 => ((a.setWidth 64 * b.setWidth 64) >>> 32).setWidth 32
  | 4 =>
    if b = 0 then 0xffffffff
    else if overflow then a
    else BitVec.ofInt 32 (a.toInt.tdiv b.toInt)
  | 5 => if b = 0 then 0xffffffff else a / b
  | 6 =>
    if b = 0 then a
    else if overflow then 0
    else BitVec.ofInt 32 (a.toInt.tmod b.toInt)
  | _ => if b = 0 then a else a % b

/-- The M extension as the instruction set defines it. -/
def riscvMulDiv (funct3 : BitVec 3) (a b : Word) : Word :=
  match funct3.toNat with
  | 0 => BitVec.ofInt 32 (a.toInt * b.toInt)
  | 1 => BitVec.ofInt 32 (a.toInt * b.toInt / 2 ^ 32)
  | 2 => BitVec.ofInt 32 (a.toInt * b.toNat / 2 ^ 32)
  | 3 => BitVec.ofNat 32 (a.toNat * b.toNat / 2 ^ 32)
  | 4 =>
    if b.toInt = 0 then BitVec.ofInt 32 (-1)
    else if a.toInt = -2 ^ 31 ∧ b.toInt = -1 then BitVec.ofInt 32 (-2 ^ 31)
    else BitVec.ofInt 32 (a.toInt.tdiv b.toInt)
  | 5 => if b.toNat = 0 then BitVec.ofNat 32 (2 ^ 32 - 1) else BitVec.ofNat 32 (a.toNat / b.toNat)
  | 6 =>
    if b.toInt = 0 then a
    else if a.toInt = -2 ^ 31 ∧ b.toInt = -1 then 0
    else BitVec.ofInt 32 (a.toInt.tmod b.toInt)
  | _ => if b.toNat = 0 then a else BitVec.ofNat 32 (a.toNat % b.toNat)

theorem high_ofInt (v : Int) :
    ((BitVec.ofInt 64 v) >>> 32).setWidth 32 = BitVec.ofInt 32 (v / 2 ^ 32) := by
  apply BitVec.eq_of_toNat_eq
  rw [BitVec.toNat_setWidth, BitVec.toNat_ushiftRight, BitVec.toNat_ofInt, BitVec.toNat_ofInt,
    Nat.shiftRight_eq_div_pow]
  omega

theorem signExtend_ofInt (a : Word) : a.signExtend 64 = BitVec.ofInt 64 a.toInt := rfl

theorem setWidth_ofInt (a : Word) : a.setWidth 64 = BitVec.ofInt 64 a.toNat := by
  apply BitVec.eq_of_toNat_eq
  rw [BitVec.ofInt_natCast, BitVec.toNat_setWidth, BitVec.toNat_ofNat]

theorem toInt_eq_iff (a b : Word) : a.toInt = b.toInt ↔ a = b := BitVec.toInt_inj

theorem muldiv_eq_riscvMulDiv (funct3 : BitVec 3) (a b : Word) :
    muldiv funct3 a b = riscvMulDiv funct3 a b := by
  have hzero : b.toInt = 0 ↔ b = 0 := toInt_eq_iff b 0
  have hzero' : b.toNat = 0 ↔ b = 0 := by
    rw [← BitVec.toNat_inj]
    rfl
  have hover : a.toInt = -2 ^ 31 ∧ b.toInt = -1 ↔ (a = 0x80000000 ∧ b = 0xffffffff) :=
    and_congr (toInt_eq_iff a 0x80000000) (toInt_eq_iff b 0xffffffff)
  unfold muldiv riscvMulDiv
  dsimp only
  split
  · rw [BitVec.ofInt_mul, BitVec.ofInt_toInt, BitVec.ofInt_toInt]
  · rw [signExtend_ofInt, signExtend_ofInt, ← BitVec.ofInt_mul, high_ofInt]
  · rw [signExtend_ofInt, setWidth_ofInt, ← BitVec.ofInt_mul, high_ofInt]
  · rw [setWidth_ofInt, setWidth_ofInt, ← BitVec.ofInt_mul, high_ofInt]
    exact BitVec.ofInt_natCast 32 (a.toNat * b.toNat / 2 ^ 32)
  · simp only [hzero, hover, Bool.and_eq_true, decide_eq_true_eq]
    split_ifs with hb ho
    · rfl
    · exact ho.1
    · rfl
  · simp only [hzero']
    split_ifs
    · rfl
    · exact BitVec.udiv_def
  · simp only [hzero, hover, Bool.and_eq_true, decide_eq_true_eq]
  · simp only [hzero']
    split_ifs
    · rfl
    · exact BitVec.umod_def

theorem muldiv_div (a b : Word) (hb : b ≠ 0) :
    muldiv 4 a b = BitVec.ofInt 32 (a.toInt.tdiv b.toInt) := by
  change (if b = 0 then _ else if (a = 0x80000000 && b = 0xffffffff) = true then a else _) = _
  rw [if_neg hb]
  split_ifs with ho
  · simp only [Bool.and_eq_true, decide_eq_true_eq] at ho
    rw [ho.1, ho.2]
    rfl
  · rfl

theorem muldiv_rem (a b : Word) (hb : b ≠ 0) :
    muldiv 6 a b = BitVec.ofInt 32 (a.toInt.tmod b.toInt) := by
  change (if b = 0 then _ else if (a = 0x80000000 && b = 0xffffffff) = true then 0 else _) = _
  rw [if_neg hb]
  split_ifs with ho
  · simp only [Bool.and_eq_true, decide_eq_true_eq] at ho
    rw [ho.1, ho.2]
    rfl
  · rfl

end TinyProcessors
