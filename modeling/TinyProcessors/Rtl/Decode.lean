import TinyProcessors.Emu.Run
import TinyProcessors.Rtl.Pmp

namespace TinyProcessors.Rtl

/-- The fields of `rv32_decode`. -/
def opcode (insn : Word) : BitVec 7 := insn.extractLsb' 0 7

def funct3 (insn : Word) : BitVec 3 := insn.extractLsb' 12 3

def rs1 (insn : Word) : BitVec 5 := insn.extractLsb' 15 5

def rs2 (insn : Word) : BitVec 5 := insn.extractLsb' 20 5

def funct7 (insn : Word) : BitVec 7 := insn.extractLsb' 25 7

def funct5 (insn : Word) : BitVec 5 := insn.extractLsb' 27 5

def csr (insn : Word) : BitVec 12 := insn.extractLsb' 20 12

def amoFunct5 (funct5 : BitVec 5) : Bool :=
  funct5 = 0b00000 || funct5 = 0b00001 || funct5 = 0b00100 || funct5 = 0b01100 ||
    funct5 = 0b01000 || funct5 = 0b10000 || funct5 = 0b10100 || funct5 = 0b11000 ||
    funct5 = 0b11100

def csrExists (csr : BitVec 12) : Bool :=
  csr = 0x001 || csr = 0x002 || csr = 0x003 || csr = 0x305 || csr = 0x341 || csr = 0x342 ||
    csr = 0x343 || csr = 0x300 || csr = 0x304 || csr = 0x340 || csr = 0x344 || csr = 0x306 ||
    csr = 0x3a0 || csr = 0x3a1 || csr.extractLsb' 3 9 = 0x076 || csr = 0xc00 || csr = 0xc01 ||
    csr = 0xc02 || csr = 0xc80 || csr = 0xc81 || csr = 0xc82 || csr = 0x302 || csr = 0x303 ||
    csr = 0x100 || csr = 0x180 ||
    (csr.extractLsb' 3 9 = 0x020 && csr.extractLsb' 0 3 ≥ 4 && csr.extractLsb' 0 3 ≤ 6) ||
    (csr.extractLsb' 3 9 = 0x028 && csr.extractLsb' 0 3 ≤ 4) ||
    csr = 0x301 || (csr ≥ 0xf11 && csr ≤ 0xf14)

def csrWriteToReadOnly (insn : Word) : Bool :=
  (csr insn).extractLsb' 10 2 = 0b11 && ((funct3 insn).extractLsb' 0 2 = 1 || rs1 insn ≠ 0)

def isMret (insn : Word) : Bool := insn = 0x30200073

def isEcall (insn : Word) : Bool := insn = 0x00000073

def isEbreak (insn : Word) : Bool := insn = 0x00100073

def isWfi (insn : Word) : Bool := insn = 0x10500073

def isSret (insn : Word) : Bool := insn = 0x10200073

def isSfence (insn : Word) : Bool := insn &&& 0xfe007fff = 0x12000073

/-- The wire `illegal` of `rv32_decode`: what the integer decoder rejects. -/
def illegal (insn : Word) : Bool :=
  let funct3 := funct3 insn
  let funct7 := funct7 insn
  match (opcode insn).toNat with
  | 0x37 | 0x17 | 0x6f => false
  | 0x67 => funct3 ≠ 0
  | 0x63 => funct3 = 2 || funct3 = 3
  | 0x07 | 0x27 => funct3 ≠ 2
  | 0x03 => funct3 = 3 || funct3 > 5
  | 0x23 => funct3 > 2
  | 0x13 => (funct3 = 1 && funct7 ≠ 0) || (funct3 = 5 && funct7 ≠ 0 && funct7 ≠ 0x20)
  | 0x33 => !(funct7 = 0 || funct7 = 1 || (funct7 = 0x20 && (funct3 = 0 || funct3 = 5)))
  | 0x0f => funct3 > 1
  | 0x2f => funct3 ≠ 2 ||
    !(amoFunct5 (funct5 insn) || funct5 insn = 0b00011 || (funct5 insn = 0b00010 && rs2 insn = 0))
  | 0x73 =>
    if funct3 = 0 then
      !(isEcall insn || isEbreak insn || isMret insn || isWfi insn || isSret insn || isSfence insn)
    else funct3 = 4 || !csrExists (csr insn) || csrWriteToReadOnly insn
  | _ => true

def isCsr (insn : Word) : Bool := opcode insn = 0x73 && funct3 insn ≠ 0 && !illegal insn

def fpLoad (insn : Word) : Bool := opcode insn = 0x07 && !illegal insn

def fpStore (insn : Word) : Bool := opcode insn = 0x27 && !illegal insn

/-- The wires `valid` and `rounded` before the last test. -/
def opFpCase (insn : Word) : Bool × Bool :=
  let rs2 := rs2 insn
  let funct3 := funct3 insn
  match (funct7 insn).toNat with
  | 0x00 | 0x04 | 0x08 | 0x0c => (true, true)
  | 0x2c => (rs2 = 0, true)
  | 0x60 | 0x68 => (rs2 ≤ 1, true)
  | 0x50 => (funct3 ≤ 2, false)
  | 0x14 => (funct3 ≤ 1, false)
  | 0x10 => (funct3 ≤ 2, false)
  | 0x70 => (rs2 = 0 && funct3 ≤ 1, false)
  | 0x78 => (rs2 = 0 && funct3 = 0, false)
  | _ => (false, false)

def fpCase (insn : Word) : Bool × Bool :=
  match (opcode insn).toNat with
  | 0x43 | 0x47 | 0x4b | 0x4f => (insn.extractLsb' 25 2 = 0b00, true)
  | 0x53 => opFpCase insn
  | _ => (false, false)

/-- The wire `fp_valid`. -/
def fpValid (insn : Word) (frm : BitVec 3) : Bool :=
  let resolved := if funct3 insn = 7 then frm else funct3 insn
  if (fpCase insn).2 && resolved > 4 then false else (fpCase insn).1

structure Modes where
  priv : BitVec 2
  fcsr : BitVec 8
  mstatusFs : BitVec 2
  mstatusTvm : Bool
  mstatusTw : Bool
  mstatusTsr : Bool
  mcounteren : BitVec 3
  scounteren : BitVec 3

section Modes

variable (r : Modes) (insn : Word)

def Modes.counterOk : Bool :=
  let counterEnable : BitVec 4 := 0#1 ++ r.mcounteren
  let scounterEnable : BitVec 4 := 0#1 ++ r.scounteren
  let counter := ((csr insn).extractLsb' 0 2).toNat
  (csr insn).extractLsb' 10 2 ≠ 0b11 ||
    (counterEnable.getLsbD counter && (r.priv = 1 || scounterEnable.getLsbD counter))

def Modes.csrPrivOk : Bool :=
  (csr insn).extractLsb' 8 2 ≤ r.priv && r.counterOk insn && !(csr insn = 0x180 && r.mstatusTvm)

def Modes.privIllegal : Bool :=
  r.priv ≠ 3 && ((isCsr insn && !r.csrPrivOk insn) || isMret insn ||
    (isSret insn && (r.priv = 0 || r.mstatusTsr)) || (isWfi insn && (r.priv = 0 || r.mstatusTw)) ||
    (isSfence insn && (r.priv = 0 || r.mstatusTvm)))

/-- `fp_valid` as the core wires it. -/
def Modes.fpValid : Bool := Rtl.fpValid insn (r.fcsr.extractLsb' 5 3)

def Modes.fsIllegal : Bool :=
  r.mstatusFs = 0 &&
    (r.fpValid insn || fpLoad insn || fpStore insn ||
      (isCsr insn && csr insn ≥ 0x001 && csr insn ≤ 0x003))

def Modes.raises : Bool :=
  (illegal insn && !r.fpValid insn) || r.privIllegal insn || r.fsIllegal insn

end Modes

def modes (m : Emu.Machine) : Modes where
  priv := m.hart.priv.code
  fcsr := m.hart.fp.fcsr
  mstatusFs := m.hart.mstatus.extractLsb' 13 2
  mstatusTvm := m.hart.mstatus.getLsbD 20
  mstatusTw := m.hart.mstatus.getLsbD 21
  mstatusTsr := m.hart.mstatus.getLsbD 22
  mcounteren := m.cpu.mcounteren.setWidth 3
  scounteren := m.cpu.scounteren.setWidth 3

section Fields

variable (insn : Word)

theorem opcode_toNat : field insn 0 7 = (opcode insn).toNat := (extractLsb'_toNat_div ..).symm

theorem funct3_toNat : field insn 12 3 = (funct3 insn).toNat := (extractLsb'_toNat_div ..).symm

theorem funct7_toNat : field insn 25 7 = (funct7 insn).toNat := (extractLsb'_toNat_div ..).symm

theorem rs1_toNat : field insn 15 5 = (rs1 insn).toNat := (extractLsb'_toNat_div ..).symm

theorem rs2_toNat : field insn 20 5 = (rs2 insn).toNat := (extractLsb'_toNat_div ..).symm

theorem csr_toNat : field insn 20 12 = (csr insn).toNat := (extractLsb'_toNat_div ..).symm

theorem funct5_toNat : field insn 25 7 / 4 = (funct5 insn).toNat := by
  unfold field funct5
  rw [extractLsb'_toNat_div]
  omega

end Fields

section Encodings

theorem illegal_opImm : ∀ (f3 : BitVec 3) (f7 : BitVec 7),
    ((f3 = 1 && f7 ≠ 0) || (f3 = 5 && f7 ≠ 0 && f7 ≠ 0x20) : Bool) =
      (f3.toNat = 1 && f7.toNat ≠ 0 || f3.toNat = 5 && f7.toNat ≠ 0 && f7.toNat ≠ 0x20 : Bool) := by
  decide

theorem illegal_op : ∀ (f3 : BitVec 3) (f7 : BitVec 7),
    (!(f7 = 0 || f7 = 1 || (f7 = 0x20 && (f3 = 0 || f3 = 5))) : Bool) =
      (f7.toNat ≠ 1 && f7.toNat ≠ 0 &&
        !(f7.toNat = 0x20 && (f3.toNat = 0 || f3.toNat = 5)) : Bool) := by
  decide

theorem illegal_amo : ∀ f5 rs2 : BitVec 5,
    (!(amoFunct5 f5 || f5 = 0b00011 || (f5 = 0b00010 && rs2 = 0)) : Bool) =
      (Emu.amoValid f5.toNat rs2.toNat).isNone := by
  decide

def csrNumbers : List Nat :=
  [0x001, 0x002, 0x003, 0x100, 0x104, 0x105, 0x106, 0x140, 0x141, 0x142, 0x143, 0x144, 0x180,
    0x300, 0x301, 0x302, 0x303, 0x304, 0x305, 0x306, 0x340, 0x341, 0x342, 0x343, 0x344,
    0x3a0, 0x3a1, 0x3b0, 0x3b1, 0x3b2, 0x3b3, 0x3b4, 0x3b5, 0x3b6, 0x3b7,
    0xc00, 0xc01, 0xc02, 0xc80, 0xc81, 0xc82, 0xf11, 0xf12, 0xf13, 0xf14]

theorem csrExists_of_mem : ∀ n ∈ csrNumbers, csrExists (BitVec.ofNat 12 n) = true := by
  decide

theorem mem_csrNumbers (low high : Nat) (h : low ≤ n ∧ n ≤ high)
    (hall : ∀ k : Fin (high + 1 - low), low + k.val ∈ csrNumbers) : n ∈ csrNumbers := by
  have hk := hall ⟨n - low, by omega⟩
  dsimp only at hk
  rwa [Nat.add_sub_cancel' h.1] at hk

theorem mem_of_csrExists {csr : BitVec 12} (h : csrExists csr = true) :
    csr.toNat ∈ csrNumbers := by
  simp only [csrExists, Bool.or_eq_true, Bool.and_eq_true, decide_eq_true_eq, or_assoc,
    ge_iff_le, BitVec.le_def, ← BitVec.toNat_inj, extractLsb'_toNat_div, BitVec.reduceToNat] at h
  rcases h with h | h | h | h | h | h | h | h | h | h | h | h | h | h | hpmp | h | h | h | h | h | h |
    h | h | h | h | hs | hs | h | hid
  case inr.inr.inr.inr.inr.inr.inr.inr.inr.inr.inr.inr.inr.inr.inl =>
    exact mem_csrNumbers 0x3b0 0x3b7 (by omega) (by decide)
  all_goals first
    | exact mem_csrNumbers _ _ ⟨h.ge, h.le⟩ (by decide)
    | exact mem_csrNumbers 0x104 0x106 (by omega) (by decide)
    | exact mem_csrNumbers 0x140 0x144 (by omega) (by decide)
    | exact mem_csrNumbers 0xf11 0xf14 (by omega) (by decide)

theorem csrOf_of_mem : ∀ n ∈ csrNumbers, (Emu.Csr.of n).isSome = true := by
  decide

theorem mem_of_csrOf {n : Nat} (h : (Emu.Csr.of n).isSome = true) : n ∈ csrNumbers := by
  unfold Emu.Csr.of at h
  split at h
  case h_38 =>
    split at h
    case isTrue hn =>
      exact mem_csrNumbers 0x3b0 0x3b7 hn (by decide)
    case isFalse => cases h
  all_goals decide

theorem csrExists_eq (csr : BitVec 12) : csrExists csr = (Emu.Csr.of csr.toNat).isSome := by
  apply Bool.eq_iff_iff.mpr
  constructor
  · intro h
    exact csrOf_of_mem _ (mem_of_csrExists h)
  · intro h
    have hm := csrExists_of_mem _ (mem_of_csrOf h)
    rwa [BitVec.ofNat_toNat, BitVec.setWidth_eq] at hm

theorem counter_of_mem : ∀ n ∈ csrNumbers, n / 2 ^ 8 % 4 ≤ 1 →
    (n / 2 ^ 10 % 4 = 3 ↔ 0xc00 ≤ n ∧ n ≤ 0xc82) ∧ (n / 2 ^ 10 % 4 = 3 → n % 4 < 3 ∧ n ≠ 0x180) := by
  decide

theorem csrWrites_eq (insn : Word) :
    ((funct3 insn).extractLsb' 0 2 = 1 || rs1 insn ≠ 0 : Bool) = Emu.csrWrites insn := by
  have hf : ∀ f : BitVec 3, decide (f.extractLsb' 0 2 = 1) = decide (f.toNat % 4 = 1) := by decide
  have hr : ∀ r : BitVec 5, decide (r ≠ 0) = decide (r.toNat ≠ 0) := by decide
  rw [hf, hr, ← funct3_toNat, ← rs1_toNat]
  rfl

theorem csrWriteToReadOnly_eq (insn : Word) : csrWriteToReadOnly insn =
    (Emu.csrWrites insn && Emu.csrReadOnly (csr insn).toNat) := by
  have hro : decide ((csr insn).extractLsb' 10 2 = 0b11) = Emu.csrReadOnly (csr insn).toNat := by
    have hlt := (csr insn).isLt
    apply decide_eq_decide.mpr
    rw [← BitVec.toNat_inj, extractLsb'_toNat_div]
    change _ = 3 ↔ _
    omega
  unfold csrWriteToReadOnly
  rw [csrWrites_eq, hro, Bool.and_comm]

end Encodings

section Modes

variable (m : Emu.Machine)

theorem bit_iff (k : Nat) (x : Word) : x &&& BitVec.twoPow 32 k = 0 ↔ x.getLsbD k = false := by
  rw [BitVec.and_twoPow]
  cases hb : x.getLsbD k with
  | true =>
    have hk := BitVec.lt_of_getLsbD hb
    rw [if_pos rfl]
    refine ⟨fun hz => ?_, fun h => by cases h⟩
    have hbit := congrArg (BitVec.getLsbD · k) hz
    simp [hk] at hbit
  | false => simp

theorem fsOff_eq : decide ((modes m).mstatusFs = 0) = m.fsOff := by
  apply decide_eq_decide.mpr
  change m.hart.mstatus.extractLsb' 13 2 = 0 ↔ m.hart.mstatus &&& 0x6000 = 0
  have hmask : (0x6000 : Word) = BitVec.twoPow 32 13 ||| BitVec.twoPow 32 14 := by decide
  have hsplit : m.hart.mstatus &&& 0x6000 = 0 ↔
      m.hart.mstatus.getLsbD 13 = false ∧ m.hart.mstatus.getLsbD 14 = false := by
    rw [hmask, BitVec.and_or_distrib_left, ← bit_iff, ← bit_iff]
    exact BitVec.or_eq_zero_iff
  rw [hsplit]
  constructor
  · intro h
    have h0 := congrArg (BitVec.getLsbD · 0) h
    have h1 := congrArg (BitVec.getLsbD · 1) h
    exact ⟨by simpa using h0, by simpa using h1⟩
  · rintro ⟨h0, h1⟩
    apply BitVec.eq_of_getLsbD_eq
    intro i hi
    obtain rfl | rfl : i = 0 ∨ i = 1 := by omega
    · simpa using h0
    · simpa using h1

theorem supervisor_eq (c : Emu.Cpu) (k : Nat) :
    (c.hart.priv.code ≠ 3 && (c.hart.priv.code = 0 || c.hart.mstatus.getLsbD k) : Bool) =
      !c.supervisorAllows (BitVec.twoPow 32 k) := by
  have hbit : decide (c.hart.mstatus &&& BitVec.twoPow 32 k = 0) = !c.hart.mstatus.getLsbD k := by
    rw [Bool.eq_iff_iff, decide_eq_true_iff, bit_iff, Bool.not_eq_true']
  unfold Emu.Cpu.supervisorAllows
  rw [hbit]
  cases c.hart.priv with
  | machine | supervisor | user => simp [Priv.code]

theorem enable_eq (x : Word) {k : Nat} (hk : k < 3) :
    (0#1 ++ x.setWidth 3 : BitVec 4).getLsbD k = x.getLsbD k := by
  rw [BitVec.getLsbD_append, if_pos hk, BitVec.getLsbD_setWidth, decide_eq_true hk, Bool.true_and]

theorem csrPrivOk_eq (insn : Word) (hn : (csr insn).toNat ∈ csrNumbers)
    (h : m.hart.priv ≠ .machine) :
    (modes m).csrPrivOk insn = m.cpu.csrAllowed (csr insn).toNat := by
  have hlevel : decide ((csr insn).extractLsb' 8 2 ≤ (modes m).priv) =
      !decide (m.hart.priv.bits.toNat < (csr insn).toNat / 2 ^ 8 % 4) := by
    rw [← decide_not]
    apply decide_eq_decide.mpr
    rw [BitVec.le_def, extractLsb'_toNat_div, Nat.not_lt]
    change _ ≤ m.hart.priv.code.toNat ↔ _
    cases m.hart.priv <;> rfl
  unfold Modes.csrPrivOk Emu.Cpu.csrAllowed
  rw [hlevel, if_neg h]
  by_cases hlt : m.hart.priv.bits.toNat < (csr insn).toNat / 2 ^ 8 % 4
  · rw [if_pos hlt, decide_eq_true hlt]
    rfl
  · rw [if_neg hlt, decide_eq_false hlt, Bool.not_false, Bool.true_and]
    have hle : (csr insn).toNat / 2 ^ 8 % 4 ≤ 1 := by
      revert hlt h
      cases m.hart.priv with
      | machine => exact fun h => absurd rfl h
      | supervisor => exact fun _ => Nat.not_lt.mp
      | user => exact fun _ hlt => (Nat.not_lt.mp hlt).trans (by decide)
    obtain ⟨hcounter, hsmall⟩ := counter_of_mem _ hn hle
    have hten : (csr insn).extractLsb' 10 2 = 0b11 ↔ (csr insn).toNat / 2 ^ 10 % 4 = 3 := by
      rw [← BitVec.toNat_inj, extractLsb'_toNat_div]
      rfl
    have hsatp : csr insn = 0x180 ↔ (csr insn).toNat = 0x180 := by
      rw [← BitVec.toNat_inj]
      rfl
    have htvm : m.hart.mstatus &&& Emu.mstatusTvm ≠ 0 ↔ (modes m).mstatusTvm = true := by
      rw [ne_eq, show Emu.mstatusTvm = BitVec.twoPow 32 20 by decide, bit_iff, Bool.not_eq_false]
      rfl
    have hk : ((csr insn).extractLsb' 0 2).toNat = (csr insn).toNat % 4 := by
      rw [extractLsb'_toNat_div, Nat.pow_zero, Nat.div_one]
      rfl
    unfold Modes.counterOk
    dsimp only
    rw [hk]
    by_cases hc : (csr insn).toNat / 2 ^ 10 % 4 = 3
    · obtain ⟨hthree, hne⟩ := hsmall hc
      have hsup : decide ((modes m).priv = 1) = decide (m.hart.priv = .supervisor) := by
        change decide (m.hart.priv.code = 1) = _
        cases m.hart.priv <;> rfl
      rw [if_pos (hcounter.mp hc), decide_eq_false (not_not.mpr (hten.mpr hc)),
        decide_eq_false (mt hsatp.mp hne), hsup]
      simp only [Bool.false_or, Bool.false_and, Bool.not_false, Bool.and_true]
      change ((0#1 ++ m.cpu.mcounteren.setWidth 3 : BitVec 4).getLsbD _ && (_ ||
        (0#1 ++ m.cpu.scounteren.setWidth 3 : BitVec 4).getLsbD _)) = _
      rw [enable_eq _ hthree, enable_eq _ hthree]
    · rw [if_neg (mt hcounter.mpr hc), decide_eq_true (mt hten.mp hc), Bool.true_or, Bool.true_and]
      by_cases hs : csr insn = 0x180
      · rw [decide_eq_true hs, Bool.true_and]
        by_cases ht : (modes m).mstatusTvm = true
        · rw [if_pos ⟨hsatp.mp hs, htvm.mpr ht⟩, ht]
          rfl
        · rw [if_neg (fun h => ht (htvm.mp h.2)), eq_false_of_ne_true ht]
          rfl
      · rw [decide_eq_false hs, if_neg (fun h => hs (hsatp.mpr h.1))]
        rfl

end Modes

section Raises

variable (m : Emu.Machine) (insn : Word)

/-- The words that the core tests as a whole are of opcode SYSTEM, with a zero `funct3`. -/
theorem whole_words (h : opcode insn ≠ 0x73 ∨ funct3 insn ≠ 0) :
    isMret insn = false ∧ isSret insn = false ∧ isWfi insn = false ∧ isSfence insn = false := by
  have hne : ∀ w : Word, opcode w = 0x73 → funct3 w = 0 → insn ≠ w := by
    rintro w hop hf rfl
    exact h.elim (· hop) (· hf)
  refine ⟨decide_eq_false (hne _ rfl rfl), decide_eq_false (hne _ rfl rfl),
    decide_eq_false (hne _ rfl rfl), decide_eq_false fun hs => ?_⟩
  obtain ⟨hop, hf⟩ := Emu.sfence_fields hs
  rw [opcode_toNat] at hop
  rw [funct3_toNat] at hf
  exact h.elim (· (BitVec.eq_of_toNat_eq hop)) (· (BitVec.eq_of_toNat_eq hf))

theorem privIllegal_of_ne (r : Modes) (h : opcode insn ≠ 0x73) : r.privIllegal insn = false := by
  obtain ⟨hm, hs, hw, hf⟩ := whole_words insn (.inl h)
  unfold Modes.privIllegal isCsr
  rw [hm, hs, hw, hf, decide_eq_false h]
  simp

def floatOpcodes : List Nat := [0x43, 0x47, 0x4b, 0x4f, 0x53]

theorem fpCase_of_notMem (h : (opcode insn).toNat ∉ floatOpcodes) :
    fpCase insn = (false, false) := by
  unfold fpCase
  split
  case h_6 => rfl
  all_goals
    rename_i hn
    rw [hn] at h
    exact absurd (by decide) h

theorem fpValid_of_notMem (r : Modes) (h : (opcode insn).toNat ∉ floatOpcodes) :
    r.fpValid insn = false := by
  unfold Modes.fpValid fpValid
  rw [fpCase_of_notMem insn h]
  rfl

theorem opcode_ne (h : (opcode insn).toNat = n) (k : BitVec 7) (hk : n ≠ k.toNat) :
    opcode insn ≠ k := by
  rintro rfl
  exact hk h.symm

theorem raises_integer (r : Modes) (h : (opcode insn).toNat = n)
    (hn : n ∉ 0x73 :: 0x07 :: 0x27 :: floatOpcodes) :
    r.raises insn = illegal insn ∧ floatingInstruction insn = false := by
  simp only [floatOpcodes, List.mem_cons, List.not_mem_nil, or_false, not_or] at hn
  obtain ⟨h73, h07, h27, h43, h47, h4b, h4f, h53⟩ := hn
  have hfp : (opcode insn).toNat ∉ floatOpcodes := by
    rw [h]
    simp [floatOpcodes, h43, h47, h4b, h4f, h53]
  constructor
  · unfold Modes.raises Modes.fsIllegal fpLoad fpStore isCsr
    rw [privIllegal_of_ne insn r (opcode_ne insn h _ h73), fpValid_of_notMem insn r hfp,
      decide_eq_false (opcode_ne insn h 0x07 h07), decide_eq_false (opcode_ne insn h 0x27 h27),
      decide_eq_false (opcode_ne insn h 0x73 h73)]
    simp
  · unfold floatingInstruction
    rw [opcode_toNat, h]
    simp [h73, h07, h27, h43, h47, h4b, h4f, h53]

theorem raises_memory (r : Modes) (h : opcode insn = 0x07 ∨ opcode insn = 0x27) :
    r.raises insn = (decide (r.mstatusFs = 0) || decide (funct3 insn ≠ 2)) ∧
      floatingInstruction insn = true := by
  have hne : opcode insn ≠ 0x73 := by
    rcases h with h | h <;> rw [h] <;> decide
  have hfp : (opcode insn).toNat ∉ floatOpcodes := by
    rcases h with h | h <;> rw [h] <;> decide
  have hill : illegal insn = decide (funct3 insn ≠ 2) := by
    unfold illegal
    rcases h with h | h <;> rw [h] <;> rfl
  have hmem : (fpLoad insn || fpStore insn) = !illegal insn := by
    unfold fpLoad fpStore
    rcases h with h | h <;> rw [h] <;> simp
  constructor
  · unfold Modes.raises Modes.fsIllegal
    rw [privIllegal_of_ne insn r hne, fpValid_of_notMem insn r hfp, Bool.false_or, hmem, ← hill]
    unfold isCsr
    rw [decide_eq_false hne]
    cases illegal insn <;> simp
  · unfold floatingInstruction
    rw [opcode_toNat]
    rcases h with h | h <;> rw [h] <;> rfl

theorem raises_float (r : Modes) (h : (opcode insn).toNat ∈ floatOpcodes) :
    r.raises insn = (decide (r.mstatusFs = 0) || !r.fpValid insn) ∧
      floatingInstruction insn = true := by
  have hcases : (opcode insn).toNat = 0x43 ∨ (opcode insn).toNat = 0x47 ∨
      (opcode insn).toNat = 0x4b ∨ (opcode insn).toNat = 0x4f ∨ (opcode insn).toNat = 0x53 := by
    simpa [floatOpcodes] using h
  have hne (k : BitVec 7) (hk : k.toNat ∉ floatOpcodes) : opcode insn ≠ k := by
    rintro rfl
    exact hk h
  have hill : illegal insn = true := by
    unfold illegal
    rcases hcases with h | h | h | h | h <;> rw [h] <;> rfl
  constructor
  · unfold Modes.raises Modes.fsIllegal fpLoad fpStore isCsr
    rw [privIllegal_of_ne insn r (hne _ (by decide)), hill,
      decide_eq_false (hne 0x73 (by decide)), decide_eq_false (hne 0x07 (by decide)),
      decide_eq_false (hne 0x27 (by decide))]
    cases r.fpValid insn <;> simp
  · unfold floatingInstruction
    rw [opcode_toNat]
    rcases hcases with h | h | h | h | h <;> rw [h] <;> rfl

theorem fpValid_eq (frm : BitVec 3) (h : (opcode insn).toNat ∈ floatOpcodes) :
    fpValid insn frm = Emu.floatLegal frm.toNat insn := by
  have hround : ∀ f3 frm : BitVec 3, decide ((if f3 = 7 then frm else f3) > 4) =
      !decide ((if f3.toNat = 7 then frm.toNat else f3.toNat) ≤ 4) := by decide
  have hrs2 : ∀ rs2 : BitVec 5, decide (rs2 = 0) = decide (rs2.toNat = 0) ∧
      decide (rs2 ≤ 1) = decide (rs2.toNat ≤ 1) := by decide
  have hf3 : ∀ f3 : BitVec 3, decide (f3 ≤ 2) = decide (f3.toNat ≤ 2) ∧
      decide (f3 ≤ 1) = decide (f3.toNat ≤ 1) ∧ decide (f3 = 0) = decide (f3.toNat = 0) := by decide
  have htwo : decide (insn.extractLsb' 25 2 = 0b00) = decide (field insn 25 2 = 0) := by
    apply decide_eq_decide.mpr
    rw [← BitVec.toNat_inj, extractLsb'_toNat_div]
    rfl
  unfold fpValid Emu.floatLegal
  dsimp only
  rw [hround, opcode_toNat, Emu.funct3, Emu.funct7, Emu.rs2Field, funct3_toNat, funct7_toNat,
    rs2_toNat]
  generalize decide ((if (funct3 insn).toNat = 7 then frm.toNat else (funct3 insn).toNat) ≤ 4) = b
  by_cases h53 : (opcode insn).toNat = 0x53
  · have hcase : fpCase insn = opFpCase insn := by
      unfold fpCase
      rw [h53]
      rfl
    rw [hcase, if_neg (not_not.mpr h53)]
    unfold opFpCase
    simp only [hrs2, hf3]
    generalize (funct7 insn).toNat = k
    split <;> cases b <;> simp
  · have hcases : (opcode insn).toNat = 0x43 ∨ (opcode insn).toNat = 0x47 ∨
        (opcode insn).toNat = 0x4b ∨ (opcode insn).toNat = 0x4f := by
      simpa [floatOpcodes, h53] using h
    have hcase : fpCase insn = (decide (field insn 25 2 = 0), true) := by
      unfold fpCase
      rcases hcases with h | h | h | h <;> rw [h, ← htwo] <;> rfl
    rw [if_pos h53, hcase]
    cases b <;> simp

/-- SYSTEM with a zero `funct3`. -/
theorem raises_privileged (h : opcode insn = 0x73) (hf : funct3 insn = 0) :
    (modes m).raises insn = !Emu.privilegedLegal m.cpu insn := by
  have hfp : (modes m).fpValid insn = false := fpValid_of_notMem insn _ (by rw [h]; decide)
  have hill : illegal insn = !(isEcall insn || isEbreak insn || isMret insn || isWfi insn ||
      isSret insn || isSfence insn) := by
    unfold illegal
    rw [h, hf]
    rfl
  have hcsr : isCsr insn = false := by
    unfold isCsr
    rw [hf]
    simp
  have hfs : (modes m).fsIllegal insn = false := by
    unfold Modes.fsIllegal fpLoad fpStore
    rw [hfp, hcsr, h]
    simp
  have hpriv : (modes m).privIllegal insn = ((isMret insn && decide (m.hart.priv.code ≠ 3)) ||
      (isSret insn && !m.cpu.supervisorAllows Emu.mstatusTsr) ||
      (isWfi insn && !m.cpu.supervisorAllows Emu.mstatusTw) ||
      (isSfence insn && !m.cpu.supervisorAllows Emu.mstatusTvm)) := by
    rw [show Emu.mstatusTsr = BitVec.twoPow 32 22 by decide,
      show Emu.mstatusTw = BitVec.twoPow 32 21 by decide,
      show Emu.mstatusTvm = BitVec.twoPow 32 20 by decide,
      ← supervisor_eq, ← supervisor_eq, ← supervisor_eq]
    unfold Modes.privIllegal
    rw [hcsr]
    change (decide (m.hart.priv.code ≠ 3) && _) = _
    cases decide (m.hart.priv.code ≠ 3)
    · simp
    · simp
      rfl
  have hm : decide (m.hart.priv.code ≠ 3) = !decide (m.cpu.hart.priv = .machine) := by
    change decide (m.cpu.hart.priv.code ≠ 3) = _
    cases m.cpu.hart.priv <;> rfl
  unfold Modes.raises Emu.privilegedLegal
  rw [hfp, hfs, hill, hpriv, hm]
  -- No two of the words are the same.
  by_cases h₁ : insn = 0x00000073
  · subst h₁
    rfl
  by_cases h₂ : insn = 0x00100073
  · subst h₂
    rfl
  by_cases h₃ : insn = 0x30200073
  · subst h₃
    simp [isEcall, isEbreak, isMret, isSret, isWfi, isSfence]
  by_cases h₄ : insn = 0x10200073
  · subst h₄
    simp [isEcall, isEbreak, isMret, isSret, isWfi, isSfence]
  by_cases h₅ : insn = 0x10500073
  · subst h₅
    simp [isEcall, isEbreak, isMret, isSret, isWfi, isSfence]
  unfold isEcall isEbreak isMret isSret isWfi
  rw [decide_eq_false h₁, decide_eq_false h₂, decide_eq_false h₃, decide_eq_false h₄,
    decide_eq_false h₅]
  change _ = !(_ || (isSfence insn && _))
  cases isSfence insn <;> simp

theorem isSome_filter_eq (o : Option α) (b : Bool) :
    (o.filter fun _ => b).isNone = (!o.isSome || !b) := by
  cases o <;> cases b <;> rfl

theorem raises_csr (h : opcode insn = 0x73) (hf : funct3 insn ≠ 0) :
    (modes m).raises insn = (m.fsOff && floatingInstruction insn ||
      (decide (Emu.funct3 insn = 4) || (m.csrOf insn).isNone)) := by
  have hfp : (modes m).fpValid insn = false := fpValid_of_notMem insn _ (by rw [h]; decide)
  have hill : illegal insn =
      (decide (funct3 insn = 4) || !csrExists (csr insn) || csrWriteToReadOnly insn) := by
    unfold illegal
    rw [h]
    exact if_neg hf
  have hcsr : isCsr insn = !illegal insn := by
    unfold isCsr
    rw [h, decide_eq_true hf]
    simp
  obtain ⟨hmret, hsret, hwfi, hsf⟩ := whole_words insn (.inr hf)
  have hpriv : (modes m).privIllegal insn =
      (decide ((modes m).priv ≠ 3) && (!illegal insn && !(modes m).csrPrivOk insn)) := by
    unfold Modes.privIllegal
    rw [hmret, hsret, hwfi, hsf, hcsr]
    simp
  have hfs : (modes m).fsIllegal insn = (m.fsOff && (!illegal insn && csr insn ≥ 0x001 && csr insn ≤ 0x003)) := by
    unfold Modes.fsIllegal fpLoad fpStore
    rw [hfp, hcsr, h, fsOff_eq]
    simp
  have hrange : floatingInstruction insn = (decide (Emu.funct3 insn % 4 ≠ 0) &&
      (csr insn ≥ 0x001 && csr insn ≤ 0x003)) := by
    unfold floatingInstruction
    dsimp only
    rw [opcode_toNat, h, csr_toNat, Bool.and_assoc]
    rfl
  have hthree : Emu.funct3 insn ≠ 0 := by
    rw [Emu.funct3, funct3_toNat]
    exact fun hz => hf (BitVec.eq_of_toNat_eq hz)
  have hfour : decide (funct3 insn = 4) = decide (Emu.funct3 insn = 4) := by
    apply decide_eq_decide.mpr
    rw [Emu.funct3, funct3_toNat, ← BitVec.toNat_inj]
    rfl
  have hnone : (m.csrOf insn).isNone = (!csrExists (csr insn) ||
      !(!csrWriteToReadOnly insn && m.cpu.csrAllowed (csr insn).toNat)) := by
    unfold Emu.Machine.csrOf
    rw [csr_toNat, isSome_filter_eq, csrExists_eq, csrWriteToReadOnly_eq]
  unfold Modes.raises
  rw [hfp, hpriv, hfs, hrange, hnone]
  cases hi : illegal insn with
  | true =>
    rw [hill, hfour] at hi
    revert hi
    cases decide (Emu.funct3 insn = 4) <;> cases csrExists (csr insn) <;>
      cases csrWriteToReadOnly insn <;> simp
  | false =>
    rw [hill, hfour, Bool.or_eq_false_iff, Bool.or_eq_false_iff, Bool.not_eq_false'] at hi
    obtain ⟨⟨h4, hex⟩, hro⟩ := hi
    have hmod : Emu.funct3 insn % 4 ≠ 0 := by
      have hlt : Emu.funct3 insn < 8 := Nat.mod_lt _ (by decide)
      have hne := of_decide_eq_false h4
      omega
    have hok : (decide ((modes m).priv ≠ 3) && !(modes m).csrPrivOk insn) =
        !m.cpu.csrAllowed (csr insn).toNat := by
      by_cases hp : m.hart.priv = .machine
      · have hpriv : (modes m).priv = 3 := (Priv.code_eq_three _).mpr hp
        unfold Emu.Cpu.csrAllowed
        rw [decide_eq_false (not_not.mpr hpriv), if_pos hp]
        rfl
      · have hpriv : (modes m).priv ≠ 3 := mt (Priv.code_eq_three _).mp hp
        rw [decide_eq_true hpriv, Bool.true_and, csrPrivOk_eq m insn (mem_of_csrExists hex) hp]
    rw [h4, hex, hro, decide_eq_true hmod]
    simp only [Bool.not_false, Bool.true_and, Bool.not_true, Bool.false_or, Bool.false_and]
    rw [hok, Bool.or_comm]

def opcodeNumbers : Emu.Opcode → List Nat
  | .lui => [0x37]
  | .auipc => [0x17]
  | .jal => [0x6f]
  | .jalr => [0x67]
  | .branch => [0x63]
  | .flw => [0x07]
  | .load => [0x03]
  | .fsw => [0x27]
  | .store => [0x23]
  | .amo => [0x2f]
  | .opImm => [0x13]
  | .op => [0x33]
  | .fence => [0x0f]
  | .floating => floatOpcodes
  | .system => [0x73]

theorem mem_opcodeNumbers (h : Emu.Opcode.of n = some code) : n ∈ opcodeNumbers code := by
  unfold Emu.Opcode.of at h
  split at h
  case h_20 => cases h
  all_goals
    cases h
    decide

theorem illegal_of_none (h : Emu.Opcode.of (opcode insn).toNat = none) :
    illegal insn = true := by
  unfold illegal
  dsimp only
  split
  case h_15 => rfl
  all_goals
    rename_i hn
    rw [hn] at h
    cases h

theorem illegal_eq {code : Emu.Opcode} (h : (opcode insn).toNat ∈ opcodeNumbers code)
    (hsys : code ≠ .system) (hf : code ≠ .floating) : illegal insn = m.unknown insn code := by
  have hthree : ∀ f3 : BitVec 3, decide (f3 ≠ 0) = decide (f3.toNat ≠ 0) ∧
      decide (f3 ≠ 2) = decide (f3.toNat ≠ 2) ∧ decide (f3 = 2) = decide (f3.toNat = 2) ∧
      decide (f3 = 3) = decide (f3.toNat = 3) ∧ decide (f3 > 5) = decide (5 < f3.toNat) ∧
      decide (f3 > 2) = decide (2 < f3.toNat) ∧ decide (f3 > 1) = decide (1 < f3.toNat) := by
    decide
  have hone {n : Nat} (h : (opcode insn).toNat ∈ [n]) : (opcode insn).toNat = n :=
    List.mem_singleton.mp h
  unfold illegal Emu.Machine.unknown
  dsimp only
  rw [Emu.funct3, Emu.funct7, funct3_toNat, funct7_toNat]
  cases code with
  | system => exact absurd rfl hsys
  | floating => exact absurd rfl hf
  | lui | auipc | jal => rw [hone h]; rfl
  | jalr => rw [hone h]; exact (hthree _).1
  | branch =>
    rw [hone h]
    simp only [hthree]
  | flw | load | fsw | store => rw [hone h]; simp only [hthree]
  | amo =>
    rw [hone h, ← funct7_toNat, funct5_toNat, Emu.rs2Field, rs2_toNat, ← illegal_amo]
    simp only [hthree]
  | opImm => rw [hone h]; exact illegal_opImm _ _
  | op => rw [hone h]; exact illegal_op _ _
  | fence => rw [hone h]; simp only [hthree]

theorem floatLegal_eq (h : (opcode insn).toNat ∈ floatOpcodes) :
    (modes m).fpValid insn = Emu.floatLegal (m.hart.fp.fcsr >>> 5).toNat insn := by
  have hfrm : (m.hart.fp.fcsr.extractLsb' 5 3).toNat = (m.hart.fp.fcsr >>> 5).toNat := by
    have hlt := m.hart.fp.fcsr.isLt
    rw [extractLsb'_toNat_div, BitVec.toNat_ushiftRight, Nat.shiftRight_eq_div_pow]
    omega
  rw [← hfrm]
  exact fpValid_eq insn _ h

theorem raises_eq : (modes m).raises insn = m.refuses insn := by
  unfold Emu.Machine.refuses
  rw [opcode_toNat]
  cases hop : Emu.Opcode.of (opcode insn).toNat with
  | none =>
    have hfp : (opcode insn).toNat ∉ floatOpcodes := by
      intro hmem
      revert hop
      revert hmem
      generalize (opcode insn).toNat = n
      intro hmem
      simp only [floatOpcodes, List.mem_cons, List.not_mem_nil, or_false] at hmem
      rcases hmem with rfl | rfl | rfl | rfl | rfl <;> rintro ⟨⟩
    unfold Modes.raises
    rw [illegal_of_none insn hop, fpValid_of_notMem insn _ hfp, Bool.or_true]
    rfl
  | some code =>
    have hn := mem_opcodeNumbers hop
    have hone {n : Nat} (h : (opcode insn).toNat ∈ [n]) : (opcode insn).toNat = n :=
      List.mem_singleton.mp h
    have hinteger (h : ∀ n ∈ opcodeNumbers code, n ∉ 0x73 :: 0x07 :: 0x27 :: floatOpcodes)
        (hsys : code ≠ .system) (hf : code ≠ .floating) : (modes m).raises insn =
          (m.fsOff && floatingInstruction insn || m.unknown insn code) := by
      obtain ⟨hr, hfl⟩ := raises_integer insn (modes m) rfl (h _ hn)
      rw [hr, hfl, Bool.and_false, Bool.false_or]
      exact illegal_eq m insn hn hsys hf
    have hmemory (h : opcode insn = 0x07 ∨ opcode insn = 0x27)
        (hu : m.unknown insn code = decide (funct3 insn ≠ 2)) : (modes m).raises insn =
          (m.fsOff && floatingInstruction insn || m.unknown insn code) := by
      obtain ⟨hr, hfl⟩ := raises_memory insn (modes m) h
      rw [hr, hfl, fsOff_eq, Bool.and_true, hu]
    have htwo : ∀ f3 : BitVec 3, decide (f3.toNat ≠ 2) = decide (f3 ≠ 2) := by decide
    cases code with
    | flw =>
      refine hmemory (.inl (BitVec.eq_of_toNat_eq (hone hn))) ?_
      rw [← htwo, ← funct3_toNat]
      rfl
    | fsw =>
      refine hmemory (.inr (BitVec.eq_of_toNat_eq (hone hn))) ?_
      rw [← htwo, ← funct3_toNat]
      rfl
    | floating =>
      obtain ⟨hr, hfl⟩ := raises_float insn (modes m) hn
      rw [hr, hfl, fsOff_eq, floatLegal_eq m insn hn, Bool.and_true]
      rfl
    | system =>
      have hsys : opcode insn = 0x73 := BitVec.eq_of_toNat_eq (hone hn)
      have hthree : funct3 insn = 0 ↔ Emu.funct3 insn = 0 := by
        rw [Emu.funct3, funct3_toNat, ← BitVec.toNat_inj]
        rfl
      unfold Emu.Machine.unknown
      by_cases hf : funct3 insn = 0
      · have hfl : floatingInstruction insn = false := by
          unfold floatingInstruction
          rw [opcode_toNat, hsys, funct3_toNat, hf]
          rfl
        rw [raises_privileged m insn hsys hf, hfl, Bool.and_false, Bool.false_or]
        exact (if_pos (hthree.mp hf)).symm
      · rw [raises_csr m insn hsys hf]
        exact congrArg _ (if_neg (mt hthree.mpr hf)).symm
    | _ => exact hinteger (by decide) (by rintro ⟨⟩) (by rintro ⟨⟩)

end Raises

/-- The core's DECODE finds a word illegal exactly when the emulator's step does. -/
theorem illegal_instruction_iff (host : Emu.Host) (fuel : Nat) (m : Emu.Machine) (word : Word) :
    ((modes m).raises word = true ↔
      ∃ tval m', Emu.execute host fuel word m = .error (.trap Emu.causeIllegal tval) m') ∧
    (m.Fetches word → ((modes m).raises word = true ↔
      ∃ tval m', Emu.step host fuel m = .ok (.trapped m.hart.pc word Emu.causeIllegal tval, m'))) := by
  rw [raises_eq]
  exact ⟨Emu.refuses_iff, fun h => Emu.step_illegal_iff h⟩

theorem illegal_instruction_iff_zero : (Emu.reset (.bare fun _ => 0)).Fetches 0 ∧
    (modes (Emu.reset (.bare fun _ => 0))).raises 0 = true ∧
    ∃ tval m', Emu.step ⟨fun _ _ _ _ _ => (0, 0), fun _ => 0, fun _ => .nothing, 100⟩ 0
      (Emu.reset (.bare fun _ => 0)) = .ok (.trapped 0x80000000 0 Emu.causeIllegal tval, m') := by
  have hfetches : (Emu.reset (.bare fun _ => 0)).Fetches 0 := ⟨rfl, rfl, rfl⟩
  have hraises : (modes (Emu.reset (.bare fun _ => 0))).raises 0 = true := rfl
  exact ⟨hfetches, hraises, ((illegal_instruction_iff _ 0 _ 0).2 hfetches).mp hraises⟩

end TinyProcessors.Rtl
