import TinyProcessors.Emu.Hart

namespace TinyProcessors

/-- `width` bits of an instruction from bit `low` on. -/
def field (word : Word) (low width : Nat) : Nat := word.toNat / 2 ^ low % 2 ^ width

/-- What FS Off makes illegal. -/
def floatingInstruction (word : Word) : Bool :=
  let opcode := field word 0 7
  opcode = 0x07 || opcode = 0x27 || opcode = 0x43 || opcode = 0x47 || opcode = 0x4b ||
    opcode = 0x4f || opcode = 0x53 ||
    (opcode = 0x73 && field word 12 3 % 4 ≠ 0 && 1 ≤ field word 20 12 && field word 20 12 ≤ 3)

/-- `rv32_fp`: the result and the exception flags of an operation at a rounding mode. -/
abbrev FpUnit := (op rm : Nat) → (fa fb fc : Word) → Word × BitVec 8

/-- What a floating instruction leaves when it retires. -/
structure Retired where
  fp : FState
  dirty : Bool
  rd : Option Word
  stored : Option Word

def FState.write (s : FState) (rd : Nat) (value : Word) : FState :=
  { s with f := Function.update s.f (Fin.ofNat 32 rd) value }

def retireF (s : FState) (rd : Nat) (value : Word) : Retired := ⟨s.write rd value, true, none, none⟩

def retireX (s : FState) (value : Word) : Retired := ⟨s, false, some value, none⟩

/-- The rounding mode of an instruction, if it is one of the five. -/
def roundingMode (s : FState) (funct3 : Nat) : Option Nat :=
  let rm := if funct3 = 7 then (s.fcsr >>> 5).toNat else funct3
  if rm > 4 then none else some rm

/-- An operation of `rv32_fp`, with its flags accrued, to `f[rd]` or to `x[rd]`. -/
def arithmetic (unit : FpUnit) (s : FState) (op rm : Nat) (fa fb fc : Word) (rd : Option Nat) :
    Retired :=
  let r := unit op rm fa fb fc
  let s' := { s with fcsr := s.fcsr ||| r.2 }
  match rd with
  | some rd => ⟨s'.write rd r.1, true, none, none⟩
  | none => ⟨s', r.2 ≠ 0, some r.1, none⟩

def classBit (fa : Word) : Nat :=
  let exp := field fa 23 8
  let frac := field fa 0 23
  let sign := field fa 31 1 = 1
  if exp = 255 then if frac ≠ 0 then if field fa 22 1 = 1 then 9 else 8 else if sign then 0 else 7
  else if exp = 0 then if frac ≠ 0 then if sign then 2 else 5 else if sign then 3 else 4
  else if sign then 1 else 6

/-- The instructions of opcode 0x53, but for those that only move bits. -/
def executeOpFp (unit : FpUnit) (s : FState) (word a : Word) : Option Retired :=
  let funct3 := field word 12 3
  let funct7 := field word 25 7
  let rs2 := field word 20 5
  let fa := s.f (Fin.ofNat 32 (field word 15 5))
  let fb := s.f (Fin.ofNat 32 rs2)
  let fc := s.f (Fin.ofNat 32 (field word 27 5))
  let rd := field word 7 5
  let rounded (op : Nat) (fa : Word) (rd : Option Nat) :=
    (roundingMode s funct3).map fun rm => arithmetic unit s op rm fa fb fc rd
  match funct7 with
  | 0x00 => rounded 0 fa (some rd)
  | 0x04 => rounded 1 fa (some rd)
  | 0x08 => rounded 2 fa (some rd)
  | 0x0c => rounded 7 fa (some rd)
  | 0x2c => if rs2 ≠ 0 then none else rounded 8 fa (some rd)
  | 0x60 => if rs2 > 1 then none else rounded (if rs2 = 1 then 12 else 11) fa none
  | 0x68 => if rs2 > 1 then none else rounded (if rs2 = 1 then 10 else 9) a (some rd)
  | 0x50 =>
    if funct3 > 2 then none
    else some (arithmetic unit s (if funct3 = 2 then 13 else if funct3 = 1 then 14 else 15) 0
      fa fb fc none)
  | 0x14 =>
    if funct3 > 1 then none
    else some (arithmetic unit s (if funct3 = 1 then 17 else 16) 0 fa fb fc (some rd))
  | 0x10 =>
    if funct3 > 2 then none
    else
      let sign := if funct3 = 0 then fb else if funct3 = 1 then ~~~fb else fa ^^^ fb
      some (retireF s rd (fa &&& 0x7fffffff ||| sign &&& 0x80000000))
  | 0x70 =>
    if rs2 ≠ 0 ∨ funct3 > 1 then none
    else some (retireX s (if funct3 = 1 then 1 <<< classBit fa else fa))
  | 0x78 => if rs2 ≠ 0 ∨ funct3 ≠ 0 then none else some (retireF s rd a)
  | _ => none

/-- `csr_read` and `csr_write` of `fflags` (1), `frm` (2) and `fcsr` (3). -/
def readFcsr (s : FState) (number : Nat) : BitVec 8 :=
  if number = 1 then s.fcsr &&& 31 else if number = 2 then s.fcsr >>> 5 else s.fcsr

def writeFcsr (s : FState) (number : Nat) (value : BitVec 8) : FState :=
  { s with fcsr :=
      if number = 1 then s.fcsr &&& 0xe0 ||| value &&& 31
      else if number = 2 then s.fcsr &&& 31 ||| (value &&& 7) <<< 5
      else value }

/-- CSRRW, CSRRS and CSRRC on a floating CSR; the last two with a zero field only read. -/
def executeCsr (s : FState) (word a : Word) : Option Retired :=
  let number := field word 20 12
  let rs1 := field word 15 5
  let operand : BitVec 8 :=
    if field word 14 1 = 1 then BitVec.ofNat 8 rs1 else a.setWidth 8
  let old := readFcsr s number
  let written (value : BitVec 8) : Retired :=
    ⟨writeFcsr s number value, true, some (old.setWidth 32), none⟩
  let read : Retired := retireX s (old.setWidth 32)
  match field word 12 2 with
  | 1 => some (written operand)
  | 2 => some (if rs1 = 0 then read else written (old ||| operand))
  | 3 => some (if rs1 = 0 then read else written (old &&& ~~~operand))
  | _ => none

/-- A floating instruction with FS on; `none` is an illegal encoding. -/
def executeFloating (unit : FpUnit) (s : FState) (word a loaded : Word) : Option Retired :=
  let funct3 := field word 12 3
  let fa := s.f (Fin.ofNat 32 (field word 15 5))
  let fb := s.f (Fin.ofNat 32 (field word 20 5))
  let fc := s.f (Fin.ofNat 32 (field word 27 5))
  match field word 0 7 with
  | 0x07 => if funct3 ≠ 2 then none else some (retireF s (field word 7 5) loaded)
  | 0x27 => if funct3 ≠ 2 then none else some ⟨s, false, none, some fb⟩
  | 0x53 => executeOpFp unit s word a
  | 0x73 => executeCsr s word a
  | opcode =>
    if field word 25 2 ≠ 0 then none
    else (roundingMode s funct3).map fun rm =>
      arithmetic unit s (3 + (opcode - 0x43) / 4) rm fa fb fc (some (field word 7 5))

end TinyProcessors
