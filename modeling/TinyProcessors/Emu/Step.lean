import TinyProcessors.Emu.Access
import TinyProcessors.Emu.MulDiv

namespace TinyProcessors.Emu

/-- What an instruction that retires leaves to the end of `step`. -/
structure Retirement where
  next : Word
  rd : Option Word
  dirty : Bool

/-- The opcodes that the switch of `step` knows. -/
inductive Opcode
  | lui | auipc | jal | jalr | branch | flw | load | fsw | store | amo | opImm | op | fence
  | floating | system
  deriving DecidableEq

def Opcode.of (code : Nat) : Option Opcode :=
  match code with
  | 0x37 => some .lui
  | 0x17 => some .auipc
  | 0x6f => some .jal
  | 0x67 => some .jalr
  | 0x63 => some .branch
  | 0x07 => some .flw
  | 0x03 => some .load
  | 0x27 => some .fsw
  | 0x23 => some .store
  | 0x2f => some .amo
  | 0x13 => some .opImm
  | 0x33 => some .op
  | 0x0f => some .fence
  | 0x43 | 0x47 | 0x4b | 0x4f | 0x53 => some .floating
  | 0x73 => some .system
  | _ => none

section Fields

variable (word : Word)

abbrev funct3 : Nat := field word 12 3

abbrev funct7 : Nat := field word 25 7

abbrev rdField : Nat := field word 7 5

abbrev rs1Field : Nat := field word 15 5

abbrev rs2Field : Nat := field word 20 5

def immI : Word := word.sshiftRight 20

def immS : Word := (word &&& 0xfe000000).sshiftRight 20 ||| word >>> 7 &&& 0x1f

def immB : Word :=
  (word &&& 0x80000000).sshiftRight 19 ||| (word &&& 0x80) <<< 4 ||| word >>> 20 &&& 0x7e0 |||
    word >>> 7 &&& 0x1e

def immJ : Word :=
  (word &&& 0x80000000).sshiftRight 11 ||| word &&& 0xff000 ||| word >>> 9 &&& 0x800 |||
    word >>> 20 &&& 0x7fe

end Fields

def Machine.rs1 (m : Machine) (word : Word) : Word := m.hart.x (Fin.ofNat 32 (rs1Field word))

def Machine.rs2 (m : Machine) (word : Word) : Word := m.hart.x (Fin.ofNat 32 (rs2Field word))

abbrev causeFetchMisaligned : Word := 0
abbrev causeFetchFault : Word := 1
abbrev causeIllegal : Word := 2
abbrev causeBreakpoint : Word := 3
abbrev causeFetchPageFault : Word := 12

def loadCause : MemAccess → Word
  | .misaligned => 4
  | .pageFault => 13
  | _ => 5

def storeCause : MemAccess → Word
  | .misaligned => 6
  | .pageFault => 15
  | _ => 7

/-- `goto illegal`. -/
def illegal (word : Word) : Exec α := throw (.trap causeIllegal word)

def trapping (cause : MemAccess → Word) (tval : Word) (x : Exec α) : Exec α := fun m =>
  match x m with
  | .error (.denied status) m' => .error (.trap (cause status) tval) m'
  | r => r

/-- `jump`: the target, which has to be word aligned. -/
def jump (target : Word) : Exec Word :=
  if target &&& 3 ≠ 0 then throw (.trap causeFetchMisaligned target) else return target

/-- An instruction goes on to the next one, with a result for `rd`. -/
def Machine.result (m : Machine) (value : Word) : Retirement := ⟨m.hart.pc + 4, some value, false⟩

def Machine.noResult (m : Machine) : Retirement := ⟨m.hart.pc + 4, none, false⟩

/-- Whether a branch is taken; two of the conditions do not exist. -/
def branchTaken (funct3 : Nat) (a b : Word) : Option Bool :=
  match funct3 with
  | 0 => some (a = b)
  | 1 => some (a ≠ b)
  | 4 => some (a.slt b)
  | 5 => some (!a.slt b)
  | 6 => some (a < b)
  | 7 => some (b ≤ a)
  | _ => none

def branch (word : Word) : Exec Retirement := do
  let m ← get
  match branchTaken (funct3 word) (m.rs1 word) (m.rs2 word) with
  | none => illegal word
  | some false => return m.noResult
  | some true =>
    let next ← jump (m.hart.pc + immB word)
    return ⟨next, none, false⟩

def widthOf (funct3 : Nat) : Nat := 2 ^ (funct3 % 4)

/-- A loaded value as `rd` has it. -/
def extended (funct3 : Nat) (value : Word) : Word :=
  if funct3 = 0 then (value.setWidth 8).signExtend 32
  else if funct3 = 1 then (value.setWidth 16).signExtend 32
  else value

def loads (host : Host) (word : Word) (float : Bool) : Exec Retirement := do
  let m ← get
  let f := funct3 word
  if float && f ≠ 2 || f = 3 || 5 < f then illegal word
  else do
    let address := m.rs1 word + immI word
    let (value, _) ← trapping loadCause address (load host address (widthOf f))
    let m ← get
    if float then
      set { m with cpu := { m.cpu with hart := { m.hart with
        fp := m.hart.fp.write (rdField word) (extended f value) } } }
      return ⟨m.hart.pc + 4, none, true⟩
    else return m.result (extended f value)

def storedValue (width : Nat) (value : Word) : Word :=
  if width = 4 then value else value &&& (1 <<< (8 * width) - 1)

def stores (fuel : Nat) (word : Word) (float : Bool) : Exec Retirement := do
  let m ← get
  let f := funct3 word
  if float && f ≠ 2 || 2 < f then illegal word
  else do
    let address := m.rs1 word + immS word
    let value := if float then m.hart.fp.f (Fin.ofNat 32 (rs2Field word)) else m.rs2 word
    trapping storeCause address (store fuel address (widthOf f) (storedValue (widthOf f) value))
    return m.noResult

def Devices.reserve (d : Devices) (va pa : Word) : Devices :=
  { d with mem := { d.mem with lr := ⟨true, va >>> 2, pa >>> 2⟩ } }

def loadReserved (host : Host) (word : Word) : Exec Retirement := do
  let m ← get
  let va := m.rs1 word
  let (value, pa) ← trapping loadCause va (load host va 4)
  modify fun m => { m with io := m.io.reserve va pa }
  return m.result value

def Devices.holds (d : Devices) (va : Word) : Bool :=
  d.mem.lr.reserved && d.mem.lr.reservation = va >>> 2

/-- SC.W's test: a reservation for the virtual word, and then one for the physical word. -/
def held (va : Word) : Exec Bool := do
  let m ← get
  if m.io.holds va then do
    let address ← trapping storeCause va (reached va .store 2)
    return address >>> 2 = m.io.mem.lr.reservationPa
  else return false

def storeConditional (fuel : Nat) (word : Word) : Exec Retirement := do
  let m ← get
  let va := m.rs1 word
  trapping storeCause va (aligned va 4)
  let ok ← held va
  if ok then trapping storeCause va (store fuel va 4 (m.rs2 word))
  modify fun m => { m with io := m.io.unreserve }
  return m.result (if ok then 0 else 1)

def atomic (host : Host) (fuel : Nat) (word : Word) : Exec Retirement := do
  let m ← get
  let va := m.rs1 word
  match if funct3 word = 2 then amoValid (funct7 word / 4) (rs2Field word) else none with
  | none => illegal word
  | some .lr => loadReserved host word
  | some .sc => storeConditional fuel word
  | some op =>
    let old ← trapping storeCause va (amo host fuel va op (m.rs2 word))
    return m.result old

def opImm (word a : Word) : Option Word :=
  let imm := immI word
  let shamt := rs2Field word
  match funct3 word with
  | 0 => some (a + imm)
  | 1 => if funct7 word = 0 then some (a <<< shamt) else none
  | 2 => some (if a.slt imm then 1 else 0)
  | 3 => some (if a < imm then 1 else 0)
  | 4 => some (a ^^^ imm)
  | 5 =>
    if funct7 word = 0 then some (a >>> shamt)
    else if funct7 word = 0x20 then some (a.sshiftRight shamt)
    else none
  | 6 => some (a ||| imm)
  | _ => some (a &&& imm)

def opReg (word a b : Word) : Option Word :=
  let f3 := funct3 word
  let f7 := funct7 word
  let shamt := (b &&& 31).toNat
  if f7 = 1 then some (muldiv f3 a b)
  else if f7 ≠ 0 ∧ ¬(f7 = 0x20 ∧ (f3 = 0 ∨ f3 = 5)) then none
  else match f3 with
    | 0 => some (if f7 ≠ 0 then a - b else a + b)
    | 1 => some (a <<< shamt)
    | 2 => some (if a.slt b then 1 else 0)
    | 3 => some (if a < b then 1 else 0)
    | 4 => some (a ^^^ b)
    | 5 => some (if f7 ≠ 0 then a.sshiftRight shamt else a >>> shamt)
    | 6 => some (a ||| b)
    | _ => some (a &&& b)

def computed (word : Word) (value : Option Word) : Exec Retirement := do
  let m ← get
  match value with
  | none => illegal word
  | some v => return m.result v

def floating (host : Host) (word : Word) : Exec Retirement := do
  let m ← get
  match executeFloating host.fp m.hart.fp word (m.rs1 word) 0 with
  | none => illegal word
  | some r =>
    set { m with cpu := { m.cpu with hart := { m.hart with fp := r.fp } } }
    return ⟨m.hart.pc + 4, r.rd, r.dirty⟩

/-- A CSR instruction writes: CSRRW always, the others with a nonzero field. -/
def csrWrites (word : Word) : Bool := funct3 word % 4 = 1 || rs1Field word ≠ 0

def csrOperand (word a old : Word) : Word :=
  let operand := if funct3 word / 4 % 2 = 1 then BitVec.ofNat 32 (rs1Field word) else a
  match funct3 word % 4 with
  | 1 => operand
  | 2 => old ||| operand
  | _ => old &&& ~~~operand

def Machine.csrOf (m : Machine) (word : Word) : Option Csr :=
  let number := field word 20 12
  (Csr.of number).filter fun _ =>
    !(csrWrites word && csrReadOnly number) && m.cpu.csrAllowed number

def csrInstruction (word : Word) : Exec Retirement := do
  let m ← get
  match m.csrOf word with
  | none => illegal word
  | some r =>
    let old := m.csrRead r
    if csrWrites word then set (m.csrWrite r (csrOperand word (m.rs1 word) old))
    return ⟨m.hart.pc + 4, some old, csrWrites word && (r = .fflags || r = .frm || r = .fcsr)⟩

def ecallCause : Priv → Word
  | .user => 8
  | .supervisor => 9
  | .machine => 11

def privileged (word : Word) : Exec Retirement := do
  let m ← get
  if word = 0x00000073 then throw (.trap (ecallCause m.hart.priv) 0)
  else if word = 0x00100073 then throw (.trap causeBreakpoint m.hart.pc)
  else if word = 0x30200073 ∧ m.hart.priv = .machine then do
    set { cpu := { m.cpu with hart := m.hart.mret }, io := m.io.unreserve : Machine }
    return ⟨m.hart.mepc, none, false⟩
  else if word = 0x10200073 ∧ m.cpu.supervisorAllows mstatusTsr then do
    set { cpu := m.cpu.sret, io := m.io.unreserve : Machine }
    return ⟨m.cpu.sepc, none, false⟩
  else if word = 0x10500073 ∧ m.cpu.supervisorAllows mstatusTw then return m.noResult
  else if word &&& 0xfe007fff = 0x12000073 ∧ m.cpu.supervisorAllows mstatusTvm then do
    set { m with io := m.io.unreserve }
    return m.noResult
  else illegal word

def system (word : Word) : Exec Retirement :=
  if funct3 word = 0 then privileged word
  else if funct3 word = 4 then illegal word
  else csrInstruction word

def Machine.fsOff (m : Machine) : Bool := m.hart.mstatus &&& mstatusFs = 0

/-- The cases of `step`'s switch. -/
def perform (host : Host) (fuel : Nat) (word : Word) (code : Opcode) : Exec Retirement := do
  let m ← get
  let pc := m.hart.pc
  match code with
  | .lui => return m.result (word &&& 0xfffff000)
  | .auipc => return m.result (pc + (word &&& 0xfffff000))
  | .jal => do
    let next ← jump (pc + immJ word)
    return ⟨next, some (pc + 4), false⟩
  | .jalr =>
    if funct3 word ≠ 0 then illegal word
    else do
      let next ← jump ((m.rs1 word + immI word) &&& ~~~1)
      return ⟨next, some (pc + 4), false⟩
  | .branch => branch word
  | .flw => loads host word true
  | .load => loads host word false
  | .fsw => stores fuel word true
  | .store => stores fuel word false
  | .amo => atomic host fuel word
  | .opImm => computed word (opImm word (m.rs1 word))
  | .op => computed word (opReg word (m.rs1 word) (m.rs2 word))
  | .fence => if 1 < funct3 word then illegal word else return m.noResult
  | .floating => floating host word
  | .system => system word

/-- An instruction, up to its retirement. With FS Off a floating one does not exist. -/
def execute (host : Host) (fuel : Nat) (word : Word) : Exec Retirement := do
  let m ← get
  if m.fsOff && floatingInstruction word then illegal word
  else match Opcode.of (field word 0 7) with
    | none => illegal word
    | some code => perform host fuel word code

def snoops (base : Nat) (at_ : Option Nat) (mem : Memory) : Memory :=
  match at_ with
  | none => mem
  | some offset => mem.snoopDeviceWrite (BitVec.ofNat 32 (base + offset))

def Devices.tickAccelerators (d : Devices) : Devices :=
  let ram := d.mem.ram.window ramBase
  let screen := Screen.tick ram d.window false ⟨d.gpu, d.mem.fb⟩
  let board := G3d.Board.tick d.window false ⟨d.g3d, ram, screen.fb⟩
  let mem := { d.mem with ram := d.mem.ram.overwrite ramBase ramSize board.ram, fb := board.fb }
  { d with
    simd := d.simd.tick false
    gpu := screen.gpu
    g3d := board.dev
    mem := snoops fbBase d.gpu.fbWritten (snoops fbBase d.g3d.fbWritten
      (snoops ramBase d.g3d.ramWritten mem)) }


/-- The common part of `trap` and `take_interrupt`; `count` counts it. -/
def Machine.handle (m : Machine) (count : Cpu → Cpu) (cause tval : Word) : Machine :=
  let cpu := { m.cpu with steps := m.cpu.steps + 1 }
  let io := m.io.tickAccelerators
  if cpu.inTrap then
    { cpu := { cpu with secondCause := cause, secondTval := tval }
      io := { io with halt := .doubleFault } }
  else
    { cpu := (count { cpu with inTrap := true }).enterHandler cause tval
      io := io.unreserve }

def Machine.trap (m : Machine) (cause tval : Word) : Machine :=
  m.handle (fun c => { c with traps := c.traps + 1 }) cause tval

def Machine.takeInterrupt (m : Machine) (code : Nat) : Machine :=
  m.handle (fun c => { c with interrupts := c.interrupts + 1 })
    (0x80000000 ||| BitVec.ofNat 32 code) 0

/-- The end of `step`: the instruction retires. -/
def Machine.retire (m : Machine) (word : Word) (r : Retirement) : Machine :=
  let rd := rdField word
  let x := match r.rd with
    | some value => if rd ≠ 0 then Function.update m.hart.x (Fin.ofNat 32 rd) value else m.hart.x
    | none => m.hart.x
  { cpu := { m.cpu with
      hart := { m.hart with
        x := x
        mstatus := if r.dirty then m.hart.mstatus ||| mstatusFs else m.hart.mstatus
        pc := r.next }
      steps := m.cpu.steps + 1
      retired := m.cpu.retired + 1
      inTrap := false }
    io := m.io.tickAccelerators }

/-- The pending interrupts for machine mode, or else the delegated ones. -/
def Machine.enabled (m : Machine) : Word :=
  let pending := if m.cpu.inTrap then 0 else m.mipNow &&& m.cpu.mie
  let machine := m.hart.priv ≠ .machine || m.hart.mstatus &&& mstatusMie ≠ 0
  let supervisor := m.hart.priv = .user ||
    (m.hart.priv = .supervisor && m.hart.mstatus &&& mstatusSie ≠ 0)
  let machineLevel := if machine then pending &&& ~~~m.cpu.mideleg else 0
  let supervisorLevel := if supervisor then pending &&& m.cpu.mideleg else 0
  if machineLevel ≠ 0 then machineLevel else supervisorLevel

def interruptOrder : List Nat := [11, 3, 7, 9, 1, 5]

def fetch : Exec Word := do
  let m ← get
  let pc := m.hart.pc
  let cause (status : MemAccess) := if status = .pageFault then causeFetchPageFault else causeFetchFault
  let address ← trapping cause pc (translated pc .fetch m.hart.priv)
  if !inRam address.toNat 4 || !pmpAllows m.hart.priv m.hart address 4 then
    throw (.trap causeFetchFault pc)
  else return m.io.mem.ram.read address.toNat 4

inductive Record
  | retired (pc word : Word)
  | trapped (pc word cause tval : Word)
  | interrupted (pc : Word) (code : Nat)
  deriving DecidableEq

/-- The instruction at the program counter. A trap in the fetch has no word. -/
def instruction (host : Host) (fuel : Nat) (m : Machine) : Except Exit (Record × Machine) :=
  match fetch m with
  | .error (.trap cause tval) m' => .ok (.trapped m.hart.pc 0 cause tval, m'.trap cause tval)
  | .error e _ => .error e
  | .ok word m' =>
    match execute host fuel word m' with
    | .error (.trap cause tval) m' => .ok (.trapped m.hart.pc word cause tval, m'.trap cause tval)
    | .error e _ => .error e
    | .ok r m' => .ok (.retired m.hart.pc word, m'.retire word r)

/-- `plic_sample`. -/
def Machine.sample (m : Machine) : Machine :=
  { m with io := { m.io with plic := m.io.plic.sample m.io.lines } }

/-- `step`, once the gateways have sampled their lines. -/
def sampled (host : Host) (fuel : Nat) (m : Machine) : Except Exit (Record × Machine) :=
  if m.enabled ≠ 0 then
    match interruptOrder.find? (m.enabled.getLsbD ·) with
    | some code => .ok (.interrupted m.hart.pc code, m.takeInterrupt code)
    | none => .error .abort
  else if m.hart.pc &&& 3 ≠ 0 then
    .ok (.trapped m.hart.pc 0 causeFetchMisaligned m.hart.pc, m.trap causeFetchMisaligned m.hart.pc)
  else instruction host fuel m

def step (host : Host) (fuel : Nat) (m : Machine) : Except Exit (Record × Machine) :=
  sampled host fuel m.sample

end TinyProcessors.Emu
