import TinyProcessors.Emu.Machine

namespace TinyProcessors.Emu

inductive Csr
  | fflags | frm | fcsr
  | mstatus | misa | medeleg | mideleg | mie | mtvec | mcounteren
  | mscratch | mepc | mcause | mtval | mip
  | pmpcfg (n : Fin 2) | pmpaddr (i : Fin 8)
  | sstatus | sie | stvec | scounteren | sscratch | sepc | scause | stval | sip | satp
  | cycle | time | instret | cycleh | timeh | instreth
  | mvendorid | marchid | mimpid | mhartid
  deriving DecidableEq

/-- `enum csr`: the register of a number. -/
def Csr.of (number : Nat) : Option Csr :=
  match number with
  | 0x001 => some .fflags
  | 0x002 => some .frm
  | 0x003 => some .fcsr
  | 0x300 => some .mstatus
  | 0x301 => some .misa
  | 0x302 => some .medeleg
  | 0x303 => some .mideleg
  | 0x304 => some .mie
  | 0x305 => some .mtvec
  | 0x306 => some .mcounteren
  | 0x340 => some .mscratch
  | 0x341 => some .mepc
  | 0x342 => some .mcause
  | 0x343 => some .mtval
  | 0x344 => some .mip
  | 0x3a0 => some (.pmpcfg 0)
  | 0x3a1 => some (.pmpcfg 1)
  | 0x100 => some .sstatus
  | 0x104 => some .sie
  | 0x105 => some .stvec
  | 0x106 => some .scounteren
  | 0x140 => some .sscratch
  | 0x141 => some .sepc
  | 0x142 => some .scause
  | 0x143 => some .stval
  | 0x144 => some .sip
  | 0x180 => some .satp
  | 0xc00 => some .cycle
  | 0xc01 => some .time
  | 0xc02 => some .instret
  | 0xc80 => some .cycleh
  | 0xc81 => some .timeh
  | 0xc82 => some .instreth
  | 0xf11 => some .mvendorid
  | 0xf12 => some .marchid
  | 0xf13 => some .mimpid
  | 0xf14 => some .mhartid
  | n => if 0x3b0 ≤ n ∧ n ≤ 0x3b7 then some (.pmpaddr (Fin.ofNat 8 (n - 0x3b0))) else none

abbrev mstatusSie : Word := 0x2
abbrev mstatusSpie : Word := 0x20
abbrev mstatusSpp : Word := 0x100
abbrev mstatusTvm : Word := 0x100000
abbrev mstatusTw : Word := 0x200000
abbrev mstatusTsr : Word := 0x400000
abbrev sstatusMask : Word := 0x800c6122
abbrev medelegMask : Word := 0xb3ff
abbrev sInterrupts : Word := 0x222
abbrev mieMask : Word := 0xaaa
abbrev satpMask : Word := 0x803fffff

/-- `mip`: the levels of the CLINT and the PLIC, and the bits that software raises. -/
def Machine.mipNow (m : Machine) : Word :=
  (if m.io.clint.msip ≠ 0 then (1 : Word) <<< 3 else 0) |||
    (if m.io.clint.mtimecmp ≤ m.io.clint.now m.cpu.steps then (1 : Word) <<< 7 else 0) |||
    (if m.io.plic.best ≠ 0 then (1 : Word) <<< 11 else 0) ||| m.cpu.mipSoft

/-- `csr_read` of a configuration register: four entries, the lowest first. -/
def pmpcfgValue (h : Hart) (n : Fin 2) : Word :=
  let c (k : Nat) : BitVec 8 := h.pmpcfg (Fin.ofNat 8 (4 * n.val + k))
  c 3 ++ c 2 ++ c 1 ++ c 0

def Machine.csrRead (m : Machine) : Csr → Word
  | .fflags => (m.hart.fp.fcsr &&& 31).setWidth 32
  | .frm => (m.hart.fp.fcsr >>> 5).setWidth 32
  | .fcsr => m.hart.fp.fcsr.setWidth 32
  | .mstatus => m.hart.mstatusValue
  | .misa => 0x40141121
  | .medeleg => m.cpu.medeleg
  | .mideleg => m.cpu.mideleg
  | .mie => m.cpu.mie
  | .mtvec => m.cpu.mtvec
  | .mcounteren => m.cpu.mcounteren
  | .mscratch => m.cpu.mscratch
  | .mepc => m.hart.mepc
  | .mcause => m.cpu.mcause
  | .mtval => m.cpu.mtval
  | .mip => m.mipNow
  | .pmpcfg n => pmpcfgValue m.hart n
  | .pmpaddr i => m.hart.pmpaddr i
  | .sstatus => m.hart.mstatusValue &&& sstatusMask
  | .sie => m.cpu.mie &&& m.cpu.mideleg
  | .stvec => m.cpu.stvec
  | .scounteren => m.cpu.scounteren
  | .sscratch => m.cpu.sscratch
  | .sepc => m.cpu.sepc
  | .scause => m.cpu.scause
  | .stval => m.cpu.stval
  | .sip => m.mipNow &&& m.cpu.mideleg
  | .satp => m.hart.satp
  | .cycle => Clint.low m.cpu.steps
  | .cycleh => Clint.high m.cpu.steps
  | .time => Clint.low (m.io.clint.now m.cpu.steps)
  | .timeh => Clint.high (m.io.clint.now m.cpu.steps)
  | .instret => Clint.low m.cpu.retired
  | .instreth => Clint.high m.cpu.retired
  | .mvendorid | .marchid | .mimpid | .mhartid => 0

/-- `csr_write`, but for the reservation that a write of `satp` ends. -/
def Cpu.csrWrite (c : Cpu) (r : Csr) (value : Word) : Cpu :=
  let low : BitVec 8 := value.setWidth 8
  match r with
  | .fflags => { c with hart := { c.hart with fp := writeFcsr c.hart.fp 1 low } }
  | .frm => { c with hart := { c.hart with fp := writeFcsr c.hart.fp 2 low } }
  | .fcsr => { c with hart := { c.hart with fp := writeFcsr c.hart.fp 3 low } }
  | .mstatus => { c with hart := c.hart.writeMstatus value }
  | .sstatus => { c with hart := { c.hart with
      mstatus := c.hart.mstatus &&& ~~~sstatusMask ||| value &&& sstatusMask &&& mstatusWritable } }
  | .medeleg => { c with medeleg := value &&& medelegMask }
  | .mideleg => { c with mideleg := value &&& sInterrupts }
  | .sie => { c with mie := c.mie &&& ~~~c.mideleg ||| value &&& c.mideleg }
  | .sip =>
    let ssip := c.mideleg &&& 2
    { c with mipSoft := c.mipSoft &&& ~~~ssip ||| value &&& ssip }
  | .stvec => { c with stvec := value &&& ~~~3 }
  | .scounteren => { c with scounteren := value &&& 7 }
  | .sscratch => { c with sscratch := value }
  | .sepc => { c with sepc := value &&& ~~~3 }
  | .scause => { c with scause := value }
  | .stval => { c with stval := value }
  | .satp => { c with hart := c.hart.writeSatp value }
  | .mcounteren => { c with mcounteren := value &&& 7 }
  | .pmpcfg n => { c with hart := c.hart.writePmpcfg n value }
  | .pmpaddr i => { c with hart := c.hart.writePmpaddr i value }
  | .mie => { c with mie := value &&& mieMask }
  | .mip => { c with mipSoft := value &&& sInterrupts }
  | .mscratch => { c with mscratch := value }
  | .mtvec => { c with mtvec := value &&& ~~~3 }
  | .mepc => { c with hart := { c.hart with mepc := value &&& ~~~3 } }
  | .mcause => { c with mcause := value }
  | .mtval => { c with mtval := value }
  | .misa | .cycle | .time | .instret | .cycleh | .timeh | .instreth
  | .mvendorid | .marchid | .mimpid | .mhartid => c

def Devices.unreserve (d : Devices) : Devices :=
  { d with mem := { d.mem with lr := { d.mem.lr with reserved := false } } }

def Machine.csrWrite (m : Machine) (r : Csr) (value : Word) : Machine :=
  { cpu := m.cpu.csrWrite r value
    io := if r = .satp then m.io.unreserve else m.io }

/-- `csr_read_only`: the numbers with bits 11 and 10 set. -/
def csrReadOnly (number : Nat) : Bool := number / 2 ^ 10 = 3

/-- `supervisor_allows`: `bit` is the one of `mstatus` that traps the instruction. -/
def Cpu.supervisorAllows (c : Cpu) (bit : Word) : Bool :=
  c.hart.priv = .machine || (c.hart.priv = .supervisor && c.hart.mstatus &&& bit = 0)

def Cpu.csrAllowed (c : Cpu) (number : Nat) : Bool :=
  if c.hart.priv = .machine then true
  else if c.hart.priv.bits.toNat < number / 2 ^ 8 % 4 then false
  else if 0xc00 ≤ number ∧ number ≤ 0xc82 then
    c.mcounteren.getLsbD (number % 4) &&
      (c.hart.priv = .supervisor || c.scounteren.getLsbD (number % 4))
  else if number = 0x180 ∧ c.hart.mstatus &&& mstatusTvm ≠ 0 then false
  else true

def Cpu.delegates (c : Cpu) (cause : Word) : Bool :=
  c.hart.priv ≠ .machine &&
    (if cause &&& 0x80000000 ≠ 0 then c.mideleg else c.medeleg).getLsbD (cause &&& 31).toNat

/-- `enter_handler`, but for the reservation that it ends. -/
def Cpu.enterHandler (c : Cpu) (cause tval : Word) : Cpu :=
  if c.delegates cause then
    let mstatus := c.hart.mstatus
    { c with
      sepc := c.hart.pc
      scause := cause
      stval := tval
      hart := { c.hart with
        mstatus := mstatus &&& ~~~(mstatusSie ||| mstatusSpie ||| mstatusSpp) |||
          (if mstatus &&& mstatusSie ≠ 0 then mstatusSpie else 0) |||
          (if c.hart.priv = .supervisor then mstatusSpp else 0)
        priv := .supervisor
        pc := c.stvec } }
  else
    { c with
      mcause := cause
      mtval := tval
      hart := { c.hart.enterHandler with pc := c.mtvec } }

def Cpu.sret (c : Cpu) : Cpu :=
  let mstatus := c.hart.mstatus
  { c with hart := { c.hart with
      priv := if mstatus &&& mstatusSpp ≠ 0 then .supervisor else .user
      mstatus := mstatus &&& ~~~(mstatusSie ||| mstatusSpp ||| mstatusMprv) ||| mstatusSpie |||
        (if mstatus &&& mstatusSpie ≠ 0 then mstatusSie else 0)
      pc := c.sepc } }

end TinyProcessors.Emu
