import TinyProcessors.Emu.Devices
import TinyProcessors.Emu.Hart

namespace TinyProcessors.Emu

/-- Why a run ended: `enum halt`. -/
inductive Halt
  | running
  | done
  | doubleFault
  | limit
  | stopped
  deriving DecidableEq

/-- The hart's part of `machine`. -/
structure Cpu where
  hart : Hart
  mtvec : Word
  mcause : Word
  mtval : Word
  mie : Word
  mscratch : Word
  medeleg : Word
  mideleg : Word
  mipSoft : Word
  stvec : Word
  sscratch : Word
  sepc : Word
  scause : Word
  stval : Word
  scounteren : Word
  mcounteren : Word
  steps : BitVec 64
  retired : BitVec 64
  traps : BitVec 64
  interrupts : BitVec 64
  inTrap : Bool
  secondCause : Word
  secondTval : Word

/-- What the hart reaches over the bus, and the halt a store asks for. -/
structure Devices where
  mem : Memory
  plic : Plic
  virtio : VirtioBlk
  clint : Clint
  console : Console
  input : Input
  frames : Word
  palette : BitVec 8 → Word
  simd : Simd.Device
  gpu : Gpu
  g3d : G3d.Device
  window : Window
  halt : Halt
  doneWord : Word

/-- `machine`. -/
structure Machine where
  cpu : Cpu
  io : Devices

abbrev Machine.hart (m : Machine) : Hart := m.cpu.hart

/-- How a step, or a part of one, does not go on. -/
inductive Exit
  | denied (status : MemAccess)
  | trap (cause tval : Word)
  | abort
  | notReached
  | spins
  deriving DecidableEq

abbrev Exec := EStateM Exit Machine

namespace Devices

/-- Either engine owns the framebuffer while it runs: `engine_busy`. -/
def engineBusy (d : Devices) : Bool := d.gpu.status = .busy || d.g3d.status = .busy

def present (d : Devices) : Devices :=
  { d with frames := d.frames + 1, input := d.input.deliverEvents (d.frames + 1) }

def ramStore (d : Devices) (offset width : Nat) (value : Word) : Option Devices :=
  if d.gpu.toG1.sourceLocked (ramBase + offset) width then none
  else if d.g3d.toG2.zLocked (ramBase + offset) width then none
  else some { d with mem := { d.mem with ram := d.mem.ram.write (ramBase + offset) width value } }

def fbLoad (d : Devices) (offset width : Nat) : Option Word :=
  if d.engineBusy then none else some (d.mem.fb.read offset width)

def fbStore (d : Devices) (offset width : Nat) (value : Word) : Option Devices :=
  if d.engineBusy then none
  else some { d with mem := { d.mem with fb := d.mem.fb.write offset width value } }

/-- `display_store`: any word presents. -/
def displayStore (d : Devices) (offset width : Nat) : Option Devices :=
  if width = 4 ∧ offset = 0 then if d.engineBusy then none else some d.present else none

/-- `gpu_store`: a START while G2 runs is refused. -/
def gpuStore (d : Devices) (offset width : Nat) (value : Word) : Option Devices :=
  if offset = 0 ∧ value = gpuStart ∧ d.g3d.status = .busy then none
  else if width ≠ 4 then none
  else (d.gpu.store offset value).map fun gpu => { d with gpu }

/-- `g3d_mmio_store`. -/
def g3dStore (d : Devices) (offset width : Nat) (value : Word) : Option Devices :=
  if width ≠ 4 then none
  else (d.g3d.store offset value (d.gpu.status = .busy)).map fun g3d => { d with g3d }

/-- `dma_window_load`. -/
def windowLoad (d : Devices) (offset width : Nat) : Option Word :=
  if width ≠ 4 then none
  else if offset = 0 then some d.window.start
  else if offset = 4 then some d.window.stop
  else none

/-- `dma_window_store`. -/
def windowStore (d : Devices) (offset width : Nat) (value : Word) : Option Devices :=
  if width ≠ 4 then none
  else if offset = 0 then some { d with window := { d.window with start := value } }
  else if offset = 4 then some { d with window := { d.window with stop := value } }
  else none

/-- `done_store`: the store still retires, and the run stops after it. -/
def doneStore (d : Devices) (offset width : Nat) (value : Word) : Option Devices :=
  if width = 4 ∧ offset = 0 then some { d with halt := .done, doneWord := value } else none

def paletteLoad (d : Devices) (offset width : Nat) : Option Word :=
  if width ≠ 4 then none else some (d.palette (BitVec.ofNat 8 (offset / 4)))

def paletteStore (d : Devices) (offset width : Nat) (value : Word) : Option Devices :=
  if width ≠ 4 then none
  else some { d with
    palette := Function.update d.palette (BitVec.ofNat 8 (offset / 4)) (value &&& 0x00ffffff) }

/-- `plic_lines`. -/
def lines (d : Devices) : PlicLines := ⟨d.input.count ≠ 0, d.virtio.interrupt⟩

end Devices

inductive Region
  | gpu | dmaWindow | g3d | done | console | clint | plic | virtio | bootrom | input | display
  | palette | framebuffer | simd4 | simd4Program | simd4Data | ram
  deriving DecidableEq

namespace Region

/-- `REGIONS`. -/
def all : List Region :=
  [.gpu, .dmaWindow, .g3d, .done, .console, .clint, .plic, .virtio, .bootrom, .input, .display,
    .palette, .framebuffer, .simd4, .simd4Program, .simd4Data, .ram]

def base : Region → Nat
  | .gpu => 0x11007000
  | .dmaWindow => 0x1100a000
  | .g3d => 0x11008000
  | .done => 0x00100000
  | .console => 0x10000000
  | .clint => 0x02000000
  | .plic => 0x0c000000
  | .virtio => 0x10001000
  | .bootrom => 0x00001000
  | .input => 0x11001000
  | .display => 0x11002000
  | .palette => 0x11003000
  | .framebuffer => fbBase
  | .simd4 => Simd.simdBase
  | .simd4Program => Simd.simdProgram
  | .simd4Data => Simd.simdData
  | .ram => ramBase

def size : Region → Nat
  | .gpu => 128
  | .dmaWindow => 8
  | .g3d => 0x2000
  | .done => 4
  | .console => 8
  | .clint => 0x10000
  | .plic => 0x600000
  | .virtio => 0x200
  | .bootrom => 0x1000
  | .input => 16
  | .display => 16
  | .palette => 0x400
  | .framebuffer => fbSize
  | .simd4 => 32
  | .simd4Program => 1024
  | .simd4Data => 1024
  | .ram => ramSize

/-- The window that holds every byte of an access: `find_region`. -/
def find (address width : Nat) : Option Region :=
  all.find? fun r => r.base ≤ address && address - r.base + width ≤ r.size

/-- The load handlers; `none` is a fault, which leaves the devices alone. -/
def load (host : Host) (steps : BitVec 64) (r : Region) (d : Devices) (offset width : Nat) :
    Option (Word × Devices) :=
  match r with
  | .gpu => (d.gpu.load offset width).map (·, d)
  | .dmaWindow => (d.windowLoad offset width).map (·, d)
  | .g3d => (d.g3d.load offset width).map (·, d)
  | .done => if width = 4 ∧ offset = 0 then some (0, d) else none
  | .console => (d.console.load host offset width).map fun r => (r.1, { d with console := r.2 })
  | .clint => (d.clint.load steps offset width).map (·, d)
  | .plic => (d.plic.load offset width).map fun r => (r.1, { d with plic := r.2 })
  | .virtio => (virtioLoad d.virtio offset width).map (·, d)
  | .bootrom => some (romLoad host offset width, d)
  | .input => (d.input.load offset width).map fun r => (r.1, { d with input := r.2 })
  | .display => (displayLoad d.frames offset width).map (·, d)
  | .palette => (d.paletteLoad offset width).map (·, d)
  | .framebuffer => (d.fbLoad offset width).map (·, d)
  | .simd4 => (d.simd.load (Simd.simdBase + offset) width).map (·, d)
  | .simd4Program => (d.simd.load (Simd.simdProgram + offset) width).map (·, d)
  | .simd4Data => (d.simd.load (Simd.simdData + offset) width).map (·, d)
  | .ram => some (d.mem.ram.read (ramBase + offset) width, d)

def simdStore (d : Devices) (address width : Nat) (value : Word) : Option Devices :=
  (d.simd.store address width value).map fun simd => { d with simd }

/-- `virtio_store`, as the machine sees it. -/
def virtioAccess (fuel : Nat) (d : Devices) (offset width : Nat) (value : Word) :
    Except Exit Devices :=
  match virtioStore fuel ⟨d.mem, d.virtio⟩ offset width value with
  | none => .error .spins
  | some (.ok, s) => .ok { d with mem := s.mem, virtio := s.v }
  | some (status, _) => .error (.denied status)

def granted : Option α → Except Exit α
  | some a => .ok a
  | none => .error (.denied .fault)

/-- The store handlers. The boot ROM and the input device have none. -/
def store (fuel : Nat) (steps : BitVec 64) (r : Region) (d : Devices) (offset width : Nat)
    (value : Word) : Except Exit Devices :=
  match r with
  | .gpu => granted (d.gpuStore offset width value)
  | .dmaWindow => granted (d.windowStore offset width value)
  | .g3d => granted (d.g3dStore offset width value)
  | .done => granted (d.doneStore offset width value)
  | .console => granted ((d.console.store offset width value).map fun console => { d with console })
  | .clint => granted ((d.clint.store steps offset width value).map fun clint => { d with clint })
  | .plic => granted ((d.plic.store offset width value).map fun plic => { d with plic })
  | .virtio => virtioAccess fuel d offset width value
  | .bootrom => .error (.denied .fault)
  | .input => .error (.denied .fault)
  | .display => granted (d.displayStore offset width)
  | .palette => granted (d.paletteStore offset width value)
  | .framebuffer => granted (d.fbStore offset width value)
  | .simd4 => granted (simdStore d (Simd.simdBase + offset) width value)
  | .simd4Program => granted (simdStore d (Simd.simdProgram + offset) width value)
  | .simd4Data => granted (simdStore d (Simd.simdData + offset) width value)
  | .ram => granted (d.ramStore offset width value)

end Region

end TinyProcessors.Emu
