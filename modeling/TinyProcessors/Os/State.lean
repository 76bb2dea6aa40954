import TinyProcessors.Emu.Floating
import TinyProcessors.Emu.Engines
import TinyProcessors.Fs.Tfs

namespace TinyProcessors

abbrev slotBase : Nat := 0x80100000
abbrev slotSize : Nat := 0x20000
abbrev slotCount : Nat := 120
abbrev slotsEnd : Nat := 0x81000000
abbrev sysError : Word := 0xffffffff
abbrev oRead : Word := 1
abbrev oWrite : Word := 2
abbrev oCreate : Word := 4
/-- `PROGRAM_ACCELERATORS`: a program that drives SIMD4, G1 and G2 itself. -/
abbrev programAccelerators : Word := 1

/-- A context: `struct frame`. -/
structure Frame where
  x : Fin 32 → Word
  pc : Word
  mstatus : Word

/-- An open file of a process; `mode` is 0 for a closed one, `oRead` or `oWrite`. -/
structure OpenFile where
  mode : Word
  file : Fin 16
  position : Word

inductive ProcState
  | free
  | ready
  | running
  | blockedRead
  | blockedWait
  | blockedSleep
  | zombie
  deriving DecidableEq

/-- `struct proc`; `name` is the C string its 24 characters hold. -/
structure Proc where
  f : Frame
  files : Fin 4 → OpenFile
  state : ProcState
  pid : Word
  parent : Word
  base : Word
  span : Word
  brk : Word
  exitCode : Word
  waitPid : Word
  flags : Word
  switches : Word
  wake : BitVec 64
  name : List UInt8

def Proc.zero : Proc where
  f := ⟨fun _ => 0, 0, 0⟩
  files := fun _ => ⟨0, 0, 0⟩
  state := .free
  pid := 0
  parent := 0
  base := 0
  span := 0
  brk := 0
  exitCode := 0
  waitPid := 0
  flags := 0
  switches := 0
  wake := 0
  name := []

def Proc.alive (p : Proc) : Bool := p.state ≠ .free && p.state ≠ .zombie

def Proc.drives (p : Proc) : Bool := p.flags &&& programAccelerators ≠ 0

/-- A RAM disk entry: `struct program`, 56 bytes. -/
structure Program where
  name : Fin 24 → UInt8
  load : Word
  entry : Word
  fileSize : Word
  memorySize : Word
  offset : Word
  flags : Word
  span : Word
  stack : Word
  deriving Inhabited

def Program.decode (b : Bytes) (at_ : Nat) : Program where
  name := fun k => b (at_ + k)
  load := b.word (at_ + 24)
  entry := b.word (at_ + 28)
  fileSize := b.word (at_ + 32)
  memorySize := b.word (at_ + 36)
  offset := b.word (at_ + 40)
  flags := b.word (at_ + 44)
  span := b.word (at_ + 48)
  stack := b.word (at_ + 52)

def Program.label (e : Program) : List UInt8 := cstring (List.ofFn e.name)

/-- `struct address_space`: what the page tables map, and the saved floating state. -/
structure Space where
  tables : Nat
  base : Word
  span : Word
  guard : Word
  drivesEngines : Bool
  fp : FState

inductive Device
  | ram
  | console
  | clint
  | plic
  | virtio
  | input
  | display
  | palette
  | g1
  | g2
  | dmaWindow
  | done
  deriving DecidableEq

/-- A load or store of the kernel; `offset` is from its window's base. -/
structure Access where
  device : Device
  offset : Nat
  width : Nat
  kind : Kind
  value : Word
  deriving DecidableEq

/-- Inside the first MiB of RAM, where the kernel is linked. -/
def Placed (start size : Nat) : Prop := ramStart ≤ start ∧ start + size ≤ slotBase

/-- What `discover` finds, what the linker places, and the hart's arithmetic. -/
structure Board where
  base : Device → Word
  display : Bool
  framebuffer : Word
  framebufferSize : Word
  bootPalette : Fin 256 → Word
  input : Bool
  inputSource : Word
  gpu : Bool
  g3d : Bool
  dmaWindow : Bool
  disk : Bool
  engineWindows : List (Word × Word)
  tick : BitVec 64
  pageTables : Word
  header : Nat
  onDisk : Nat
  idlePc : Word
  idleStack : Word
  ramdisk : Bytes
  ramdiskSize : Word
  fpUnit : FpUnit
  /-- One of the 32 sources of the PLIC. -/
  inputSource_lt : inputSource.toNat < 32
  header_placed : Placed header 16
  onDisk_placed : Placed onDisk 56
  pageTables_placed : Placed pageTables.toNat (8 * 7 * 4096)
  pageTables_aligned : pageTables.toNat % 4096 = 0

/-- The region PMP grants a program that drives the engines. -/
def Board.accelerators (b : Board) : Word × Word :=
  b.engineWindows.foldl (fun r w =>
    (if r.2 = 0 ∨ w.1 < r.1 then w.1 else r.1, if w.1 + w.2 > r.2 then w.1 + w.2 else r.2)) (0, 0)

/-- What the world does by the time of one access. -/
structure Beat where
  received : List UInt8
  events : List Word
  time : BitVec 64
  claim : Word
  keys : Word
  g1Ends : Bool
  g2Ends : Bool
  depth : Nat → Option UInt8

/-- The devices and the world's part; `log` records the kernel's accesses. -/
structure Devices where
  sent : List UInt8
  received : List UInt8
  events : List Word
  palette : Fin 256 → Word
  frames : Word
  mtimecmp : BitVec 64
  g1 : G1
  g2 : G2
  window : Window
  doneWord : Option Word
  beat : Nat
  world : Nat → Beat
  log : List Access

/-- The kernel's variables that only its own service of a device uses. -/
structure Vars where
  keys : List Word
  keysDropped : Word
  exits : Word
  exitSum : Word
  paletteWriter : Word
  enginesUsed : Bool
  reported : Bool

/-- The machine and the kernel's variables; the last five fields are for the proofs. -/
structure State where
  procs : Fin 8 → Proc
  spaces : Fin 8 → Space
  tables : Nat → Word
  current : Option (Fin 8)
  fpuOwner : Option (Fin 8)
  idleFrame : Frame
  nextPid : Word
  protectedPid : Word
  io : Io
  hart : Hart
  vars : Vars
  dev : Devices
  image : Fin 8 → Program
  waiting : Fin 8 → Option Word
  returned : List (Word × Word)
  spawned : Nat
  born : Fin 8 → Nat

def State.setProc (s : State) (i : Fin 8) (f : Proc → Proc) : State :=
  { s with procs := Function.update s.procs i (f (s.procs i)) }

def State.setState (s : State) (i : Fin 8) (st : ProcState) : State :=
  s.setProc i fun p => { p with state := st }

def State.setFile (s : State) (i : Fin 8) (k : Fin 4) (o : OpenFile) : State :=
  s.setProc i fun p => { p with files := Function.update p.files k o }

theorem State.setProc_self (s : State) (i : Fin 8) (f : Proc → Proc) :
    (s.setProc i f).procs i = f (s.procs i) := Function.update_self _ _ _

theorem State.setProc_of_ne (s : State) (f : Proc → Proc) (h : j ≠ i) :
    (s.setProc i f).procs j = s.procs j := Function.update_of_ne h _ _

def State.guardOf (s : State) (p : Fin 8) : Word := (s.spaces p).guard

/-- The page tables of all the process table entries: `PAGE_TABLES` pages each. -/
def Board.tablesEnd (b : Board) : Nat := b.pageTables.toNat + 8 * 7 * 4096

/-- The RAM's word at an address, as the page-table walker reads it. -/
def State.ram (b : Board) (s : State) (address : Nat) : Word :=
  if b.pageTables.toNat ≤ address ∧ address < b.tablesEnd then s.tables address
  else s.io.mem.word address

inductive Stop
  | halt (code : Word)
  | panic (why : String)
  | fault (a : Access)
  deriving DecidableEq

abbrev Kernel := EStateM Stop State

end TinyProcessors
