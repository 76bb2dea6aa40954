import TinyProcessors.Os.Trap

namespace TinyProcessors

/-- The register accesses of `virtio_init`, and the capacity. -/
def virtioAccesses : List (Kind × Nat × Word) :=
  [(.load, 0x0, 0), (.load, 0x4, 0), (.load, 0x8, 0), (.store, 0x70, 0), (.store, 0x70, 1),
    (.store, 0x70, 3), (.store, 0x14, 1), (.load, 0x10, 0), (.store, 0x24, 1), (.store, 0x20, 1),
    (.store, 0x24, 0), (.store, 0x20, 0), (.store, 0x70, 11), (.load, 0x70, 0), (.store, 0x30, 0),
    (.load, 0x44, 0), (.load, 0x34, 0), (.store, 0x38, 8), (.store, 0x80, 0), (.store, 0x84, 0),
    (.store, 0x90, 0), (.store, 0x94, 0), (.store, 0xa0, 0), (.store, 0xa4, 0), (.store, 0x44, 1),
    (.store, 0x70, 15), (.load, 0x100, 0)]

def busAll (b : Board) (device : Device) : List (Kind × Nat × Word) → Kernel Unit
  | [] => pure ()
  | (kind, offset, value) :: rest => do
    bus b ⟨device, offset, 4, kind, value⟩
    busAll b device rest

def virtioInit (b : Board) : Kernel Word := do
  busAll b .virtio virtioAccesses
  let s ← get
  return s.io.disk.capacity

def reportMount (b : Board) (sectors : Word) (mounted : Bool) : Kernel Unit := do
  let s ← get
  kputs b "kernel: disk "
  kputdec b sectors
  kputs b (if mounted then " sectors, tfs\n" else " sectors, no file system\n")
  when (mounted ∧ fsCorrupt s.io ≠ 0) do
    kputs b "kernel: tfs: "
    kputdec b (BitVec.ofNat 32 (fsCorrupt s.io))
    kputs b " corrupt directory entries set aside\n"

def mountDisk (b : Board) : Kernel Unit := do
  let sectors ← virtioInit b
  if sectors = 0 then reportMount b sectors false
  else do
    let mounted ← fsCall b fun io => fsMount io sectors
    reportMount b sectors mounted

def checkBudget (b : Board) : Kernel Unit :=
  match checkPageTableBudget b with
  | .error why => panic b why
  | .ok _ => pure ()

def startInput (b : Board) : Kernel Unit := do
  mmioWrite32 b .plic (4 * b.inputSource.toNat) 1
  mmioWrite32 b .plic 0x2000 (1 <<< b.inputSource.toNat)
  mmioWrite32 b .plic 0x200000 0

def spawnShell (b : Board) : Kernel Unit := do
  let shell ← spawn b (textBytes "sh") [] 0
  match shell with
  | none => panic b "no shell"
  | some _ => pure ()

/-- `kernel_main` once the tree has been read, up to its `kernel_resume`. -/
def kernelMain (b : Board) : Kernel Unit := do
  checkPrograms b
  checkBudget b
  when b.disk (mountDisk b)
  when b.input (startInput b)
  let now ← mtime b
  setTimer b (now + b.tick)
  modify fun s => { s with
    idleFrame := ⟨fun k => if k = 2 then b.idleStack else 0, b.idlePc, mstatusMppM ||| mstatusMpie⟩ }
  spawnShell b
  schedule b

/-- What a machine starts from. -/
structure Machine where
  image : Bytes
  size : Word
  outcome : Nat → Outcome
  mem : Bytes
  tables : Nat → Word
  world : Nat → Beat

def Hart.reset : Hart where
  x := fun _ => 0
  pc := 0x80000000
  fp := FState.zero
  mstatus := mstatusFs
  mpp := .user
  priv := .machine
  mepc := 0
  satp := 0
  pmpcfg := fun _ => 0
  pmpaddr := fun _ => 0

def State.reset (b : Board) (m : Machine) : State where
  procs := fun _ => Proc.zero
  spaces := fun _ => ⟨0, 0, 0, 0, false, FState.zero⟩
  tables := m.tables
  current := none
  fpuOwner := none
  idleFrame := ⟨fun _ => 0, 0, 0⟩
  nextPid := 1
  protectedPid := 0
  io := {
    fs := Fs.boot
    disk := ⟨m.image, m.size, m.outcome, 0, none⟩
    mem := m.mem
    loads := []
    stores := [] }
  hart := Hart.reset
  vars := ⟨[], 0, 0, 0, 0, false, false⟩
  dev := {
    sent := []
    received := []
    events := []
    palette := b.bootPalette
    frames := 0
    mtimecmp := 0
    g1 := G1.reset
    g2 := G2.reset
    window := ⟨0x80000000, 0x81000000⟩
    doneWord := none
    beat := 0
    world := m.world
    log := [] }
  image := fun _ => Program.decode (fun _ => 0) 0
  waiting := fun _ => none
  returned := []
  spawned := 0
  born := fun _ => 0

def State.drawn (s : State) (address : Nat) (old : UInt8) : UInt8 :=
  if s.dev.g2.busy && !s.dev.g2.validating && s.dev.g2.zLocked address 1 then
    (s.dev.now.depth address).getD old
  else old

/-- The device time of an instruction outside the kernel: events arrive, and G2 draws. -/
def State.elapse (s : State) : State :=
  { s with
    dev := { s.dev.tick with events := s.dev.events ++ s.dev.now.events }
    io := { s.io with mem := fun a => s.drawn a (s.io.mem a) }
    tables := fun a => Bytes.word (fun k => s.drawn (a + k) (wordByte (s.tables a) k)) 0 }

def State.storeRam (b : Board) (s : State) (address width : Nat) (value : Word) : State :=
  if b.pageTables.toNat ≤ address ∧ address < b.tablesEnd then
    let word := address / 4 * 4
    let bytes := Bytes.overwrite (wordByte (s.tables word)) (address % 4) width (wordByte value)
    { s with tables := Function.update s.tables word (bytes.word 0) }
  else { s with io := { s.io with mem := s.io.mem.overwrite address width (wordByte value) } }

/-- What the bus makes of a store to a physical address; `none` when it is refused. -/
def State.busStore (b : Board) (s : State) (address width : Nat) (value : Word) : Option State :=
  let g1 := (b.base .g1).toNat
  let g2 := (b.base .g2).toNat
  if inRam address width then
    if s.dev.locked address width then none else some (s.storeRam b address width value)
  else if b.gpu ∧ g1 ≤ address ∧ address < g1 + 128 then
    if width ≠ 4 ∨ (address = g1 ∧ value = gpuStart ∧ s.dev.g2.busy) then none
    else (s.dev.g1.store (address - g1) value).map fun g => { s with dev := { s.dev with g1 := g } }
  else if b.g3d ∧ g2 ≤ address ∧ address < g2 + 0x2000 then
    if width ≠ 4 then none
    else (s.dev.g2.store (address - g2) value s.dev.g1.busy).map fun g =>
      { s with dev := { s.dev with g2 := g } }
  else some s

/-- A store of the running process; `none` when it would trap. -/
def State.userStore (b : Board) (s : State) (va : Word) (width : Nat) (value : Word) :
    Option State :=
  if va.toNat % width ≠ 0 then none
  else match passes (s.ram b) s.hart va .store .user with
    | none => none
    | some address => s.busStore b address.toNat width value

def immS (word : Word) : Word :=
  (BitVec.ofNat 12 (field word 25 7 * 32 + field word 7 5)).signExtend 32

/-- A floating instruction that retires; `none` when it would trap. -/
def State.float (b : Board) (s : State) (word loaded : Word) : Option State :=
  if s.hart.mstatus &&& mstatusFs = 0 ∨ !floatingInstruction word then none
  else
    let a := s.hart.x (Fin.ofNat 32 (field word 15 5))
    match executeFloating b.fpUnit s.hart.fp word a loaded with
    | none => none
    | some r =>
      let stored := match r.stored with
        | none => some s
        | some value => s.userStore b (a + immS word) 4 value
      stored.map fun s =>
        let rd := Fin.ofNat 32 (field word 7 5)
        { s with hart := { s.hart with
            fp := r.fp
            mstatus := if r.dirty then s.hart.mstatus ||| mstatusFs else s.hart.mstatus
            x := match r.rd with
              | some value => if rd = 0 then s.hart.x else Function.update s.hart.x rd value
              | none => s.hart.x } }

/-- What the running context does next. -/
inductive Event
  | compute (x : Fin 32 → Word) (pc : Word)
  | store (va : Word) (width : Nat) (value : Word)
  | float (word loaded : Word)
  | trap (cause tval : Word)

/-- A process that has gone on is no longer in the call it was to run again. -/
def State.goOn (s : State) (i : Fin 8) (pc : Word) : State :=
  { s with
    hart := { s.hart with pc := pc &&& ~~~3 }
    waiting := Function.update s.waiting i none }

def State.execute (b : Board) (s : State) (i : Fin 8) : Event → State
  | .compute x pc =>
    ({ s with hart := { s.hart with x := Function.update x 0 0 } }.goOn i pc).elapse
  | .store va width value =>
    if width = 1 ∨ width = 2 ∨ width = 4 then
      match s.userStore b va width value with
      | none => s
      | some s' => (s'.goOn i (s.hart.pc + 4)).elapse
    else s
  | .float word loaded =>
    match s.float b word loaded with
    | none => s
    | some s' => (s'.goOn i (s.hart.pc + 4)).elapse
  | .trap _ _ => s

def trap (b : Board) (cause tval : Word) : Kernel Unit := do
  modify State.enter
  kernelTrap b cause tval
  modify State.resume

/-- One step of the machine, with the whole of the kernel's work if it traps. -/
def step (b : Board) (e : Event) : Kernel Unit := do
  let s ← get
  match e, s.current with
  | .trap cause tval, some _ => trap b cause tval
  | .trap cause tval, none =>
    if cause &&& 0x80000000 ≠ 0 then trap b cause tval else set s.elapse
  | e, some i => set (s.execute b i e)
  | _, none => set s.elapse

def run (b : Board) : List Event → Kernel Unit
  | [] => pure ()
  | e :: rest => do
    step b e
    run b rest

def session (b : Board) (events : List Event) : Kernel Unit := do
  kernelMain b
  modify State.resume
  run b events

/-- `s` is a state between two steps of the machine after `events`. -/
def Reached (b : Board) (m : Machine) (events : List Event) (s : State) : Prop :=
  session b events (State.reset b m) = .ok () s

/-- The machine stops in the last of `events`. -/
def Stopped (b : Board) (m : Machine) (events : List Event) (stop : Stop) (s : State) : Prop :=
  session b events (State.reset b m) = .error stop s

end TinyProcessors
