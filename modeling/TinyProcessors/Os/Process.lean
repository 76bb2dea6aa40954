import TinyProcessors.Os.Paging

namespace TinyProcessors

/-- Whether [address, address + len) lies in `p`'s slots and off its stack's guard page. -/
def State.userRange (s : State) (p : Fin 8) (address len : Word) : Bool :=
  (s.procs p).base ≤ address && len ≤ (s.procs p).span &&
    address - (s.procs p).base ≤ (s.procs p).span - len &&
    !(len ≠ 0 && address < s.guardOf p + 0x1000 && s.guardOf p < address + len)

/-- A NUL-terminated user string of at most `max` bytes, without its NUL. -/
def userString (b : Board) (p : Fin 8) : Word → (max : Nat) → Kernel (Option (List UInt8))
  | _, 0 => return none
  | address, max + 1 => do
    let s ← get
    if s.userRange p address 1 then do
      let c ← loadByte b address.toNat
      if c = 0 then return some []
      else do
        let rest ← userString b p (address + 1) max
        return rest.map (c :: ·)
    else return none

def Board.ramdiskOk (b : Board) : Bool :=
  16 ≤ b.ramdiskSize && b.ramdisk.word 0 = 0x4b534452 && b.ramdisk.word 8 = 0 &&
    b.ramdisk.word 12 = 0

/-- `programs`: how many entries the RAM disk's table has. -/
def programs (b : Board) : Kernel Nat :=
  if b.ramdiskOk then pure (b.ramdisk.word 4).toNat else panic b "no RAM disk"

def Board.program (b : Board) (i : Nat) : Program := Program.decode b.ramdisk (16 + 56 * i)

def entryOk (e : Program) (size : Word) : Bool :=
  !(e.name 23 ≠ 0 || e.flags &&& ~~~programAccelerators ≠ 0 || e.offset > size ||
    e.fileSize > size - e.offset || e.fileSize > e.memorySize || e.span = 0 ||
    e.span % 0x20000 ≠ 0 || e.span > 0xf00000 || e.load < 0x80100000 ||
    (e.load - 0x80100000) % 0x20000 ≠ 0 || e.load > 0x81000000 - e.span || e.stack % 4096 ≠ 0 ||
    e.stack < 8192 || e.stack ≥ e.span || e.memorySize > e.span - e.stack ||
    e.entry < e.load || e.entry - e.load ≥ e.fileSize)

/-- The loop of `check_programs`. -/
def checkEntries (b : Board) : List Nat → Kernel Unit
  | [] => pure ()
  | i :: rest => do
    if entryOk (b.program i) b.ramdiskSize then checkEntries b rest
    else do
      kputs b "kernel: RAM disk entry "
      kputdec b (BitVec.ofNat 32 i)
      kputs b "\n"
      panic b "bad RAM disk entry"

def checkPrograms (b : Board) : Kernel Unit := do
  let count ← programs b
  if count > (b.ramdiskSize.toNat - 16) / 56 then panic b "RAM disk table larger than the disk"
  else checkEntries b (List.range count)

def programNamed (b : Board) (name : List UInt8) : Kernel (Option Program) := do
  let count ← programs b
  return ((List.range count).map b.program).find? fun e => e.label = name

/-- Whether file `file` may be opened in `mode`. -/
def State.mayOpen (s : State) (file : Fin 16) (mode : Word) : Bool :=
  (List.finRange 8).all fun i => (s.procs i).state = .free || (List.finRange 4).all fun k =>
    !(((s.procs i).files k).mode ≠ 0 && ((s.procs i).files k).file = file &&
      (mode = oWrite || ((s.procs i).files k).mode = oWrite))

def refuseDiskProgram (b : Board) (name : List UInt8) (why : String) : Kernel (Option α) := do
  kputs b "kernel: "
  kputBytes b name
  kputs b ": "
  kputs b why
  kputs b "\n"
  return none

def diskProgram (b : Board) (name : List UInt8) : Kernel (Option (Fin 16 × Program)) := do
  match ← fsCall b fun io => fsOpen io name false with
  | none => return none
  | some file => do
    let s ← get
    if !s.mayOpen file oRead then refuseDiskProgram b name "being written"
    else do
      let size := fsSize s.io file
      let r ← fsCall b fun io => fsRead io file 0 b.header 16
      let s ← get
      let word := fun k => s.io.mem.word (b.header + k)
      if r ≠ some 16 || word 0 ≠ 0x4b534452 || word 4 ≠ 1 || word 8 ≠ 0 || word 12 ≠ 0 then
        refuseDiskProgram b name "not a program"
      else do
        let r ← fsCall b fun io => fsRead io file 16 b.onDisk 56
        let s ← get
        let e := Program.decode s.io.mem b.onDisk
        if r ≠ some 56 then refuseDiskProgram b name "not a program"
        else if !entryOk e size then
          refuseDiskProgram b name "a program that breaks the slot rules"
        else if e.label ≠ name then refuseDiskProgram b name "a program filed under another name"
        else if e.flags ≠ 0 then
          refuseDiskProgram b name "a program on the disk may not drive the accelerators"
        else return some (file, e)

def State.overlaps (s : State) (program : Program) : Bool :=
  (List.finRange 8).any fun i => (s.procs i).alive &&
    (s.procs i).base < program.load + program.span &&
    program.load < (s.procs i).base + (s.procs i).span

def State.freeEntry (s : State) : Option (Fin 8) :=
  (List.finRange 8).find? fun i => (s.procs i).state = .free

/-- A program's image; false when it could not be read. -/
def loadImage (b : Board) (program : Program) : Option (Fin 16) → Kernel Bool
  | none => do
    storeBytes b program.load.toNat (b.ramdisk.slice program.offset.toNat program.fileSize.toNat)
    return true
  | some file => do
    let r ← fsCall b fun io => fsRead io file program.offset program.load.toNat program.fileSize
    return r = some program.fileSize.toNat

def Program.proc (e : Program) (pid parent : Word) : Proc :=
  let top := e.load + e.span
  { Proc.zero with
    f := {
      x := fun k => if k = 2 then (top - 64 - 16) &&& ~~~15 else if k = 10 then top - 64 else 0
      pc := e.entry
      mstatus := mstatusMpie }
    state := .ready
    pid
    parent
    base := e.load
    span := e.span
    brk := (e.load + e.memorySize + 15) &&& ~~~15
    flags := e.flags
    name := e.label.take 23 }

/-- The end of `spawn`: the process takes its entry. -/
def State.start (s : State) (i : Fin 8) (e : Program) (parent : Word) (space : Space)
    (tables : Nat → Word) : State :=
  { s with
    procs := Function.update s.procs i (e.proc s.nextPid parent)
    spaces := Function.update s.spaces i { space with fp := FState.zero }
    tables
    nextPid := s.nextPid + 1
    image := Function.update s.image i e
    waiting := Function.update s.waiting i none
    spawned := s.spawned + 1
    born := Function.update s.born i (s.spawned + 1) }

/-- The last part of `spawn`: the image, zeros, the arguments, the process. -/
def startProgram (b : Board) (i : Fin 8) (e : Program) (file : Option (Fin 16))
    (args : List UInt8) (parent : Word) : Kernel (Option (Fin 8)) := do
  let loaded ← loadImage b e file
  if loaded then do
    storeBytes b (e.load + e.fileSize).toNat
      (List.replicate (e.memorySize - e.fileSize).toNat 0)
    storeBytes b (e.load + e.span - 64).toNat (args.take 63 ++ [0])
    let s ← get
    match mapProcess b i e (s.spaces i) s.tables with
    | .error why => panic b why
    | .ok (space, tables) => do
      set (s.start i e parent space tables)
      return some i
  else return none

/-- `spawn` once the program is known. -/
def place (b : Board) (e : Program) (file : Option (Fin 16)) (args : List UInt8) (parent : Word) :
    Kernel (Option (Fin 8)) := do
  let s ← get
  if s.overlaps e then return none
  else match s.freeEntry with
    | none => return none
    | some i => startProgram b i e file args parent

def spawn (b : Board) (name args : List UInt8) (parent : Word) : Kernel (Option (Fin 8)) := do
  match ← programNamed b name with
  | some e => place b e none args parent
  | none => do
    match ← diskProgram b name with
    | none => return none
    | some (file, e) => place b e (some file) args parent

/-- Descriptor `fd` of `p` when it is open in `mode` (0: either). -/
def State.openFileOf (s : State) (p : Fin 8) (fd mode : Word) : Option (Fin 4) :=
  if fd < 3 || 7 ≤ fd then none
  else
    let k := Fin.ofNat 4 (fd.toNat - 3)
    let o := (s.procs p).files k
    if o.mode = 0 || (mode ≠ 0 && o.mode ≠ mode) then none else some k

/-- `close_file`: false when the directory could not be written. -/
def closeFile (b : Board) (p : Fin 8) (k : Fin 4) : Kernel Bool := do
  let s ← get
  let o := (s.procs p).files k
  set (s.setFile p k { o with mode := 0 })
  if o.mode = oWrite then fsCall b fsFlush else return true

def resetG1 (b : Board) : Kernel Unit := do
  mmioRead32 b .g1 4
  let s ← get
  when s.dev.g1.busy do
    mmioWrite32 b .g1 0 gpuReset
    modifyDev fun d => { d with g1 := { G1.reset with commandTick := true } }

def resetG2 (b : Board) : Kernel Unit := do
  mmioRead32 b .g2 4
  let s ← get
  when s.dev.g2.busy do
    mmioWrite32 b .g2 0 2
    modifyDev fun d => { d with g2 := { G2.reset with commandTick := true } }

/-- Stop any job still running unless another program that drives the engines lives. -/
def stopOrphanedEngines (b : Board) (p : Fin 8) : Kernel Unit := do
  let s ← get
  when ((s.procs p).drives && !(List.finRange 8).any fun i =>
      i ≠ p && (s.procs i).alive && (s.procs i).drives) do
    when b.gpu (resetG1 b)
    when b.g3d (resetG2 b)

/-- The 256 stores of `write_palette`; a stored word keeps its low 24 bits. -/
def writePaletteFrom (b : Board) (colours : Fin 256 → Word) : List (Fin 256) → Kernel Unit
  | [] => pure ()
  | i :: rest => do
    mmioWrite32 b .palette (4 * i) (colours i)
    modifyDev fun d => { d with palette := Function.update d.palette i (colours i &&& 0xffffff) }
    writePaletteFrom b colours rest

def writePalette (b : Board) (colours : Fin 256 → Word) : Kernel Unit :=
  writePaletteFrom b colours (List.finRange 256)

/-- The boot colours again, when the process that finishes wrote the palette last. -/
def restorePalette (b : Board) (p : Fin 8) : Kernel Unit := do
  let s ← get
  when (s.vars.paletteWriter = (s.procs p).pid) do
    writePalette b b.bootPalette
    modifyVars fun v => { v with paletteWriter := 0 }

def closeAll (b : Board) (p : Fin 8) : List (Fin 4) → Kernel Unit
  | [] => pure ()
  | k :: rest => do
    let s ← get
    let ok ← closeFile b p k
    when (!ok) do
      kputs b "kernel: pid "
      kputdec b (s.procs p).pid
      kputs b ": a file's size could not be written\n"
    closeAll b p rest

def foldName (name : List UInt8) : Word :=
  name.foldl (fun h c => (h ^^^ BitVec.ofNat 32 c.toNat) * 16777619) 2166136261

/-- The process table once `p`'s finished children are freed. -/
def State.reapChildren (s : State) (p : Fin 8) : State :=
  { s with procs := fun i =>
      if (s.procs i).state = .zombie ∧ (s.procs i).parent = (s.procs p).pid then
        { s.procs i with state := .free }
      else s.procs i }

/-- The alive process `p`'s parent, the last one in the table. -/
def State.parentOf (s : State) (p : Fin 8) : Option (Fin 8) :=
  (List.finRange 8).reverse.find? fun i => (s.procs i).alive && (s.procs i).pid = (s.procs p).parent

/-- The floating state of a process that ends goes with it, unsaved. -/
def State.release (s : State) (p : Fin 8) : State :=
  { s with fpuOwner := if s.fpuOwner = some p then none else s.fpuOwner }

/-- What `finish` leaves of `p` when it has a parent. -/
def State.bury (s : State) (p parent : Fin 8) : State :=
  let s := (s.release p).setState p .zombie
  if (s.procs parent).state = .blockedWait ∧ (s.procs parent).waitPid = (s.procs p).pid then
    s.setState parent .ready
  else s

-- `fpu_owner` is let go in the last step: nothing `finish` does before it looks at the owner
def finish (b : Board) (p : Fin 8) (code : Word) : Kernel Unit := do
  stopOrphanedEngines b p
  restorePalette b p
  closeAll b p (List.finRange 4)
  modify fun s => { (s.reapChildren p).setProc p (fun q => { q with exitCode := code }) with
    waiting := Function.update s.waiting p none }
  let s ← get
  modifyVars fun v => { v with
    exits := v.exits + 1
    exitSum := v.exitSum + (foldName (s.procs p).name ^^^ code) }
  match s.parentOf p with
  | none =>
    if (s.procs p).pid = 1 then halt b code
    else modify fun s => (s.release p).setState p .free
  | some parent => modify fun s => s.bury p parent

end TinyProcessors
