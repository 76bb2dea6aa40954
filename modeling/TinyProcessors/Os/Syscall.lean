import TinyProcessors.Os.Schedule

namespace TinyProcessors

inductive Sys
  | exit | write | read | event | keys | present | sbrk | spawn | wait | list | yield | sleep | halt
  | time | getpid | display | open_ | close | files | ps | switches | seek | palette
  deriving DecidableEq

def Sys.all : List Sys :=
  [.exit, .write, .read, .event, .keys, .present, .sbrk, .spawn, .wait, .list, .yield, .sleep, .halt,
    .time, .getpid, .display, .open_, .close, .files, .ps, .switches, .seek, .palette]

def Sys.ofNumber (number : Word) : Option Sys := Sys.all[number.toNat]?

/-- How a call ends: with a result, with the process finished, or to be run again later. -/
inductive Answer
  | result (r : Word)
  | finished
  | again

/-- `p`'s open file `k`, moved by what a transfer returned. -/
def advance (p : Fin 8) (k : Fin 4) (r : Option Nat) : Kernel Word := do
  match r with
  | none => return sysError
  | some n => do
    modify fun s =>
      let o := (s.procs p).files k
      s.setFile p k { o with position := o.position + BitVec.ofNat 32 n }
    return BitVec.ofNat 32 n

def writeConsole (b : Board) : Nat → Nat → Kernel Unit
  | _, 0 => pure ()
  | address, n + 1 => do
    let c ← loadByte b address
    kputc b c
    writeConsole b (address + 1) n

def sysWrite (b : Board) (p : Fin 8) (a0 a1 a2 : Word) : Kernel Answer := do
  let s ← get
  match s.openFileOf p a0 oWrite, s.userRange p a1 a2 with
  | some k, true => do
    let o := (s.procs p).files k
    let r ← fsCall b fun io => fsWrite io o.file o.position a1.toNat a2
    let r ← advance p k r
    return .result r
  | _, inside =>
    if (a0 = 1 ∨ a0 = 2) ∧ inside then do
      writeConsole b a1.toNat a2.toNat
      return .result a2
    else return .result sysError

/-- The loop of a console read: what waits, up to `n` bytes; how many there were. -/
def readConsole (b : Board) : Nat → (n : Nat) → Kernel Nat
  | _, 0 => return 0
  | address, n + 1 => do
    let ready ← consoleReady b
    if ready then do
      let c ← consoleByte b
      storeByte b address c
      let rest ← readConsole b (address + 1) n
      return rest + 1
    else return 0

def sysRead (b : Board) (p : Fin 8) (a0 a1 a2 : Word) : Kernel Answer := do
  let s ← get
  match s.openFileOf p a0 oRead, s.userRange p a1 a2 with
  | some k, true => do
    let o := (s.procs p).files k
    let r ← fsCall b fun io => fsRead io o.file o.position a1.toNat a2
    let r ← advance p k r
    return .result r
  | _, inside =>
    if a0 = 0 ∧ a2 ≠ 0 ∧ inside then do
      let ready ← consoleReady b
      if ready then do
        let n ← readConsole b a1.toNat a2.toNat
        return .result (BitVec.ofNat 32 n)
      else do
        modify fun s => s.setState p .blockedRead
        return .again
    else return .result sysError

def sysEvent : Kernel Answer := do
  let s ← get
  modifyVars fun v => { v with keys := v.keys.tail }
  return .result (s.vars.keys.headD 0)

def sysKeys (b : Board) : Kernel Answer :=
  if b.input then do
    mmioRead32 b .input 8
    let s ← get
    return .result s.dev.now.keys
  else return .result 0

/-- A present waits, running again, while an engine has the framebuffer. -/
def sysPresent (b : Board) : Kernel Answer :=
  if b.display then do
    let busy ← enginesBusy b
    if busy then return .again
    else do
      mmioWrite32 b .display 0 1
      modifyDev fun d => { d with frames := d.frames + 1, events := d.events ++ d.now.events }
      mmioRead32 b .display 4
      let s ← get
      return .result s.dev.frames
  else return .result sysError

def sysSbrk (p : Fin 8) (a0 : Word) : Kernel Answer := do
  let s ← get
  if a0 ≤ s.guardOf p - (s.procs p).brk then do
    modify fun s => s.setProc p fun q => { q with brk := q.brk + a0 }
    return .result (s.procs p).brk
  else return .result sysError

def sysSpawn (b : Board) (p : Fin 8) (a0 a1 : Word) : Kernel Answer := do
  let name ← userString b p a0 24
  match name with
  | none => return .result sysError
  | some name => do
    let args ← userString b p a1 64
    match args with
    | none => return .result sysError
    | some args => do
      let s ← get
      let child ← spawn b name args (s.procs p).pid
      let s ← get
      match child with
      | none => return .result sysError
      | some i => return .result (s.procs i).pid

/-- The loop of `wait`: finished children of that pid are freed. -/
def sysWait (p : Fin 8) (a0 : Word) : List (Fin 8) → Word → Kernel Answer
  | [], result => return .result result
  | i :: rest, result => do
    let s ← get
    if (s.procs i).state = .free ∨ (s.procs i).pid ≠ a0 ∨ (s.procs i).parent ≠ (s.procs p).pid then
      sysWait p a0 rest result
    else if (s.procs i).state ≠ .zombie then do
      set { s.setProc p (fun q => { q with state := .blockedWait, waitPid := a0 }) with
        waiting := Function.update s.waiting p (some a0) }
      return .again
    else do
      set { s.setState i .free with
        returned := s.returned ++ [(a0, (s.procs i).exitCode)]
        waiting := Function.update s.waiting p none }
      sysWait p a0 rest (s.procs i).exitCode

def sysList (b : Board) (p : Fin 8) (a0 a1 a2 : Word) : Kernel Answer := do
  let count ← programs b
  let s ← get
  let name := (b.program a0.toNat).label
  if a0.toNat < count ∧ s.userRange p a1 a2 ∧ name.length < a2.toNat then do
    storeBytes b a1.toNat (name ++ [0])
    return .result (BitVec.ofNat 32 name.length)
  else return .result sysError

def sysYield (p : Fin 8) : Kernel Answer := do
  modify fun s => s.setState p .ready
  return .result 0

def sysSleep (b : Board) (p : Fin 8) (a0 : Word) : Kernel Answer := do
  let now ← mtime b
  modify fun s => s.setProc p fun q =>
    { q with wake := now + a0.setWidth 64, state := .blockedSleep }
  return .result 0

def sysTime (b : Board) : Kernel Answer := do
  let now ← mtime b
  return .result (now.setWidth 32)

def readPaletteTo (b : Board) (address : Nat) : List (Fin 256) → Kernel Unit
  | [] => pure ()
  | i :: rest => do
    mmioRead32 b .palette (4 * i)
    let s ← get
    storeBytes b (address + 4 * i) ((List.range 4).map (wordByte (s.dev.palette i)))
    readPaletteTo b address rest

def readColours (b : Board) (address : Nat) : Kernel (Fin 256 → Word) := do
  busRange b .load address 1024
  let s ← get
  return fun i => s.io.mem.word (address + 4 * i)

def sysPalette (b : Board) (p : Fin 8) (a0 a1 : Word) : Kernel Answer := do
  let s ← get
  if b.display ∧ a0 &&& 3 = 0 ∧ s.userRange p a0 1024 then
    if a1 = 0 then do
      readPaletteTo b a0.toNat (List.finRange 256)
      return .result 0
    else if a1 = 1 then do
      let colours ← readColours b a0.toNat
      writePalette b colours
      modifyVars fun v => { v with paletteWriter := (s.procs p).pid }
      return .result 0
    else return .result sysError
  else return .result sysError

def ProcState.text : ProcState → String
  | .free => "free"
  | .ready => "ready"
  | .running => "running"
  | .blockedRead => "reading"
  | .blockedWait => "waiting"
  | .blockedSleep => "sleeping"
  | .zombie => "zombie"

/-- The line `ps` shows of a process, in at most 47 characters. -/
def psLine (q : Proc) : List UInt8 :=
  let words := (q.name ++ [32] ++ textBytes q.state.text).take 36
  (words ++ [32] ++ kdecimal q.pid).take 47

def sysPs (b : Board) (p : Fin 8) (a0 a1 a2 : Word) : Kernel Answer := do
  let s ← get
  let q := s.procs (Fin.ofNat 8 a0.toNat)
  if a0.toNat < 8 ∧ q.state ≠ .free ∧ s.userRange p a1 a2 ∧ 48 ≤ a2 then do
    storeBytes b a1.toNat (psLine q ++ [0])
    return .result (BitVec.ofNat 32 (psLine q).length)
  else return .result sysError

/-- The end of `open`: the descriptor, if the file may be opened. -/
def takeFile (p : Fin 8) (k : Fin 4) (mode : Word) (file : Fin 16) : Kernel Answer := do
  let s ← get
  if s.mayOpen file mode then do
    let opened := s.setFile p k ⟨mode, file, 0⟩
    set (if mode = oWrite then { opened with io := fsTruncate opened.io file } else opened)
    return .result (BitVec.ofNat 32 (3 + k.val))
  else return .result sysError

/-- A free descriptor comes first, so that a refused open makes no file. -/
def sysOpen (b : Board) (p : Fin 8) (a0 a1 : Word) : Kernel Answer := do
  let mode := a1 &&& (oRead ||| oWrite)
  if (mode = oRead ∨ mode = oWrite) ∧ a1 &&& ~~~(oRead ||| oWrite ||| oCreate) = 0 then do
    let name ← userString b p a0 20
    match name with
    | none => return .result sysError
    | some name => do
      let s ← get
      match (List.finRange 4).find? fun k => ((s.procs p).files k).mode = 0 with
      | none => return .result sysError
      | some k => do
        let file ← fsCall b fun io => fsOpen io name (a1 &&& oCreate ≠ 0 && mode = oWrite)
        match file with
        | none => return .result sysError
        | some file => takeFile p k mode file
  else return .result sysError

/-- `seek_file`'s new position. -/
def seekTarget (o : OpenFile) (size : Word) (offset : Word) (whence : Word) : Option Int :=
  if whence = 0 then some offset.toInt
  else if whence = 1 then some (offset.toInt + o.position.toNat)
  else if whence = 2 then some (offset.toInt + size.toNat)
  else none

def sysSeek (p : Fin 8) (a0 a1 a2 : Word) : Kernel Answer := do
  let s ← get
  match s.openFileOf p a0 0 with
  | none => return .result sysError
  | some k =>
    let o := (s.procs p).files k
    let size := fsSize s.io o.file
    match seekTarget o size a1 a2 with
    | none => return .result sysError
    | some target =>
      if target < 0 ∨ size.toNat < target then return .result sysError
      else do
        set (s.setFile p k { o with position := BitVec.ofInt 32 target })
        return .result (BitVec.ofInt 32 target)

def sysClose (b : Board) (p : Fin 8) (a0 : Word) : Kernel Answer := do
  let s ← get
  match s.openFileOf p a0 0 with
  | none => return .result sysError
  | some k => do
    let ok ← closeFile b p k
    return .result (if ok then 0 else sysError)

def sysFiles (b : Board) (p : Fin 8) (a0 a1 a2 : Word) : Kernel Answer := do
  let s ← get
  match fsName s.io a0 with
  | none => return .result sysError
  | some (name, size) =>
    let text := cstring (List.ofFn name)
    if s.userRange p a1 a2 ∧ text.length < a2.toNat then do
      storeBytes b a1.toNat (text ++ [0])
      return .result size
    else return .result sysError

/-- The cases of `syscall`. -/
def serve (b : Board) (p : Fin 8) : Kernel Answer := do
  let s ← get
  let a0 := (s.procs p).f.x 10
  let a1 := (s.procs p).f.x 11
  let a2 := (s.procs p).f.x 12
  match Sys.ofNumber ((s.procs p).f.x 17) with
  | some .exit => do
    finish b p a0
    return .finished
  | some .write => sysWrite b p a0 a1 a2
  | some .read => sysRead b p a0 a1 a2
  | some .event => sysEvent
  | some .keys => sysKeys b
  | some .present => sysPresent b
  | some .sbrk => sysSbrk p a0
  | some .spawn => sysSpawn b p a0 a1
  | some .wait => sysWait p a0 (List.finRange 8) sysError
  | some .list => sysList b p a0 a1 a2
  | some .yield => sysYield p
  | some .sleep => sysSleep b p a0
  | some .halt => halt b a0
  | some .time => sysTime b
  | some .getpid => return .result (s.procs p).pid
  | some .display => return .result b.framebuffer
  | some .palette => sysPalette b p a0 a1
  | some .switches => return .result (s.procs p).switches
  | some .ps => sysPs b p a0 a1 a2
  | some .open_ => sysOpen b p a0 a1
  | some .seek => sysSeek p a0 a1 a2
  | some .close => sysClose b p a0
  | some .files => sysFiles b p a0 a1 a2
  | none => return .result sysError

def State.complete (s : State) (p : Fin 8) (r : Word) : State :=
  { s.setProc p (fun q => { q with
      f := { q.f with x := Function.update q.f.x 10 r, pc := q.f.pc + 4 } }) with
    waiting := Function.update s.waiting p none }

/-- `syscall`, and the step past its ecall when the call is over. -/
def syscall (b : Board) (p : Fin 8) : Kernel Unit := do
  let reply ← serve b p
  match reply with
  | .again => pure ()
  | .finished => modify fun s => s.setProc p fun q => { q with f := { q.f with pc := q.f.pc + 4 } }
  | .result r => modify fun s => s.complete p r

end TinyProcessors
