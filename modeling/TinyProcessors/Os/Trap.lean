import TinyProcessors.Os.Syscall

namespace TinyProcessors

/-- Where a process was when it was killed, relative to its code. -/
def putPlace (b : Board) (p : Fin 8) : Kernel Unit := do
  let s ← get
  if s.userRange p (s.procs p).f.pc 4 then do
    kputBytes b (s.procs p).name
    kputs b "+0x"
    kputhexShort b ((s.procs p).f.pc - (s.procs p).base)
  else kputhex b (s.procs p).f.pc

def kill (b : Board) (p : Fin 8) (cause tval : Word) : Kernel Unit := do
  let s ← get
  kputs b "kernel: pid "
  kputdec b (s.procs p).pid
  kputs b " "
  kputBytes b (s.procs p).name
  kputs b " killed: cause "
  kputdec b cause
  kputs b " at "
  putPlace b p
  kputs b " tval "
  kputhex b tval
  when ((cause = 13 ∨ cause = 15) ∧ tval - s.guardOf p < 0x1000) (kputs b " (stack overflow)")
  kputs b "\n"
  finish b p (128 + cause)

def reportDiskFailure (b : Board) : Kernel Unit := do
  let s ← get
  match s.io.disk.failure with
  | none => pure ()
  | some failure => when (!s.vars.reported) do
    modifyVars fun v => { v with reported := true }
    kputs b "kernel: disk disabled: "
    kputs b failure.why
    kputs b "\n"

/-- `mstatus.FS` set, for the F instructions of `fpu_save` and `fpu_load`. -/
def State.fsOn (s : State) : State :=
  { s with hart := s.hart.writeMstatus (s.hart.mstatusValue ||| mstatusFs) }

def State.fpuSave (s : State) (i : Fin 8) : State :=
  let s := s.fsOn
  { s with spaces := Function.update s.spaces i { s.spaces i with fp := s.hart.fp } }

def State.fpuLoad (s : State) (i : Fin 8) : State :=
  let s := s.fsOn
  { s with hart := { s.hart with fp := (s.spaces i).fp } }

/-- The owner gives the FPU up, saved if FS says Dirty. -/
def State.giveUp (s : State) : State :=
  match s.fpuOwner with
  | none => s
  | some o =>
    let saved := if (s.procs o).f.mstatus &&& mstatusFs = mstatusFs then s.fpuSave o else s
    saved.setProc o fun q => { q with f := { q.f with mstatus := q.f.mstatus &&& ~~~mstatusFs } }

/-- The FPU handed to `p`, whose state is loaded, with FS Clean. -/
def State.claim (s : State) (p : Fin 8) : State :=
  { (s.giveUp.fpuLoad p).setProc p (fun q => { q with
      f := { q.f with mstatus := q.f.mstatus ||| mstatusFsClean } }) with
    fpuOwner := some p }

/-- A process other than `p` with FS on. -/
def State.secondFs (s : State) (p : Fin 8) : Bool :=
  (List.finRange 8).any fun i => (s.procs i).alive && i ≠ p && (s.procs i).f.mstatus &&& mstatusFs ≠ 0

/-- The lazy switch; false for an illegal instruction that is not this case. -/
def claimFpu (b : Board) (p : Fin 8) (word : Word) : Kernel Bool := do
  let s ← get
  if (s.procs p).f.mstatus &&& mstatusFs ≠ 0 ∨ !floatingInstruction word then return false
  else do
    modify fun s => s.claim p
    let s ← get
    if s.secondFs p then panic b "fpu: a second process with FS on" else return true

/-- The instruction a trap names: `tval`, else the one where the process was. -/
def trappedInstruction (b : Board) (p : Fin 8) (tval : Word) : Kernel Word := do
  let s ← get
  if tval ≠ 0 ∨ !s.userRange p (s.procs p).f.pc 4 then return tval
  else do
    bus b ⟨.ram, (s.procs p).f.pc.toNat, 4, .load, 0⟩
    let s ← get
    return s.io.mem.word (s.procs p).f.pc.toNat

/-- Round robin: the running process yields the machine when another is ready. -/
def preempt (b : Board) (p : Fin 8) : Kernel Unit := do
  let next ← nextReady b (some p)
  modify fun s =>
    if (s.procs p).state = .running ∧ next ≠ none ∧ next ≠ some p then
      s.setProc p fun q => { q with state := .ready, switches := q.switches + 1 }
    else s

def timerInterrupt (b : Board) : Kernel Unit := do
  let now ← mtime b
  setTimer b (now + b.tick)
  let s ← get
  match s.current with
  | none => pure ()
  | some p => preempt b p

/-- The traps that are not interrupts, of process `p`. -/
def exception (b : Board) (p : Fin 8) (cause tval : Word) : Kernel Unit :=
  if cause = 11 ∨ cause = 8 then do
    syscall b p
    reportDiskFailure b
  else if cause = 2 then do
    let word ← trappedInstruction b p tval
    let claimed ← claimFpu b p word
    when (!claimed) (kill b p cause tval)
  else kill b p cause tval

def interrupt (b : Board) (code : Word) : Kernel Unit :=
  if code = 11 then externalInterrupt b
  else if code = 7 then timerInterrupt b
  else pure ()

/-- What a trap asks for; `current` is none for the idle loop. -/
def service (b : Board) (cause tval : Word) : Kernel Unit := do
  let s ← get
  if cause &&& 0x80000000 ≠ 0 then interrupt b (cause &&& 0x1f)
  else match s.current with
    | none => panic b "trap in the idle loop"
    | some p => exception b p cause tval

def kernelTrap (b : Board) (cause tval : Word) : Kernel Unit := do
  service b cause tval
  schedule b

def State.frame (s : State) : Frame :=
  match s.current with
  | none => s.idleFrame
  | some i => (s.procs i).f

def State.setFrame (s : State) (f : Frame) : State :=
  match s.current with
  | none => { s with idleFrame := f }
  | some i => s.setProc i fun q => { q with f }

/-- A trap's step of device time, the hart's entry and `trap_vector`'s save. -/
def State.enter (s : State) : State :=
  let hart := s.hart.enterHandler
  { s.setFrame ⟨hart.x, hart.mepc, hart.mstatusValue⟩ with hart, dev := s.dev.tick }

/-- `kernel_resume`: the context's registers, and `mret`. -/
def State.resume (s : State) : State :=
  let f := s.frame
  { s with hart :=
      { (s.hart.writeMstatus f.mstatus) with x := f.x, mepc := f.pc &&& ~~~3 }.mret }

end TinyProcessors
