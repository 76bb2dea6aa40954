import TinyProcessors.Os.Process

namespace TinyProcessors

/-- The loop of `drain_input` over the events in the device's queue. -/
def drainInput (b : Board) : List Word → Kernel Unit
  | [] => mmioRead32 b .input 0
  | event :: rest => do
    mmioRead32 b .input 0
    modifyDev fun d => { d with events := d.events.tail }
    when (event ≠ 0) do
      modifyVars fun v =>
        if v.keys.length = 64 then { v with keysDropped := v.keysDropped + 1 }
        else { v with keys := v.keys ++ [event] }
      drainInput b rest

def externalInterrupt (b : Board) : Kernel Unit := do
  mmioRead32 b .plic 0x200004
  let s ← get
  let source := s.dev.now.claim
  when (source ≠ 0 ∧ b.input ∧ source = b.inputSource) (drainInput b s.dev.events)
  when (source ≠ 0) (mmioWrite32 b .plic 0x200004 source)

def orElse (known : Option α) (read : Kernel α) : Kernel α :=
  match known with
  | some a => pure a
  | none => read

/-- The loop of `wake_blocked`; `now` is 0 until the time has been read. -/
def wakeBlocked (b : Board) : List (Fin 8) → BitVec 64 → Option Bool → Kernel Unit
  | [], _, _ => pure ()
  | i :: rest, now, ready => do
    let s ← get
    match (s.procs i).state with
    | .blockedRead => do
      let r ← orElse ready (consoleReady b)
      when r (modify fun s => s.setState i .ready)
      wakeBlocked b rest now (some r)
    | .blockedSleep => do
      let now ← orElse (if now = 0 then none else some now) (mtime b)
      when ((s.procs i).wake ≤ now) (modify fun s => s.setState i .ready)
      wakeBlocked b rest now ready
    | _ => wakeBlocked b rest now ready

def g1Busy (b : Board) : Kernel Bool :=
  if b.gpu then do
    mmioRead32 b .g1 4
    let s ← get
    return s.dev.g1.busy
  else return false

def g2Busy (b : Board) : Kernel Bool :=
  if b.g3d then do
    mmioRead32 b .g2 4
    let s ← get
    return s.dev.g2.busy
  else return false

def State.driverAlive (s : State) : Bool :=
  (List.finRange 8).any fun i => (s.procs i).alive && (s.procs i).drives

def enginesBusy (b : Board) : Kernel Bool := do
  let s ← get
  if !s.vars.enginesUsed then return false
  else do
    let busy ← g1Busy b
    if busy then return true
    else do
      let busy ← g2Busy b
      if busy then return true
      else do
        modify fun s => { s with vars := { s.vars with enginesUsed := s.driverAlive } }
        return false

/-- The loop of `next_ready`, over the entries in the order it looks at them. -/
def nextReadyFrom (b : Board) : List (Fin 8) → Option Bool → Kernel (Option (Fin 8))
  | [], _ => return none
  | i :: rest, busy => do
    let s ← get
    if (s.procs i).state ≠ .ready then nextReadyFrom b rest busy
    else if (s.procs i).drives then return some i
    else do
      let busy ← orElse busy (enginesBusy b)
      if busy then nextReadyFrom b rest (some busy) else return some i

/-- The entries after `after` in table order, round robin. -/
def roundRobin (after : Option (Fin 8)) : List (Fin 8) :=
  (List.range 8).map fun k =>
    Fin.ofNat 8 ((match after with | some i => i.val + 1 | none => 0) + k)

def nextReady (b : Board) (after : Option (Fin 8)) : Kernel (Option (Fin 8)) :=
  nextReadyFrom b (roundRobin after) none

/-- The CSRs `protect` writes for entry `i`: PMP in TOR pairs, then `satp`. -/
def Hart.protect (h : Hart) (b : Board) (i : Fin 8) (p : Proc) : Hart :=
  let tor : Word := 0x08
  let engines := if p.drives && b.accelerators.2 ≠ 0 then tor ||| 3 else 0
  ((((((((((h.writePmpaddr 0 (p.base >>> 2)).writePmpaddr 1 ((p.base + p.span) >>> 2)).writePmpaddr 2
    (b.framebuffer >>> 2)).writePmpaddr 3 ((b.framebuffer + b.framebufferSize) >>> 2)).writePmpaddr 4
    (b.accelerators.1 >>> 2)).writePmpaddr 5 (b.accelerators.2 >>> 2)).writePmpaddr 6
    (b.pageTables >>> 2)).writePmpaddr 7 (BitVec.ofNat 32 b.tablesEnd >>> 2)).writePmpcfg 0
    ((tor ||| 7) <<< 8 ||| if b.framebuffer ≠ 0 then (tor ||| 3) <<< 24 else 0)).writePmpcfg 1
    (engines <<< 8 ||| (tor ||| 1) <<< 24)).writeSatp
    (0x80000000 ||| BitVec.ofNat 32 (b.tableAt i 0) >>> 12)

def setWindow (b : Board) (p : Proc) : Kernel Unit :=
  when b.dmaWindow do
    mmioWrite32 b .dmaWindow 0 p.base
    mmioWrite32 b .dmaWindow 4 (p.base + p.span)
    modifyDev fun d => { d with window := ⟨p.base, p.base + p.span⟩ }

def protect (b : Board) (i : Fin 8) : Kernel Unit := do
  let s ← get
  when ((s.procs i).pid ≠ s.protectedPid) do
    set { s with protectedPid := (s.procs i).pid, hart := s.hart.protect b i (s.procs i) }
    setWindow b (s.procs i)

/-- The machine goes to the next ready process, or to the idle loop. -/
def pickNext (b : Board) (after : Option (Fin 8)) : Kernel (Option (Fin 8)) := do
  let next ← nextReady b after
  modify fun s => match next with
    | none => { s with current := none }
    | some i => { s.setState i .running with current := some i }
  return next

def dispatch (b : Board) : Kernel (Option (Fin 8)) := do
  let s ← get
  match s.current with
  | some i => if (s.procs i).state = .running then return some i else pickNext b (some i)
  | none => pickNext b none

/-- What `schedule` does for the process it returns the frame of. -/
def engage (b : Board) (i : Fin 8) : Kernel Unit := do
  let s ← get
  when (s.procs i).drives (modifyVars fun v => { v with enginesUsed := true })
  protect b i

def schedule (b : Board) : Kernel Unit := do
  wakeBlocked b (List.finRange 8) 0 none
  let next ← dispatch b
  match next with
  | none => pure ()
  | some i => engage b i

end TinyProcessors
