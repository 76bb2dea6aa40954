import TinyProcessors.Lib.Bytes

namespace TinyProcessors.Simd

inductive Op
  | hlt | ldi | lane | add | addi | load | store | setloop | loop | mul | mac | macu | clra | rda
  deriving DecidableEq

def ops : List Op :=
  [.hlt, .ldi, .lane, .add, .addi, .load, .store, .setloop, .loop, .mul, .mac, .macu, .clra, .rda]

abbrev Lane := Fin 4

abbrev Regs := Fin 4 → BitVec 16

def opcode (word : Word) : Option Op := ops[(word >>> 24).toNat]?

def rd (word : Word) : Fin 4 := Fin.ofNat 4 (word >>> 22).toNat

def ra (word : Word) : Fin 4 := Fin.ofNat 4 (word >>> 20).toNat

def rb (word : Word) : Fin 4 := Fin.ofNat 4 (word >>> 18).toNat

def imm (word : Word) : BitVec 16 := word.setWidth 16

/-- `enum simd_phase`. -/
inductive Phase
  | idle | fetch | execute | memory
  deriving DecidableEq

/-- `simd_execution`. -/
structure Execution where
  r : Lane → Regs
  loop : BitVec 16
  acc : Lane → Word
  instruction : Word
  cycles : Word
  stalls : Word
  transfers : Word
  instructions : Word
  entry : BitVec 8
  pc : BitVec 8
  lane : Lane
  state : Phase
  done : Bool
  fault : Bool
  commandTick : Bool

/-- `simd_device`. -/
structure Device where
  program : BitVec 8 → Word
  data : BitVec 8 → BitVec 16
  execution : Execution

/-- What `simd_reset` leaves of an execution. -/
def Execution.reset : Execution :=
  { r := fun _ _ => 0, loop := 0, acc := fun _ => 0, instruction := 0, cycles := 0, stalls := 0
    transfers := 0, instructions := 0, entry := 0, pc := 0, lane := 0, state := .idle
    done := false, fault := false, commandTick := true }

def Device.reset (s : Device) : Device := { s with execution := .reset }

def Execution.start (e : Execution) : Execution :=
  { Execution.reset with entry := e.entry, pc := e.entry, state := .fetch }

abbrev simdBase : Nat := 0x11004000
abbrev simdProgram : Nat := 0x11005000
abbrev simdData : Nat := 0x11006000

def Execution.status (e : Execution) : Word :=
  (if e.state ≠ .idle then 1 else 0) ||| (if e.done then 2 else 0) ||| (if e.fault then 4 else 0)

/-- `simd_access` for a load; `none` when it is refused. -/
def Device.load (s : Device) (address width : Nat) : Option Word :=
  let e := s.execution
  if width ≠ 4 ∨ address % 4 ≠ 0 then none
  else if simdProgram ≤ address ∧ address - simdProgram < 1024 then
    if e.state ≠ .idle then none else some (s.program (BitVec.ofNat 8 ((address - simdProgram) / 4)))
  else if simdData ≤ address ∧ address - simdData < 1024 then
    if e.state ≠ .idle then none
    else some ((s.data (BitVec.ofNat 8 ((address - simdData) / 4))).setWidth 32)
  else if address < simdBase ∨ 32 ≤ address - simdBase then none
  else match address - simdBase with
    | 0x04 => some e.status
    | 0x08 => some (e.entry.setWidth 32)
    | 0x0c => some e.cycles
    | 0x10 => some e.stalls
    | 0x14 => some e.transfers
    | 0x18 => some e.instructions
    | _ => none

/-- `simd_access` for a store. -/
def Device.store (s : Device) (address width : Nat) (value : Word) : Option Device :=
  let e := s.execution
  if width ≠ 4 ∨ address % 4 ≠ 0 then none
  else if simdProgram ≤ address ∧ address - simdProgram < 1024 then
    if e.state ≠ .idle then none
    else some { s with
      program := Function.update s.program (BitVec.ofNat 8 ((address - simdProgram) / 4)) value }
  else if simdData ≤ address ∧ address - simdData < 1024 then
    if e.state ≠ .idle then none
    else some { s with
      data := Function.update s.data (BitVec.ofNat 8 ((address - simdData) / 4))
        (value.setWidth 16) }
  else if address = simdBase then
    if value = 2 then some s.reset
    else if value ≠ 1 ∨ e.state ≠ .idle then none
    else some { s with execution := e.start }
  else if address = simdBase + 8 then
    if e.state ≠ .idle ∨ 255 < value.toNat then none
    else some { s with execution := { e with entry := value.setWidth 8 } }
  else none

/-- RDA's window of an accumulator: a shift that fills with the sign. -/
def readBack (acc : Word) (shift : Nat) : BitVec 16 :=
  let value := acc >>> shift
  let value := if shift ≠ 0 ∧ acc &&& 0x80000000 ≠ 0 then
    value ||| (0xffffffff : Word) <<< (32 - shift) else value
  value.setWidth 16

/-- The body of the lane loop: what an instruction makes of a lane. -/
def laneStep (op : Op) (word : Word) (lane : Lane) (r : Regs) (acc : Word) : Regs × Word :=
  let a := r (ra word)
  let b := r (rb word)
  let set (v : BitVec 16) : Regs × Word := (Function.update r (rd word) v, acc)
  match op with
  | .ldi => set (imm word)
  | .lane => set (BitVec.ofNat 16 lane)
  | .add => set (a + b)
  | .addi => set (a + imm word)
  | .mul => set ((a.setWidth 32 * b.setWidth 32 : Word).setWidth 16)
  | .mac => (r, acc + BitVec.ofInt 32 (a.toInt * b.toInt))
  | .macu => (r, acc + a.setWidth 32 * b.setWidth 32)
  | .clra => (r, 0)
  | .rda => set (readBack acc (imm word &&& 31).toNat)
  | _ => (r, acc)

def faulty (op : Op) (word : Word) (loop : BitVec 16) : Bool :=
  (op = .setloop && imm word = 0) || (op = .loop && loop = 0)

def Execution.retire (e : Execution) : Execution :=
  let halts := opcode e.instruction = some .hlt
  { e with
    instructions := e.instructions + 1
    state := if halts then .idle else .fetch
    done := e.done || halts }

def Execution.refuse (e : Execution) : Execution :=
  { e with state := .idle, done := true, fault := true }

def Execution.control (e : Execution) (op : Op) : Execution :=
  match op with
  | .setloop => { e with loop := imm e.instruction }
  | .loop =>
    { e with
      loop := e.loop - 1
      pc := if e.loop - 1 ≠ 0 then (imm e.instruction).setWidth 8 else e.pc }
  | _ => e

def Execution.compute (e : Execution) (op : Op) : Execution :=
  let step (lane : Lane) := laneStep op e.instruction lane (e.r lane) (e.acc lane)
  { e with r := fun lane => (step lane).1, acc := fun lane => (step lane).2 }

def Execution.execute (e : Execution) : Execution :=
  match opcode e.instruction with
  | none => e.refuse
  | some op =>
    if op = .load ∨ op = .store then { e with lane := 0, state := .memory }
    else if faulty op e.instruction e.loop then e.refuse
    else ((e.control op).compute op).retire

def Execution.address (e : Execution) : BitVec 8 :=
  (e.r e.lane (ra e.instruction) + imm e.instruction).setWidth 8

def Device.transfer (s : Device) : Device :=
  let e := s.execution
  let e' := { e with transfers := e.transfers + 1 }
  if opcode e.instruction = some .store then
    { s with
      data := Function.update s.data e.address (e.r e.lane (rd e.instruction))
      execution := e' }
  else
    let r := Function.update (e.r e.lane) (rd e.instruction) (s.data e.address)
    { s with execution := { e' with r := Function.update e.r e.lane r } }

/-- The lane after a transfer; the last one ends the instruction. -/
def Execution.nextLane (e : Execution) : Execution :=
  if e.lane = 3 then { e with lane := 0 }.retire else { e with lane := e.lane + 1 }

def Device.memory (s : Device) (hold : Bool) : Device :=
  if hold then { s with execution := { s.execution with stalls := s.execution.stalls + 1 } }
  else { s.transfer with execution := s.transfer.execution.nextLane }

def Device.fetch (s : Device) : Device :=
  let e := s.execution
  { s with execution := { e with
      instruction := s.program e.pc
      pc := e.pc + 1
      state := .execute } }

/-- A tick of a busy device; `cycles` is counted already. -/
def Device.phase (s : Device) (hold : Bool) : Device :=
  match s.execution.state with
  | .idle => s
  | .fetch => s.fetch
  | .execute => { s with execution := s.execution.execute }
  | .memory => s.memory hold

/-- `simd_tick`. -/
def Device.tick (s : Device) (hold : Bool) : Device :=
  let e := s.execution
  if e.commandTick then { s with execution := { e with commandTick := false } }
  else if e.state = .idle then s
  else { s with execution := { e with cycles := e.cycles + 1 } }.phase hold

end TinyProcessors.Simd
