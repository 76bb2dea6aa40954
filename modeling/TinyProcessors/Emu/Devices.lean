import TinyProcessors.Emu.Floating
import TinyProcessors.Emu.Plic
import TinyProcessors.Emu.Virtio
import TinyProcessors.G3d.Device
import TinyProcessors.Gpu.Device
import TinyProcessors.Simd.Device

namespace TinyProcessors

def EngineStatus.code : EngineStatus → Word
  | .idle => 0
  | .busy => 1
  | .done => 2
  | .fault => 4

def GpuError.code : GpuError → Word
  | .none => 0
  | .invalid => 1
  | .internal => 2

/-- `gpu_access` for a load; `none` when it is refused. -/
def Gpu.load (g : Gpu) (offset width : Nat) : Option Word :=
  if width ≠ 4 ∨ offset % 4 ≠ 0 then none
  else if 0x40 ≤ offset ∧ offset < 128 then (Gp.registers[(offset - 0x40) / 4]?).map g.p
  else match offset with
    | 0x04 => some g.status.code
    | 0x08 => some g.error.code
    | 0x0c => some g.cycles
    | 0x10 => some g.stalls
    | 0x14 => some g.reads
    | 0x18 => some g.writes
    | _ => none

/-- The framebuffer byte that a tick writes: `fb_written_at`. -/
def Gpu.fbWritten (g : Gpu) : Option Nat :=
  if !g.commandTick && g.status = .busy && g.phase = .write then some (pixelAt g.plot.cursor)
  else none

namespace G3d

def Error.code : Error → Word
  | .none => 0
  | .param => 1
  | .internal => 2
  | .shader .illegal => 3
  | .shader .overflow => 4
  | .shader .mismatch => 5
  | .shader .limit => 6
  | .shader .pc => 7
  | .index => 8

def Job.word (j : Job) (offset : Nat) : Word :=
  let word (base : Nat) := (offset - base) / 4
  if offset < 0x480 then j.consts (BitVec.ofNat 5 (word 0x400))
  else if offset < 0xa00 then j.program (word 0x800)
  else if offset < 0x1400 then j.inputs (word 0x1000 / 8) (BitVec.ofNat 3 (word 0x1000))
  else j.tris (word 0x1800)

/-- `g3d_access` for a load; `none` when it is refused. -/
def Device.load (d : Device) (offset width : Nat) : Option Word :=
  if width ≠ 4 ∨ offset % 4 ≠ 0 then none
  else if g3dMemory offset then if d.status = .busy then none else some (d.job.word offset)
  else match offset with
    | 0x40 => some d.job.vcount
    | 0x44 => some d.job.tcount
    | 0x48 => some d.job.zbase
    | 0x4c => some d.job.limit
    | 0x04 => some d.status.code
    | 0x08 => some d.error.code
    | 0x0c => some d.faultPc
    | 0x10 => some d.cycles
    | 0x14 => some d.stalls
    | 0x18 => some d.counts.instructions
    | 0x1c => some d.counts.transfers
    | 0x20 => some d.counts.divides
    | 0x24 => some d.counts.pixels
    | 0x28 => some d.counts.zfail
    | 0x2c => some d.counts.culled
    | _ => none

def Device.moves (d : Device) (phase : Phase) : Bool :=
  !d.commandTick && d.status = .busy && d.phase = phase

/-- The byte of RAM that a tick writes, or the first of them: `ram_written_at`. -/
def Device.ramWritten (d : Device) : Option Nat :=
  if d.moves .zwrite then some d.zoff
  else if d.moves .clear then some (wrap32 (d.job.zbase.toNat - 0x80000000 + 4 * d.index))
  else none

def Device.fbWritten (d : Device) : Option Nat := if d.moves .pwrite then some d.fbAt else none

end G3d

namespace Emu

/-- What the host's standard input has when the console asks for it. -/
inductive Poll
  | nothing
  | ended
  | bytes (first : UInt8) (rest : List UInt8)

/-- What no step of the machine changes. -/
structure Host where
  fp : FpUnit
  rom : Bytes
  stdin : Nat → Poll
  limit : BitVec 64

/-- The console: its registers, the bytes waiting to be read, and those sent. -/
structure Console where
  ier : BitVec 8
  lcr : BitVec 8
  mcr : BitVec 8
  scr : BitVec 8
  dll : BitVec 8
  dlm : BitVec 8
  latched : BitVec 64
  received : List UInt8
  interactive : Bool
  polls : Nat
  prompt : List UInt8
  tail : List UInt8
  promptsSeen : BitVec 64
  linesTaken : BitVec 64
  sent : List UInt8

namespace Console

def dlab (c : Console) : Bool := c.lcr &&& 0x80 ≠ 0

/-- `console_poll_stdin`. -/
def pollStdin (host : Host) (c : Console) : Console :=
  if !c.interactive || c.received ≠ [] then c
  else
    let c' := { c with polls := c.polls + 1 }
    match host.stdin c.polls with
    | .nothing => c'
    | .ended => { c' with interactive := false }
    | .bytes first rest => { c' with received := first :: rest }

/-- A received byte waits, and is one of a line that the prompt has let through. -/
def waiting (c : Console) : Bool :=
  c.received ≠ [] && (c.prompt = [] || c.linesTaken < c.promptsSeen)

def take (c : Console) : Word × Console :=
  match c.waiting, c.received with
  | true, b :: rest =>
    (BitVec.ofNat 32 b.toNat, { c with
      received := rest
      linesTaken := if b = 10 then c.linesTaken + 1 else c.linesTaken })
  | _, _ => (0, c)

/-- `console_watch_prompt`. -/
def watchPrompt (c : Console) (byte : UInt8) : Console :=
  let sent := c.tail ++ [byte]
  let tail := sent.drop (sent.length - c.prompt.length)
  { c with
    tail := tail
    promptsSeen := if tail = c.prompt then c.promptsSeen + 1 else c.promptsSeen }

def send (c : Console) (byte : UInt8) : Console :=
  let c := { c with sent := byte :: c.sent }
  if c.prompt ≠ [] then c.watchPrompt byte else c

/-- `console_load`. -/
def load (host : Host) (c : Console) (offset width : Nat) : Option (Word × Console) :=
  if width ≠ 1 then none
  else match offset with
    | 0 =>
      if c.dlab then some (c.dll.setWidth 32, { c with latched := c.latched + 1 })
      else some (c.pollStdin host).take
    | 1 => some ((if c.dlab then c.dlm else c.ier).setWidth 32, c)
    | 2 =>
      let c' := if c.ier &&& 1 ≠ 0 then c.pollStdin host else c
      some (if c.ier &&& 1 ≠ 0 ∧ c'.waiting then 4 else if c.ier &&& 2 ≠ 0 then 2 else 1, c')
    | 3 => some (c.lcr.setWidth 32, c)
    | 4 => some (c.mcr.setWidth 32, c)
    | 5 =>
      let c' := c.pollStdin host
      some (if c'.waiting then 0x61 else 0x60, c')
    | 6 => some (0xb0, c)
    | 7 => some (c.scr.setWidth 32, c)
    | _ => none

/-- `console_store`. -/
def store (c : Console) (offset width : Nat) (value : Word) : Option Console :=
  let byte : BitVec 8 := value.setWidth 8
  if width ≠ 1 then none
  else match offset with
    | 0 =>
      if c.dlab then some { c with dll := byte, latched := c.latched + 1 }
      else some (c.send (UInt8.ofBitVec byte))
    | 1 => some (if c.dlab then { c with dlm := byte } else { c with ier := byte &&& 0x0f })
    | 2 => some c
    | 3 => some { c with
        latched := if byte &&& 0x80 ≠ 0 ∧ !c.dlab then 0 else c.latched
        lcr := byte }
    | 4 => some { c with mcr := byte &&& 0x1f }
    | 7 => some { c with scr := byte }
    | _ => none

end Console

/-- The CLINT's registers; `mtime` is the count of steps and an offset. -/
structure Clint where
  msip : Word
  mtimecmp : BitVec 64
  mtimeOffset : BitVec 64

namespace Clint

/-- `mtime_now`. -/
def now (c : Clint) (steps : BitVec 64) : BitVec 64 := steps + c.mtimeOffset

def low (v : BitVec 64) : Word := v.setWidth 32

def high (v : BitVec 64) : Word := (v >>> 32).setWidth 32

def withLow (v : BitVec 64) (value : Word) : BitVec 64 := high v ++ value

def withHigh (v : BitVec 64) (value : Word) : BitVec 64 := value ++ low v

/-- `clint_load`. -/
def load (c : Clint) (steps : BitVec 64) (offset width : Nat) : Option Word :=
  if width ≠ 4 then none
  else match offset with
    | 0 => some c.msip
    | 0x4000 => some (low c.mtimecmp)
    | 0x4004 => some (high c.mtimecmp)
    | 0xbff8 => some (low (c.now steps))
    | 0xbffc => some (high (c.now steps))
    | _ => none

/-- `clint_store`. -/
def store (c : Clint) (steps : BitVec 64) (offset width : Nat) (value : Word) : Option Clint :=
  if width ≠ 4 then none
  else match offset with
    | 0 => some { c with msip := value &&& 1 }
    | 0x4000 => some { c with mtimecmp := withLow c.mtimecmp value }
    | 0x4004 => some { c with mtimecmp := withHigh c.mtimecmp value }
    | 0xbff8 => some { c with mtimeOffset := withLow (c.now steps) value - steps }
    | 0xbffc => some { c with mtimeOffset := withHigh (c.now steps) value - steps }
    | _ => none

end Clint

/-- The input device: a ring of events, and the scripted ones that are still to come. -/
structure Input where
  queue : Fin 16 → Word
  head : Fin 16
  count : Nat
  keys : Word
  script : List (Word × Word)
  dropped : Nat

namespace Input

/-- `emu_queue_event`. -/
def queueEvent (i : Input) (event : Word) : Input :=
  if i.count = 16 then { i with dropped := i.dropped + 1 }
  else
    let bit := (1 : Word) <<< (event &&& 31).toNat
    { i with
      queue := Function.update i.queue (Fin.ofNat 16 (i.head.val + i.count)) event
      count := i.count + 1
      keys := if event &&& 0x100 ≠ 0 then i.keys ||| bit else i.keys &&& ~~~bit }

/-- The loop of `emu_deliver_events`. -/
def deliver (frames : Word) : List (Word × Word) → Input → Input
  | [], i => { i with script := [] }
  | (frame, event) :: rest, i =>
    if frame ≤ frames then deliver frames rest (i.queueEvent event)
    else { i with script := (frame, event) :: rest }

def deliverEvents (i : Input) (frames : Word) : Input := deliver frames i.script i

/-- `input_load`. -/
def load (i : Input) (offset width : Nat) : Option (Word × Input) :=
  if width ≠ 4 then none
  else match offset with
    | 0 =>
      if i.count = 0 then some (0, i)
      else some (i.queue i.head, { i with head := i.head + 1, count := i.count - 1 })
    | 4 => some (BitVec.ofNat 32 i.count, i)
    | 8 => some (i.keys, i)
    | _ => none

end Input

def displayLoad (frames : Word) (offset width : Nat) : Option Word :=
  if width ≠ 4 then none
  else match offset with
    | 4 => some frames
    | 8 => some 320
    | 12 => some 240
    | _ => none

def romLoad (host : Host) (offset width : Nat) : Word := host.rom.read offset width

def rgb332Word (pixel : BitVec 8) : Word :=
  let p := pixel.toNat
  BitVec.ofNat 32 (p / 32 % 8 * 255 / 7 * 65536 + p / 4 % 8 * 255 / 7 * 256 + p % 4 * 255 / 3)

end Emu

end TinyProcessors
