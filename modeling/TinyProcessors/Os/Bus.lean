import TinyProcessors.Os.State

namespace TinyProcessors

def Devices.engineBusy (d : Devices) : Bool := d.g1.busy || d.g2.busy

/-- Whether a running job keeps the processor from writing these bytes of RAM. -/
def Devices.locked (d : Devices) (address width : Nat) : Bool :=
  d.g1.sourceLocked address width || d.g2.zLocked address width

/-- What the device of an access makes of it: the handlers of the emulator's `REGIONS`. -/
def Devices.handles (d : Devices) (a : Access) : Bool :=
  match a.device, a.kind with
  | .ram, .store => inRam a.offset a.width && !d.locked a.offset a.width
  | .ram, _ => inRam a.offset a.width
  | .console, .store => a.width = 1 && a.offset < 8 && a.offset ≠ 5 && a.offset ≠ 6
  | .console, _ => a.width = 1 && a.offset < 8
  | .clint, _ => a.width = 4 && [0, 0x4000, 0x4004, 0xbff8, 0xbffc].contains a.offset
  | .plic, .store => a.width = 4 && (a.offset < 128 || [0x2000, 0x200000, 0x200004].contains a.offset)
  | .plic, _ => a.width = 4 &&
      (a.offset < 128 || [0x1000, 0x2000, 0x200000, 0x200004].contains a.offset)
  | .virtio, .store => a.width = 4 && [0x14, 0x20, 0x24, 0x30, 0x38, 0x44, 0x50, 0x64, 0x70, 0x80,
      0x84, 0x90, 0x94, 0xa0, 0xa4].contains a.offset
  | .virtio, _ => a.width = 4 && [0x0, 0x4, 0x8, 0xc, 0x10, 0x34, 0x44, 0x60, 0x70, 0x80, 0x84, 0x90,
      0x94, 0xa0, 0xa4, 0xfc, 0x100, 0x104].contains a.offset
  | .input, .store => false
  | .input, _ => a.width = 4 && [0, 4, 8].contains a.offset
  | .display, .store => a.width = 4 && a.offset = 0 && !d.engineBusy
  | .display, _ => a.width = 4 && [4, 8, 0xc].contains a.offset
  | .palette, _ => a.width = 4 && a.offset < 0x400
  | .g1, .store => a.width = 4 && !(a.offset = 0 && a.value = gpuStart && d.g2.busy) &&
      (d.g1.store a.offset a.value).isSome
  | .g1, _ => a.width = 4 && (0x40 ≤ a.offset && a.offset < 128 ||
      [4, 8, 0xc, 0x10, 0x14, 0x18].contains a.offset)
  | .g2, .store => a.width = 4 && (d.g2.store a.offset a.value d.g1.busy).isSome
  | .g2, _ => a.width = 4 && (g3dMemory a.offset && !d.g2.busy ||
      [0x40, 0x44, 0x48, 0x4c, 4, 8, 0xc, 0x10, 0x14, 0x18, 0x1c, 0x20, 0x24, 0x28, 0x2c].contains
        a.offset)
  | .dmaWindow, _ => a.width = 4 && [0, 4].contains a.offset
  | .done, _ => a.width = 4 && a.offset = 0

def Board.address (b : Board) (a : Access) : Word :=
  if a.device = .ram then BitVec.ofNat 32 a.offset else b.base a.device + BitVec.ofNat 32 a.offset

/-- Whether the machine lets an access of its hart through. -/
def State.accepts (b : Board) (s : State) (a : Access) : Bool :=
  a.offset % a.width = 0 &&
    (passes (s.ram b) s.hart (b.address a) a.kind s.hart.dataPriv).isSome && s.dev.handles a

def Devices.tick (d : Devices) : Devices :=
  let w := d.world d.beat
  { d with
    g1 := d.g1.tick d.window w.g1Ends
    g2 := d.g2.tick d.window w.g2Ends
    beat := d.beat + 1 }

def Devices.now (d : Devices) : Beat := d.world d.beat

def State.touch (s : State) (a : Access) : State :=
  { s with dev := { s.dev.tick with log := s.dev.log ++ [a] } }

/-- An access of the kernel; one the machine refuses is a trap in the kernel. -/
def bus (b : Board) (a : Access) : Kernel Unit := fun s =>
  if (s.touch a).accepts b a then .ok () (s.touch a) else .error (.fault a) (s.touch a)

def mmioRead8 (b : Board) (d : Device) (offset : Nat) : Kernel Unit := bus b ⟨d, offset, 1, .load, 0⟩

def mmioRead32 (b : Board) (d : Device) (offset : Nat) : Kernel Unit := bus b ⟨d, offset, 4, .load, 0⟩

def mmioWrite8 (b : Board) (d : Device) (offset : Nat) (value : UInt8) : Kernel Unit :=
  bus b ⟨d, offset, 1, .store, BitVec.ofNat 32 value.toNat⟩

def mmioWrite32 (b : Board) (d : Device) (offset : Nat) (value : Word) : Kernel Unit :=
  bus b ⟨d, offset, 4, .store, value⟩

def when (c : Prop) [Decidable c] (m : Kernel Unit) : Kernel Unit := if c then m else pure ()

def modifyDev (f : Devices → Devices) : Kernel Unit := modify fun s => { s with dev := f s.dev }

def modifyVars (f : Vars → Vars) : Kernel Unit := modify fun s => { s with vars := f s.vars }

def loadByte (b : Board) (address : Nat) : Kernel UInt8 := do
  bus b ⟨.ram, address, 1, .load, 0⟩
  let s ← get
  return s.io.mem address

def storeByte (b : Board) (address : Nat) (value : UInt8) : Kernel Unit := do
  bus b ⟨.ram, address, 1, .store, BitVec.ofNat 32 value.toNat⟩
  modify fun s => { s with io := { s.io with mem := Function.update s.io.mem address value } }

def storeBytes (b : Board) : Nat → List UInt8 → Kernel Unit
  | _, [] => pure ()
  | address, v :: rest => do
    storeByte b address v
    storeBytes b (address + 1) rest

/-- The console, polled: the machine's transmitter is always ready. -/
def kputc (b : Board) (c : UInt8) : Kernel Unit := do
  mmioRead8 b .console 5
  mmioWrite8 b .console 0 c
  modifyDev fun d => { d with sent := d.sent ++ [c] }

def kputBytes (b : Board) : List UInt8 → Kernel Unit
  | [] => pure ()
  | c :: rest => do
    kputc b c
    kputBytes b rest

def textBytes (t : String) : List UInt8 := t.toList.map fun c => UInt8.ofNat c.toNat

def kputs (b : Board) (t : String) : Kernel Unit := kputBytes b (textBytes t)

/-- The decimal digits of `kdecimal`. -/
def kdecimal (value : Word) : List UInt8 :=
  (Nat.toDigits 10 value.toNat).map fun c => UInt8.ofNat c.toNat

def kputdec (b : Board) (value : Word) : Kernel Unit := kputBytes b (kdecimal value)

def hexDigit (value : Word) (shift : Nat) : UInt8 :=
  let digit := (value >>> shift &&& 15).toNat
  UInt8.ofNat (if digit < 10 then 48 + digit else 87 + digit)

def kputhex (b : Board) (value : Word) : Kernel Unit :=
  kputBytes b ([28, 24, 20, 16, 12, 8, 4, 0].map (hexDigit value))

def kputhexShort (b : Board) (value : Word) : Kernel Unit :=
  kputBytes b (([28, 24, 20, 16, 12, 8, 4, 0].dropWhile fun shift =>
    0 < shift && value >>> shift = 0).map (hexDigit value))

/-- A poll of the status register takes in what the host has for the machine. -/
def consoleReady (b : Board) : Kernel Bool := do
  mmioRead8 b .console 5
  modifyDev fun d => { d with received := d.received ++ d.now.received }
  let s ← get
  return !s.dev.received.isEmpty

/-- A read of the receive register: the next byte, 0 when there is none. -/
def consoleByte (b : Board) : Kernel UInt8 := do
  mmioRead8 b .console 0
  let s ← get
  modifyDev fun d => { d with received := d.received.tail }
  return s.dev.received.headD 0

/-- `clint_mtime`, which reads the high word again until no carry has torn the two. -/
def mtime (b : Board) : Kernel (BitVec 64) := do
  mmioRead32 b .clint 0xbffc
  mmioRead32 b .clint 0xbff8
  mmioRead32 b .clint 0xbffc
  let s ← get
  return s.dev.now.time

def setTimer (b : Board) (time : BitVec 64) : Kernel Unit := do
  mmioWrite32 b .clint 0x4000 0xffffffff
  mmioWrite32 b .clint 0x4004 ((time >>> 32).setWidth 32)
  mmioWrite32 b .clint 0x4000 (time.setWidth 32)
  modifyDev fun d => { d with mtimecmp := time }

def busRange (b : Board) (kind : Kind) : Nat → Nat → Kernel Unit
  | _, 0 => pure ()
  | address, n + 1 => do
    bus b ⟨.ram, address, 1, kind, 0⟩
    busRange b kind (address + 1) n

def busRanges (b : Board) (kind : Kind) : List (Nat × Nat) → Kernel Unit
  | [] => pure ()
  | (address, n) :: rest => do
    busRange b kind address n
    busRanges b kind rest

/-- The driver's register accesses for one request that the device has served. -/
def virtioRequest (b : Board) : Kernel Unit := do
  mmioWrite32 b .virtio 0x50 0
  mmioRead32 b .virtio 0x70
  mmioRead32 b .virtio 0x60
  mmioWrite32 b .virtio 0x64 1

def virtioRequests (b : Board) : Nat → Kernel Unit
  | 0 => pure ()
  | n + 1 => do
    virtioRequest b
    virtioRequests b n

def Io.clean (io : Io) : Io := { io with loads := [], stores := [] }

/-- The accesses of a call of fs.c: the driver's, and its own to memory. -/
def fsAccesses (b : Board) (served : Nat) (io : Io) : Kernel Unit := do
  virtioRequests b (io.disk.served - served)
  busRanges b .load io.loads
  busRanges b .store io.stores

def fsCall (b : Board) (f : Io → α × Io) : Kernel α := do
  let s ← get
  let r := f s.io.clean
  set { s with io := r.2 }
  fsAccesses b s.io.disk.served r.2
  return r.1

def State.writing (s : State) : Bool :=
  (List.finRange 8).any fun i => (s.procs i).state ≠ .free &&
    (List.finRange 4).any fun k => ((s.procs i).files k).mode = oWrite

def flushWriters (b : Board) : Kernel Unit := do
  let s ← get
  when s.writing do
    let ok ← fsCall b fsFlush
    when (!ok) (kputs b "kernel: halt: the directory could not be written\n")

def reportDropped (b : Board) : Kernel Unit := do
  let s ← get
  when (s.vars.keysDropped ≠ 0) do
    kputs b "kernel: "
    kputdec b s.vars.keysDropped
    kputs b " input events dropped: the buffer was full\n"

def reportHalt (b : Board) (code : Word) : Kernel Unit := do
  let s ← get
  if code = 0 then do
    kputs b "kernel: halt, "
    kputdec b s.vars.exits
    kputs b " exits\nPASS "
    kputhex b s.vars.exitSum
    kputs b "\n"
    mmioWrite32 b .done 0 0x5555
  else do
    kputs b "kernel: halt "
    kputdec b code
    kputs b "\n"
    mmioWrite32 b .done 0 ((code &&& 0xff) <<< 16 ||| 0x3333)

/-- What `halt` does before the machine stops. -/
def shutdown (b : Board) (code : Word) : Kernel Unit := do
  flushWriters b
  reportDropped b
  reportHalt b code

def halt (b : Board) (code : Word) : Kernel α := do
  shutdown b code
  throw (.halt code)

def panic (b : Board) (why : String) : Kernel α := do
  kputs b "kernel: panic: "
  kputs b why
  kputs b "\n"
  shutdown b 255
  throw (.panic why)

end TinyProcessors
