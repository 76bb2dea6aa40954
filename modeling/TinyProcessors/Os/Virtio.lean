import TinyProcessors.Emu.Virtio
import TinyProcessors.Fs.Disk

namespace TinyProcessors

/-- `m` bytes from `a` on and `n` bytes from `b` on share no byte. -/
def Apart (a m b n : Nat) : Prop := a + m ≤ b ∨ b + n ≤ a

/-- Where the driver's structures stand in RAM, aligned as virtio.c asks. -/
structure Rings where
  descs : Word
  avail : Word
  used : Word
  header : Word
  statusByte : Word
  descs_placed : descs.toNat % 16 = 0 ∧ 0x80000000 ≤ descs.toNat ∧ descs.toNat + 48 ≤ 0x81000000
  avail_placed : avail.toNat % 4 = 0 ∧ 0x80000000 ≤ avail.toNat ∧ avail.toNat + 22 ≤ 0x81000000
  used_placed : used.toNat % 4 = 0 ∧ 0x80000000 ≤ used.toNat ∧ used.toNat + 72 ≤ 0x81000000
  header_placed : header.toNat % 16 = 0 ∧ 0x80000000 ≤ header.toNat ∧
    header.toNat + 16 ≤ 0x81000000
  status_placed : 0x80000000 ≤ statusByte.toNat ∧ statusByte.toNat + 1 ≤ 0x81000000
  apart : [(descs.toNat, 48), (avail.toNat, 22), (used.toNat, 72), (header.toNat, 16),
    (statusByte.toNat, 1)].Pairwise fun p q => Apart p.1 p.2 q.1 q.2

/-- Byte `a` belongs to one of the driver's structures. -/
def Rings.owns (r : Rings) (a : Nat) : Prop :=
  (r.descs.toNat ≤ a ∧ a < r.descs.toNat + 48) ∨ (r.avail.toNat ≤ a ∧ a < r.avail.toNat + 22) ∨
    (r.used.toNat ≤ a ∧ a < r.used.toNat + 72) ∨ (r.header.toNat ≤ a ∧ a < r.header.toNat + 16) ∨
    a = r.statusByte.toNat

/-- The machine as the driver has it, with virtio.c's own variables. -/
structure Drv where
  blk : Blk
  device : Bool
  seen : BitVec 16
  failure : Option Failure

/-- Why a call of the driver does not return. -/
inductive Stuck
  | refused
  | unserved

abbrev DriverM := EStateM Stuck Drv

def mmioRead (offset : Nat) : DriverM Word := do
  let s ← get
  match virtioLoad s.blk.v offset 4 with
  | some value => pure value
  | none => throw .refused

def mmioWrite (fuel offset : Nat) (value : Word) : DriverM Unit := do
  let s ← get
  match virtioStore fuel s.blk offset 4 value with
  | some (.ok, blk) => set { s with blk }
  | some _ => throw .refused
  | none => throw .unserved

def storeRam (f : Bytes → Bytes) : DriverM Unit :=
  modify fun s => { s with blk := { s.blk with mem := { s.blk.mem with ram := f s.blk.mem.ram } } }

/-- `virtio_init` once the device is known to be a block device of the right version. -/
def setUpQueue (r : Rings) (fuel : Nat) : DriverM Word := do
  mmioWrite fuel 0x038 8
  mmioWrite fuel 0x080 r.descs
  mmioWrite fuel 0x084 0
  mmioWrite fuel 0x090 r.avail
  mmioWrite fuel 0x094 0
  mmioWrite fuel 0x0a0 r.used
  mmioWrite fuel 0x0a4 0
  mmioWrite fuel 0x044 1
  mmioWrite fuel 0x070 0xf
  modify fun s => { s with device := true, seen := 0 }
  mmioRead 0x100

/-- The negotiation of `virtio_init`: whether the device takes VIRTIO_F_VERSION_1. -/
def negotiate (fuel : Nat) : DriverM Bool := do
  mmioWrite fuel 0x070 0
  mmioWrite fuel 0x070 1
  mmioWrite fuel 0x070 3
  mmioWrite fuel 0x014 1
  let features ← mmioRead 0x010
  if features &&& 1 = 0 then return false
  else do
    mmioWrite fuel 0x024 1
    mmioWrite fuel 0x020 1
    mmioWrite fuel 0x024 0
    mmioWrite fuel 0x020 0
    mmioWrite fuel 0x070 0xb
    let status ← mmioRead 0x070
    return status &&& 8 ≠ 0

def queueFree (fuel : Nat) : DriverM Bool := do
  mmioWrite fuel 0x030 0
  let ready ← mmioRead 0x044
  if ready ≠ 0 then return false
  else do
    let max ← mmioRead 0x034
    return 8 ≤ max

def Rings.virtioInit (r : Rings) (fuel : Nat) : DriverM Word := do
  let magic ← mmioRead 0x000
  let version ← mmioRead 0x004
  let id ← mmioRead 0x008
  if magic ≠ 0x74726976 ∨ version ≠ 2 ∨ id ≠ 2 then return 0
  else do
    let negotiated ← negotiate fuel
    if !negotiated then return 0
    else do
      let free ← queueFree fuel
      if !free then return 0 else setUpQueue r fuel

/-- One call of `virtio_transfer`. -/
structure Transfer where
  sector : Word
  buffer : Word
  count : Word
  write : Bool

/-- The header, the status byte and the three descriptors of a call. -/
def Transfer.describe (r : Rings) (c : Transfer) (ram : Bytes) : Bytes :=
  let ram := ram.withWords r.header.toNat [if c.write then 1 else 0, 0, c.sector, 0]
  let ram := ram.write r.statusByte.toNat 1 0xff
  let ram := ram.withWords r.descs.toNat [r.header, 0, 16, 0x10001]
  let ram := ram.withWords (r.descs.toNat + 16)
    [c.buffer, 0, c.count * 512, if c.write then 0x20001 else 0x20003]
  ram.withWords (r.descs.toNat + 32) [r.statusByte, 0, 1, 2]

def Rings.publish (r : Rings) (ram : Bytes) : Bytes :=
  let idx := ram.half (r.avail.toNat + 2)
  let ram := ram.write (r.avail.toNat + 4 + 2 * (idx.toNat % 8)) 2 0
  ram.write (r.avail.toNat + 2) 2 ((idx + 1).setWidth 32)

def Transfer.prepare (r : Rings) (c : Transfer) (ram : Bytes) : Bytes := r.publish (c.describe r ram)

abbrev waitLimit : Nat := 0x01000000

/-- The wait for the used index, with `polls` more polls to make. -/
def awaitUsed (r : Rings) (polls : Nat) : DriverM (Option Failure) := do
  let s ← get
  if s.blk.mem.ram.half (r.used.toNat + 2) ≠ s.seen then return none
  else do
    let status ← mmioRead 0x070
    if status &&& 0x40 ≠ 0 then return some .needsReset
    else match polls with
      | 0 => return some .neverCompleted
      | polls + 1 => awaitUsed r polls

/-- The end of a call that the device has answered: its interrupt is acknowledged. -/
def collect (r : Rings) (fuel : Nat) : DriverM Bool := do
  modify fun s => { s with seen := s.seen + 1 }
  let interrupt ← mmioRead 0x060
  mmioWrite fuel 0x064 interrupt
  let s ← get
  return s.blk.mem.ram r.statusByte.toNat = 0

def Rings.virtioTransfer (r : Rings) (fuel : Nat) (c : Transfer) : DriverM Bool := do
  let s ← get
  if !s.device then return false
  else do
    storeRam (c.prepare r)
    mmioWrite fuel 0x050 0
    match ← awaitUsed r waitLimit with
    | some why =>
      modify fun s => { s with failure := some why, device := false }
      return false
    | none => collect r fuel

end TinyProcessors
