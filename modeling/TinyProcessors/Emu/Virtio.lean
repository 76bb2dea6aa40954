import TinyProcessors.Emu.Memory

namespace TinyProcessors

structure Drive where
  bytes : Bytes
  size : Word
  whole : size.toNat % 512 = 0
  small : size.toNat ≤ 0x800000

def Drive.sectors (d : Drive) : Nat := d.size.toNat / 512

/-- The registers of the block device, its disk, and the host's file behind it. -/
structure VirtioBlk where
  status : BitVec 8
  featuresSel : Bool
  queueSelZero : Bool
  queueReady : Bool
  interrupt : Bool
  queueNum : Word
  descLo : Word
  descHi : Word
  driverLo : Word
  driverHi : Word
  deviceLo : Word
  deviceHi : Word
  lastAvail : BitVec 16
  usedIdx : BitVec 16
  drive : Drive
  file : Option (Nat → Bool)
  fileWrites : Nat
  writeError : Bool

structure Blk where
  mem : Memory
  v : VirtioBlk

/-- A part of serving a request, which an address or a bad chain may cut short. -/
abbrev Service := EStateM Unit Blk

def dmaWord (address : Word) : Bool :=
  ramBase ≤ address.toNat && address.toNat - ramBase < ramSize

/-- A read of the word that holds `address`. -/
def dmaRead (ram : Bytes) (address : Word) : Option Word :=
  if dmaWord address then some (ram.word (address &&& ~~~3).toNat) else none

def dmaRead16 (ram : Bytes) (address : Word) : Option (BitVec 16) :=
  (dmaRead ram address).map fun (word : Word) =>
    if address &&& 2 ≠ 0 then (word >>> 16).setWidth 16 else word.setWidth 16

def Bytes.strobe (m : Bytes) (start : Nat) (value : Word) (strobe : Word) : Bytes :=
  fun a => if start ≤ a ∧ a < start + 4 ∧ strobe.getLsbD (a - start) then wordByte value (a - start)
    else m a

/-- A write of the strobed bytes of the word that holds `address`. -/
def Memory.dmaWrite (mem : Memory) (address value strobe : Word) : Option Memory :=
  if dmaWord address then
    let mem := mem.snoopDeviceWrite address
    some { mem with ram := mem.ram.strobe (address &&& ~~~3).toNat value strobe }
  else none

def expect : Option α → Service α
  | some a => pure a
  | none => throw ()

def dmaWrite (address value strobe : Word) : Service Unit := do
  let s ← get
  let mem ← expect (s.mem.dmaWrite address value strobe)
  set { s with mem }

/-- `virtio_disk_written`: the write through to the host's file. -/
def VirtioBlk.diskWritten (v : VirtioBlk) : VirtioBlk :=
  match v.file with
  | none => v
  | some fails => { v with
      fileWrites := v.fileWrites + 1
      writeError := v.writeError || fails v.fileWrites }

structure Descriptor where
  address : Word
  length : Word
  hasNext : Bool
  write : Bool
  next : Word
  deriving DecidableEq

/-- The four words of descriptor `index`; a nonzero high address word ends the read. -/
def readDescriptor (ram : Bytes) (v : VirtioBlk) (index : Word) : Option Descriptor := do
  let base := v.descLo + 16 * index
  let address ← dmaRead ram base
  let high ← dmaRead ram (base + 4)
  guard (high = 0)
  let length ← dmaRead ram (base + 8)
  let flags ← dmaRead ram (base + 12)
  return ⟨address, length, flags &&& 1 ≠ 0, flags &&& 2 ≠ 0, flags >>> 16⟩

/-- Descriptor `which` of a chain, if it is as it has to be there. -/
def chainDescriptor (ram : Bytes) (v : VirtioBlk) (which : Nat) (index : Word) :
    Option Descriptor := do
  let d ← readDescriptor ram v index
  guard (d.hasNext = (which ≠ 2 : Bool) ∧ (which = 0 → ¬ d.write) ∧ (which = 2 → d.write) ∧
    (which ≠ 2 → d.next < v.queueNum))
  return d

/-- A chain the device can follow: where it starts, and its three descriptors. -/
structure Chain where
  head : Word
  header : Descriptor
  data : Descriptor
  status : Descriptor

/-- The available ring's next chain; its head and links name descriptors of the queue. -/
def readChain (ram : Bytes) (v : VirtioBlk) : Option Chain := do
  let slot := v.lastAvail.setWidth 32 &&& (v.queueNum - 1)
  let head ← dmaRead16 ram (v.driverLo + 4 + 2 * slot)
  let head := head.setWidth 32
  guard (head < v.queueNum)
  let header ← chainDescriptor ram v 0 head
  let data ← chainDescriptor ram v 1 header.next
  let status ← chainDescriptor ram v 2 data.next
  return ⟨head, header, data, status⟩

structure Header where
  type : Word
  sector : Word
  sectorHi : Word
  deriving DecidableEq

def readHeader (ram : Bytes) (address : Word) : Option Header := do
  let type ← dmaRead ram address
  let sector ← dmaRead ram (address + 8)
  let sectorHi ← dmaRead ram (address + 12)
  return ⟨type, sector, sectorHi⟩

/-- Whether the request is one the disk can answer: its range, alignment and direction. -/
def Header.fits (h : Header) (drive : Drive) (data : Descriptor) : Bool :=
  h.sectorHi = 0 && h.sector.toNat < drive.sectors && data.length &&& 3 = 0 &&
    data.address &&& 3 = 0 && h.sector.toNat * 128 + data.length.toNat / 4 ≤ drive.size.toNat / 4 &&
    data.write = (h.type = 0 : Bool)

/-- Word `i` of a read: from the disk to the buffer. -/
def moveIn (sector buffer : Word) (i : Nat) : Service Unit := do
  let s ← get
  let word := s.v.drive.bytes.word (sector.toNat * 512 + 4 * i)
  dmaWrite (buffer + 4 * BitVec.ofNat 32 i) word 0xf

/-- Word `i` of a write, from the buffer to the disk. -/
def moveOut (sector buffer : Word) (i : Nat) : Service Unit := do
  let s ← get
  match dmaRead s.mem.ram (buffer + 4 * BitVec.ofNat 32 i) with
  | none =>
    set { s with v := s.v.diskWritten }
    throw ()
  | some word =>
    let drive := s.v.drive
    set { s with v := { s.v with drive := { drive with
      bytes := drive.bytes.write (sector.toNat * 512 + 4 * i) 4 word } } }

def moveData (h : Header) (data : Descriptor) : Service Unit :=
  let words := List.range (data.length.toNat / 4)
  if h.type = 0 then words.forM (moveIn h.sector data.address)
  else do
    words.forM (moveOut h.sector data.address)
    modify fun s => { s with v := s.v.diskWritten }

/-- The data of a request, and its status byte: 0, or 1 (IOERR). -/
def transferData (h : Header) (data : Descriptor) : Service Word := do
  moveData h data
  let s ← get
  return if s.v.writeError then 1 else 0

/-- The status byte: 2 (UNSUPP) for another type, 1 (IOERR) for a range. -/
def answer (h : Header) (data : Descriptor) : Service Word := do
  let s ← get
  if 1 < h.type then return 2
  else if !h.fits s.v.drive data then return 1
  else transferData h data

def writeUsed (c : Chain) (written result : Word) : Service Unit := do
  let v := (← get).v
  let used := v.deviceLo + 4 + 8 * (v.usedIdx.setWidth 32 &&& (v.queueNum - 1))
  dmaWrite c.status.address (result * 0x01010101) (1 <<< (c.status.address &&& 3).toNat)
  dmaWrite used c.head 0xf
  dmaWrite (used + 4) written 0xf
  dmaWrite (v.deviceLo + 2) ((v.usedIdx + 1).setWidth 32 * 0x10001)
    (if v.deviceLo &&& 2 ≠ 0 then 0x3 else 0xc)

/-- The next request of the available ring. -/
def performRequest : Service Unit := do
  let s ← get
  let c ← expect (readChain s.mem.ram s.v)
  let h ← expect (readHeader s.mem.ram c.header.address)
  let result ← answer h c.data
  writeUsed c (if result = 0 ∧ h.type = 0 then c.data.length + 1 else 1) result

/-- A request performed is behind the device, and raises its interrupt. -/
def Blk.served (s : Blk) : Blk :=
  { s with v := { s.v with
      usedIdx := s.v.usedIdx + 1
      lastAvail := s.v.lastAvail + 1
      interrupt := true } }

def Blk.virtioRequest : Service Unit := do
  performRequest
  modify Blk.served

abbrev virtioNeedsReset : BitVec 8 := 0x40

def Blk.needReset (s : Blk) : Blk :=
  { s with v := { s.v with status := s.v.status ||| virtioNeedsReset } }

/-- The loop of `virtio_serve`; `none` when it is not over in `fuel` rounds. -/
def serveLoop : (fuel : Nat) → Blk → Option Blk
  | 0, _ => none
  | fuel + 1, s =>
    match dmaRead16 s.mem.ram (s.v.driverLo + 2) with
    | none => some s.needReset
    | some available =>
      if available = s.v.lastAvail then some s
      else match Blk.virtioRequest s with
        | .ok _ s' => serveLoop fuel s'
        | .error _ s' => some s'.needReset

def virtioServe (fuel : Nat) (s : Blk) : Option Blk :=
  if s.v.descHi ≠ 0 ∨ s.v.driverHi ≠ 0 ∨ s.v.deviceHi ≠ 0 ∨ s.v.queueNum = 0 then some s.needReset
  else serveLoop fuel s

/-- `virtio_load`; `none` is a fault. -/
def virtioLoad (v : VirtioBlk) (offset : Nat) (width : Nat) : Option Word :=
  if width ≠ 4 then none
  else match offset with
    | 0x000 => some 0x74726976
    | 0x004 => some 2
    | 0x008 => some 2
    | 0x00c => some 0x594e4954
    | 0x010 => some (if v.featuresSel then 1 else 0)
    | 0x034 => some (if v.queueSelZero then 8 else 0)
    | 0x044 => some (if v.queueReady then 1 else 0)
    | 0x060 => some (if v.interrupt then 1 else 0)
    | 0x070 => some (v.status.setWidth 32)
    | 0x080 => some v.descLo
    | 0x084 => some v.descHi
    | 0x090 => some v.driverLo
    | 0x094 => some v.driverHi
    | 0x0a0 => some v.deviceLo
    | 0x0a4 => some v.deviceHi
    | 0x0fc => some 0
    | 0x100 => some (BitVec.ofNat 32 v.drive.sectors)
    | 0x104 => some 0
    | _ => none

def VirtioBlk.ofQueue (v : VirtioBlk) (f : VirtioBlk → VirtioBlk) : VirtioBlk :=
  if v.queueSelZero then f v else v

def VirtioBlk.writeStatus (v : VirtioBlk) (value : Word) : VirtioBlk :=
  let v := { v with status := value.setWidth 8 }
  if value &&& 0xff = 0 then { v with
    queueReady := false
    queueNum := 0
    lastAvail := 0
    usedIdx := 0
    interrupt := false
    featuresSel := false }
  else v

/-- Whether a notify is served: queue 0, ready, DRIVER_OK set and no reset needed. -/
def VirtioBlk.serves (v : VirtioBlk) (value : Word) : Bool :=
  value = 0 && v.queueReady && v.status &&& 4 ≠ 0 && v.status &&& virtioNeedsReset = 0

/-- A write to a register other than QueueNotify; `none` is a fault. -/
def VirtioBlk.write (v : VirtioBlk) (offset : Nat) (value : Word) : Option VirtioBlk :=
  match offset with
  | 0x014 => some { v with featuresSel := value = 1 }
  | 0x020 => some v
  | 0x024 => some v
  | 0x030 => some { v with queueSelZero := value = 0 }
  | 0x038 => some (v.ofQueue fun v => { v with
      queueNum := if value = 1 ∨ value = 2 ∨ value = 4 ∨ value = 8 then value else 0 })
  | 0x044 => some (v.ofQueue fun v => { v with queueReady := value &&& 1 ≠ 0 })
  | 0x064 => some (if value &&& 1 ≠ 0 then { v with interrupt := false } else v)
  | 0x070 => some (v.writeStatus value)
  | 0x080 => some (v.ofQueue fun v => { v with descLo := value })
  | 0x084 => some (v.ofQueue fun v => { v with descHi := value })
  | 0x090 => some (v.ofQueue fun v => { v with driverLo := value })
  | 0x094 => some (v.ofQueue fun v => { v with driverHi := value })
  | 0x0a0 => some (v.ofQueue fun v => { v with deviceLo := value })
  | 0x0a4 => some (v.ofQueue fun v => { v with deviceHi := value })
  | _ => none

/-- `virtio_store`; `none` when a notify is not served in `fuel` rounds. -/
def virtioStore (fuel : Nat) (s : Blk) (offset width : Nat) (value : Word) :
    Option (MemAccess × Blk) :=
  if width ≠ 4 then some (.fault, s)
  else if offset = 0x050 then
    if s.v.serves value then (virtioServe fuel s).map fun s' => (.ok, s') else some (.ok, s)
  else match s.v.write offset value with
    | none => some (.fault, s)
    | some v => some (.ok, { s with v })

end TinyProcessors
