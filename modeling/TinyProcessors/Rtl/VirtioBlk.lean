import TinyProcessors.Lib.Bytes

namespace TinyProcessors

/-- The lanes of a word that `strb` has, from `new`; the others from `old`. -/
def mergeLanes (strb : BitVec 4) (old new : Word) : Word :=
  Bytes.word (fun k => if strb.getLsbD k then wordByte new k else wordByte old k) 0

/-- A word memory behind the bus: `rv32_ram` at 0x80000000. -/
abbrev WordRam := Nat → Word

def WordRam.index (addr : Word) : Nat := (addr - 0x80000000).toNat / 4 % 2 ^ 22

def WordRam.store (mem : WordRam) (addr : Word) (strb : BitVec 4) (wdata : Word) : WordRam :=
  fun i => if i = WordRam.index addr then mergeLanes strb (mem i) wdata else mem i

structure VirtioRegs where
  status : BitVec 8
  featuresSel : Bool
  queueSelZero : Bool
  queueReady : Bool
  queueNum : BitVec 4
  descLo : Word
  descHi : Word
  driverLo : Word
  driverHi : Word
  deviceLo : Word
  deviceHi : Word
  lastAvail : BitVec 16
  usedIdx : BitVec 16
  interruptStatus : Bool
  sized : queueNum ∈ [0, 1, 2, 4, 8]

/-- The request being served, by descriptor and word. -/
structure BlkRequest where
  which : BitVec 2
  word : BitVec 2
  head : BitVec 16
  next : BitVec 16
  headerAddr : Word
  dataAddr : Word
  dataLen : Word
  statusAddr : Word
  typeWord : Word
  sector : Word
  sectorHi : Word
  dataWrite : Bool
  copied : Word
  result : BitVec 8

structure DmaPort where
  valid : Bool
  we : Bool
  addr : Word
  strb : BitVec 4
  wdata : Word

inductive BlkState
  | idle
  | availIdx
  | ring
  | desc
  | header
  | copy
  | status
  | usedId
  | usedLen
  | usedIdx
  | next
  | fail
  deriving DecidableEq

/-- The device of rv32_virtio_blk.v, with the RAM that its DMA port is connected to. -/
structure BlkRtl where
  regs : VirtioRegs
  served : Bool
  state : BlkState
  req : BlkRequest
  dma : DmaPort
  diskSectors : Word
  disk : Nat → Word
  mem : WordRam

structure BlkPort where
  valid : Bool
  we : Bool
  addr : Word
  strb : BitVec 4
  wdata : Word

def BlkPort.offset (p : BlkPort) : BitVec 12 := p.addr.extractLsb' 0 12
def BlkPort.isWord (p : BlkPort) : Bool := p.strb = 0xf
def BlkPort.atNotify (p : BlkPort) : Bool := p.offset = 0x050

/-- Whether an access of this direction has a register at the offset. -/
def BlkPort.known (p : BlkPort) : Bool :=
  if p.offset ∈ [0x000, 0x004, 0x008, 0x00c, 0x010, 0x034, 0x060, 0x0fc, 0x100, 0x104] then !p.we
  else if p.offset ∈ [0x014, 0x020, 0x024, 0x030, 0x038, 0x050, 0x064] then p.we
  else p.offset ∈ [0x044, 0x070, 0x080, 0x084, 0x090, 0x094, 0x0a0, 0x0a4]

def BlkPort.error (p : BlkPort) : Bool := !(p.known && p.isWord)

namespace BlkRtl

def busy (d : BlkRtl) : Bool := d.state ≠ .idle

def notifyStarts (d : BlkRtl) (p : BlkPort) : Bool :=
  p.valid && p.we && p.isWord && p.atNotify && p.wdata = 0 && d.regs.queueReady &&
    d.regs.status.getLsbD 2 && !d.regs.status.getLsbD 6 && d.state = .idle && !d.served

def hold (d : BlkRtl) (p : BlkPort) : Bool :=
  p.atNotify && p.we && p.isWord && !d.served && (d.notifyStarts p || d.busy)

def ready (d : BlkRtl) (p : BlkPort) : Bool := p.valid && !d.hold p

def sectors (d : BlkRtl) : Word := if 16384 < d.diskSectors then 16384 else d.diskSectors

def inRam (a : Word) : Bool := 0x80000000 ≤ a && a - 0x80000000 < 0x1000000

end BlkRtl

def queueSize (wdata : Word) : BitVec 4 :=
  if wdata = 1 ∨ wdata = 2 ∨ wdata = 4 ∨ wdata = 8 then wdata.extractLsb' 0 4 else 0

theorem queueSize_mem (wdata : Word) : queueSize wdata ∈ [0, 1, 2, 4, 8] := by
  unfold queueSize
  split
  next h => rcases h with rfl | rfl | rfl | rfl <;> decide
  next => decide

def VirtioRegs.write (r : VirtioRegs) (offset : BitVec 12) (wdata : Word) : VirtioRegs :=
  match offset.toNat with
  | 0x014 => { r with featuresSel := wdata = 1 }
  | 0x030 => { r with queueSelZero := wdata = 0 }
  | 0x038 => if r.queueSelZero then
      { r with queueNum := queueSize wdata, sized := queueSize_mem wdata } else r
  | 0x044 => if r.queueSelZero then { r with queueReady := wdata.getLsbD 0 } else r
  | 0x064 => if wdata.getLsbD 0 then { r with interruptStatus := false } else r
  | 0x070 =>
    if wdata.extractLsb' 0 8 = 0 then { r with
      status := wdata.extractLsb' 0 8
      queueReady := false
      queueNum := 0
      lastAvail := 0
      usedIdx := 0
      interruptStatus := false
      featuresSel := false
      sized := by decide }
    else { r with status := wdata.extractLsb' 0 8 }
  | 0x080 => if r.queueSelZero then { r with descLo := wdata } else r
  | 0x084 => if r.queueSelZero then { r with descHi := wdata } else r
  | 0x090 => if r.queueSelZero then { r with driverLo := wdata } else r
  | 0x094 => if r.queueSelZero then { r with driverHi := wdata } else r
  | 0x0a0 => if r.queueSelZero then { r with deviceLo := wdata } else r
  | 0x0a4 => if r.queueSelZero then { r with deviceHi := wdata } else r
  | _ => r

def VirtioRegs.queueMask (r : VirtioRegs) : BitVec 3 := r.queueNum.extractLsb' 0 3 - 1

def VirtioRegs.availSlot (r : VirtioRegs) : Word :=
  r.driverLo + 4 + ((r.lastAvail.extractLsb' 0 3 &&& r.queueMask) ++ 0#1).setWidth 32

def VirtioRegs.usedSlot (r : VirtioRegs) : Word :=
  r.deviceLo + 4 + ((r.usedIdx.extractLsb' 0 3 &&& r.queueMask) ++ 0#3).setWidth 32

/-- Where descriptor `index` stands. -/
def VirtioRegs.descAt (r : VirtioRegs) (index : BitVec 16) : Word :=
  r.descLo + (index ++ 0#4).setWidth 32

namespace BlkRtl

def rdata (d : BlkRtl) : Word := d.mem (WordRam.index d.dma.addr)

def half (d : BlkRtl) : BitVec 16 :=
  if d.dma.addr.getLsbD 1 then d.rdata.extractLsb' 16 16 else d.rdata.extractLsb' 0 16

def descBase (d : BlkRtl) : Word :=
  d.regs.descAt (if d.req.which = 0 then d.req.head else d.req.next)

def diskIndex (d : BlkRtl) : Word := d.req.sector * 128 + d.req.copied

def rangeOk (d : BlkRtl) : Bool :=
  d.req.sectorHi = 0 && d.req.sector < d.sectors && d.req.dataLen.extractLsb' 0 2 = 0 &&
    d.req.dataAddr.extractLsb' 0 2 = 0 &&
    (d.req.sector ++ 0#7) + (d.req.dataLen.extractLsb' 2 30).setWidth 39 ≤ d.sectors ++ 0#7

def access (d : BlkRtl) (we : Bool) (addr : Word) (strb : BitVec 4) (wdata : Word) : BlkRtl :=
  if inRam addr then { d with dma := ⟨true, we, addr, strb, wdata⟩ } else { d with state := .fail }

/-- What every cycle does beside the state machine. -/
def clocked (d : BlkRtl) (p : BlkPort) (granted : Bool) : BlkRtl :=
  { d with
    regs := if p.valid && p.we && p.isWord && !p.error && !d.busy && !p.atNotify then
      d.regs.write p.offset p.wdata else d.regs
    served := if p.valid && d.ready p && p.atNotify && d.served then false else d.served
    dma := { d.dma with valid := d.dma.valid && !granted }
    mem := if d.dma.valid && granted && d.dma.we then
      d.mem.store d.dma.addr d.dma.strb d.dma.wdata else d.mem }

/- The state machine. `d` is the device before the clock edge, `n` what the edge has made of it so
far; a read takes its word from `d`. -/

def onIdle (d n : BlkRtl) (p : BlkPort) : BlkRtl :=
  if d.notifyStarts p then
    if d.regs.descHi ≠ 0 ∨ d.regs.driverHi ≠ 0 ∨ d.regs.deviceHi ≠ 0 ∨ d.regs.queueNum = 0 then
      { n with state := .fail }
    else { n with state := .availIdx }.access false (d.regs.driverLo + 2) 0xf 0
  else n

def onAvailIdx (d n : BlkRtl) : BlkRtl :=
  if d.half = d.regs.lastAvail then { n with state := .idle, served := true }
  else { n with state := .ring }.access false d.regs.availSlot 0xf 0

def onRing (d n : BlkRtl) : BlkRtl :=
  if d.regs.queueNum.setWidth 16 ≤ d.half then { n with state := .fail }
  else { n with
    req := { n.req with head := d.half, which := 0, word := 0 }
    state := .desc }.access false (d.regs.descAt d.half) 0xf 0

def latch (q : BlkRequest) (word : Word) : BlkRequest :=
  let q := if q.word = 0 then
    if q.which = 0 then { q with headerAddr := word }
    else if q.which = 1 then { q with dataAddr := word }
    else { q with statusAddr := word } else q
  if q.which = 1 ∧ q.word = 2 then { q with dataLen := word } else q

/-- A descriptor whose flags or whose link are not as they have to be. -/
def badFlags (r : VirtioRegs) (which : BitVec 2) (flags : Word) : Bool :=
  (which ≠ 2 : Bool) ≠ flags.getLsbD 0 || which = 0 && flags.getLsbD 1 ||
    which = 2 && !flags.getLsbD 1 ||
    which ≠ 2 && r.queueNum.setWidth 16 ≤ flags.extractLsb' 16 16

def onDesc (d n : BlkRtl) : BlkRtl :=
  let n := { n with req := latch d.req d.rdata }
  if d.req.word = 1 ∧ d.rdata ≠ 0 then { n with state := .fail }
  else if d.req.word ≠ 3 then
    { n with req := { n.req with word := d.req.word + 1 } }.access false
      (d.descBase + ((d.req.word + 1) ++ 0#2).setWidth 32) 0xf 0
  else if badFlags d.regs d.req.which d.rdata then { n with state := .fail }
  else if d.req.which = 2 then
    { n with req := { n.req with word := 0 }, state := .header }.access false d.req.headerAddr 0xf 0
  else
    { n with req := { n.req with
        dataWrite := if d.req.which = 1 then d.rdata.getLsbD 1 else d.req.dataWrite
        next := d.rdata.extractLsb' 16 16
        which := d.req.which + 1
        word := 0 } }.access false (d.regs.descAt (d.rdata.extractLsb' 16 16)) 0xf 0

def onHeader (d n : BlkRtl) : BlkRtl :=
  if d.req.word = 0 then
    { n with req := { n.req with typeWord := d.rdata, word := 2 } }.access false
      (d.req.headerAddr + 8) 0xf 0
  else if d.req.word = 2 then
    { n with req := { n.req with sector := d.rdata, word := 3 } }.access false
      (d.req.headerAddr + 12) 0xf 0
  else { n with req := { n.req with sectorHi := d.rdata, copied := 0 }, state := .copy }

def copyAddr (d : BlkRtl) : Word :=
  d.req.dataAddr + (d.req.copied.extractLsb' 0 30 ++ 0#2).setWidth 32

def onCopy (d n : BlkRtl) (granted : Bool) : BlkRtl :=
  if 1 < d.req.typeWord then { n with req := { n.req with result := 2 }, state := .status }
  else if !d.rangeOk || d.req.dataWrite ≠ (d.req.typeWord = 0 : Bool) then
    { n with req := { n.req with result := 1 }, state := .status }
  else if d.req.copied = (d.req.dataLen.extractLsb' 2 30).setWidth 32 then
    { n with req := { n.req with result := 0 }, state := .status }
  else if !d.dma.valid then
    if d.req.typeWord = 0 then n.access true d.copyAddr 0xf (d.disk d.diskIndex.toNat)
    else n.access false d.copyAddr 0xf 0
  else if granted then
    { n with
      disk := if d.req.typeWord = 1 then
        fun i => if i = d.diskIndex.toNat then d.rdata else d.disk i else d.disk
      req := { n.req with copied := d.req.copied + 1 } }
  else n

def onStatus (d n : BlkRtl) (granted : Bool) : BlkRtl :=
  if !d.dma.valid then
    n.access true d.req.statusAddr (1 <<< (d.req.statusAddr.extractLsb' 0 2).toNat)
      ((d.req.result ++ d.req.result ++ d.req.result ++ d.req.result).setWidth 32)
  else if granted then
    { n with state := .usedId }.access true d.regs.usedSlot 0xf (d.req.head.setWidth 32)
  else n

def onUsedId (d n : BlkRtl) : BlkRtl :=
  { n with state := .usedLen }.access true (d.regs.usedSlot + 4) 0xf
    (if d.req.result = 0 ∧ d.req.typeWord = 0 then d.req.dataLen + 1 else 1)

def onUsedLen (d n : BlkRtl) : BlkRtl :=
  { n with state := .usedIdx }.access true (d.regs.deviceLo + 2)
    (if d.regs.deviceLo.getLsbD 1 then 0x3 else 0xc)
    (((d.regs.usedIdx + 1) ++ (d.regs.usedIdx + 1)).setWidth 32)

def onUsedIdx (d n : BlkRtl) : BlkRtl :=
  { n with
    regs := { n.regs with
      usedIdx := d.regs.usedIdx + 1
      lastAvail := d.regs.lastAvail + 1
      interruptStatus := true }
    state := .next }

def onNext (d n : BlkRtl) : BlkRtl :=
  { n with state := .availIdx }.access false (d.regs.driverLo + 2) 0xf 0

def onFail (d n : BlkRtl) : BlkRtl :=
  { n with
    regs := { n.regs with status := d.regs.status ||| 0x40 }
    dma := { n.dma with valid := false }
    state := .idle
    served := true }

/-- One clock edge outside reset; `granted` is the RAM port's answer. -/
def cycle (p : BlkPort) (granted : Bool) (d : BlkRtl) : BlkRtl :=
  let n := d.clocked p granted
  let answered := d.dma.valid && granted
  match d.state with
  | .idle => d.onIdle n p
  | .availIdx => if answered then d.onAvailIdx n else n
  | .ring => if answered then d.onRing n else n
  | .desc => if answered then d.onDesc n else n
  | .header => if answered then d.onHeader n else n
  | .copy => d.onCopy n granted
  | .status => d.onStatus n granted
  | .usedId => if answered then d.onUsedId n else n
  | .usedLen => if answered then d.onUsedLen n else n
  | .usedIdx => if answered then d.onUsedIdx n else n
  | .next => d.onNext n
  | .fail => d.onFail n

end BlkRtl

end TinyProcessors
