import TinyProcessors.Gpu.Device

namespace TinyProcessors

def Gp.slot : Gp → BitVec 4
  | .op => 0
  | .color => 1
  | .x0 => 2
  | .y0 => 3
  | .x1 => 4
  | .y1 => 5
  | .x2 => 6
  | .y2 => 7
  | .w => 8
  | .h => 9
  | .src => 10
  | .stride => 11
  | .sw => 12
  | .sh => 13
  | .sx => 14
  | .sy => 15

structure ScanRegs where
  x : Word
  y : Word
  lo : Word
  top : Word
  hi : Word
  bottom : Word
  step : Word
  dx : Word
  dy : Word
  sy : Word
  err : Word
  ax : Word
  ay : Word
  bx : Word
  byy : Word
  cx : Word
  cy : Word

structure GpuRtl where
  p : BitVec 4 → Word
  state : BitVec 3
  status : Word
  reason : Word
  cycles : Word
  stalls : Word
  reads : Word
  writes : Word
  regs : ScanRegs
  pixel : BitVec 8

structure GpuPort where
  reset : Bool
  valid : Bool
  we : Bool
  addr : Word
  wdata : Word
  strb : BitVec 4
  memoryReady : Bool
  memoryRdata : BitVec 8
  windowStart : Word
  windowEnd : Word

structure GpuNext where
  good : Bool
  empty : Bool
  na : Word
  nb : Word
  nc : Word
  nd : Word
  ne : Word
  nf : Word
  nlo : Word
  ntop : Word
  nhi : Word
  nbottom : Word
  nstep : Word

def min2 (a b : Word) : Word := if a.slt b then a else b

def max2 (a b : Word) : Word := if b.slt a then a else b

/-- `coord`, on signed words. -/
def coordRtl (a : Word) : Bool := (-1024 : Word).sle a && a.sle 1023

def edgeIncluded (ax ay bx byy px py : Word) : Bool :=
  let e := (bx - ax) * (2 * py + 1 - 2 * ay) - (byy - ay) * (2 * px + 1 - 2 * ax)
  (0 : Word).slt e || (e = 0 && (byy.slt ay || (byy = ay && ax.slt bx)))

namespace GpuPort

def offset (i : GpuPort) : Word := (i.addr.extractLsb' 0 7).setWidth 32

def paramSel (i : GpuPort) : Bool := 0x40 ≤ i.offset

def index (i : GpuPort) : BitVec 4 := i.addr.extractLsb' 2 4

def resetWrite (i : GpuPort) : Bool :=
  i.valid && i.we && i.strb = 0xf && i.offset = 0 && i.wdata = gpuReset

def cancel (i : GpuPort) : Bool := i.reset || i.resetWrite

def readOk (i : GpuPort) : Bool := i.paramSel || (0x4 ≤ i.offset && i.offset ≤ 0x18)

end GpuPort

namespace GpuRtl

def param (g : GpuRtl) (k : Gp) : Word := g.p k.slot

def busy (g : GpuRtl) : Bool := g.status = 1

def startWrite (g : GpuRtl) (i : GpuPort) : Bool :=
  i.valid && i.we && i.strb = 0xf && i.offset = 0 && i.wdata = gpuStart && !g.busy

def writeOk (g : GpuRtl) (i : GpuPort) : Bool :=
  (i.paramSel && !g.busy) ||
    (i.offset = 0 && (i.wdata = gpuReset || (i.wdata = gpuStart && !g.busy)))

def error (g : GpuRtl) (i : GpuPort) : Bool :=
  i.strb ≠ 0xf || i.addr.extractLsb' 0 2 ≠ 0 || (if i.we then !g.writeOk i else !i.readOk)

def rdata (g : GpuRtl) (i : GpuPort) : Word :=
  if i.paramSel then g.p i.index
  else if i.offset = 0x4 then g.status
  else if i.offset = 0x8 then g.reason
  else if i.offset = 0xc then g.cycles
  else if i.offset = 0x10 then g.stalls
  else if i.offset = 0x14 then g.reads
  else if i.offset = 0x18 then g.writes
  else 0

def extent (g : GpuRtl) : BitVec 64 :=
  (g.param .sh).setWidth 64 * (g.param .stride).setWidth 64 + (g.param .sw).setWidth 64 -
    (g.param .stride).setWidth 64

def endAddress (g : GpuRtl) : BitVec 64 := (g.param .src).setWidth 64 + g.extent

def ramSource (g : GpuRtl) (i : GpuPort) : Bool :=
  0x80000000 ≤ g.param .src && g.endAddress ≤ 0x80000000 + 4194304 * 4 &&
    i.windowStart ≤ g.param .src && g.endAddress ≤ i.windowEnd.setWidth 64

def fbSource (g : GpuRtl) : Bool := g.param .src = fbAddress

def destAfterSource (g : GpuRtl) : Bool :=
  (g.param .sy * 320 + g.param .sx).slt (g.param .y0 * 320 + g.param .x0)

def good (g : GpuRtl) (i : GpuPort) : Bool :=
  let op := g.param .op
  let good := gpuFill ≤ op && op ≤ gpuTriangle && g.param .color ≤ 255 &&
    coordRtl (g.param .x0) && coordRtl (g.param .y0)
  let good := if op = gpuLine ∨ op = gpuTriangle then
    good && coordRtl (g.param .x1) && coordRtl (g.param .y1) else good
  let good := if op = gpuTriangle then
    good && coordRtl (g.param .x2) && coordRtl (g.param .y2) else good
  let good := if op = gpuFill ∨ op = gpuBlit then
    good && g.param .w ≤ 2048 && g.param .h ≤ 2048 else good
  if op = gpuBlit then
    good && coordRtl (g.param .sx) && coordRtl (g.param .sy) && 0 < g.param .sw &&
      g.param .sw ≤ 2048 && 0 < g.param .sh && g.param .sh ≤ 2048 &&
      g.param .sw ≤ g.param .stride && g.param .stride ≤ 65535 &&
      ((g.fbSource && g.param .sw = 320 && g.param .sh = 240 && g.param .stride = 320) ||
        g.ramSource i)
  else good

def next (g : GpuRtl) (i : GpuPort) : GpuNext :=
  let op := g.param .op
  let na := g.param .x0
  let nb := g.param .y0
  let nc := g.param .x1
  let nd := g.param .y1
  let ne := g.param .x2
  let nf := g.param .y2
  let nlo := max2 0 na
  let ntop := max2 0 nb
  let nhi := min2 320 (na + g.param .w)
  let nbottom := min2 240 (nb + g.param .h)
  let swap := op = gpuLine ∧ (nc.slt na ∨ (na = nc ∧ nd.slt nb))
  let (na, nb, nc, nd) := if swap then (nc, nd, na, nb) else (na, nb, nc, nd)
  let (nlo, ntop, nhi, nbottom, nstep) := if op = gpuBlit then
      (max2 nlo (na - g.param .sx), max2 ntop (nb - g.param .sy),
        min2 nhi (na + g.param .sw - g.param .sx), min2 nbottom (nb + g.param .sh - g.param .sy),
        if g.fbSource ∧ g.destAfterSource then -1 else 1)
    else (nlo, ntop, nhi, nbottom, (1 : Word))
  let area := if op = gpuTriangle then (nc - na) * (nf - nb) - (nd - nb) * (ne - na) else 0
  let turn := op = gpuTriangle ∧ area.slt 0
  let (nc, nd, ne, nf) := if turn then (ne, nf, nc, nd) else (nc, nd, ne, nf)
  let (nlo, ntop, nhi, nbottom) := if op = gpuTriangle then
      (max2 0 (min2 na (min2 nc ne)), max2 0 (min2 nb (min2 nd nf)),
        min2 320 (max2 na (max2 nc ne)), min2 240 (max2 nb (max2 nd nf)))
    else (nlo, ntop, nhi, nbottom)
  let empty := (op = gpuTriangle && area = 0) ||
    (op ≠ gpuLine && (nhi.sle nlo || nbottom.sle ntop))
  ⟨g.good i, empty, na, nb, nc, nd, ne, nf, nlo, ntop, nhi, nbottom, nstep⟩

def covered (g : GpuRtl) : Bool :=
  let s := g.regs
  (0 : Word).sle s.x && s.x.slt 320 && (0 : Word).sle s.y && s.y.slt 240 &&
    (g.param .op ≠ gpuTriangle ||
      (edgeIncluded s.ax s.ay s.bx s.byy s.x s.y && edgeIncluded s.bx s.byy s.cx s.cy s.x s.y &&
        edgeIncluded s.cx s.cy s.ax s.ay s.x s.y))

def sourceOffset (g : GpuRtl) : Word :=
  (g.param .sy + g.regs.y - g.regs.ay) * g.param .stride + g.param .sx + g.regs.x - g.regs.ax

def memoryValid (g : GpuRtl) (i : GpuPort) : Bool := (g.state = 3 || g.state = 4) && !i.cancel

def memoryWe (g : GpuRtl) : Bool := g.state = 4

def memoryAddr (g : GpuRtl) : Word :=
  if g.state = 3 then g.param .src + g.sourceOffset
  else 0x12000000 + g.regs.y * 320 + g.regs.x

def stepX (s : ScanRegs) : Bool := (-s.dy).sle (s.err * 2)

def stepY (s : ScanRegs) : Bool := (s.err * 2).sle s.dx

def lastLine (s : ScanRegs) : Bool := s.x = s.bx && s.y = s.byy

def lastColumn (s : ScanRegs) : Bool :=
  s.x = if (0 : Word).slt s.step then s.hi - 1 else s.lo

def lastRow (s : ScanRegs) : Bool :=
  s.y = if (0 : Word).slt s.step then s.bottom - 1 else s.top

/-- The registers after `cancel`. -/
def cleared : GpuRtl :=
  { p := fun _ => 0, state := 0, status := 0, reason := 0, cycles := 0, stalls := 0, reads := 0
    writes := 0, regs := ⟨0, 0, 0, 0, 0, 0, 0, 0, 0, 0, 0, 0, 0, 0, 0, 0, 0⟩, pixel := 0 }

def latched (g : GpuRtl) (n : GpuNext) : ScanRegs :=
  let s := { g.regs with
    ax := n.na, ay := n.nb, bx := n.nc, byy := n.nd, cx := n.ne, cy := n.nf
    lo := n.nlo, top := n.ntop, hi := n.nhi, bottom := n.nbottom, step := n.nstep }
  let absDy := if n.nd.slt n.nb then n.nb - n.nd else n.nd - n.nb
  if g.param .op = gpuLine then
    { s with
      x := n.na
      y := n.nb
      dx := n.nc - n.na
      dy := absDy
      sy := if n.nd.slt n.nb then -1 else 1
      err := n.nc - n.na - absDy }
  else
    { s with
      x := if (0 : Word).slt n.nstep then n.nlo else n.nhi - 1
      y := if (0 : Word).slt n.nstep then n.ntop else n.nbottom - 1 }

def setup (g : GpuRtl) (i : GpuPort) : GpuRtl :=
  let n := g.next i
  if !n.good then { g with status := 4, reason := 1, state := 0 }
  else if n.empty then { g with status := 2, state := 0 }
  else { g with regs := g.latched n, state := 2 }

def scan (g : GpuRtl) : GpuRtl :=
  { g with
    pixel := (g.param .color).extractLsb' 0 8
    state := if g.covered then if g.param .op = gpuBlit then 3 else 4 else 5 }

def transfer (g : GpuRtl) (i : GpuPort) : GpuRtl :=
  if !i.memoryReady then { g with stalls := g.stalls + 1 }
  else if g.state = 3 then { g with pixel := i.memoryRdata, reads := g.reads + 1, state := 4 }
  else { g with writes := g.writes + 1, state := 5 }

def advance (g : GpuRtl) : GpuRtl :=
  let s := g.regs
  if g.param .op = gpuLine then
    { g with
      status := if lastLine s then 2 else g.status
      state := if lastLine s then 0 else 2
      regs := { s with
        x := if stepX s then s.x + 1 else s.x
        y := if stepY s then s.y + s.sy else s.y
        err := s.err - (if stepX s then s.dy else 0) + (if stepY s then s.dx else 0) } }
  else if lastColumn s then
    { g with
      status := if lastRow s then 2 else g.status
      state := if lastRow s then 0 else 2
      regs := { s with
        x := if (0 : Word).slt s.step then s.lo else s.hi - 1
        y := s.y + s.step } }
  else { g with state := 2, regs := { s with x := s.x + s.step } }

/-- A cycle of a busy engine; `cycles` is counted already. -/
def phase (g : GpuRtl) (i : GpuPort) : GpuRtl :=
  if g.state = 1 then g.setup i
  else if g.state = 2 then g.scan
  else if g.state = 3 ∨ g.state = 4 then g.transfer i
  else if g.state = 5 then g.advance
  else { g with state := 0, status := 4, reason := 2 }

def writeParam (g : GpuRtl) (i : GpuPort) : GpuRtl :=
  if i.valid ∧ i.we ∧ ¬g.error i ∧ i.paramSel then
    { g with p := Function.update g.p i.index i.wdata }
  else g

/-- A clock edge. A parameter is written only while the engine is not busy. -/
def clock (g : GpuRtl) (i : GpuPort) : GpuRtl :=
  if i.cancel then cleared
  else if g.startWrite i then
    { g.writeParam i with
      state := 1, status := 1, reason := 0, cycles := 0, stalls := 0, reads := 0, writes := 0 }
  else if g.busy then
    { { g with cycles := g.cycles + 1 }.phase i with p := (g.writeParam i).p }
  else g.writeParam i

end GpuRtl

end TinyProcessors
