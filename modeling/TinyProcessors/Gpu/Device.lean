import TinyProcessors.Emu.Engines
import TinyProcessors.Lib.Raster

namespace TinyProcessors

inductive GpuPhase
  | idle | setup | scan | read | write | advance
  deriving DecidableEq

inductive GpuError
  | none | invalid | internal
  deriving DecidableEq

/-- The registers of a scan; a job is checked before they are set. -/
structure Plot where
  cursor : Point
  lo : Int
  top : Int
  hi : Int
  bottom : Int
  step : Int
  dx : Int
  dy : Int
  sy : Int
  err : Int
  a : Point
  b : Point
  c : Point

/-- `gpu_device`. -/
structure Gpu where
  p : Gp → Word
  status : EngineStatus
  error : GpuError
  cycles : Word
  stalls : Word
  reads : Word
  writes : Word
  plot : Plot
  phase : GpuPhase
  pixel : UInt8
  commandTick : Bool

abbrev gpuFill : Word := 1
abbrev gpuLine : Word := 3
abbrev gpuTriangle : Word := 4

abbrev fbAddress : Word := 0x12000000

def edge (a b q : Point) : Int :=
  (b.x - a.x) * (2 * q.y + 1 - 2 * a.y) - (b.y - a.y) * (2 * q.x + 1 - 2 * a.x)

/-- The center is on the inner side, or on an edge that has its pixels. -/
def inside (a b q : Point) : Bool :=
  0 < edge a b q || (edge a b q = 0 && (b.y < a.y || (b.y = a.y && a.x < b.x)))

def onScreen (q : Point) : Bool := 0 ≤ q.x && q.x < 320 && 0 ≤ q.y && q.y < 240

def pixelAt (q : Point) : Nat := (q.y * 320 + q.x).toNat

/-- A parameter as `int32_t`. -/
abbrev Gp.int (k : Gp) (p : Gp → Word) : Int := (p k).toInt

namespace Plot

def corners (d : Plot) (p : Gp → Word) : Plot :=
  { d with
    a := ⟨Gp.x0.int p, Gp.y0.int p⟩
    b := ⟨Gp.x1.int p, Gp.y1.int p⟩
    c := ⟨Gp.x2.int p, Gp.y2.int p⟩ }

def ordered (d : Plot) : Plot :=
  if d.b.x < d.a.x ∨ (d.a.x = d.b.x ∧ d.b.y < d.a.y) then { d with a := d.b, b := d.a } else d

def lineStart (d : Plot) : Plot :=
  let dx := d.b.x - d.a.x
  let dy := d.b.y - d.a.y
  let abs := if dy < 0 then -dy else dy
  { d with
    cursor := d.a
    dx := dx
    dy := abs
    sy := if dy < 0 then -1 else 1
    err := dx - abs }

def clipRect (d : Plot) (p : Gp → Word) : Plot :=
  { d with
    lo := max 0 d.a.x
    top := max 0 d.a.y
    hi := min 320 (d.a.x + Gp.w.int p)
    bottom := min 240 (d.a.y + Gp.h.int p) }

/-- The box of a blit, clipped to its source too, and the direction of its scan. -/
def clipBlit (d : Plot) (p : Gp → Word) : Plot :=
  let sx := Gp.sx.int p
  let sy := Gp.sy.int p
  { d with
    lo := max d.lo (d.a.x - sx)
    top := max d.top (d.a.y - sy)
    hi := min d.hi (d.a.x + Gp.sw.int p - sx)
    bottom := min d.bottom (d.a.y + Gp.sh.int p - sy)
    step := if p .src = fbAddress ∧ sy * 320 + sx < d.a.y * 320 + d.a.x then -1 else d.step }

def area (d : Plot) : Int :=
  (d.b.x - d.a.x) * (d.c.y - d.a.y) - (d.b.y - d.a.y) * (d.c.x - d.a.x)

/-- The corners of a triangle in the order that makes its area positive. -/
def oriented (d : Plot) : Plot := if d.area < 0 then { d with b := d.c, c := d.b } else d

def clipTriangle (d : Plot) : Plot :=
  { d with
    lo := max 0 (min d.a.x (min d.b.x d.c.x))
    top := max 0 (min d.a.y (min d.b.y d.c.y))
    hi := min 320 (max d.a.x (max d.b.x d.c.x))
    bottom := min 240 (max d.a.y (max d.b.y d.c.y)) }

def empty (d : Plot) : Bool := d.hi ≤ d.lo || d.bottom ≤ d.top

def firstX (d : Plot) : Int := if 0 < d.step then d.lo else d.hi - 1

def firstY (d : Plot) : Int := if 0 < d.step then d.top else d.bottom - 1

def lastX (d : Plot) : Int := if 0 < d.step then d.hi - 1 else d.lo

def lastY (d : Plot) : Int := if 0 < d.step then d.bottom - 1 else d.top

/-- The SETUP phase of valid parameters, and whether there is something to scan. -/
def setup (p : Gp → Word) (d : Plot) : Plot × Bool :=
  let op := p .op
  let d := d.corners p
  if op = gpuLine then (d.ordered.lineStart, true)
  else
    let d := if op = gpuFill ∨ op = gpuBlit then d.clipRect p else d
    let d := { d with step := 1 }
    let d := if op = gpuBlit then d.clipBlit p else d
    if op = gpuTriangle ∧ d.area = 0 then (d, false)
    else
      let d := if op = gpuTriangle then d.oriented.clipTriangle else d
      if d.empty then (d, false) else ({ d with cursor := ⟨d.firstX, d.firstY⟩ }, true)

def covers (p : Gp → Word) (d : Plot) (q : Point) : Bool :=
  onScreen q &&
    (p .op ≠ gpuTriangle || (inside d.a d.b q && inside d.b d.c q && inside d.c d.a q))

def sourceAt (p : Gp → Word) (d : Plot) (q : Point) : Nat :=
  wrap32 ((Gp.sy.int p + q.y - d.a.y) * (p .stride).toNat + (Gp.sx.int p + q.x - d.a.x))

def sourcePixel (p : Gp → Word) (d : Plot) (ram : Bytes) (q : Point) (fb : Bytes) : UInt8 :=
  if p .src = fbAddress then fb (d.sourceAt p q)
  else ram (wrap32 ((p .src).toNat - 0x80000000 + d.sourceAt p q))

def lineNext (d : Plot) : Plot :=
  let e2 := 2 * d.err
  let right := -d.dy ≤ e2
  let down := e2 ≤ d.dx
  { d with
    cursor := ⟨if right then d.cursor.x + 1 else d.cursor.x,
      if down then d.cursor.y + d.sy else d.cursor.y⟩
    err := d.err - (if right then d.dy else 0) + (if down then d.dx else 0) }

def boxNext (d : Plot) : Plot :=
  if d.cursor.x = d.lastX then { d with cursor := ⟨d.firstX, d.cursor.y + d.step⟩ }
  else { d with cursor := ⟨d.cursor.x + d.step, d.cursor.y⟩ }

def last (p : Gp → Word) (d : Plot) : Bool :=
  if p .op = gpuLine then d.cursor = d.b else d.cursor.x = d.lastX && d.cursor.y = d.lastY

def next (p : Gp → Word) (d : Plot) : Plot := if p .op = gpuLine then d.lineNext else d.boxNext

end Plot

namespace Gpu

def toG1 (g : Gpu) : G1 := ⟨g.p, g.status, g.phase = .setup, g.commandTick⟩

/-- `gpu_device_reset`. -/
def reset : Gpu :=
  { p := fun _ => 0, status := .idle, error := .none, cycles := 0, stalls := 0, reads := 0
    writes := 0, plot := ⟨⟨0, 0⟩, 0, 0, 0, 0, 0, 0, 0, 0, 0, ⟨0, 0⟩, ⟨0, 0⟩, ⟨0, 0⟩⟩, phase := .idle
    pixel := 0, commandTick := false }

def command (g : Gpu) : Gpu :=
  { g with
    status := .busy
    phase := .setup
    error := .none
    cycles := 0
    stalls := 0
    reads := 0
    writes := 0
    commandTick := true }

/-- `gpu_access` for a store of one word; `none` when it is refused. -/
def store (g : Gpu) (offset : Nat) (value : Word) : Option Gpu :=
  if offset % 4 ≠ 0 then none
  else if 0x40 ≤ offset ∧ offset < 128 then
    if g.status = .busy then none
    else (Gp.registers[(offset - 0x40) / 4]?).map fun k => { g with p := Function.update g.p k value }
  else if offset ≠ 0 then none
  else if value = gpuReset then some { reset with commandTick := true }
  else if value ≠ gpuStart ∨ g.status = .busy then none
  else some g.command

def stop (g : Gpu) (status : EngineStatus) (error : GpuError) : Gpu :=
  { g with status := status, error := error, phase := .idle }

def setup (g : Gpu) (window : Window) : Gpu :=
  if g.toG1.valid window then
    match g.plot.setup g.p with
    | (plot, true) => { g with plot := plot, phase := .scan }
    | (plot, false) => { g with plot := plot, phase := .idle, status := .done }
  else g.stop .fault .invalid

def scan (g : Gpu) : Gpu :=
  { g with
    pixel := UInt8.ofNat (g.p .color).toNat
    phase := if g.plot.covers g.p g.plot.cursor then
        if g.p .op = gpuBlit then .read else .write
      else .advance }

def advance (g : Gpu) : Gpu :=
  { g with
    plot := g.plot.next g.p
    status := if g.plot.last g.p then .done else .busy
    phase := if g.plot.last g.p then .idle else .scan }

end Gpu

structure Screen where
  gpu : Gpu
  fb : Bytes

namespace Screen

/-- A tick of a busy device; `cycles` is counted already. -/
def phase (ram : Bytes) (window : Window) (hold : Bool) (s : Screen) : Screen :=
  let g := s.gpu
  match g.phase with
  | .setup => { s with gpu := g.setup window }
  | .scan => { s with gpu := g.scan }
  | .read =>
    if hold then { s with gpu := { g with stalls := g.stalls + 1 } }
    else { s with gpu := { g with
      pixel := g.plot.sourcePixel g.p ram g.plot.cursor s.fb
      reads := g.reads + 1
      phase := .write } }
  | .write =>
    if hold then { s with gpu := { g with stalls := g.stalls + 1 } }
    else
      { gpu := { g with writes := g.writes + 1, phase := .advance }
        fb := Function.update s.fb (pixelAt g.plot.cursor) g.pixel }
  | .advance => { s with gpu := g.advance }
  | .idle => { s with gpu := g.stop .fault .internal }

/-- `gpu_tick`. -/
def tick (ram : Bytes) (window : Window) (hold : Bool) (s : Screen) : Screen :=
  if s.gpu.commandTick then { s with gpu := { s.gpu with commandTick := false } }
  else if s.gpu.status ≠ .busy then s
  else { s with gpu := { s.gpu with cycles := s.gpu.cycles + 1 } }.phase ram window hold

end Screen

end TinyProcessors
