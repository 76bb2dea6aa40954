import TinyProcessors.Emu.Engines
import TinyProcessors.G3d.Shader

namespace TinyProcessors.G3d

inductive Phase
  | idle | validate | index | batch | exec | vcheck | divide | fetch | area | test | zread | zwrite
  | pwrite | finish | clear
  deriving DecidableEq

inductive Error
  | none | param | internal | shader (e : Fault) | index
  deriving DecidableEq

structure Job where
  vcount : Word
  tcount : Word
  zbase : Word
  limit : Word
  consts : BitVec 5 → Word
  program : Nat → Word
  inputs : Nat → BitVec 3 → Word
  tris : Nat → Word

structure Counts where
  instructions : Word
  transfers : Word
  divides : Word
  pixels : Word
  zfail : Word
  culled : Word
  deriving DecidableEq

def Counts.zero : Counts := ⟨0, 0, 0, 0, 0, 0⟩

structure Vertex where
  sx : Int
  sy : Int
  z : Int
  r : Int
  g : Int
  b : Int
  valid : Bool

/-- The divider: its ticks, its division and the operands. -/
structure Divider where
  left : Nat
  k : Nat
  setup : Bool
  num : Nat → Int
  den : Int
  q : Nat → Int

/-- The triangle being drawn, after the swap that makes its area positive, and its box. -/
structure Triangle where
  v0 : Vertex
  v1 : Vertex
  v2 : Vertex
  area : Int
  left : Int
  right : Int
  top : Int
  bottom : Int

structure Pixel where
  x : Int
  y : Int
  z : Int
  r : Int
  g : Int
  b : Int

/-- `g3d_device`, with coordinates and products of 64 bits. -/
structure Device where
  job : Job
  status : EngineStatus
  error : Error
  faultPc : Word
  cycles : Word
  stalls : Word
  counts : Counts
  phase : Phase
  clearing : Bool
  commandTick : Bool
  index : Nat
  batch : Nat
  lane : Nat
  shader : Shader
  verts : Nat → Vertex
  div : Divider
  tri : Triangle
  pixel : Pixel

/-- `G3D_DIVIDE_TICKS`. -/
abbrev divideTicks : Nat := 35

/-- `G3D_W_NEAR`. -/
abbrev wNear : Int := 4096

def sat (n den : Int) : Int :=
  let q := n.tdiv den
  if 2 ^ 31 - 1 < q then 2 ^ 31 - 1 else if q < -2 ^ 31 then -2 ^ 31 else q

/-- The vertex in the guard band, from the outputs X, Y, Z and W. -/
def inGuard (x y z w : Int) : Bool :=
  wNear ≤ w && x ≤ 4 * w && -x ≤ 4 * w && y ≤ 4 * w && -y ≤ 4 * w && 0 ≤ z && z ≤ w

def colorOut (o : Word) : Int :=
  let s := o.toInt >>> 16
  if s < 0 then 0 else if 255 < s then 255 else s

/-- The center is on the inner side of an edge, or on an edge that has its pixels. -/
def inside (a b : Vertex) (px py : Int) : Bool :=
  let dx := b.sx - a.sx
  let dy := b.sy - a.sy
  let e := dx * (py - a.sy) - dy * (px - a.sx)
  0 < e || (e = 0 && (dy < 0 || (dy = 0 && 0 < dx)))

/-- Attribute `k` of a vertex: Z, R, G and B. -/
def Vertex.attribute (v : Vertex) (k : Nat) : Int :=
  if k = 0 then v.z else if k = 1 then v.r else if k = 2 then v.g else v.b

/-- The largest value of attribute `k`. -/
def attributeMax (k : Nat) : Int := if k = 0 then 65535 else 255

def bayer (x y : Int) : Int :=
  [0, 8, 2, 10, 12, 4, 14, 6, 3, 11, 1, 9, 15, 7, 13, 5].getD (y % 4 * 4 + x % 4).toNat 0

def dither (x y r g b : Int) : UInt8 :=
  let t := bayer x y
  let r := (min 255 (r + 2 * t)).toNat
  let g := (min 255 (g + 2 * t)).toNat
  let b := (min 255 (b + 4 * t)).toNat
  UInt8.ofNat (r &&& 0xe0 ||| (g >>> 3 &&& 0x1c) ||| b >>> 6)

/-- Vertex `k` of a triangle word. -/
def triVertex (t : Word) (k : Nat) : Nat := (t >>> (8 * k) &&& 255).toNat

def badIndex (vcount t : Word) : Bool :=
  vcount.toNat ≤ triVertex t 0 || vcount.toNat ≤ triVertex t 1 || vcount.toNat ≤ triVertex t 2

def batchMask (vcount : Word) (batch : Nat) : Mask :=
  [0, 1, 2, 3].foldl (fun (mask : Mask) (l : Lane) =>
    if batch * 4 + l.val < vcount.toNat then mask ||| laneBit l else mask) 0

namespace Device

def toG2 (d : Device) : G2 :=
  ⟨d.job.vcount, d.job.tcount, d.job.zbase, d.job.limit, d.status, d.phase = .validate, d.clearing,
    d.commandTick⟩

def batchOf (d : Device) : Batch :=
  ⟨d.job.program, d.job.consts, d.job.inputs, d.job.vcount, d.job.limit.toNat, d.batch⟩

def fault (d : Device) (e : Error) : Device :=
  { d with status := .fault, error := e, phase := .idle }

def nextTriangle (d : Device) : Device :=
  { d with
    index := d.index + 1
    phase := if d.index + 1 < d.job.tcount.toNat then .fetch else .finish }

def nextVertex (d : Device) : Device :=
  if d.lane + 1 < 4 ∧ d.batch * 4 + (d.lane + 1) < d.job.vcount.toNat then
    { d with lane := d.lane + 1, phase := .vcheck }
  else if (d.batch + 1) * 4 < d.job.vcount.toNat then
    { d with lane := d.lane + 1, batch := d.batch + 1, phase := .batch }
  else
    { d with
      lane := d.lane + 1
      batch := d.batch + 1
      index := 0
      phase := if d.job.tcount.toNat ≠ 0 then .fetch else .finish }

def nextPixel (d : Device) : Device :=
  if d.pixel.x < d.tri.right then
    { d with pixel := { d.pixel with x := d.pixel.x + 1 }, phase := .test }
  else if d.pixel.y < d.tri.bottom then
    { d with pixel := { d.pixel with x := d.tri.left, y := d.pixel.y + 1 }, phase := .test }
  else d.nextTriangle

def startDivides (d : Device) (setup : Bool) (num : Nat → Int) (den : Int) : Device :=
  { d with div := ⟨divideTicks, 0, setup, num, den, d.div.q⟩, phase := .divide }

def counted (d : Device) (s : Shader) : Counts :=
  { d.counts with
    instructions := d.counts.instructions + BitVec.ofNat 32 (s.count - d.shader.count) }

/-- `execute`: one shader instruction for the batch. -/
def execute (d : Device) : Device :=
  match d.shader.step emulatorAlu d.batchOf with
  | .fault e s =>
    { d with
      shader := s
      counts := d.counted s
      faultPc := BitVec.ofNat 32 s.pc ||| BitVec.ofNat 32 d.batch <<< 8 }.fault (.shader e)
  | .done s => { d with shader := s, counts := d.counted s, lane := 0, phase := .vcheck }
  | .next s => { d with shader := s, counts := d.counted s }

def outputs (d : Device) : BitVec 3 → Word := d.shader.out (Fin.ofNat 4 d.lane)

def vertex (d : Device) : Nat := d.batch * 4 + d.lane

def setVertex (d : Device) (v : Vertex) : Device :=
  { d with verts := Function.update d.verts d.vertex v }

def projections (x y z : Int) (k : Nat) : Int :=
  if k = 0 then x * 2560 else if k = 1 then y * 1920 else z * 65535

def vertexCheck (d : Device) : Device :=
  let o := d.outputs
  let x := (o 0).toInt
  let y := (o 1).toInt
  let z := (o 2).toInt
  let w := (o 3).toInt
  let valid := inGuard x y z w
  let d := d.setVertex { d.verts d.vertex with
    r := colorOut (o 4)
    g := colorOut (o 5)
    b := colorOut (o 6)
    valid := valid }
  if valid then d.startDivides false (projections x y z) w else d.nextVertex

def nextDivide (d : Device) : Device :=
  { d with div := { d.div with k := d.div.k + 1, left := divideTicks } }

def divideDone (d : Device) : Device :=
  let k := d.div.k
  let d := { d with
    div := { d.div with q := Function.update d.div.q k (sat (d.div.num k) d.div.den) }
    counts := { d.counts with divides := d.counts.divides + 1 } }
  if !d.div.setup then
    if k < 2 then d.nextDivide
    else
      (d.setVertex { d.verts d.vertex with
        sx := 2560 + d.div.q 0
        sy := 1920 - d.div.q 1
        z := d.div.q 2 }).nextVertex
  else if k < 7 then d.nextDivide
  else if d.tri.right < d.tri.left ∨ d.tri.bottom < d.tri.top then d.nextTriangle
  else { d with pixel := { d.pixel with x := d.tri.left, y := d.tri.top }, phase := .test }

def cull (d : Device) : Device :=
  { d with counts := { d.counts with culled := d.counts.culled + 1 } }.nextTriangle

def fetch (d : Device) : Device :=
  let t := d.job.tris d.index
  let d := { d with tri := { d.tri with
    v0 := d.verts (triVertex t 0)
    v1 := d.verts (triVertex t 1)
    v2 := d.verts (triVertex t 2) } }
  if !d.tri.v0.valid || !d.tri.v1.valid || !d.tri.v2.valid then d.cull
  else { d with phase := .area }

/-- The triangle with its corners in order, and its box on the screen. -/
def boxed (v0 v1 v2 : Vertex) (area : Int) : Triangle :=
  let lo := min (min v0.sx v1.sx) v2.sx >>> 4
  let hi := max (max v0.sx v1.sx) v2.sx >>> 4
  let top := min (min v0.sy v1.sy) v2.sy >>> 4
  let bottom := max (max v0.sy v1.sy) v2.sy >>> 4
  { v0 := v0
    v1 := v1
    v2 := v2
    area := area
    left := if lo < 0 then 0 else lo
    right := if 319 < hi then 319 else hi
    top := if top < 0 then 0 else top
    bottom := if 239 < bottom then 239 else bottom }

/-- The divisions that set up a triangle: the two gradients of each attribute. -/
def gradients (v0 v1 v2 : Vertex) (i : Nat) : Int :=
  let ex1 := v1.sx - v0.sx
  let ey1 := v1.sy - v0.sy
  let ex2 := v2.sx - v0.sx
  let ey2 := v2.sy - v0.sy
  let d1 := v1.attribute (i / 2) - v0.attribute (i / 2)
  let d2 := v2.attribute (i / 2) - v0.attribute (i / 2)
  if i % 2 = 0 then (d1 * ey2 - d2 * ey1) * 65536 else (d2 * ex1 - d1 * ex2) * 65536

def doubleArea (v0 v1 v2 : Vertex) : Int :=
  (v1.sx - v0.sx) * (v2.sy - v0.sy) - (v1.sy - v0.sy) * (v2.sx - v0.sx)

def area (d : Device) : Device :=
  let a := doubleArea d.tri.v0 d.tri.v1 d.tri.v2
  if 0 ≤ a then d.cull
  else
    let d := { d with tri := boxed d.tri.v0 d.tri.v2 d.tri.v1 (-a) }
    d.startDivides true (gradients d.tri.v0 d.tri.v1 d.tri.v2) d.tri.area

/-- Attribute `k` at the center of a pixel. -/
def interpolate (v0 : Vertex) (q : Nat → Int) (px py : Int) (k : Nat) : Int :=
  let s := q (2 * k) * (px - v0.sx) + q (2 * k + 1) * (py - v0.sy)
  let a := v0.attribute k + s >>> 16
  if a < 0 then 0 else if attributeMax k < a then attributeMax k else a

def test (d : Device) : Device :=
  let px := d.pixel.x * 16 + 8
  let py := d.pixel.y * 16 + 8
  if !inside d.tri.v0 d.tri.v1 px py || !inside d.tri.v1 d.tri.v2 px py ||
      !inside d.tri.v2 d.tri.v0 px py then d.nextPixel
  else
    let a := interpolate d.tri.v0 d.div.q px py
    { d with pixel := ⟨d.pixel.x, d.pixel.y, a 0, a 1, a 2, a 3⟩, phase := .zread }

def validate (d : Device) (window : Window) : Device :=
  if !d.toG2.valid window then d.fault .param
  else if d.clearing then { d with index := 0, phase := .clear }
  else
    { d with
      index := 0
      batch := 0
      phase := if d.job.tcount.toNat ≠ 0 then .index else .batch }

def checkIndex (d : Device) : Device :=
  if badIndex d.job.vcount (d.job.tris d.index) then d.fault .index
  else
    { d with
      index := d.index + 1
      phase := if d.index + 1 = d.job.tcount.toNat then .batch else .index }

def startBatch (d : Device) : Device :=
  { d with shader := .start (batchMask d.job.vcount d.batch), phase := .exec }

def stall (d : Device) : Device := { d with stalls := d.stalls + 1 }

def transfer (d : Device) : Device :=
  { d with counts := { d.counts with transfers := d.counts.transfers + 1 } }

def zoff (d : Device) : Nat :=
  wrap32 (d.job.zbase.toNat - 0x80000000 + 2 * (d.pixel.y * 320 + d.pixel.x))

def fbAt (d : Device) : Nat := (d.pixel.y * 320 + d.pixel.x).toNat

end Device

structure Board where
  dev : Device
  ram : Bytes
  fb : Bytes

def depthAt (ram : Bytes) (i : Nat) : Nat := (ram i).toNat ||| (ram (i + 1)).toNat <<< 8

def setDepth (ram : Bytes) (i : Nat) (z : Int) : Bytes :=
  Function.update (Function.update ram i (UInt8.ofNat z.toNat)) (i + 1) (UInt8.ofNat (z.toNat / 256))

namespace Board

def zread (s : Board) : Board :=
  let d := s.dev.transfer
  if d.pixel.z < depthAt s.ram d.zoff then { s with dev := { d with phase := .zwrite } }
  else
    { s with
      dev := { d with counts := { d.counts with zfail := d.counts.zfail + 1 } }.nextPixel }

def zwrite (s : Board) : Board :=
  { s with
    dev := { s.dev.transfer with phase := .pwrite }
    ram := setDepth s.ram s.dev.zoff s.dev.pixel.z }

def pwrite (s : Board) : Board :=
  let d := s.dev.transfer
  let p := d.pixel
  { s with
    dev := { d with counts := { d.counts with pixels := d.counts.pixels + 1 } }.nextPixel
    fb := Function.update s.fb d.fbAt (dither p.x p.y p.r p.g p.b) }

def clear (s : Board) : Board :=
  let d := s.dev.transfer
  { s with
    dev := { d with
      index := d.index + 1
      phase := if d.index + 1 = zBytes / 4 then .finish else .clear }
    ram := s.ram.overwrite (d.job.zbase.toNat - 0x80000000 + 4 * d.index) 4 (fun _ => 0xff) }

/-- A tick of a busy device; `cycles` is counted already. -/
def phase (window : Window) (hold : Bool) (s : Board) : Board :=
  let d := s.dev
  match d.phase with
  | .validate => { s with dev := d.validate window }
  | .index => { s with dev := d.checkIndex }
  | .batch => { s with dev := d.startBatch }
  | .exec => { s with dev := d.execute }
  | .vcheck => { s with dev := d.vertexCheck }
  | .divide =>
    let d := { d with div := { d.div with left := d.div.left - 1 } }
    { s with dev := if d.div.left = 0 then d.divideDone else d }
  | .fetch => { s with dev := d.fetch }
  | .area => { s with dev := d.area }
  | .test => { s with dev := d.test }
  | .zread => if hold then { s with dev := d.stall } else s.zread
  | .zwrite => if hold then { s with dev := d.stall } else s.zwrite
  | .pwrite => if hold then { s with dev := d.stall } else s.pwrite
  | .clear => if hold then { s with dev := d.stall } else s.clear
  | .finish => { s with dev := { d with status := .done, phase := .idle } }
  | .idle => { s with dev := d.fault .internal }

/-- `g3d_tick`. -/
def tick (window : Window) (hold : Bool) (s : Board) : Board :=
  if s.dev.commandTick then { s with dev := { s.dev with commandTick := false } }
  else if s.dev.status ≠ .busy then s
  else { s with dev := { s.dev with cycles := s.dev.cycles + 1 } }.phase window hold

end Board

namespace Device

/-- `g3d_device_reset`, which leaves the windows. -/
def reset (d : Device) : Device where
  job := { d.job with vcount := 0, tcount := 0, zbase := 0, limit := 0 }
  status := .idle
  error := .none
  faultPc := 0
  cycles := 0
  stalls := 0
  counts := .zero
  phase := .idle
  clearing := false
  commandTick := false
  index := 0
  batch := 0
  lane := 0
  shader := .start 0
  verts := fun _ => ⟨0, 0, 0, 0, 0, 0, false⟩
  div := ⟨0, 0, false, fun _ => 0, 0, fun _ => 0⟩
  tri := ⟨⟨0, 0, 0, 0, 0, 0, false⟩, ⟨0, 0, 0, 0, 0, 0, false⟩, ⟨0, 0, 0, 0, 0, 0, false⟩, 0, 0, 0, 0, 0⟩
  pixel := ⟨0, 0, 0, 0, 0, 0⟩

def command (d : Device) (clearing : Bool) : Device :=
  { d with
    status := .busy
    phase := .validate
    clearing := clearing
    error := .none
    faultPc := 0
    cycles := 0
    stalls := 0
    counts := .zero
    commandTick := true }

def storeJob (j : Job) (offset : Nat) (value : Word) : Job :=
  let word (base : Nat) := (offset - base) / 4
  if offset = 0x40 then { j with vcount := value }
  else if offset = 0x44 then { j with tcount := value }
  else if offset = 0x48 then { j with zbase := value }
  else if offset = 0x4c then { j with limit := value }
  else if offset < 0x480 then
    { j with consts := Function.update j.consts (BitVec.ofNat 5 (word 0x400)) value }
  else if offset < 0xa00 then { j with program := Function.update j.program (word 0x800) value }
  else if offset < 0x1400 then
    let slots := Function.update (j.inputs (word 0x1000 / 8)) (BitVec.ofNat 3 (word 0x1000)) value
    { j with inputs := Function.update j.inputs (word 0x1000 / 8) slots }
  else { j with tris := Function.update j.tris (word 0x1800) value }

/-- `g3d_access` for a store of one word; `none` when it is refused. -/
def store (d : Device) (offset : Nat) (value : Word) (otherBusy : Bool) : Option Device :=
  if offset % 4 ≠ 0 then none
  else if g3dMemory offset ∨ offset = 0x40 ∨ offset = 0x44 ∨ offset = 0x48 ∨ offset = 0x4c then
    if d.status = .busy then none else some { d with job := storeJob d.job offset value }
  else if offset ≠ 0 then none
  else if value = 2 then some { d.reset with commandTick := true }
  else if (value ≠ 1 ∧ value ≠ 3) ∨ d.status = .busy ∨ otherBusy then none
  else some (d.command (value = 3))

end Device

end TinyProcessors.G3d
