import TinyProcessors.Lib.Bytes

namespace TinyProcessors

inductive EngineStatus
  | idle
  | busy
  | done
  | fault
  deriving DecidableEq

/-- G1's parameters (`GP_OP` on), in the order of their registers. -/
inductive Gp
  | op | color | x0 | y0 | x1 | y1 | x2 | y2 | w | h | src | stride | sw | sh | sx | sy
  deriving DecidableEq

def Gp.registers : List Gp :=
  [.op, .color, .x0, .y0, .x1, .y1, .x2, .y2, .w, .h, .src, .stride, .sw, .sh, .sx, .sy]

/-- G1 without its pixels; the world says when a scan ends. -/
structure G1 where
  p : Gp → Word
  status : EngineStatus
  setup : Bool
  commandTick : Bool

def G1.reset : G1 := ⟨fun _ => 0, .idle, false, false⟩

abbrev G1.busy (g : G1) : Bool := g.status = .busy

abbrev gpuStart : Word := 1
abbrev gpuReset : Word := 2
abbrev gpuBlit : Word := 2

/-- The end of a blit's source: `source_end`. -/
def G1.sourceEnd (g : G1) : Nat :=
  (g.p .src).toNat + ((g.p .sh).toNat - 1) * (g.p .stride).toNat + (g.p .sw).toNat

/-- `gpu_access` for a store of one word; `none` when it is refused. -/
def G1.store (g : G1) (offset : Nat) (value : Word) : Option G1 :=
  if offset % 4 ≠ 0 then none
  else if 0x40 ≤ offset ∧ offset < 128 then
    if g.busy then none
    else (Gp.registers[(offset - 0x40) / 4]?).map fun k => { g with p := Function.update g.p k value }
  else if offset ≠ 0 then none
  else if value = gpuReset then some { G1.reset with commandTick := true }
  else if value ≠ gpuStart ∨ g.busy then none
  else some { g with status := .busy, setup := true, commandTick := true }

/-- `gpu_source_locked`. -/
def G1.sourceLocked (g : G1) (address width : Nat) : Bool :=
  g.busy && g.p .op = gpuBlit && 0x80000000 ≤ (g.p .src).toNat && g.p .sh ≠ 0 &&
    g.sourceEnd < 2 ^ 32 && (g.p .src).toNat < address + width && address < g.sourceEnd

/-- The RAM a job may reach: the two registers of the DMA window. -/
structure Window where
  start : Word
  stop : Word

def coord (a : Word) : Bool := -1024 ≤ a.toInt && a.toInt ≤ 1023

def G1.valid (g : G1) (window : Window) : Bool :=
  let op := g.p .op
  let source := if g.p .src = 0x12000000 then g.p .sw = 320 && g.p .sh = 240 && g.p .stride = 320
    else 0x80000000 ≤ g.p .src && g.sourceEnd ≤ 0x81000000 && window.start ≤ g.p .src &&
      g.sourceEnd ≤ window.stop.toNat
  1 ≤ op && op ≤ 4 && g.p .color ≤ 255 && coord (g.p .x0) && coord (g.p .y0) &&
    (op < 3 || (coord (g.p .x1) && coord (g.p .y1))) &&
    (op ≠ 4 || (coord (g.p .x2) && coord (g.p .y2))) &&
    (2 < op || (g.p .w ≤ 2048 && g.p .h ≤ 2048)) &&
    (op ≠ gpuBlit || (coord (g.p .sx) && coord (g.p .sy) && 0 < g.p .sw && g.p .sw ≤ 2048 &&
      0 < g.p .sh && g.p .sh ≤ 2048 && g.p .sw ≤ g.p .stride && g.p .stride ≤ 65535 && source))

/-- `gpu_tick`; `ends` says whether the job has nothing more to draw. -/
def G1.tick (g : G1) (window : Window) (ends : Bool) : G1 :=
  if g.commandTick then { g with commandTick := false }
  else if !g.busy then g
  else if g.setup && !g.valid window then { g with status := .fault, setup := false }
  else if ends then { g with status := .done, setup := false }
  else { g with setup := false }

/-- G2: the parameters a job is checked by, and how far it has come. -/
structure G2 where
  vcount : Word
  tcount : Word
  zbase : Word
  limit : Word
  status : EngineStatus
  validating : Bool
  clearing : Bool
  commandTick : Bool

def G2.reset : G2 := ⟨0, 0, 0, 0, .idle, false, false, false⟩

abbrev G2.busy (d : G2) : Bool := d.status = .busy

abbrev zBytes : Nat := 153600

/-- The windows of G2's memories: constants, program, vertices, triangles. -/
def g3dMemory (offset : Nat) : Bool :=
  (0x400 ≤ offset && offset < 0x480) || (0x800 ≤ offset && offset < 0xa00) ||
    (0x1000 ≤ offset && offset < 0x1400) || (0x1800 ≤ offset && offset < 0x1900)

/-- `g3d_access` for a store of one word; `none` when it is refused. -/
def G2.store (d : G2) (offset : Nat) (value : Word) (otherBusy : Bool) : Option G2 :=
  if offset % 4 ≠ 0 then none
  else if g3dMemory offset then if d.busy then none else some d
  else if offset = 0x40 then if d.busy then none else some { d with vcount := value }
  else if offset = 0x44 then if d.busy then none else some { d with tcount := value }
  else if offset = 0x48 then if d.busy then none else some { d with zbase := value }
  else if offset = 0x4c then if d.busy then none else some { d with limit := value }
  else if offset ≠ 0 then none
  else if value = 2 then some { G2.reset with commandTick := true }
  else if (value ≠ 1 ∧ value ≠ 3) ∨ d.busy ∨ otherBusy then none
  else some { d with
    status := .busy
    validating := true
    clearing := value = 3
    commandTick := true }

/-- `g3d_z_locked`. -/
def G2.zLocked (d : G2) (address width : Nat) : Bool :=
  d.busy && d.zbase.toNat < address + width && address < d.zbase.toNat + zBytes

def G2.valid (d : G2) (window : Window) : Bool :=
  d.zbase.toNat % 4 = 0 && 0x80000000 ≤ d.zbase && d.zbase.toNat - 0x80000000 ≤ 0x1000000 - zBytes &&
    window.start ≤ d.zbase && d.zbase.toNat + zBytes ≤ window.stop.toNat &&
    (d.clearing || (1 ≤ d.vcount && d.vcount ≤ 32 && d.tcount ≤ 64 && 1 ≤ d.limit &&
      d.limit ≤ 0xffff))

/-- `g3d_tick`. -/
def G2.tick (d : G2) (window : Window) (ends : Bool) : G2 :=
  if d.commandTick then { d with commandTick := false }
  else if !d.busy then d
  else if d.validating && !d.valid window then { d with status := .fault, validating := false }
  else if ends then { d with status := .done, validating := false }
  else { d with validating := false }

end TinyProcessors
