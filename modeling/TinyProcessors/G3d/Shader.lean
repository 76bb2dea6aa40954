import TinyProcessors.Lib.Bytes

namespace TinyProcessors.G3d

/-- The instructions that each active lane executes on its own state. -/
inductive LaneOp
  | ldi | ldc | input | output | spc | mov | add | sub | mul | mad | min | max | abs | and | or
  | xor | shl | sra | addi | slt | seq
  deriving DecidableEq

/-- The instructions, those of the lanes and those of the mask stack. -/
inductive Op
  | stop
  | lane (o : LaneOp)
  | ifThen
  | otherwise
  | endIf
  | loop
  | endLoop
  | leave
  deriving DecidableEq

/-- The instructions in the order of their codes. -/
def ops : List Op :=
  [.stop, .lane .ldi, .lane .ldc, .lane .input, .lane .output, .lane .spc, .lane .mov, .lane .add,
    .lane .sub, .lane .mul, .lane .mad, .lane .min, .lane .max, .lane .abs, .lane .and, .lane .or,
    .lane .xor, .lane .shl, .lane .sra, .lane .addi, .lane .slt, .lane .seq, .ifThen, .otherwise,
    .endIf, .loop, .endLoop, .leave]

def Op.code (o : Op) : Nat := ops.idxOf o

abbrev Lane := Fin 4

abbrev Mask := BitVec 4

/-- `1u << l`. -/
def laneBit (l : Lane) : Mask := 1#4 <<< l.val

def opCode (w : Word) : Nat := (w >>> 26).toNat

def rd (w : Word) : BitVec 4 := w.extractLsb' 22 4

def ra (w : Word) : BitVec 4 := w.extractLsb' 18 4

def rb (w : Word) : BitVec 4 := w.extractLsb' 14 4

def rc (w : Word) : BitVec 4 := w.extractLsb' 10 4

def imm (w : Word) : BitVec 14 := w.extractLsb' 0 14

def target (w : Word) : Nat := (w.extractLsb' 0 7).toNat

structure Batch where
  program : Nat → Word
  consts : BitVec 5 → Word
  inputs : Nat → BitVec 3 → Word
  vcount : Word
  limit : Nat
  batch : Nat

def Batch.vid (b : Batch) (l : Lane) : Nat := b.batch * 4 + l.val

/-- What a lane instruction puts in its register. -/
abbrev Alu := Batch → Word → LaneOp → Lane → (BitVec 4 → Word) → Word

structure Entry where
  loop : Bool
  parent : Mask
  taken : Mask
  deriving DecidableEq

/-- The state of a batch; the stack has its innermost entry first. -/
structure Shader where
  regs : Lane → BitVec 4 → Word
  out : Lane → BitVec 3 → Word
  pred : Mask
  mask : Mask
  stack : List Entry
  pc : Nat
  count : Nat

inductive Fault
  | illegal
  | overflow
  | mismatch
  | limit
  | pc
  deriving DecidableEq

inductive Outcome
  | fault (e : Fault) (s : Shader)
  | done (s : Shader)
  | next (s : Shader)

namespace Shader

def setReg (s : Shader) (l : Lane) (r : BitVec 4) (v : Word) : Shader :=
  { s with regs := Function.update s.regs l (Function.update (s.regs l) r v) }

def setOut (s : Shader) (l : Lane) (i : BitVec 3) (v : Word) : Shader :=
  { s with out := Function.update s.out l (Function.update (s.out l) i v) }

def setPred (s : Shader) (l : Lane) (hit : Bool) : Shader :=
  { s with pred := s.pred &&& ~~~laneBit l ||| (if hit then laneBit l else 0) }

def laneStep (alu : Alu) (b : Batch) (w : Word) (o : LaneOp) (s : Shader) (l : Lane) : Shader :=
  let x := s.regs l (ra w)
  let y := s.regs l (rb w)
  match o with
  | .slt => s.setPred l (x.slt y)
  | .seq => s.setPred l (x = y)
  | .output => s.setOut l ((imm w).setWidth 3) x
  | o => s.setReg l (rd w) (alu b w o l (s.regs l))

def lanes (alu : Alu) (b : Batch) (w : Word) (o : LaneOp) (s : Shader) : Shader :=
  [0, 1, 2, 3].foldl (fun s l => if s.mask.getLsbD l.val then s.laneStep alu b w o l else s) s

/-- The entries that BREAK goes through, down to the innermost LOOP. -/
def breakLanes (mask : Mask) : List Entry → Option (List Entry)
  | [] => none
  | e :: stack =>
    if e.loop then some (e :: stack)
    else (breakLanes mask stack).map ({ e with parent := e.parent &&& ~~~mask } :: ·)

/-- The instruction `o` of word `w`, which is counted already. -/
def perform (alu : Alu) (b : Batch) (w : Word) (s : Shader) : Op → Outcome
  | .stop => if s.stack ≠ [] then .fault .mismatch s else .done s
  | .ifThen =>
    if s.stack.length = 8 then .fault .overflow s
    else
      let mask := s.mask &&& s.pred
      .next { s with
        stack := ⟨false, s.mask, mask⟩ :: s.stack
        mask := mask
        pc := if mask = 0 then target w else s.pc + 1 }
  | .otherwise =>
    match s.stack with
    | ⟨false, parent, taken⟩ :: _ =>
      let mask := parent &&& ~~~taken
      .next { s with mask := mask, pc := if mask = 0 then target w else s.pc + 1 }
    | _ => .fault .mismatch s
  | .endIf =>
    match s.stack with
    | ⟨false, parent, _⟩ :: stack => .next { s with mask := parent, stack := stack, pc := s.pc + 1 }
    | _ => .fault .mismatch s
  | .loop =>
    if s.stack.length = 8 then .fault .overflow s
    else .next { s with stack := ⟨true, s.mask, 0⟩ :: s.stack, pc := s.pc + 1 }
  | .endLoop =>
    match s.stack with
    | ⟨true, parent, _⟩ :: stack =>
      if s.mask ≠ 0 then .next { s with pc := target w }
      else .next { s with mask := parent, stack := stack, pc := s.pc + 1 }
    | _ => .fault .mismatch s
  | .leave =>
    match breakLanes s.mask s.stack with
    | none => .fault .mismatch s
    | some stack => .next { s with stack := stack, mask := 0, pc := s.pc + 1 }
  | .lane o => .next { s.lanes alu b w o with pc := s.pc + 1 }

def step (alu : Alu) (b : Batch) (s : Shader) : Outcome :=
  if s.count = b.limit then .fault .limit s
  else if 128 ≤ s.pc then .fault .pc s
  else
    match ops[opCode (b.program s.pc)]? with
    | none => .fault .illegal s
    | some o => { s with count := s.count + 1 }.perform alu b (b.program s.pc) o

/-- A batch that starts with the lanes of `mask` active. -/
def start (mask : Mask) : Shader where
  regs := fun _ _ => 0
  out := fun _ _ => 0
  pred := 0
  mask := mask
  stack := []
  pc := 0
  count := 0

/-- `n` instructions, or as many as there are before the end. -/
def runFor (alu : Alu) (b : Batch) : Nat → Shader → Outcome
  | 0, s => .next s
  | n + 1, s =>
    match s.step alu b with
    | .next s => runFor alu b n s
    | o => o

def run (alu : Alu) (b : Batch) (mask : Mask) : Outcome := runFor alu b (b.limit + 1) (start mask)

inductive Reaches (alu : Alu) (b : Batch) : Shader → Shader → Prop
  | refl (s : Shader) : Reaches alu b s s
  | next (h : Reaches alu b s s₁) (hs : s₁.step alu b = .next s₂) : Reaches alu b s s₂

end Shader

def qmul (a b : Word) : Word := (a.signExtend 64 * b.signExtend 64).extractLsb' 16 32

def emulatorAlu : Alu := fun b w o l r =>
  let x := r (ra w)
  let y := r (rb w)
  match o with
  | .ldi => (w <<< 10).sshiftRight 10
  | .ldc => b.consts ((imm w).setWidth 5)
  | .input => b.inputs (b.vid l) ((imm w).setWidth 3)
  | .spc =>
    match ((imm w).setWidth 2).toNat with
    | 0 => BitVec.ofNat 32 l.val
    | 1 => BitVec.ofNat 32 (b.vid l)
    | 2 => b.vcount
    | _ => 0
  | .mov => x
  | .add => x + y
  | .sub => x - y
  | .mul => qmul x y
  | .mad => r (rc w) + qmul x y
  | .min => if x.slt y then x else y
  | .max => if y.slt x then x else y
  | .abs => if x.slt 0 then 0 - x else x
  | .and => x &&& y
  | .or => x ||| y
  | .xor => x ^^^ y
  | .shl => x <<< ((imm w).setWidth 5).toNat
  | .sra => x.sshiftRight ((imm w).setWidth 5).toNat
  | .addi => x + (((imm w).setWidth 32) <<< 18).sshiftRight 18
  -- the three that have no register to write
  | .slt | .seq | .output => 0

/-- `s32` of the Python model. -/
def s32 (v : Int) : Int :=
  let v := v % 2 ^ 32
  if 2 ^ 31 ≤ v then v - 2 ^ 32 else v

/-- `u32` of the Python model. -/
def u32 (v : Int) : Int := v % 2 ^ 32

/-- `qmul` of the Python model. -/
def modelQmul (a b : Int) : Int := s32 ((s32 a * s32 b) >>> 16)

def modelAlu : Alu := fun b w o l r =>
  let x : Int := (r (ra w)).toNat
  let y : Int := (r (rb w)).toNat
  let k := (imm w).toNat
  BitVec.ofInt 32 <|
    match o with
    | .ldi => u32 (s32 ((w.toNat % 2 ^ 22 : Nat) * 2 ^ 10) >>> 10)
    | .ldc => (b.consts ((imm w).setWidth 5)).toNat
    | .input => (b.inputs (b.vid l) ((imm w).setWidth 3)).toNat
    | .spc =>
      match k % 4 with
      | 0 => l.val
      | 1 => b.vid l
      | 2 => b.vcount.toNat
      | _ => 0
    | .mov => x
    | .add => u32 (x + y)
    | .sub => u32 (x - y)
    | .mul => u32 (modelQmul x y)
    | .mad => u32 ((r (rc w)).toNat + modelQmul x y)
    | .min => if s32 x < s32 y then x else y
    | .max => if s32 y < s32 x then x else y
    | .abs => u32 |s32 x|
    | .and => (r (ra w) &&& r (rb w)).toNat
    | .or => (r (ra w) ||| r (rb w)).toNat
    | .xor => (r (ra w) ^^^ r (rb w)).toNat
    | .shl => u32 (x * 2 ^ (k % 32))
    | .sra => u32 (s32 x >>> (k % 32))
    | .addi => u32 (x + if k.testBit 13 then k - 2 ^ 14 else k)
    -- the three that have no register to write
    | .slt | .seq | .output => 0

end TinyProcessors.G3d
