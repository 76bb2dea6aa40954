import TinyProcessors.G3d.Shader

namespace TinyProcessors.G3d

abbrev Text := List Char

/-- The methods of Python's `str`, and its conversions, that the assembler calls. -/
structure Python where
  splitlines : Text → List Text
  strip : Text → Text
  upper : Text → Text
  lower : Text → Text
  isdigit : Text → Bool
  /-- `int(s)` -/
  int : Text → Option Int
  /-- `int(s, 0)` -/
  intLiteral : Text → Option Int
  /-- `round(float(s) * ONE)` -/
  fixed : Text → Option Int

/-- What the assembler raises; `python` is for an exception of Python itself. -/
inductive AsmError
  | python
  | unknownMnemonic (name : Text)
  | operands (name : Text) (pc arity given : Nat)
  | badRegister (tok : Text)
  | outside (tok : Text) (lo hi : Int)
  | ldiOutside (tok : Text)
  | elseWithoutIf (pc : Nat)
  | endIfWithoutIf (pc : Nat)
  | endLoopWithoutLoop (pc : Nat)
  | breakOutsideLoop (pc : Nat)
  | tooDeep (pc : Nat)
  | unclosed (loop : Bool) (pc : Nat)
  | noEnd
  | tooLong (words : Nat)

abbrev Asm := Except AsmError

def mnemonic : Op → Text
  | .stop => "END".toList
  | .ifThen => "IF".toList
  | .otherwise => "ELSE".toList
  | .endIf => "ENDIF".toList
  | .loop => "LOOP".toList
  | .endLoop => "ENDLOOP".toList
  | .leave => "BREAK".toList
  | .lane o =>
    match o with
    | .ldi => "LDI".toList
    | .ldc => "LDC".toList
    | .input => "IN".toList
    | .output => "OUT".toList
    | .spc => "SPC".toList
    | .mov => "MOV".toList
    | .add => "ADD".toList
    | .sub => "SUB".toList
    | .mul => "MUL".toList
    | .mad => "MAD".toList
    | .min => "MIN".toList
    | .max => "MAX".toList
    | .abs => "ABS".toList
    | .and => "AND".toList
    | .or => "OR".toList
    | .xor => "XOR".toList
    | .shl => "SHL".toList
    | .sra => "SRA".toList
    | .addi => "ADDI".toList
    | .slt => "SLT".toList
    | .seq => "SEQ".toList

def arity : Op → Nat
  | .lane .ldi | .lane .ldc | .lane .input | .lane .output | .lane .spc | .lane .mov | .lane .abs
  | .lane .slt | .lane .seq => 2
  | .lane .mad => 4
  | .lane _ => 3
  | _ => 0

def encode (o : Op) (rd ra rb rc imm : Int) : Word :=
  BitVec.ofNat 32 o.code <<< 26 ||| (BitVec.ofInt 4 rd).setWidth 32 <<< 22 |||
    (BitVec.ofInt 4 ra).setWidth 32 <<< 18 ||| (BitVec.ofInt 4 rb).setWidth 32 <<< 14 |||
    (BitVec.ofInt 4 rc).setWidth 32 <<< 10 ||| (BitVec.ofInt 14 imm).setWidth 32

def raises : Option α → Asm α
  | none => .error .python
  | some a => .ok a

def reg (py : Python) (tok : Text) : Asm Int :=
  match tok with
  | [] => .error (.badRegister tok)
  | c :: digits =>
    if (c = 'r' ∨ c = 'R') ∧ py.isdigit digits then do
      let v ← raises (py.int digits)
      if v < 16 then return v else .error (.badRegister tok)
    else .error (.badRegister tok)

def num (py : Python) (tok : Text) (lo hi : Int) : Asm Int := do
  let v ← raises (py.intLiteral tok)
  if lo ≤ v ∧ v ≤ hi then return v else .error (.outside tok lo hi)

/-- The value of LDI, with an `f` at its end or without. -/
def ldiValue (py : Python) (v : Text) : Asm Int := do
  let value ← raises (if v.getLast? = some 'f' then py.fixed v.dropLast else py.intLiteral v)
  if -2 ^ 21 ≤ value ∧ value < 2 ^ 21 then return value else .error (.ldiOutside v)

def special (py : Python) (tok : Text) : Asm Int :=
  if py.lower tok = "lane".toList then return 0
  else if py.lower tok = "vid".toList then return 1
  else if py.lower tok = "vcount".toList then return 2
  else .error .python

/-- The word of a lane instruction; its operands are as many as it takes. -/
def encodeLane (py : Python) (o : LaneOp) (args : List Text) : Asm Word :=
  match o, args with
  | .ldi, [d, v] => do
    let value ← ldiValue py v
    let d ← reg py d
    return encode (.lane .ldi) d 0 0 0 0 ||| (BitVec.ofInt 22 value).setWidth 32
  | .ldc, [d, k] => do
    let d ← reg py d
    let k ← num py k 0 31
    return encode (.lane .ldc) d 0 0 0 k
  | .input, [d, k] => do
    let d ← reg py d
    let k ← num py k 0 7
    return encode (.lane .input) d 0 0 0 k
  | .output, [k, a] => do
    let a ← reg py a
    let k ← num py k 0 7
    return encode (.lane .output) 0 a 0 0 k
  | .spc, [d, k] => do
    let d ← reg py d
    let k ← special py k
    return encode (.lane .spc) d 0 0 0 k
  | .shl, [d, a, k] => do
    let d ← reg py d
    let a ← reg py a
    let k ← num py k 0 31
    return encode (.lane .shl) d a 0 0 k
  | .sra, [d, a, k] => do
    let d ← reg py d
    let a ← reg py a
    let k ← num py k 0 31
    return encode (.lane .sra) d a 0 0 k
  | .addi, [d, a, k] => do
    let d ← reg py d
    let a ← reg py a
    let k ← num py k (-2 ^ 13) (2 ^ 13 - 1)
    return encode (.lane .addi) d a 0 0 k
  | .slt, [a, b] => do
    let a ← reg py a
    let b ← reg py b
    return encode (.lane .slt) 0 a b 0 0
  | .seq, [a, b] => do
    let a ← reg py a
    let b ← reg py b
    return encode (.lane .seq) 0 a b 0 0
  | o, [d, a] => do
    let d ← reg py d
    let a ← reg py a
    return encode (.lane o) d a 0 0 0
  | o, [d, a, b] => do
    let d ← reg py d
    let a ← reg py a
    let b ← reg py b
    return encode (.lane o) d a b 0 0
  | o, [d, a, b, c] => do
    let d ← reg py d
    let a ← reg py a
    let b ← reg py b
    let c ← reg py c
    return encode (.lane o) d a b c 0
  | _, _ => .error .python

def encodeOp (py : Python) (o : Op) (args : List Text) : Asm Word :=
  match o with
  | .lane o => encodeLane py o args
  | o => return encode o 0 0 0 0 0

structure OpenBlock where
  loop : Bool
  pc : Nat
  elsePc : Option Nat
  deriving DecidableEq

/-- The blocks open after the instruction at `pc`, and the targets it settles. -/
def nest (pc : Nat) (o : Op) (blocks : List OpenBlock) :
    Asm (List OpenBlock × List (Nat × Nat)) :=
  match o with
  | .ifThen => return (⟨false, pc, none⟩ :: blocks, [])
  | .otherwise =>
    match blocks with
    | ⟨false, at_, none⟩ :: blocks => return (⟨false, at_, some pc⟩ :: blocks, [(at_, pc)])
    | _ => .error (.elseWithoutIf pc)
  | .endIf =>
    match blocks with
    | ⟨false, at_, else_⟩ :: blocks => return (blocks, [(else_.getD at_, pc)])
    | _ => .error (.endIfWithoutIf pc)
  | .loop => return (⟨true, pc, none⟩ :: blocks, [])
  | .endLoop =>
    match blocks with
    | ⟨true, at_, _⟩ :: blocks => return (blocks, [(pc, at_ + 1)])
    | _ => .error (.endLoopWithoutLoop pc)
  | .leave =>
    if blocks.any (·.loop) then return (blocks, []) else .error (.breakOutsideLoop pc)
  | _ => return (blocks, [])

structure AsmState where
  words : List Word
  blocks : List OpenBlock
  patches : List (Nat × Nat)

abbrev Line := Text × List Text

def assembleLine (py : Python) (st : AsmState) (line : Line) : Asm AsmState := do
  let pc := st.words.length
  match ops.find? (fun o => mnemonic o = line.1) with
  | none => .error (.unknownMnemonic line.1)
  | some o =>
    if line.2.length ≠ arity o then .error (.operands line.1 pc (arity o) line.2.length)
    else do
      let w ← encodeOp py o line.2
      let (blocks, patches) ← nest pc o st.blocks
      if 8 < blocks.length then .error (.tooDeep pc)
      else return ⟨st.words ++ [w], blocks, st.patches ++ patches⟩

/-- `body.partition(' ')` -/
def partition (body : Text) : Text × Text :=
  (body.takeWhile (· ≠ ' '), (body.dropWhile (· ≠ ' ')).drop 1)

/-- The line in `raw`, if it is not empty or a comment. -/
def parseLine (py : Python) (raw : Text) : Option Line :=
  let body := py.strip (raw.takeWhile (· ≠ ';'))
  if body = [] then none
  else
    let (name, rest) := partition body
    some (py.upper name, ((rest.splitOn ',').map py.strip).filter (· ≠ []))

def parseLines (py : Python) (text : Text) : List Line :=
  (py.splitlines text).filterMap (parseLine py)

def patch (words : List Word) (p : Nat × Nat) : List Word :=
  words.modify p.1 (· ||| BitVec.ofNat 32 p.2)

def finish (lines : List Line) (st : AsmState) : Asm (List Word) :=
  match st.blocks with
  | b :: _ => .error (.unclosed b.loop b.pc)
  | [] =>
    if lines.getLast?.map (·.1) ≠ some (mnemonic .stop) then .error .noEnd
    else if 128 < st.words.length then .error (.tooLong st.words.length)
    else return st.patches.foldl patch st.words

def assemble (py : Python) (text : Text) : Asm (List Word) := do
  let lines := parseLines py text
  let st ← lines.foldlM (assembleLine py) ⟨[], [], []⟩
  finish lines st

def load (words : List Word) : Nat → Word := fun pc => words.getD pc 0

end TinyProcessors.G3d
