import TinyProcessors.Emu.Csr

namespace TinyProcessors.Emu

/-- What a round of `translate` finds: a leaf, or a pointer to the next table. -/
inductive Walked
  | ends (r : Except Refusal Word)
  | onward (table : Nat)

/-- A round of `translate`, at `level` 1 or 0. -/
def walkLevel (ram : Nat → Word) (h : Hart) (va : Word) (kind : Kind) (priv : Priv) (level : Nat)
    (table : Nat) : Walked :=
  let index := va >>> (if level ≠ 0 then 22 else 12) &&& 0x3ff
  match readPte ram h table index with
  | .error e => .ends (.error e)
  | .ok pte =>
    if pte &&& (pteR ||| pteX) = 0 then
      if level = 0 ∨ pte &&& (pteD ||| pteA ||| pteU) ≠ 0 then .ends (.error .pageFault)
      else .onward ((pte >>> 10).toNat * 2 ^ 12)
    else .ends (readLeaf h va kind priv (level ≠ 0) pte)

/-- The loop of `translate`; `none` is the return behind it, which is not to be reached. -/
def walk (ram : Nat → Word) (h : Hart) (va : Word) (kind : Kind) (priv : Priv) :
    (levels : List Nat) → (table : Nat) → Option (Except Refusal Word)
  | [], _ => none
  | level :: levels, table =>
    match walkLevel ram h va kind priv level table with
    | .ends r => some r
    | .onward table => walk ram h va kind priv levels table

def Refusal.status : Refusal → MemAccess
  | .fault => .fault
  | .pageFault => .pageFault

/-- `translate`. -/
def translated (va : Word) (kind : Kind) (priv : Priv) : Exec Word := do
  let m ← get
  if m.hart.satp &&& 0x80000000 = 0 ∨ priv = .machine then return va
  else
    match walk m.io.mem.ram.word m.hart va kind priv [1, 0]
        ((m.hart.satp &&& 0x3fffff).toNat * 2 ^ 12) with
    | none => throw .notReached
    | some (.error e) => throw (.denied (Refusal.status e))
    | some (.ok address) => return address

/-- The address a data access reaches: translated, and let through by PMP. -/
def reached (va : Word) (kind : Kind) (need : BitVec 8) : Exec Word := do
  let m ← get
  let priv := m.hart.dataPriv
  let address ← translated va kind priv
  if pmpAllows priv m.hart address need then return address else throw (.denied .fault)

def onBus (f : Machine → Except Exit (α × Devices)) : Exec α := do
  let m ← get
  match f m with
  | .error e => throw e
  | .ok (a, io) =>
    set { m with io }
    return a

def window (address : Word) (width : Nat) : Exec Region :=
  match Region.find address.toNat width with
  | none => throw (.denied .fault)
  | some r => return r

def loadFrom (host : Host) (r : Region) (address : Word) (width : Nat) : Exec Word :=
  onBus fun m => Region.granted (r.load host m.cpu.steps m.io (address.toNat - r.base) width)

def storeTo (fuel : Nat) (r : Region) (address : Word) (width : Nat) (value : Word) : Exec Unit :=
  onBus fun m => do
    let io ← r.store fuel m.cpu.steps m.io (address.toNat - r.base) width value
    return ((), io)

def aligned (va : Word) (width : Nat) : Exec Unit :=
  if va.toNat % width ≠ 0 then throw (.denied .misaligned) else return ()

/-- `load`: the value, and the physical address. -/
def load (host : Host) (va : Word) (width : Nat) : Exec (Word × Word) := do
  aligned va width
  let address ← reached va .load 1
  let r ← window address width
  let value ← loadFrom host r address width
  return (value, address)

def store (fuel : Nat) (va : Word) (width : Nat) (value : Word) : Exec Unit := do
  aligned va width
  let address ← reached va .store 2
  let r ← window address width
  storeTo fuel r address width value

/-- `enum amo_op`. -/
inductive AmoOp
  | add | swap | lr | sc | xor | or | and | min | max | minu | maxu
  deriving DecidableEq

def AmoOp.of (funct5 : Nat) : Option AmoOp :=
  match funct5 with
  | 0x00 => some .add
  | 0x01 => some .swap
  | 0x02 => some .lr
  | 0x03 => some .sc
  | 0x04 => some .xor
  | 0x08 => some .or
  | 0x0c => some .and
  | 0x10 => some .min
  | 0x14 => some .max
  | 0x18 => some .minu
  | 0x1c => some .maxu
  | _ => none

/-- `amo_valid`: the operation that funct5 names, and rs2, which LR.W requires to be 0. -/
def amoValid (funct5 rs2 : Nat) : Option AmoOp :=
  (AmoOp.of funct5).filter fun op => op ≠ .lr || rs2 = 0

/-- `amo_value`; LR and SC are not its to compute. -/
def amoValue (op : AmoOp) (old operand : Word) : Option Word :=
  match op with
  | .swap => some operand
  | .add => some (old + operand)
  | .xor => some (old ^^^ operand)
  | .and => some (old &&& operand)
  | .or => some (old ||| operand)
  | .min => some (if old.slt operand then old else operand)
  | .max => some (if operand.slt old then old else operand)
  | .minu => some (if old < operand then old else operand)
  | .maxu => some (if operand < old then old else operand)
  | .lr | .sc => none

/-- `amo`: the word it read. -/
def amo (host : Host) (fuel : Nat) (va : Word) (op : AmoOp) (operand : Word) : Exec Word := do
  aligned va 4
  let address ← reached va .store 3
  let r ← window address 4
  let old ← loadFrom host r address 4
  match amoValue op old operand with
  | none => throw .abort
  | some value =>
    storeTo fuel r address 4 value
    return old

end TinyProcessors.Emu
