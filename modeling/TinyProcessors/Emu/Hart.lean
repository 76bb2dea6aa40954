import TinyProcessors.Lib.Bytes

namespace TinyProcessors

inductive Priv
  | user
  | supervisor
  | machine
  deriving DecidableEq

def Priv.bits : Priv → Word
  | .user => 0
  | .supervisor => 1
  | .machine => 3

/-- The kinds of access a walk is made for (`enum walk_kind`). -/
inductive Kind
  | fetch
  | load
  | store
  deriving DecidableEq

/-- The floating registers and `struct fstate`; `fcsr` has 8 bits. -/
@[ext] structure FState where
  f : Fin 32 → Word
  fcsr : BitVec 8

def FState.zero : FState := ⟨fun _ => 0, 0⟩

/-- The part of the emulator's `machine` that a context and its protection are made of. -/
structure Hart where
  x : Fin 32 → Word
  pc : Word
  fp : FState
  mstatus : Word
  mpp : Priv
  priv : Priv
  mepc : Word
  satp : Word
  pmpcfg : Fin 8 → BitVec 8
  pmpaddr : Fin 8 → Word

abbrev mstatusMie : Word := 0x8
abbrev mstatusMpie : Word := 0x80
abbrev mstatusMppM : Word := 0x1800
abbrev mstatusFs : Word := 0x6000
abbrev mstatusFsClean : Word := 0x4000
abbrev mstatusMprv : Word := 0x20000
abbrev mstatusMxr : Word := 0x80000
abbrev mstatusSum : Word := 0x40000
abbrev mstatusSd : Word := 0x80000000
abbrev mstatusWritable : Word := 0x7e61aa

/-- `mstatus` as read: the held bits, MPP, and SD when FS is Dirty. -/
def Hart.mstatusValue (h : Hart) : Word :=
  let value := h.mstatus ||| h.mpp.bits <<< 11
  if value &&& mstatusFs = mstatusFs then value ||| mstatusSd else value

/-- `csr_write` of `mstatus`. -/
def Hart.writeMstatus (h : Hart) (value : Word) : Hart :=
  { h with
    mstatus := value &&& mstatusWritable
    mpp := if value &&& mstatusMppM = mstatusMppM then .machine
      else if value &&& mstatusMppM = 0x800 then .supervisor else .user }

/-- `enter_handler` for a trap the kernel takes: nothing is delegated. -/
def Hart.enterHandler (h : Hart) : Hart :=
  { h with
    mepc := h.pc
    mstatus := h.mstatus &&& ~~~(mstatusMie ||| mstatusMpie) |||
      (if h.mstatus &&& mstatusMie ≠ 0 then mstatusMpie else 0)
    mpp := h.priv
    priv := .machine }

def Hart.mret (h : Hart) : Hart :=
  let mstatus := h.mstatus &&& ~~~mstatusMie ||| mstatusMpie |||
    (if h.mstatus &&& mstatusMpie ≠ 0 then mstatusMie else 0)
  { h with
    mstatus := if h.mpp = .machine then mstatus else mstatus &&& ~~~mstatusMprv
    priv := h.mpp
    mpp := .user
    pc := h.mepc }

/-- `csr_write` of a `pmpaddr`; a locked one keeps its value. -/
def Hart.writePmpaddr (h : Hart) (i : Fin 8) (value : Word) : Hart :=
  if h.pmpcfg i &&& 0x80 ≠ 0 ∨ (i.val < 7 ∧ h.pmpcfg (i + 1) &&& 0x98 = 0x88) then h
  else { h with pmpaddr := Function.update h.pmpaddr i value }

/-- What a configuration byte becomes when `value` is written to it. -/
def pmpcfgWritten (old value : BitVec 8) : BitVec 8 :=
  let cfg := value &&& 0x9f
  if old &&& 0x80 ≠ 0 then old
  else if cfg &&& 2 ≠ 0 ∧ cfg &&& 1 = 0 then cfg &&& ~~~2
  else cfg

/-- `csr_write` of `pmpcfg0` (`n = 0`) or `pmpcfg1` (`n = 1`). -/
def Hart.writePmpcfg (h : Hart) (n : Fin 2) (value : Word) : Hart :=
  { h with pmpcfg := fun i =>
      if i.val / 4 = n then pmpcfgWritten (h.pmpcfg i) ((value >>> (8 * (i.val % 4))).setWidth 8)
      else h.pmpcfg i }

/-- `csr_write` of `satp`: the ASID is 0 bits wide. -/
def Hart.writeSatp (h : Hart) (value : Word) : Hart := { h with satp := value &&& 0x803fffff }

/-- Whether PMP entry `i` matches the word at `word * 4`. -/
def pmpMatches (h : Hart) (word : Word) (i : Fin 8) : Bool :=
  let mode := h.pmpcfg i &&& 0x18
  if mode = 0x08 then (i.val = 0 || h.pmpaddr (i - 1) ≤ word) && word < h.pmpaddr i
  else if mode = 0x10 then word = h.pmpaddr i
  else if mode = 0x18 then (word ^^^ h.pmpaddr i) &&& ~~~(h.pmpaddr i ^^^ (h.pmpaddr i + 1)) = 0
  else false

def pmpAllows (priv : Priv) (h : Hart) (address : Word) (need : BitVec 8) : Bool :=
  match (List.finRange 8).find? (pmpMatches h (address >>> 2)) with
  | some i => (priv = .machine && h.pmpcfg i &&& 0x80 = 0) || h.pmpcfg i &&& need = need
  | none => priv = .machine

abbrev pteV : Word := 0x01
abbrev pteR : Word := 0x02
abbrev pteW : Word := 0x04
abbrev pteX : Word := 0x08
abbrev pteU : Word := 0x10
abbrev pteA : Word := 0x40
abbrev pteD : Word := 0x80

inductive Refusal
  | fault
  | pageFault
  deriving DecidableEq

def inRam (address width : Nat) : Bool :=
  0x80000000 ≤ address && address - 0x80000000 + width ≤ 0x1000000

/-- One read of the walker: entry `index` of the table at `table`. -/
def readPte (ram : Nat → Word) (h : Hart) (table : Nat) (index : Word) : Except Refusal Word :=
  let at_ := table + 4 * index.toNat
  if 2 ^ 32 ≤ at_ || !inRam at_ 4 || !pmpAllows .supervisor h (BitVec.ofNat 32 at_) 1 then
    .error .fault
  else
    let pte := ram at_
    if pte &&& pteV = 0 || (pte &&& pteR = 0 && pte &&& pteW ≠ 0) then .error .pageFault
    else .ok pte

/-- A leaf's check, and the address it gives: a megapage's, or a page's. -/
def readLeaf (h : Hart) (va : Word) (kind : Kind) (priv : Priv) (mega : Bool) (pte : Word) :
    Except Refusal Word :=
  let ppn := pte >>> 10
  let user := pte &&& pteU ≠ 0
  let allowed : Bool := match kind with
    | .fetch => pte &&& pteX ≠ 0
    | .store => pte &&& pteW ≠ 0
    | .load => pte &&& pteR ≠ 0 || (h.mstatus &&& mstatusMxr ≠ 0 && pte &&& pteX ≠ 0)
  if mega && ppn &&& 0x3ff ≠ 0 then .error .pageFault
  else if if priv = .user then ¬ user
      else user ∧ (kind = .fetch ∨ h.mstatus &&& mstatusSum = 0) then .error .pageFault
  else if !allowed ∨ pte &&& pteA = 0 ∨ (kind = .store ∧ pte &&& pteD = 0) then .error .pageFault
  else
    let address := if mega then (ppn >>> 10).toNat * 2 ^ 22 + (va &&& 0x3fffff).toNat
      else ppn.toNat * 2 ^ 12 + (va &&& 0xfff).toNat
    if 2 ^ 32 ≤ address then .error .fault else .ok (BitVec.ofNat 32 address)

/-- Sv32: the physical address of `va`, for an access of `kind` at privilege `priv`. -/
def translate (ram : Nat → Word) (h : Hart) (va : Word) (kind : Kind) (priv : Priv) :
    Except Refusal Word :=
  if h.satp &&& 0x80000000 = 0 ∨ priv = .machine then .ok va
  else
    match readPte ram h ((h.satp &&& 0x3fffff).toNat * 2 ^ 12) (va >>> 22 &&& 0x3ff) with
    | .error e => .error e
    | .ok pte =>
      if pte &&& (pteR ||| pteX) ≠ 0 then readLeaf h va kind priv true pte
      else if pte &&& (pteD ||| pteA ||| pteU) ≠ 0 then .error .pageFault
      else
        match readPte ram h ((pte >>> 10).toNat * 2 ^ 12) (va >>> 12 &&& 0x3ff) with
        | .error e => .error e
        | .ok pte =>
          if pte &&& (pteR ||| pteX) ≠ 0 then readLeaf h va kind priv false pte
          else .error .pageFault

def Kind.need : Kind → BitVec 8
  | .fetch => 4
  | .load => 1
  | .store => 2

/-- The address an access at privilege `priv` is let through to, before the bus. -/
def passes (ram : Nat → Word) (h : Hart) (va : Word) (kind : Kind) (priv : Priv) : Option Word :=
  match translate ram h va kind priv with
  | .error _ => none
  | .ok address => if pmpAllows priv h address kind.need then some address else none

def Hart.dataPriv (h : Hart) : Priv :=
  if h.priv = .machine ∧ h.mstatus &&& mstatusMprv ≠ 0 then h.mpp else h.priv

end TinyProcessors
