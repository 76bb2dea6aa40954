import TinyProcessors.Lib.Logic
import TinyProcessors.Lib.Bytes

namespace TinyProcessors

inductive FdtStatus
  | badMagic
  | badVersion
  | badLayout
  | notFound
  | tooWide
  | noReg
  | noProperty
  deriving DecidableEq

/-- What a query does unseen: it reads a byte of the blob, or an offset wraps. -/
inductive FdtEvent
  | read (pos : Nat)
  | wrap
  deriving DecidableEq

/-- Why a query ends without an answer; `unfinished` is a loop cut short. -/
inductive FdtHalt
  | status (s : FdtStatus)
  | unfinished
  deriving DecidableEq

abbrev FdtM := EStateM FdtHalt (List FdtEvent)

namespace FdtM

def fail (s : FdtStatus) : FdtM α := throw (.status s)

/-- A 32-bit value computed as `n`. -/
def fit (n : Nat) : FdtM Nat := do
  modify fun log => if n < 2 ^ 32 then log else .wrap :: log
  return n % 2 ^ 32

/-- `a - b` on `uint32_t`. -/
def minus (a b : Nat) : FdtM Nat := do
  modify fun log => if b ≤ a then log else .wrap :: log
  return (a + 2 ^ 32 - b) % 2 ^ 32

def byteAt (blob : Bytes) (pos : Nat) : FdtM UInt8 := do
  modify (.read pos :: ·)
  return blob pos

def be32 (blob : Bytes) (pos : Nat) : FdtM Nat := do
  let a ← byteAt blob pos
  let b ← byteAt blob (pos + 1)
  let c ← byteAt blob (pos + 2)
  let d ← byteAt blob (pos + 3)
  return a.toNat * 2 ^ 24 + b.toNat * 2 ^ 16 + c.toNat * 2 ^ 8 + d.toNat

end FdtM

open FdtM

abbrev CString := List UInt8

def cText (s : String) : CString := s.toList.map fun c => UInt8.ofNat c.toNat

/-- `fdt_same` of two strings of the program. -/
def fdtSame : CString → CString → Bool
  | [], b => b.headD 0 = 0
  | x :: a, b => if x ≠ 0 ∧ x = b.headD 0 then fdtSame a b.tail else x = b.headD 0

/-- `fdt_same` of the string at `pos` and one of the program. -/
def fdtSameAt (blob : Bytes) (pos : Nat) : CString → FdtM Bool
  | [] => do
    let x ← byteAt blob pos
    return x = 0
  | y :: b => do
    let x ← byteAt blob pos
    if x ≠ 0 ∧ x = y then fdtSameAt blob (pos + 1) b else return x = y

structure Fdt where
  blob : Bytes
  total : Nat
  structs : Nat
  structsEnd : Nat
  strings : Nat
  stringsEnd : Nat

/-- The version check of `fdt_open`. -/
def versionOk (blob : Bytes) : FdtM Bool := do
  let version ← be32 blob 20
  if version < 16 then return false
  else do
    let compatible ← be32 blob 24
    return compatible ≤ 17

def fdtOpen (blob : Bytes) : FdtM Fdt := do
  let magic ← be32 blob 0
  if magic ≠ 0xd00dfeed then fail .badMagic
  else do
    let ok ← versionOk blob
    if !ok then fail .badVersion
    else do
      let total ← be32 blob 4
      let structs ← be32 blob 8
      let strings ← be32 blob 12
      let structsSize ← be32 blob 36
      let structsEnd ← fit (structs + structsSize)
      let stringsSize ← be32 blob 32
      let stringsEnd ← fit (strings + stringsSize)
      if total < 40 ∨ structs < 40 ∨ structsEnd < structs ∨ total < structsEnd ∨ strings < 40 ∨
          stringsEnd < strings ∨ total < stringsEnd ∨ structs % 4 ≠ 0 then fail .badLayout
      else return ⟨blob, total, structs, structsEnd, strings, stringsEnd⟩

namespace Fdt

structure Span where
  offset : Nat
  length : Nat

variable (t : Fdt)

/-- The loop of `terminated`, for `n` bytes from `pos` on. -/
def terminatedFor : (n pos : Nat) → FdtM Bool
  | 0, _ => return false
  | n + 1, pos => do
    let x ← byteAt t.blob pos
    if x = 0 then return true
    else do
      let pos ← fit (pos + 1)
      terminatedFor n pos

def terminated (pos stop : Nat) : FdtM Bool := t.terminatedFor (stop - pos) pos

/-- The inner loop of `matches`: the length of the string at `pos`. -/
def lengthFrom (pos stop : Nat) : (fuel n : Nat) → FdtM Nat
  | fuel, n => do
    let here ← fit (pos + n)
    if stop ≤ here then return n
    else match fuel with
      | 0 => throw .unfinished
      | fuel + 1 => do
        let x ← byteAt t.blob (pos + n)
        if x = 0 then return n
        else do
          let n ← fit (n + 1)
          lengthFrom pos stop fuel n

/-- The outer loop of `matches`, for at most `fuel` strings. -/
def matchesFrom (list : Bool) (want : CString) (stop : Nat) : (fuel pos : Nat) → FdtM Bool
  | fuel, pos =>
    if stop ≤ pos then return false
    else match fuel with
      | 0 => throw .unfinished
      | fuel + 1 => do
        let n ← t.lengthFrom pos stop t.total 0
        let here ← fit (pos + n)
        if here = stop then return false
        else do
          let same ← fdtSameAt t.blob pos want
          if same then return true
          else if !list then return false
          else do
            let n ← fit (n + 1)
            let pos ← fit (pos + n)
            matchesFrom list want stop fuel pos

def «matches» (v : Span) (list : Bool) (want : CString) : FdtM Bool := do
  let stop ← fit (v.offset + v.length)
  t.matchesFrom list want stop t.total v.offset

def number (pos cells : Nat) : FdtM Nat :=
  if cells = 0 then return 0
  else if cells = 2 then do
    let high ← be32 t.blob pos
    if high ≠ 0 then fail .tooWide
    else do
      let pos ← fit (pos + 4)
      be32 t.blob pos
  else be32 t.blob pos

def regEntry (reg : Span) (ac sc index : Nat) : FdtM (Nat × Nat) :=
  if 2 < ac ∨ 2 < sc then fail .tooWide
  else do
    let cells ← fit (ac + sc)
    let entry ← fit (4 * cells)
    if entry = 0 ∨ reg.length = 0 ∨ reg.length % entry ≠ 0 then fail .noReg
    else if reg.length / entry ≤ index then fail .notFound
    else do
      let skipped ← fit (entry * index)
      let e ← fit (reg.offset + skipped)
      let base ← t.number e ac
      let width ← fit (4 * ac)
      let e ← fit (e + width)
      let size ← t.number e sc
      return (base, size)

/-- A property as `read_prop` finds it. -/
structure Property where
  value : Span
  key : Nat
  next : Nat

def readProp (pos : Nat) : FdtM Property := do
  let offset ← fit (pos + 8)
  if t.structsEnd < offset then fail .badLayout
  else do
    let length ← be32 t.blob pos
    let nameOff ← be32 t.blob (pos + 4)
    let name ← fit (t.strings + nameOff)
    let stop ← fit (offset + length)
    if t.structsEnd < stop ∨ stop < offset ∨ name < t.strings then fail .badLayout
    else do
      let ends ← t.terminated name t.stringsEnd
      if !ends then fail .badLayout
      else do
        let next ← fit (stop + 3)
        return ⟨⟨offset, length⟩, name, next / 4 * 4⟩

/-- The loop of `skip_name`, for at most `n` bytes. -/
def nameEnd : (n pos : Nat) → FdtM Nat
  | 0, pos => return pos
  | n + 1, pos => do
    let x ← byteAt t.blob pos
    if x = 0 then return pos
    else do
      let pos ← fit (pos + 1)
      nameEnd n pos

def skipName (pos : Nat) : FdtM Nat := do
  let pos ← t.nameEnd (t.structsEnd - pos) pos
  let next ← fit (pos + 4)
  return next / 4 * 4

/-- The arguments of `find`. -/
structure FindQuery where
  property : CString
  value : CString
  node : Nat
  index : Nat
  cellName : Option CString

/-- The variables of `find`. -/
structure Walk where
  pos : Nat
  depth : Int
  addressCells : Int → Nat
  sizeCells : Int → Nat
  hit : Bool
  inProps : Bool
  reg : Span
  named : Span
  hasNamed : Bool
  node : Nat

/-- A round of `find` goes on, or has the answer. -/
inductive Round
  | more (w : Walk)
  | found (base size : Nat)

variable (q : FindQuery)

def answerAt (w : Walk) : FdtM Round :=
  match q.cellName with
  | some _ =>
    if !w.hasNamed ∨ w.named.length % 4 ≠ 0 then fail .noProperty
    else if w.named.length / 4 ≤ q.index then fail .notFound
    else do
      let skipped ← fit (4 * q.index)
      let cell ← be32 t.blob (w.named.offset + skipped)
      return .found cell 0
  | none =>
    if w.depth < 1 then fail .noReg
    else do
      let (base, size) ← t.regEntry w.reg (w.addressCells (w.depth - 1))
        (w.sizeCells (w.depth - 1)) q.index
      return .found base size

def settle (w : Walk) : FdtM Round :=
  if w.inProps ∧ w.hit then
    if w.node ≠ 0 then return .more { w with node := w.node - 1, hit := false, inProps := false }
    else t.answerAt q w
  else return .more { w with inProps := false }

/-- Whether a node's own name, between `name` and `stop`, is the one asked for. -/
def nameHit (name stop : Nat) : FdtM Bool :=
  if fdtSame q.property (cText "@name") ∧ stop ≤ t.structsEnd then do
    let ends ← t.terminated name stop
    if ends then fdtSameAt t.blob name q.value else return false
  else return false

def beginNode (w : Walk) : FdtM Round := do
  let stop ← t.skipName w.pos
  if 8 ≤ w.depth + 1 then fail .badLayout
  else do
    let hit ← t.nameHit q w.pos stop
    return .more { w with
      pos := stop
      depth := w.depth + 1
      addressCells := fun d => if d = w.depth + 1 then 2 else w.addressCells d
      sizeCells := fun d => if d = w.depth + 1 then 1 else w.sizeCells d
      hit := hit
      inProps := true
      reg := { w.reg with length := 0 }
      hasNamed := false }

def endNode (w : Walk) : FdtM Round :=
  if w.depth < 0 then fail .badLayout else return .more { w with depth := w.depth - 1 }

def cellProp (w : Walk) (p : Property) : FdtM Walk := do
  let addressKey ← fdtSameAt t.blob p.key (cText "#address-cells")
  let sizeKey ← fdtSameAt t.blob p.key (cText "#size-cells")
  if (addressKey ∨ sizeKey) ∧ p.value.length ≠ 4 then fail .badLayout
  else if addressKey then do
    let cells ← be32 t.blob p.value.offset
    return { w with addressCells := fun d => if d = w.depth then cells else w.addressCells d }
  else if sizeKey then do
    let cells ← be32 t.blob p.value.offset
    return { w with sizeCells := fun d => if d = w.depth then cells else w.sizeCells d }
  else do
    let isReg ← fdtSameAt t.blob p.key (cText "reg")
    return if isReg then { w with reg := p.value } else w

def namedProp (w : Walk) (p : Property) : FdtM Walk :=
  match q.cellName with
  | none => return w
  | some name => do
    let same ← fdtSameAt t.blob p.key name
    return if same then { w with named := p.value, hasNamed := true } else w

def keyProp (w : Walk) (p : Property) : FdtM Walk := do
  let same ← fdtSameAt t.blob p.key q.property
  if same then do
    let hit ← t.matches p.value (fdtSame q.property (cText "compatible")) q.value
    return if hit then { w with hit := true } else w
  else return w

def prop (w : Walk) : FdtM Round :=
  if w.depth < 0 then fail .badLayout
  else do
    let p ← t.readProp w.pos
    let w ← t.cellProp { w with pos := p.next } p
    let w ← t.namedProp q w p
    let w ← t.keyProp q w p
    return .more w

def token (w : Walk) (token : Nat) : FdtM Round :=
  if token = 1 then t.beginNode q w
  else if token = 2 then endNode w
  else if token = 3 then t.prop q w
  else if token = 9 then fail (if w.depth = -1 then .notFound else .badLayout)
  else if token = 4 then return .more w
  else fail .badLayout

def settleBefore (w : Walk) (token : Nat) : FdtM Round :=
  if token = 1 ∨ token = 2 ∨ token = 9 then t.settle q w else return .more w

/-- One round of the loop of `find`. -/
def round (w : Walk) : FdtM Round := do
  let next ← fit (w.pos + 4)
  if t.structsEnd < next then fail .badLayout
  else do
    let token ← be32 t.blob w.pos
    let settled ← t.settleBefore q { w with pos := next } token
    match settled with
    | .found base size => return .found base size
    | .more w => t.token q w token

/-- The loop of `find`, for at most `fuel` rounds. -/
def walk : (fuel : Nat) → Walk → FdtM (Nat × Nat)
  | 0, _ => throw .unfinished
  | fuel + 1, w => do
    let r ← t.round q w
    match r with
    | .found base size => return (base, size)
    | .more w => walk fuel w

/-- The variables of `find` at its start; a node sets the cells of its depth. -/
def start : Walk where
  pos := t.structs
  depth := -1
  addressCells := fun _ => 0
  sizeCells := fun _ => 0
  hit := false
  inProps := false
  reg := ⟨0, 0⟩
  named := ⟨0, 0⟩
  hasNamed := false
  node := q.node

def find : FdtM (Nat × Nat) := t.walk q t.total (t.start q)

def fdtFind (property value : CString) (index : Nat) : FdtM (Nat × Nat) :=
  t.find ⟨property, value, 0, index, none⟩

def fdtFindNth (property value : CString) (node index : Nat) : FdtM (Nat × Nat) :=
  t.find ⟨property, value, node, index, none⟩

def fdtCell (property value name : CString) (index : Nat) : FdtM Nat := do
  let (cell, _) ← t.find ⟨property, value, 0, index, some name⟩
  return cell

/-- What `fdt_root_string` makes of the property it was asked for: where the string is. -/
def rootValue (v : Span) : FdtM Nat :=
  if v.length = 0 then fail .badLayout
  else do
    let stop ← fit (v.offset + v.length)
    let lastPos ← minus stop 1
    let last ← byteAt t.blob lastPos
    if last ≠ 0 then fail .badLayout else return v.offset

/-- The loop of `fdt_root_string`, for at most `fuel` rounds. -/
def rootStringFrom (property : CString) : (fuel pos : Nat) → FdtM Nat
  | 0, _ => throw .unfinished
  | fuel + 1, pos => do
    let next ← fit (pos + 4)
    if t.structsEnd < next then fail .badLayout
    else do
      let token ← be32 t.blob pos
      if token = 3 then do
        let p ← t.readProp next
        let same ← fdtSameAt t.blob p.key property
        if same then t.rootValue p.value else rootStringFrom property fuel p.next
      else if token = 1 ∨ token = 2 then fail .notFound
      else if token = 4 then rootStringFrom property fuel next
      else fail .badLayout

def fdtRootString (property : CString) : FdtM Nat := do
  let next ← fit (t.structs + 4)
  if t.structsEnd < next then fail .badLayout
  else do
    let token ← be32 t.blob t.structs
    if token ≠ 1 then fail .badLayout
    else do
      let pos ← t.skipName next
      t.rootStringFrom property t.total pos

end Fdt

end TinyProcessors
