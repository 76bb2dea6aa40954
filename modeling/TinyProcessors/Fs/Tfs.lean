import TinyProcessors.Fs.Disk

namespace TinyProcessors

/-- A directory entry: `struct entry`, 32 bytes. -/
@[ext] structure Entry where
  name : Fin 20 → UInt8
  first : Word
  capacity : Word
  size : Word

def Entry.decode (b : Bytes) (at_ : Nat) : Entry where
  name := fun k => b (at_ + k)
  first := b.word (at_ + 20)
  capacity := b.word (at_ + 24)
  size := b.word (at_ + 28)

def Entry.encode (e : Entry) : Bytes := fun k =>
  if h : k < 20 then e.name ⟨k, h⟩
  else if k < 24 then wordByte e.first (k - 20)
  else if k < 28 then wordByte e.capacity (k - 24)
  else if k < 32 then wordByte e.size (k - 28)
  else 0

def directoryBytes (directory : Fin 16 → Entry) : Bytes := fun k =>
  if h : k < 512 then (directory ⟨k / 32, by omega⟩).encode (k % 32) else 0

def decodeDirectory (b : Bytes) : Fin 16 → Entry := fun i => Entry.decode b (32 * i)

def cstring (l : List UInt8) : List UInt8 := l.takeWhile (· ≠ 0)

def Entry.label (e : Entry) : List UInt8 := cstring (List.ofFn e.name)

structure Fs where
  directory : Fin 16 → Entry
  corrupt : Fin 16 → Bool
  sectorBuffer : Bytes
  sectors : Word
  mounted : Bool

/-- The file system with its disk and memory, and the ranges it has read and written. -/
structure Io where
  fs : Fs
  disk : Disk
  mem : Bytes
  loads : List (Nat × Nat)
  stores : List (Nat × Nat)

/-- The variables of fs.c before the first `fs_mount`: all zero. -/
def Fs.boot : Fs where
  directory := fun _ => ⟨fun _ => 0, 0, 0, 0⟩
  corrupt := fun _ => false
  sectorBuffer := fun _ => 0
  sectors := 0
  mounted := false

def Io.boot (image : Bytes) (size : Word) : Io where
  fs := Fs.boot
  disk := { image, size, outcome := fun _ => .done, served := 0, failure := none }
  mem := fun _ => 0
  loads := []
  stores := []

def Io.setEntry (io : Io) (i : Fin 16) (e : Entry) : Io :=
  { io with fs := { io.fs with directory := Function.update io.fs.directory i e } }

/-- `same`, over `FS_NAME` characters; `b` is given without its NUL. -/
def same : List UInt8 → List UInt8 → Bool
  | [], _ => true
  | x :: a, b => if x ≠ b.headD 0 then false else if x = 0 then true else same a b.tail

def inUse (fs : Fs) (i : Fin 16) : Bool := (fs.directory i).name 0 ≠ 0 && !fs.corrupt i

/-- What `fs_mount` finds wrong with an entry in use. -/
def entryCorrupt (sectors : Word) (e : Entry) : Bool :=
  e.name 0 ≠ 0 && (e.first < 2 || e.capacity > sectors || e.first > sectors - e.capacity ||
    e.size > e.capacity * 512 || e.name 19 ≠ 0)

def fsMount (io : Io) (capacity : Word) : Bool × Io :=
  let r := io.disk.transferIn 0 1 io.fs.sectorBuffer 0
  let io := { io with fs := { io.fs with sectorBuffer := r.2.1 }, disk := r.2.2 }
  let word := Bytes.word r.2.1
  if !r.1 || word 0 ≠ 0x31534654 || word 8 ≠ 1 || word 12 ≠ 2 || word 16 ≠ 16 ||
      word 4 > capacity || word 4 ≤ 2 then (false, io)
  else
    let q := io.disk.transferIn 1 1 (directoryBytes io.fs.directory) 0
    let directory := decodeDirectory q.2.1
    let io := { io with fs := { io.fs with sectors := word 4, directory }, disk := q.2.2 }
    if !q.1 then (false, io)
    else
      (true, { io with fs := { io.fs with
        corrupt := fun i => entryCorrupt (word 4) (directory i)
        mounted := true } })

def fsCorrupt (io : Io) : Nat := (List.finRange 16).countP fun i => io.fs.corrupt i

def fsFlush (io : Io) : Bool × Io :=
  if io.fs.mounted then
    let r := io.disk.transferOut 1 (directoryBytes io.fs.directory)
    (r.1, { io with disk := r.2 })
  else (false, io)

/-- The loop of `fs_open`: the entry found, or where a new one would go. -/
def openScan (fs : Fs) (name : List UInt8) :
    List (Fin 16) → Option (Fin 16) → Word → Fin 16 ⊕ Option (Fin 16) × Word
  | [], free, next => .inr (free, next)
  | i :: rest, free, next =>
    if (fs.directory i).name 0 = 0 then openScan fs name rest (free.or (some i)) next
    else if fs.corrupt i then openScan fs name rest free next
    else if same (List.ofFn (fs.directory i).name) name then .inl i
    else
      let stop := (fs.directory i).first + (fs.directory i).capacity
      openScan fs name rest free (if stop > next then stop else next)

/-- The entry `fs_open` writes for a new file. -/
def newEntry (name : List UInt8) (first : Word) : Entry where
  name := fun k => Bytes.ofList name k
  first := first
  capacity := 8
  size := 0

def fsOpen (io : Io) (name : List UInt8) (create : Bool) : Option (Fin 16) × Io :=
  if !io.fs.mounted || name = [] then (none, io)
  else match openScan io.fs name (List.finRange 16) none 2 with
    | .inl i => (some i, io)
    | .inr (free, next) =>
      match free with
      | none => (none, io)
      | some i =>
        if !create || name.length ≥ 20 || next + 8 > io.fs.sectors then (none, io)
        else
          let r := fsFlush (io.setEntry i (newEntry name next))
          (if r.1 then some i else none, r.2)

def fsTruncate (io : Io) (file : Fin 16) : Io :=
  io.setEntry file { io.fs.directory file with size := 0 }

/-- RAM as fs.c knows it: from the kernel's base to the end of the last slot. -/
abbrev ramStart : Nat := 0x80000000
abbrev ramEnd : Nat := 0x81000000

def directSectors (e : Entry) (position dst left : Nat) : Nat :=
  if position % 512 ≠ 0 ∨ dst % 4 ≠ 0 ∨ dst < ramStart ∨ dst ≥ ramEnd then 0
  else
    let whole := min ((e.size.toNat - position) / 512) (left / 512)
    if whole > (ramEnd - dst) / 512 then 0 else whole

/-- `virtio_read` of one sector into the sector buffer. -/
def readSector (io : Io) (sector : Word) : Bool × Io :=
  let r := io.disk.transferIn sector 1 io.fs.sectorBuffer 0
  (r.1, { io with fs := { io.fs with sectorBuffer := r.2.1 }, disk := r.2.2 })

/-- `virtio_write` of the sector buffer. -/
def writeSector (io : Io) (sector : Word) : Bool × Io :=
  let r := io.disk.transferOut sector io.fs.sectorBuffer
  (r.1, { io with disk := r.2 })

/-- Where byte `position` of a file stands on the disk. -/
def Entry.sector (e : Entry) (position : Nat) : Word := e.first + BitVec.ofNat 32 (position / 512)

/-- A round of `fs_read` that the disk serves by itself. -/
def readDirect (io : Io) (file : Fin 16) (dst position whole : Nat) : Bool × Io :=
  let r := io.disk.transferIn ((io.fs.directory file).sector position) whole io.mem dst
  (r.1, { io with mem := r.2.1, disk := r.2.2 })

/-- A round of `fs_read` through the sector buffer: `n` bytes of one sector. -/
def readPart (io : Io) (file : Fin 16) (dst position n : Nat) : Bool × Io :=
  let r := readSector io ((io.fs.directory file).sector position)
  if r.1 then
    (true, { r.2 with
      mem := r.2.mem.overwrite dst n (r.2.fs.sectorBuffer.window (position % 512))
      stores := r.2.stores ++ [(dst, n)] })
  else r

/-- The loop of `fs_read`; a round moves at least one byte. -/
def readLoop (file : Fin 16) (dst length : Nat) : Nat → Io → Nat → Nat → Option Nat × Io
  | 0, io, done, _ => (some done, io)
  | fuel + 1, io, done, position =>
    let e := io.fs.directory file
    if done < length ∧ position < e.size.toNat then
      let whole := directSectors e position (dst + done) (length - done)
      if whole ≠ 0 then
        let r := readDirect io file (dst + done) position whole
        if r.1 then readLoop file dst length fuel r.2 (done + whole * 512) (position + whole * 512)
        else (none, r.2)
      else
        -- the inner loop stops at the request's end, the file's or the sector's
        let n := min (length - done) (min (e.size.toNat - position) (512 - position % 512))
        let r := readPart io file (dst + done) position n
        if r.1 then readLoop file dst length fuel r.2 (done + n) (position + n)
        else (none, r.2)
    else (some done, io)

def fsRead (io : Io) (file : Fin 16) (position : Word) (dst : Nat) (length : Word) :
    Option Nat × Io :=
  readLoop file dst length.toNat length.toNat io 0 position.toNat

/-- The size follows a write that ends at `position`. -/
def growSize (io : Io) (file : Fin 16) (position : Nat) : Io :=
  let e := io.fs.directory file
  if position > e.size.toNat then io.setEntry file { e with size := BitVec.ofNat 32 position }
  else io

/-- A round of `fs_write`: `n` bytes of one sector, and the size if they go past it. -/
def writePart (io : Io) (file : Fin 16) (src position n : Nat) : Bool × Io :=
  let r := readSector io ((io.fs.directory file).sector position)
  if r.1 then
    let buffer := r.2.fs.sectorBuffer.overwrite (position % 512) n (r.2.mem.window src)
    let q := writeSector { r.2 with
      fs := { r.2.fs with sectorBuffer := buffer }
      loads := r.2.loads ++ [(src, n)] } ((io.fs.directory file).sector position)
    if q.1 then (true, growSize q.2 file (position + n)) else q
  else r

/-- The loop of `fs_write`. -/
def writeLoop (file : Fin 16) (src length limit : Nat) : Nat → Io → Nat → Nat → Option Nat × Io
  | 0, io, done, _ => (some done, io)
  | fuel + 1, io, done, position =>
    if done < length ∧ position < limit then
      let n := min (length - done) (min (limit - position) (512 - position % 512))
      let r := writePart io file (src + done) position n
      if r.1 then writeLoop file src length limit fuel r.2 (done + n) (position + n)
      else (none, r.2)
    else (some done, io)

def fsWrite (io : Io) (file : Fin 16) (position : Word) (src : Nat) (length : Word) :
    Option Nat × Io :=
  let limit := ((io.fs.directory file).capacity * 512).toNat
  writeLoop file src length.toNat limit length.toNat io 0 position.toNat

def fsSize (io : Io) (file : Fin 16) : Word := (io.fs.directory file).size

/-- The loop of `fs_name`. -/
def nameScan (fs : Fs) : List (Fin 16) → Nat → Option (Fin 16)
  | [], _ => none
  | i :: rest, index =>
    if inUse fs i then if index = 0 then some i else nameScan fs rest (index - 1)
    else nameScan fs rest index

def fsName (io : Io) (index : Word) : Option ((Fin 20 → UInt8) × Word) :=
  if io.fs.mounted then
    (nameScan io.fs (List.finRange 16) index.toNat).map fun i =>
      ((io.fs.directory i).name, (io.fs.directory i).size)
  else none

end TinyProcessors
