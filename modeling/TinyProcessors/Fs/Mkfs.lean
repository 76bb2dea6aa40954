import TinyProcessors.Fs.Tfs

namespace TinyProcessors.Mkfs

/-- A Python `bytearray` that holds a disk. -/
structure Image where
  size : Nat
  bytes : Bytes

/-- What `FsError` reports, one constructor for each place that raises it. -/
inductive FsError
  | diskSize (size : Nat)
  | noSuperblock
  | notUtf8 (i : Fin 16) (name : List UInt8)
  | extent (name : String) (first capacity size : Nat)
  | noFile (name : String)
  | nameLength (name : String)
  | fileExists (name : String)
  | noRoom (name : String) (capacity : Nat)
  | directoryFull

/-- The texts; Python's `repr` of a name is given. -/
def FsError.message (reprBytes : List UInt8 → String) (reprName : String → String) :
    FsError → String
  | .diskSize size => s!"a disk is whole 512-byte sectors, 1536 to 8388608 bytes, not {size}"
  | .noSuperblock => "no tfs superblock that fits this disk"
  | .notUtf8 i name => s!"directory entry {i}: the name {reprBytes name} is not UTF-8"
  | .extent name first capacity size =>
    s!"{name}: extent {first}+{capacity} or size {size} does not fit the disk"
  | .noFile name => s!"no file {name}"
  | .nameLength name => s!"{reprName name}: a name is 1 to 19 bytes"
  | .fileExists name => s!"{name} exists"
  | .noRoom name capacity => s!"{name}: no room for {capacity} sectors"
  | .directoryFull => "the directory is full"

def encode (name : String) : List UInt8 := name.toUTF8.data.toList

def decode (bytes : List UInt8) : Option String := String.fromUTF8? ⟨bytes.toArray⟩

def checkSize (size : Nat) : Except FsError Unit :=
  if size % 512 ≠ 0 ∨ ¬ (1536 ≤ size ∧ size ≤ 0x800000) then .error (.diskSize size) else .ok ()

/-- `struct.pack_into` of consecutive words. -/
def packWords (b : Bytes) : Nat → List Word → Bytes
  | _, [] => b
  | at_, w :: ws => packWords (b.overwrite at_ 4 (wordByte w)) (at_ + 4) ws

def emptyDisk (sectors : Word) : Bytes :=
  packWords (fun _ => 0) 0 [0x31534654, sectors, 1, 2, 16]

def blank (size : Nat) : Except FsError Image := do
  checkSize size
  return { size, bytes := emptyDisk (BitVec.ofNat 32 (size / 512)) }

def check (disk : Image) : Except FsError Unit := do
  checkSize disk.size
  let word := disk.bytes.word
  if word 0 ≠ 0x31534654 ∨ word 8 ≠ 1 ∨ word 12 ≠ 2 ∨ word 16 ≠ 16 ∨
      ¬ (2 < (word 4).toNat ∧ (word 4).toNat ≤ disk.size / 512) then
    throw .noSuperblock

def sectorCount (disk : Image) : Except FsError Nat := do
  check disk
  return (disk.bytes.word 4).toNat

/-- A row of the listing: the name, first sector, capacity and size of a file. -/
structure Row where
  name : String
  first : Nat
  capacity : Nat
  size : Nat

/-- The body of the loop of `entries`; `none` for an entry that is not in use. -/
def entryRow (disk : Image) (sectors : Nat) (i : Fin 16) : Except FsError (Option Row) :=
  let e := Entry.decode disk.bytes (512 + 32 * i)
  let name := List.ofFn e.name
  match decode (name.rdropWhile (· = 0)) with
  | none => .error (.notUtf8 i name)
  | some name =>
    if name = "" then .ok none
    else if e.first.toNat < 2 ∨ e.first.toNat + e.capacity.toNat > sectors ∨
        e.size.toNat > e.capacity.toNat * 512 then
      .error (.extent name e.first.toNat e.capacity.toNat e.size.toNat)
    else .ok (some ⟨name, e.first.toNat, e.capacity.toNat, e.size.toNat⟩)

def entryRows (disk : Image) (sectors : Nat) : List (Fin 16) → Except FsError (List Row)
  | [] => .ok []
  | i :: rest => do
    let row ← entryRow disk sectors i
    let rows ← entryRows disk sectors rest
    return row.toList ++ rows

def entries (disk : Image) : Except FsError (List Row) := do
  let sectors ← sectorCount disk
  entryRows disk sectors (List.finRange 16)

def read (disk : Image) (name : String) : Except FsError (List UInt8) := do
  let rows ← entries disk
  match rows.find? fun row => row.name = name with
  | some row => return disk.bytes.slice (row.first * 512) row.size
  | none => throw (.noFile name)

def freeSlot (disk : Image) : Option (Fin 16) :=
  (List.finRange 16).find? fun i => disk.bytes (512 + 32 * i) = 0

def packEntry (name : List UInt8) (first capacity size : Nat) : Entry where
  name := fun k => Bytes.ofList name k
  first := BitVec.ofNat 32 first
  capacity := BitVec.ofNat 32 capacity
  size := BitVec.ofNat 32 size

/-- The sectors a file gets: what was asked for, and at least those its bytes fill. -/
def capacityFor (capacity : Int) (data : List UInt8) : Nat :=
  (max capacity ((data.length + 511) / 512 : Nat)).toNat

/-- `ENTRY.pack_into` of a new entry, and its bytes put in place. -/
def Image.put (disk : Image) (i : Fin 16) (name : String) (first capacity : Nat)
    (data : List UInt8) : Image :=
  let packed := disk.bytes.overwrite (512 + 32 * i) 32
    (packEntry (encode name) first capacity data.length).encode
  { disk with bytes := packed.overwrite (first * 512) data.length (Bytes.ofList data) }

def add (disk : Image) (name : String) (data : List UInt8) (capacity : Int) :
    Except FsError Image :=
  if ¬ (0 < (encode name).length ∧ (encode name).length < 20) then .error (.nameLength name)
  else do
    let files ← entries disk
    if files.any fun row => row.name = name then .error (.fileExists name)
    else do
      let capacity := capacityFor capacity data
      let first := files.foldl (fun m row => max m (row.first + row.capacity)) 2
      let sectors ← sectorCount disk
      if first + capacity > sectors then .error (.noRoom name capacity)
      else match freeSlot disk with
        | none => .error .directoryFull
        | some i => .ok (disk.put i name first capacity data)

/-- The `--add` options, one after another. -/
def addAll (disk : Image) : List (String × List UInt8 × Int) → Except FsError Image
  | [] => .ok disk
  | (name, data, capacity) :: rest => do
    let disk ← add disk name data capacity
    addAll disk rest

end TinyProcessors.Mkfs
