import TinyProcessors.Fs.Tfs

namespace TinyProcessors

/-- A named byte string that never outgrows the sectors set aside for it. -/
@[ext] structure File where
  name : List UInt8
  capacity : Nat
  contents : List UInt8
  bounded : contents.length ≤ capacity * 512

def File.read (f : File) (position length : Nat) : List UInt8 :=
  (f.contents.drop position).take length

/-- How much of a write of `length` bytes at `position` the capacity leaves room for. -/
def File.room (f : File) (position length : Nat) : Nat := min length (f.capacity * 512 - position)

def File.write (f : File) (position : Nat) (bytes : List UInt8) : File where
  name := f.name
  capacity := f.capacity
  contents := f.contents.take position ++ bytes.take (f.room position bytes.length) ++
    f.contents.drop (position + f.room position bytes.length)
  bounded := by
    have h := f.bounded
    simp only [File.room, List.length_append, List.length_take, List.length_drop]
    omega

def File.truncate (f : File) : File := { f with contents := [], bounded := Nat.zero_le _ }

/-- A directory slot: not in use, found inconsistent and left alone, or a file. -/
inductive Slot
  | free
  | setAside
  | file (f : File)

def Slot.isFree : Slot → Bool
  | .free => true
  | _ => false

def Slot.file? : Slot → Option File
  | .file f => some f
  | _ => none

def Slot.named (name : List UInt8) : Slot → Bool
  | .file f => f.name = name
  | _ => false

def Slot.map (g : File → File) : Slot → Slot
  | .file f => .file (g f)
  | slot => slot

/-- What a tfs disk stores; new files take the sectors from `used` on. -/
structure Store where
  slots : Fin 16 → Slot
  used : Nat
  sectors : Nat

def Store.find (s : Store) (p : Slot → Bool) : Option (Fin 16) :=
  (List.finRange 16).find? fun i => p (s.slots i)

def Store.set (s : Store) (i : Fin 16) (slot : Slot) : Store :=
  { s with slots := Function.update s.slots i slot }

def Store.update (s : Store) (i : Fin 16) (g : File → File) : Store :=
  s.set i ((s.slots i).map g)

def File.new (name : List UInt8) : File where
  name := name
  capacity := 8
  contents := []
  bounded := Nat.zero_le _

/-- Where a new file of this name would go, if anywhere. -/
def Store.vacancy (s : Store) (name : List UInt8) : Option (Fin 16) :=
  if name.length < 20 ∧ s.used + 8 ≤ s.sectors then s.find Slot.isFree else none

def Store.openFile (s : Store) (name : List UInt8) (create : Bool) : Option (Fin 16) × Store :=
  if name = [] then (none, s)
  else match s.find (Slot.named name) with
    | some i => (some i, s)
    | none =>
      match if create then s.vacancy name else none with
      | some i => (some i, { s.set i (.file (File.new name)) with used := s.used + 8 })
      | none => (none, s)

def Store.files (s : Store) : List File := (List.finRange 16).filterMap fun i => (s.slots i).file?

inductive Call
  | fsOpen (name : List UInt8) (create : Bool)
  | fsTruncate (file : Fin 16)
  | fsWrite (file : Fin 16) (position : Word) (src : Nat) (length : Word)
  | fsRead (file : Fin 16) (position : Word) (dst : Nat) (length : Word)
  | fsSize (file : Fin 16)
  | fsName (index : Word)
  | fsFlush

/-- What they return: `none` is an error, or an index past the last file. -/
inductive Reply
  | handle (file : Option (Fin 16))
  | nothing
  | count (n : Option Nat)
  | size (n : Nat)
  | entry (e : Option (List UInt8 × Nat))
  | flushed (ok : Bool)

def Store.call (s : Store) (mem : Bytes) : Call → Reply × Store × Bytes
  | .fsOpen name create => (.handle (s.openFile name create).1, (s.openFile name create).2, mem)
  | .fsTruncate file => (.nothing, s.update file File.truncate, mem)
  | .fsWrite file position src length =>
    let bytes := mem.slice src length.toNat
    match s.slots file with
    | .file f => (.count (some (f.room position.toNat length.toNat)),
        s.update file (·.write position.toNat bytes), mem)
    | _ => (.count none, s, mem)
  | .fsRead file position dst length =>
    match s.slots file with
    | .file f =>
      let bytes := f.read position.toNat length.toNat
      (.count (some bytes.length), s, mem.overwrite dst bytes.length (Bytes.ofList bytes))
    | _ => (.count none, s, mem)
  | .fsSize file =>
    (.size (((s.slots file).file?.map fun f => f.contents.length).getD 0), s, mem)
  | .fsName index =>
    (.entry (s.files[index.toNat]?.map fun f => (f.name, f.contents.length)), s, mem)
  | .fsFlush => (.flushed true, s, mem)

/-- The file system's side of a call. A name is read as the C string it is. -/
def Io.call (io : Io) : Call → Reply × Io
  | .fsOpen name create => (.handle (fsOpen io name create).1, (fsOpen io name create).2)
  | .fsTruncate file => (.nothing, fsTruncate io file)
  | .fsWrite file position src length =>
    (.count (fsWrite io file position src length).1, (fsWrite io file position src length).2)
  | .fsRead file position dst length =>
    (.count (fsRead io file position dst length).1, (fsRead io file position dst length).2)
  | .fsSize file => (.size (fsSize io file).toNat, io)
  | .fsName index =>
    (.entry ((fsName io index).map fun r => (cstring (List.ofFn r.1), r.2.toNat)), io)
  | .fsFlush => (.flushed (fsFlush io).1, (fsFlush io).2)

def Io.run (io : Io) : List Call → List Reply × Io
  | [] => ([], io)
  | c :: calls =>
    let r := (io.call c).2.run calls
    ((io.call c).1 :: r.1, r.2)

def Store.run (s : Store) (mem : Bytes) : List Call → List Reply × Store × Bytes
  | [] => ([], s, mem)
  | c :: calls =>
    let r := (s.call mem c).2.1.run (s.call mem c).2.2 calls
    ((s.call mem c).1 :: r.1, r.2)

/-- What fs.h asks of a caller. -/
def Call.Legal (s : Store) : Call → Prop
  | .fsOpen name _ => 0 ∉ name
  | .fsTruncate file | .fsRead file _ _ _ | .fsSize file => ∃ f, s.slots file = .file f
  | .fsWrite file position _ _ => ∃ f, s.slots file = .file f ∧ position.toNat ≤ f.contents.length
  | .fsName _ | .fsFlush => True

def LegalRun (s : Store) (mem : Bytes) : List Call → Prop
  | [] => True
  | c :: calls => c.Legal s ∧ LegalRun (s.call mem c).2.1 (s.call mem c).2.2 calls

def Call.file : Call → Option (Fin 16)
  | .fsTruncate file | .fsWrite file _ _ _ => some file
  | _ => none

theorem Store.set_slots_of_ne (s : Store) (h : j ≠ i) (slot : Slot) :
    (s.set i slot).slots j = s.slots j := by
  simp only [Store.set, Function.update_of_ne h]

theorem Store.set_slots_self (s : Store) (i : Fin 16) (slot : Slot) :
    (s.set i slot).slots i = slot := by
  simp only [Store.set, Function.update_self]

theorem Store.find_some {s : Store} (h : s.find p = some i) : p (s.slots i) = true :=
  List.find?_some (p := fun i => p (s.slots i)) h

theorem Store.vacancy_free {s : Store} (h : s.vacancy name = some i) : (s.slots i).isFree = true := by
  unfold Store.vacancy at h
  split at h
  · exact Store.find_some h
  · cases h

theorem Store.openFile_frame (s : Store) (name : List UInt8) (create : Bool)
    (hf : s.slots i = .file f) : (s.openFile name create).2.slots i = .file f := by
  unfold Store.openFile
  split
  · exact hf
  · split
    · exact hf
    · split
      next j hj =>
        have hfree : (s.slots j).isFree = true := by
          split at hj
          · exact Store.vacancy_free hj
          · cases hj
        have hne : i ≠ j := by
          rintro rfl
          rw [hf] at hfree
          cases hfree
        exact (s.set_slots_of_ne hne _).trans hf
      · exact hf

theorem Store.call_frame (s : Store) (mem : Bytes) (c : Call) (hf : s.slots i = .file f)
    (hc : c.file ≠ some i) : (s.call mem c).2.1.slots i = .file f := by
  cases c with
  | fsOpen name create => exact s.openFile_frame name create hf
  | fsTruncate file =>
    have hne : i ≠ file := fun he => hc (congrArg some he.symm)
    exact (s.set_slots_of_ne hne _).trans hf
  | fsWrite file position src length =>
    have hne : i ≠ file := fun he => hc (congrArg some he.symm)
    simp only [Store.call]
    split
    · exact (s.set_slots_of_ne hne _).trans hf
    · exact hf
  | fsRead file position dst length =>
    simp only [Store.call]
    split <;> exact hf
  | fsSize file => exact hf
  | fsName index => exact hf
  | fsFlush => exact hf

end TinyProcessors
