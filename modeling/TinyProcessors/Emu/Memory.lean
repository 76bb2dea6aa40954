import TinyProcessors.Lib.Bytes

namespace TinyProcessors

/-- How an access ends: `mem_access`. -/
inductive MemAccess
  | ok
  | fault
  | misaligned
  | pageFault
  deriving DecidableEq

abbrev ramBase : Nat := 0x80000000
abbrev ramSize : Nat := 0x1000000
abbrev fbBase : Nat := 0x12000000
abbrev fbSize : Nat := 76800

/-- `bytes_read`: `width` bytes, the lowest first. -/
def Bytes.read (m : Bytes) (start : Nat) : Nat → Word
  | 0 => 0
  | width + 1 => m.read (start + 1) width <<< 8 ||| BitVec.ofNat 32 (m start).toNat

/-- `bytes_write`. -/
def Bytes.write (m : Bytes) (start width : Nat) (value : Word) : Bytes :=
  m.overwrite start width (wordByte value)

/-- LR.W's reservation: the word indices of the virtual word and of the physical one. -/
structure Reservation where
  reserved : Bool
  reservation : Word
  reservationPa : Word

/-- RAM, the framebuffer by offset, and the reservation their writes end. -/
structure Memory where
  ram : Bytes
  fb : Bytes
  lr : Reservation

/-- `snoop_device_write`: it ends the reservation of its word. -/
def Memory.snoopDeviceWrite (mem : Memory) (address : Word) : Memory :=
  if mem.lr.reserved ∧ address >>> 2 = mem.lr.reservationPa then
    { mem with lr := { mem.lr with reserved := false } }
  else mem

@[simp] theorem Memory.snoop_ram (mem : Memory) (address : Word) :
    (mem.snoopDeviceWrite address).ram = mem.ram := by
  unfold Memory.snoopDeviceWrite
  split <;> rfl

@[simp] theorem Memory.snoop_fb (mem : Memory) (address : Word) :
    (mem.snoopDeviceWrite address).fb = mem.fb := by
  unfold Memory.snoopDeviceWrite
  split <;> rfl

end TinyProcessors
