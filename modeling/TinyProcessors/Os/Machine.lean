import TinyProcessors.Os.Run
import TinyProcessors.Fs.Mkfs

namespace TinyProcessors

def windowBase : Device → Word
  | .ram => 0x80000000
  | .console => 0x10000000
  | .clint => 0x02000000
  | .plic => 0x0c000000
  | .virtio => 0x10001000
  | .input => 0x11001000
  | .display => 0x11002000
  | .palette => 0x11003000
  | .g1 => 0x11007000
  | .g2 => 0x11008000
  | .dmaWindow => 0x1100a000
  | .done => 0x00100000

def wordBytes (value : Nat) : List UInt8 := (List.range 4).map fun k => UInt8.ofNat (value / 256 ^ k)

/-- What a RAM disk is packed from: a program of one slot with a 4-byte image. -/
structure Packed where
  name : String
  slot : Nat
  flags : Nat

/-- The RAM disk of rv32_ramdisk.py's `build`. -/
def ramdiskOf (programs : List Packed) : List UInt8 :=
  let table := programs.mapIdx fun k p =>
    let name := textBytes p.name
    let load := slotBase + slotSize * p.slot
    name ++ List.replicate (24 - name.length) 0 ++
      [load, load, 4, 32, 16 + 56 * programs.length + 4 * k, p.flags, slotSize, 8192].flatMap
        wordBytes
  [0x4b534452, programs.length, 0, 0].flatMap wordBytes ++ table.flatten ++
    programs.flatMap fun _ => [0x73, 0, 0, 0]

/-- The machine of the device tree with every device but the disk. -/
def boardOf (programs : List Packed) : Board where
  base := windowBase
  display := true
  framebuffer := 0x12000000
  framebufferSize := 76800
  bootPalette := fun _ => 0
  input := true
  inputSource := 12
  gpu := true
  g3d := true
  dmaWindow := true
  disk := false
  engineWindows := [(0x11004000, 32), (0x11005000, 1024), (0x11006000, 1024), (0x11007000, 128),
    (0x11008000, 0x2000)]
  tick := 10000
  pageTables := 0x80080000
  header := 0x80010000
  onDisk := 0x80010010
  idlePc := 0x80000100
  idleStack := 0x80010200
  ramdisk := Bytes.ofList (ramdiskOf programs)
  ramdiskSize := BitVec.ofNat 32 (ramdiskOf programs).length
  fpUnit := fun _ _ _ _ _ => (0, 0)
  inputSource_lt := by decide
  header_placed := ⟨by decide, by decide⟩
  onDisk_placed := ⟨by decide, by decide⟩
  pageTables_placed := ⟨by decide, by decide⟩
  pageTables_aligned := by decide

/-- A machine with an empty disk in a world where nothing happens. -/
def quiet : Machine where
  image := fun _ => 0
  size := 0
  outcome := fun _ => .done
  mem := fun _ => 0
  tables := fun _ => 0
  world := fun _ => ⟨[], [], 0, 0, 0, false, false, fun _ => none⟩

def quietDisk : Machine := { quiet with image := Mkfs.emptyDisk 20, size := 20 * 512 }

def diskBoardOf (programs : List Packed) : Board := { boardOf programs with disk := true }

def registers (l : List (Nat × Word)) : Fin 32 → Word := fun k => (l.lookup k.val).getD 0

def callFrom (slot : Nat) (number : Word) (arguments : List (Nat × Word)) : List Event :=
  [.compute (registers ((17, number) :: arguments)) (BitVec.ofNat 32 (slotBase + slotSize * slot)),
    .trap 8 0]

/-- Whether a session ends between two steps, in a state that passes a test. -/
def reaches (b : Board) (m : Machine) (events : List Event) (test : State → Bool) : Bool :=
  match session b events (State.reset b m) with
  | .ok _ s => test s
  | .error _ _ => false

theorem reaches_iff : reaches b m events test = true ↔
    ∃ s, Reached b m events s ∧ test s = true := by
  unfold reaches Reached
  split
  next s h =>
    constructor
    · intro ht
      exact ⟨s, h, ht⟩
    · rintro ⟨s', h', ht⟩
      rw [h] at h'
      cases h'
      exact ht
  next h =>
    constructor
    · rintro ⟨⟩
    · rintro ⟨s', h', -⟩
      rw [h] at h'
      cases h'

end TinyProcessors
