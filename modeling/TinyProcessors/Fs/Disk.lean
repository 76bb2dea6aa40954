import TinyProcessors.Lib.Bytes

namespace TinyProcessors

/-- Why the driver stopped using its device (virtio.c's `fail`). -/
inductive Failure
  | needsReset
  | neverCompleted
  deriving DecidableEq

/-- The text `virtio_failure` returns. -/
def Failure.why : Failure → String
  | .needsReset => "the device needs a reset"
  | .neverCompleted => "a request never completed"

/-- What the device makes of a request that fits the disk. -/
inductive Outcome
  | done
  | ioError (moved : Nat)
  | gaveUp (failure : Failure) (moved : Nat)

/-- The block device behind the driver; `outcome` decides the requests. -/
structure Disk where
  image : Bytes
  size : Word
  outcome : Nat → Outcome
  served : Nat
  failure : Option Failure

def Disk.capacity (d : Disk) : Word := BitVec.ofNat 32 (d.size.toNat / 512)

theorem Disk.capacity_toNat (d : Disk) : d.capacity.toNat = d.size.toNat / 512 := by
  have h := d.size.isLt
  simp only [Disk.capacity, BitVec.toNat_ofNat]
  omega

/-- How many bytes of a request move, whether it succeeds, and the disk after it. -/
def virtioTransfer (d : Disk) (sector : Word) (count : Nat) : Nat × Bool × Disk :=
  if d.failure.isSome then (0, false, d)
  else if d.capacity.toNat < sector.toNat + count then (0, false, { d with served := d.served + 1 })
  else match d.outcome d.served with
    | .done => (count * 512, true, { d with served := d.served + 1 })
    | .ioError moved => (min moved (count * 512), false, { d with served := d.served + 1 })
    | .gaveUp failure moved =>
      (min moved (count * 512), false, { d with served := d.served + 1, failure := some failure })

/-- A transfer from the disk to `buffer[at_, ...)`. -/
def Disk.transferIn (d : Disk) (sector : Word) (count : Nat) (buffer : Bytes) (at_ : Nat) :
    Bool × Bytes × Disk :=
  let r := virtioTransfer d sector count
  (r.2.1, buffer.overwrite at_ r.1 (d.image.window (sector.toNat * 512)), r.2.2)

/-- A transfer of one sector from `buffer` to the disk. -/
def Disk.transferOut (d : Disk) (sector : Word) (buffer : Bytes) : Bool × Disk :=
  let r := virtioTransfer d sector 1
  (r.2.1, { r.2.2 with image := d.image.overwrite (sector.toNat * 512) r.1 buffer })

def Disk.Sound (d : Disk) : Prop := d.failure = none ∧ ∀ n, d.outcome n = .done

theorem Disk.Sound.transfer {d : Disk} (h : d.Sound)
    (hs : sector.toNat + count ≤ d.capacity.toNat) :
    virtioTransfer d sector count = (count * 512, true, { d with served := d.served + 1 }) := by
  have hc : ¬ d.capacity.toNat < sector.toNat + count := by omega
  simp only [virtioTransfer, h.1, Option.isSome_none, Bool.false_eq_true, if_false, hc, h.2]

theorem Disk.Sound.transferIn {d : Disk} (h : d.Sound)
    (hs : sector.toNat + count ≤ d.capacity.toNat) (buffer : Bytes) (at_ : Nat) :
    d.transferIn sector count buffer at_ =
      (true, buffer.overwrite at_ (count * 512) (d.image.window (sector.toNat * 512)),
        { d with served := d.served + 1 }) := by
  simp only [Disk.transferIn, h.transfer hs]

theorem Disk.Sound.transferOut {d : Disk} (h : d.Sound)
    (hs : sector.toNat + 1 ≤ d.capacity.toNat) (buffer : Bytes) :
    d.transferOut sector buffer =
      (true, { d with
        served := d.served + 1
        image := d.image.overwrite (sector.toNat * 512) 512 buffer }) := by
  simp only [Disk.transferOut, h.transfer hs, Nat.one_mul]

theorem virtioTransfer_disk (d : Disk) (sector : Word) (count : Nat) :
    (virtioTransfer d sector count).2.2.image = d.image ∧
      (virtioTransfer d sector count).2.2.size = d.size ∧
      (virtioTransfer d sector count).2.2.outcome = d.outcome := by
  unfold virtioTransfer
  split
  · exact ⟨rfl, rfl, rfl⟩
  · split
    · exact ⟨rfl, rfl, rfl⟩
    · split <;> exact ⟨rfl, rfl, rfl⟩

theorem Disk.Sound.served {d : Disk} (h : d.Sound) (sector : Word) (count : Nat) :
    (virtioTransfer d sector count).2.2.Sound := by
  refine ⟨?_, by rw [(virtioTransfer_disk d sector count).2.2]; exact h.2⟩
  unfold virtioTransfer
  split
  · exact h.1
  · split
    · exact h.1
    · rw [h.2]
      exact h.1

theorem virtioTransfer_moved (d : Disk) (sector : Word) (count : Nat) :
    (virtioTransfer d sector count).1 ≤ count * 512 := by
  unfold virtioTransfer
  split
  · exact Nat.zero_le _
  · split
    · exact Nat.zero_le _
    · split
      · exact Nat.le_refl _
      · exact Nat.min_le_right _ _
      · exact Nat.min_le_right _ _

end TinyProcessors
