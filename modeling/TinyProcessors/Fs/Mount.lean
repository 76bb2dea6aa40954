import TinyProcessors.Fs.Transfers

namespace TinyProcessors

structure Superblock (buffer : Bytes) (capacity : Word) : Prop where
  magic : buffer.word 0 = 0x31534654
  directory : buffer.word 8 = 1
  data : buffer.word 12 = 2
  entries : buffer.word 16 = 16
  fits : buffer.word 4 ≤ capacity
  room : 2 < buffer.word 4

theorem Superblock.congr (h : Superblock b capacity) (hb : ∀ k < 20, b' k = b k) :
    Superblock b' capacity ∧ Bytes.word b' 4 = b.word 4 := by
  have hw (start : Nat) (hs : start + 4 ≤ 20) : Bytes.word b' start = b.word start := by
    apply word_congr
    intro k hk
    exact hb _ (by omega)
  refine ⟨⟨?_, ?_, ?_, ?_, ?_, ?_⟩, hw 4 (by omega)⟩
  · exact (hw 0 (by omega)).trans h.magic
  · exact (hw 8 (by omega)).trans h.directory
  · exact (hw 12 (by omega)).trans h.data
  · exact (hw 16 (by omega)).trans h.entries
  · rw [hw 4 (by omega)]
    exact h.fits
  · rw [hw 4 (by omega)]
    exact h.room

def Io.mount (io : Io) (sectorBuffer directory : Bytes) (disk : Disk) : Io :=
  { io with
    fs := {
      directory := decodeDirectory directory
      corrupt := fun i => entryCorrupt (sectorBuffer.word 4) (decodeDirectory directory i)
      sectorBuffer
      sectors := sectorBuffer.word 4
      mounted := true }
    disk }

theorem fsMount_cases (io : Io) (capacity : Word) :
    (fsMount io capacity).1 = false ∧ (fsMount io capacity).2.fs.mounted = io.fs.mounted ∨
    ∃ buffer directory disk₁ disk,
      io.disk.transferIn 0 1 io.fs.sectorBuffer 0 = (true, buffer, disk₁) ∧
      disk₁.transferIn 1 1 (directoryBytes io.fs.directory) 0 = (true, directory, disk) ∧
      Superblock buffer capacity ∧ fsMount io capacity = (true, io.mount buffer directory disk) := by
  obtain ⟨ok, buffer, disk₁, h₁⟩ : ∃ ok buffer disk₁,
      io.disk.transferIn 0 1 io.fs.sectorBuffer 0 = (ok, buffer, disk₁) := ⟨_, _, _, rfl⟩
  obtain ⟨ok', directory, disk, h₂⟩ : ∃ ok' directory disk,
      disk₁.transferIn 1 1 (directoryBytes io.fs.directory) 0 = (ok', directory, disk) :=
    ⟨_, _, _, rfl⟩
  simp only [fsMount, h₁, h₂]
  split
  · exact .inl ⟨rfl, rfl⟩
  next hc =>
    simp only [Bool.or_eq_true, decide_eq_true_eq, not_or, Bool.not_eq_true', Bool.not_eq_false,
      not_not, ne_eq, gt_iff_lt, BitVec.not_lt, BitVec.not_le] at hc
    obtain ⟨⟨⟨⟨⟨⟨hok, h0⟩, h8⟩, h12⟩, h16⟩, hfits⟩, hroom⟩ := hc
    split
    · exact .inl ⟨rfl, rfl⟩
    next hok' =>
      simp only [Bool.not_eq_true', Bool.not_eq_false] at hok'
      refine .inr ⟨buffer, directory, disk₁, disk, ?_, ?_, ⟨h0, h8, h12, h16, hfits, hroom⟩, rfl⟩
      · rw [hok]
      · rw [h₂, hok']

theorem transferIn_disk (d : Disk) (sector : Word) (count : Nat) (buffer : Bytes) (at_ : Nat) :
    (d.transferIn sector count buffer at_).2.2.image = d.image ∧
      (d.transferIn sector count buffer at_).2.2.size = d.size ∧
      (d.transferIn sector count buffer at_).2.2.outcome = d.outcome :=
  virtioTransfer_disk d sector count

theorem fsMount_disk (io : Io) (capacity : Word) :
    (fsMount io capacity).2.disk.image = io.disk.image ∧
      (fsMount io capacity).2.disk.size = io.disk.size ∧
      (io.disk.Sound → (fsMount io capacity).2.disk.Sound) := by
  obtain ⟨hi, hs, -⟩ := transferIn_disk io.disk 0 1 io.fs.sectorBuffer 0
  have hsound : io.disk.Sound → (io.disk.transferIn 0 1 io.fs.sectorBuffer 0).2.2.Sound :=
    fun h => h.served 0 1
  unfold fsMount
  dsimp only
  split
  · exact ⟨hi, hs, hsound⟩
  · obtain ⟨hi', hs', -⟩ := transferIn_disk (io.disk.transferIn 0 1 io.fs.sectorBuffer 0).2.2 1 1
      (directoryBytes io.fs.directory) 0
    split
    · exact ⟨hi'.trans hi, hs'.trans hs, fun h => (hsound h).served 1 1⟩
    · exact ⟨hi'.trans hi, hs'.trans hs, fun h => (hsound h).served 1 1⟩

theorem fsMount_mounted (io : Io) (h : (fsMount io io.disk.capacity).1 = true) :
    (fsMount io io.disk.capacity).2.Mounted := by
  rcases fsMount_cases io io.disk.capacity with
    ⟨hf, -⟩ | ⟨buffer, directory, disk₁, disk, h₁, h₂, hs, he⟩
  · rw [hf] at h
    cases h
  · have hd₁ := (transferIn_disk io.disk 0 1 io.fs.sectorBuffer 0).2.1
    have hd₂ := (transferIn_disk disk₁ 1 1 (directoryBytes io.fs.directory) 0).2.1
    rw [h₁] at hd₁
    rw [h₂] at hd₂
    have hcap : disk.capacity = io.disk.capacity := by
      rw [Disk.capacity, Disk.capacity, hd₂, hd₁]
    rw [he]
    refine ⟨rfl, BitVec.lt_def.1 hs.room, ?_, ?_, ?_⟩
    · change (buffer.word 4).toNat ≤ disk.capacity.toNat
      rw [hcap]
      exact BitVec.le_def.1 hs.fits
    · intro i hi
      exact (inUse_iff.1 hi).2
    · intro i hi
      change entryCorrupt _ _ = false
      change (decodeDirectory directory i).name 0 = 0 at hi
      simp only [entryCorrupt, hi, ne_eq, not_true_eq_false, decide_false, Bool.false_and]

structure Remount (io io' : Io) : Prop where
  directory : io'.fs.directory = decodeDirectory (io.disk.image.window 512)
  corrupt : io'.fs.corrupt = fun i => entryCorrupt (io.disk.image.word 4) (io'.fs.directory i)
  sectors : io'.fs.sectors = io.disk.image.word 4
  image : io'.disk.image = io.disk.image
  size : io'.disk.size = io.disk.size
  mem : io'.mem = io.mem
  sound : io'.disk.Sound

theorem decodeDirectory_congr {b b' : Bytes} (h : ∀ k < 512, b k = b' k) :
    decodeDirectory b = decodeDirectory b' := by
  apply decodeDirectory_eq
  intro k hk
  rw [directoryBytes_decode b' hk, h k hk]

theorem fsMount_of_superblock (io : Io) (capacity : Word)
    (h₁ : io.disk.transferIn 0 1 io.fs.sectorBuffer 0 = (true, buffer, disk₁))
    (h₂ : disk₁.transferIn 1 1 (directoryBytes io.fs.directory) 0 = (true, directory, disk))
    (hs : Superblock buffer capacity) :
    fsMount io capacity = (true, io.mount buffer directory disk) := by
  simp only [fsMount, h₁, h₂, hs.magic, hs.directory, hs.data, hs.entries, gt_iff_lt,
    BitVec.not_lt.2 hs.fits, BitVec.not_le.2 hs.room, ne_eq, not_true_eq_false, decide_false,
    Bool.not_true, Bool.or_false, Bool.false_eq_true, if_false]
  rfl

section Sound

variable {io : Io} (hs : io.disk.Sound) (hcap : 2 ≤ io.disk.capacity.toNat)
include hs hcap

theorem mount_reads :
    io.disk.transferIn 0 1 io.fs.sectorBuffer 0 =
      (true, io.fs.sectorBuffer.overwrite 0 512 (io.disk.image.window 0),
        { io.disk with served := io.disk.served + 1 }) ∧
    ({ io.disk with served := io.disk.served + 1 } : Disk).transferIn 1 1
        (directoryBytes io.fs.directory) 0 =
      (true, (directoryBytes io.fs.directory).overwrite 0 512 (io.disk.image.window 512),
        { io.disk with served := io.disk.served + 1 + 1 }) := by
  have h0 : (0 : Word).toNat = 0 := rfl
  have h1 : (1 : Word).toNat = 1 := rfl
  have hs' : ({ io.disk with served := io.disk.served + 1 } : Disk).Sound := hs
  have hfits : (1 : Word).toNat + 1 ≤
      ({ io.disk with served := io.disk.served + 1 } : Disk).capacity.toNat := hcap
  have hr := hs.transferIn (by omega : (0 : Word).toNat + 1 ≤ _) io.fs.sectorBuffer 0
  have hr' := hs'.transferIn hfits (directoryBytes io.fs.directory) 0
  rw [h0, Nat.zero_mul, Nat.one_mul] at hr
  rw [h1, Nat.one_mul] at hr'
  exact ⟨hr, hr'⟩

theorem mount_remounts (hb : Superblock (io.fs.sectorBuffer.overwrite 0 512
      (io.disk.image.window 0)) io.disk.capacity) :
    (fsMount io io.disk.capacity).1 = true ∧ Remount io (fsMount io io.disk.capacity).2 := by
  obtain ⟨h₁, h₂⟩ := mount_reads hs hcap
  have hread : ∀ k < 20, io.disk.image k =
      io.fs.sectorBuffer.overwrite 0 512 (io.disk.image.window 0) k := by
    intro k hk
    rw [overwrite_of_mem (Nat.zero_le _) (by omega), window_apply, Nat.zero_add, Nat.sub_zero]
  have hdir : ∀ k < 512, Bytes.overwrite (directoryBytes io.fs.directory) 0 512
      (io.disk.image.window 512) k = io.disk.image.window 512 k := by
    intro k hk
    rw [overwrite_of_mem (Nat.zero_le _) (by omega), Nat.sub_zero]
  have hword := (hb.congr hread).2
  rw [fsMount_of_superblock io io.disk.capacity h₁ h₂ hb]
  refine ⟨rfl, decodeDirectory_congr hdir, ?_, hword.symm, rfl, rfl, rfl, hs⟩
  rw [hword]
  rfl

end Sound

theorem fsMount_sound (io : Io) (hs : io.disk.Sound) :
    ((fsMount io io.disk.capacity).1 = true ↔ Superblock io.disk.image io.disk.capacity) ∧
      ((fsMount io io.disk.capacity).1 = true → Remount io (fsMount io io.disk.capacity).2) := by
  have hlt {b : Bytes} (hb : Superblock b io.disk.capacity) : 2 ≤ io.disk.capacity.toNat :=
    Nat.le_trans (Nat.le_of_lt (BitVec.lt_def.1 hb.room)) (BitVec.le_def.1 hb.fits)
  have hread : ∀ k < 20, io.fs.sectorBuffer.overwrite 0 512 (io.disk.image.window 0) k =
      io.disk.image k := by
    intro k hk
    rw [overwrite_of_mem (Nat.zero_le _) (by omega), window_apply, Nat.zero_add, Nat.sub_zero]
  have haccept (h : (fsMount io io.disk.capacity).1 = true) : Superblock
      (io.fs.sectorBuffer.overwrite 0 512 (io.disk.image.window 0)) io.disk.capacity := by
    rcases fsMount_cases io io.disk.capacity with ⟨hf, -⟩ | ⟨b, d, disk₁, disk, h₁, h₂, hb, -⟩
    · rw [hf] at h
      cases h
    · rw [(mount_reads hs (hlt hb)).1] at h₁
      cases h₁
      exact hb
  refine ⟨⟨fun h => ?_, fun hb => ?_⟩, fun h => ?_⟩
  · exact ((haccept h).congr fun k hk => (hread k hk).symm).1
  · exact (mount_remounts hs (hlt hb) (hb.congr hread).1).1
  · exact (mount_remounts hs (hlt (haccept h)) (haccept h)).2

end TinyProcessors
