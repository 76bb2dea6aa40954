import TinyProcessors.Fs.Effects
import TinyProcessors.Fs.Outcomes

namespace TinyProcessors

structure Io.Recorded (io : Io) : Prop where
  superblock : Superblock io.disk.image io.disk.capacity
  sectors : io.fs.sectors = io.disk.image.word 4
  setAside : io.fs.corrupt i = true → entryCorrupt io.fs.sectors (io.fs.directory i) = true

def Io.Current (io : Io) : Prop :=
  ∀ k < 512, io.disk.image (512 + k) = directoryBytes io.fs.directory k

theorem Io.Recorded.congr {io io' : Io} (h : io.Recorded)
    (himage : ∀ a < 512, io'.disk.image a = io.disk.image a) (hz : io'.disk.size = io.disk.size)
    (hs : io'.fs.sectors = io.fs.sectors)
    (hc : ∀ i, io'.fs.corrupt i = true →
      io.fs.corrupt i = true ∧ io'.fs.directory i = io.fs.directory i) : io'.Recorded := by
  obtain ⟨hb, hw⟩ : Superblock io'.disk.image io.disk.capacity ∧
      io'.disk.image.word 4 = io.disk.image.word 4 :=
    h.superblock.congr fun k hk => himage k (by omega)
  refine ⟨?_, ?_, fun {i} hi => ?_⟩
  · rw [Disk.capacity, hz]
    exact hb
  · rw [hs, hw, h.sectors]
  · obtain ⟨hci, hd⟩ := hc i hi
    rw [hs, hd]
    exact h.setAside hci

theorem Io.SameFiles.recorded {io io' : Io} (hs : io.SameFiles io') (h : io.Recorded) :
    io'.Recorded := by
  refine h.congr (fun a _ => by rw [hs.image]) hs.size hs.sectors fun i hi => ?_
  rw [hs.corrupt] at hi
  exact ⟨hi, by rw [hs.directory]⟩

theorem Io.SameFiles.current {io io' : Io} (hs : io.SameFiles io') (h : io.Current) :
    io'.Current := by
  intro k hk
  rw [hs.image, hs.directory]
  exact h k hk

theorem Io.With.recorded {io io' : Io} (hw : io.With m d io')
    (hd : ∀ a < 512, d a = io.disk.image a) (h : io.Recorded) : io'.Recorded := by
  refine h.congr (fun a ha => by rw [hw.image, hd a ha]) hw.size hw.sectors fun i hi => ?_
  rw [hw.corrupt] at hi
  exact ⟨hi, by rw [hw.directory]⟩

theorem Io.Recorded.setEntry {io : Io} (h : io.Recorded) (hi : io.fs.corrupt i = false)
    (e : Entry) : (io.setEntry i e).Recorded := by
  refine h.congr (fun _ _ => rfl) rfl rfl fun j hj => ⟨hj, ?_⟩
  have hne : j ≠ i := by
    rintro rfl
    exact absurd (hi.symm.trans hj) Bool.false_ne_true
  rw [setEntry_directory, Function.update_of_ne hne]

theorem flushed_below (io : Io) (h : a < 512) : io.flushed a = io.disk.image a :=
  overwrite_of_not_mem (.inl h)

theorem Io.With.flushed_current {io io' : Io} (hw : io.With m io.flushed io') : io'.Current := by
  intro k hk
  rw [hw.image, hw.directory, Io.flushed, overwrite_of_mem (by omega) (by omega),
    Nat.add_sub_cancel_left]

theorem fsFlush_durable (io : Io) (hm : io.Mounted) (hs : io.disk.Sound) (h : io.Recorded) :
    (fsFlush io).2.disk.Sound ∧ (fsFlush io).2.Recorded ∧ (fsFlush io).2.Current := by
  obtain ⟨io', hrun, hw⟩ := fsFlush_spec io hm hs
  rw [hrun]
  exact ⟨hw.sound hs, hw.recorded (fun a => flushed_below io) h, hw.flushed_current⟩

theorem fsWrite_recorded (io : Io) (hm : io.Mounted) (hs : io.disk.Sound)
    (hu : inUse io.fs file = true) (h : io.Recorded) (position length : Word) (src : Nat) :
    (fsWrite io file position src length).2.disk.Sound ∧
      (fsWrite io file position src length).2.Recorded := by
  obtain ⟨io', hrun, hw⟩ := fsWrite_spec io src hm hs hu position length
  have hdata := (hm.bounded hu).data
  have hset := h.setEntry (inUse_iff.1 hu).2 ((io.fs.directory file).grown position.toNat
    (writeCount (io.fs.directory file) position.toNat length.toNat))
  rw [hrun]
  refine ⟨hw.sound hs, hw.recorded (fun a ha => ?_) hset⟩
  exact overwrite_of_not_mem (.inl (by omega))

theorem Remount.recorded {io io' : Io} (h : Remount io io')
    (hb : Superblock io.disk.image io.disk.capacity) : io'.Recorded ∧ io'.Current := by
  refine ⟨⟨?_, ?_, fun {i} hi => ?_⟩, fun k hk => ?_⟩
  · rw [Disk.capacity, h.size, h.image]
    exact hb
  · rw [h.sectors, h.image]
  · rw [h.corrupt] at hi
    rw [h.sectors]
    exact hi
  · rw [h.image, h.directory, directoryBytes_decode _ hk, window_apply]

theorem Represents.congr {io io' : Io} (hd : io'.fs.directory = io.fs.directory)
    (hc : io'.fs.corrupt = io.fs.corrupt) (hs : io'.fs.sectors = io.fs.sectors)
    (hi : io'.disk.image = io.disk.image) (h : Represents io store) : Represents io' store where
  slots i := (h.slots i).frame (by rw [hd]) (by rw [hc]) fun _ => by rw [hi]
  used := by
    rw [h.used]
    refine (Fs.used_congr (fun i => ?_) fun i => by rw [hd]).symm
    rw [inUse, inUse, hd, hc]
  sectors := by rw [h.sectors, hs]

theorem Io.Recorded.remount {io : Io} (h : io.Recorded) (hm : io.Mounted) (hc : io.Current) :
    (fsMount (Io.boot io.disk.image io.disk.size) io.disk.capacity).1 = true ∧
      ∀ store, Represents (fsMount (Io.boot io.disk.image io.disk.size) io.disk.capacity).2 store ↔
        Represents io store := by
  have hsound : (Io.boot io.disk.image io.disk.size).disk.Sound := ⟨rfl, fun _ => rfl⟩
  obtain ⟨hiff, hre⟩ := fsMount_sound (Io.boot io.disk.image io.disk.size) hsound
  have hmount := hiff.2 h.superblock
  have hr := hre hmount
  refine ⟨hmount, ?_⟩
  change ∀ store, Represents (fsMount (Io.boot io.disk.image io.disk.size)
    (Io.boot io.disk.image io.disk.size).disk.capacity).2 store ↔ _
  generalize (fsMount (Io.boot io.disk.image io.disk.size)
    (Io.boot io.disk.image io.disk.size).disk.capacity).2 = io' at hr
  have himage : io'.disk.image = io.disk.image := hr.image
  have hsectors : io'.fs.sectors = io.fs.sectors := hr.sectors.trans h.sectors.symm
  have hdir : io'.fs.directory = io.fs.directory := by
    rw [hr.directory]
    refine decodeDirectory_eq _ fun k hk => ?_
    rw [window_apply]
    exact hc k hk
  have hcorrupt : io'.fs.corrupt = io.fs.corrupt := by
    funext i
    rw [hr.corrupt]
    change entryCorrupt (io.disk.image.word 4) (io'.fs.directory i) = _
    rw [← h.sectors, hdir]
    cases hci : io.fs.corrupt i with
    | true => exact h.setAside hci
    | false =>
      by_cases h0 : (io.fs.directory i).name 0 = 0
      · simp [entryCorrupt, h0]
      · exact hm.valid i (inUse_iff.2 ⟨h0, hci⟩)
  exact fun store => ⟨Represents.congr hdir.symm hcorrupt.symm hsectors.symm himage.symm,
    Represents.congr hdir hcorrupt hsectors himage⟩

end TinyProcessors
