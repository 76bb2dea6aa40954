import TinyProcessors.Fs.Effects

namespace TinyProcessors

inductive Serves (io : Io) : Io → Prop
  | start : Serves io io
  | call (mem : Bytes) (c : Call) (h : Serves io io₁) (hu : c.Usable io₁.fs) :
      Serves io (({ io₁ with mem } : Io).call c).2

/-- What a write through `file` leaves alone. -/
structure Untouched (io io' : Io) (file : Fin 16) : Prop where
  superblock : ∀ a < 512, io'.disk.image a = io.disk.image a
  entries : ∀ i, i ≠ file → io'.fs.directory i = io.fs.directory i ∧
    ∀ k < 32, io'.disk.image (512 + (32 * i + k)) = io.disk.image (512 + (32 * i + k))
  reads : ∀ i, i ≠ file → inUse io.fs i = true → ∀ position dst length,
    (fsRead io' i position dst length).1 = (fsRead io i position dst length).1 ∧
      (fsRead io' i position dst length).2.mem = (fsRead io i position dst length).2.mem

/-- A write stays in its file, and corrupt entries stay on the disk as they were. -/
def Io.Contained (io₀ : Io) : Prop :=
  ∀ io, Serves io₀ io →
    (∀ mem file position src length, inUse io.fs file = true →
      Untouched { io with mem } (fsWrite { io with mem } file position src length).2 file) ∧
    ∀ i, io₀.fs.corrupt i = true → ∀ k < 32,
      io.disk.image (512 + (32 * i + k)) = io₀.disk.image (512 + (32 * i + k))

theorem Io.With.setMem (io : Io) (mem : Bytes) : io.With mem io.disk.image { io with mem } :=
  ⟨rfl, rfl, rfl, rfl, rfl, rfl, rfl, rfl, rfl⟩

theorem Serves.healthy (h : Serves io io') (hh : io.Healthy) : io'.Healthy := by
  induction h with
  | start => exact hh
  | @call io₁ mem c h hu ih =>
    have hh' := (Io.With.setMem io₁ mem).healthy ih
    exact (Io.call_effect _ hh'.mounted hh'.sound hu).healthy hh'

theorem flushed_entry (io : Io) (i : Fin 16) (h : k < 32) :
    io.flushed (512 + (32 * i + k)) = (io.fs.directory i).encode k := by
  rw [Io.flushed, overwrite_of_mem (by omega) (by omega), Nat.add_sub_cancel_left]
  exact directoryBytes_entry io.fs.directory i h

structure Kept (io₀ io : Io) : Prop where
  corrupt : io.fs.corrupt = io₀.fs.corrupt
  entry : ∀ i, io₀.fs.corrupt i = true → io.fs.directory i = io₀.fs.directory i
  bytes : ∀ i, io₀.fs.corrupt i = true → ∀ k < 32,
    io.disk.image (512 + (32 * i + k)) = (io₀.fs.directory i).encode k

theorem Kept.of_with {io io' : Io} (h : Kept io₀ io) (hw : io.With m d io')
    (hd : ∀ i, io₀.fs.corrupt i = true → ∀ k < 32,
      d (512 + (32 * i + k)) = (io₀.fs.directory i).encode k) : Kept io₀ io' where
  corrupt := hw.corrupt.trans h.corrupt
  entry := fun i hi => (congrFun hw.directory i).trans (h.entry i hi)
  bytes := by
    rw [hw.image]
    exact hd

theorem Kept.setEntry {io : Io} (h : Kept io₀ io) (hi : io.fs.corrupt i = false) (e : Entry) :
    Kept io₀ (io.setEntry i e) where
  corrupt := h.corrupt
  entry := by
    intro j hj
    have hne : j ≠ i := by
      rintro rfl
      rw [h.corrupt, hj] at hi
      cases hi
    rw [setEntry_directory, Function.update_of_ne hne]
    exact h.entry j hj
  bytes := h.bytes

theorem Kept.flushed {io : Io} (h : Kept io₀ io) : ∀ i, io₀.fs.corrupt i = true → ∀ k < 32,
    io.flushed (512 + (32 * i + k)) = (io₀.fs.directory i).encode k := by
  intro i hi k hk
  rw [flushed_entry io i hk, h.entry i hi]

theorem Effect.kept {io io' : Io} (he : Effect io c io') (hm : io.Mounted) (h : Kept io₀ io) :
    Kept io₀ io' := by
  cases he with
  | none hw => exact h.of_with hw h.bytes
  | @created name i first _ hc h0 hne =>
    have hs := h.setEntry (hm.free i (vacancy_spec hc.vacancy).2.2) (newEntry name first)
    exact hs.of_with hc.after hs.flushed
  | truncated hu => exact h.setEntry (inUse_iff.1 hu).2 _
  | written hu hw =>
    have hdata := (hm.bounded hu).data
    refine (h.setEntry (inUse_iff.1 hu).2 _).of_with hw fun i hi k hk => ?_
    rw [overwrite_of_not_mem (by omega)]
    exact h.bytes i hi k hk
  | flushed hw => exact h.of_with hw h.flushed

theorem Serves.kept {io₀ io : Io} (h : Serves io₀ io) (hm : io₀.Mounted) (hs : io₀.disk.Sound)
    (hk : Kept io₀ io₀) : io.Mounted ∧ io.disk.Sound ∧ Kept io₀ io := by
  induction h with
  | start => exact ⟨hm, hs, hk⟩
  | @call io₁ mem c h hu ih =>
    obtain ⟨hm₁, hs₁, hk₁⟩ := ih
    have hw := Io.With.setMem io₁ mem
    have he := Io.call_effect _ (hw.isMounted hm₁) (hw.sound hs₁) hu
    exact ⟨he.isMounted (hw.isMounted hm₁), he.sound (hw.sound hs₁),
      he.kept (hw.isMounted hm₁) (hk₁.of_with hw hk₁.bytes)⟩

theorem Remount.kept {io io' : Io} (h : Remount io io') : Kept io' io' where
  corrupt := rfl
  entry := fun _ _ => rfl
  bytes := by
    intro i _ k hk
    rw [h.directory, h.image, decodeDirectory, encode_decode _ _ hk, window_apply]

theorem Io.Healthy.untouched {io : Io} (hh : io.Healthy) (hu : inUse io.fs file = true)
    (position : Word) (src : Nat) (length : Word) :
    Untouched io (fsWrite io file position src length).2 file := by
  obtain ⟨io', hrun, hw⟩ := fsWrite_spec io src hh.mounted hh.sound hu position length
  have hb := hh.mounted.bounded hu
  have hdata := hb.data
  have hh' : io'.Healthy := hh.resize (Entry.grown_sameFile _ _ _) hw hu (hb.written _ _)
  rw [hrun]
  refine ⟨?_, ?_, ?_⟩
  · intro a ha
    rw [hw.image]
    exact overwrite_of_not_mem (by omega)
  · intro i hne
    refine ⟨?_, fun k hk => ?_⟩
    · rw [hw.directory, setEntry_directory, Function.update_of_ne hne]
    · rw [hw.image]
      exact overwrite_of_not_mem (by omega)
  · intro i hne hi position' dst length'
    have hi' : inUse io'.fs i = true :=
      (hw.sameFile_inUse (Entry.grown_sameFile _ _ _) i).trans hi
    have hdir : io'.fs.directory i = io.fs.directory i := by
      rw [hw.directory, setEntry_directory, Function.update_of_ne hne]
    obtain ⟨r, hr, hwr⟩ := fsRead_spec io dst hh.mounted hh.sound hi position' length'
    obtain ⟨r', hr', hwr'⟩ := fsRead_spec io' dst hh'.mounted hh'.sound hi' position' length'
    rw [hdir] at hr' hwr'
    rw [hr, hr']
    refine ⟨rfl, ?_⟩
    rw [hwr.mem, hwr'.mem, hw.mem]
    apply overwrite_congr
    intro k hk
    have hsize := (hh.mounted.bounded hi).size
    rw [window_apply, window_apply, hw.image]
    rw [readCount] at hk
    rcases writeCount_le (io.fs.directory file) position.toNat length.toNat with hn | hn
    · rw [hn, overwrite_zero]
    · apply hh.disjoint.overwrite hne hi hu hn
      · omega
      · rw [Entry.extentEnd]
        omega

theorem Io.Mounted.not_untouched {io : Io} {p q : Word} (hm : io.Mounted) (hs : io.disk.Sound)
    (hi : inUse io.fs i = true) (hj : inUse io.fs j = true) (hne : i ≠ j)
    (hpi : p.toNat + 1 ≤ (io.fs.directory i).capacity.toNat * 512)
    (hpj : q.toNat + 1 ≤ (io.fs.directory j).size.toNat)
    (hpq : (io.fs.directory i).first.toNat * 512 + p.toNat =
      (io.fs.directory j).first.toNat * 512 + q.toNat)
    (hbyte : io.mem 0 ≠ io.disk.image ((io.fs.directory j).first.toNat * 512 + q.toNat)) :
    ¬ Untouched io (fsWrite io i p 0 1).2 i := by
  intro h
  have hb := hm.bounded hi
  have h1 : (1 : Word).toNat = 1 := rfl
  have hn : writeCount (io.fs.directory i) p.toNat 1 = 1 := by
    rw [writeCount]
    omega
  have hr : readCount (io.fs.directory j) q.toNat 1 = 1 := by
    rw [readCount]
    omega
  obtain ⟨io', hrun, hw⟩ := fsWrite_spec io 0 hm hs hi p 1
  have hj' : inUse io'.fs j = true := (hw.sameFile_inUse (Entry.grown_sameFile _ _ _) j).trans hj
  have hm' := hw.isMounted (hm.setEntry (inUse_iff.1 hi).2 (hb.written _ _))
  have hdir : io'.fs.directory j = io.fs.directory j := by
    rw [hw.directory, setEntry_directory, Function.update_of_ne hne.symm]
  obtain ⟨r, hread, hwr⟩ := fsRead_spec io 0 hm hs hj q 1
  obtain ⟨r', hread', hwr'⟩ := fsRead_spec io' 0 hm' (hw.sound hs) hj' q 1
  rw [hrun] at h
  have hmem := (h.reads j hne.symm hj q 0 1).2
  rw [hread, hread', hwr.mem, hwr'.mem, hw.mem, hw.image, hdir, h1, hr, hn] at hmem
  have hbytes := congrFun hmem 0
  rw [overwrite_of_mem (Nat.le_refl 0) Nat.one_pos, overwrite_of_mem (Nat.le_refl 0) Nat.one_pos,
    window_apply, window_apply, hpq, overwrite_of_mem (by omega) (by omega)] at hbytes
  simp only [Nat.sub_self, window_apply, Nat.add_zero] at hbytes
  exact hbyte hbytes

theorem Entry.Bounded.exists_position {e : Entry} {sector : Nat} (hb : e.Bounded sectors)
    (hs : sectors * 512 < 2 ^ 32) (hl : e.first.toNat ≤ sector) (hr : sector < e.extentEnd) :
    ∃ p : Word, e.first.toNat * 512 + p.toNat = sector * 512 ∧
      p.toNat + 1 ≤ e.capacity.toNat * 512 := by
  have hext := hb.extent
  rw [Entry.extentEnd] at hr
  have hle : sector - e.first.toNat ≤ sectors := by omega
  have hlt : (sector - e.first.toNat) * 512 < 2 ^ 32 :=
    Nat.lt_of_le_of_lt (Nat.mul_le_mul_right 512 hle) hs
  refine ⟨BitVec.ofNat 32 ((sector - e.first.toNat) * 512), ?_⟩
  rw [BitVec.toNat_ofNat, Nat.mod_eq_of_lt hlt]
  omega

theorem Io.Contained.disjoint {io : Io} (hc : io.Contained) (hm : io.Mounted)
    (hs : io.disk.Sound) : io.fs.Disjoint := by
  rintro i j hne hi hj sector ⟨hil, hir, hjl, hjr⟩
  obtain ⟨p, hp, hpi⟩ := (hm.bounded hi).exists_position hm.sectors_lt hil hir
  obtain ⟨q, hq, hqj⟩ := (hm.bounded hj).exists_position hm.sectors_lt hjl hjr
  -- a first write makes the shared byte part of the other file
  obtain ⟨io₁, hrun, hw⟩ := fsWrite_spec io 0 hm hs hj q 1
  have hn : writeCount (io.fs.directory j) q.toNat (1 : Word).toNat = 1 := by
    change min 1 _ = 1
    omega
  rw [hn] at hrun hw
  have hsame := hw.sameFile (Entry.grown_sameFile _ _ _)
  have huse := hw.sameFile_inUse (Entry.grown_sameFile _ _ _)
  have hm₁ := hw.isMounted (hm.setEntry (inUse_iff.1 hj).2 (hn ▸ (hm.bounded hj).written _ _))
  have hsize : q.toNat + 1 ≤ (io₁.fs.directory j).size.toNat := by
    have hlt := ((io.fs.directory j).capacity * 512).isLt
    rw [(hm.bounded hj).limit] at hlt
    rw [hw.directory, setEntry_directory, Function.update_self,
      Entry.grown_size _ (Nat.lt_of_le_of_lt hqj hlt), if_neg Nat.one_ne_zero]
    exact Nat.le_max_right _ _
  have hreach : Serves io io₁ := by
    have h := Serves.call io.mem (.fsWrite j q 0 1) (Serves.start) hj
    have he : (io.call (.fsWrite j q 0 1)).2 = io₁ := congrArg Prod.snd hrun
    exact he ▸ h
  -- a second one changes that byte through this one
  let b := io₁.disk.image ((io₁.fs.directory j).first.toNat * 512 + q.toNat)
  have hwrite := (hc io₁ hreach).1 (fun _ => b + 1) i p 0 1 ((huse i).trans hi)
  have hset := Io.With.setMem io₁ fun _ => b + 1
  refine (hset.isMounted hm₁).not_untouched (hset.sound (hw.sound hs)) ((huse i).trans hi)
    ((huse j).trans hj) hne ?_ hsize ?_ ?_ hwrite
  · change p.toNat + 1 ≤ (io₁.fs.directory i).capacity.toNat * 512
    rw [(hsame i).capacity]
    exact hpi
  · change (io₁.fs.directory i).first.toNat * 512 + p.toNat =
      (io₁.fs.directory j).first.toNat * 512 + q.toNat
    rw [(hsame i).first, (hsame j).first, hp, hq]
  · change b + 1 ≠ b
    simp

/-- Writes are kept apart exactly when the extents share no sector. -/
theorem mounted_contained_iff (io : Io) (hs : io.disk.Sound)
    (hm : (fsMount io io.disk.capacity).1 = true) :
    (fsMount io io.disk.capacity).2.Contained ↔ (fsMount io io.disk.capacity).2.fs.Disjoint := by
  have hmounted := fsMount_mounted io hm
  have hremount := (fsMount_sound io hs).2 hm
  constructor
  · intro hc
    exact hc.disjoint hmounted hremount.sound
  · intro hd io' hserves
    have hh' := hserves.healthy (hremount.healthy hmounted hd)
    refine ⟨fun mem file position src length hu => ?_, fun i hi k hk => ?_⟩
    · exact ((Io.With.setMem io' mem).healthy hh').untouched hu position src length
    · obtain ⟨-, -, hkept⟩ := hserves.kept hmounted hremount.sound hremount.kept
      rw [hkept.bytes i hi k hk, hremount.kept.bytes i hi k hk]

theorem mounted_contained_iff_empty :
    (fsMount emptyIo emptyIo.disk.capacity).2.Contained ↔
      (fsMount emptyIo emptyIo.disk.capacity).2.fs.Disjoint :=
  mounted_contained_iff emptyIo (Io.boot_sound _ _) (by decide)

def sharedDirectory (i : Fin 16) : Entry :=
  if i = 0 then { newEntry [97] 2 with size := 1 }
  else if i = 1 then { newEntry [98] 2 with size := 1 }
  else ⟨fun _ => 0, 0, 0, 0⟩

def sharedIo : Io :=
  Io.boot ((Mkfs.emptyDisk 16).overwrite 512 512 (directoryBytes sharedDirectory)) 8192

/-- The mount accepts them, and a byte written to "a" is read back from "b". -/
theorem shared_sectors_not_contained :
    (fsMount sharedIo sharedIo.disk.capacity).1 = true ∧
      ¬ (fsMount sharedIo sharedIo.disk.capacity).2.Contained := by
  refine ⟨by decide, fun hc => ?_⟩
  have h := ((hc _ .start).1 (fun _ => 7) 0 0 0 1 (by decide)).reads 1 (by decide)
    (by decide) 0 100 1
  exact absurd (congrFun h.2 100) (by decide)

end TinyProcessors
