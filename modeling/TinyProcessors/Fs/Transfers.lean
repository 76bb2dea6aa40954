import TinyProcessors.Fs.Entries

namespace TinyProcessors

structure Io.Mounted (io : Io) : Prop where
  mounted : io.fs.mounted = true
  data : 2 < io.fs.sectors.toNat
  fits : io.fs.sectors.toNat ≤ io.disk.capacity.toNat
  valid : ∀ i, inUse io.fs i = true → entryCorrupt io.fs.sectors (io.fs.directory i) = false
  free : ∀ i, (io.fs.directory i).name 0 = 0 → io.fs.corrupt i = false

theorem inUse_iff : inUse fs i = true ↔ (fs.directory i).name 0 ≠ 0 ∧ fs.corrupt i = false := by
  simp [inUse]

structure Entry.Bounded (e : Entry) (sectors : Nat) : Prop where
  data : 2 ≤ e.first.toNat
  extent : e.first.toNat + e.capacity.toNat ≤ sectors
  size : e.size.toNat ≤ e.capacity.toNat * 512
  limit : (e.capacity * 512).toNat = e.capacity.toNat * 512
  name : e.name 19 = 0

theorem Io.Mounted.sectors_lt {io : Io} (h : io.Mounted) : io.fs.sectors.toNat * 512 < 2 ^ 32 := by
  have hf := h.fits
  have hs := io.disk.size.isLt
  rw [Disk.capacity_toNat] at hf
  omega

theorem Io.Mounted.bounded {io : Io} (h : io.Mounted) (hi : inUse io.fs i = true) :
    (io.fs.directory i).Bounded io.fs.sectors.toNat := by
  obtain ⟨h1, h2, h3, h4, h5⟩ := entryCorrupt_eq_false (inUse_iff.1 hi).1 (h.valid i hi)
  have hs := h.sectors_lt
  have hl : ((io.fs.directory i).capacity * 512).toNat =
      (io.fs.directory i).capacity.toNat * 512 := by
    have hlt : (io.fs.directory i).capacity.toNat * 512 < 2 ^ 32 :=
      Nat.lt_of_le_of_lt (Nat.mul_le_mul_right 512 h2) hs
    rw [BitVec.toNat_mul]
    exact Nat.mod_eq_of_lt hlt
  exact ⟨h1, h3, hl ▸ h4, hl, h5⟩

/-- What a transfer to or from a file leaves. -/
structure Io.With (io : Io) (mem image : Bytes) (io' : Io) : Prop where
  directory : io'.fs.directory = io.fs.directory
  corrupt : io'.fs.corrupt = io.fs.corrupt
  sectors : io'.fs.sectors = io.fs.sectors
  mounted : io'.fs.mounted = io.fs.mounted
  size : io'.disk.size = io.disk.size
  outcome : io'.disk.outcome = io.disk.outcome
  failure : io'.disk.failure = io.disk.failure
  mem : io'.mem = mem
  image : io'.disk.image = image

theorem Io.With.refl (io : Io) : io.With io.mem io.disk.image io :=
  ⟨rfl, rfl, rfl, rfl, rfl, rfl, rfl, rfl, rfl⟩

theorem Io.With.trans {io io₁ io₂ : Io} (h₁ : io.With m₁ d₁ io₁) (h₂ : io₁.With m₂ d₂ io₂) :
    io.With m₂ d₂ io₂ :=
  ⟨h₂.directory.trans h₁.directory, h₂.corrupt.trans h₁.corrupt, h₂.sectors.trans h₁.sectors,
    h₂.mounted.trans h₁.mounted, h₂.size.trans h₁.size, h₂.outcome.trans h₁.outcome,
    h₂.failure.trans h₁.failure, h₂.mem, h₂.image⟩

theorem Io.With.inUse_eq {io io' : Io} (h : io.With m d io') (i : Fin 16) :
    inUse io'.fs i = inUse io.fs i := by
  simp only [inUse, h.directory, h.corrupt]

theorem Io.With.isMounted {io io' : Io} (h : io.With m d io') (hm : io.Mounted) : io'.Mounted where
  mounted := h.mounted.trans hm.mounted
  data := h.sectors ▸ hm.data
  fits := by
    simp only [Disk.capacity, h.sectors, h.size]
    exact hm.fits
  valid := by
    intro i hi
    rw [h.sectors, h.directory]
    exact hm.valid i (h.inUse_eq i ▸ hi)
  free := by
    rw [h.directory, h.corrupt]
    exact hm.free

theorem Io.With.sound {io io' : Io} (h : io.With m d io') (hs : io.disk.Sound) : io'.disk.Sound :=
  ⟨h.failure.trans hs.1, h.outcome ▸ hs.2⟩

theorem directSectors_spec (h : directSectors e position dst left ≠ 0) :
    position % 512 = 0 ∧ directSectors e position dst left * 512 ≤ left ∧
      directSectors e position dst left * 512 ≤ e.size.toNat - position := by
  unfold directSectors at h ⊢
  split at h
  · exact absurd rfl h
  · rename_i hc
    simp only [hc, if_false]
    simp only at h
    split at h
    · exact absurd rfl h
    · rename_i hr
      simp only [hr, if_false]
      omega

theorem Entry.Bounded.sector_toNat {e : Entry} (hb : e.Bounded sectors)
    (hs : sectors * 512 < 2 ^ 32) (hp : position < e.capacity.toNat * 512) :
    (e.sector position).toNat = e.first.toNat + position / 512 := by
  have he := hb.extent
  simp only [Entry.sector, BitVec.toNat_add, BitVec.toNat_ofNat]
  omega

theorem overwrite_extend (mem image : Bytes) (start base position n k : Nat) :
    (mem.overwrite start n (image.window (base + position))).overwrite (start + n) k
        (image.window (base + (position + n))) =
      mem.overwrite start (n + k) (image.window (base + position)) := by
  rw [← overwrite_append, window_window, Nat.add_assoc base position n]

theorem readSector_spec (io : Io) (hs : io.disk.Sound)
    (h : sector.toNat < io.disk.capacity.toNat) :
    readSector io sector = (true, { io with
      fs := { io.fs with
        sectorBuffer := io.fs.sectorBuffer.overwrite 0 512
          (io.disk.image.window (sector.toNat * 512)) }
      disk := { io.disk with served := io.disk.served + 1 } }) := by
  simp only [readSector, hs.transferIn (by omega : sector.toNat + 1 ≤ _), Nat.one_mul]

theorem writeSector_spec (io : Io) (hs : io.disk.Sound)
    (h : sector.toNat < io.disk.capacity.toNat) :
    writeSector io sector = (true, { io with
      disk := { io.disk with
        served := io.disk.served + 1
        image := io.disk.image.overwrite (sector.toNat * 512) 512 io.fs.sectorBuffer } }) := by
  simp only [writeSector, hs.transferOut h]

section Rounds

variable {io : Io} (hm : io.Mounted) (hs : io.disk.Sound) (hu : inUse io.fs file = true)
include hm hs hu

theorem readDirect_spec (dst : Nat) (ha : position % 512 = 0) (hw : whole ≠ 0)
    (hz : whole * 512 ≤ (io.fs.directory file).size.toNat - position) :
    ∃ io', readDirect io file dst position whole = (true, io') ∧
      io.With (io.mem.overwrite dst (whole * 512)
        (io.disk.image.window ((io.fs.directory file).first.toNat * 512 + position)))
        io.disk.image io' := by
  have hb := hm.bounded hu
  have hsize := hb.size
  have hext := hb.extent
  have hfit := hm.fits
  have hst := hb.sector_toNat hm.sectors_lt (by omega : position < _)
  have hpos : ((io.fs.directory file).sector position).toNat * 512 =
      (io.fs.directory file).first.toNat * 512 + position := by omega
  have ht := hs.transferIn (by omega : ((io.fs.directory file).sector position).toNat + whole ≤ _)
    io.mem dst
  rw [hpos] at ht
  simp only [readDirect, ht]
  exact ⟨_, rfl, rfl, rfl, rfl, rfl, rfl, rfl, rfl, rfl, rfl⟩

theorem readPart_spec (dst : Nat) (hn : position % 512 + n ≤ 512)
    (hz : position < (io.fs.directory file).size.toNat) :
    ∃ io', readPart io file dst position n = (true, io') ∧
      io.With (io.mem.overwrite dst n
        (io.disk.image.window ((io.fs.directory file).first.toNat * 512 + position)))
        io.disk.image io' := by
  have hb := hm.bounded hu
  have hsize := hb.size
  have hext := hb.extent
  have hfit := hm.fits
  have hst := hb.sector_toNat hm.sectors_lt (by omega : position < _)
  have hr := readSector_spec io hs (by omega : ((io.fs.directory file).sector position).toNat < _)
  rw [hst] at hr
  have hcopy : ∀ i < n, Bytes.window (io.fs.sectorBuffer.overwrite 0 512
        (io.disk.image.window (((io.fs.directory file).first.toNat + position / 512) * 512)))
        (position % 512) i =
      io.disk.image.window ((io.fs.directory file).first.toNat * 512 + position) i := by
    intro i hi
    rw [window_apply, overwrite_of_mem (Nat.zero_le _) (by omega), window_apply, window_apply]
    exact congrArg io.disk.image (by omega)
  simp only [readPart, hr, if_true]
  exact ⟨_, rfl, rfl, rfl, rfl, rfl, rfl, rfl, rfl, overwrite_congr hcopy, rfl⟩

end Rounds

def readCount (e : Entry) (position length : Nat) : Nat := min length (e.size.toNat - position)

theorem readLoop_spec (io : Io) (dst : Nat) (hm : io.Mounted) (hs : io.disk.Sound)
    (hu : inUse io.fs file = true) (fuel done position : Nat) (hf : length ≤ fuel + done) :
    ∃ io', readLoop file dst length fuel io done position =
        (some (done + readCount (io.fs.directory file) position (length - done)), io') ∧
      io.With (io.mem.overwrite (dst + done)
        (readCount (io.fs.directory file) position (length - done))
        (io.disk.image.window ((io.fs.directory file).first.toNat * 512 + position)))
        io.disk.image io' := by
  induction fuel generalizing io done position with
  | zero =>
    have hz : readCount (io.fs.directory file) position (length - done) = 0 := by
      simp only [readCount]
      omega
    rw [hz, overwrite_zero]
    exact ⟨io, rfl, .refl io⟩
  | succ fuel ih =>
    rw [readLoop]
    split
    next hc =>
      -- a round moves `n` bytes; the induction hypothesis does the rest
      have hround (n : Nat) (io₁ : Io) (hn : 0 < n) (hl : n ≤ length - done)
          (hz : n ≤ (io.fs.directory file).size.toNat - position)
          (hw : io.With (io.mem.overwrite (dst + done) n
            (io.disk.image.window ((io.fs.directory file).first.toNat * 512 + position)))
            io.disk.image io₁) :
          ∃ io', readLoop file dst length fuel io₁ (done + n) (position + n) =
              (some (done + readCount (io.fs.directory file) position (length - done)), io') ∧
            io.With (io.mem.overwrite (dst + done)
              (readCount (io.fs.directory file) position (length - done))
              (io.disk.image.window ((io.fs.directory file).first.toNat * 512 + position)))
              io.disk.image io' := by
        have hcount : readCount (io.fs.directory file) position (length - done) =
            n + readCount (io.fs.directory file) (position + n) (length - (done + n)) := by
          simp only [readCount]
          omega
        obtain ⟨io', hr, hw'⟩ := ih io₁ (hw.isMounted hm) (hw.sound hs)
          ((hw.inUse_eq file).trans hu) (done + n) (position + n) (by omega)
        rw [hw.directory] at hr hw'
        rw [hw.mem, hw.image, ← Nat.add_assoc, overwrite_extend, ← hcount] at hw'
        refine ⟨io', ?_, hw.trans hw'⟩
        rw [hr, hcount, Nat.add_assoc]
      simp only
      split
      next hwhole =>
        obtain ⟨ha, hleft, hfile⟩ := directSectors_spec hwhole
        obtain ⟨io₁, hr, hw⟩ := readDirect_spec hm hs hu (dst + done) ha hwhole hfile
        rw [hr]
        exact hround _ io₁ (by omega) hleft hfile hw
      next hwhole =>
        obtain ⟨io₁, hr, hw⟩ := readPart_spec hm hs hu (dst + done)
          (by omega : position % 512 + min (length - done)
            (min ((io.fs.directory file).size.toNat - position) (512 - position % 512)) ≤ 512) hc.2
        rw [hr]
        exact hround _ io₁ (by omega) (by omega) (by omega) hw
    next hc =>
      have hz : readCount (io.fs.directory file) position (length - done) = 0 := by
        simp only [readCount]
        omega
      rw [hz, overwrite_zero]
      exact ⟨io, rfl, .refl io⟩

theorem fsRead_spec (io : Io) (dst : Nat) (hm : io.Mounted) (hs : io.disk.Sound)
    (hu : inUse io.fs file = true) (position length : Word) :
    ∃ io', fsRead io file position dst length =
        (some (readCount (io.fs.directory file) position.toNat length.toNat), io') ∧
      io.With (io.mem.overwrite dst (readCount (io.fs.directory file) position.toNat length.toNat)
        (io.disk.image.window ((io.fs.directory file).first.toNat * 512 + position.toNat)))
        io.disk.image io' := by
  have h := readLoop_spec io dst hm hs hu length.toNat 0 position.toNat (Nat.le_refl _)
  rwa [Nat.zero_add, Nat.sub_zero, Nat.add_zero] at h

theorem Entry.Bounded.not_corrupt {e : Entry} {sectors : Word} (hb : e.Bounded sectors.toNat) :
    entryCorrupt sectors e = false := by
  obtain ⟨hfirst, hext, hsize, hlimit, hname⟩ := hb
  have hc : e.capacity ≤ sectors := BitVec.le_def.2 (by omega)
  have hsub := BitVec.toNat_sub_of_le hc
  have h1 : ¬ e.first < 2 := by
    rw [BitVec.lt_def]
    exact Nat.not_lt.2 hfirst
  have h2 : ¬ e.capacity > sectors := BitVec.not_lt.2 hc
  have h3 : ¬ e.first > sectors - e.capacity := by
    rw [gt_iff_lt, BitVec.lt_def]
    omega
  have h4 : ¬ e.size > e.capacity * 512 := by
    rw [gt_iff_lt, BitVec.lt_def, hlimit]
    omega
  simp only [entryCorrupt, h1, h2, h3, h4, hname, decide_false, ne_eq, not_true_eq_false,
    Bool.or_false, Bool.and_false]

theorem Io.With.setEntry {io io' : Io} (h : io.With m d io') (i : Fin 16) (e : Entry) :
    (io.setEntry i e).With m d (io'.setEntry i e) where
  directory := by simp only [Io.setEntry, h.directory]
  corrupt := h.corrupt
  sectors := h.sectors
  mounted := h.mounted
  size := h.size
  outcome := h.outcome
  failure := h.failure
  mem := h.mem
  image := h.image

theorem setEntry_setEntry (io : Io) (i : Fin 16) (e e' : Entry) :
    (io.setEntry i e).setEntry i e' = io.setEntry i e' := by
  simp only [Io.setEntry, Function.update_idem]

theorem setEntry_self (io : Io) (i : Fin 16) : io.setEntry i (io.fs.directory i) = io := by
  simp only [Io.setEntry, Function.update_eq_self]

@[simp] theorem setEntry_directory (io : Io) (i : Fin 16) (e : Entry) :
    (io.setEntry i e).fs.directory = Function.update io.fs.directory i e := rfl

theorem Io.Mounted.setEntry {io : Io} (hm : io.Mounted) (hc : io.fs.corrupt i = false)
    (hb : e.Bounded io.fs.sectors.toNat) : (io.setEntry i e).Mounted where
  mounted := hm.mounted
  data := hm.data
  fits := hm.fits
  valid := by
    intro j hj
    by_cases h : j = i
    · subst h
      rw [setEntry_directory, Function.update_self]
      exact hb.not_corrupt
    · rw [setEntry_directory, Function.update_of_ne h]
      apply hm.valid
      rw [inUse_iff, setEntry_directory, Function.update_of_ne h] at hj
      exact inUse_iff.2 hj
  free := by
    intro j hj
    by_cases h : j = i
    · exact h ▸ hc
    · rw [setEntry_directory, Function.update_of_ne h] at hj
      exact hm.free j hj

theorem inUse_setEntry {io : Io} (h : e.name = (io.fs.directory i).name) (j : Fin 16) :
    inUse (io.setEntry i e).fs j = inUse io.fs j := by
  by_cases hj : j = i
  · subst hj
    simp only [inUse, setEntry_directory, Function.update_self, h]
    rfl
  · simp only [inUse, setEntry_directory, Function.update_of_ne hj]
    rfl

def writeCount (e : Entry) (position length : Nat) : Nat :=
  min length (e.capacity.toNat * 512 - position)

def Entry.grown (e : Entry) (position n : Nat) : Entry :=
  if n = 0 then e else { e with size := BitVec.ofNat 32 (max e.size.toNat (position + n)) }

theorem Entry.grown_zero (e : Entry) (position : Nat) : e.grown position 0 = e := rfl

@[simp] theorem Entry.grown_name (e : Entry) (position n : Nat) :
    (e.grown position n).name = e.name := by
  unfold Entry.grown
  split <;> rfl

@[simp] theorem Entry.grown_first (e : Entry) (position n : Nat) :
    (e.grown position n).first = e.first := by
  unfold Entry.grown
  split <;> rfl

@[simp] theorem Entry.grown_capacity (e : Entry) (position n : Nat) :
    (e.grown position n).capacity = e.capacity := by
  unfold Entry.grown
  split <;> rfl

theorem Entry.grown_size (e : Entry) (h : position + n < 2 ^ 32) :
    (e.grown position n).size.toNat = if n = 0 then e.size.toNat
      else max e.size.toNat (position + n) := by
  have he := e.size.isLt
  unfold Entry.grown
  split
  · rfl
  · simp only [BitVec.toNat_ofNat]
    omega

theorem Entry.grown_grown {e : Entry} (hn : n ≠ 0) (h : position + n < 2 ^ 32) :
    (e.grown position n).grown (position + n) k = e.grown position (n + k) := by
  by_cases hk : k = 0
  · subst hk
    rfl
  · have hs := e.grown_size h
    rw [if_neg hn] at hs
    rw [Entry.grown, if_neg hk, hs]
    simp only [Entry.grown, if_neg hn, if_neg (by omega : ¬ n + k = 0)]
    congr 2
    omega

theorem Entry.Bounded.grown {e : Entry} (hb : e.Bounded sectors)
    (h : position + n ≤ e.capacity.toNat * 512) : (e.grown position n).Bounded sectors := by
  have hlt := (e.capacity * 512).isLt
  have hlimit := hb.limit
  have hsize := hb.size
  refine ⟨?_, ?_, ?_, ?_, ?_⟩
  · rw [Entry.grown_first]
    exact hb.data
  · rw [Entry.grown_first, Entry.grown_capacity]
    exact hb.extent
  · rw [e.grown_size (by omega), Entry.grown_capacity]
    split <;> omega
  · rw [Entry.grown_capacity]
    exact hlimit
  · rw [Entry.grown_name]
    exact hb.name

theorem growSize_eq (io : Io) (file : Fin 16) (hn : n ≠ 0) :
    growSize io file (position + n) =
      io.setEntry file ((io.fs.directory file).grown position n) := by
  simp only [growSize, Entry.grown, if_neg hn]
  split
  next hc =>
    rw [Nat.max_eq_right (Nat.le_of_lt hc)]
  next hc =>
    rw [Nat.max_eq_left (Nat.not_lt.1 hc), BitVec.ofNat_toNat, BitVec.setWidth_eq, setEntry_self]

theorem writePart_spec {io : Io} (hm : io.Mounted) (hs : io.disk.Sound)
    (hu : inUse io.fs file = true) (src : Nat) (hn : n ≠ 0) (hsector : position % 512 + n ≤ 512)
    (hcap : position + n ≤ (io.fs.directory file).capacity.toNat * 512) :
    ∃ io', writePart io file src position n = (true, io') ∧
      (io.setEntry file ((io.fs.directory file).grown position n)).With io.mem
        (io.disk.image.overwrite ((io.fs.directory file).first.toNat * 512 + position) n
          (io.mem.window src)) io' := by
  have hb := hm.bounded hu
  have hext := hb.extent
  have hfit := hm.fits
  have hst := hb.sector_toNat hm.sectors_lt (by omega : position < _)
  have hlt : ((io.fs.directory file).sector position).toNat < io.disk.capacity.toNat := by omega
  -- the sector is read, changed in part and written back
  have hblock := overwrite_block io.disk.image (io.mem.window src) io.fs.sectorBuffer
    (((io.fs.directory file).first.toNat + position / 512) * 512) 512 (position % 512) n hsector
  have hpos : ((io.fs.directory file).first.toNat + position / 512) * 512 + position % 512 =
      (io.fs.directory file).first.toNat * 512 + position := by omega
  rw [hpos] at hblock
  simp only [writePart, readSector_spec io hs hlt, if_true]
  rw [writeSector_spec _ (by exact hs) (by exact hlt)]
  simp only [if_true, hst, hblock, growSize_eq _ file hn]
  exact ⟨_, rfl, rfl, rfl, rfl, rfl, rfl, rfl, rfl, rfl, rfl⟩

theorem writeLoop_spec (io : Io) (src : Nat) (hm : io.Mounted) (hs : io.disk.Sound)
    (hu : inUse io.fs file = true) (fuel done position : Nat) (hf : length ≤ fuel + done)
    (hlim : limit = (io.fs.directory file).capacity.toNat * 512) :
    ∃ io', writeLoop file src length limit fuel io done position =
        (some (done + writeCount (io.fs.directory file) position (length - done)), io') ∧
      (io.setEntry file ((io.fs.directory file).grown position
        (writeCount (io.fs.directory file) position (length - done)))).With io.mem
        (io.disk.image.overwrite ((io.fs.directory file).first.toNat * 512 + position)
          (writeCount (io.fs.directory file) position (length - done))
          (io.mem.window (src + done))) io' := by
  induction fuel generalizing io done position with
  | zero =>
    have hz : writeCount (io.fs.directory file) position (length - done) = 0 := by
      simp only [writeCount]
      omega
    rw [hz, overwrite_zero, Entry.grown_zero, setEntry_self]
    exact ⟨io, rfl, .refl io⟩
  | succ fuel ih =>
    have hb := hm.bounded hu
    have hcap := ((io.fs.directory file).capacity * 512).isLt
    rw [hb.limit] at hcap
    rw [writeLoop]
    split
    next hc =>
      have hn : min (length - done) (min (limit - position) (512 - position % 512)) ≠ 0 := by
        omega
      simp only
      generalize hneq : min (length - done) (min (limit - position) (512 - position % 512)) = n at *
      have hle : position + n ≤ (io.fs.directory file).capacity.toNat * 512 := by omega
      obtain ⟨io₁, hr, hw⟩ := writePart_spec hm hs hu (src + done) hn (by omega) hle
      have hcount : writeCount (io.fs.directory file) position (length - done) =
          n + writeCount ((io.fs.directory file).grown position n) (position + n)
            (length - (done + n)) := by
        simp only [writeCount, Entry.grown_capacity]
        omega
      have hu₁ : inUse io₁.fs file = true :=
        (hw.inUse_eq file).trans ((inUse_setEntry (Entry.grown_name _ _ _) file).trans hu)
      have he₁ : io₁.fs.directory file = (io.fs.directory file).grown position n := by
        rw [hw.directory, setEntry_directory, Function.update_self]
      obtain ⟨io', hr', hw'⟩ := ih io₁ (hw.isMounted (hm.setEntry (inUse_iff.1 hu).2 (hb.grown hle)))
        (hw.sound hs) hu₁ (done + n) (position + n) (by omega)
        (by rw [he₁, Entry.grown_capacity, hlim])
      rw [he₁] at hr' hw'
      rw [Entry.grown_first, Entry.grown_grown hn (by omega), hw.mem, hw.image,
        ← Nat.add_assoc (_ * 512) position n, overwrite_extend, ← hcount] at hw'
      rw [hr]
      refine ⟨io', ?_, ?_⟩
      · simp only [if_true]
        rw [hr', hcount, Nat.add_assoc]
      · have hset := hw.setEntry file ((io.fs.directory file).grown position
          (writeCount (io.fs.directory file) position (length - done)))
        rw [setEntry_setEntry] at hset
        exact hset.trans hw'
    next hc =>
      have hz : writeCount (io.fs.directory file) position (length - done) = 0 := by
        simp only [writeCount]
        omega
      rw [hz, overwrite_zero, Entry.grown_zero, setEntry_self]
      exact ⟨io, rfl, .refl io⟩

end TinyProcessors
