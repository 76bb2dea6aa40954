import TinyProcessors.Fs.Allocation

namespace TinyProcessors

/-- `io'` serves the same files from the same disk. -/
structure Io.SameFiles (io io' : Io) : Prop where
  directory : io'.fs.directory = io.fs.directory
  corrupt : io'.fs.corrupt = io.fs.corrupt
  sectors : io'.fs.sectors = io.fs.sectors
  mounted : io'.fs.mounted = io.fs.mounted
  image : io'.disk.image = io.disk.image
  size : io'.disk.size = io.disk.size
  outcome : io'.disk.outcome = io.disk.outcome
  sound : io.disk.Sound → io'.disk.Sound

theorem Io.SameFiles.refl (io : Io) : io.SameFiles io := ⟨rfl, rfl, rfl, rfl, rfl, rfl, rfl, id⟩

theorem Io.SameFiles.trans {io io₁ io₂ : Io} (h₁ : io.SameFiles io₁) (h₂ : io₁.SameFiles io₂) :
    io.SameFiles io₂ :=
  ⟨h₂.directory.trans h₁.directory, h₂.corrupt.trans h₁.corrupt, h₂.sectors.trans h₁.sectors,
    h₂.mounted.trans h₁.mounted, h₂.image.trans h₁.image, h₂.size.trans h₁.size,
    h₂.outcome.trans h₁.outcome, h₂.sound ∘ h₁.sound⟩

def RangesIn (l l' : List (Nat × Nat)) (start stop : Nat) : Prop :=
  ∀ r ∈ l', r ∈ l ∨ (start ≤ r.1 ∧ r.1 + r.2 ≤ stop)

theorem RangesIn.refl (l : List (Nat × Nat)) (start stop : Nat) : RangesIn l l start stop :=
  fun _ h => .inl h

theorem RangesIn.trans (h₁ : RangesIn l l₁ start stop) (h₂ : RangesIn l₁ l₂ start stop) :
    RangesIn l l₂ start stop := by
  intro r hr
  rcases h₂ r hr with h | h
  · exact h₁ r h
  · exact .inr h

theorem RangesIn.snoc (hs : start ≤ r.1) (he : r.1 + r.2 ≤ stop) (l : List (Nat × Nat)) :
    RangesIn l (l ++ [r]) start stop := by
  intro q hq
  rw [List.mem_append, List.mem_singleton] at hq
  rcases hq with h | rfl
  · exact .inl h
  · exact .inr ⟨hs, he⟩

structure Io.ReadBy (io io' : Io) (start stop : Nat) : Prop where
  same : io.SameFiles io'
  loads : io'.loads = io.loads
  stores : RangesIn io.stores io'.stores start stop
  mem : ∀ a, ¬ (start ≤ a ∧ a < stop) → io'.mem a = io.mem a

theorem Io.ReadBy.refl (io : Io) (start stop : Nat) : io.ReadBy io start stop :=
  ⟨.refl io, rfl, .refl _ _ _, fun _ _ => rfl⟩

theorem Io.ReadBy.trans {io io₁ io₂ : Io} (h₁ : io.ReadBy io₁ start stop)
    (h₂ : io₁.ReadBy io₂ start stop) : io.ReadBy io₂ start stop :=
  ⟨h₁.same.trans h₂.same, h₂.loads.trans h₁.loads, h₁.stores.trans h₂.stores,
    fun a ha => (h₂.mem a ha).trans (h₁.mem a ha)⟩

theorem readSector_readBy (io : Io) (sector : Word) (start stop : Nat) :
    io.ReadBy (readSector io sector).2 start stop := by
  obtain ⟨hi, hs, ho⟩ := virtioTransfer_disk io.disk sector 1
  exact ⟨⟨rfl, rfl, rfl, rfl, hi, hs, ho, fun h => h.served sector 1⟩, rfl, .refl _ _ _,
    fun _ _ => rfl⟩

theorem readDirect_readBy (io : Io) (file : Fin 16) (position : Nat) (hs : start ≤ dst)
    (he : dst + whole * 512 ≤ stop) :
    io.ReadBy (readDirect io file dst position whole).2 start stop := by
  obtain ⟨hi, hd, ho⟩ := virtioTransfer_disk io.disk ((io.fs.directory file).sector position) whole
  have hm := virtioTransfer_moved io.disk ((io.fs.directory file).sector position) whole
  refine ⟨⟨rfl, rfl, rfl, rfl, hi, hd, ho, fun h => h.served _ _⟩, rfl, .refl _ _ _, ?_⟩
  intro a ha
  exact overwrite_of_not_mem (by omega)

theorem readPart_readBy (io : Io) (file : Fin 16) (position : Nat) (hs : start ≤ dst)
    (he : dst + n ≤ stop) : io.ReadBy (readPart io file dst position n).2 start stop := by
  have hr := readSector_readBy io ((io.fs.directory file).sector position) start stop
  rw [readPart]
  split
  · refine hr.trans ⟨⟨rfl, rfl, rfl, rfl, rfl, rfl, rfl, id⟩, rfl, .snoc hs he _, ?_⟩
    intro a ha
    exact overwrite_of_not_mem (by omega)
  · exact hr

def Moved (done length position : Nat) (size : Word) (n : Nat) : Prop :=
  done ≤ n ∧ n ≤ length ∧ (n = done ∨ position + (n - done) ≤ size.toNat)

theorem Moved.step (h : Moved (done + k) length (position + k) size n)
    (hk : position + k ≤ size.toNat) : Moved done length position size n := by
  obtain ⟨hle, hlen, h⟩ := h
  exact ⟨by omega, hlen, .inr (by omega)⟩

theorem readLoop_readBy (file : Fin 16) (dst length fuel : Nat) (io : Io) (done position : Nat)
    (hd : done ≤ length) :
    io.ReadBy (readLoop file dst length fuel io done position).2 dst (dst + length) ∧
      ∀ n, (readLoop file dst length fuel io done position).1 = some n →
        Moved done length position (io.fs.directory file).size n := by
  induction fuel generalizing io done position with
  | zero =>
    refine ⟨.refl _ _ _, ?_⟩
    rintro n ⟨⟩
    exact ⟨Nat.le_refl _, hd, .inl rfl⟩
  | succ fuel ih =>
    -- a round of either kind moves `k` bytes of the request and of the file, then the loop goes on
    have hround : ∀ (k : Nat) (r : Bool × Io), done + k ≤ length → position + k ≤ (io.fs.directory file).size.toNat →
        io.ReadBy r.2 dst (dst + length) →
        let q := if r.1 then readLoop file dst length fuel r.2 (done + k) (position + k)
          else (none, r.2)
        io.ReadBy q.2 dst (dst + length) ∧
          ∀ n, q.1 = some n → Moved done length position (io.fs.directory file).size n := by
      intro k r hk hsize hr
      dsimp only
      split
      · obtain ⟨h₁, h₂⟩ := ih r.2 (done + k) (position + k) hk
        rw [hr.same.directory] at h₂
        exact ⟨hr.trans h₁, fun n hn => (h₂ n hn).step hsize⟩
      · exact ⟨hr, by rintro n ⟨⟩⟩
    rw [readLoop]
    split
    next hlt =>
      dsimp only
      split
      next hw =>
        obtain ⟨-, hl, hsz⟩ := directSectors_spec hw
        exact hround _ _ (by omega) (by omega)
          (readDirect_readBy io file position (Nat.le_add_right dst done) (by omega))
      next hw =>
        exact hround _ _ (by omega) (by omega)
          (readPart_readBy io file position (Nat.le_add_right dst done) (by omega))
    next hlt =>
      refine ⟨.refl _ _ _, ?_⟩
      rintro n ⟨⟩
      exact ⟨Nat.le_refl _, hd, .inl rfl⟩

/-- A read, however its transfers end, changes nothing but its buffer. -/
theorem fsRead_any (io : Io) (file : Fin 16) (position : Word) (dst : Nat) (length : Word) :
    io.ReadBy (fsRead io file position dst length).2 dst (dst + length.toNat) ∧
      ∀ n, (fsRead io file position dst length).1 = some n → n ≤ length.toNat ∧
        (n = 0 ∨ position.toNat + n ≤ (io.fs.directory file).size.toNat) := by
  obtain ⟨h₁, h₂⟩ := readLoop_readBy file dst length.toNat length.toNat io 0 position.toNat
    (Nat.zero_le _)
  refine ⟨h₁, ?_⟩
  intro n hn
  obtain ⟨-, hlen, h⟩ := h₂ n hn
  exact ⟨hlen, h⟩

structure Io.WrittenBy (io io' : Io) (file : Fin 16) (limit start stop : Nat) : Prop where
  directory : ∃ size, io'.fs.directory =
      Function.update io.fs.directory file { io.fs.directory file with size := size } ∧
    (io.fs.directory file).size.toNat ≤ size.toNat ∧
    (size = (io.fs.directory file).size ∨ size.toNat ≤ limit)
  corrupt : io'.fs.corrupt = io.fs.corrupt
  sectors : io'.fs.sectors = io.fs.sectors
  mounted : io'.fs.mounted = io.fs.mounted
  size : io'.disk.size = io.disk.size
  outcome : io'.disk.outcome = io.disk.outcome
  mem : io'.mem = io.mem
  stores : io'.stores = io.stores
  loads : RangesIn io.loads io'.loads start stop

theorem Io.WrittenBy.of_directory {io io' : Io} (hd : io'.fs.directory = io.fs.directory)
    (hc : io'.fs.corrupt = io.fs.corrupt) (hs : io'.fs.sectors = io.fs.sectors)
    (hm : io'.fs.mounted = io.fs.mounted) (hz : io'.disk.size = io.disk.size)
    (ho : io'.disk.outcome = io.disk.outcome) (hmem : io'.mem = io.mem)
    (hst : io'.stores = io.stores) (hl : RangesIn io.loads io'.loads start stop) :
    io.WrittenBy io' file limit start stop :=
  ⟨⟨_, hd.trans (Function.update_eq_self file io.fs.directory).symm, Nat.le_refl _, .inl rfl⟩,
    hc, hs, hm, hz, ho, hmem, hst, hl⟩

theorem Io.WrittenBy.trans {io io₁ io₂ : Io} (h₁ : io.WrittenBy io₁ file limit start stop)
    (h₂ : io₁.WrittenBy io₂ file limit start stop) : io.WrittenBy io₂ file limit start stop := by
  obtain ⟨size₁, hd₁, hle₁, hlim₁⟩ := h₁.directory
  obtain ⟨size₂, hd₂, hle₂, hlim₂⟩ := h₂.directory
  rw [hd₁] at hd₂ hle₂ hlim₂
  simp only [Function.update_self, Function.update_idem] at hd₂ hle₂ hlim₂
  refine ⟨⟨size₂, hd₂, Nat.le_trans hle₁ hle₂, ?_⟩, h₂.corrupt.trans h₁.corrupt,
    h₂.sectors.trans h₁.sectors, h₂.mounted.trans h₁.mounted, h₂.size.trans h₁.size,
    h₂.outcome.trans h₁.outcome, h₂.mem.trans h₁.mem, h₂.stores.trans h₁.stores,
    h₁.loads.trans h₂.loads⟩
  rcases hlim₂ with rfl | h
  · exact hlim₁
  · exact .inr h

theorem growSize_writtenBy (io : Io) (file : Fin 16) (start stop : Nat) (hp : position ≤ limit)
    (hl : limit < 2 ^ 32) :
    io.WrittenBy (growSize io file position) file limit start stop ∧
      position ≤ ((growSize io file position).fs.directory file).size.toNat := by
  have hv : (BitVec.ofNat 32 position : Word).toNat = position := by
    rw [BitVec.toNat_ofNat]
    exact Nat.mod_eq_of_lt (by omega)
  rw [growSize]
  split
  next hgt =>
    refine ⟨⟨⟨BitVec.ofNat 32 position, rfl, by omega, .inr (by omega)⟩, rfl, rfl, rfl, rfl, rfl,
      rfl, rfl, .refl _ _ _⟩, ?_⟩
    rw [setEntry_directory, Function.update_self, hv]
  next hgt =>
    exact ⟨.of_directory rfl rfl rfl rfl rfl rfl rfl rfl (.refl _ _ _), Nat.le_of_not_lt hgt⟩

theorem readSector_writtenBy (io : Io) (sector : Word) :
    io.WrittenBy (readSector io sector).2 file limit start stop := by
  have hr := readSector_readBy io sector start stop
  exact .of_directory hr.same.directory hr.same.corrupt hr.same.sectors hr.same.mounted
    hr.same.size hr.same.outcome rfl rfl (hr.loads ▸ .refl _ _ _)

theorem transferOut_disk (d : Disk) (sector : Word) (buffer : Bytes) :
    (d.transferOut sector buffer).2.size = d.size ∧
      (d.transferOut sector buffer).2.outcome = d.outcome :=
  (virtioTransfer_disk d sector 1).2

theorem writeSector_writtenBy (io : Io) (sector : Word) :
    io.WrittenBy (writeSector io sector).2 file limit start stop := by
  obtain ⟨hd, ho⟩ := transferOut_disk io.disk sector io.fs.sectorBuffer
  exact .of_directory rfl rfl rfl rfl hd ho rfl rfl (.refl _ _ _)

theorem writePart_writtenBy (io : Io) (file : Fin 16) (hs : start ≤ src) (he : src + n ≤ stop)
    (hp : position + n ≤ limit) (hl : limit < 2 ^ 32) :
    io.WrittenBy (writePart io file src position n).2 file limit start stop ∧
      ((writePart io file src position n).1 = true →
        position + n ≤ ((writePart io file src position n).2.fs.directory file).size.toNat) := by
  have hread : io.WrittenBy (readSector io ((io.fs.directory file).sector position)).2 file limit
      start stop := readSector_writtenBy io _
  rw [writePart]
  dsimp only
  split
  next hok =>
    -- the sector buffer takes the bytes, which the kernel reads from memory
    have hfill : ∀ (r : Io) (buffer : Bytes), r.WrittenBy { r with
        fs := { r.fs with sectorBuffer := buffer }
        loads := r.loads ++ [(src, n)] } file limit start stop := fun r buffer =>
      .of_directory rfl rfl rfl rfl rfl rfl rfl rfl (.snoc (r := (src, n)) hs he _)
    have hwrite := fun buffer => (hread.trans (hfill _ buffer)).trans (writeSector_writtenBy _
      ((io.fs.directory file).sector position))
    split
    · obtain ⟨hg, hsize⟩ := growSize_writtenBy _ file start stop hp hl
      exact ⟨(hwrite _).trans hg, fun _ => hsize⟩
    next hf => exact ⟨hwrite _, fun h => absurd h hf⟩
  next hf => exact ⟨hread, fun h => absurd h hf⟩

theorem Io.WrittenBy.size_le {io io' : Io} (h : io.WrittenBy io' file limit start stop) :
    (io.fs.directory file).size.toNat ≤ (io'.fs.directory file).size.toNat := by
  obtain ⟨size, hd, hle, -⟩ := h.directory
  rw [hd, Function.update_self]
  exact hle

theorem writeLoop_writtenBy (file : Fin 16) (src length : Nat) (hl : limit < 2 ^ 32) (fuel : Nat)
    (io : Io) (done position : Nat) (hd : done ≤ length) :
    let q := writeLoop file src length limit fuel io done position
    io.WrittenBy q.2 file limit src (src + length) ∧
      ∀ n, q.1 = some n → Moved done length position (q.2.fs.directory file).size n := by
  induction fuel generalizing io done position with
  | zero =>
    refine ⟨.of_directory rfl rfl rfl rfl rfl rfl rfl rfl (.refl _ _ _), ?_⟩
    rintro n ⟨⟩
    exact ⟨Nat.le_refl _, hd, .inl rfl⟩
  | succ fuel ih =>
    rw [writeLoop]
    split
    next hlt =>
      generalize hn : min (length - done) (min (limit - position) (512 - position % 512)) = n
      obtain ⟨hw, hsize⟩ := writePart_writtenBy io file (Nat.le_add_right src done)
        (by omega : src + done + n ≤ src + length) (by omega : position + n ≤ limit) hl
      dsimp only
      split
      next hok =>
        obtain ⟨h₁, h₂⟩ := ih (writePart io file (src + done) position n).2 (done + n)
          (position + n) (by omega)
        refine ⟨hw.trans h₁, ?_⟩
        intro m hm
        exact (h₂ m hm).step (Nat.le_trans (hsize hok) h₁.size_le)
      next => exact ⟨hw, by rintro n ⟨⟩⟩
    next hlt =>
      refine ⟨.of_directory rfl rfl rfl rfl rfl rfl rfl rfl (.refl _ _ _), ?_⟩
      rintro n ⟨⟩
      exact ⟨Nat.le_refl _, hd, .inl rfl⟩

/-- A write, however its transfers end, changes no other file. -/
theorem fsWrite_any (io : Io) (file : Fin 16) (position : Word) (src : Nat) (length : Word) :
    let q := fsWrite io file position src length
    io.WrittenBy q.2 file ((io.fs.directory file).capacity * 512).toNat src (src + length.toNat) ∧
      ∀ n, q.1 = some n → n ≤ length.toNat ∧
        (n = 0 ∨ position.toNat + n ≤ (q.2.fs.directory file).size.toNat) := by
  have hl : ((io.fs.directory file).capacity * 512).toNat < 2 ^ 32 := BitVec.isLt _
  obtain ⟨h₁, h₂⟩ := writeLoop_writtenBy file src length.toNat hl length.toNat io 0 position.toNat
    (Nat.zero_le _)
  refine ⟨h₁, fun n hn => ?_⟩
  have hmoved := h₂ n hn
  rw [Moved, Nat.sub_zero] at hmoved
  exact hmoved.2

structure Io.FlushedBy (io io' : Io) : Prop where
  fs : io'.fs = io.fs
  mem : io'.mem = io.mem
  size : io'.disk.size = io.disk.size
  outcome : io'.disk.outcome = io.disk.outcome
  loads : io'.loads = io.loads
  stores : io'.stores = io.stores

theorem fsFlush_any (io : Io) : io.FlushedBy (fsFlush io).2 := by
  rw [fsFlush]
  split
  · obtain ⟨hd, ho⟩ := transferOut_disk io.disk 1 (directoryBytes io.fs.directory)
    exact ⟨rfl, rfl, hd, ho, rfl, rfl⟩
  · exact ⟨rfl, rfl, rfl, rfl, rfl, rfl⟩

theorem Io.Mounted.congr {io io' : Io} (h : io.Mounted)
    (hd : io'.fs.directory = io.fs.directory) (hc : io'.fs.corrupt = io.fs.corrupt)
    (hs : io'.fs.sectors = io.fs.sectors) (hm : io'.fs.mounted = io.fs.mounted)
    (hz : io'.disk.size = io.disk.size) : io'.Mounted where
  mounted := hm.trans h.mounted
  data := hs ▸ h.data
  fits := by
    rw [Disk.capacity, hs, hz]
    exact h.fits
  valid i hi := by
    rw [inUse, hd, hc] at hi
    rw [hs, hd]
    exact h.valid i hi
  free i hi := by
    rw [hd] at hi
    rw [hc]
    exact h.free i hi

theorem Io.SameFiles.isMounted {io io' : Io} (h : io.SameFiles io') (hm : io.Mounted) :
    io'.Mounted :=
  hm.congr h.directory h.corrupt h.sectors h.mounted h.size

theorem Io.FlushedBy.isMounted {io io' : Io} (h : io.FlushedBy io') (hm : io.Mounted) :
    io'.Mounted :=
  hm.congr (by rw [h.fs]) (by rw [h.fs]) (by rw [h.fs]) (by rw [h.fs]) h.size

theorem Io.Mounted.resize {io : Io} (h : io.Mounted) (file : Fin 16) (size : Word)
    (hs : size = (io.fs.directory file).size ∨
      size.toNat ≤ ((io.fs.directory file).capacity * 512).toNat) :
    (io.setEntry file { io.fs.directory file with size }).Mounted := by
  have hentry : ∀ i, i ≠ file → (io.setEntry file { io.fs.directory file with size }).fs.directory
      i = io.fs.directory i := fun i hi => Function.update_of_ne hi _ _
  have hself : (io.setEntry file { io.fs.directory file with size }).fs.directory file =
      { io.fs.directory file with size } := Function.update_self _ _ _
  refine ⟨h.mounted, h.data, h.fits, fun i hi => ?_, fun i hi => ?_⟩
  · by_cases hif : i = file
    · subst hif
      rw [inUse_iff, hself] at hi
      obtain ⟨hd, he, hsz, hl, hn⟩ := h.bounded (inUse_iff.2 hi)
      rw [hself]
      refine Entry.Bounded.not_corrupt ⟨hd, he, ?_, hl, hn⟩
      rcases hs with rfl | hle
      · exact hsz
      · rwa [hl] at hle
    · rw [hentry i hif]
      rw [inUse_iff, hentry i hif] at hi
      exact h.valid i (inUse_iff.2 hi)
  · by_cases hif : i = file
    · subst hif
      rw [hself] at hi
      exact h.free i hi
    · rw [hentry i hif] at hi
      exact h.free i hi

theorem Io.WrittenBy.isMounted {io io' : Io}
    (h : io.WrittenBy io' file ((io.fs.directory file).capacity * 512).toNat start stop)
    (hm : io.Mounted) : io'.Mounted := by
  obtain ⟨size, hd, -, hs⟩ := h.directory
  exact (hm.resize file size hs).congr hd h.corrupt h.sectors h.mounted h.size

/-- An open, however its transfers end. -/
theorem fsOpen_any (io : Io) (hm : io.Mounted) (name : List UInt8) (create : Bool) :
    ((fsOpen io name create).2 = io ∧
      ∀ i, (fsOpen io name create).1 = some i → inUse io.fs i = true) ∨
    ∃ i first, (io.fs.directory i).name 0 = 0 ∧ name ≠ [] ∧
      (newEntry name first).Bounded io.fs.sectors.toNat ∧
      (fsOpen io name create).2 = (fsFlush (io.setEntry i (newEntry name first))).2 ∧
      ∀ j, (fsOpen io name create).1 = some j → j = i := by
  by_cases hn : name = []
  · left
    have hnone : fsOpen io name create = (none, io) := by simp [fsOpen, hn]
    rw [hnone]
    exact ⟨rfl, by rintro i ⟨⟩⟩
  have hne : (!io.fs.mounted || decide (name = [])) = false := by simp [hm.mounted, hn]
  unfold fsOpen
  rw [hne]
  simp only [Bool.false_eq_true, if_false]
  cases hl : lookup io.fs name with
  | some i =>
    rw [openScan_found io.fs _ none 2 hl]
    left
    refine ⟨rfl, ?_⟩
    rintro j ⟨⟩
    exact (answers_iff.1 (List.find?_some hl)).1
  | none =>
    obtain ⟨next, ho, hnext⟩ := openScan_none hm (List.finRange 16) none 2 hl
    rw [ho, Option.none_or]
    change next.toNat = io.fs.used at hnext
    cases hfree : (List.finRange 16).find? fun i => decide ((io.fs.directory i).name 0 = 0) with
    | none => exact .inl ⟨rfl, by rintro i ⟨⟩⟩
    | some i =>
      dsimp only
      split
      · exact .inl ⟨rfl, by rintro i ⟨⟩⟩
      next hc =>
        simp only [Bool.or_eq_true, Bool.not_eq_true', decide_eq_true_eq, not_or,
          Bool.not_eq_false, ge_iff_le, gt_iff_lt, BitVec.not_lt, Nat.not_le] at hc
        obtain ⟨⟨-, hlen⟩, hroom⟩ := hc
        have hsec := hm.sectors_lt
        have hused := hm.used_le
        rw [BitVec.le_def, BitVec.toNat_add, hnext] at hroom
        change (io.fs.used + 8) % 2 ^ 32 ≤ _ at hroom
        refine .inr ⟨i, next, by simpa using List.find?_some hfree, hn,
          newEntry_bounded name hlen (hnext ▸ io.fs.two_le_used) (by omega), rfl, ?_⟩
        intro j hj
        split at hj
        · exact (Option.some.inj hj).symm
        · cases hj

end TinyProcessors
