import TinyProcessors.Fs.MkfsAgreement

namespace TinyProcessors.Mkfs

structure KernelTidy (io : Io) : Prop where
  healthy : io.Healthy
  size : checkSize io.disk.size.toNat = .ok ()
  superblock : Superblock io.disk.image io.disk.capacity
  sectors : io.fs.sectors = io.disk.image.word 4
  clean : ∀ i, io.fs.corrupt i = false
  entries : ∀ i, ∃ name, TidyEntry io.fs.sectors.toNat (io.fs.directory i) name

theorem decodeDirectory_window (b : Bytes) (i : Fin 16) :
    decodeDirectory (b.window 512) i = Entry.decode b (512 + 32 * i) := by
  apply decode_congr
  intro k _
  rw [window_apply, Nat.add_assoc]

theorem Tidy.mount {disk : Image} (ht : Tidy disk names) {io : Io} (hs : io.disk.Sound)
    (himage : io.disk.image = disk.bytes) (hsize : io.disk.size = BitVec.ofNat 32 disk.size) :
    (fsMount io io.disk.capacity).1 = true ∧
      KernelTidy (fsMount io io.disk.capacity).2 ∧
      (fsMount io io.disk.capacity).2.fs.directory = disk.entry := by
  obtain ⟨hmod, hmin, hmax⟩ := checkSize_ok.1 ht.size
  have hbytes : io.disk.size.toNat = disk.size := by
    rw [hsize, BitVec.toNat_ofNat]
    omega
  have hcap : io.disk.capacity = BitVec.ofNat 32 (disk.size / 512) := by
    rw [Disk.capacity, hbytes]
  have hsuper : Superblock io.disk.image io.disk.capacity := by
    rw [himage, hcap]
    exact ht.superblock
  obtain ⟨hiff, hremount⟩ := fsMount_sound io hs
  have hm := hiff.2 hsuper
  have hr := hremount hm
  have hmounted := fsMount_mounted io hm
  generalize (fsMount io io.disk.capacity).2 = io' at *
  have hdir : io'.fs.directory = disk.entry := by
    rw [hr.directory, himage]
    funext i
    exact decodeDirectory_window disk.bytes i
  have hsectors : io'.fs.sectors = disk.bytes.word 4 := by
    rw [hr.sectors, himage]
  have hclean (i : Fin 16) : io'.fs.corrupt i = false := by
    rw [hr.corrupt, himage, hdir]
    exact ht.not_corrupt i
  have huse (i : Fin 16) : inUse io'.fs i = inUse disk.fs i := by
    rw [inUse, inUse, hclean i, ht.not_corrupt i, hdir]
    rfl
  have hdisjoint : io'.fs.Disjoint := by
    apply ht.disjoint.congr huse
    · intro i
      rw [hdir]
      rfl
    · intro i
      rw [hdir]
      rfl
  refine ⟨hm, ⟨hr.healthy hmounted hdisjoint, ?_, ?_, ?_, hclean, ?_⟩, hdir⟩
  · rw [hr.size, hbytes]
    exact ht.size
  · rw [hr.image, Disk.capacity, hr.size]
    exact hsuper
  · rw [hr.sectors, hr.image]
  · intro i
    rw [hdir, hsectors]
    exact ⟨_, ht.entries i⟩

theorem TidyEntry.resize {e e' : Entry} (h : TidyEntry sectors e name) (hs : e.SameFile e')
    (hb : e'.Bounded sectors) : TidyEntry sectors e' name :=
  ⟨hs.name.trans h.field, h.short, h.noNul, fun _ => hb⟩

theorem Effect.tidyEntries {io io' : Io} (he : Effect io c io') (hh : io.Healthy)
    (h : ∀ i, ∃ name, TidyEntry io.fs.sectors.toNat (io.fs.directory i) name) (i : Fin 16) :
    ∃ name, TidyEntry io.fs.sectors.toNat (io'.fs.directory i) name := by
  cases he with
  | none hw =>
    rw [hw.directory]
    exact h i
  | @created name j first _ hc h0 hne =>
    by_cases hi : i = j
    · subst hi
      rw [hc.self]
      exact ⟨name, rfl, (vacancy_spec hc.vacancy).1, h0, fun _ => hc.bounded⟩
    · rw [hc.other hi]
      exact h i
  | @truncated file hu =>
    have hb := hh.mounted.bounded hu
    change ∃ name, TidyEntry _ (Function.update io.fs.directory file _ i) name
    by_cases hi : i = file
    · subst hi
      obtain ⟨name, hn⟩ := h i
      rw [Function.update_self]
      exact ⟨name, hn.resize ⟨rfl, rfl, rfl⟩
        ⟨hb.data, hb.extent, Nat.zero_le _, hb.limit, hb.name⟩⟩
    · rw [Function.update_of_ne hi]
      exact h i
  | @written file _ _ _ _ hu hw =>
    rw [hw.directory, setEntry_directory]
    by_cases hi : i = file
    · subst hi
      obtain ⟨name, hn⟩ := h i
      rw [Function.update_self]
      exact ⟨name, hn.resize (Entry.grown_sameFile _ _ _)
        ((hh.mounted.bounded hu).written _ _)⟩
    · rw [Function.update_of_ne hi]
      exact h i
  | flushed hw =>
    rw [hw.directory]
    exact h i

theorem KernelTidy.effect {io io' : Io} (hk : KernelTidy io) (he : Effect io c io') :
    KernelTidy io' := by
  obtain ⟨hsize, hsectors, hcorrupt⟩ := he.fixed
  obtain ⟨hsuper, hword⟩ := hk.superblock.congr fun k hlt =>
    he.superblock hk.healthy.mounted (by omega : k < 512)
  refine ⟨he.healthy hk.healthy, ?_, ?_, ?_, ?_, ?_⟩
  · rw [hsize]
    exact hk.size
  · rw [Disk.capacity, hsize]
    exact hsuper
  · rw [hsectors, hword]
    exact hk.sectors
  · rw [hcorrupt]
    exact hk.clean
  · rw [hsectors]
    exact Effect.tidyEntries he hk.healthy hk.entries

theorem KernelTidy.run {io : Io} (hk : KernelTidy io) (hr : Represents io s)
    (hl : LegalRun s io.mem calls) :
    KernelTidy (io.run calls).2 ∧ (io.run calls).2.disk.size = io.disk.size := by
  induction calls generalizing io s with
  | nil => exact ⟨hk, rfl⟩
  | cons c calls ih =>
    have hc := hk.healthy.call_agrees hr hl.1
    have he := io.call_effect hk.healthy.mounted hk.healthy.sound (hl.1.usable hr)
    have hrest := hl.2
    rw [← hc.mem] at hrest
    obtain ⟨hk', hsize⟩ := ih (hk.effect he) hc.represents hrest
    exact ⟨hk', hsize.trans he.fixed.1⟩

def flushedDisk (io : Io) : Image := ⟨io.disk.size.toNat, io.flushed⟩

theorem flushedDisk_entry (io : Io) (i : Fin 16) :
    (flushedDisk io).entry i = io.fs.directory i := by
  apply decode_of_encode
  intro k hk
  rw [Nat.add_assoc]
  exact (overwrite_of_mem (by omega) (by omega)).trans
    ((congrArg _ (Nat.add_sub_cancel_left _ _)).trans (directoryBytes_entry io.fs.directory i hk))

theorem KernelTidy.flushedDisk_tidy {io : Io} (hk : KernelTidy io)
    (hnames : ∀ i, (io.fs.directory i).label = encode (names i)) :
    Tidy (flushedDisk io) names := by
  obtain ⟨hsuper, hword⟩ := hk.superblock.congr fun k (hlt : k < 20) =>
    (overwrite_of_not_mem (.inl (by omega)) : io.flushed k = io.disk.image k)
  have hsectors : (flushedDisk io).bytes.word 4 = io.fs.sectors := hword.trans hk.sectors.symm
  have hentries (i : Fin 16) :
      TidyEntry io.fs.sectors.toNat ((flushedDisk io).entry i) (encode (names i)) := by
    obtain ⟨name, hn⟩ := hk.entries i
    rw [flushedDisk_entry, ← hnames i, hn.label]
    exact hn
  refine ⟨hk.size, hsuper, ?_, ?_⟩
  · rw [hsectors]
    exact hentries
  · have hdir (i : Fin 16) : (flushedDisk io).fs.directory i = io.fs.directory i :=
      flushedDisk_entry io i
    have hcorrupt (i : Fin 16) : (flushedDisk io).fs.corrupt i = false := by
      change entryCorrupt ((flushedDisk io).bytes.word 4) ((flushedDisk io).entry i) = false
      rw [hsectors]
      exact (hentries i).not_corrupt
    apply hk.healthy.disjoint.congr
    · intro i
      rw [inUse, inUse, hdir, hcorrupt, hk.clean]
    · intro i
      rw [hdir]
    · intro i
      rw [hdir]

theorem KernelTidy.exists_names {io : Io} (hk : KernelTidy io) (hr : Represents io s)
    (hutf : ∀ f ∈ s.files, ∃ name, encode name = f.name) :
    ∃ names : Fin 16 → String, ∀ i, (io.fs.directory i).label = encode (names i) := by
  have h : ∀ i, ∃ name, (io.fs.directory i).label = encode name := by
    intro i
    cases hf : s.slots i with
    | file f =>
      have hmem : f ∈ s.files := by
        refine List.mem_filterMap.2 ⟨i, List.mem_finRange i, ?_⟩
        rw [hf]
        rfl
      obtain ⟨name, hname⟩ := hutf f hmem
      exact ⟨name, (hr.file_contents hf).1.symm.trans hname.symm⟩
    | free =>
      obtain ⟨name, hn⟩ := hk.entries i
      have hz := (hr.slots i).isFree_iff.1 (by rw [hf]; rfl)
      exact ⟨"", hn.label.trans (hn.name_zero.1 hz)⟩
    | setAside =>
      have hslot := hr.slots i
      rw [hf] at hslot
      have hc := hslot.2
      rw [hk.clean i] at hc
      cases hc
  choose names hnames using h
  exact ⟨names, hnames⟩

section Listing

variable {io : Io} {names : Fin 16 → String} (hk : KernelTidy io) (hr : Represents io s)
  (hnames : ∀ i, (io.fs.directory i).label = encode (names i))
include hk hr hnames

theorem KernelTidy.named_iff (hne : name ≠ "") (i : Fin 16) :
    (s.slots i).named (encode name) = true ↔ names i = name := by
  obtain ⟨bytes, hn⟩ := hk.entries i
  have hlabel : bytes = encode (names i) := hn.label.symm.trans (hnames i)
  have huse : (∃ f, s.slots i = .file f) ↔ names i ≠ "" := by
    rw [(hr.slots i).file_iff, inUse_iff, hk.clean i, ne_eq, hn.name_zero, hlabel, encode_eq_nil]
    exact ⟨fun h => h.1, fun h => ⟨h, rfl⟩⟩
  constructor
  · intro h
    cases hf : s.slots i with
    | file f =>
      rw [hf] at h
      have hname : f.name = encode name := of_decide_eq_true h
      rw [(hr.file_contents hf).1, hnames i] at hname
      exact encode_inj hname
    | free | setAside =>
      rw [hf] at h
      cases h
  · intro h
    obtain ⟨f, hf⟩ := huse.2 (h ▸ hne)
    rw [hf]
    apply decide_eq_true
    rw [(hr.file_contents hf).1, hnames i, h]

theorem KernelTidy.rows_eq (l : List (Fin 16)) :
    ((flushedDisk io).rows names l).map (fun row => (encode row.name, row.size)) =
      (l.filterMap fun i => (s.slots i).file?).map fun f => (f.name, f.contents.length) := by
  induction l with
  | nil => rfl
  | cons i l ih =>
    rw [Image.rows_cons, List.map_append, ih, List.filterMap_cons]
    by_cases hn : names i = ""
    · have hnone : (s.slots i).file? = none := by
        cases hf : s.slots i with
        | file f =>
          have hu := (hr.slots i).file_iff.1 ⟨f, hf⟩
          obtain ⟨bytes, hb⟩ := hk.entries i
          have hz := hb.name_zero.2 (hb.label.symm.trans ((hnames i).trans (encode_eq_nil.2 hn)))
          exact absurd hz (inUse_iff.1 hu).1
        | free => rfl
        | setAside => rfl
      rw [if_pos hn, hnone]
      rfl
    · have hnamed := (hk.named_iff hr hnames hn i).2 rfl
      cases hf : s.slots i with
      | file f =>
        obtain ⟨hname, hlen⟩ := hr.file_contents hf
        rw [if_neg hn]
        simp only [Option.toList_some, List.map_cons, List.map_nil, Image.row, Slot.file?,
          flushedDisk_entry, List.singleton_append, hname, hlen, hnames i]
      | free | setAside =>
        rw [hf] at hnamed
        cases hnamed

theorem KernelTidy.read_eq (hi : s.find (Slot.named (encode name)) = some i)
    (hf : s.slots i = .file f) : read (flushedDisk io) name = .ok f.contents := by
  have hslot := hr.slots i
  rw [hf] at hslot
  obtain ⟨hu, hname, -, hcontents⟩ := hslot
  have hne : name ≠ "" := by
    rintro rfl
    have hnamed := Store.find_some hi
    rw [hf] at hnamed
    obtain ⟨bytes, hb⟩ := hk.entries i
    have hempty : bytes = [] :=
      hb.label.symm.trans (hname.symm.trans (of_decide_eq_true hnamed))
    exact absurd (hb.name_zero.2 hempty) (inUse_iff.1 hu).1
  have hfind : (List.finRange 16).find? (fun i => decide (names i = name)) = some i := by
    refine Eq.trans (congrArg (fun p => List.find? p (List.finRange 16)) (funext fun j => ?_)) hi
    rw [Bool.eq_iff_iff, decide_eq_true_eq, hk.named_iff hr hnames hne]
  rw [read, (hk.flushedDisk_tidy hnames).entries_eq]
  simp only [bind, Except.bind, Image.find_rows _ names hne, hfind, Option.map_some]
  apply congrArg Except.ok
  rw [hcontents]
  change Bytes.slice io.flushed (((flushedDisk io).entry i).first.toNat * 512)
    ((flushedDisk io).entry i).size.toNat = _
  rw [flushedDisk_entry]
  exact (hk.healthy.mounted.bounded hu).flushed_contents io

end Listing

theorem KernelTidy.open_name {io : Io} {names : Fin 16 → String} (hk : KernelTidy io)
    (hnames : ∀ i, (io.fs.directory i).label = encode (names i)) (hd : Distinct names)
    (hne : names i ≠ "") :
    inUse io.fs i = true ∧ fsOpen io (encode (names i)) false = (some i, io) := by
  obtain ⟨bytes, hb⟩ := hk.entries i
  have hlabel : bytes = encode (names i) := hb.label.symm.trans (hnames i)
  have h0 : 0 ∉ encode (names i) := hlabel ▸ hb.noNul
  have hempty : encode (names i) ≠ [] := encode_eq_nil.not.2 hne
  have hu : inUse io.fs i = true :=
    inUse_iff.2 ⟨hb.name_zero.not.2 (hlabel ▸ hempty), hk.clean i⟩
  have hanswer {j : Fin 16} (hj : inUse io.fs j = true) :
      answers io.fs (encode (names i)) j = true ↔ names j = names i := by
    rw [answers_iff, hk.healthy.mounted.same_iff hj h0, hnames j]
    exact ⟨fun h => encode_inj h.2, fun h => ⟨hj, congrArg encode h⟩⟩
  have hlookup : lookup io.fs (encode (names i)) = some i := by
    cases hl : lookup io.fs (encode (names i)) with
    | none =>
      exact absurd ((hanswer hu).2 rfl) (List.find?_eq_none.1 hl i (List.mem_finRange i))
    | some j =>
      have hj := List.find?_some hl
      have hname := (hanswer (answers_iff.1 hj).1).1 hj
      rw [hd i j hne hname.symm]
  refine ⟨hu, ?_⟩
  rcases fsOpen_spec io hk.healthy.mounted hk.healthy.sound _ false hempty with
    ⟨j, hj, hopen⟩ | ⟨hj, -, hopen⟩ | ⟨j, first, io', hj, -⟩
  · rw [hlookup] at hj
    cases hj
    exact hopen
  · rw [hlookup] at hj
    cases hj
  · rw [hlookup] at hj
    cases hj

theorem KernelTidy.same_place {io : Io} {names : Fin 16 → String} (hk : KernelTidy io)
    (hnames : ∀ i, (io.fs.directory i).label = encode (names i)) (h0 : 0 ∉ encode name)
    (hadd : add (flushedDisk io) name data capacity = .ok disk)
    (hopen : fsOpen io (encode name) true = (some i, io')) :
    (disk.entry i).name = (io'.fs.directory i).name ∧
      (disk.entry i).first = (io'.fs.directory i).first ∧
      ∀ j, j ≠ i → disk.entry j = (flushedDisk io).entry j ∧
        io'.fs.directory j = io.fs.directory j := by
  have ht := hk.flushedDisk_tidy hnames
  obtain ⟨i', ha⟩ := ht.add_spec hadd
  have hdir (j : Fin 16) : (flushedDisk io).fs.directory j = io.fs.directory j :=
    flushedDisk_entry io j
  have hfree : freeEntry (flushedDisk io).fs = freeEntry io.fs := by
    apply congrArg (fun p => List.find? p (List.finRange 16))
    funext j
    rw [hdir]
  have hused : (flushedDisk io).fs.used = io.fs.used := by
    apply Fs.used_congr
    · intro j
      rw [inUse, inUse, hdir, ht.not_corrupt, hk.clean]
    · intro j
      rw [hdir]
  have hempty : encode name ≠ [] := encode_eq_nil.not.2 ha.name_ne
  rcases fsOpen_spec io hk.healthy.mounted hk.healthy.sound _ true hempty with
    ⟨j, hj, -⟩ | ⟨-, -, hnone⟩ | ⟨j, first, io₁, -, -, hc, hsome⟩
  · obtain ⟨hu, hsame⟩ := answers_iff.1 (List.find?_some hj)
    rw [hk.healthy.mounted.same_iff hu h0, hnames j] at hsame
    exact absurd (encode_inj hsame) (ha.fresh j)
  · rw [hnone] at hopen
    cases hopen
  · rw [hsome] at hopen
    cases hopen
    have hi : i' = i := by
      have hv := hc.vacancy
      unfold vacancy at hv
      split at hv
      · have hfree' := ha.free
        rw [hfree, hv] at hfree'
        exact (Option.some.inj hfree').symm
      · cases hv
    subst hi
    rw [ha.entry_self, hc.self]
    refine ⟨rfl, ?_, fun j hj => ⟨ha.entry_other hj, hc.other hj⟩⟩
    apply BitVec.eq_of_toNat_eq
    rw [(ha.entry_self ▸ (ha.self_bounded ht).2.1 : (packEntry _ _ _ _).first.toNat = _), hused]
    exact hc.start.symm

/-- What mkfs makes of the disk of a kernel that serves `s`. -/
structure RoundTrip (io : Io) (s : Store) (disk : Image) : Prop where
  serves : Represents io s
  listing : ∃ rows, entries disk = .ok rows ∧
    rows.map (fun row => (encode row.name, row.size)) =
      s.files.map fun f => (f.name, f.contents.length)
  reads : ∀ name i f, s.find (Slot.named (encode name)) = some i → s.slots i = .file f →
    read disk name = .ok f.contents
  places : ∀ name data capacity disk' i io', 0 ∉ encode name →
    add disk name data capacity = .ok disk' → fsOpen io (encode name) true = (some i, io') →
    (disk'.entry i).name = (io'.fs.directory i).name ∧
      (disk'.entry i).first = (io'.fs.directory i).first ∧
      ∀ j, j ≠ i → disk'.entry j = disk.entry j ∧ io'.fs.directory j = io.fs.directory j

theorem KernelTidy.roundTrip {io io' : Io} (hk : KernelTidy io) (hr : Represents io s)
    (hutf : ∀ f ∈ s.files, ∃ name, encode name = f.name)
    (hw : io.With io.mem io.flushed io') :
    RoundTrip io' s ⟨io.disk.size.toNat, io'.disk.image⟩ := by
  have hk' := hk.effect (.flushed hw)
  have hr' : Represents io' s := hw.represents hr fun i hi =>
    (hk.healthy.mounted.bounded hi).flushed_contents io
  -- flushing once more would change nothing
  have hdisk : (⟨io.disk.size.toNat, io'.disk.image⟩ : Image) = flushedDisk io' := by
    have himage : io'.disk.image = io'.flushed := by
      funext a
      rw [Io.flushed, hw.image, hw.directory]
      by_cases ha : 512 ≤ a ∧ a < 512 + 512
      · rw [overwrite_of_mem ha.1 ha.2]
        exact overwrite_of_mem ha.1 ha.2
      · rw [overwrite_of_not_mem (by omega)]
    rw [flushedDisk, ← himage, hw.size]
  obtain ⟨names, hnames⟩ := hk'.exists_names hr' hutf
  rw [hdisk]
  refine ⟨hr', ⟨_, (hk'.flushedDisk_tidy hnames).entries_eq, hk'.rows_eq hr' hnames _⟩, ?_, ?_⟩
  · intro name i f hi hslot
    exact hk'.read_eq hr' hnames hi hslot
  · intro name data capacity disk' i io₂ h0 hadd hopen
    exact hk'.same_place hnames h0 hadd hopen

/-- The kernel reads back what mkfs puts on a disk, and mkfs what the kernel leaves. -/
theorem mkfs_kernel_roundTrip (size : Nat) (adds : List (String × List UInt8 × Int)) (disk : Image)
    (hadds : (blank size >>= fun d => addAll d adds) = .ok disk)
    (h0 : ∀ file ∈ adds, 0 ∉ encode file.1) (io : Io) (hs : io.disk.Sound)
    (himage : io.disk.image = disk.bytes) (hsize : io.disk.size = BitVec.ofNat 32 disk.size) :
    (fsMount io io.disk.capacity).1 = true ∧ fsCorrupt (fsMount io io.disk.capacity).2 = 0 ∧
      (∀ file ∈ adds, ∃ i,
        fsOpen (fsMount io io.disk.capacity).2 (encode file.1) false =
          (some i, (fsMount io io.disk.capacity).2) ∧
        ∀ dst length, ∃ io',
          fsRead (fsMount io io.disk.capacity).2 i 0 dst length =
            (some (min length.toNat file.2.1.length), io') ∧
          io'.mem = io.mem.overwrite dst (min length.toNat file.2.1.length)
            (Bytes.ofList file.2.1)) ∧
      ∃ s, Represents (fsMount io io.disk.capacity).2 s ∧
        ∀ calls, LegalRun s io.mem calls →
          (∀ f ∈ (s.run io.mem calls).2.1.files, ∃ name, encode name = f.name) →
          RoundTrip (fsFlush ((fsMount io io.disk.capacity).2.run calls).2).2
            (s.run io.mem calls).2.1
            ⟨disk.size, (fsFlush ((fsMount io io.disk.capacity).2.run calls).2).2.disk.image⟩ := by
  cases hb : blank size with
  | error e =>
    rw [hb] at hadds
    cases hadds
  | ok d =>
    rw [hb] at hadds
    obtain ⟨names, ht, hd, hfiles, -⟩ := (blank_tidy hb).addAll
      (fun i _ hi => absurd rfl hi) h0 hadds
    obtain ⟨hm, hk, hdir⟩ := ht.mount hs himage hsize
    have hr := (fsMount_sound io hs).2 hm
    have hnames (i : Fin 16) : ((fsMount io io.disk.capacity).2.fs.directory i).label =
        encode (names i) := by
      rw [hdir]
      exact (ht.entries i).label
    refine ⟨hm, ?_, ?_, ?_⟩
    · exact List.countP_eq_zero.2 fun i _ => by rw [hk.clean i]; decide
    · intro file hfile
      obtain ⟨hne, i, hi, hcontents⟩ := hfiles file hfile
      rw [← hi] at hne
      obtain ⟨hu, hopen⟩ := hk.open_name hnames hd hne
      rw [← hi]
      refine ⟨i, hopen, fun dst length => ?_⟩
      obtain ⟨io', hread, hw⟩ := fsRead_spec _ dst hk.healthy.mounted hk.healthy.sound hu 0 length
      have hzero : (0 : Word).toNat = 0 := rfl
      have hlen : ((fsMount io io.disk.capacity).2.fs.directory i).size.toNat =
          file.2.1.length := by
        rw [hdir, ← hcontents, Entry.contents, slice_length]
      have hcount : readCount ((fsMount io io.disk.capacity).2.fs.directory i)
          (0 : Word).toNat length.toNat = min length.toNat file.2.1.length := by
        rw [readCount, hlen]
        rfl
      rw [hcount] at hread hw
      rw [hzero, Nat.add_zero] at hw
      refine ⟨io', hread, ?_⟩
      rw [hw.mem, hr.mem]
      apply overwrite_congr
      intro k hk'
      rw [window_apply, hr.image, himage, hdir, ← hcontents, Entry.contents,
        ofList_slice _ _ _ _ (by rw [← hdir, hlen]; omega)]
    · obtain ⟨s, hrep⟩ := hk.healthy.mounted.exists_store
      refine ⟨s, hrep, fun calls hl hutf => ?_⟩
      rw [← hr.mem] at hl hutf ⊢
      have hrun := hk.healthy.run_agrees hrep hl
      obtain ⟨hk₁, hsize₁⟩ := hk.run hrep hl
      obtain ⟨io₁, hflush, hw⟩ := fsFlush_spec _ hk₁.healthy.mounted hk₁.healthy.sound
      have hdisk : ((fsMount io io.disk.capacity).2.run calls).2.disk.size.toNat = disk.size := by
        rw [hsize₁, hr.size, hsize, BitVec.toNat_ofNat]
        have hmax := (checkSize_ok.1 ht.size).2.2
        omega
      rw [hflush, ← hdisk]
      exact hk₁.roundTrip hrun.represents hutf hw

def welcomeDisk : Image := (⟨8192, emptyDisk 16⟩ : Image).put 0 "welcome" 2 8 [104, 105]

def welcomeIo : Io := Io.boot welcomeDisk.bytes 8192

theorem welcomeDisk_added :
    (blank 8192 >>= fun d => addAll d [("welcome", [104, 105], 8)]) = .ok welcomeDisk := rfl

theorem mkfs_kernel_roundTrip_welcome :
    ∃ i, fsOpen (fsMount welcomeIo welcomeIo.disk.capacity).2 (encode "welcome") false =
        (some i, (fsMount welcomeIo welcomeIo.disk.capacity).2) ∧
      (fsRead (fsMount welcomeIo welcomeIo.disk.capacity).2 i 0 0 64).1 = some 2 := by
  have h := mkfs_kernel_roundTrip 8192 [("welcome", [104, 105], 8)] welcomeDisk welcomeDisk_added
    (by decide) welcomeIo (Io.boot_sound _ _) rfl rfl
  obtain ⟨i, hopen, hread⟩ := h.2.2.1 ("welcome", [104, 105], 8) (List.mem_singleton_self _)
  obtain ⟨io', hr, -⟩ := hread 0 64
  exact ⟨i, hopen, congrArg Prod.fst hr⟩

end TinyProcessors.Mkfs
