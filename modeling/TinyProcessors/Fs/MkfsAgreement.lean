import TinyProcessors.Fs.MkfsLayout

namespace TinyProcessors.Mkfs

theorem decode_congr {b b' : Bytes} (h : ∀ k < 32, b (s + k) = b' (t + k)) :
    Entry.decode b s = Entry.decode b' t := by
  apply decode_of_encode
  intro k hk
  rw [h k hk, encode_decode b' t hk]

theorem packEntry_bounded (name : List UInt8) (hl : name.length < 20) (hs : sectors ≤ 16384)
    (hf : 2 ≤ first) (hfits : first + capacity ≤ sectors) (hd : size ≤ capacity * 512) :
    (packEntry name first capacity size).Bounded sectors ∧
      (packEntry name first capacity size).first.toNat = first ∧
      (packEntry name first capacity size).size.toNat = size := by
  have h1 : (packEntry name first capacity size).first.toNat = first := by
    exact Nat.mod_eq_of_lt (by omega)
  have h2 : (packEntry name first capacity size).capacity.toNat = capacity := by
    exact Nat.mod_eq_of_lt (by omega)
  have h3 : (packEntry name first capacity size).size.toNat = size := by
    exact Nat.mod_eq_of_lt (by omega)
  have h512 : (512 : Word).toNat = 512 := rfl
  refine ⟨⟨?_, ?_, ?_, ?_, ?_⟩, h1, h3⟩
  · rwa [h1]
  · rwa [h1, h2]
  · rwa [h2, h3]
  · rw [BitVec.toNat_mul, h2, h512]
    exact Nat.mod_eq_of_lt (by omega)
  · exact ofList_of_le name 19 (by omega)

section Added

variable {disk disk' : Image} (ht : Tidy disk names) (ha : Added disk names name data capacity i disk')

theorem Tidy.sectors_small {disk : Image} (ht : Tidy disk names) :
    (disk.bytes.word 4).toNat ≤ 16384 := by
  have h := ht.sectors_le
  have hsize := checkSize_ok.1 ht.size
  omega

include ha

theorem Added.low (h : a < 1024) : disk'.bytes a = disk.bytes.overwrite (512 + 32 * i) 32
    (packEntry (encode name) disk.fs.used capacity data.length).encode a := by
  have h2 := disk.fs.two_le_used
  rw [ha.after]
  exact overwrite_of_not_mem (by omega)

theorem Added.superblock_bytes (h : a < 512) : disk'.bytes a = disk.bytes a := by
  rw [ha.low (by omega)]
  exact overwrite_of_not_mem (by omega)

theorem Added.entry_self : disk'.entry i =
    packEntry (encode name) disk.fs.used capacity data.length := by
  apply decode_of_encode
  intro k hk
  rw [ha.low (by omega), overwrite_of_mem (by omega) (by omega), Nat.add_sub_cancel_left]

theorem Added.entry_other (h : j ≠ i) : disk'.entry j = disk.entry j := by
  have hne : (j : Nat) ≠ i := fun he => h (Fin.ext he)
  apply decode_congr
  intro k hk
  rw [ha.low (by omega)]
  exact overwrite_of_not_mem (by omega)

theorem Added.high (h : 1024 ≤ a) : disk'.bytes a =
    disk.bytes.overwrite (disk.fs.used * 512) data.length (Bytes.ofList data) a := by
  rw [ha.after]
  by_cases hm : disk.fs.used * 512 ≤ a ∧ a < disk.fs.used * 512 + data.length
  · rw [overwrite_of_mem hm.1 hm.2]
    exact overwrite_of_mem hm.1 hm.2
  · rw [overwrite_of_not_mem (by omega)]
    have he : (disk.put i name disk.fs.used capacity data).bytes a =
        disk.bytes.overwrite (512 + 32 * i) 32 _ a := overwrite_of_not_mem (by omega)
    rw [he]
    exact overwrite_of_not_mem (by omega)

theorem Added.word_four : disk'.bytes.word 4 = disk.bytes.word 4 := by
  apply word_congr
  intro k hk
  exact ha.superblock_bytes (by omega)

include ht

theorem Added.self_bounded : (disk'.entry i).Bounded (disk.bytes.word 4).toNat ∧
    (disk'.entry i).first.toNat = disk.fs.used ∧ (disk'.entry i).size.toNat = data.length := by
  rw [ha.entry_self]
  exact packEntry_bounded _ ha.length.2 ht.sectors_small disk.fs.two_le_used ha.fits ha.holds

theorem Added.contents_self : (disk'.entry i).contents disk'.bytes = data := by
  obtain ⟨-, hfirst, hsize⟩ := ha.self_bounded ht
  have h2 := disk.fs.two_le_used
  rw [Entry.contents, hfirst, hsize]
  refine (slice_congr fun k hk => ?_).trans (slice_ofList data)
  rw [ha.high (by omega), overwrite_of_mem (by omega) (by omega), Nat.add_sub_cancel_left,
    Nat.zero_add]

theorem Added.contents_other (hj : names j ≠ "") :
    (disk.entry j).contents disk'.bytes = (disk.entry j).contents disk.bytes := by
  have hb := ht.bounded hj
  have hdata := hb.data
  have hend := Fs.extentEnd_le_used ((ht.inUse_iff j).2 hj)
  change (disk.entry j).extentEnd ≤ disk.fs.used at hend
  apply hb.contents_congr
  intro a hl hr
  rw [ha.high (by omega)]
  exact overwrite_of_not_mem (by omega)

theorem Added.slot_free : names i = "" := by
  have hfree : (disk.fs.directory i).name 0 = 0 := by simpa using List.find?_some ha.free
  exact encode_eq_nil.1 ((ht.entries i).name_zero.1 hfree)

theorem Added.tidy (h0 : 0 ∉ encode name) : Tidy disk' (Function.update names i name) where
  size := by
    rw [ha.after]
    exact ht.size
  superblock := by
    rw [ha.after]
    exact (ht.superblock.congr fun k hk => ha.after ▸ ha.superblock_bytes (by omega)).1
  entries := by
    intro j
    rw [ha.word_four]
    by_cases h : j = i
    · subst h
      rw [Function.update_self]
      refine ⟨?_, ha.length.2, h0, fun _ => (ha.self_bounded ht).1⟩
      rw [ha.entry_self]
      rfl
    · rw [Function.update_of_ne h, ha.entry_other h]
      exact ht.entries j
  disjoint := by
    apply ht.disjoint.extend (fun j h => ha.entry_other h)
    · intro j h
      have he : disk'.fs.directory j = disk.fs.directory j := ha.entry_other h
      have hc : disk'.fs.corrupt j = disk.fs.corrupt j := by
        change entryCorrupt _ (disk'.entry j) = entryCorrupt _ (disk.entry j)
        rw [ha.word_four, ha.entry_other h]
      rw [inUse, inUse, he, hc]
    · exact Nat.le_of_eq (ha.self_bounded ht).2.1.symm

end Added

def HasFile (disk : Image) (names : Fin 16 → String) (name : String) (data : List UInt8) : Prop :=
  ∃ i, names i = name ∧ (disk.entry i).contents disk.bytes = data

theorem Added.hasFile {disk disk' : Image} (ht : Tidy disk names)
    (ha : Added disk names name data capacity i disk') :
    HasFile disk' (Function.update names i name) name data :=
  ⟨i, Function.update_self i name names, ha.contents_self ht⟩

theorem Added.keeps {disk disk' : Image} (ht : Tidy disk names)
    (ha : Added disk names name data capacity i disk') (hn : other ≠ "")
    (h : HasFile disk names other bytes) :
    HasFile disk' (Function.update names i name) other bytes := by
  obtain ⟨j, rfl, hj⟩ := h
  have hne : j ≠ i := by
    rintro rfl
    exact hn (ha.slot_free ht)
  refine ⟨j, by rw [Function.update_of_ne hne], ?_⟩
  rw [ha.entry_other hne, ha.contents_other ht hn, hj]

theorem Added.name_ne {disk disk' : Image} (ha : Added disk names name data capacity i disk') :
    name ≠ "" := by
  rintro rfl
  exact absurd ha.length.1 (by decide)

def Distinct (names : Fin 16 → String) : Prop := ∀ i j, names i ≠ "" → names i = names j → i = j

theorem Added.distinct {disk disk' : Image} (ha : Added disk names name data capacity i disk')
    (hd : Distinct names) : Distinct (Function.update names i name) := by
  intro j k hj hjk
  by_cases h : j = i
  · by_cases h' : k = i
    · exact h.trans h'.symm
    · rw [h, Function.update_self, Function.update_of_ne h'] at hjk
      exact absurd hjk.symm (ha.fresh k)
  · rw [Function.update_of_ne h] at hj hjk
    by_cases h' : k = i
    · rw [h', Function.update_self] at hjk
      exact absurd hjk (ha.fresh j)
    · rw [Function.update_of_ne h'] at hjk
      exact hd j k hj hjk

theorem Tidy.addAll {disk disk' : Image} (ht : Tidy disk names) (hd : Distinct names)
    (h0 : ∀ file ∈ adds, 0 ∉ encode file.1) (h : addAll disk adds = .ok disk') :
    ∃ names', Tidy disk' names' ∧ Distinct names' ∧
      (∀ file ∈ adds, file.1 ≠ "" ∧ HasFile disk' names' file.1 file.2.1) ∧
      ∀ name data, name ≠ "" → HasFile disk names name data → HasFile disk' names' name data := by
  induction adds generalizing disk names with
  | nil =>
    cases h
    exact ⟨names, ht, hd, fun file hf => (nomatch hf), fun _ _ _ hf => hf⟩
  | cons file adds ih =>
    obtain ⟨name, data, capacity⟩ := file
    rw [Mkfs.addAll] at h
    cases hadd : add disk name data capacity with
    | error e =>
      rw [hadd] at h
      cases h
    | ok disk₁ =>
      rw [hadd] at h
      obtain ⟨i, ha⟩ := ht.add_spec hadd
      have ht₁ := ha.tidy ht (h0 _ List.mem_cons_self)
      obtain ⟨names', ht', hd', hfiles, hkeep⟩ :=
        ih ht₁ (ha.distinct hd) (fun file hf => h0 file (List.mem_cons_of_mem _ hf)) h
      refine ⟨names', ht', hd', ?_, ?_⟩
      · intro file hf
        rcases List.mem_cons.1 hf with rfl | hf
        · exact ⟨ha.name_ne, hkeep _ _ ha.name_ne (ha.hasFile ht)⟩
        · exact hfiles file hf
      · intro other bytes hn hf
        exact hkeep _ _ hn (ha.keeps ht hn hf)

theorem packWords_of_not_mem (b : Bytes) (ws : List Word) (h : a < s ∨ s + 4 * ws.length ≤ a) :
    packWords b s ws a = b a := by
  induction ws generalizing b s with
  | nil => rfl
  | cons w ws ih =>
    rw [List.length_cons] at h
    rw [packWords, ih _ (by omega)]
    exact overwrite_of_not_mem (by omega)

theorem packWords_word (b : Bytes) (s : Nat) (w : Word) (ws : List Word) :
    (packWords b s (w :: ws)).word s = w := by
  apply word_eq
  intro k hk
  rw [packWords, packWords_of_not_mem _ _ (by omega), overwrite_of_mem (by omega) (by omega),
    Nat.add_sub_cancel_left]

theorem emptyDisk_zero (sectors : Word) (h : 20 ≤ a) : emptyDisk sectors a = 0 :=
  packWords_of_not_mem _ _ (.inr h)

theorem emptyDisk_superblock {sectors : Word} (h : 2 < sectors) :
    Superblock (emptyDisk sectors) sectors ∧ (emptyDisk sectors).word 4 = sectors := by
  have hcount : (emptyDisk sectors).word 4 = sectors := packWords_word _ 4 sectors _
  refine ⟨⟨packWords_word _ 0 _ _, packWords_word _ 8 1 _, packWords_word _ 12 2 _,
    packWords_word _ 16 16 _, ?_, ?_⟩, hcount⟩
  · rw [hcount]
    exact BitVec.le_refl _
  · rwa [hcount]

theorem blank_tidy (h : blank size = .ok disk) : Tidy disk (fun _ => "") := by
  cases hs : checkSize size with
  | error e =>
    rw [blank, hs] at h
    cases h
  | ok u =>
    rw [blank, hs] at h
    cases h
    obtain ⟨hmod, hmin, hmax⟩ := checkSize_ok.1 hs
    have htwo : 2 < BitVec.ofNat 32 (size / 512) := by
      rw [BitVec.lt_def, BitVec.toNat_ofNat]
      change 2 < _
      omega
    obtain ⟨hsuper, hcount⟩ := emptyDisk_superblock htwo
    have hzero (i : Fin 16) : Entry.decode (emptyDisk (BitVec.ofNat 32 (size / 512)))
        (512 + 32 * i) = ⟨fun _ => 0, 0, 0, 0⟩ := by
      apply Entry.ext
      · funext k
        exact emptyDisk_zero _ (by omega)
      all_goals
        apply word_eq
        intro k hk
        rw [emptyDisk_zero _ (by omega)]
        simp [wordByte]
    refine ⟨hs, hsuper, ?_, ?_⟩
    · intro i
      change TidyEntry _ (Entry.decode _ _) _
      rw [hzero i]
      exact ⟨rfl, by decide, by decide, fun hn => absurd (encode_eq_nil.2 rfl) hn⟩
    · intro i j _ hi
      have h0 := (TinyProcessors.inUse_iff.1 hi).1
      change (Entry.decode _ _).name 0 ≠ 0 at h0
      rw [hzero i] at h0
      exact absurd rfl h0

end TinyProcessors.Mkfs
