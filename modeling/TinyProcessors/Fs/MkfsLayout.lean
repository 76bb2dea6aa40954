import TinyProcessors.Fs.Effects

namespace TinyProcessors.Mkfs

theorem decode_encode (name : String) : decode (encode name) = some name := by
  have hv : (⟨(encode name).toArray⟩ : ByteArray).IsValidUTF8 := by
    simpa [encode] using name.isValidUTF8
  rw [decode, String.fromUTF8?, dif_pos hv]
  simp [encode, String.fromUTF8]

theorem encode_inj (h : encode a = encode b) : a = b := by
  have hd := decode_encode a
  rw [h, decode_encode] at hd
  exact (Option.some.inj hd).symm

theorem encode_eq_nil : encode name = [] ↔ name = "" := by
  constructor
  · intro h
    exact encode_inj (h.trans (by rfl))
  · rintro rfl
    rfl

theorem rdropWhile_append_zeros (l : List UInt8) (h : 0 ∉ l) (n : Nat) :
    (l ++ List.replicate n 0).rdropWhile (· = 0) = l := by
  induction n with
  | zero =>
    rw [List.replicate_zero, List.append_nil, List.rdropWhile_eq_self_iff]
    intro hl hz
    exact h ((of_decide_eq_true hz) ▸ List.getLast_mem hl)
  | succ n ih =>
    rw [List.replicate_succ', ← List.append_assoc, List.rdropWhile_concat_pos _ _ _ (by rfl), ih]

/-- An entry as both sides write it. -/
structure TidyEntry (sectors : Nat) (e : Entry) (name : List UInt8) : Prop where
  field : e.name = fun k : Fin 20 => Bytes.ofList name k
  short : name.length < 20
  noNul : 0 ∉ name
  bounded : name ≠ [] → e.Bounded sectors

theorem TidyEntry.label (h : TidyEntry sectors e name) : e.label = name := by
  rw [Entry.label, h.field]
  exact cstring_ofFn_ofList _ h.short h.noNul

theorem TidyEntry.name_zero (h : TidyEntry sectors e name) : e.name 0 = 0 ↔ name = [] := by
  rw [h.field]
  have hn := h.noNul
  cases name with
  | nil => exact ⟨fun _ => rfl, fun _ => rfl⟩
  | cons x l => exact ⟨fun hx => absurd (hx ▸ List.mem_cons_self) hn, fun hx => (nomatch hx)⟩

theorem TidyEntry.rstrip (h : TidyEntry sectors e name) :
    (List.ofFn e.name).rdropWhile (· = 0) = name := by
  rw [h.field, ofFn_ofList _ (Nat.le_of_lt h.short), rdropWhile_append_zeros _ h.noNul]

theorem TidyEntry.not_corrupt {sectors : Word} (h : TidyEntry sectors.toNat e name) :
    entryCorrupt sectors e = false := by
  by_cases hn : name = []
  · simp only [entryCorrupt, h.name_zero.2 hn, ne_eq, not_true_eq_false, decide_false,
      Bool.false_and]
  · exact (h.bounded hn).not_corrupt

def Image.entry (disk : Image) (i : Fin 16) : Entry := Entry.decode disk.bytes (512 + 32 * i)

def Image.fs (disk : Image) : Fs where
  directory := disk.entry
  corrupt := fun i => entryCorrupt (disk.bytes.word 4) (disk.entry i)
  sectorBuffer := fun _ => 0
  sectors := disk.bytes.word 4
  mounted := true

structure Tidy (disk : Image) (names : Fin 16 → String) : Prop where
  size : checkSize disk.size = .ok ()
  superblock : Superblock disk.bytes (BitVec.ofNat 32 (disk.size / 512))
  entries : ∀ i, TidyEntry (disk.bytes.word 4).toNat (disk.entry i) (encode (names i))
  disjoint : disk.fs.Disjoint

theorem checkSize_ok : checkSize size = .ok () ↔ size % 512 = 0 ∧ 1536 ≤ size ∧ size ≤ 0x800000 := by
  unfold checkSize
  split
  next h => exact ⟨fun he => (nomatch he), fun he => by omega⟩
  next h => exact ⟨fun _ => by omega, fun _ => rfl⟩

def Image.row (disk : Image) (name : String) (i : Fin 16) : Row :=
  ⟨name, (disk.entry i).first.toNat, (disk.entry i).capacity.toNat, (disk.entry i).size.toNat⟩

def Image.rows (disk : Image) (names : Fin 16 → String) (l : List (Fin 16)) : List Row :=
  l.flatMap fun i => if names i = "" then [] else [disk.row (names i) i]

theorem Image.rows_cons (disk : Image) (names : Fin 16 → String) (i : Fin 16) (l : List (Fin 16)) :
    disk.rows names (i :: l) =
      (if names i = "" then none else some (disk.row (names i) i)).toList ++ disk.rows names l := by
  rw [Image.rows, List.flatMap_cons]
  split <;> rfl

theorem Image.any_rows (disk : Image) (names : Fin 16 → String) (hne : name ≠ "") :
    ((disk.rows names (List.finRange 16)).any fun row => row.name = name) = true ↔
      ∃ i, names i = name := by
  rw [List.any_eq_true]
  constructor
  · rintro ⟨row, hrow, hname⟩
    obtain ⟨i, -, hi⟩ := List.mem_flatMap.1 hrow
    refine ⟨i, ?_⟩
    by_cases hn : names i = ""
    · rw [if_pos hn] at hi
      cases hi
    · rw [if_neg hn, List.mem_singleton] at hi
      rw [hi, decide_eq_true_eq] at hname
      exact hname
  · rintro ⟨i, rfl⟩
    refine ⟨disk.row (names i) i, List.mem_flatMap.2 ⟨i, List.mem_finRange i, ?_⟩, decide_eq_true rfl⟩
    rw [if_neg hne]
    exact List.mem_singleton_self _

theorem Image.find_rows (disk : Image) (names : Fin 16 → String) (hne : name ≠ "")
    (l : List (Fin 16)) :
    (disk.rows names l).find? (fun row => row.name = name) =
      (l.find? fun i => decide (names i = name)).map fun i => disk.row name i := by
  induction l with
  | nil => rfl
  | cons i l ih =>
    rw [Image.rows_cons, List.find?_cons]
    by_cases hi : names i = name
    · rw [if_neg (hi ▸ hne), decide_eq_true hi, hi]
      exact List.find?_cons_of_pos (decide_eq_true rfl)
    · rw [decide_eq_false hi, ← ih]
      by_cases hn : names i = ""
      · rw [if_pos hn]
        rfl
      · rw [if_neg hn]
        exact List.find?_cons_of_neg (fun h => hi (of_decide_eq_true h))

section Tidy

variable {disk : Image} (ht : Tidy disk names)
include ht

theorem Tidy.sectors_le : (disk.bytes.word 4).toNat ≤ disk.size / 512 := by
  have h := BitVec.le_def.1 ht.superblock.fits
  rw [BitVec.toNat_ofNat] at h
  exact Nat.le_trans h (Nat.mod_le _ _)

theorem Tidy.check : check disk = .ok () := by
  obtain ⟨h0, h8, h12, h16, hfits, hroom⟩ := ht.superblock
  have hroom' : 2 < (disk.bytes.word 4).toNat := BitVec.lt_def.1 hroom
  simp only [Mkfs.check, ht.size, h0, h8, h12, h16, ht.sectors_le, hroom', ne_eq,
    not_true_eq_false, and_self, or_self, if_false]
  rfl

theorem Tidy.sectorCount : sectorCount disk = .ok (disk.bytes.word 4).toNat := by
  simp only [Mkfs.sectorCount, ht.check]
  rfl

theorem Tidy.entryRow (i : Fin 16) :
    entryRow disk (disk.bytes.word 4).toNat i =
      .ok (if names i = "" then none else some (disk.row (names i) i)) := by
  have he := ht.entries i
  have hd := he.rstrip
  simp only [Image.entry] at hd
  simp only [Mkfs.entryRow, hd, decode_encode]
  split
  · rfl
  next hn =>
    have hb := he.bounded (encode_eq_nil.not.2 hn)
    have hfits : ¬ ((Entry.decode disk.bytes (512 + 32 * i)).first.toNat < 2 ∨
        (Entry.decode disk.bytes (512 + 32 * i)).first.toNat +
          (Entry.decode disk.bytes (512 + 32 * i)).capacity.toNat > (disk.bytes.word 4).toNat ∨
        (Entry.decode disk.bytes (512 + 32 * i)).size.toNat >
          (Entry.decode disk.bytes (512 + 32 * i)).capacity.toNat * 512) := by
      rintro (h | h | h)
      · exact Nat.not_lt.2 hb.data h
      · exact Nat.not_lt.2 hb.extent h
      · exact Nat.not_lt.2 hb.size h
    rw [if_neg hfits]
    rfl

theorem Tidy.entryRows (l : List (Fin 16)) :
    entryRows disk (disk.bytes.word 4).toNat l = .ok (disk.rows names l) := by
  induction l with
  | nil => rfl
  | cons i l ih =>
    rw [Mkfs.entryRows, ht.entryRow i, ih]
    exact congrArg Except.ok (disk.rows_cons names i l).symm

theorem Tidy.entries_eq : Mkfs.entries disk = .ok (disk.rows names (List.finRange 16)) := by
  rw [Mkfs.entries, ht.sectorCount]
  exact ht.entryRows (List.finRange 16)

theorem Tidy.not_corrupt (i : Fin 16) : disk.fs.corrupt i = false := (ht.entries i).not_corrupt

theorem Tidy.inUse_iff (i : Fin 16) : inUse disk.fs i = true ↔ names i ≠ "" := by
  rw [TinyProcessors.inUse_iff, ne_eq, ne_eq, ← encode_eq_nil, ← (ht.entries i).name_zero]
  exact ⟨fun h => h.1, fun h => ⟨h, ht.not_corrupt i⟩⟩

theorem Tidy.bounded (h : names i ≠ "") : (disk.entry i).Bounded (disk.bytes.word 4).toNat :=
  (ht.entries i).bounded (encode_eq_nil.not.2 h)

theorem Tidy.usedBy_eq (l : List (Fin 16)) (next : Nat) :
    (disk.rows names l).foldl (fun m row => max m (row.first + row.capacity)) next =
      disk.fs.usedBy l next := by
  induction l generalizing next with
  | nil => rfl
  | cons i l ih =>
    rw [Image.rows_cons, List.foldl_append, Fs.usedBy]
    by_cases hn : names i = ""
    · have hu : inUse disk.fs i = false := by
        rw [← Bool.not_eq_true, ht.inUse_iff i, not_not]
        exact hn
      rw [if_pos hn, hu]
      exact ih next
    · rw [if_neg hn, (ht.inUse_iff i).2 hn]
      exact ih _

end Tidy

theorem capacityFor_spec (capacity : Int) (data : List UInt8) :
    data.length ≤ capacityFor capacity data * 512 := by
  have h : ((data.length + 511) / 512 : Nat) ≤ capacityFor capacity data := by
    rw [capacityFor]
    omega
  omega

/-- An accepted `add`: a new name, in the first free slot, after the last extent. -/
structure Added (disk : Image) (names : Fin 16 → String) (name : String) (data : List UInt8)
    (capacity : Nat) (i : Fin 16) (disk' : Image) : Prop where
  length : 0 < (encode name).length ∧ (encode name).length < 20
  fresh : ∀ j, names j ≠ name
  fits : disk.fs.used + capacity ≤ (disk.bytes.word 4).toNat
  holds : data.length ≤ capacity * 512
  free : freeEntry disk.fs = some i
  after : disk' = disk.put i name disk.fs.used capacity data

theorem Tidy.add_spec {disk : Image} (ht : Tidy disk names)
    (h : add disk name data capacity = .ok disk') :
    ∃ i, Added disk names name data (capacityFor capacity data) i disk' := by
  have hused := ht.usedBy_eq (List.finRange 16) 2
  unfold add at h
  split at h
  · cases h
  next hl =>
    rw [not_not] at hl
    have hne : name ≠ "" := by
      rintro rfl
      exact absurd hl.1 (by decide)
    rw [ht.entries_eq, ht.sectorCount] at h
    simp only [bind, Except.bind, hused] at h
    split at h
    · cases h
    next hfresh =>
      rw [disk.any_rows names hne] at hfresh
      split at h
      · cases h
      next hfits =>
        split at h
        · cases h
        next i hfree =>
          cases h
          exact ⟨i, hl, fun j hj => hfresh ⟨j, hj⟩, Nat.not_lt.1 hfits, capacityFor_spec capacity data,
            hfree, rfl⟩

end TinyProcessors.Mkfs
