import TinyProcessors.Fs.Allocation
import TinyProcessors.Fs.Mkfs
import TinyProcessors.Fs.Mount
import TinyProcessors.Fs.Store

namespace TinyProcessors

def Entry.contents (e : Entry) (image : Bytes) : List UInt8 :=
  image.slice (e.first.toNat * 512) e.size.toNat

def Io.Holds (io : Io) (i : Fin 16) : Slot → Prop
  | .free => (io.fs.directory i).name 0 = 0
  | .setAside => (io.fs.directory i).name 0 ≠ 0 ∧ io.fs.corrupt i = true
  | .file f => inUse io.fs i = true ∧ f.name = (io.fs.directory i).label ∧
      f.capacity = (io.fs.directory i).capacity.toNat ∧
      f.contents = (io.fs.directory i).contents io.disk.image

structure Represents (io : Io) (s : Store) : Prop where
  slots : ∀ i, io.Holds i (s.slots i)
  used : s.used = io.fs.used
  sectors : s.sectors = io.fs.sectors.toNat

theorem Io.Mounted.exists_store {io : Io} (hm : io.Mounted) : ∃ s, Represents io s := by
  have hslot : ∀ i, ∃ slot, io.Holds i slot := by
    intro i
    by_cases h0 : (io.fs.directory i).name 0 = 0
    · exact ⟨.free, h0⟩
    · cases hc : io.fs.corrupt i with
      | true => exact ⟨.setAside, h0, hc⟩
      | false =>
        have hu := inUse_iff.2 ⟨h0, hc⟩
        refine ⟨.file ⟨_, _, (io.fs.directory i).contents io.disk.image, ?_⟩, hu, rfl, rfl, rfl⟩
        rw [Entry.contents, slice_length]
        exact (hm.bounded hu).size
  choose slots hslots using hslot
  exact ⟨⟨slots, io.fs.used, io.fs.sectors.toNat⟩, hslots, rfl, rfl⟩

theorem Io.Holds.isFree_iff {io : Io} (h : io.Holds i slot) :
    slot.isFree = true ↔ (io.fs.directory i).name 0 = 0 := by
  cases slot with
  | free => exact ⟨fun _ => h, fun _ => rfl⟩
  | setAside => exact ⟨fun he => (nomatch he), fun he => absurd he h.1⟩
  | file f => exact ⟨fun he => (nomatch he), fun he => absurd he (inUse_iff.1 h.1).1⟩

theorem Io.Holds.file_iff {io : Io} (h : io.Holds i slot) :
    (∃ f, slot = .file f) ↔ inUse io.fs i = true := by
  cases slot with
  | free =>
    refine ⟨fun ⟨f, hf⟩ => (nomatch hf), fun hu => absurd h (inUse_iff.1 hu).1⟩
  | setAside =>
    refine ⟨fun ⟨f, hf⟩ => (nomatch hf), fun hu => ?_⟩
    have hc := (inUse_iff.1 hu).2
    rw [h.2] at hc
    cases hc
  | file f => exact ⟨fun _ => h.1, fun _ => ⟨f, rfl⟩⟩

theorem Io.Mounted.same_iff {io : Io} (hm : io.Mounted) (hu : inUse io.fs i = true)
    (hn : 0 ∉ name) :
    same (List.ofFn (io.fs.directory i).name) name = true ↔ (io.fs.directory i).label = name := by
  apply TinyProcessors.same_iff _ _ _ hn
  rw [List.mem_ofFn]
  exact ⟨19, (hm.bounded hu).name⟩

theorem Io.Holds.named_eq {io : Io} (hm : io.Mounted) (h : io.Holds i slot) (hn : 0 ∉ name) :
    slot.named name = answers io.fs name i := by
  rw [Bool.eq_iff_iff, answers_iff]
  cases slot with
  | free =>
    exact ⟨fun he => (nomatch he), fun ha => absurd h (inUse_iff.1 ha.1).1⟩
  | setAside =>
    refine ⟨fun he => (nomatch he), fun ha => ?_⟩
    have hc := (inUse_iff.1 ha.1).2
    rw [h.2] at hc
    cases hc
  | file f =>
    obtain ⟨hu, hname, -, -⟩ := h
    rw [hm.same_iff hu hn, Slot.named, decide_eq_true_eq, hname]
    exact ⟨fun he => ⟨hu, he⟩, fun he => he.2⟩

theorem Represents.lookup {io : Io} (hr : Represents io s) (hm : io.Mounted) (hn : 0 ∉ name) :
    s.find (Slot.named name) = lookup io.fs name := by
  apply congrArg (fun p => List.find? p (List.finRange 16))
  funext i
  exact (hr.slots i).named_eq hm hn

theorem Represents.vacancy {io : Io} (hr : Represents io s) (name : List UInt8) :
    s.vacancy name = vacancy io.fs name := by
  have hfind : s.find Slot.isFree = freeEntry io.fs := by
    apply congrArg (fun p => List.find? p (List.finRange 16))
    funext i
    rw [Bool.eq_iff_iff, (hr.slots i).isFree_iff, decide_eq_true_eq]
  rw [Store.vacancy, TinyProcessors.vacancy, hr.used, hr.sectors, hfind]

theorem Io.Holds.frame {io io' : Io} (h : io.Holds i slot)
    (hd : io'.fs.directory i = io.fs.directory i) (hc : io'.fs.corrupt i = io.fs.corrupt i)
    (hb : inUse io.fs i = true → (io.fs.directory i).contents io'.disk.image =
      (io.fs.directory i).contents io.disk.image) : io'.Holds i slot := by
  cases slot with
  | free =>
    change (io'.fs.directory i).name 0 = 0
    rw [hd]
    exact h
  | setAside =>
    change (io'.fs.directory i).name 0 ≠ 0 ∧ io'.fs.corrupt i = true
    rw [hd, hc]
    exact h
  | file f =>
    obtain ⟨hu, hname, hcap, hcontents⟩ := h
    refine ⟨?_, ?_, ?_, ?_⟩
    · rw [inUse_iff, hd, hc]
      exact inUse_iff.1 hu
    · rw [hd]
      exact hname
    · rw [hd]
      exact hcap
    · rw [hd, hb hu]
      exact hcontents

theorem Entry.Bounded.contents_congr {e : Entry} (hb : e.Bounded sectors)
    (h : ∀ a, e.first.toNat * 512 ≤ a → a < e.extentEnd * 512 → image' a = image a) :
    e.contents image' = e.contents image := by
  have hs := hb.size
  apply slice_congr
  intro k hk
  apply h
  · omega
  · rw [Entry.extentEnd]
    omega

theorem Fs.Disjoint.overwrite {fs : Fs} (hd : fs.Disjoint) (hne : i ≠ j)
    (hi : inUse fs i = true) (hj : inUse fs j = true)
    (hn : position + n ≤ (fs.directory j).capacity.toNat * 512)
    (hl : (fs.directory i).first.toNat * 512 ≤ a) (hr : a < (fs.directory i).extentEnd * 512) :
    Bytes.overwrite image ((fs.directory j).first.toNat * 512 + position) n src a = image a := by
  apply overwrite_of_not_mem
  have h := hd i j hne hi hj (a / 512)
  simp only [Entry.extentEnd] at h hr
  omega

theorem flushed_of_le (io : Io) (h : 1024 ≤ a) : io.flushed a = io.disk.image a :=
  overwrite_of_not_mem (by omega)

theorem Entry.Bounded.flushed_contents {e : Entry} (hb : e.Bounded sectors) (io : Io) :
    e.contents io.flushed = e.contents io.disk.image := by
  have hdata := hb.data
  apply hb.contents_congr
  intro a hl _
  exact flushed_of_le io (by omega)

theorem Fs.used_congr {fs fs' : Fs} (h : ∀ i, inUse fs' i = inUse fs i)
    (he : ∀ i, (fs'.directory i).extentEnd = (fs.directory i).extentEnd) : fs'.used = fs.used := by
  apply eq_of_forall_ge_iff
  intro bound
  simp only [Fs.used_le, h, he]

theorem Fs.Disjoint.congr {fs fs' : Fs} (hd : fs.Disjoint) (h : ∀ i, inUse fs' i = inUse fs i)
    (hf : ∀ i, (fs'.directory i).first = (fs.directory i).first)
    (hc : ∀ i, (fs'.directory i).capacity = (fs.directory i).capacity) : fs'.Disjoint := by
  intro i j hne hi hj
  simp only [Entry.extentEnd, hf, hc]
  exact hd i j hne (h i ▸ hi) (h j ▸ hj)

structure Io.Healthy (io : Io) : Prop where
  mounted : io.Mounted
  sound : io.disk.Sound
  disjoint : io.fs.Disjoint

theorem Io.With.healthy {io io' : Io} (hw : io.With m d io') (h : io.Healthy) : io'.Healthy where
  mounted := hw.isMounted h.mounted
  sound := hw.sound h.sound
  disjoint := h.disjoint.congr hw.inUse_eq (fun i => by rw [hw.directory])
    (fun i => by rw [hw.directory])

theorem Io.With.represents {io io' : Io} (hw : io.With m d io') (hr : Represents io s)
    (hb : ∀ i, inUse io.fs i = true → (io.fs.directory i).contents d =
      (io.fs.directory i).contents io.disk.image) : Represents io' s where
  slots := by
    intro i
    apply (hr.slots i).frame
    · rw [hw.directory]
    · rw [hw.corrupt]
    · rw [hw.image]
      exact hb i
  used := by
    rw [hr.used]
    exact (Fs.used_congr hw.inUse_eq (fun i => by rw [hw.directory])).symm
  sectors := by
    rw [hr.sectors, hw.sectors]

structure Entry.SameFile (e e' : Entry) : Prop where
  name : e'.name = e.name
  first : e'.first = e.first
  capacity : e'.capacity = e.capacity

theorem Entry.grown_sameFile (e : Entry) (position n : Nat) : e.SameFile (e.grown position n) :=
  ⟨e.grown_name position n, e.grown_first position n, e.grown_capacity position n⟩

section Resize

variable {io io' : Io} (hs : (io.fs.directory file).SameFile e)
  (hw : (io.setEntry file e).With m d io')
include hs hw

theorem Io.With.sameFile (i : Fin 16) : (io.fs.directory i).SameFile (io'.fs.directory i) := by
  rw [hw.directory, setEntry_directory]
  by_cases h : i = file
  · subst h
    rwa [Function.update_self]
  · rw [Function.update_of_ne h]
    exact ⟨rfl, rfl, rfl⟩

theorem Io.With.sameFile_inUse (i : Fin 16) : inUse io'.fs i = inUse io.fs i := by
  rw [hw.inUse_eq, inUse_setEntry hs.name]

theorem Represents.resize (hr : Represents io s) (hf : s.slots file = .file f) (f' : File)
    (hothers : ∀ i, i ≠ file → inUse io.fs i = true → (io.fs.directory i).contents d =
      (io.fs.directory i).contents io.disk.image)
    (hn : f'.name = f.name) (hc : f'.capacity = f.capacity) (hd : f'.contents = e.contents d) :
    Represents io' (s.set file (.file f')) where
  slots := by
    intro i
    by_cases h : i = file
    · subst h
      have hslot := hr.slots i
      rw [hf] at hslot
      obtain ⟨hu, hfname, hfcap, -⟩ := hslot
      have he : io'.fs.directory i = e := by
        rw [hw.directory, setEntry_directory, Function.update_self]
      rw [Store.set_slots_self]
      refine ⟨?_, ?_, ?_, ?_⟩
      · rw [hw.sameFile_inUse hs, hu]
      · rw [hn, hfname, he, Entry.label, Entry.label, hs.name]
      · rw [hc, hfcap, he, hs.capacity]
      · rw [hd, he, hw.image]
    · rw [Store.set_slots_of_ne s h]
      apply (hr.slots i).frame
      · rw [hw.directory, setEntry_directory, Function.update_of_ne h]
      · rw [hw.corrupt]
        rfl
      · rw [hw.image]
        exact hothers i h
  used := by
    refine hr.used.trans (Fs.used_congr (hw.sameFile_inUse hs) ?_).symm
    intro i
    have hi := hw.sameFile hs i
    rw [Entry.extentEnd, Entry.extentEnd, hi.first, hi.capacity]
  sectors := by
    rw [hw.sectors]
    exact hr.sectors

theorem Io.Healthy.resize (hh : io.Healthy) (hu : inUse io.fs file = true)
    (hb : e.Bounded io.fs.sectors.toNat) : io'.Healthy where
  mounted := hw.isMounted (hh.mounted.setEntry (inUse_iff.1 hu).2 hb)
  sound := hw.sound hh.sound
  disjoint := hh.disjoint.congr (hw.sameFile_inUse hs) (fun i => (hw.sameFile hs i).first)
    (fun i => (hw.sameFile hs i).capacity)

end Resize

structure Agrees (r : α × Io) (q : α × Store × Bytes) : Prop where
  reply : r.1 = q.1
  mem : r.2.mem = q.2.2
  represents : Represents r.2 q.2.1
  healthy : r.2.Healthy

theorem grown_contents {e : Entry} {image mem : Bytes} (hp : position ≤ e.size.toNat)
    (hlt : position + n < 2 ^ 32) :
    (e.grown position n).contents
        (image.overwrite (e.first.toNat * 512 + position) n (mem.window src)) =
      (e.contents image).take position ++ mem.slice src n ++
        (e.contents image).drop (position + n) := by
  have hsize : (e.grown position n).size.toNat = max e.size.toNat (position + n) := by
    rw [e.grown_size hlt]
    split <;> omega
  have hbytes : Bytes.slice (mem.window src) 0 n = mem.slice src n := by
    apply slice_congr
    intro i _
    rw [Nat.zero_add, window_apply]
  rw [Entry.contents, Entry.grown_first, hsize, slice_overwrite _ _ _ _ _ _ hp, hbytes]
  rfl

theorem Represents.file_contents {io : Io} (hr : Represents io s) (hf : s.slots i = .file f) :
    f.name = (io.fs.directory i).label ∧ f.contents.length = (io.fs.directory i).size.toNat := by
  have hslot := hr.slots i
  rw [hf] at hslot
  refine ⟨hslot.2.1, ?_⟩
  rw [hslot.2.2.2, Entry.contents, slice_length]

theorem Represents.nameScan_eq {io : Io} (hr : Represents io s) (l : List (Fin 16)) (index : Nat) :
    ((nameScan io.fs l index).map fun i =>
        ((io.fs.directory i).label, (io.fs.directory i).size.toNat)) =
      (l.filterMap fun i => (s.slots i).file?)[index]?.map fun f =>
        (f.name, f.contents.length) := by
  induction l generalizing index with
  | nil => simp only [nameScan, List.filterMap_nil, List.getElem?_nil, Option.map_none]
  | cons i l ih =>
    rw [nameScan, List.filterMap_cons]
    cases hu : inUse io.fs i with
    | false =>
      have hnone : (s.slots i).file? = none := by
        cases hf : s.slots i with
        | file f =>
          rw [(hr.slots i).file_iff.1 ⟨f, hf⟩] at hu
          cases hu
        | free => rfl
        | setAside => rfl
      rw [hnone]
      exact ih index
    | true =>
      obtain ⟨f, hf⟩ := (hr.slots i).file_iff.2 hu
      obtain ⟨hname, hlen⟩ := hr.file_contents hf
      rw [hf]
      cases index with
      | zero =>
        simp only [if_true, Option.map_some, Slot.file?, List.getElem?_cons_zero, hname, hlen]
      | succ index => exact ih index

section Calls

variable {io : Io} (hh : io.Healthy) (hr : Represents io s)
include hh hr

theorem fsTruncate_agrees (hf : s.slots file = .file f) :
    Agrees (io.call (.fsTruncate file)) (s.call io.mem (.fsTruncate file)) := by
  have hu : inUse io.fs file = true := (hr.slots file).file_iff.1 ⟨f, hf⟩
  have hb := hh.mounted.bounded hu
  have hset : s.update file File.truncate = s.set file (.file f.truncate) := by
    rw [Store.update, hf]
    rfl
  have hs : (io.fs.directory file).SameFile { io.fs.directory file with size := 0 } :=
    ⟨rfl, rfl, rfl⟩
  have hw := Io.With.refl (fsTruncate io file)
  refine ⟨rfl, rfl, ?_, ?_⟩
  · change Represents (fsTruncate io file) (s.update file File.truncate)
    rw [hset]
    exact hr.resize hs hw hf f.truncate (fun _ _ _ => rfl) rfl rfl rfl
  · exact hh.resize hs hw hu ⟨hb.data, hb.extent, Nat.zero_le _, hb.limit, hb.name⟩

theorem fsWrite_agrees (src : Nat) (length : Word) (hf : s.slots file = .file f)
    (hp : position.toNat ≤ f.contents.length) :
    Agrees (io.call (.fsWrite file position src length))
      (s.call io.mem (.fsWrite file position src length)) := by
  have hslot := hr.slots file
  rw [hf] at hslot
  obtain ⟨hu, -, hcap, hcontents⟩ := hslot
  have hb := hh.mounted.bounded hu
  rw [hcontents, Entry.contents, slice_length] at hp
  obtain ⟨io', hrun, hw⟩ := fsWrite_spec io src hh.mounted hh.sound hu position length
  have hroom : f.room position.toNat length.toNat =
      writeCount (io.fs.directory file) position.toNat length.toNat := by
    rw [File.room, hcap, writeCount]
  have hlen : writeCount (io.fs.directory file) position.toNat length.toNat ≤ length.toNat :=
    Nat.min_le_left _ _
  have hle : position.toNat + writeCount (io.fs.directory file) position.toNat length.toNat ≤
      (io.fs.directory file).capacity.toNat * 512 := by
    have hsize := hb.size
    rw [writeCount]
    omega
  generalize writeCount (io.fs.directory file) position.toNat length.toNat = n at *
  have hset : s.update file (·.write position.toNat (io.mem.slice src length.toNat)) =
      s.set file (.file (f.write position.toNat (io.mem.slice src length.toNat))) := by
    rw [Store.update, hf]
    rfl
  have hs := (io.fs.directory file).grown_sameFile position.toNat n
  simp only [Io.call, Store.call, hrun, hf, hroom, hset]
  refine ⟨rfl, hw.mem, ?_, hh.resize hs hw hu (hb.grown hle)⟩
  refine hr.resize hs hw hf (f.write position.toNat (io.mem.slice src length.toNat)) ?_ rfl rfl ?_
  · intro i hne hi
    apply (hh.mounted.bounded hi).contents_congr
    intro a hl hr'
    exact hh.disjoint.overwrite hne hi hu hle hl hr'
  · have hlt := ((io.fs.directory file).capacity * 512).isLt
    rw [hb.limit] at hlt
    have htake : (io.mem.slice src length.toNat).take n = io.mem.slice src n := by
      have h := slice_drop_take io.mem src length.toNat 0 n
      rwa [List.drop_zero, Nat.add_zero, Nat.sub_zero, Nat.min_eq_left hlen] at h
    rw [grown_contents hp (Nat.lt_of_le_of_lt hle hlt), ← hcontents, ← htake]
    simp only [File.write, slice_length, hroom]

theorem fsRead_agrees (position : Word) (dst : Nat) (length : Word) (hf : s.slots file = .file f) :
    Agrees (io.call (.fsRead file position dst length))
      (s.call io.mem (.fsRead file position dst length)) := by
  have hslot := hr.slots file
  rw [hf] at hslot
  obtain ⟨hu, -, -, hcontents⟩ := hslot
  obtain ⟨io', hrun, hw⟩ := fsRead_spec io dst hh.mounted hh.sound hu position length
  have hbytes : f.read position.toNat length.toNat = io.disk.image.slice
      ((io.fs.directory file).first.toNat * 512 + position.toNat)
      (readCount (io.fs.directory file) position.toNat length.toNat) := by
    rw [File.read, hcontents, Entry.contents, slice_drop_take, readCount]
  simp only [Io.call, Store.call, hrun, hf, hbytes, slice_length]
  refine ⟨rfl, ?_, hw.represents hr (fun _ _ => rfl), hw.healthy hh⟩
  rw [hw.mem]
  apply overwrite_congr
  intro i hi
  rw [window_apply, ofList_slice _ _ _ _ hi]

theorem fsFlush_agrees : Agrees (io.call .fsFlush) (s.call io.mem .fsFlush) := by
  obtain ⟨io', hrun, hw⟩ := fsFlush_spec io hh.mounted hh.sound
  simp only [Io.call, Store.call, hrun]
  refine ⟨rfl, hw.mem, hw.represents hr ?_, hw.healthy hh⟩
  intro i hi
  exact (hh.mounted.bounded hi).flushed_contents io

theorem fsSize_agrees (hf : s.slots file = .file f) :
    Agrees (io.call (.fsSize file)) (s.call io.mem (.fsSize file)) := by
  have hslot := hr.slots file
  rw [hf] at hslot
  refine ⟨?_, rfl, hr, hh⟩
  simp only [Io.call, Store.call, fsSize, hf, Slot.file?, Option.map_some, Option.getD_some]
  rw [hslot.2.2.2, Entry.contents, slice_length]

theorem Created.represents (hc : Created io name i first io') (h0 : 0 ∉ name) (hne : name ≠ []) :
    Represents io' { s.set i (.file (File.new name)) with used := s.used + 8 } where
  slots := by
    intro j
    by_cases h : j = i
    · subst h
      change io'.Holds j ((s.set j (.file (File.new name))).slots j)
      rw [Store.set_slots_self]
      refine ⟨hc.inUse_self hh.mounted h0 hne, ?_, ?_, ?_⟩
      · rw [hc.self]
        exact (cstring_ofFn_ofList name (vacancy_spec hc.vacancy).1 h0).symm
      · rw [hc.self]
        rfl
      · rw [hc.self]
        rfl
    · change io'.Holds j ((s.set i (.file (File.new name))).slots j)
      rw [Store.set_slots_of_ne s h]
      apply (hr.slots j).frame (hc.other h) (congrFun hc.corrupt j)
      intro hj
      rw [hc.after.image]
      exact (hh.mounted.bounded hj).flushed_contents _
  used := (congrArg (· + 8) hr.used).trans (hc.used (hc.inUse_self hh.mounted h0 hne)).symm
  sectors := hr.sectors.trans (congrArg BitVec.toNat hc.after.sectors).symm

omit hr in
theorem Created.healthy (hc : Created io name i first io') : io'.Healthy where
  mounted := hc.isMounted hh.mounted
  sound := hc.after.sound hh.sound
  disjoint := by
    apply hh.disjoint.extend (fun j h => hc.other h) (fun j h => hc.inUse_other h)
    rw [hc.self]
    exact Nat.le_of_eq hc.start.symm

theorem fsOpen_agrees (create : Bool) (h0 : 0 ∉ name) :
    Agrees (io.call (.fsOpen name create)) (s.call io.mem (.fsOpen name create)) := by
  by_cases hne : name = []
  · subst hne
    have hopen : fsOpen io [] create = (none, io) := by
      simp only [fsOpen, decide_true, Bool.or_true, if_true]
    simp only [Io.call, Store.call, Store.openFile, hopen, if_true]
    exact ⟨rfl, rfl, hr, hh⟩
  · have hl := hr.lookup hh.mounted h0
    rcases fsOpen_spec io hh.mounted hh.sound name create hne with
      ⟨i, hi, hopen⟩ | ⟨hi, hfail, hopen⟩ | ⟨i, first, io', hi, hcreate, hc, hopen⟩
    · rw [hi] at hl
      simp only [Io.call, Store.call, Store.openFile, hopen, hne, if_false, hl]
      exact ⟨rfl, rfl, hr, hh⟩
    · rw [hi] at hl
      have hnone : (if create = true then s.vacancy name else none) = none := by
        rcases hfail with hfail | hfail
        · rw [hfail]
          rfl
        · rw [hr.vacancy, hfail, ite_self]
      simp only [Io.call, Store.call, Store.openFile, hopen, hne, if_false, hl, hnone]
      exact ⟨rfl, rfl, hr, hh⟩
    · rw [hi] at hl
      have hsome : (if create = true then s.vacancy name else none) = some i := by
        rw [hcreate, if_pos rfl, hr.vacancy, hc.vacancy]
      simp only [Io.call, Store.call, Store.openFile, hopen, hne, if_false, hl, hsome]
      exact ⟨rfl, hc.after.mem, hc.represents hh hr h0 hne, hc.healthy hh⟩

theorem fsName_agrees (index : Word) :
    Agrees (io.call (.fsName index)) (s.call io.mem (.fsName index)) := by
  refine ⟨?_, rfl, hr, hh⟩
  simp only [Io.call, Store.call, fsName, hh.mounted.mounted, if_true, Option.map_map]
  exact congrArg Reply.entry (hr.nameScan_eq (List.finRange 16) index.toNat)

theorem Io.Healthy.call_agrees (hl : c.Legal s) : Agrees (io.call c) (s.call io.mem c) := by
  cases c with
  | fsOpen name create => exact fsOpen_agrees hh hr create hl
  | fsTruncate file =>
    obtain ⟨f, hf⟩ := hl
    exact fsTruncate_agrees hh hr hf
  | fsWrite file position src length =>
    obtain ⟨f, hf, hp⟩ := hl
    exact fsWrite_agrees hh hr src length hf hp
  | fsRead file position dst length =>
    obtain ⟨f, hf⟩ := hl
    exact fsRead_agrees hh hr position dst length hf
  | fsSize file =>
    obtain ⟨f, hf⟩ := hl
    exact fsSize_agrees hh hr hf
  | fsName index => exact fsName_agrees hh hr index
  | fsFlush => exact fsFlush_agrees hh hr

end Calls

theorem Io.Healthy.run_agrees {io : Io} (hh : io.Healthy) (hr : Represents io s)
    (hl : LegalRun s io.mem calls) : Agrees (io.run calls) (s.run io.mem calls) := by
  induction calls generalizing io s with
  | nil => exact ⟨rfl, rfl, hr, hh⟩
  | cons c calls ih =>
    have hc := hh.call_agrees hr hl.1
    have hrest := hl.2
    rw [← hc.mem] at hrest
    have h := ih hc.healthy hc.represents hrest
    rw [hc.mem] at h
    exact ⟨congrArg₂ List.cons hc.reply h.reply, h.mem, h.represents, h.healthy⟩

theorem Remount.healthy {io io' : Io} (h : Remount io io') (hm : io'.Mounted)
    (hd : io'.fs.Disjoint) : io'.Healthy := ⟨hm, h.sound, hd⟩

/-- Every sequence of calls is answered as the store of named byte strings answers it. -/
theorem tfs_refines_store (io : Io) (hs : io.disk.Sound)
    (hm : (fsMount io io.disk.capacity).1 = true)
    (hd : (fsMount io io.disk.capacity).2.fs.Disjoint) :
    ∃ s, Represents (fsMount io io.disk.capacity).2 s ∧ ∀ calls, LegalRun s io.mem calls →
      ((fsMount io io.disk.capacity).2.run calls).1 = (s.run io.mem calls).1 ∧
      ((fsMount io io.disk.capacity).2.run calls).2.mem = (s.run io.mem calls).2.2 ∧
      Represents ((fsMount io io.disk.capacity).2.run calls).2 (s.run io.mem calls).2.1 ∧
      ∀ c i f, c.Legal (s.run io.mem calls).2.1 → (s.run io.mem calls).2.1.slots i = .file f →
        c.file ≠ some i →
        (((fsMount io io.disk.capacity).2.run calls).2.call c).2.Holds i (.file f) := by
  have hmounted := fsMount_mounted io hm
  have hremount := (fsMount_sound io hs).2 hm
  obtain ⟨s, hr⟩ := hmounted.exists_store
  refine ⟨s, hr, fun calls hl => ?_⟩
  rw [← hremount.mem] at hl
  have h := (hremount.healthy hmounted hd).run_agrees hr hl
  rw [hremount.mem] at h
  refine ⟨h.reply, h.mem, h.represents, fun c i f hc hf hne => ?_⟩
  have hstep := (h.healthy.call_agrees h.represents hc).represents.slots i
  rw [Store.call_frame _ _ c hf hne] at hstep
  exact hstep

def emptyIo : Io := Io.boot (Mkfs.emptyDisk 16) 8192

theorem Io.boot_sound (image : Bytes) (size : Word) : (Io.boot image size).disk.Sound :=
  ⟨rfl, fun _ => rfl⟩

theorem emptyIo_unused (i : Fin 16) :
    inUse (fsMount emptyIo emptyIo.disk.capacity).2.fs i = false := by
  revert i
  decide

theorem tfs_refines_store_empty :
    ∃ s, Represents (fsMount emptyIo emptyIo.disk.capacity).2 s ∧
      ((fsMount emptyIo emptyIo.disk.capacity).2.run [.fsOpen [97] true, .fsFlush]).1 =
        (s.run emptyIo.mem [.fsOpen [97] true, .fsFlush]).1 := by
  have hd : (fsMount emptyIo emptyIo.disk.capacity).2.fs.Disjoint := by
    intro i j _ hi
    rw [emptyIo_unused i] at hi
    cases hi
  obtain ⟨s, hr, hrun⟩ := tfs_refines_store emptyIo (Io.boot_sound _ _) (by decide) hd
  have hname : (0 : UInt8) ∉ [97] := by decide
  exact ⟨s, hr, (hrun [.fsOpen [97] true, .fsFlush] ⟨hname, trivial, trivial⟩).1⟩

end TinyProcessors
