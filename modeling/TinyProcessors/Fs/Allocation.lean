import TinyProcessors.Fs.Transfers

namespace TinyProcessors

def Entry.extentEnd (e : Entry) : Nat := e.first.toNat + e.capacity.toNat

def Fs.usedBy (fs : Fs) : List (Fin 16) → Nat → Nat
  | [], next => next
  | i :: l, next =>
    fs.usedBy l (if inUse fs i then max next (fs.directory i).extentEnd else next)

def Fs.used (fs : Fs) : Nat := fs.usedBy (List.finRange 16) 2

theorem Fs.usedBy_le (fs : Fs) (l : List (Fin 16)) (next bound : Nat) :
    fs.usedBy l next ≤ bound ↔
      next ≤ bound ∧ ∀ i ∈ l, inUse fs i = true → (fs.directory i).extentEnd ≤ bound := by
  induction l generalizing next with
  | nil => simp [Fs.usedBy]
  | cons i l ih =>
    rw [Fs.usedBy, ih, List.forall_mem_cons]
    by_cases hi : inUse fs i = true
    · simp only [hi, if_true, Nat.max_le, forall_const, and_assoc]
    · simp only [hi, if_false, false_implies, true_and, Bool.false_eq_true]

theorem Fs.used_le (fs : Fs) (bound : Nat) :
    fs.used ≤ bound ↔ 2 ≤ bound ∧ ∀ i, inUse fs i = true → (fs.directory i).extentEnd ≤ bound := by
  rw [Fs.used, Fs.usedBy_le]
  simp only [List.mem_finRange, forall_const]

theorem Fs.two_le_used (fs : Fs) : 2 ≤ fs.used := ((fs.used_le _).1 (Nat.le_refl _)).1

theorem Fs.extentEnd_le_used {fs : Fs} (h : inUse fs i = true) :
    (fs.directory i).extentEnd ≤ fs.used := ((fs.used_le _).1 (Nat.le_refl _)).2 i h

theorem Io.Mounted.used_le {io : Io} (hm : io.Mounted) : io.fs.used ≤ io.fs.sectors.toNat := by
  rw [Fs.used_le]
  exact ⟨Nat.le_of_lt hm.data, fun i hi => (hm.bounded hi).extent⟩

def answers (fs : Fs) (name : List UInt8) (i : Fin 16) : Bool :=
  inUse fs i && same (List.ofFn (fs.directory i).name) name

def lookup (fs : Fs) (name : List UInt8) : Option (Fin 16) :=
  (List.finRange 16).find? (answers fs name)

def freeEntry (fs : Fs) : Option (Fin 16) :=
  (List.finRange 16).find? fun i => (fs.directory i).name 0 = 0

def vacancy (fs : Fs) (name : List UInt8) : Option (Fin 16) :=
  if name.length < 20 ∧ fs.used + 8 ≤ fs.sectors.toNat then freeEntry fs else none

theorem answers_iff : answers fs name i = true ↔
    inUse fs i = true ∧ same (List.ofFn (fs.directory i).name) name = true := by
  rw [answers, Bool.and_eq_true]

theorem openScan_found (fs : Fs) (l : List (Fin 16)) (free : Option (Fin 16)) (next : Word)
    (h : l.find? (answers fs name) = some i) : openScan fs name l free next = .inl i := by
  induction l generalizing free next with
  | nil => cases h
  | cons j l ih =>
    rw [openScan]
    by_cases hj : answers fs name j = true
    · rw [List.find?_cons_of_pos hj] at h
      cases h
      obtain ⟨hu, hs⟩ := answers_iff.1 hj
      obtain ⟨h0, hc⟩ := inUse_iff.1 hu
      simp only [h0, hc, hs, if_false, if_true, Bool.false_eq_true]
    · rw [List.find?_cons_of_neg hj] at h
      split
      · exact ih _ _ h
      · split
        · exact ih _ _ h
        · split
          next h0 hc hs =>
            exact absurd (answers_iff.2 ⟨inUse_iff.2 ⟨h0, Bool.eq_false_iff.2 hc⟩, hs⟩) hj
          · exact ih _ _ h

theorem openScan_none {io : Io} (hm : io.Mounted) (l : List (Fin 16)) (free : Option (Fin 16))
    (next : Word) (h : l.find? (answers io.fs name) = none) :
    ∃ next', openScan io.fs name l free next =
        .inr (free.or (l.find? fun i => (io.fs.directory i).name 0 = 0), next') ∧
      next'.toNat = io.fs.usedBy l next.toNat := by
  induction l generalizing free next with
  | nil => exact ⟨next, by simp [openScan], rfl⟩
  | cons j l ih =>
    obtain ⟨hj, hl⟩ : ¬ answers io.fs name j = true ∧ l.find? (answers io.fs name) = none := by
      simpa using h
    rw [openScan, Fs.usedBy]
    split
    next h0 =>
      have hu : inUse io.fs j = false := by simp [inUse, h0]
      obtain ⟨next', ho, hn⟩ := ih (free.or (some j)) next hl
      refine ⟨next', ?_, by simpa [hu] using hn⟩
      rw [ho, List.find?_cons_of_pos (by simpa using h0)]
      cases free <;> simp
    next h0 =>
      rw [List.find?_cons_of_neg (by simpa using h0)]
      split
      next hc =>
        have hu : inUse io.fs j = false := by simp [inUse, hc]
        obtain ⟨next', ho, hn⟩ := ih free next hl
        exact ⟨next', ho, by simpa [hu] using hn⟩
      next hc =>
        have hu : inUse io.fs j = true := by simp [inUse, h0, hc]
        split
        next hs => exact absurd (answers_iff.2 ⟨hu, hs⟩) hj
        next hs =>
          have hb := hm.bounded hu
          have hsec := hm.sectors_lt
          have hext := hb.extent
          have hend : ((io.fs.directory j).first + (io.fs.directory j).capacity).toNat =
              (io.fs.directory j).extentEnd := by
            rw [BitVec.toNat_add, Entry.extentEnd]
            exact Nat.mod_eq_of_lt (by omega)
          obtain ⟨next', ho, hn⟩ := ih free
            (if (io.fs.directory j).first + (io.fs.directory j).capacity > next
              then (io.fs.directory j).first + (io.fs.directory j).capacity else next) hl
          refine ⟨next', ho, ?_⟩
          rw [hn]
          congr 1
          split
          next hlt =>
            rw [gt_iff_lt, BitVec.lt_def, hend] at hlt
            omega
          next hlt =>
            rw [gt_iff_lt, BitVec.lt_def, hend] at hlt
            omega

def Io.flushed (io : Io) : Bytes :=
  io.disk.image.overwrite 512 512 (directoryBytes io.fs.directory)

theorem fsFlush_spec (io : Io) (hm : io.Mounted) (hs : io.disk.Sound) :
    ∃ io', fsFlush io = (true, io') ∧ io.With io.mem io.flushed io' := by
  have hfit := hm.fits
  have hdata := hm.data
  have h1 : (1 : Word).toNat = 1 := rfl
  have ht := hs.transferOut (by omega : (1 : Word).toNat + 1 ≤ _) (directoryBytes io.fs.directory)
  rw [h1, Nat.one_mul] at ht
  simp only [fsFlush, hm.mounted, if_true, ht]
  exact ⟨_, rfl, rfl, rfl, rfl, rfl, rfl, rfl, rfl, rfl, rfl⟩

theorem newEntry_bounded (name : List UInt8) (hl : name.length < 20) (hf : 2 ≤ first.toNat)
    (hs : first.toNat + 8 ≤ sectors) : (newEntry name first).Bounded sectors where
  data := hf
  extent := hs
  size := Nat.zero_le _
  limit := (by decide : ((8 : Word) * 512).toNat = (8 : Word).toNat * 512)
  name := ofList_of_le name 19 (by omega)

def Fs.Disjoint (fs : Fs) : Prop :=
  ∀ i j, i ≠ j → inUse fs i = true → inUse fs j = true → ∀ sector,
    ¬ ((fs.directory i).first.toNat ≤ sector ∧ sector < (fs.directory i).extentEnd ∧
      (fs.directory j).first.toNat ≤ sector ∧ sector < (fs.directory j).extentEnd)

theorem Fs.Disjoint.extend {fs fs' : Fs} (hd : fs.Disjoint)
    (hother : ∀ j, j ≠ i → fs'.directory j = fs.directory j)
    (huse : ∀ j, j ≠ i → inUse fs' j = inUse fs j)
    (hfirst : fs.used ≤ (fs'.directory i).first.toNat) : fs'.Disjoint := by
  have hfront {j : Fin 16} (h : j ≠ i) (hj : inUse fs' j = true) :
      (fs'.directory j).extentEnd ≤ (fs'.directory i).first.toNat := by
    rw [hother j h]
    exact Nat.le_trans (Fs.extentEnd_le_used (huse j h ▸ hj)) hfirst
  intro j k hjk hj hk sector
  by_cases h : j = i
  · subst h
    have hle := hfront hjk.symm hk
    omega
  · by_cases h' : k = i
    · subst h'
      have hle := hfront hjk hj
      omega
    · rw [hother j h, hother k h']
      exact hd j k hjk (huse j h ▸ hj) (huse k h' ▸ hk) sector

theorem vacancy_spec (h : vacancy fs name = some i) :
    name.length < 20 ∧ fs.used + 8 ≤ fs.sectors.toNat ∧ (fs.directory i).name 0 = 0 := by
  unfold vacancy at h
  split at h
  next hc =>
    exact ⟨hc.1, hc.2, by simpa using List.find?_some h⟩
  next => cases h

structure Created (io : Io) (name : List UInt8) (i : Fin 16) (first : Word) (io' : Io) : Prop where
  vacancy : vacancy io.fs name = some i
  start : first.toNat = io.fs.used
  after : (io.setEntry i (newEntry name first)).With io.mem
    (io.setEntry i (newEntry name first)).flushed io'

section Creation

variable {io io' : Io} {first : Word} (hc : Created io name i first io')
include hc

theorem Created.bounded : (newEntry name first).Bounded io.fs.sectors.toNat := by
  obtain ⟨hlen, hroom, -⟩ := vacancy_spec hc.vacancy
  exact newEntry_bounded name hlen (hc.start ▸ io.fs.two_le_used) (hc.start ▸ hroom)

theorem Created.self : io'.fs.directory i = newEntry name first := by
  rw [hc.after.directory, setEntry_directory, Function.update_self]

theorem Created.other (h : j ≠ i) : io'.fs.directory j = io.fs.directory j := by
  rw [hc.after.directory, setEntry_directory, Function.update_of_ne h]

theorem Created.corrupt : io'.fs.corrupt = io.fs.corrupt := hc.after.corrupt

theorem Created.inUse_other (h : j ≠ i) : inUse io'.fs j = inUse io.fs j := by
  rw [inUse, inUse, hc.other h, hc.corrupt]

theorem Created.isMounted (hm : io.Mounted) : io'.Mounted :=
  hc.after.isMounted (hm.setEntry (hm.free i (vacancy_spec hc.vacancy).2.2) hc.bounded)

theorem Created.inUse_self (hm : io.Mounted) (h0 : 0 ∉ name) (hne : name ≠ []) :
    inUse io'.fs i = true := by
  rw [inUse_iff, hc.self, hc.corrupt]
  refine ⟨?_, hm.free i (vacancy_spec hc.vacancy).2.2⟩
  cases name with
  | nil => exact absurd rfl hne
  | cons x l => exact fun he => h0 (he ▸ List.mem_cons_self)

theorem Created.extentEnd : (io'.fs.directory i).extentEnd = io.fs.used + 8 := by
  rw [hc.self, ← hc.start]
  rfl

theorem Created.used (hu : inUse io'.fs i = true) : io'.fs.used = io.fs.used + 8 := by
  apply eq_of_forall_ge_iff
  intro bound
  rw [Fs.used_le]
  constructor
  · intro h
    exact hc.extentEnd ▸ h.2 i hu
  · intro h
    refine ⟨Nat.le_trans io.fs.two_le_used (Nat.le_trans (Nat.le_add_right _ 8) h), ?_⟩
    intro j hj
    by_cases hji : j = i
    · rw [hji, hc.extentEnd]
      exact h
    · rw [hc.other hji]
      have hle := Fs.extentEnd_le_used (hc.inUse_other hji ▸ hj)
      omega

end Creation

theorem fsOpen_spec (io : Io) (hm : io.Mounted) (hs : io.disk.Sound) (name : List UInt8)
    (create : Bool) (hn : name ≠ []) :
    (∃ i, lookup io.fs name = some i ∧ fsOpen io name create = (some i, io)) ∨
    (lookup io.fs name = none ∧ (create = false ∨ vacancy io.fs name = none) ∧
      fsOpen io name create = (none, io)) ∨
    (∃ i first io', lookup io.fs name = none ∧ create = true ∧ Created io name i first io' ∧
      fsOpen io name create = (some i, io')) := by
  have hne : (!io.fs.mounted || decide (name = [])) = false := by simp [hm.mounted, hn]
  unfold fsOpen
  rw [hne]
  simp only [Bool.false_eq_true, if_false]
  cases hl : lookup io.fs name with
  | some i =>
    rw [openScan_found io.fs _ none 2 hl]
    exact .inl ⟨i, rfl, rfl⟩
  | none =>
    obtain ⟨next, ho, hnext⟩ := openScan_none hm (List.finRange 16) none 2 hl
    rw [ho, Option.none_or]
    have htwo : (2 : Word).toNat = 2 := rfl
    rw [htwo] at hnext
    change next.toNat = io.fs.used at hnext
    cases hfree : (List.finRange 16).find? fun i => decide ((io.fs.directory i).name 0 = 0) with
    | none =>
      refine .inr (.inl ⟨rfl, .inr ?_, rfl⟩)
      simp only [vacancy, freeEntry, hfree, ite_self]
    | some i =>
      have hsec := hm.sectors_lt
      have hused := hm.used_le
      have hfull : next + 8 > io.fs.sectors ↔ ¬ io.fs.used + 8 ≤ io.fs.sectors.toNat := by
        rw [gt_iff_lt, BitVec.lt_def, BitVec.toNat_add, hnext]
        change _ < (io.fs.used + 8) % 2 ^ 32 ↔ _
        omega
      dsimp only
      split
      next hc =>
        refine .inr (.inl ⟨rfl, ?_, rfl⟩)
        simp only [hfull, Bool.or_eq_true, Bool.not_eq_true', decide_eq_true_eq] at hc
        rcases hc with (hcr | hlen) | hroom
        · exact .inl hcr
        · exact .inr (if_neg fun hr => Nat.not_le.2 hr.1 hlen)
        · exact .inr (if_neg fun hr => hroom hr.2)
      next hc =>
        simp only [hfull, Bool.or_eq_true, Bool.not_eq_true', decide_eq_true_eq, not_or,
          Bool.not_eq_false, ge_iff_le, not_not] at hc
        obtain ⟨⟨hcr, hlen⟩, hroom⟩ := hc
        have hv : vacancy io.fs name = some i :=
          (if_pos ⟨Nat.not_le.1 hlen, hroom⟩).trans hfree
        have h0 : (io.fs.directory i).name 0 = 0 := (vacancy_spec hv).2.2
        have hb : (newEntry name next).Bounded io.fs.sectors.toNat :=
          newEntry_bounded name (Nat.not_le.1 hlen) (hnext ▸ io.fs.two_le_used) (hnext ▸ hroom)
        obtain ⟨io', hf, hw⟩ := fsFlush_spec _ (hm.setEntry (hm.free i h0) hb) hs
        rw [hf]
        exact .inr (.inr ⟨i, next, io', rfl, hcr, ⟨hv, hnext, hw⟩, rfl⟩)

theorem fsWrite_spec (io : Io) (src : Nat) (hm : io.Mounted) (hs : io.disk.Sound)
    (hu : inUse io.fs file = true) (position length : Word) :
    ∃ io', fsWrite io file position src length =
        (some (writeCount (io.fs.directory file) position.toNat length.toNat), io') ∧
      (io.setEntry file ((io.fs.directory file).grown position.toNat
        (writeCount (io.fs.directory file) position.toNat length.toNat))).With io.mem
        (io.disk.image.overwrite ((io.fs.directory file).first.toNat * 512 + position.toNat)
          (writeCount (io.fs.directory file) position.toNat length.toNat)
          (io.mem.window src)) io' := by
  have h := writeLoop_spec io src hm hs hu length.toNat 0 position.toNat (Nat.le_refl _)
    (hm.bounded hu).limit
  rwa [Nat.zero_add, Nat.sub_zero, Nat.add_zero] at h

end TinyProcessors
