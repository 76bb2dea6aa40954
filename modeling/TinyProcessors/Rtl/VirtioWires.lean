import TinyProcessors.Emu.Requests
import TinyProcessors.Rtl.VirtioBlk

namespace TinyProcessors

structure VirtioRegs.Same (r : VirtioRegs) (v : VirtioBlk) : Prop where
  status : v.status = r.status
  featuresSel : v.featuresSel = r.featuresSel
  queueSelZero : v.queueSelZero = r.queueSelZero
  queueReady : v.queueReady = r.queueReady
  interrupt : v.interrupt = r.interruptStatus
  queueNum : v.queueNum = r.queueNum.setWidth 32
  descLo : v.descLo = r.descLo
  descHi : v.descHi = r.descHi
  driverLo : v.driverLo = r.driverLo
  driverHi : v.driverHi = r.driverHi
  deviceLo : v.deviceLo = r.deviceLo
  deviceHi : v.deviceHi = r.deviceHi
  lastAvail : v.lastAvail = r.lastAvail
  usedIdx : v.usedIdx = r.usedIdx

theorem VirtioRegs.Same.of_sameQueue (h : VirtioRegs.Same r v) (hv : v.SameQueue v') :
    VirtioRegs.Same r v' := by
  rw [hv]
  obtain ⟨h₁, h₂, h₃, h₄, h₅, h₆, h₇, h₈, h₉, h₁₀, h₁₁, h₁₂, h₁₃, h₁₄⟩ := h
  exact ⟨h₁, h₂, h₃, h₄, h₅, h₆, h₇, h₈, h₉, h₁₀, h₁₁, h₁₂, h₁₃, h₁₄⟩

/-- The RTL's device and the emulator's, with the same registers, disk and RAM. -/
structure VirtioRegs.Matches (r : VirtioRegs) (diskSectors : Word) (disk : Nat → Word)
    (mem : WordRam) (s : Blk) : Prop where
  regs : r.Same s.v
  sectors : diskSectors.toNat = s.v.drive.sectors
  disk : ∀ i < s.v.drive.sectors * 128, disk i = s.v.drive.bytes.word (4 * i)
  ram : ∀ i < 2 ^ 22, mem i = s.mem.ram.word (0x80000000 + 4 * i)
  sound : s.v.Sound

theorem inRam_eq (a : Word) : BlkRtl.inRam a = dmaWord a := by
  rw [Bool.eq_iff_iff]
  simp only [BlkRtl.inRam, dmaWord, ramBase, ramSize, Bool.and_eq_true, decide_eq_true_eq,
    BitVec.le_def, BitVec.lt_def]
  constructor
  · rintro ⟨h₁, h₂⟩
    have h₁' : 0x80000000 ≤ a.toNat := h₁
    have h₂' : (a - 0x80000000).toNat < 0x1000000 := h₂
    refine ⟨h₁', ?_⟩
    bv_omega
  · rintro ⟨h₁, h₂⟩
    have h₂' : (a - 0x80000000).toNat < 0x1000000 := by bv_omega
    exact ⟨h₁, h₂'⟩

theorem index_eq {a : Word} (h : dmaWord a = true) :
    0x80000000 + 4 * WordRam.index a = (a &&& ~~~3).toNat := by
  simp only [dmaWord, ramBase, ramSize, Bool.and_eq_true, decide_eq_true_eq] at h
  have hs : (a - 0x80000000).toNat = a.toNat - 0x80000000 := by bv_omega
  rw [wordStart, WordRam.index, hs]
  omega

theorem index_lt (a : Word) : WordRam.index a < 2 ^ 22 := Nat.mod_lt _ (by omega)

theorem toNat_append_zeros (x : BitVec m) (k : Nat) : (x ++ 0#k).toNat = x.toNat * 2 ^ k := by
  rw [BitVec.toNat_append, BitVec.toNat_zero, Nat.or_zero, Nat.shiftLeft_eq]

theorem flag_iff (x : Word) (k : Nat) (hk : k < 32) :
    x &&& BitVec.ofNat 32 (2 ^ k) ≠ 0#32 ↔ x.getLsbD k = true := by
  rw [Ne, and_two_pow_eq_zero x k hk, BitVec.getLsbD, Nat.testBit_eq_decide_div_mod_eq,
    decide_eq_true_eq]
  omega

theorem high_half (w : Word) : w.extractLsb' 16 16 = (w >>> 16).setWidth 16 := by
  apply BitVec.eq_of_toNat_eq
  simp

theorem low_half (w : Word) : w.extractLsb' 0 16 = w.setWidth 16 := by
  apply BitVec.eq_of_toNat_eq
  simp

theorem link_eq (w : Word) : w >>> 16 = (w.extractLsb' 16 16).setWidth 32 := by
  apply BitVec.eq_of_toNat_eq
  have := w.isLt
  simp [Nat.shiftRight_eq_div_pow]
  omega

theorem low_two (x : Word) : x.extractLsb' 0 2 = 0 ↔ x &&& 3 = 0 := by
  have h : (x &&& 3).toNat = x.toNat % 4 := toNat_and_low x 2 (by omega)
  rw [← BitVec.toNat_inj, ← BitVec.toNat_inj, h]
  simp

theorem word_offset (x : Word) : (x.extractLsb' 0 30 ++ 0#2).setWidth 32 = 4 * x := by
  apply BitVec.eq_of_toNat_eq
  have := x.isLt
  rw [BitVec.toNat_setWidth, toNat_append_zeros, BitVec.toNat_mul, BitVec.extractLsb'_toNat,
    Nat.shiftRight_zero]
  change _ = 4 * _ % _
  omega

theorem words_toNat (x : Word) (h : 30 ≤ w) :
    ((x.extractLsb' 2 30).setWidth w).toNat = x.toNat / 4 := by
  have := x.isLt
  have hw : 2 ^ 30 ≤ 2 ^ w := Nat.pow_le_pow_right (by omega) h
  rw [BitVec.toNat_setWidth, BitVec.extractLsb'_toNat, Nat.shiftRight_eq_div_pow,
    Nat.mod_eq_of_lt (by omega), Nat.mod_eq_of_lt (by omega)]

theorem four_bytes (b : BitVec 8) :
    (b ++ b ++ b ++ b).setWidth 32 = b.setWidth 32 * 0x01010101 := by
  revert b
  decide +kernel

theorem two_halves (x : BitVec 16) : (x ++ x).setWidth 32 = x.setWidth 32 * 0x10001 := by
  apply BitVec.eq_of_toNat_eq
  have := x.isLt
  rw [BitVec.toNat_setWidth, BitVec.toNat_append, BitVec.toNat_mul, BitVec.toNat_setWidth,
    Nat.shiftLeft_eq, Nat.mul_comm, ← Nat.two_pow_add_eq_or_of_lt this]
  change _ = _ * 65537 % _
  omega

theorem status_strobe (a : Word) :
    (1 <<< (a.extractLsb' 0 2).toNat : BitVec 4).setWidth 32 = (1 <<< (a &&& 3).toNat : Word) := by
  have h : (a &&& 3).toNat = a.toNat % 4 := toNat_and_low a 2 (by omega)
  have hk : ∀ k : Fin 4, (1 <<< k.val : BitVec 4).setWidth 32 = (1 <<< k.val : Word) := by decide
  rw [h, BitVec.extractLsb'_toNat, Nat.shiftRight_zero]
  exact hk ⟨a.toNat % 4, by omega⟩

theorem slot_eq (n : BitVec 16) (r : VirtioRegs) (h0 : r.queueNum ≠ 0) :
    n.setWidth 32 &&& (r.queueNum.setWidth 32 - 1) =
      (n.extractLsb' 0 3 &&& r.queueMask).setWidth 32 := by
  have h : ∃ k : Nat, k ≤ 3 ∧ r.queueNum.setWidth 32 - 1 = BitVec.ofNat 32 (2 ^ k - 1) ∧
      r.queueMask = BitVec.ofNat 3 (2 ^ k - 1) := by
    have hq := r.sized
    unfold VirtioRegs.queueMask
    generalize r.queueNum = q at hq h0
    simp only [List.mem_cons, List.not_mem_nil, or_false] at hq
    rcases hq with rfl | rfl | rfl | rfl | rfl
    · exact absurd rfl h0
    · exact ⟨0, by decide⟩
    · exact ⟨1, by decide⟩
    · exact ⟨2, by decide⟩
    · exact ⟨3, by decide⟩
  obtain ⟨k, hk, hw, h3⟩ := h
  have hp : 2 ^ k ≤ 2 ^ 3 := Nat.pow_le_pow_right (by omega) hk
  have hlt := Nat.mod_lt n.toNat (Nat.two_pow_pos k)
  rw [ring_slot n k (by omega) hw, h3]
  apply BitVec.eq_of_toNat_eq
  rw [BitVec.toNat_setWidth, toNat_and_low _ k hk, BitVec.toNat_ofNat, BitVec.extractLsb'_toNat,
    Nat.shiftRight_zero, Nat.mod_mod_of_dvd _ (Nat.pow_dvd_pow 2 hk)]

theorem descAt_eq (r : VirtioRegs) (index : BitVec 16) :
    r.descAt index = r.descLo + 16 * index.setWidth 32 := by
  unfold VirtioRegs.descAt
  congr 1
  apply BitVec.eq_of_toNat_eq
  have := index.isLt
  rw [BitVec.toNat_setWidth, toNat_append_zeros, BitVec.toNat_mul, BitVec.toNat_setWidth]
  change _ = 16 * _ % _
  omega

theorem availSlot_eq (r : VirtioRegs) (h0 : r.queueNum ≠ 0) : r.availSlot =
    r.driverLo + 4 + 2 * (r.lastAvail.setWidth 32 &&& (r.queueNum.setWidth 32 - 1)) := by
  have h : ∀ x : BitVec 3, (x ++ 0#1).setWidth 32 = 2 * x.setWidth 32 := by decide
  rw [slot_eq _ _ h0, VirtioRegs.availSlot, h]

theorem usedSlot_eq (r : VirtioRegs) (h0 : r.queueNum ≠ 0) : r.usedSlot =
    r.deviceLo + 4 + 8 * (r.usedIdx.setWidth 32 &&& (r.queueNum.setWidth 32 - 1)) := by
  have h : ∀ x : BitVec 3, (x ++ 0#3).setWidth 32 = 8 * x.setWidth 32 := by decide
  rw [slot_eq _ _ h0, VirtioRegs.usedSlot, h]

theorem queueNum_le (r : VirtioRegs) (x : BitVec 16) :
    r.queueNum.setWidth 16 ≤ x ↔ ¬ x.setWidth 32 < r.queueNum.setWidth 32 := by
  have hq := r.queueNum.isLt
  have hx := x.isLt
  rw [BitVec.le_def, BitVec.lt_def, BitVec.toNat_setWidth, BitVec.toNat_setWidth,
    BitVec.toNat_setWidth]
  omega

theorem badFlags_eq (r : VirtioRegs) (which : Fin 3) (flags : Word) :
    BlkRtl.badFlags r (BitVec.ofNat 2 which) flags = false ↔
      (flags &&& 1 ≠ 0 : Bool) = (which.val ≠ 2 : Bool) ∧
      (which.val = 0 → ¬ (flags &&& 2 ≠ 0 : Bool)) ∧ (which.val = 2 → (flags &&& 2 ≠ 0 : Bool)) ∧
      (which.val ≠ 2 → flags >>> 16 < r.queueNum.setWidth 32) := by
  have h0 : (flags &&& 1 ≠ 0 : Bool) = flags.getLsbD 0 := by
    rw [Bool.eq_iff_iff, decide_eq_true_eq]
    exact flag_iff flags 0 (by omega)
  have h1 : (flags &&& 2 ≠ 0 : Bool) = flags.getLsbD 1 := by
    rw [Bool.eq_iff_iff, decide_eq_true_eq]
    exact flag_iff flags 1 (by omega)
  have hq := queueNum_le r (flags.extractLsb' 16 16)
  rw [h0, h1, link_eq]
  unfold BlkRtl.badFlags
  generalize flags.getLsbD 0 = f
  generalize flags.getLsbD 1 = g
  match which with
  | 0 | 1 | 2 => cases f <;> cases g <;> simp [hq]

theorem rangeOk_eq (d : BlkRtl) (drive : Drive) (next : Bool) (link : Word)
    (hs : d.diskSectors.toNat = drive.sectors) :
    (!d.rangeOk || d.req.dataWrite ≠ (d.req.typeWord = 0 : Bool)) =
      !(Header.fits ⟨d.req.typeWord, d.req.sector, d.req.sectorHi⟩ drive
        ⟨d.req.dataAddr, d.req.dataLen, next, d.req.dataWrite, link⟩) := by
  have hsmall := drive.small
  have hwhole := drive.whole
  unfold Drive.sectors at hs
  have hsec : d.sectors = d.diskSectors := by
    unfold BlkRtl.sectors
    rw [if_neg]
    rw [BitVec.lt_def]
    change ¬ 16384 < _
    omega
  have hlen := words_toNat (w := 39) d.req.dataLen (by omega)
  have hlim : d.req.sector < d.sectors →
      ((d.req.sector ++ 0#7) + (d.req.dataLen.extractLsb' 2 30).setWidth 39 ≤ d.sectors ++ 0#7 ↔
        d.req.sector.toNat * 128 + d.req.dataLen.toNat / 4 ≤ drive.size.toNat / 4) := by
    intro hlt
    have hl := d.req.dataLen.isLt
    rw [BitVec.lt_def, hsec] at hlt
    rw [hsec, BitVec.le_def, BitVec.toNat_add, hlen, toNat_append_zeros, toNat_append_zeros]
    omega
  rw [← Bool.not_inj_iff, Bool.eq_iff_iff]
  unfold BlkRtl.rangeOk Header.fits Drive.sectors
  simp only [Bool.not_or, Bool.not_not, Bool.and_eq_true, decide_eq_true_eq, low_two,
    Bool.not_eq_true', decide_eq_false_iff_not, not_not]
  rw [hsec] at hlim ⊢
  rw [BitVec.lt_def] at hlim ⊢
  constructor
  · rintro ⟨⟨⟨⟨⟨h₁, h₂⟩, h₃⟩, h₄⟩, h₅⟩, h₆⟩
    exact ⟨⟨⟨⟨⟨h₁, by omega⟩, h₃⟩, h₄⟩, (hlim h₂).1 h₅⟩, h₆⟩
  · rintro ⟨⟨⟨⟨⟨h₁, h₂⟩, h₃⟩, h₄⟩, h₅⟩, h₆⟩
    have h₂' : d.req.sector.toNat < d.diskSectors.toNat := by omega
    exact ⟨⟨⟨⟨⟨h₁, h₂'⟩, h₃⟩, h₄⟩, (hlim h₂').2 h₅⟩, h₆⟩

section Wires

variable {r : VirtioRegs} {diskSectors : Word} {disk : Nat → Word} {mem : WordRam} {s : Blk}

theorem VirtioRegs.Matches.read (h : r.Matches diskSectors disk mem s) {a : Word}
    (ha : dmaWord a = true) : dmaRead s.mem.ram a = some (mem (WordRam.index a)) := by
  rw [dmaRead, if_pos ha, h.ram _ (index_lt a), index_eq ha]

theorem word_strobe (ram : Bytes) (start : Nat) (strb : BitVec 4) (value : Word) :
    (ram.strobe start value (strb.setWidth 32)).word start =
      mergeLanes strb (ram.word start) value := by
  apply word_congr
  intro k hk
  have hs : (strb.setWidth 32).getLsbD k = strb.getLsbD k := by
    rw [BitVec.getLsbD_setWidth, decide_eq_true (by omega : k < 32), Bool.true_and]
  rw [Nat.zero_add, Bytes.strobe, Nat.add_sub_cancel_left, hs]
  by_cases hb : strb.getLsbD k = true
  · rw [if_pos ⟨by omega, by omega, hb⟩, if_pos hb]
  · rw [if_neg (fun h => hb h.2.2), if_neg hb, wordByte_word _ _ _ hk]

theorem VirtioRegs.Matches.write (h : r.Matches diskSectors disk mem s) {a : Word}
    (ha : dmaWord a = true) (strb : BitVec 4) (value : Word) {s' : Blk}
    (hs : s.Stored (s.mem.ram.strobe (a &&& ~~~3).toNat value (strb.setWidth 32)) s') :
    r.Matches diskSectors disk (mem.store a strb value) s' := by
  have hram : ∀ i < 2 ^ 22, mem.store a strb value i = s'.mem.ram.word (0x80000000 + 4 * i) := by
    intro i hi
    have he := index_eq ha
    rw [hs.ram]
    unfold WordRam.store
    split
    next hia =>
      rw [hia, he, word_strobe, h.ram _ (index_lt a), he]
    next hia =>
      rw [h.ram i hi]
      apply word_congr
      intro k hk
      refine (if_neg ?_).symm
      omega
  obtain ⟨h₁, h₂, h₃, -, h₄⟩ := h
  rw [← hs.v] at h₁ h₂ h₃ h₄
  exact ⟨h₁, h₂, h₃, hram, h₄⟩

theorem VirtioRegs.Matches.record (h : r.Matches diskSectors disk mem s) (j : Nat) (word : Word)
    (hs : s.Recorded (s.v.drive.bytes.write (4 * j) 4 word) s') :
    r.Matches diskSectors (fun i => if i = j then word else disk i) mem s' := by
  rw [hs]
  refine ⟨h.regs.of_sameQueue rfl, h.sectors, fun i hi => ?_, h.ram, h.sound.noError,
    h.sound.takes⟩
  change (if i = j then word else disk i) = Bytes.word (Bytes.write _ _ _ _) (4 * i)
  split
  next hij =>
    symm
    apply word_eq
    intro k hk
    rw [hij, Bytes.write, overwrite_of_mem (by omega) (by omega), Nat.add_sub_cancel_left]
  next hij =>
    rw [h.disk i hi]
    apply word_congr
    intro k hk
    rw [Bytes.write, overwrite_of_not_mem (by omega)]

theorem VirtioRegs.Matches.diskWritten (h : r.Matches diskSectors disk mem s) :
    r.Matches diskSectors disk mem { s with v := s.v.diskWritten } := by
  have hd := s.v.diskWritten_drive
  refine ⟨h.regs.of_sameQueue s.v.diskWritten_same, ?_, ?_, h.ram, h.sound.diskWritten⟩
  · dsimp only
    rw [hd]
    exact h.sectors
  · dsimp only
    rw [hd]
    exact h.disk

end Wires

end TinyProcessors
