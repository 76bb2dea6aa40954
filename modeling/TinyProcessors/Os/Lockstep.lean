import TinyProcessors.Emu.Requests
import TinyProcessors.Os.Virtio

namespace TinyProcessors

theorem mmioRead_runs (value : Word) (h : virtioLoad s.blk.v offset 4 = some value) :
    Runs (mmioRead offset) s fun r s' => r = value ∧ s' = s := by
  refine .read ?_
  rw [h]
  exact .pure ⟨rfl, rfl⟩

theorem runs_mmioRead {k : Word → DriverM α} (value : Word)
    (h : virtioLoad s.blk.v offset 4 = some value) (hk : Runs (k value) s Q) :
    Runs (mmioRead offset >>= k) s Q := by
  refine .bind (mmioRead_runs value h) ?_
  rintro _ _ ⟨rfl, rfl⟩
  exact hk

theorem runs_mmioWrite {k : Unit → DriverM α}
    (h : virtioStore fuel s.blk offset 4 value = some (.ok, blk))
    (hk : Runs (k ()) { s with blk } Q) : Runs (mmioWrite fuel offset value >>= k) s Q := by
  refine .bind (P := fun _ s' => s' = { s with blk }) (.read ?_) ?_
  · rw [h]
    exact .set rfl
  · rintro _ _ rfl
    exact hk

def VirtioBlk.setUp (v : VirtioBlk) (r : Rings) : VirtioBlk :=
  { v with
    status := 0xf
    featuresSel := true
    queueSelZero := true
    queueReady := true
    interrupt := false
    queueNum := 8
    descLo := r.descs
    descHi := 0
    driverLo := r.avail
    driverHi := 0
    deviceLo := r.used
    deviceHi := 0
    lastAvail := 0
    usedIdx := 0 }

def VirtioBlk.negotiated (v : VirtioBlk) : VirtioBlk :=
  { v with
    status := 0xb
    featuresSel := true
    queueReady := false
    queueNum := 0
    lastAvail := 0
    usedIdx := 0
    interrupt := false }

theorem negotiate_runs (fuel : Nat) (s : Drv) :
    Runs (negotiate fuel) s fun ok s' => ok = true ∧
      s' = { s with blk := { s.blk with v := s.blk.v.negotiated } } := by
  iterate 4 refine runs_mmioWrite rfl ?_
  refine runs_mmioRead 1 rfl ?_
  rw [if_neg (by decide)]
  iterate 5 refine runs_mmioWrite rfl ?_
  refine runs_mmioRead 0xb rfl ?_
  exact .pure ⟨rfl, rfl⟩

theorem queueFree_runs (fuel : Nat) (s : Drv) (hr : s.blk.v.queueReady = false) :
    Runs (queueFree fuel) s fun ok s' => ok = true ∧
      s' = { s with blk := { s.blk with v := { s.blk.v with queueSelZero := true } } } := by
  refine runs_mmioWrite rfl ?_
  have hready : some (if s.blk.v.queueReady then 1 else 0) = some (0 : Word) := by
    rw [hr]
    rfl
  refine runs_mmioRead 0 hready ?_
  rw [if_neg (by decide)]
  refine runs_mmioRead 8 rfl ?_
  exact .pure ⟨rfl, rfl⟩

theorem setUpQueue_runs (r : Rings) (fuel : Nat) (s : Drv) (hz : s.blk.v.queueSelZero = true) :
    Runs (setUpQueue r fuel) s fun capacity s' =>
      capacity = BitVec.ofNat 32 s.blk.v.drive.sectors ∧
      s' = { s with
        blk := { s.blk with v := { s.blk.v with
          status := 0xf
          queueReady := true
          queueNum := 8
          descLo := r.descs
          descHi := 0
          driverLo := r.avail
          driverHi := 0
          deviceLo := r.used
          deviceHi := 0 } }
        device := true
        seen := 0 } := by
  obtain ⟨⟨mem, v⟩, device, seen, failure⟩ := s
  obtain ⟨status, featuresSel, queueSelZero, queueReady, interrupt, queueNum, descLo, descHi, driverLo,
    driverHi, deviceLo, deviceHi, lastAvail, usedIdx, drive, file, fileWrites, writeError⟩ := v
  cases hz
  iterate 9 refine runs_mmioWrite rfl ?_
  refine .bind (.modify rfl) fun _ s' (hs' : s' = _) => ?_
  subst hs'
  exact mmioRead_runs _ rfl

theorem virtioInit_runs (r : Rings) (fuel : Nat) (s : Drv) :
    Runs (r.virtioInit fuel) s fun capacity s' =>
      capacity = BitVec.ofNat 32 s.blk.v.drive.sectors ∧
      s' = { s with
        blk := { s.blk with v := s.blk.v.setUp r }
        device := true
        seen := 0 } := by
  refine runs_mmioRead 0x74726976 rfl ?_
  refine runs_mmioRead 2 rfl ?_
  refine runs_mmioRead 2 rfl ?_
  rw [if_neg (by decide)]
  refine .bind (negotiate_runs fuel s) ?_
  rintro _ _ ⟨rfl, rfl⟩
  refine .bind (queueFree_runs fuel _ rfl) ?_
  rintro _ _ ⟨rfl, rfl⟩
  exact setUpQueue_runs r fuel _ rfl

theorem write_of_not_mem (m : Bytes) (value : Word) (h : a < start ∨ start + width ≤ a) :
    m.write start width value a = m a :=
  overwrite_of_not_mem h

theorem quad_of_not_mem (m : Bytes) (w₀ w₁ w₂ w₃ : Word) (h : a < base ∨ base + 16 ≤ a) :
    m.withWords base [w₀, w₁, w₂, w₃] a = m a :=
  withWords_of_not_mem m _ h

theorem write_half (m : Bytes) (start : Nat) (value : BitVec 16) :
    (m.write start 2 (value.setWidth 32)).half start = value := by
  have hv := value.isLt
  apply BitVec.eq_of_toNat_eq
  rw [half_toNat]
  unfold Bytes.write
  rw [overwrite_of_mem (by omega) (by omega), overwrite_of_mem (by omega) (by omega),
    wordByte_toNat, wordByte_toNat, BitVec.toNat_setWidth]
  have h0 : start - start = 0 := by omega
  have h1 : start + 1 - start = 1 := by omega
  rw [h0, h1]
  omega

theorem overwrite_base (m m' src : Bytes) (hl : start ≤ a) (hr : a < start + n) :
    m.overwrite start n src a = m'.overwrite start n src a := by
  rw [overwrite_of_mem hl hr, overwrite_of_mem hl hr]

theorem Rings.facts (r : Rings) :
    (Apart r.descs.toNat 48 r.avail.toNat 22 ∧ Apart r.descs.toNat 48 r.used.toNat 72 ∧
      Apart r.descs.toNat 48 r.header.toNat 16 ∧ Apart r.descs.toNat 48 r.statusByte.toNat 1) ∧
    (Apart r.avail.toNat 22 r.used.toNat 72 ∧ Apart r.avail.toNat 22 r.header.toNat 16 ∧
      Apart r.avail.toNat 22 r.statusByte.toNat 1) ∧
    (Apart r.used.toNat 72 r.header.toNat 16 ∧ Apart r.used.toNat 72 r.statusByte.toNat 1) ∧
    Apart r.header.toNat 16 r.statusByte.toNat 1 := by
  have h := r.apart
  simp only [List.pairwise_cons, List.mem_cons, List.not_mem_nil, or_false, forall_eq_or_imp,
    forall_eq, List.Pairwise.nil, and_true, IsEmpty.forall_iff, implies_true] at h
  exact h

theorem Rings.publish_of_not (r : Rings) (ram : Bytes)
    (h : a < r.avail.toNat + 2 ∨ r.avail.toNat + 20 ≤ a) : r.publish ram a = ram a := by
  unfold Rings.publish
  rw [write_of_not_mem _ _ (by omega), write_of_not_mem _ _ (by omega)]

theorem Rings.publish_index (r : Rings) (ram : Bytes) :
    (r.publish ram).half (r.avail.toNat + 2) = ram.half (r.avail.toNat + 2) + 1 :=
  write_half _ _ _

theorem Rings.publish_entry (r : Rings) (ram : Bytes) :
    (r.publish ram).half (r.avail.toNat + 4 + 2 * ((ram.half (r.avail.toNat + 2)).toNat % 8)) =
      0 := by
  refine Eq.trans ?_
    (write_half ram (r.avail.toNat + 4 + 2 * ((ram.half (r.avail.toNat + 2)).toNat % 8)) 0)
  apply half_congr
  intro k hk
  unfold Rings.publish
  rw [write_of_not_mem _ _ (by omega)]
  rfl

theorem quad_words {m m' : Bytes}
    (h : ∀ a, base ≤ a → a < base + 16 → m' a = m.withWords base [w₀, w₁, w₂, w₃] a) :
    m'.word base = w₀ ∧ m'.word (base + 4) = w₁ ∧ m'.word (base + 8) = w₂ ∧
      m'.word (base + 12) = w₃ := by
  have hk : ∀ k < 4, m'.word (base + 4 * k) = [w₀, w₁, w₂, w₃].getD k 0 := by
    intro k hk
    rw [← withWords_word m base [w₀, w₁, w₂, w₃] hk]
    apply word_of_disjoint
    intro a hl hr
    exact h a (by omega) (by omega)
  exact ⟨hk 0 (by omega), hk 1 (by omega), hk 2 (by omega), hk 3 (by omega)⟩

theorem chainDescriptor_eq {m m' : Bytes} {v : VirtioBlk} (hb : (v.descLo + 16 * index).toNat = base)
    (h16 : base % 16 = 0) (hl : 0x80000000 ≤ base) (hr : base + 16 ≤ 0x81000000)
    (h : ∀ a, base ≤ a → a < base + 16 → m' a = m.withWords base [address, 0, length, flags] a)
    (hf : (flags &&& 1 ≠ 0 : Bool) = (which ≠ 2 : Bool) ∧ (which = 0 → ¬ (flags &&& 2 ≠ 0 : Bool)) ∧
      (which = 2 → (flags &&& 2 ≠ 0 : Bool)) ∧ (which ≠ 2 → flags >>> 16 < v.queueNum)) :
    chainDescriptor m' v which index =
      some ⟨address, length, flags &&& 1 ≠ 0, flags &&& 2 ≠ 0, flags >>> 16⟩ := by
  obtain ⟨h₀, h₁, h₂, h₃⟩ := quad_words h
  have hd : readDescriptor m' v index =
      some ⟨address, length, flags &&& 1 ≠ 0, flags &&& 2 ≠ 0, flags >>> 16⟩ := by
    unfold readDescriptor
    dsimp only
    rw [dmaRead_at m' hb (by omega) hl (by omega),
      dmaRead_at m' (n := base + 4) (by bv_omega) (by omega) (by omega) (by omega),
      dmaRead_at m' (n := base + 8) (by bv_omega) (by omega) (by omega) (by omega),
      dmaRead_at m' (n := base + 12) (by bv_omega) (by omega) (by omega) (by omega),
      h₀, h₁, h₂, h₃]
    rfl
  unfold chainDescriptor
  rw [hd]
  simp only [Option.bind_eq_bind, Option.bind_some, guard, if_pos hf]
  rfl

section Prepared

variable (r : Rings) (c : Transfer) (ram : Bytes)

theorem prepare_of_not_owns (ha : ¬ r.owns a) : c.prepare r ram a = ram a := by
  unfold Rings.owns at ha
  unfold Transfer.prepare
  rw [r.publish_of_not _ (by omega)]
  unfold Transfer.describe
  rw [quad_of_not_mem _ _ _ _ _ (by omega), quad_of_not_mem _ _ _ _ _ (by omega),
    quad_of_not_mem _ _ _ _ _ (by omega), write_of_not_mem _ _ (by omega),
    quad_of_not_mem _ _ _ _ _ (by omega)]

theorem prepare_header (hl : r.header.toNat ≤ a) (hr : a < r.header.toNat + 16) :
    c.prepare r ram a =
      ram.withWords r.header.toNat [if c.write then 1 else 0, 0, c.sector, 0] a := by
  obtain ⟨⟨-, -, h₁, -⟩, ⟨-, h₂, -⟩, ⟨h₃, -⟩, h₄⟩ := r.facts
  unfold Apart at h₁ h₂ h₃ h₄
  unfold Transfer.prepare
  rw [r.publish_of_not _ (by omega)]
  unfold Transfer.describe
  rw [quad_of_not_mem _ _ _ _ _ (by omega), quad_of_not_mem _ _ _ _ _ (by omega),
    quad_of_not_mem _ _ _ _ _ (by omega), write_of_not_mem _ _ (by omega)]

theorem prepare_descriptor₀ (hl : r.descs.toNat ≤ a) (hr : a < r.descs.toNat + 16) :
    c.prepare r ram a = ram.withWords r.descs.toNat [r.header, 0, 16, 0x10001] a := by
  obtain ⟨⟨h₁, -, -, -⟩, -, -, -⟩ := r.facts
  unfold Apart at h₁
  unfold Transfer.prepare
  rw [r.publish_of_not _ (by omega)]
  unfold Transfer.describe
  rw [quad_of_not_mem _ _ _ _ _ (by omega), quad_of_not_mem _ _ _ _ _ (by omega)]
  exact overwrite_base _ _ _ hl hr

theorem prepare_descriptor₁ (hl : r.descs.toNat + 16 ≤ a) (hr : a < r.descs.toNat + 16 + 16) :
    c.prepare r ram a = ram.withWords (r.descs.toNat + 16)
      [c.buffer, 0, c.count * 512, if c.write then 0x20001 else 0x20003] a := by
  obtain ⟨⟨h₁, -, -, -⟩, -, -, -⟩ := r.facts
  unfold Apart at h₁
  unfold Transfer.prepare
  rw [r.publish_of_not _ (by omega)]
  unfold Transfer.describe
  rw [quad_of_not_mem _ _ _ _ _ (by omega)]
  exact overwrite_base _ _ _ hl hr

theorem prepare_descriptor₂ (hl : r.descs.toNat + 32 ≤ a) (hr : a < r.descs.toNat + 32 + 16) :
    c.prepare r ram a = ram.withWords (r.descs.toNat + 32) [r.statusByte, 0, 1, 2] a := by
  obtain ⟨⟨h₁, -, -, -⟩, -, -, -⟩ := r.facts
  unfold Apart at h₁
  unfold Transfer.prepare
  rw [r.publish_of_not _ (by omega)]
  unfold Transfer.describe
  exact overwrite_base _ _ _ hl hr

theorem describe_index :
    (c.describe r ram).half (r.avail.toNat + 2) = ram.half (r.avail.toNat + 2) := by
  obtain ⟨⟨h₁, -, -, -⟩, ⟨-, h₂, h₃⟩, -, -⟩ := r.facts
  unfold Apart at h₁ h₂ h₃
  apply half_congr
  intro k hk
  unfold Transfer.describe
  rw [quad_of_not_mem _ _ _ _ _ (by omega), quad_of_not_mem _ _ _ _ _ (by omega),
    quad_of_not_mem _ _ _ _ _ (by omega), write_of_not_mem _ _ (by omega),
    quad_of_not_mem _ _ _ _ _ (by omega)]

theorem prepare_index :
    (c.prepare r ram).half (r.avail.toNat + 2) = ram.half (r.avail.toNat + 2) + 1 := by
  unfold Transfer.prepare
  rw [r.publish_index, describe_index]

theorem prepare_entry :
    (c.prepare r ram).half (r.avail.toNat + 4 + 2 * ((ram.half (r.avail.toNat + 2)).toNat % 8)) =
      0 := by
  rw [← describe_index r c ram]
  exact r.publish_entry _

end Prepared

structure VirtioBlk.HasQueue (v : VirtioBlk) (r : Rings) : Prop where
  status : v.status = 0xf
  queueReady : v.queueReady = true
  queueNum : v.queueNum = 8
  descLo : v.descLo = r.descs
  descHi : v.descHi = 0
  driverLo : v.driverLo = r.avail
  driverHi : v.driverHi = 0
  deviceLo : v.deviceLo = r.used
  deviceHi : v.deviceHi = 0

def Transfer.chain (r : Rings) (c : Transfer) : Chain where
  head := 0
  header := ⟨r.header, 16, true, false, 1⟩
  data := ⟨c.buffer, c.count * 512, true, !c.write, 2⟩
  status := ⟨r.statusByte, 1, false, true, 0⟩

def Transfer.header (c : Transfer) : Header := ⟨if c.write then 1 else 0, c.sector, 0⟩

section Device

variable {r : Rings} {c : Transfer} {v : VirtioBlk} {ram : Bytes}

theorem prepared_head (hq : v.HasQueue r)
    (hn : ram.half (r.avail.toNat + 2) = v.lastAvail) :
    dmaRead16 (c.prepare r ram)
      (v.driverLo + 4 + 2 * (v.lastAvail.setWidth 32 &&& (v.queueNum - 1))) = some 0 := by
  obtain ⟨h4, hl, hr⟩ := r.avail_placed
  have hs : v.lastAvail.setWidth 32 &&& (v.queueNum - 1) = BitVec.ofNat 32 (v.lastAvail.toNat % 8) :=
    ring_slot v.lastAvail 3 (by omega) (by rw [hq.queueNum]; decide)
  have ha : (v.driverLo + 4 + 2 * (v.lastAvail.setWidth 32 &&& (v.queueNum - 1))).toNat =
      r.avail.toNat + 4 + 2 * (v.lastAvail.toNat % 8) := by
    rw [hs, hq.driverLo]
    bv_omega
  have he := prepare_entry r c ram
  rw [hn] at he
  rw [dmaRead16_eq, ha, if_pos, ← he]
  · congr 2
    omega
  · exact dmaWord_of (by omega) (by omega)

theorem prepared_chain (hq : v.HasQueue r)
    (hn : ram.half (r.avail.toNat + 2) = v.lastAvail) :
    readChain (c.prepare r ram) v = some (c.chain r) := by
  obtain ⟨h16, hl, hr⟩ := r.descs_placed
  have hqn := hq.queueNum
  have hd := hq.descLo
  refine readChain_eq (prepared_head hq hn) (by rw [hqn]; decide) ?_ ?_ ?_
  · exact chainDescriptor_eq (by rw [hd]; bv_omega) h16 hl (by omega)
      (fun a => prepare_descriptor₀ r c ram) (by rw [hqn]; decide)
  · have hw : chainDescriptor (c.prepare r ram) v 1 1 = _ :=
      chainDescriptor_eq (by rw [hd]; bv_omega) (by omega) (by omega) (by omega)
        (fun a => prepare_descriptor₁ r c ram) (by rw [hqn]; cases c.write <;> decide)
    refine hw.trans ?_
    cases c.write <;> rfl
  · exact chainDescriptor_eq (by rw [hd]; bv_omega) (by omega) (by omega) (by omega)
      (fun a => prepare_descriptor₂ r c ram) (by rw [hqn]; decide)

theorem prepared_header : readHeader (c.prepare r ram) r.header = some c.header := by
  obtain ⟨h16, hl, hr⟩ := r.header_placed
  obtain ⟨h₀, -, h₂, h₃⟩ := quad_words fun a => prepare_header r c ram
  unfold readHeader
  rw [dmaRead_at _ rfl (by omega) hl (by omega),
    dmaRead_at _ (n := r.header.toNat + 8) (by bv_omega) (by omega) (by omega) (by omega),
    dmaRead_at _ (n := r.header.toNat + 12) (by bv_omega) (by omega) (by omega) (by omega),
    h₀, h₂, h₃]
  rfl

theorem strobed_byte (h : strobed address (1 <<< (address &&& 3).toNat) a) : a = address.toNat := by
  have hb : ∀ k j : Fin 4, ((1 : Word) <<< k.val).getLsbD j.val = true → j = k := by decide
  obtain ⟨hl, hr, hs⟩ := h
  have h3 : (address &&& 3).toNat = address.toNat % 4 := toNat_and_low address 2 (by omega)
  rw [wordStart] at hl hr hs
  rw [h3] at hs
  have hk := hb ⟨address.toNat % 4, by omega⟩ ⟨a - address.toNat / 4 * 4, by omega⟩ hs
  have := congrArg Fin.val hk
  dsimp only at this
  omega

theorem used_index_strobe : (if r.used &&& 2 ≠ 0 then 0x3 else 0xc : Word) = 0xc := by
  have h4 := r.used_placed.1
  have h2 : r.used &&& 2 = 0 := (and_two_pow_eq_zero r.used 1 (by omega)).2 (by omega)
  rw [if_neg (not_not.2 h2)]

theorem used_index_word : ((r.used + 2) &&& ~~~3).toNat = r.used.toNat := by
  obtain ⟨h4, hl, hr⟩ := r.used_placed
  have hi : (r.used + 2).toNat = r.used.toNat + 2 := by bv_omega
  rw [wordStart, hi]
  omega

theorem used_ring (hq : v.HasQueue r) :
    ∀ w ∈ (usedWords (c.chain r) v).tail, dmaWord w.1 = true ∧ ∀ a, strobed w.1 w.2 a →
      r.used.toNat + 2 ≤ a ∧ a < r.used.toNat + 72 := by
  obtain ⟨h4, hl, hr⟩ := r.used_placed
  have hs : v.usedIdx.setWidth 32 &&& (v.queueNum - 1) = BitVec.ofNat 32 (v.usedIdx.toNat % 8) :=
    ring_slot v.usedIdx 3 (by omega) (by rw [hq.queueNum]; decide)
  have hu : (r.used + 4 + 8 * BitVec.ofNat 32 (v.usedIdx.toNat % 8)).toNat =
      r.used.toNat + 4 + 8 * (v.usedIdx.toNat % 8) := by bv_omega
  have hu' : (r.used + 4 + 8 * BitVec.ofNat 32 (v.usedIdx.toNat % 8) + 4).toNat =
      r.used.toNat + 8 + 8 * (v.usedIdx.toNat % 8) := by bv_omega
  have hi : (r.used + 2).toNat = r.used.toNat + 2 := by bv_omega
  have hc : ∀ k < 4, (0xc : Word).getLsbD k = true → 2 ≤ k := by decide
  simp only [usedWords, hq.deviceLo, hs, used_index_strobe, List.tail_cons, List.mem_cons,
    List.not_mem_nil, or_false, forall_eq_or_imp, forall_eq]
  refine ⟨⟨dmaWord_of (by omega) (by omega), fun a ha => ?_⟩,
    ⟨dmaWord_of (by omega) (by omega), fun a ha => ?_⟩, dmaWord_of (by omega) (by omega),
    fun a ha => ?_⟩
  · obtain ⟨hal, har, -⟩ := ha
    rw [wordStart, hu] at hal har
    omega
  · obtain ⟨hal, har, -⟩ := ha
    rw [wordStart, hu'] at hal har
    omega
  · obtain ⟨hal, har, hs⟩ := ha
    rw [used_index_word] at hal har hs
    have := hc _ (by omega) hs
    omega

theorem used_owned (hq : v.HasQueue r) :
    ∀ w ∈ usedWords (c.chain r) v, dmaWord w.1 = true ∧ ∀ a, strobed w.1 w.2 a →
      a = r.statusByte.toNat ∨ (r.used.toNat + 2 ≤ a ∧ a < r.used.toNat + 72) := by
  obtain ⟨hsl, hsr⟩ := r.status_placed
  intro w hw
  cases List.mem_cons.1 hw with
  | inl h =>
    rw [h]
    exact ⟨dmaWord_of (by exact hsl) (by exact Nat.lt_of_succ_le hsr), fun a ha =>
      .inl (strobed_byte ha)⟩
  | inr h =>
    have hr := used_ring (c := c) hq w h
    exact ⟨hr.1, fun a ha => .inr (hr.2 a ha)⟩

theorem usedRam_status (hq : v.HasQueue r) (written : Word) (b : Fin 2) :
    usedRam (c.chain r) v written (BitVec.ofNat 32 b.val) ram r.statusByte.toNat =
      UInt8.ofNat b.val := by
  have hb : ∀ b : Fin 2, ∀ k : Fin 4,
      wordByte (BitVec.ofNat 32 b.val * 0x01010101) k.val = UInt8.ofNat b.val := by decide
  have hk : ∀ k : Fin 4, ((1 : Word) <<< k.val).getLsbD k.val = true := by decide
  have h3 : (r.statusByte &&& 3).toNat = r.statusByte.toNat % 4 :=
    toNat_and_low r.statusByte 2 (by omega)
  have hn : ∀ w ∈ (usedWords (c.chain r) v).tail, ¬ strobed w.1 w.2 r.statusByte.toNat := by
    intro w hw hs
    have hr := (used_ring hq w hw).2 _ hs
    obtain ⟨-, -, ⟨-, ha⟩, -⟩ := r.facts
    unfold Apart at ha
    omega
  simp only [usedWords, List.tail_cons, List.mem_cons, List.not_mem_nil, or_false,
    forall_eq_or_imp, forall_eq] at hn
  obtain ⟨h₁, h₂, h₃⟩ := hn
  have hs : strobed r.statusByte (1 <<< (r.statusByte &&& 3).toNat) r.statusByte.toNat := by
    refine ⟨?_, ?_, ?_⟩
    · rw [wordStart]
      omega
    · rw [wordStart]
      omega
    · have he : r.statusByte.toNat - r.statusByte.toNat / 4 * 4 = r.statusByte.toNat % 4 := by omega
      rw [wordStart, he, h3]
      exact hk ⟨r.statusByte.toNat % 4, by omega⟩
  dsimp only [usedRam]
  rw [strobe_of_not _ _ h₃, strobe_of_not _ _ h₂, strobe_of_not _ _ h₁]
  refine Eq.trans (strobe_of_strobed ram _ hs) ?_
  change wordByte _ (r.statusByte.toNat - (r.statusByte &&& ~~~3).toNat) = _
  rw [wordStart]
  have he : r.statusByte.toNat - r.statusByte.toNat / 4 * 4 = r.statusByte.toNat % 4 := by omega
  rw [he]
  exact hb b ⟨r.statusByte.toNat % 4, by omega⟩

theorem usedRam_index (hq : v.HasQueue r) (written result : Word) :
    (usedRam (c.chain r) v written result ram).half (r.used.toNat + 2) = v.usedIdx + 1 := by
  have hc : (0xc : Word).getLsbD 2 = true ∧ (0xc : Word).getLsbD 3 = true := by decide
  have hv := (v.usedIdx + 1).isLt
  have h2 : r.used.toNat + 2 - r.used.toNat = 2 := by omega
  have h3 : r.used.toNat + 2 + 1 - r.used.toNat = 3 := by omega
  have hs₂ : strobed (r.used + 2) 0xc (r.used.toNat + 2) := by
    refine ⟨?_, ?_, ?_⟩
    · rw [used_index_word]
      omega
    · rw [used_index_word]
      omega
    · rw [used_index_word, h2]
      exact hc.1
  have hs₃ : strobed (r.used + 2) 0xc (r.used.toNat + 2 + 1) := by
    refine ⟨?_, ?_, ?_⟩
    · rw [used_index_word]
      omega
    · rw [used_index_word]
      omega
    · rw [used_index_word, h3]
      exact hc.2
  apply BitVec.eq_of_toNat_eq
  dsimp only [usedRam]
  rw [half_toNat, hq.deviceLo, used_index_strobe, strobe_of_strobed _ _ hs₂, strobe_of_strobed _ _ hs₃,
    used_index_word, h2, h3, wordByte_toNat, wordByte_toNat, BitVec.toNat_mul, BitVec.toNat_setWidth]
  have hm : (v.usedIdx + 1).toNat % 2 ^ 32 * (65537 : Word).toNat % 2 ^ 32 =
      (v.usedIdx + 1).toNat * 65537 := by
    change _ % 2 ^ 32 * 65537 % 2 ^ 32 = _
    omega
  have hd : (v.usedIdx + 1).toNat * 65537 / 65536 = (v.usedIdx + 1).toNat := by omega
  have hd' : (v.usedIdx + 1).toNat * 65537 / 16777216 = (v.usedIdx + 1).toNat / 256 := by omega
  rw [hm]
  change _ / 65536 % 256 + 256 * (_ / 16777216 % 256) = _
  rw [hd, hd']
  omega

end Device

def Transfer.Fits (c : Transfer) (drive : Drive) : Prop :=
  c.sector.toNat < drive.sectors ∧ c.sector.toNat + c.count.toNat ≤ drive.sectors

instance : Decidable (Transfer.Fits c drive) := inferInstanceAs (Decidable (_ ∧ _))

def Transfer.Wraps (c : Transfer) (drive : Drive) : Prop :=
  c.sector.toNat < drive.sectors ∧ c.sector.toNat + c.count.toNat % 2 ^ 23 ≤ drive.sectors

theorem Transfer.length_toNat (c : Transfer) :
    (c.count * 512).toNat = c.count.toNat % 2 ^ 23 * 512 := by
  rw [BitVec.toNat_mul]
  change c.count.toNat * 512 % 2 ^ 32 = _
  omega

theorem Transfer.fits_iff (r : Rings) (c : Transfer) (drive : Drive) :
    c.header.fits drive (c.chain r).data = true ↔ c.Wraps drive ∧ c.buffer.toNat % 4 = 0 := by
  have hw := drive.whole
  have hl := c.length_toNat
  have h3 : ∀ x : Word, x &&& 3 = 0 ↔ x.toNat % 4 = 0 := by
    intro x
    rw [← BitVec.toNat_inj]
    have := toNat_and_low x 2 (by omega)
    constructor
    · intro h
      exact this.symm.trans h
    · intro h
      exact this.trans h
  have hd : (c.chain r).data.write = (c.header.type = 0 : Bool) := by
    unfold Transfer.chain Transfer.header
    cases c.write <;> rfl
  unfold Header.fits Transfer.Wraps
  simp only [Bool.and_eq_true, decide_eq_true_eq, hd, and_true, h3]
  unfold Transfer.chain Transfer.header Drive.sectors
  dsimp only
  rw [hl]
  constructor
  · rintro ⟨⟨⟨⟨-, hs⟩, -⟩, hb⟩, hr⟩
    exact ⟨⟨hs, by omega⟩, hb⟩
  · rintro ⟨⟨hs, hr⟩, hb⟩
    exact ⟨⟨⟨⟨rfl, hs⟩, by omega⟩, hb⟩, by omega⟩

end TinyProcessors
