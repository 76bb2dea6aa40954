import TinyProcessors.Emu.Requests

namespace TinyProcessors

def VirtioBlk.indexed (v : VirtioBlk) (a : Nat) : Prop :=
  (v.driverLo + 2).toNat / 2 * 2 ≤ a ∧ a < (v.driverLo + 2).toNat / 2 * 2 + 2

def Blk.Spares (s : Blk) : Prop := ∀ w ∈ s.writes, ∀ a, s.v.indexed a → ¬ strobed w.1 w.2 a

theorem Blk.spares_iff (s : Blk) : s.Spares ↔ s.writes.all (fun w =>
    ¬ strobed w.1 w.2 ((s.v.driverLo + 2).toNat / 2 * 2) ∧
      ¬ strobed w.1 w.2 ((s.v.driverLo + 2).toNat / 2 * 2 + 1)) = true := by
  simp only [List.all_eq_true, decide_eq_true_eq]
  constructor
  · intro h w hw
    exact ⟨h w hw _ ⟨by omega, by omega⟩, h w hw _ ⟨by omega, by omega⟩⟩
  · intro h w hw a ha
    unfold VirtioBlk.indexed at ha
    obtain rfl | rfl : a = (s.v.driverLo + 2).toNat / 2 * 2 ∨
      a = (s.v.driverLo + 2).toNat / 2 * 2 + 1 := by omega
    · exact (h w hw).1
    · exact (h w hw).2

instance : DecidablePred Blk.Spares := fun s => decidable_of_iff' _ s.spares_iff

def Blk.Round (s s' : Blk) : Prop :=
  (∃ available, dmaRead16 s.mem.ram (s.v.driverLo + 2) = some available ∧
    available ≠ s.v.lastAvail) ∧ Blk.virtioRequest s = .ok () s'

theorem Blk.Round.nearer {s s' : Blk} (h : s.Round s') (hs : s.Spares) :
    dmaRead16 s'.mem.ram (s'.v.driverLo + 2) = dmaRead16 s.mem.ram (s.v.driverLo + 2) ∧
      s'.v.lastAvail = s.v.lastAvail + 1 := by
  obtain ⟨s₁, hk, rfl⟩ := virtioRequest_served h.2 s.v.indexed hs
  have hv := hk.queue
  have hd : s₁.served.v.driverLo = s.v.driverLo := by
    change s₁.v.driverLo = s.v.driverLo
    rw [hv]
  have hl : s₁.v.lastAvail = s.v.lastAvail := by rw [hv]
  refine ⟨?_, congrArg (· + 1) hl⟩
  rw [hd, dmaRead16_eq, dmaRead16_eq]
  have hh : s₁.served.mem.ram.half ((s.v.driverLo + 2).toNat / 2 * 2) =
      s.mem.ram.half ((s.v.driverLo + 2).toNat / 2 * 2) := by
    apply half_congr
    intro k hk'
    exact hk.ram _ ⟨by omega, by omega⟩
  rw [hh]

theorem serveLoop_ends (k : Nat) (s : Blk) (hk : (available - s.v.lastAvail).toNat = k)
    (hr : dmaRead16 s.mem.ram (s.v.driverLo + 2) = some available)
    (hs : ∀ t, Relation.ReflTransGen Blk.Round s t → t.Spares) (fuel : Nat) (hf : k < fuel) :
    (serveLoop fuel s).isSome := by
  -- the distance to the available index, modulo 2^16, falls by one in every round
  induction k generalizing s fuel with
  | zero =>
    obtain ⟨fuel, rfl⟩ := Nat.exists_eq_succ_of_ne_zero (Nat.ne_of_gt hf)
    have he : available = s.v.lastAvail := by
      have := BitVec.eq_of_toNat_eq (y := 0#16) hk
      exact sub_eq_zero.1 this
    simp only [serveLoop, hr, he, if_true, Option.isSome_some]
  | succ k ih =>
    obtain ⟨fuel, rfl⟩ := Nat.exists_eq_succ_of_ne_zero (Nat.ne_of_gt (Nat.zero_lt_of_lt hf))
    have hne : available ≠ s.v.lastAvail := by
      rintro rfl
      rw [BitVec.sub_self] at hk
      cases hk
    simp only [serveLoop, hr, if_neg hne]
    cases hq : Blk.virtioRequest s with
    | error u s' => rfl
    | ok u s' =>
      have hround : s.Round s' := ⟨⟨available, hr, hne⟩, hq⟩
      obtain ⟨hr', hl'⟩ := hround.nearer (hs s .refl)
      refine ih s' ?_ (hr'.trans hr) (fun t ht => hs t (.head hround ht)) fuel (by omega)
      rw [hl']
      have h1 := available.isLt
      have h2 := s.v.lastAvail.isLt
      rw [BitVec.toNat_sub] at hk ⊢
      rw [BitVec.toNat_add]
      change (2 ^ 16 - (s.v.lastAvail.toNat + 1) % 2 ^ 16 + available.toNat) % 2 ^ 16 = k
      omega

/-- Two requests by turns, each of which reads a sector into the available index. -/
def spinnerRam : Bytes :=
  (((Bytes.withWords (fun _ => 0) 0x80000000
      [0x80000300, 0, 16, 0x10001, 0x80000100, 0, 4, 0x20003, 0x80000400, 0, 1, 2,
        0x80000310, 0, 16, 0x10001]).withWords
    0x80000100 [0x10000, 0x30000, 0x30000]).withWords
    0x80000300 [0, 0, 0, 0, 0, 0, 1, 0])

def spinnerDrive : Drive := ⟨fun a => if a = 514 then 1 else 0, 1024, rfl, by decide⟩

def spinnerV (n : BitVec 16) (interrupt : Bool) : VirtioBlk where
  status := 0xf
  featuresSel := true
  queueSelZero := true
  queueReady := true
  interrupt := interrupt
  queueNum := 4
  descLo := 0x80000000
  descHi := 0
  driverLo := 0x80000100
  driverHi := 0
  deviceLo := 0x80000200
  deviceHi := 0
  lastAvail := n
  usedIdx := n
  drive := spinnerDrive
  file := none
  fileWrites := 0
  writeError := false

def spinner : Blk := ⟨⟨spinnerRam, fun _ => 0, ⟨false, 0, 0⟩⟩, spinnerV 0 false⟩

def spinnerFixed (a : Nat) : Prop :=
  (0x80000000 ≤ a ∧ a < 0x80000040) ∨ (0x80000104 ≤ a ∧ a < 0x8000010c) ∨
    (0x80000300 ≤ a ∧ a < 0x80000320)

/-- The states the loop goes through, after `n` requests. -/
structure Spinning (n : BitVec 16) (s : Blk) : Prop where
  v : ∃ interrupt, s.v = spinnerV n interrupt
  fixed : ∀ a, spinnerFixed a → s.mem.ram a = spinnerRam a
  index : s.mem.ram.half 0x80000102 = if n.toNat % 2 = 0 then 1 else 0

theorem Spinning.read (h : Spinning n s) {address : Word}
    (ha : spinnerFixed (address.toNat / 4 * 4) ∧ spinnerFixed (address.toNat / 4 * 4 + 3)) :
    dmaRead s.mem.ram address = dmaRead spinnerRam address := by
  unfold dmaRead
  rw [wordStart]
  have hw : s.mem.ram.word (address.toNat / 4 * 4) = spinnerRam.word (address.toNat / 4 * 4) := by
    apply word_congr
    intro k hk
    apply h.fixed
    unfold spinnerFixed at ha ⊢
    omega
  rw [hw]

instance : DecidablePred spinnerFixed := fun _ => inferInstanceAs (Decidable (_ ∨ _))

theorem Spinning.descriptor (h : Spinning n s) (i : Fin 4) (which : Nat) :
    chainDescriptor s.mem.ram s.v which (BitVec.ofNat 32 i) =
      chainDescriptor spinnerRam (spinnerV 0 false) which (BitVec.ofNat 32 i) := by
  have hb : ∀ i : Fin 4, (descriptorWords 0x80000000 (BitVec.ofNat 32 i)).all (fun address =>
      spinnerFixed (address.toNat / 4 * 4) ∧ spinnerFixed (address.toNat / 4 * 4 + 3)) = true := by
    decide
  simp only [List.all_eq_true, decide_eq_true_eq] at hb
  obtain ⟨b, hv⟩ := h.v
  have hd : readDescriptor s.mem.ram s.v (BitVec.ofNat 32 i) =
      readDescriptor spinnerRam (spinnerV 0 false) (BitVec.ofNat 32 i) :=
    readDescriptor_congr (by rw [hv]; rfl) fun address ha => h.read (hb i address ha)
  have hq : s.v.queueNum = (spinnerV 0 false).queueNum := by rw [hv]; rfl
  unfold chainDescriptor
  rw [hd, hq]

def spinnerData : Descriptor := ⟨0x80000100, 4, true, true, 2⟩

def spinnerChain (n : BitVec 16) : Chain where
  head := if n.toNat % 2 = 0 then 0 else 3
  header := ⟨if n.toNat % 2 = 0 then 0x80000300 else 0x80000310, 16, true, false, 1⟩
  data := spinnerData
  status := ⟨0x80000400, 1, false, true, 0⟩

def spinnerHeader (n : BitVec 16) : Header := ⟨0, if n.toNat % 2 = 0 then 0 else 1, 0⟩

theorem spinner_slot (n : BitVec 16) :
    n.setWidth 32 &&& (4 - 1) = BitVec.ofNat 32 (n.toNat % 4) :=
  ring_slot n 2 (by omega) (by decide)

theorem Spinning.head (h : Spinning n s) :
    dmaRead16 s.mem.ram (s.v.driverLo + 4 + 2 * (s.v.lastAvail.setWidth 32 &&& (s.v.queueNum - 1))) =
      some (if n.toNat % 2 = 0 then 0 else 3) := by
  have hb : ∀ k : Fin 4,
      spinnerFixed ((0x80000100 + 4 + 2 * BitVec.ofNat 32 k : Word).toNat / 4 * 4) ∧
        spinnerFixed ((0x80000100 + 4 + 2 * BitVec.ofNat 32 k : Word).toNat / 4 * 4 + 3) := by
    decide
  have hs : ∀ k : Fin 4, dmaRead16 spinnerRam (0x80000100 + 4 + 2 * BitVec.ofNat 32 k) =
    some (if k.val % 2 = 0 then 0 else 3) := by decide
  obtain ⟨b, hv⟩ := h.v
  have ha : s.v.driverLo + 4 + 2 * (s.v.lastAvail.setWidth 32 &&& (s.v.queueNum - 1)) =
      0x80000100 + 4 + 2 * BitVec.ofNat 32 (n.toNat % 4) := by
    rw [hv, ← spinner_slot]
    rfl
  have hm : n.toNat % 2 = n.toNat % 4 % 2 := by omega
  have hk := hs ⟨n.toNat % 4, by omega⟩
  rw [ha, hm, ← hk]
  unfold dmaRead16
  rw [h.read (hb ⟨n.toNat % 4, by omega⟩)]

theorem spinner_descriptors :
    chainDescriptor spinnerRam (spinnerV 0 false) 0 0 = some ⟨0x80000300, 16, true, false, 1⟩ ∧
      chainDescriptor spinnerRam (spinnerV 0 false) 0 3 =
        some ⟨0x80000310, 16, true, false, 1⟩ ∧
      chainDescriptor spinnerRam (spinnerV 0 false) 1 1 = some spinnerData ∧
      chainDescriptor spinnerRam (spinnerV 0 false) 2 2 =
        some ⟨0x80000400, 1, false, true, 0⟩ := by
  decide

theorem Spinning.chain (h : Spinning n s) :
    readChain s.mem.ram s.v = some (spinnerChain n) := by
  obtain ⟨h₀, h₃, h₁, h₂⟩ := spinner_descriptors
  have hd := h.descriptor
  have hh := h.head
  obtain ⟨b, hv⟩ := h.v
  have hq : s.v.queueNum = 4 := by rw [hv]; rfl
  unfold spinnerChain
  by_cases hn : n.toNat % 2 = 0
  · rw [if_pos hn] at hh ⊢
    rw [if_pos hn]
    exact readChain_eq hh (by rw [hq]; decide) ((hd 0 0).trans h₀) ((hd 1 1).trans h₁)
      ((hd 2 2).trans h₂)
  · rw [if_neg hn] at hh ⊢
    rw [if_neg hn]
    exact readChain_eq hh (by rw [hq]; decide) ((hd 3 0).trans h₃) ((hd 1 1).trans h₁)
      ((hd 2 2).trans h₂)

theorem Spinning.header (h : Spinning n s) :
    readHeader s.mem.ram (spinnerChain n).header.address = some (spinnerHeader n) := by
  have hb : [0x80000300, (0x80000310 : Word)].all (fun base => [0, 8, (12 : Word)].all fun offset =>
      spinnerFixed ((base + offset).toNat / 4 * 4) ∧
        spinnerFixed ((base + offset).toNat / 4 * 4 + 3)) = true := by decide
  simp only [List.all_eq_true, decide_eq_true_eq] at hb
  have hs : readHeader spinnerRam 0x80000300 = some ⟨0, 0, 0⟩ ∧
      readHeader spinnerRam 0x80000310 = some ⟨0, 1, 0⟩ := by decide
  have hr : ∀ base ∈ [0x80000300, (0x80000310 : Word)],
      readHeader s.mem.ram base = readHeader spinnerRam base := by
    intro base hm
    have h₀ := h.read (hb base hm 0 (by decide))
    rw [add_zero] at h₀
    unfold readHeader
    rw [h₀, h.read (hb base hm 8 (by decide)), h.read (hb base hm 12 (by decide))]
  unfold spinnerChain spinnerHeader
  by_cases hn : n.toNat % 2 = 0
  · simp only [if_pos hn]
    exact (hr _ (by decide)).trans hs.1
  · simp only [if_neg hn]
    exact (hr _ (by decide)).trans hs.2

theorem spinner_used (n : BitVec 16) (interrupt : Bool) :
    ∀ w ∈ usedWords (spinnerChain n) (spinnerV n interrupt),
      dmaWord w.1 = true ∧
        (0x80000200 ≤ (w.1 &&& ~~~3).toNat ∧ (w.1 &&& ~~~3).toNat < 0x80000240 ∨
          (w.1 &&& ~~~3).toNat = 0x80000400) := by
  have hb : ∀ k : Fin 4, [((0x80000400 : Word), (1 : Word) <<< (0x80000400 &&& 3 : Word).toNat),
      (0x80000200 + 4 + 8 * BitVec.ofNat 32 k, 0xf),
      (0x80000200 + 4 + 8 * BitVec.ofNat 32 k + 4, 0xf),
      (0x80000200 + 2, if (0x80000200 : Word) &&& 2 ≠ 0 then 0x3 else 0xc)].all (fun w =>
      dmaWord w.1 = true ∧ (0x80000200 ≤ (w.1 &&& ~~~3).toNat ∧ (w.1 &&& ~~~3).toNat < 0x80000240 ∨
        (w.1 &&& ~~~3).toNat = 0x80000400)) = true := by decide
  simp only [List.all_eq_true, decide_eq_true_eq] at hb
  have hw := hb ⟨n.toNat % 4, by omega⟩
  dsimp only at hw
  rw [← spinner_slot] at hw
  exact hw

theorem spinner_unused (n : BitVec 16) (interrupt : Bool)
    (ha : spinnerFixed a ∨ a = 0x80000102 ∨ a = 0x80000103) :
    ∀ w ∈ usedWords (spinnerChain n) (spinnerV n interrupt), ¬ strobed w.1 w.2 a := by
  intro w hw ⟨hl, hr, _⟩
  have hb := (spinner_used n interrupt w hw).2
  unfold spinnerFixed at ha
  omega

theorem Spinning.available (h : Spinning n s) :
    dmaRead16 s.mem.ram (s.v.driverLo + 2) = some (if n.toNat % 2 = 0 then 1 else 0) := by
  obtain ⟨b, hv⟩ := h.v
  have hd : s.v.driverLo + 2 = 0x80000102 := by
    rw [hv]
    change (0x80000100 + 2 : Word) = 0x80000102
    decide
  rw [hd, dmaRead16_eq, if_pos (by decide)]
  exact congrArg some h.index

theorem spinner_fits (n : BitVec 16) :
    (spinnerHeader n).fits spinnerDrive spinnerData = true := by
  unfold spinnerHeader
  by_cases hn : n.toNat % 2 = 0
  · rw [if_pos hn]
    decide
  · rw [if_neg hn]
    decide

theorem spinner_index (n : BitVec 16) (ram : Bytes) :
    (ram.overwrite 0x80000100 4 (spinnerDrive.bytes.window
      ((spinnerHeader n).sector.toNat * 512))).half 0x80000102 =
      if (n + 1).toNat % 2 = 0 then 1 else 0 := by
  have hn1 : (n + 1).toNat % 2 = (n.toNat + 1) % 2 := by
    rw [BitVec.toNat_add]
    change (n.toNat + 1) % 2 ^ 16 % 2 = _
    omega
  rw [hn1]
  unfold Bytes.half spinnerHeader
  rw [overwrite_of_mem (by decide) (by decide), overwrite_of_mem (by decide) (by decide)]
  by_cases hn : n.toNat % 2 = 0
  · rw [if_pos hn, if_neg (by omega)]
    decide
  · rw [if_neg hn, if_pos (by omega)]
    decide

theorem spinnerData_span :
    spinnerData.address.toNat = 0x80000100 ∧ 4 * (spinnerData.length.toNat / 4) = 4 := by
  decide

theorem spinnerData_inDma : inDma spinnerData.address (spinnerData.length.toNat / 4) := by
  unfold inDma
  decide

theorem Spinning.step (h : Spinning n s) : ∃ s', s.Round s' ∧ Spinning (n + 1) s' := by
  have hav := h.available
  have hch := h.chain
  have hhe := h.header
  obtain ⟨b, hv⟩ := h.v
  have hdr : s.v.drive = spinnerDrive := by rw [hv]; rfl
  have hl : s.v.lastAvail = n := by rw [hv]; rfl
  have hu := spinner_used n b
  have hun := fun a => @spinner_unused a n b
  rw [← hv] at hu hun
  have ha : Runs (answer (spinnerHeader n) (spinnerChain n).data) s _ :=
    answer_in s rfl (by rw [hdr]; exact spinner_fits n) (by rw [hv]; rfl) spinnerData_inDma
  have hp := performRequest_runs hch hhe (fun w hw => (hu w hw).1) (ha.mono fun r s₁ hs₁ =>
    ⟨hs₁, by rw [hs₁.2.v]; exact .refl _⟩)
  obtain ⟨_, s₂, he, r, s₁, ⟨rfl, hs₁⟩, -, hs₂⟩ := hp
  have hram : s₁.mem.ram = s.mem.ram.overwrite 0x80000100 4
      (spinnerDrive.bytes.window ((spinnerHeader n).sector.toNat * 512)) := by
    obtain ⟨ha, hn⟩ := spinnerData_span
    have hd : (spinnerChain n).data = spinnerData := rfl
    rw [hs₁.ram, hdr, hd, ha, hn]
  refine ⟨s₂.served, ⟨⟨_, hav, ?_⟩, ?_⟩, ⟨true, ?_⟩, ?_, ?_⟩
  · -- the index is odd where the device is even, and even where it is odd
    rw [hl]
    intro hn
    have hm := congrArg (fun x : BitVec 16 => x.toNat % 2) hn
    split at hm
    next h0 =>
      change 1 = _ at hm
      omega
    next h0 =>
      change 0 = _ at hm
      omega
  · change EStateM.bind performRequest (fun _ => modify Blk.served) s = _
    unfold EStateM.bind
    rw [he]
    rfl
  · unfold Blk.served
    rw [hs₂.v, hs₁.v, hv]
    rfl
  · intro a ha
    change s₂.mem.ram a = _
    rw [hs₂.ram, usedRam_of_not _ _ _ (hun a (.inl ha)), hram, ← h.fixed a ha]
    apply overwrite_of_not_mem
    unfold spinnerFixed at ha
    omega
  · rw [← spinner_index n s.mem.ram]
    apply half_congr
    intro k hk
    change s₂.mem.ram _ = _
    rw [hs₂.ram, usedRam_of_not _ _ _ (hun _ (by omega)), hram]

theorem Spinning.never (fuel : Nat) (h : Spinning n s) : serveLoop fuel s = none := by
  induction fuel generalizing n s with
  | zero => rfl
  | succ fuel ih =>
    obtain ⟨s', ⟨⟨available, hr, hne⟩, hq⟩, hs'⟩ := h.step
    simp only [serveLoop, hr, if_neg hne, hq]
    exact ih hs'

def steady : Blk :=
  { spinner with mem := { spinner.mem with ram := spinnerRam.withWords 0x80000010 [0x80000500] } }

end TinyProcessors
