import TinyProcessors.Emu.Virtio
import TinyProcessors.Lib.Bits
import TinyProcessors.Lib.Logic

namespace TinyProcessors

def strobed (address strobe : Word) (a : Nat) : Prop :=
  (address &&& ~~~3).toNat ≤ a ∧ a < (address &&& ~~~3).toNat + 4 ∧
    strobe.getLsbD (a - (address &&& ~~~3).toNat)

instance : Decidable (strobed address strobe a) := inferInstanceAs (Decidable (_ ∧ _))

theorem strobe_of_strobed (m : Bytes) (value : Word) (h : strobed address strobe a) :
    m.strobe (address &&& ~~~3).toNat value strobe a =
      wordByte value (a - (address &&& ~~~3).toNat) :=
  if_pos h

theorem strobe_of_not (m : Bytes) (value : Word) (h : ¬ strobed address strobe a) :
    m.strobe (address &&& ~~~3).toNat value strobe a = m a :=
  if_neg h

def VirtioBlk.SameQueue (v v' : VirtioBlk) : Prop :=
  v' = { v with drive := v'.drive, fileWrites := v'.fileWrites, writeError := v'.writeError }

theorem VirtioBlk.SameQueue.refl (v : VirtioBlk) : v.SameQueue v := rfl

theorem VirtioBlk.SameQueue.trans {v v' v'' : VirtioBlk} (h : v.SameQueue v')
    (h' : v'.SameQueue v'') : v.SameQueue v'' := by
  unfold VirtioBlk.SameQueue at *
  rw [h] at h'
  exact h'

theorem VirtioBlk.diskWritten_same (v : VirtioBlk) : v.SameQueue v.diskWritten := by
  unfold VirtioBlk.diskWritten
  split
  · exact .refl v
  · rfl

structure Blk.Keeps (P : Nat → Prop) (s s' : Blk) : Prop where
  ram : ∀ a, P a → s'.mem.ram a = s.mem.ram a
  queue : s.v.SameQueue s'.v

instance : IsPreorder Blk (Blk.Keeps P) where
  refl _ := ⟨fun _ _ => rfl, .refl _⟩
  trans _ _ _ h h' := ⟨fun a ha => (h'.ram a ha).trans (h.ram a ha), h.queue.trans h'.queue⟩

abbrev Sparing (P : Nat → Prop) (m : Service α) (s : Blk) : Prop :=
  Does (Blk.Keeps P) (fun _ _ _ => True) m s fun _ _ => True

theorem sparing_expect {k : α → Service β} (h : ∀ a, o = some a → Sparing P (k a) s) :
    Sparing P (expect o >>= k) s := by
  cases o with
  | none => exact .throw trivial
  | some a => exact h a rfl

theorem dmaWrite_sparing (value : Word) (h : ∀ a, P a → ¬ strobed address strobe a) (s : Blk) :
    Sparing P (dmaWrite address value strobe) s := by
  refine .read ?_
  unfold Memory.dmaWrite
  split
  · refine .set ⟨fun a ha => ?_, .refl _⟩ trivial
    change Bytes.strobe (s.mem.snoopDeviceWrite address).ram _ value strobe a = _
    rw [strobe_of_not _ _ (h a ha), Memory.snoop_ram]
  · exact .throw trivial

theorem moveOut_sparing (sector buffer : Word) (i : Nat) (s : Blk) :
    Sparing P (moveOut sector buffer i) s := by
  refine .read ?_
  dsimp only
  split
  · refine .bind (P := fun _ _ => True) (.set ⟨fun _ _ => rfl, s.v.diskWritten_same⟩ trivial) ?_
    intro _ _ _ _
    exact .throw trivial
  · exact .set ⟨fun _ _ => rfl, rfl⟩ trivial

def dataWords (h : Header) (drive : Drive) (data : Descriptor) : List (Word × Word) :=
  if h.type = 0 ∧ h.fits drive data then
    (List.range (data.length.toNat / 4)).map fun i => (data.address + 4 * BitVec.ofNat 32 i, 0xf)
  else []

def usedWords (c : Chain) (v : VirtioBlk) : List (Word × Word) :=
  let used := v.deviceLo + 4 + 8 * (v.usedIdx.setWidth 32 &&& (v.queueNum - 1))
  [(c.status.address, 1 <<< (c.status.address &&& 3).toNat), (used, 0xf), (used + 4, 0xf),
    (v.deviceLo + 2, if v.deviceLo &&& 2 ≠ 0 then 0x3 else 0xc)]

theorem moveData_sparing (h : Header) (data : Descriptor) (s : Blk)
    (hw : h.type = 0 → ∀ i < data.length.toNat / 4, ∀ a, P a →
      ¬ strobed (data.address + 4 * BitVec.ofNat 32 i) 0xf a) :
    Sparing P (moveData h data) s := by
  unfold moveData
  split
  next ht =>
    refine Does.forM _ (fun i hi s => .read ?_) s
    exact dmaWrite_sparing _ (hw ht i (List.mem_range.1 hi)) s
  next =>
    refine .seq (Does.forM _ (fun i _ s => moveOut_sparing _ _ i s) s) fun _ s' _ => ?_
    exact .modify ⟨fun _ _ => rfl, s'.v.diskWritten_same⟩ trivial

theorem answer_sparing (h : Header) (data : Descriptor) (s : Blk)
    (hw : ∀ w ∈ dataWords h s.v.drive data, ∀ a, P a → ¬ strobed w.1 w.2 a) :
    Sparing P (answer h data) s := by
  refine .read ?_
  split
  · exact .pure trivial
  · split
    · exact .pure trivial
    next hf =>
      refine .seq (moveData_sparing h data s fun ht i hi a ha => ?_) fun _ s' _ => .read ?_
      · refine hw (data.address + 4 * BitVec.ofNat 32 i, 0xf) ?_ a ha
        rw [dataWords, if_pos ⟨ht, by simpa using hf⟩]
        exact List.mem_map.2 ⟨i, List.mem_range.2 hi, rfl⟩
      · exact .pure trivial

theorem writeUsed_sparing (c : Chain) (written result : Word) (s : Blk)
    (hw : ∀ w ∈ usedWords c s.v, ∀ a, P a → ¬ strobed w.1 w.2 a) :
    Sparing P (writeUsed c written result) s := by
  refine .read ?_
  have hu : ∀ w ∈ usedWords c s.v, ∀ value s', Sparing P (dmaWrite w.1 value w.2) s' :=
    fun w hm value s' => dmaWrite_sparing value (hw w hm) s'
  simp only [usedWords, List.mem_cons, List.not_mem_nil, or_false, forall_eq_or_imp,
    forall_eq] at hu
  obtain ⟨h₁, h₂, h₃, h₄⟩ := hu
  exact .seq (h₁ _ s) fun _ s₁ _ => .seq (h₂ _ s₁) fun _ s₂ _ => .seq (h₃ _ s₂) fun _ s₃ _ => h₄ _ s₃

def descriptorWords (base index : Word) : List Word :=
  let base := base + 16 * index
  [base, base + 4, base + 8, base + 12]

theorem readDescriptor_congr (hd : v'.descLo = v.descLo)
    (h : ∀ address ∈ descriptorWords v.descLo index, dmaRead ram' address = dmaRead ram address) :
    readDescriptor ram' v' index = readDescriptor ram v index := by
  simp only [descriptorWords, List.mem_cons, List.not_mem_nil, or_false, forall_eq_or_imp,
    forall_eq] at h
  obtain ⟨h₀, h₁, h₂, h₃⟩ := h
  simp only [readDescriptor, hd, h₀, h₁, h₂, h₃]

theorem readChain_eq
    (hh : dmaRead16 ram (v.driverLo + 4 + 2 * (v.lastAvail.setWidth 32 &&& (v.queueNum - 1))) =
      some head)
    (hlt : head.setWidth 32 < v.queueNum)
    (h₀ : chainDescriptor ram v 0 (head.setWidth 32) = some header)
    (h₁ : chainDescriptor ram v 1 header.next = some data)
    (h₂ : chainDescriptor ram v 2 data.next = some status) :
    readChain ram v = some ⟨head.setWidth 32, header, data, status⟩ := by
  unfold readChain
  dsimp only
  rw [hh, Option.bind_eq_bind, Option.bind_some, guard, if_pos hlt]
  change (chainDescriptor ram v 0 (head.setWidth 32)).bind _ = _
  rw [h₀, Option.bind_some, h₁, Option.bind_eq_bind, Option.bind_some, h₂, Option.bind_some]
  rfl

def Blk.writes (s : Blk) : List (Word × Word) :=
  match readChain s.mem.ram s.v with
  | none => []
  | some c => match readHeader s.mem.ram c.header.address with
    | none => []
    | some h => dataWords h s.v.drive c.data ++ usedWords c s.v

theorem performRequest_sparing (s : Blk) (hw : ∀ w ∈ s.writes, ∀ a, P a → ¬ strobed w.1 w.2 a) :
    Sparing P performRequest s := by
  refine .read (sparing_expect fun c hc => sparing_expect fun h hh => ?_)
  simp only [Blk.writes, hc, hh, List.mem_append] at hw
  refine .bind (answer_sparing h c.data s fun w hm => hw w (.inl hm)) fun result s₁ hk _ => ?_
  have hu : usedWords c s₁.v = usedWords c s.v := by
    rw [hk.queue]
    rfl
  exact writeUsed_sparing c _ result s₁ fun w hm => hw w (.inr (hu ▸ hm))

/-- A request served leaves the other bytes and moves both indices by one. -/
theorem virtioRequest_served (he : Blk.virtioRequest s = .ok u s') (P : Nat → Prop)
    (hw : ∀ w ∈ s.writes, ∀ a, P a → ¬ strobed w.1 w.2 a) :
    ∃ s₁, s.Keeps P s₁ ∧ s' = s₁.served := by
  have h := performRequest_sparing s hw
  have he' : EStateM.bind performRequest (fun _ => modify Blk.served) s = .ok u s' := he
  unfold EStateM.bind at he'
  cases hp : performRequest s with
  | ok _ s₁ =>
    rw [hp] at he'
    cases he'
    exact ⟨s₁, (h.ok hp).1, rfl⟩
  | error _ s₁ =>
    rw [hp] at he'
    cases he'

theorem wordStart (address : Word) : (address &&& ~~~3).toNat = address.toNat / 4 * 4 :=
  toNat_and_not_low address 2 (by omega)

theorem dmaWord_of {address : Word} (hl : 0x80000000 ≤ address.toNat)
    (hr : address.toNat < 0x81000000) : dmaWord address = true := by
  simp only [dmaWord, ramBase, ramSize, Bool.and_eq_true, decide_eq_true_eq]
  omega

theorem dmaRead_at (ram : Bytes) {address : Word} (hn : address.toNat = n) (h4 : n % 4 = 0)
    (hl : 0x80000000 ≤ n) (hr : n < 0x81000000) : dmaRead ram address = some (ram.word n) := by
  rw [dmaRead, if_pos (dmaWord_of (by omega) (by omega)), wordStart, hn]
  congr 2
  omega

theorem ring_slot (n : BitVec 16) (k : Nat) (hk : k ≤ 16)
    (hq : queueNum - 1 = BitVec.ofNat 32 (2 ^ k - 1)) :
    n.setWidth 32 &&& (queueNum - 1) = BitVec.ofNat 32 (n.toNat % 2 ^ k) := by
  have hn := n.isLt
  have hpos : 0 < 2 ^ k := Nat.two_pow_pos k
  have hlt := Nat.mod_lt n.toNat hpos
  have hle : 2 ^ k ≤ 2 ^ 16 := Nat.pow_le_pow_right (by omega) hk
  apply BitVec.eq_of_toNat_eq
  rw [hq, toNat_and_low _ k (by omega), BitVec.toNat_ofNat, BitVec.toNat_setWidth,
    Nat.mod_eq_of_lt (a := n.toNat) (by omega), Nat.mod_eq_of_lt (b := 2 ^ 32) (by omega)]

theorem dmaRead16_eq (ram : Bytes) (address : Word) :
    dmaRead16 ram address =
      if dmaWord address then some (ram.half (address.toNat / 2 * 2)) else none := by
  have hbit := and_two_pow_eq_zero address 1 (by omega)
  unfold dmaRead16 dmaRead
  by_cases hd : dmaWord address = true
  · rw [if_pos hd, if_pos hd, Option.map_some, wordStart]
    congr 1
    split
    next hh =>
      rw [word_high]
      congr 1
      have := mt hbit.2 hh
      omega
    next hh =>
      rw [word_low]
      congr 1
      have := hbit.1 (not_not.1 hh)
      omega
  · rw [if_neg hd, if_neg hd, Option.map_none]

theorem strobe_all (m : Bytes) (start : Nat) (value : Word) :
    m.strobe start value 0xf = m.overwrite start 4 (wordByte value) := by
  funext a
  by_cases ha : start ≤ a ∧ a < start + 4
  · have hk : ∀ k < 4, (0xf : Word).getLsbD k = true := by decide
    rw [overwrite_of_mem ha.1 ha.2]
    exact if_pos ⟨ha.1, ha.2, hk _ (by omega)⟩
  · rw [overwrite_of_not_mem (by omega)]
    exact if_neg fun h => ha ⟨h.1, h.2.1⟩

structure Blk.Stored (s : Blk) (ram : Bytes) (s' : Blk) : Prop where
  ram : s'.mem.ram = ram
  fb : s'.mem.fb = s.mem.fb
  v : s'.v = s.v

theorem dmaWrite_runs (s : Blk) (value strobe : Word) (h : dmaWord address = true) :
    Runs (dmaWrite address value strobe) s fun _ s' =>
      s.Stored (s.mem.ram.strobe (address &&& ~~~3).toNat value strobe) s' := by
  refine .read ?_
  rw [Memory.dmaWrite, if_pos h]
  refine .set ⟨?_, Memory.snoop_fb _ _, rfl⟩
  change Bytes.strobe (s.mem.snoopDeviceWrite address).ram _ value strobe = _
  rw [Memory.snoop_ram]

def inDma (address : Word) (n : Nat) : Prop :=
  address.toNat % 4 = 0 ∧ 0x80000000 ≤ address.toNat ∧ address.toNat + 4 * n ≤ 0x81000000

theorem inDma.word (h : inDma address n) (hi : i < n) :
    (address + 4 * BitVec.ofNat 32 i).toNat = address.toNat + 4 * i := by
  obtain ⟨-, hl, hr⟩ := h
  rw [BitVec.toNat_add, BitVec.toNat_mul, BitVec.toNat_ofNat, Nat.mod_eq_of_lt (a := i) (by omega)]
  change (address.toNat + 4 * i % 2 ^ 32) % 2 ^ 32 = _
  omega

theorem inDma.dmaWord (h : inDma address n) (hi : i < n) :
    dmaWord (address + 4 * BitVec.ofNat 32 i) = true := by
  have hw := h.word hi
  obtain ⟨-, hl, hr⟩ := h
  exact dmaWord_of (by omega) (by omega)

theorem inDma.start (h : inDma address n) (hi : i < n) :
    ((address + 4 * BitVec.ofNat 32 i) &&& ~~~3).toNat = address.toNat + 4 * i := by
  rw [wordStart, h.word hi]
  have := h.1
  omega

theorem inDma.read (h : inDma address n) (hi : i < n) (ram : Bytes) :
    dmaRead ram (address + 4 * BitVec.ofNat 32 i) = some (ram.word (address.toNat + 4 * i)) := by
  rw [dmaRead, if_pos (h.dmaWord hi), h.start hi]

theorem window_word (m : Bytes) (start i : Nat) : Bytes.word (m.window start) i = m.word (start + i) := by
  apply word_congr
  intro k _
  rw [window_apply, Nat.add_assoc]

theorem overwrite_word (m src : Bytes) (start i : Nat) :
    (m.overwrite start (4 * i) src).overwrite (start + 4 * i) 4 (wordByte (src.word (4 * i))) =
      m.overwrite start (4 * (i + 1)) src := by
  have he : 4 * (i + 1) = 4 * i + 4 := by omega
  rw [he, ← overwrite_append]
  apply overwrite_congr
  intro k hk
  rw [wordByte_word _ _ _ hk, window_apply]

theorem moveIn_runs (s : Blk) (sector : Word) (h : inDma buffer n) :
    Runs ((List.range n).forM (moveIn sector buffer)) s fun _ s' =>
      s.Stored (s.mem.ram.overwrite buffer.toNat (4 * n)
        (s.v.drive.bytes.window (sector.toNat * 512))) s' := by
  refine Runs.forM_range (P := fun i => s.Stored (s.mem.ram.overwrite buffer.toNat (4 * i)
    (s.v.drive.bytes.window (sector.toNat * 512)))) n ⟨?_, rfl, rfl⟩ fun i s₁ hi h₁ => ?_
  · rw [Nat.mul_zero, overwrite_zero]
  · refine .read (Runs.mono (dmaWrite_runs s₁ _ _ (h.dmaWord hi)) fun _ s₂ h₂ => ?_)
    refine ⟨?_, h₂.fb.trans h₁.fb, h₂.v.trans h₁.v⟩
    rw [h₂.ram, strobe_all, h.start hi, h₁.ram, h₁.v, ← overwrite_word, window_word]

def Blk.Recorded (s : Blk) (bytes : Bytes) (s' : Blk) : Prop :=
  s' = { s with v := { s.v with drive := { s.v.drive with bytes } } }

theorem moveOut_runs (s : Blk) (sector : Word) (h : inDma buffer n) :
    Runs ((List.range n).forM (moveOut sector buffer)) s fun _ s' =>
      s.Recorded (s.v.drive.bytes.overwrite (sector.toNat * 512) (4 * n)
        (s.mem.ram.window buffer.toNat)) s' := by
  refine Runs.forM_range (P := fun i => s.Recorded (s.v.drive.bytes.overwrite (sector.toNat * 512)
    (4 * i) (s.mem.ram.window buffer.toNat))) n ?_ fun i s₁ hi h₁ => ?_
  · unfold Blk.Recorded
    rw [Nat.mul_zero, overwrite_zero]
  · refine .read ?_
    rw [h.read hi]
    refine .set ?_
    unfold Blk.Recorded at h₁ ⊢
    rw [h₁, ← overwrite_word, window_word]
    rfl

def usedRam (c : Chain) (v : VirtioBlk) (written result : Word) (ram : Bytes) : Bytes :=
  let used := v.deviceLo + 4 + 8 * (v.usedIdx.setWidth 32 &&& (v.queueNum - 1))
  let ram := ram.strobe (c.status.address &&& ~~~3).toNat (result * 0x01010101)
    (1 <<< (c.status.address &&& 3).toNat)
  let ram := ram.strobe (used &&& ~~~3).toNat c.head 0xf
  let ram := ram.strobe ((used + 4) &&& ~~~3).toNat written 0xf
  ram.strobe ((v.deviceLo + 2) &&& ~~~3).toNat ((v.usedIdx + 1).setWidth 32 * 0x10001)
    (if v.deviceLo &&& 2 ≠ 0 then 0x3 else 0xc)

theorem usedRam_of_not (written result : Word) (ram : Bytes)
    (h : ∀ w ∈ usedWords c v, ¬ strobed w.1 w.2 a) : usedRam c v written result ram a = ram a := by
  simp only [usedWords, List.mem_cons, List.not_mem_nil, or_false, forall_eq_or_imp,
    forall_eq] at h
  obtain ⟨h₁, h₂, h₃, h₄⟩ := h
  dsimp only [usedRam]
  rw [strobe_of_not _ _ h₄, strobe_of_not _ _ h₃, strobe_of_not _ _ h₂, strobe_of_not _ _ h₁]

theorem writeUsed_runs (s : Blk) (c : Chain) (written result : Word)
    (h : ∀ w ∈ usedWords c s.v, dmaWord w.1 = true) :
    Runs (writeUsed c written result) s fun _ s' =>
      s.Stored (usedRam c s.v written result s.mem.ram) s' := by
  simp only [usedWords, List.mem_cons, List.not_mem_nil, or_false, forall_eq_or_imp,
    forall_eq] at h
  obtain ⟨hw₁, hw₂, hw₃, hw₄⟩ := h
  refine .read (.bind (dmaWrite_runs s _ _ hw₁) fun _ s₁ h₁ => ?_)
  refine .bind (dmaWrite_runs s₁ _ _ hw₂) fun _ s₂ h₂ => ?_
  refine .bind (dmaWrite_runs s₂ _ _ hw₃) fun _ s₃ h₃ => ?_
  refine Runs.mono (dmaWrite_runs s₃ _ _ hw₄) fun _ s₄ h₄ => ⟨?_, ?_, ?_⟩
  · rw [h₄.ram, h₃.ram, h₂.ram, h₁.ram]
    rfl
  · exact h₄.fb.trans (h₃.fb.trans (h₂.fb.trans h₁.fb))
  · exact h₄.v.trans (h₃.v.trans (h₂.v.trans h₁.v))

theorem runs_expect {k : α → Service β} (ho : o = some a) (h : Runs (k a) s Q) :
    Runs (expect o >>= k) s Q := by
  rw [ho]
  exact h

theorem performRequest_runs {Q : Word → Blk → Prop} (hc : readChain s.mem.ram s.v = some c)
    (hh : readHeader s.mem.ram c.header.address = some h)
    (hu : ∀ w ∈ usedWords c s.v, dmaWord w.1 = true)
    (ha : Runs (answer h c.data) s fun r s' => Q r s' ∧ s.v.SameQueue s'.v) :
    Runs performRequest s fun _ s' => ∃ r s₁, Q r s₁ ∧ s.v.SameQueue s₁.v ∧
      s₁.Stored (usedRam c s.v (if r = 0 ∧ h.type = 0 then c.data.length + 1 else 1) r
        s₁.mem.ram) s' := by
  refine .read (runs_expect hc (runs_expect hh (.bind ha fun r s₁ ⟨hq, hv⟩ => ?_)))
  have hus : usedWords c s₁.v = usedWords c s.v := by
    rw [hv]
    rfl
  refine Runs.mono (writeUsed_runs s₁ c _ r fun w hw => hu w (hus ▸ hw)) fun _ s₂ h₂ => ?_
  refine ⟨r, s₁, hq, hv, ?_⟩
  have hur : ∀ written ram, usedRam c s₁.v written r ram = usedRam c s.v written r ram := by
    intro written ram
    rw [hv]
    rfl
  rw [hur] at h₂
  exact h₂

structure VirtioBlk.Sound (v : VirtioBlk) : Prop where
  noError : v.writeError = false
  takes : ∀ fails, v.file = some fails → ∀ n, fails n = false

theorem VirtioBlk.Sound.diskWritten {v : VirtioBlk} (h : v.Sound) : v.diskWritten.Sound := by
  unfold VirtioBlk.diskWritten
  split
  · exact h
  next fails hf =>
    refine ⟨?_, h.takes⟩
    change (v.writeError || fails v.fileWrites) = false
    rw [h.noError, h.takes fails hf, Bool.or_false]

theorem VirtioBlk.diskWritten_drive (v : VirtioBlk) : v.diskWritten.drive = v.drive := by
  unfold VirtioBlk.diskWritten
  split <;> rfl

structure Blk.Wrote (s : Blk) (bytes : Bytes) (s' : Blk) : Prop where
  mem : s'.mem = s.mem
  sound : s'.v.Sound
  queue : s.v.SameQueue s'.v
  drive : s'.v.drive = { s.v.drive with bytes }

theorem Blk.Recorded.wrote {s s₁ : Blk} (h : s.Recorded bytes s₁) (hs : s.v.Sound) :
    s.Wrote bytes { s₁ with v := s₁.v.diskWritten } := by
  have hq : s.v.SameQueue s₁.v := by
    rw [h]
    rfl
  have hso : s₁.v.Sound := by
    rw [h]
    exact ⟨hs.noError, hs.takes⟩
  refine ⟨by rw [h], hso.diskWritten, hq.trans s₁.v.diskWritten_same, ?_⟩
  rw [VirtioBlk.diskWritten_drive, h]

theorem answer_refused (s : Blk) (ht : h.type ≤ 1) (hf : h.fits s.v.drive data = false) :
    Runs (answer h data) s fun r s' => r = 1 ∧ s' = s := by
  have hn : ¬ 1 < h.type := by
    rw [BitVec.not_lt]
    exact ht
  refine .read ?_
  rw [if_neg hn, hf]
  exact .pure ⟨rfl, rfl⟩

theorem answer_in (s : Blk) (ht : h.type = 0) (hf : h.fits s.v.drive data = true)
    (hs : s.v.writeError = false) (hd : inDma data.address (data.length.toNat / 4)) :
    Runs (answer h data) s fun r s' => r = 0 ∧
      s.Stored (s.mem.ram.overwrite data.address.toNat (4 * (data.length.toNat / 4))
        (s.v.drive.bytes.window (h.sector.toNat * 512))) s' := by
  have hn : ¬ 1 < h.type := by
    rw [ht]
    decide
  refine .read ?_
  rw [if_neg hn, hf]
  refine .bind (P := fun _ s' => s.Stored (s.mem.ram.overwrite data.address.toNat
    (4 * (data.length.toNat / 4)) (s.v.drive.bytes.window (h.sector.toNat * 512))) s') ?_ ?_
  · rw [moveData, if_pos ht]
    exact moveIn_runs s h.sector hd
  · intro _ s₁ h₁
    refine .read (.pure ⟨?_, h₁⟩)
    rw [h₁.v, hs]
    rfl

theorem answer_out (s : Blk) (ht : h.type = 1) (hf : h.fits s.v.drive data = true)
    (hs : s.v.Sound) (hd : inDma data.address (data.length.toNat / 4)) :
    Runs (answer h data) s fun r s' => r = 0 ∧
      s.Wrote (s.v.drive.bytes.overwrite (h.sector.toNat * 512) (4 * (data.length.toNat / 4))
        (s.mem.ram.window data.address.toNat)) s' := by
  have hn : ¬ 1 < h.type := by
    rw [ht]
    decide
  have hz : h.type ≠ 0 := by
    rw [ht]
    decide
  refine .read ?_
  rw [if_neg hn, hf]
  refine .bind (P := fun _ s' => s.Wrote (s.v.drive.bytes.overwrite (h.sector.toNat * 512)
    (4 * (data.length.toNat / 4)) (s.mem.ram.window data.address.toNat)) s') ?_ ?_
  · rw [moveData, if_neg hz]
    exact .bind (moveOut_runs s h.sector hd) fun _ s₁ h₁ => .modify (h₁.wrote hs)
  · intro _ s₁ h₁
    refine .read (.pure ⟨?_, h₁⟩)
    rw [h₁.sound.noError]
    rfl

end TinyProcessors
