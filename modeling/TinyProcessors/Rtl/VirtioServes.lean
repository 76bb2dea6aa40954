import TinyProcessors.Emu.Notify
import TinyProcessors.Rtl.VirtioRefines

namespace TinyProcessors

namespace BlkRtl

variable {d d' n : BlkRtl} {s s' : Blk} {value addr wdata : Word} {strb : BitVec 4} {we : Bool}

theorem cycle_free (h : n.served = false) (hf : n.dma.valid = false) :
    cycle (notifyPort value) true n = match n.state with
      | .idle => n.onIdle n (notifyPort value)
      | .copy => n.onCopy n true
      | .status => n.onStatus n true
      | .next => n.onNext n
      | .fail => n.onFail n
      | _ => n := by
  unfold cycle
  rw [clocked_free h hf, hf]
  cases n.state <;> rfl

theorem Sim.free {m : Service α} (h : Serves n s) (hi : n.state ≠ .idle)
    (hk : Sim value m (cycle (notifyPort value) true n) s R) : Sim value m n s R :=
  Sim.step (stalls_free h.free) (busy_waits hi h.served) hk

structure Fitting (hdr : Header) (c : Chain) (drive : Drive) : Prop where
  type : ¬ 1 < hdr.type
  fits : hdr.fits drive c.data = true

structure Copying (hdr : Header) (c : Chain) (drive : Drive) (q : BlkRequest) (i : Nat) (n : BlkRtl)
    (s : Blk) : Prop where
  serves : Serves n s
  state : n.state = .copy
  req : n.req = { q with copied := BitVec.ofNat 32 i }
  sectors : n.diskSectors.toNat = drive.sectors
  holds : Holds q c
  header : q.typeWord = hdr.type ∧ q.sector = hdr.sector ∧ q.sectorHi = hdr.sectorHi

section Copy

variable {hdr : Header} {c : Chain} {drive : Drive} {q : BlkRequest}

theorem Copying.range (h : Copying hdr c drive q i n s) :
    (!n.rangeOk || n.req.dataWrite ≠ (n.req.typeWord = 0 : Bool)) = !hdr.fits drive c.data := by
  have hr := rangeOk_eq n drive c.data.hasNext c.data.next h.sectors
  rw [hr, h.req]
  dsimp only
  rw [h.header.1, h.header.2.1, h.header.2.2, h.holds.dataAddr, h.holds.dataLen, h.holds.dataWrite]

theorem Fitting.span (hf : Fitting hdr c drive) :
    hdr.sector.toNat * 128 + c.data.length.toNat / 4 ≤ 2 ^ 21 ∧
      hdr.sector.toNat * 128 + c.data.length.toNat / 4 ≤ drive.sectors * 128 := by
  have h := hf.fits
  have hs := drive.small
  have hw := drive.whole
  unfold Header.fits at h
  simp only [Bool.and_eq_true, decide_eq_true_eq] at h
  unfold Drive.sectors
  omega

theorem Copying.count (h : Copying hdr c drive q i n s) (hi : i ≤ 2 ^ 21) :
    n.req.copied = (n.req.dataLen.extractLsb' 2 30).setWidth 32 ↔ i = c.data.length.toNat / 4 := by
  have hl := words_toNat (w := 32) n.req.dataLen (by omega)
  rw [← BitVec.toNat_inj, hl, h.req]
  dsimp only
  rw [h.holds.dataLen, BitVec.toNat_ofNat, Nat.mod_eq_of_lt (by omega)]

theorem Copying.onCopy (h : Copying hdr c drive q i n s) (hf : Fitting hdr c drive)
    (hi : i < c.data.length.toNat / 4) (dma : DmaPort) (n' : BlkRtl) (granted : Bool) :
    BlkRtl.onCopy { n with dma } n' granted =
      if !dma.valid then
        if n.req.typeWord = 0 then n'.access true n.copyAddr 0xf (n.disk n.diskIndex.toNat)
        else n'.access false n.copyAddr 0xf 0
      else if granted then
        { n' with
          disk := if n.req.typeWord = 1 then
            fun i => if i = n.diskIndex.toNat then n.mem (WordRam.index dma.addr) else n.disk i
            else n.disk
          req := { n'.req with copied := n.req.copied + 1 } }
      else n' := by
  have hspan := hf.span
  have ht : ¬ 1 < n.req.typeWord := by
    rw [h.req]
    dsimp only
    rw [h.header.1]
    exact hf.type
  have hr : ¬ (!n.rangeOk || n.req.dataWrite ≠ (n.req.typeWord = 0 : Bool)) = true := by
    rw [h.range, hf.fits]
    decide
  have hc : ¬ n.req.copied = (n.req.dataLen.extractLsb' 2 30).setWidth 32 := by
    rw [h.count (by omega)]
    omega
  exact (if_neg ht).trans ((if_neg hr).trans (if_neg hc))

theorem Copying.patient (h : Copying hdr c drive q i n s) (value : Word)
    (hf : Fitting hdr c drive) (hi : i < c.data.length.toNat / 4) : Patient value n := by
  refine ⟨by rw [h.state]; decide, fun we addr strb wdata => .inl ?_⟩
  unfold cycle
  rw [clocked_refused h.serves.served, show (n.asks we addr strb wdata).state = .copy from h.state]
  exact (h.onCopy hf hi _ _ false).trans rfl

theorem Copying.copyAddr_eq (h : Copying hdr c drive q i n s) :
    n.copyAddr = c.data.address + 4 * BitVec.ofNat 32 i := by
  unfold copyAddr
  rw [word_offset, h.req]
  dsimp only
  rw [h.holds.dataAddr]

theorem Copying.diskIndex_eq (h : Copying hdr c drive q i n s) (hf : Fitting hdr c drive)
    (hi : i < c.data.length.toNat / 4) : n.diskIndex.toNat = hdr.sector.toNat * 128 + i := by
  have hspan := hf.span
  unfold diskIndex
  rw [h.req]
  dsimp only
  rw [h.header.2.1, BitVec.toNat_add, BitVec.toNat_mul, BitVec.toNat_ofNat]
  change (hdr.sector.toNat * 128 % 2 ^ 32 + i % 2 ^ 32) % 2 ^ 32 = _
  omega

theorem Copying.word (h : Copying hdr c drive q i n s) (hf : Fitting hdr c drive)
    (hi : i < c.data.length.toNat / 4) :
    n.disk n.diskIndex.toNat = s.v.drive.bytes.word (hdr.sector.toNat * 512 + 4 * i) := by
  have hspan := hf.span
  have hs := h.serves.same.sectors
  rw [h.sectors] at hs
  rw [h.diskIndex_eq hf hi, h.serves.same.disk _ (by omega)]
  congr 1
  omega

theorem Copying.start {m : Service α} (h : Copying hdr c drive q i n s) (hf : Fitting hdr c drive)
    (hi : i < c.data.length.toNat / 4)
    (hk : Sim value m (if n.req.typeWord = 0 then
        n.access true n.copyAddr 0xf (n.disk n.diskIndex.toNat)
      else n.access false n.copyAddr 0xf 0) s R) : Sim value m n s R := by
  refine Sim.free h.serves (by rw [h.state]; decide) ?_
  rw [cycle_free h.serves.served h.serves.free, h.state]
  dsimp only
  rw [h.onCopy hf hi n.dma n true, h.serves.free]
  exact hk

theorem Copying.typeWord (h : Copying hdr c drive q i n s) : n.req.typeWord = hdr.type := by
  rw [h.req]
  exact h.header.1

theorem copied_succ (i : Nat) : BitVec.ofNat 32 i + 1 = BitVec.ofNat 32 (i + 1) := by
  rw [BitVec.ofNat_add]
  rfl

theorem Copying.moved (h : Copying hdr c drive q i n s) (hf : Fitting hdr c drive)
    (hi : i < c.data.length.toNat / 4) (hs : Serves { n.taken we addr 0xf wdata with
      disk := if hdr.type = 1 then
        fun j => if j = n.diskIndex.toNat then n.mem (WordRam.index addr) else n.disk j
        else n.disk } s') :
    Copying hdr c drive q (i + 1) (cycle (notifyPort value) true (n.asks we addr 0xf wdata)) s' := by
  have hc : n.req.copied + 1 = BitVec.ofNat 32 (i + 1) := by
    rw [h.req]
    exact copied_succ i
  rw [cycle_asks h.serves.served, h.state]
  dsimp only
  unfold asks
  rw [h.onCopy hf hi _ _ true, h.typeWord]
  refine ⟨⟨hs.same, hs.served, hs.queue, hs.free⟩, h.state, ?_, h.sectors, h.holds, h.header⟩
  change ({ n.req with copied := n.req.copied + 1 } : BlkRequest) = _
  rw [hc, h.req]

theorem Copying.moveIn (h : Copying hdr c drive q i n s) (hf : Fitting hdr c drive)
    (hi : i < c.data.length.toNat / 4) (ht : hdr.type = 0) :
    Sim value (moveIn hdr.sector c.data.address i) n s fun _ n' s' =>
      Copying hdr c drive q (i + 1) n' s' := by
  have h1 : ¬ hdr.type = 1 := by
    rw [ht]
    decide
  refine h.start hf hi ?_
  rw [if_pos (h.typeWord.trans ht), h.word hf hi, h.copyAddr_eq]
  unfold TinyProcessors.moveIn
  refine Sim.read ?_
  rw [← bind_pure (dmaWrite _ _ _)]
  refine Sim.dmaWrite 0xf h.serves (h.patient value hf hi) fun s' hs' _ =>
    .pure (h.moved hf hi ?_)
  rw [if_neg h1]
  exact hs'

theorem Copying.moveOut (h : Copying hdr c drive q i n s) (hf : Fitting hdr c drive)
    (hi : i < c.data.length.toNat / 4) (ht : hdr.type = 1) :
    Sim value (moveOut hdr.sector c.data.address i) n s fun _ n' s' =>
      Copying hdr c drive q (i + 1) n' s' := by
  have h0 : ¬ n.req.typeWord = 0 := by
    rw [h.typeWord, ht]
    decide
  refine h.start hf hi ?_
  rw [if_neg h0, h.copyAddr_eq]
  unfold TinyProcessors.moveOut
  refine Sim.read ?_
  generalize haddr : c.data.address + 4 * BitVec.ofNat 32 i = addr
  by_cases ha : dmaWord addr = true
  · rw [access_in ha, h.serves.same.read ha]
    have hp := h.patient value hf hi
    refine Sim.step (hp.stalls _ _ _ _) (busy_waits hp.busy h.serves.served) ?_
    refine ⟨_, .refl, h.moved hf hi ?_⟩
    rw [if_pos ht, h.diskIndex_eq hf hi]
    refine ⟨h.serves.same.record _ _ ?_, h.serves.served, h.serves.queue, rfl⟩
    unfold Blk.Recorded
    have he : 4 * (hdr.sector.toNat * 128 + i) = hdr.sector.toNat * 512 + 4 * i := by omega
    rw [he]
  · rw [access_out ha, dmaRead, if_neg ha]
    exact ⟨_, .refl, rfl, h.serves.same.diskWritten, h.serves.served, h.serves.queue, h.serves.free⟩

structure Answered (hdr : Header) (c : Chain) (result : Word) (n : BlkRtl) (s : Blk) : Prop where
  serves : Serves n s
  state : n.state = .status
  holds : Holds n.req c
  type : n.req.typeWord = hdr.type
  result : n.req.result.setWidth 32 = result

theorem Copying.answered (h : Copying hdr c drive q i n s) (b : BitVec 8) :
    Answered hdr c (b.setWidth 32) { n with req := { n.req with result := b }, state := .status } s := by
  refine ⟨⟨h.serves.same, h.serves.served, h.serves.queue, h.serves.free⟩, rfl, ?_, h.typeWord, rfl⟩
  rw [h.req]
  obtain ⟨h₁, h₂, h₃, h₄, h₅, h₆⟩ := h.holds
  exact ⟨h₁, h₂, h₃, h₄, h₅, h₆⟩

theorem Copying.finish (h : Copying hdr c drive q (c.data.length.toNat / 4) n s)
    (hf : Fitting hdr c drive) :
    cycle (notifyPort value) true n =
      { n with req := { n.req with result := 0 }, state := .status } := by
  have hspan := hf.span
  have ht : ¬ 1 < n.req.typeWord := by
    rw [h.typeWord]
    exact hf.type
  have hr : ¬ (!n.rangeOk || n.req.dataWrite ≠ (n.req.typeWord = 0 : Bool)) = true := by
    rw [h.range, hf.fits]
    decide
  rw [cycle_free h.serves.served h.serves.free, h.state]
  exact (if_neg ht).trans ((if_neg hr).trans (if_pos ((h.count (by omega)).2 rfl)))

theorem Copying.moveData (h : Copying hdr c drive q 0 n s) (hf : Fitting hdr c drive) :
    Sim value (moveData hdr c.data) n s fun _ n' s' =>
      Copying hdr c drive q (c.data.length.toNat / 4) n' s' := by
  unfold TinyProcessors.moveData
  dsimp only
  by_cases ht : hdr.type = 0
  · rw [if_pos ht]
    exact Sim.forM_range (P := Copying hdr c drive q) _ h fun i d s hi hc => hc.moveIn hf hi ht
  · have ht1 : hdr.type = 1 := by
      have h1 := hf.type
      bv_omega
    rw [if_neg ht]
    refine Sim.bind (Sim.forM_range (P := Copying hdr c drive q) _ h fun i d s hi hc =>
      hc.moveOut hf hi ht1) fun _ n' s' hc => ⟨n', .refl, ?_⟩
    refine ⟨⟨hc.serves.same.diskWritten, hc.serves.served, hc.serves.queue, hc.serves.free⟩, hc.state,
      hc.req, hc.sectors, hc.holds, hc.header⟩

theorem Copying.answer (h : Copying hdr c s.v.drive q 0 n s) :
    Sim value (answer hdr c.data) n s fun result n' s' => Answered hdr c result n' s' := by
  have hi : n.state ≠ .idle := by
    rw [h.state]
    decide
  unfold TinyProcessors.answer
  refine Sim.read ?_
  by_cases ht : 1 < hdr.type
  · rw [if_pos ht]
    refine Sim.free h.serves hi ?_
    rw [cycle_free h.serves.served h.serves.free, h.state]
    have hc : n.onCopy n true = { n with req := { n.req with result := 2 }, state := .status } :=
      if_pos (h.typeWord ▸ ht)
    dsimp only
    rw [hc]
    exact .pure (h.answered 2)
  · rw [if_neg ht]
    by_cases hf : hdr.fits s.v.drive c.data = true
    · have hfit : Fitting hdr c s.v.drive := ⟨ht, hf⟩
      rw [hf, if_neg (by decide)]
      refine Sim.bind (h.moveData hfit) fun _ n₁ s₁ h₁ => Sim.read ?_
      refine Sim.free h₁.serves (by rw [h₁.state]; decide) ?_
      rw [h₁.finish hfit, h₁.serves.same.sound.noError]
      exact .pure (h₁.answered 0)
    · rw [Bool.not_eq_true] at hf
      have hr := h.range
      rw [hf] at hr
      refine Sim.free h.serves hi ?_
      rw [cycle_free h.serves.served h.serves.free, h.state, hf]
      have hc : n.onCopy n true = { n with req := { n.req with result := 1 }, state := .status } :=
        (if_neg (h.typeWord ▸ ht)).trans (if_pos hr)
      dsimp only
      rw [hc]
      exact .pure (h.answered 1)

end Copy

theorem Serves.advance (h : Serves n s) :
    Serves { n with
      regs := { n.regs with
        usedIdx := n.regs.usedIdx + 1
        lastAvail := n.regs.lastAvail + 1
        interruptStatus := true }
      state := .next } s.served := by
  obtain ⟨⟨hr, h₂, h₃, h₄, h₅⟩, h₆, h₇, h₈⟩ := h
  refine ⟨⟨?_, h₂, h₃, h₄, h₅.noError, h₅.takes⟩, h₆, h₇, h₈⟩
  exact ⟨hr.status, hr.featuresSel, hr.queueSelZero, hr.queueReady, rfl, hr.queueNum, hr.descLo,
    hr.descHi, hr.driverLo, hr.driverHi, hr.deviceLo, hr.deviceHi, congrArg (· + 1) hr.lastAvail,
    congrArg (· + 1) hr.usedIdx⟩

def writing (n : BlkRtl) (state : BlkState) (addr : Word) (strb : BitVec 4) (wdata : Word) : BlkRtl :=
  { n.taken true addr strb wdata with state }

theorem Sim.usedWrite {k : Unit → Service α} (state : BlkState) (strb : BitVec 4) (h : Serves n s) (hw : BlkState.waits n.state = true)
    (next : BlkRtl → BlkRtl)
    (hn : cycle (notifyPort value) true (n.asks true addr strb wdata) =
      next (n.writing state addr strb wdata))
    (hk : ∀ n' s', Serves n' s' → s'.v = s.v → n'.state = state → n'.regs = n.regs →
      n'.req = n.req → Sim value (k ()) (next n') s' R) :
    Sim value (TinyProcessors.dmaWrite addr wdata (strb.setWidth 32) >>= k)
      (n.access true addr strb wdata) s R := by
  refine Sim.dmaWrite strb h (patient_of_waits h.served hw) fun s' h' hv => ?_
  rw [hn]
  exact hk _ s' ⟨h'.same, h'.served, h'.queue, h'.free⟩ hv rfl rfl rfl

/-- The answer and the used ring are written as the emulator writes them. -/
theorem Answered.used {result : Word} (h : Answered hdr c result n s) :
    Sim value (writeUsed c (if result = 0 ∧ hdr.type = 0 then c.data.length + 1 else 1) result >>=
      fun _ => modify Blk.served) n s fun _ n' s' => Serves n' s' ∧ n'.state = .next := by
  have hr := h.serves.same.regs
  have hres : n.req.result = 0 ↔ result = 0 := by
    rw [← h.result]
    have hb : ∀ b : BitVec 8, b = 0 ↔ b.setWidth 32 = (0 : Word) := by decide
    exact hb _
  unfold writeUsed
  simp only [bind_assoc]
  refine Sim.free h.serves (by rw [h.state]; decide) (Sim.read ?_)
  rw [cycle_free h.serves.served h.serves.free, h.state]
  have hs : n.onStatus n true = n.access true n.req.statusAddr
      (1 <<< (n.req.statusAddr.extractLsb' 0 2).toNat)
      ((n.req.result ++ n.req.result ++ n.req.result ++ n.req.result).setWidth 32) := by
    unfold onStatus
    rw [h.serves.free]
    rfl
  dsimp only
  rw [hs, four_bytes, h.result, h.holds.status, ← status_strobe]
  refine Sim.usedWrite .usedId _ h.serves (by rw [h.state]; rfl)
    (fun n' => n'.access true n'.regs.usedSlot 0xf (n'.req.head.setWidth 32))
    (by rw [cycle_asks h.serves.served, h.state]; rfl) fun n₁ s₁ h₁ hv₁ hs₁ hr₁ hq₁ => ?_
  have hslot : n₁.regs.usedSlot =
      s.v.deviceLo + 4 + 8 * (s.v.usedIdx.setWidth 32 &&& (s.v.queueNum - 1)) := by
    rw [usedSlot_eq _ h₁.queue, hr₁, hr.deviceLo, hr.usedIdx, hr.queueNum]
  rw [hslot, hq₁, h.holds.head]
  refine Sim.usedWrite .usedLen 0xf h₁ (by rw [hs₁]; rfl)
    (fun n' => n'.access true (n'.regs.usedSlot + 4) 0xf
      (if n'.req.result = 0 ∧ n'.req.typeWord = 0 then n'.req.dataLen + 1 else 1))
    (by rw [cycle_asks h₁.served, hs₁]; rfl) fun n₂ s₂ h₂ hv₂ hs₂ hr₂ hq₂ => ?_
  rw [hr₂, hslot, hq₂, hq₁, h.type, h.holds.dataLen]
  simp only [hres]
  refine Sim.usedWrite .usedIdx 0xf h₂ (by rw [hs₂]; rfl)
    (fun n' => n'.access true (n'.regs.deviceLo + 2) (if n'.regs.deviceLo.getLsbD 1 then 0x3 else 0xc)
      (((n'.regs.usedIdx + 1) ++ (n'.regs.usedIdx + 1)).setWidth 32))
    (by rw [cycle_asks h₂.served, hs₂]; rfl) fun n₃ s₃ h₃ hv₃ hs₃ hr₃ hq₃ => ?_
  have hstrb : ((if n.regs.deviceLo.getLsbD 1 then 0x3 else 0xc : BitVec 4)).setWidth 32 =
      (if s.v.deviceLo &&& 2 ≠ 0 then 0x3 else 0xc : Word) := by
    have h2 : s.v.deviceLo &&& 2 ≠ 0 ↔ s.v.deviceLo.getLsbD 1 = true := flag_iff _ 1 (by omega)
    simp only [h2, ← hr.deviceLo]
    split <;> rfl
  rw [hr₃, hr₂, hr₁, two_halves, ← hr.usedIdx, ← hstrb, ← hr.deviceLo]
  refine Sim.dmaWrite _ h₃ (patient_of_waits h₃.served (by rw [hs₃]; rfl)) fun s₄ h₄ hv₄ => ?_
  rw [cycle_asks h₃.served, hs₃]
  exact ⟨_, .refl, h₄.advance, rfl⟩

theorem Sim.virtioRequest (value : Word) (h : Serves n s) (hs : n.state = .ring) :
    Sim value Blk.virtioRequest (n.access false n.regs.availSlot 0xf 0) s fun _ n' s' =>
      Serves n' s' ∧ n'.state = .next := by
  unfold Blk.virtioRequest performRequest
  simp only [bind_assoc]
  refine Sim.read (Sim.readChain h hs fun c n₁ h₁ hs₁ hz₁ hc₁ => ?_)
  rw [← hc₁.header]
  refine Sim.readHeader h₁ hs₁ hz₁ fun hdr n₂ h₂ hs₂ hq₂ => ?_
  have hcopy : Copying hdr c s.v.drive n₂.req 0 n₂ s := by
    have hholds : Holds n₂.req c := by
      rw [hq₂]
      obtain ⟨h₁, h₂, h₃, h₄, h₅, h₆⟩ := hc₁
      exact ⟨h₁, h₂, h₃, h₄, h₅, h₆⟩
    refine ⟨h₂, hs₂, ?_, h₂.same.sectors, hholds, ?_⟩
    · rw [hq₂]
      rfl
    · rw [hq₂]
      exact ⟨rfl, rfl, rfl⟩
  exact Sim.bind hcopy.answer fun result n₃ s₃ h₃ => h₃.used

structure Served (d : BlkRtl) (s : Blk) : Prop where
  same : d.regs.Matches d.diskSectors d.disk d.mem s
  state : d.state = .idle
  served : d.served = true
  free : d.dma.valid = false

theorem fail_leads (value : Word) (h : n.regs.Matches n.diskSectors n.disk n.mem s) (hv : n.served = false)
    (hf : n.dma.valid = false) (hs : n.state = .fail) :
    ∃ d', Leads (cycle (notifyPort value)) (ready · (notifyPort value)) n d' ∧
      Served d' s.needReset := by
  refine ⟨_, .head (stalls_free hf) (busy_waits (by rw [hs]; decide) hv) .refl, ?_⟩
  rw [cycle_free hv hf, hs]
  obtain ⟨hr, h₂, h₃, h₄, h₅⟩ := h
  refine ⟨⟨?_, h₂, h₃, h₄, h₅.noError, h₅.takes⟩, rfl, rfl, rfl⟩
  exact ⟨congrArg (· ||| 0x40) hr.status, hr.featuresSel, hr.queueSelZero, hr.queueReady,
    hr.interrupt, hr.queueNum, hr.descLo, hr.descHi, hr.driverLo, hr.driverHi, hr.deviceLo,
    hr.deviceHi, hr.lastAvail, hr.usedIdx⟩

theorem cycle_availIdx (h : n.served = false) (hs : n.state = .availIdx) (addr : Word) :
    cycle (notifyPort value) true (n.asks false addr 0xf 0) =
      if (n.asks false addr 0xf 0).half = n.regs.lastAvail then
        { n.taken false addr 0xf 0 with state := .idle, served := true }
      else
        { n.taken false addr 0xf 0 with state := .ring }.access false n.regs.availSlot 0xf 0 := by
  rw [cycle_asks h, hs]
  rfl

theorem serveLoop_leads (value : Word) (fuel : Nat) (h : Serves n s) (hs : n.state = .availIdx)
    (he : serveLoop fuel s = some s') :
    ∃ d', Leads (cycle (notifyPort value)) (ready · (notifyPort value))
      (n.access false (n.regs.driverLo + 2) 0xf 0) d' ∧ Served d' s' := by
  induction fuel generalizing n s with
  | zero => cases he
  | succ fuel ih =>
    have hr := h.same.regs
    rw [← hr.driverLo]
    by_cases ha : dmaWord (s.v.driverLo + 2) = true
    · have hp : Patient value n := patient_of_waits h.served (by rw [hs]; rfl)
      have hread : dmaRead16 s.mem.ram (s.v.driverLo + 2) =
          some (n.asks false (s.v.driverLo + 2) 0xf 0).half := by
        rw [half_asks, dmaRead16, h.same.read ha, Option.map_some]
      rw [access_in ha]
      unfold serveLoop at he
      generalize s.v.driverLo + 2 = addr at hread he ⊢
      have hlead : ∀ d', Leads (cycle (notifyPort value)) (ready · (notifyPort value))
          (cycle (notifyPort value) true (n.asks false addr 0xf 0)) d' →
          Leads (cycle (notifyPort value)) (ready · (notifyPort value)) (n.asks false addr 0xf 0)
            d' :=
        fun d' => .head (hp.stalls _ _ _ _) (busy_waits hp.busy h.served)
      rw [cycle_availIdx h.served hs] at hlead
      rw [hread] at he
      dsimp only at he
      rw [hr.lastAvail] at he
      by_cases heq : (n.asks false addr 0xf 0).half = n.regs.lastAvail
      · rw [if_pos heq] at he hlead
        cases he
        exact ⟨_, hlead _ .refl, h.same, rfl, rfl, rfl⟩
      · rw [if_neg heq] at he hlead
        have hring : Serves { n.taken false addr 0xf 0 with state := .ring } s :=
          ⟨h.same, h.served, h.queue, rfl⟩
        have hreq := Sim.virtioRequest value hring rfl
        unfold Sim at hreq
        cases hq : Blk.virtioRequest s with
        | ok u s₁ =>
          rw [hq] at he hreq
          obtain ⟨n₁, hl₁, h₁, hs₁⟩ := hreq
          have hnext : cycle (notifyPort value) true n₁ =
              { n₁ with state := .availIdx }.access false (n₁.regs.driverLo + 2) 0xf 0 := by
            rw [cycle_free h₁.served h₁.free, hs₁]
            rfl
          obtain ⟨d', hl, hd⟩ := ih (n := { n₁ with state := .availIdx })
            ⟨h₁.same, h₁.served, h₁.queue, h₁.free⟩ rfl he
          refine ⟨d', (hlead _ hl₁).trans (.head (stalls_free h₁.free)
            (busy_waits (by rw [hs₁]; decide) h₁.served) ?_), hd⟩
          rw [hnext]
          exact hl
        | error u s₁ =>
          rw [hq] at he hreq
          obtain ⟨n₁, hl₁, hs₁, h₁⟩ := hreq
          cases he
          obtain ⟨d', hl, hd⟩ := fail_leads value h₁.same h₁.served h₁.free hs₁
          exact ⟨d', (hlead _ hl₁).trans hl, hd⟩
    · have hread : dmaRead16 s.mem.ram (s.v.driverLo + 2) = none := by
        rw [dmaRead16, dmaRead, if_neg ha, Option.map_none]
      unfold serveLoop at he
      rw [hread] at he
      cases he
      rw [access_out ha]
      exact fail_leads value h.same h.served h.free rfl

structure AtRest (d : BlkRtl) : Prop where
  state : d.state = .idle
  served : d.served = false
  free : d.dma.valid = false

theorem notifyStarts_eq (hr : d.regs.Same v) (h : AtRest d) :
    d.notifyStarts (notifyPort value) = v.serves value := by
  have hb : ∀ x : BitVec 8, (x &&& 4 ≠ 0 : Bool) = x.getLsbD 2 ∧
      (x &&& 0x40 = 0 : Bool) = !x.getLsbD 6 := by decide
  have hw : (notifyPort value).isWord = true := rfl
  unfold notifyStarts VirtioBlk.serves
  rw [hr.status, (hb _).1, (hb _).2, hr.queueReady, h.state, h.served, notifyPort_atNotify, hw]
  simp only [notifyPort, Bool.true_and, Bool.and_true, decide_true, Bool.not_false]
  rfl

theorem refused_leads (h : AtRest d) (hn : d.notifyStarts (notifyPort value) = false) (granted : Bool) :
    d.ready (notifyPort value) = true ∧ cycle (notifyPort value) granted d = d := by
  have hb : d.busy = false := by
    unfold busy
    rw [h.state]
    rfl
  constructor
  · unfold ready hold
    rw [hn, hb, Bool.or_false, Bool.and_false]
    rfl
  · unfold cycle
    rw [clocked_free h.served h.free, h.state]
    dsimp only
    unfold onIdle
    rw [hn]
    rfl

theorem Served.accepted (h : Served d s) (value : Word) (granted : Bool) :
    d.ready (notifyPort value) = true ∧
      cycle (notifyPort value) granted d = { d with served := false } := by
  have hready : d.ready (notifyPort value) = true := by
    unfold ready hold
    rw [h.served]
    simp [notifyPort]
  refine ⟨hready, ?_⟩
  have hn : d.notifyStarts (notifyPort value) = false := by
    unfold notifyStarts
    rw [h.served]
    simp
  have hc : d.clocked (notifyPort value) granted = { d with served := false } := by
    unfold clocked
    rw [hready, notifyPort_atNotify, h.served, h.free]
    obtain ⟨regs, served, state, req, ⟨valid, we, addr, strb, wdata⟩, sectors, disk, mem⟩ := d
    cases h.free
    simp [notifyPort]
  unfold cycle
  rw [hc, h.state]
  dsimp only
  unfold onIdle
  rw [hn]
  rfl

theorem virtioServe_leads (h : AtRest d) (hm : d.regs.Matches d.diskSectors d.disk d.mem s)
    (hn : d.notifyStarts (notifyPort value) = true) (he : virtioServe fuel s = some s') :
    ∃ d', Leads (cycle (notifyPort value)) (ready · (notifyPort value)) d d' ∧ Served d' s' := by
  have hr := hm.regs
  have hready : d.ready (notifyPort value) = false := by
    have hw : (notifyPort value).isWord = true := rfl
    unfold ready hold
    rw [hn, h.served, notifyPort_atNotify, hw]
    rfl
  have hlead : ∀ d', Leads (cycle (notifyPort value)) (ready · (notifyPort value))
      (cycle (notifyPort value) true d) d' →
      Leads (cycle (notifyPort value)) (ready · (notifyPort value)) d d' :=
    fun d' => .head (stalls_free h.free) hready
  have hcycle : cycle (notifyPort value) true d =
      if d.regs.descHi ≠ 0 ∨ d.regs.driverHi ≠ 0 ∨ d.regs.deviceHi ≠ 0 ∨ d.regs.queueNum = 0 then
        { d with state := .fail }
      else { d with state := .availIdx }.access false (d.regs.driverLo + 2) 0xf 0 := by
    rw [cycle_free h.served h.free, h.state]
    exact if_pos hn
  have h0 : d.regs.queueNum = 0 ↔ s.v.queueNum = 0 := by
    have h0 : ∀ q : BitVec 4, q = 0 ↔ q.setWidth 32 = (0 : Word) := by decide
    rw [hr.queueNum]
    exact h0 _
  simp only [← hr.descHi, ← hr.driverHi, ← hr.deviceHi, h0] at hcycle
  unfold virtioServe at he
  rw [hcycle] at hlead
  split at he
  next hbad =>
    rw [if_pos hbad] at hlead
    cases he
    obtain ⟨d', hl, hd⟩ := fail_leads (n := { d with state := .fail }) value hm h.served h.free rfl
    exact ⟨d', hlead d' hl, hd⟩
  next hgood =>
    rw [if_neg hgood] at hlead
    have hq : d.regs.queueNum ≠ 0 := fun hq => hgood (.inr (.inr (.inr (h0.1 hq))))
    obtain ⟨d', hl, hd⟩ := serveLoop_leads (n := { d with state := .availIdx }) value fuel
      ⟨hm, h.served, hq, h.free⟩ rfl he
    exact ⟨d', hlead d' hl, hd⟩

def Shows (d : BlkRtl) (s : Blk) : Prop := d.regs.Matches d.diskSectors d.disk d.mem s

def notified (value : Word) (grants : Nat → Bool) (d : BlkRtl) (n : Nat) : BlkRtl :=
  clock (cycle (notifyPort value)) grants 0 n d

/-- Whatever the RAM port's stalls, a notify leaves what the emulator's leaves. -/
theorem notify_refines (value : Word) (grants : Nat → Bool) (hg : Fair grants) (d : BlkRtl)
    (s s' : Blk) (hd : AtRest d) (hs : Shows d s) (fuel : Nat)
    (he : virtioStore fuel s 0x050 4 value = some (result, s')) :
    ∃ n, (∀ j < n, ready (notified value grants d j) (notifyPort value) = false) ∧
      ready (notified value grants d n) (notifyPort value) = true ∧
      AtRest (notified value grants d (n + 1)) ∧ Shows (notified value grants d (n + 1)) s' := by
  unfold virtioStore at he
  rw [if_neg (by decide), if_pos rfl, ← notifyStarts_eq hs.regs hd] at he
  cases hn : d.notifyStarts (notifyPort value) with
  | false =>
    rw [hn] at he
    cases he
    obtain ⟨hr, hc⟩ := refused_leads hd hn (grants 0)
    have h1 : notified value grants d 1 = d := hc
    refine ⟨0, fun j hj => by omega, hr, ?_⟩
    rw [h1]
    exact ⟨hd, hs⟩
  | true =>
    rw [hn, if_pos rfl] at he
    obtain ⟨s₁, hserve, hs₁⟩ := Option.map_eq_some_iff.1 he
    cases hs₁
    obtain ⟨d', hl, hd'⟩ := virtioServe_leads hd hs hn hserve
    obtain ⟨n, hn', hj⟩ := hl.runs hg 0
    obtain ⟨hr, hc⟩ := hd'.accepted value (grants n)
    have hlast : notified value grants d (n + 1) = { d' with served := false } := by
      rw [notified, clock_add, hn', Nat.zero_add]
      exact hc
    refine ⟨n, hj, ?_, ?_⟩
    · rw [notified, hn']
      exact hr
    · rw [hlast]
      exact ⟨⟨hd'.state, rfl, hd'.free⟩, hd'.same⟩

def steadyRtl : BlkRtl where
  regs := ⟨0xf, true, true, true, 4, 0x80000000, 0, 0x80000100, 0, 0x80000200, 0, 0, 0, false,
    by decide⟩
  served := false
  state := .idle
  req := ⟨0, 0, 0, 0, 0, 0, 0, 0, 0, 0, 0, false, 0, 0⟩
  dma := ⟨false, false, 0, 0, 0⟩
  diskSectors := 2
  disk := fun i => spinnerDrive.bytes.word (4 * i)
  mem := fun i => steady.mem.ram.word (0x80000000 + 4 * i)

theorem notify_refines_steady : ∃ result s' n,
    virtioStore 3 steady 0x050 4 0 = some (result, s') ∧
      ready (notified 0 (fun t => t % 2 = 1) steadyRtl n) (notifyPort 0) = true ∧
      Shows (notified 0 (fun t => t % 2 = 1) steadyRtl (n + 1)) s' := by
  have hsome : (virtioStore 3 steady 0x050 4 0).isSome = true := by decide
  obtain ⟨⟨result, s'⟩, he⟩ := Option.isSome_iff_exists.1 hsome
  have hfair : Fair fun t => (t % 2 = 1 : Bool) := by
    intro t
    refine ⟨(t + 1) % 2, decide_eq_true ?_⟩
    omega
  obtain ⟨n, -, hr, -, hs⟩ := notify_refines 0 _ hfair steadyRtl steady s' ⟨rfl, rfl, rfl⟩
    ⟨⟨rfl, rfl, rfl, rfl, rfl, by decide, rfl, rfl, rfl, rfl, rfl, rfl, rfl, rfl⟩, by decide,
      fun _ _ => rfl, fun _ _ => rfl, ⟨rfl, fun _ h => nomatch h⟩⟩ 3 he
  exact ⟨result, s', n, he, hr, hs⟩

end BlkRtl

end TinyProcessors
