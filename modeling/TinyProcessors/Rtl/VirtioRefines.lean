import TinyProcessors.Lib.Stall
import TinyProcessors.Rtl.VirtioWires

namespace TinyProcessors

def notifyPort (value : Word) : BlkPort := ⟨true, true, 0x10001050, 0xf, value⟩

theorem notifyPort_atNotify (value : Word) : (notifyPort value).atNotify = true := by
  have h : (0x10001050 : Word).extractLsb' 0 12 = 0x050 := by decide
  exact decide_eq_true h

namespace BlkRtl

structure Serves (d : BlkRtl) (s : Blk) : Prop where
  same : d.regs.Matches d.diskSectors d.disk d.mem s
  served : d.served = false
  queue : d.regs.queueNum ≠ 0
  free : d.dma.valid = false

def asks (d : BlkRtl) (we : Bool) (addr : Word) (strb : BitVec 4) (wdata : Word) : BlkRtl :=
  { d with dma := ⟨true, we, addr, strb, wdata⟩ }

def taken (d : BlkRtl) (we : Bool) (addr : Word) (strb : BitVec 4) (wdata : Word) : BlkRtl :=
  { d with
    dma := ⟨false, we, addr, strb, wdata⟩
    mem := if we then d.mem.store addr strb wdata else d.mem }

def BlkState.waits : BlkState → Bool
  | .availIdx | .ring | .desc | .header | .status | .usedId | .usedLen | .usedIdx => true
  | _ => false

variable {d d' n : BlkRtl} {s : Blk} {value addr wdata : Word} {strb : BitVec 4} {we granted : Bool}

theorem clocked_notify (h : d.served = false) :
    d.clocked (notifyPort value) granted = { d with
      dma := { d.dma with valid := d.dma.valid && !granted }
      mem := if d.dma.valid && granted && d.dma.we then
        d.mem.store d.dma.addr d.dma.strb d.dma.wdata else d.mem } := by
  unfold clocked
  rw [notifyPort_atNotify, h]
  simp

theorem clocked_asks (h : d.served = false) (we : Bool) (addr : Word) (strb : BitVec 4)
    (wdata : Word) : (d.asks we addr strb wdata).clocked (notifyPort value) true =
      d.taken we addr strb wdata := by
  rw [clocked_notify (d := d.asks we addr strb wdata) h]
  rfl

theorem clocked_free (h : d.served = false) (hf : d.dma.valid = false) (granted : Bool) :
    d.clocked (notifyPort value) granted = d := by
  rw [clocked_notify h]
  obtain ⟨regs, served, state, req, ⟨valid, we, addr, strb, wdata⟩, sectors, disk, mem⟩ := d
  cases hf
  rfl

theorem clocked_refused (h : d.served = false) (we : Bool) (addr : Word) (strb : BitVec 4)
    (wdata : Word) : (d.asks we addr strb wdata).clocked (notifyPort value) false =
      d.asks we addr strb wdata := by
  rw [clocked_notify (d := d.asks we addr strb wdata) h]
  rfl

theorem busy_waits (hs : d.state ≠ .idle) (h : d.served = false) :
    d.ready (notifyPort value) = false := by
  have hb : d.busy = true := by simpa [busy] using hs
  have hw : (notifyPort value).isWord = true := rfl
  unfold ready hold
  rw [hb, h, notifyPort_atNotify, hw, Bool.or_true]
  rfl

theorem stalls_free (hf : d.dma.valid = false) : Stalls (cycle (notifyPort value)) d := by
  refine .inr ?_
  have hc : ∀ granted, d.clocked (notifyPort value) granted = d.clocked (notifyPort value) true := by
    intro granted
    unfold clocked
    rw [hf]
    simp
  unfold cycle
  rw [hc false, hf]
  cases d.state with
  | copy =>
    dsimp only
    unfold onCopy
    rw [hf]
    rfl
  | status =>
    dsimp only
    unfold onStatus
    rw [hf]
    rfl
  | _ => rfl

theorem stalls_asks (h : n.served = false) (hw : BlkState.waits n.state = true) (we : Bool)
    (addr : Word) (strb : BitVec 4) (wdata : Word) :
    Stalls (cycle (notifyPort value)) (n.asks we addr strb wdata) := by
  refine .inl ?_
  unfold cycle
  rw [clocked_refused h]
  obtain ⟨regs, served, state, req, dma, sectors, disk, mem⟩ := n
  cases state with
  | idle => cases hw
  | copy => cases hw
  | next => cases hw
  | fail => cases hw
  | _ => rfl

/-- From `d` the device does what `m` does, with the same registers, disk and RAM. -/
def Sim (value : Word) (m : Service α) (d : BlkRtl) (s : Blk) (R : α → BlkRtl → Blk → Prop) : Prop :=
  match m s with
  | .ok a s' => ∃ d', Leads (cycle (notifyPort value)) (ready · (notifyPort value)) d d' ∧ R a d' s'
  | .error _ s' => ∃ d', Leads (cycle (notifyPort value)) (ready · (notifyPort value)) d d' ∧
      d'.state = .fail ∧ d'.Serves s'

theorem Sim.pure {R : α → BlkRtl → Blk → Prop} (h : R a d s) : Sim value (pure a) d s R :=
  ⟨d, .refl, h⟩

theorem Sim.throw {R : α → BlkRtl → Blk → Prop} (hs : d.state = .fail) (h : d.Serves s) :
    Sim value (throw () : Service α) d s R :=
  ⟨d, .refl, hs, h⟩

theorem Sim.read {k : Blk → Service α} (h : Sim value (k s) d s R) :
    Sim value (get >>= k) d s R := h

theorem Sim.lead {m : Service α}
    (hl : Leads (cycle (notifyPort value)) (ready · (notifyPort value)) d d')
    (h : Sim value m d' s R) : Sim value m d s R := by
  unfold Sim at h ⊢
  split at h
  next =>
    obtain ⟨d₂, hl₂, h⟩ := h
    exact ⟨d₂, hl.trans hl₂, h⟩
  next =>
    obtain ⟨d₂, hl₂, h⟩ := h
    exact ⟨d₂, hl.trans hl₂, h⟩

theorem Sim.bind {m : Service α} {k : α → Service β} (hm : Sim value m d s P)
    (hk : ∀ a d' s', P a d' s' → Sim value (k a) d' s' R) : Sim value (m >>= k) d s R := by
  unfold Sim at hm
  have he : (m >>= k) s = EStateM.bind m k s := rfl
  unfold EStateM.bind at he
  split at hm
  next a s' hs =>
    obtain ⟨d', hl, hp⟩ := hm
    rw [hs] at he
    refine Sim.lead hl ?_
    have h := hk a d' s' hp
    unfold Sim at h ⊢
    rw [he]
    exact h
  next hs =>
    rw [hs] at he
    unfold Sim
    rw [he]
    exact hm

theorem Sim.step {m : Service α} (hs : Stalls (cycle (notifyPort value)) d)
    (he : d.ready (notifyPort value) = false) (h : Sim value m (cycle (notifyPort value) true d) s R) :
    Sim value m d s R :=
  Sim.lead (.head hs he .refl) h

theorem access_in (h : dmaWord addr = true) (d : BlkRtl) :
    d.access we addr strb wdata = d.asks we addr strb wdata := by
  unfold access
  rw [inRam_eq, if_pos h]
  rfl

theorem access_out (h : ¬ dmaWord addr = true) (d : BlkRtl) :
    d.access we addr strb wdata = { d with state := .fail } := by
  unfold access
  rw [inRam_eq, if_neg h]

theorem Serves.failed (h : Serves d s) : Serves { d with state := .fail } s :=
  ⟨h.same, h.served, h.queue, h.free⟩

structure Patient (value : Word) (n : BlkRtl) : Prop where
  busy : n.state ≠ .idle
  stalls : ∀ we addr strb wdata, Stalls (cycle (notifyPort value)) (n.asks we addr strb wdata)

theorem patient_of_waits (h : n.served = false) (hw : BlkState.waits n.state = true) :
    Patient value n := by
  refine ⟨fun hs => ?_, fun we addr strb wdata => stalls_asks h hw we addr strb wdata⟩
  rw [hs] at hw
  cases hw

theorem Sim.dmaRead {k : Word → Service α} (h : Serves n s) (hw : Patient value n)
    (hk : Sim value (k (n.mem (WordRam.index addr)))
      (cycle (notifyPort value) true (n.asks false addr 0xf 0)) s R) :
    Sim value (expect (dmaRead s.mem.ram addr) >>= k) (n.access false addr 0xf 0) s R := by
  by_cases ha : dmaWord addr = true
  · rw [access_in ha, h.same.read ha]
    exact Sim.step (hw.stalls _ _ _ _) (busy_waits hw.busy h.served) hk
  · rw [access_out ha, TinyProcessors.dmaRead, if_neg ha]
    exact .throw rfl h.failed

theorem dmaWrite_out (h : ¬ dmaWord addr = true) (strobe : Word) (s : Blk) :
    dmaWrite addr wdata strobe s = .error () s := by
  change (expect (s.mem.dmaWrite addr wdata strobe) >>= fun mem => set { s with mem }) s = _
  rw [Memory.dmaWrite, if_neg h]
  rfl

theorem Sim.dmaWrite {k : Unit → Service α} (strb : BitVec 4) (h : Serves n s)
    (hw : Patient value n)
    (hk : ∀ s', (n.taken true addr strb wdata).Serves s' → s'.v = s.v → Sim value (k ())
      (cycle (notifyPort value) true (n.asks true addr strb wdata)) s' R) :
    Sim value (dmaWrite addr wdata (strb.setWidth 32) >>= k) (n.access true addr strb wdata) s R := by
  have hb : (TinyProcessors.dmaWrite addr wdata (strb.setWidth 32) >>= k) s =
      EStateM.bind (TinyProcessors.dmaWrite addr wdata (strb.setWidth 32)) k s := rfl
  unfold EStateM.bind at hb
  by_cases ha : dmaWord addr = true
  · obtain ⟨_, s', he, hs⟩ := dmaWrite_runs s wdata (strb.setWidth 32) ha
    have hn := hk s' ⟨h.same.write ha strb wdata hs, h.served, h.queue, rfl⟩ hs.v
    rw [he] at hb
    rw [access_in ha]
    refine Sim.step (hw.stalls _ _ _ _) (busy_waits hw.busy h.served) ?_
    unfold Sim at hn ⊢
    rw [hb]
    exact hn
  · rw [dmaWrite_out ha] at hb
    rw [access_out ha]
    unfold Sim
    rw [hb]
    exact ⟨_, .refl, rfl, h.failed⟩

theorem expect_bind (o : Option α) (f : α → Option β) :
    expect (o >>= f) = expect o >>= fun a => expect (f a) := by
  cases o with
  | none => rfl
  | some a => rfl

theorem Sim.check {k : Unit → Service α} {p : Prop} [Decidable p]
    (hn : ¬ p → d.state = .fail ∧ d.Serves s) (hk : p → Sim value (k ()) d s R) :
    Sim value (expect (guard p) >>= k) d s R := by
  by_cases hp : p
  · rw [guard, if_pos hp]
    exact hk hp
  · rw [guard, if_neg hp]
    exact .throw (hn hp).1 (hn hp).2

theorem cycle_asks (h : n.served = false) :
    cycle (notifyPort value) true (n.asks we addr strb wdata) =
      let d := n.asks we addr strb wdata
      let t := n.taken we addr strb wdata
      match n.state with
      | .idle => d.onIdle t (notifyPort value)
      | .availIdx => d.onAvailIdx t
      | .ring => d.onRing t
      | .desc => d.onDesc t
      | .header => d.onHeader t
      | .copy => d.onCopy t true
      | .status => d.onStatus t true
      | .usedId => d.onUsedId t
      | .usedLen => d.onUsedLen t
      | .usedIdx => d.onUsedIdx t
      | .next => d.onNext t
      | .fail => d.onFail t := by
  unfold cycle
  rw [clocked_asks h]
  rfl

def descWords (q : BlkRequest) (address length : Word) : BlkRequest :=
  if q.which = 0 then { q with headerAddr := address, word := 3 }
  else if q.which = 1 then { q with dataAddr := address, dataLen := length, word := 3 }
  else { q with statusAddr := address, word := 3 }

def latchWord (q : BlkRequest) (word : Word) : BlkRequest := { latch q word with word := q.word + 1 }

theorem latch_words (q : BlkRequest) (hq : q.word = 0) (address high length : Word) :
    latchWord (latchWord (latchWord q address) high) length = descWords q address length := by
  obtain ⟨which, word, head, next, headerAddr, dataAddr, dataLen, statusAddr, typeWord, sector,
    sectorHi, dataWrite, copied, result⟩ := q
  cases hq
  have hw : ∀ w : BitVec 2, w = 0 ∨ w = 1 ∨ w = 2 ∨ w = 3 := by decide
  rcases hw which with rfl | rfl | rfl | rfl <;> rfl

theorem onDesc_word (n : BlkRtl) (addr : Word) (h3 : n.req.word ≠ 3)
    (hz : n.req.word = 1 → n.mem (WordRam.index addr) = 0) :
    (n.asks false addr 0xf 0).onDesc (n.taken false addr 0xf 0) =
      { n.taken false addr 0xf 0 with
        req := latchWord n.req (n.mem (WordRam.index addr)) }.access false
        (n.descBase + ((n.req.word + 1) ++ 0#2).setWidth 32) 0xf 0 := by
  have h1 : ¬ ((n.asks false addr 0xf 0).req.word = 1 ∧ (n.asks false addr 0xf 0).rdata ≠ 0) := by
    rintro ⟨h, h'⟩
    exact h' (hz h)
  exact (if_neg h1).trans (if_pos h3)

theorem onDesc_high (n : BlkRtl) (addr : Word) (h1 : n.req.word = 1)
    (hz : n.mem (WordRam.index addr) ≠ 0) :
    (n.asks false addr 0xf 0).onDesc (n.taken false addr 0xf 0) =
      { n.taken false addr 0xf 0 with
        req := latch n.req (n.mem (WordRam.index addr))
        state := .fail } :=
  if_pos ⟨h1, hz⟩

theorem latch_index (q : BlkRequest) (word : Word) :
    (latch q word).which = q.which ∧ (latch q word).head = q.head ∧ (latch q word).next = q.next := by
  unfold latch
  dsimp only
  split_ifs <;> exact ⟨rfl, rfl, rfl⟩

def nextWord (n : BlkRtl) (addr : Word) : BlkRtl :=
  { n.taken false addr 0xf 0 with
    req := latchWord n.req (n.mem (WordRam.index addr)) }

theorem nextWord_descBase (n : BlkRtl) (addr : Word) : (n.nextWord addr).descBase = n.descBase := by
  obtain ⟨h₁, h₂, h₃⟩ := latch_index n.req (n.mem (WordRam.index addr))
  unfold descBase nextWord latchWord
  dsimp only
  rw [h₁, h₂, h₃]
  rfl

theorem Sim.descWord {k : Word → Service α} (h : Serves n s) (hs : n.state = .desc)
    (hw : n.req.word = word) (h3 : word ≠ 3) (hz : word = 1 → n.mem (WordRam.index addr) = 0)
    (hk : (n.nextWord addr).Serves s → (n.nextWord addr).req.word = word + 1 →
      Sim value (k (n.mem (WordRam.index addr)))
        ((n.nextWord addr).access false (n.descBase + ((word + 1) ++ 0#2).setWidth 32) 0xf 0) s R) :
    Sim value (expect (TinyProcessors.dmaRead s.mem.ram addr) >>= k) (n.access false addr 0xf 0)
      s R := by
  refine Sim.dmaRead h (patient_of_waits h.served (by rw [hs]; rfl)) ?_
  rw [cycle_asks h.served, hs]
  dsimp only
  subst hw
  rw [onDesc_word n _ h3 hz]
  exact hk ⟨h.same, h.served, h.queue, rfl⟩ rfl

theorem Sim.descHigh {k : Word → Service α} (h : Serves n s) (hs : n.state = .desc)
    (h1 : n.req.word = 1) (hz : n.mem (WordRam.index addr) ≠ 0)
    (hk : ∀ d, d.state = .fail → d.Serves s → Sim value (k (n.mem (WordRam.index addr))) d s R) :
    Sim value (expect (TinyProcessors.dmaRead s.mem.ram addr) >>= k) (n.access false addr 0xf 0)
      s R := by
  refine Sim.dmaRead h (patient_of_waits h.served (by rw [hs]; rfl)) ?_
  rw [cycle_asks h.served, hs]
  dsimp only
  rw [onDesc_high n _ h1 hz]
  exact hk _ rfl ⟨h.same, h.served, h.queue, rfl⟩

theorem Sim.readDescriptor {k : Descriptor → Service α} (h : Serves n s) (hs : n.state = .desc)
    (hz : n.req.word = 0) (hb : n.descBase = s.v.descLo + 16 * index)
    (hk : ∀ (m : BlkRtl) (address length : Word), m.Serves s → m.state = .desc → m.req = descWords n.req address length →
      Sim value (k (let flags := m.mem (WordRam.index (n.descBase + 12))
          ⟨address, length, flags &&& 1 ≠ 0, flags &&& 2 ≠ 0, flags >>> 16⟩))
        (cycle (notifyPort value) true (m.asks false (n.descBase + 12) 0xf 0)) s R) :
    Sim value (expect (readDescriptor s.mem.ram s.v index) >>= k)
      (n.access false n.descBase 0xf 0) s R := by
  have hw : BlkState.waits n.state = true := by
    rw [hs]
    rfl
  unfold TinyProcessors.readDescriptor
  simp only [expect_bind, bind_assoc, ← hb]
  refine Sim.descWord h hs hz (by decide) (fun h => by cases h) fun h₁ hz₁ => ?_
  have hb₁ := n.nextWord_descBase n.descBase
  by_cases hh : (n.nextWord n.descBase).mem (WordRam.index (n.descBase + 4)) = 0
  · refine Sim.descWord h₁ hs hz₁ (by decide) (fun _ => hh) fun h₂ hz₂ => ?_
    refine Sim.check (fun h0 => absurd hh h0) fun _ => ?_
    have hb₂ := (n.nextWord n.descBase).nextWord_descBase (n.descBase + 4)
    rw [hb₁] at hb₂ ⊢
    refine Sim.descWord h₂ hs hz₂ (by decide) (fun h => by cases h) fun h₃ hz₃ => ?_
    rw [hb₂]
    refine Sim.dmaRead h₃ (patient_of_waits h₃.served hw) ?_
    exact hk _ _ _ h₃ hs (latch_words n.req hz _ _ _)
  · refine Sim.descHigh h₁ hs hz₁ hh fun d hd hv => ?_
    exact Sim.check (fun _ => ⟨hd, hv⟩) fun h0 => absurd h0 hh

def linked (q : BlkRequest) (desc : Descriptor) : BlkRequest :=
  { descWords q desc.address desc.length with
    dataWrite := if q.which = 1 then desc.write else q.dataWrite
    next := desc.next.setWidth 16
    which := q.which + 1
    word := 0 }

theorem descWords_kept (q : BlkRequest) (address length : Word) :
    (descWords q address length).which = q.which ∧ (descWords q address length).word = 3 ∧
      (descWords q address length).dataWrite = q.dataWrite := by
  unfold descWords
  split_ifs <;> exact ⟨rfl, rfl, rfl⟩

theorem latch_last (q : BlkRequest) (h : q.word = 3) (word : Word) : latch q word = q := by
  have h0 : ¬ q.word = 0 := by
    rw [h]
    decide
  have h2 : ¬ (q.which = 1 ∧ q.word = 2) := by
    rw [h]
    exact fun h => absurd h.2 (by decide)
  simp only [latch, if_neg h0, if_neg h2]

def follow (n : BlkRtl) (addr : Word) : BlkRtl :=
  let flags := n.mem (WordRam.index addr)
  { n.taken false addr 0xf 0 with req := { n.req with
      dataWrite := if n.req.which = 1 then flags.getLsbD 1 else n.req.dataWrite
      next := flags.extractLsb' 16 16
      which := n.req.which + 1
      word := 0 } }

def headed (n : BlkRtl) (addr : Word) : BlkRtl :=
  { n.taken false addr 0xf 0 with req := { n.req with word := 0 }, state := .header }

theorem onDesc_last (n : BlkRtl) (addr : Word) (h3 : n.req.word = 3) :
    (n.asks false addr 0xf 0).onDesc (n.taken false addr 0xf 0) =
      if badFlags n.regs n.req.which (n.mem (WordRam.index addr)) then
        { n.taken false addr 0xf 0 with state := .fail }
      else if n.req.which = 2 then (n.headed addr).access false n.req.headerAddr 0xf 0
      else (n.follow addr).access false
        (n.regs.descAt ((n.mem (WordRam.index addr)).extractLsb' 16 16)) 0xf 0 := by
  have hl := latch_last n.req h3 (n.mem (WordRam.index addr))
  have h1 : ¬ (n.req.word = 1 ∧ n.mem (WordRam.index addr) ≠ 0) := by
    rw [h3]
    exact fun h => absurd h.1 (by decide)
  unfold onDesc
  rw [show latch (n.asks false addr 0xf 0).req (n.asks false addr 0xf 0).rdata = n.req from hl]
  exact (if_neg h1).trans (if_neg (not_not.2 h3))

theorem Sim.flags {k : Descriptor → Service α} (which : Fin 3) (h : Serves n s)
    (hs : n.state = .desc) (hz : n.req.word = 0) (hw : n.req.which = BitVec.ofNat 2 which)
    (hb : n.descBase = s.v.descLo + 16 * index)
    (hk : ∀ (m : BlkRtl) (address length addr : Word), m.Serves s → m.state = .desc →
      m.req = descWords n.req address length →
      Sim value (k (let flags := m.mem (WordRam.index addr)
          ⟨address, length, flags &&& 1 ≠ 0, flags &&& 2 ≠ 0, flags >>> 16⟩))
        (if m.req.which = 2 then (m.headed addr).access false m.req.headerAddr 0xf 0
        else (m.follow addr).access false
          (m.regs.descAt ((m.mem (WordRam.index addr)).extractLsb' 16 16)) 0xf 0) s R) :
    Sim value (expect (chainDescriptor s.mem.ram s.v which index) >>= k)
      (n.access false n.descBase 0xf 0) s R := by
  unfold chainDescriptor
  simp only [expect_bind, bind_assoc]
  refine Sim.readDescriptor h hs hz hb fun m address length hm hms hmq => ?_
  obtain ⟨hq₁, hq₂, -⟩ := descWords_kept n.req address length
  rw [← hmq] at hq₁ hq₂
  have hbf := badFlags_eq m.regs which (m.mem (WordRam.index (n.descBase + 12)))
  rw [← hm.same.regs.queueNum, ← hw, ← hq₁] at hbf
  rw [cycle_asks hm.served, hms]
  dsimp only
  rw [onDesc_last _ _ hq₂]
  by_cases hbad : badFlags m.regs m.req.which (m.mem (WordRam.index (n.descBase + 12))) = true
  · rw [if_pos hbad]
    refine Sim.check (fun _ => ⟨rfl, hm.same, hm.served, hm.queue, rfl⟩) fun hp => ?_
    rw [hbf.2 hp] at hbad
    cases hbad
  · rw [if_neg hbad]
    refine Sim.check (fun hn => absurd (hbf.1 (Bool.eq_false_iff.2 hbad)) hn) fun _ => ?_
    exact hk m address length _ hm hms hmq

theorem Sim.link {k : Descriptor → Service α} (which : Fin 2) (h : Serves n s)
    (hs : n.state = .desc) (hz : n.req.word = 0) (hw : n.req.which = BitVec.ofNat 2 which)
    (hb : n.descBase = s.v.descLo + 16 * index)
    (hk : ∀ (desc : Descriptor) (n' : BlkRtl), Serves n' s → n'.state = .desc → n'.req = linked n.req desc →
      n'.descBase = s.v.descLo + 16 * desc.next →
      Sim value (k desc) (n'.access false n'.descBase 0xf 0) s R) :
    Sim value (expect (chainDescriptor s.mem.ram s.v which index) >>= k)
      (n.access false n.descBase 0xf 0) s R := by
  have hne : ∀ w : Fin 2, BitVec.ofNat 2 w ≠ 2 ∧ BitVec.ofNat 2 w + 1 ≠ 0 := by decide
  refine Sim.flags which.castSucc h hs hz hw hb fun m address length addr hm hms hmq => ?_
  obtain ⟨hq₁, -, hq₃⟩ := descWords_kept n.req address length
  rw [← hmq] at hq₁ hq₃
  have h2 : m.req.which ≠ 2 := by
    rw [hq₁, hw]
    exact (hne which).1
  have h0 : m.req.which + 1 ≠ 0 := by
    rw [hq₁, hw]
    exact (hne which).2
  have hbase : (m.follow addr).descBase =
      m.regs.descAt ((m.mem (WordRam.index addr)).extractLsb' 16 16) :=
    congrArg m.regs.descAt (if_neg h0)
  rw [if_neg h2, ← hbase]
  refine hk _ (m.follow addr) ⟨hm.same, hm.served, hm.queue, rfl⟩ hms ?_ ?_
  · have hf : (m.mem (WordRam.index addr)).getLsbD 1 =
        decide (m.mem (WordRam.index addr) &&& 2 ≠ 0) := by
      rw [Bool.eq_iff_iff, decide_eq_true_eq]
      exact (flag_iff _ 1 (by omega)).symm
    unfold linked follow
    rw [← hmq, ← hq₁, ← hq₃, ← high_half]
    dsimp only
    rw [hf]
  · rw [hbase, descAt_eq, hm.same.regs.descLo, ← link_eq]

theorem Sim.last {k : Descriptor → Service α} (h : Serves n s) (hs : n.state = .desc)
    (hz : n.req.word = 0) (hw : n.req.which = 2) (hb : n.descBase = s.v.descLo + 16 * index)
    (hk : ∀ (desc : Descriptor) (n' : BlkRtl), Serves n' s → n'.state = .header →
      n'.req = { n.req with statusAddr := desc.address, word := 0 } →
      Sim value (k desc) (n'.access false n'.req.headerAddr 0xf 0) s R) :
    Sim value (expect (chainDescriptor s.mem.ram s.v 2 index) >>= k)
      (n.access false n.descBase 0xf 0) s R := by
  refine Sim.flags 2 h hs hz hw hb fun m address length addr hm hms hmq => ?_
  have hq : m.req = { n.req with statusAddr := address, word := 3 } := by
    unfold descWords at hmq
    rw [if_neg (by rw [hw]; decide), if_neg (by rw [hw]; decide)] at hmq
    exact hmq
  have h2 : m.req.which = 2 := by
    rw [hq]
    exact hw
  rw [if_pos h2]
  refine hk _ (m.headed addr) ⟨hm.same, hm.served, hm.queue, rfl⟩ rfl ?_
  unfold headed
  rw [hq]

structure Holds (q : BlkRequest) (c : Chain) : Prop where
  head : q.head.setWidth 32 = c.head
  header : q.headerAddr = c.header.address
  dataAddr : q.dataAddr = c.data.address
  dataLen : q.dataLen = c.data.length
  dataWrite : q.dataWrite = c.data.write
  status : q.statusAddr = c.status.address

theorem half_asks (n : BlkRtl) (addr : Word) :
    (n.asks false addr 0xf 0).half =
      if addr &&& 2 ≠ 0 then (n.mem (WordRam.index addr) >>> 16).setWidth 16
      else (n.mem (WordRam.index addr)).setWidth 16 := by
  have h2 : addr &&& 2 ≠ 0 ↔ addr.getLsbD 1 = true := flag_iff addr 1 (by omega)
  rw [← high_half, ← low_half]
  unfold half
  split
  next h => rw [if_pos (h2.2 h)]; rfl
  next h => rw [if_neg (fun hn => h (h2.1 hn))]; rfl

theorem Sim.dmaRead16 {k : BitVec 16 → Service α} (h : Serves n s) (hw : Patient value n)
    (hk : Sim value (k (n.asks false addr 0xf 0).half)
      (cycle (notifyPort value) true (n.asks false addr 0xf 0)) s R) :
    Sim value (expect (TinyProcessors.dmaRead16 s.mem.ram addr) >>= k) (n.access false addr 0xf 0)
      s R := by
  have he : expect (TinyProcessors.dmaRead16 s.mem.ram addr) =
      expect (TinyProcessors.dmaRead s.mem.ram addr) >>= fun word =>
        (Pure.pure (if addr &&& 2 ≠ 0 then (word >>> 16).setWidth 16 else word.setWidth 16) :
          Service (BitVec 16)) := by
    unfold TinyProcessors.dmaRead16
    cases TinyProcessors.dmaRead s.mem.ram addr with
    | none => rfl
    | some word => rfl
  rw [he, bind_assoc]
  refine Sim.dmaRead h hw ?_
  rw [pure_bind, ← half_asks]
  exact hk

def ringed (n : BlkRtl) (addr : Word) (head : BitVec 16) : BlkRtl :=
  { n.taken false addr 0xf 0 with
    req := { n.req with head, which := 0, word := 0 }
    state := .desc }

theorem onRing_asks (n : BlkRtl) (addr : Word) :
    (n.asks false addr 0xf 0).onRing (n.taken false addr 0xf 0) =
      if n.regs.queueNum.setWidth 16 ≤ (n.asks false addr 0xf 0).half then
        { n.taken false addr 0xf 0 with state := .fail }
      else (n.ringed addr (n.asks false addr 0xf 0).half).access false
        (n.regs.descAt (n.asks false addr 0xf 0).half) 0xf 0 :=
  rfl

theorem Sim.readChain {k : Chain → Service α} (h : Serves n s) (hs : n.state = .ring)
    (hk : ∀ (c : Chain) (n' : BlkRtl), Serves n' s → n'.state = .header → n'.req.word = 0 →
      Holds n'.req c → Sim value (k c) (n'.access false n'.req.headerAddr 0xf 0) s R) :
    Sim value (expect (readChain s.mem.ram s.v) >>= k) (n.access false n.regs.availSlot 0xf 0)
      s R := by
  have hr := h.same.regs
  unfold TinyProcessors.readChain
  simp only [expect_bind, bind_assoc]
  rw [availSlot_eq _ h.queue, ← hr.driverLo, ← hr.lastAvail, ← hr.queueNum]
  refine Sim.dmaRead16 h (patient_of_waits h.served (by rw [hs]; rfl)) ?_
  generalize s.v.driverLo + 4 + 2 * (s.v.lastAvail.setWidth 32 &&& (s.v.queueNum - 1)) = addr
  rw [cycle_asks h.served, hs]
  dsimp only
  have hq := queueNum_le n.regs (n.asks false addr 0xf 0).half
  rw [← hr.queueNum] at hq
  rw [onRing_asks]
  generalize (n.asks false addr 0xf 0).half = head at hq ⊢
  by_cases hle : n.regs.queueNum.setWidth 16 ≤ head
  · rw [if_pos hle]
    exact Sim.check (fun _ => ⟨rfl, h.same, h.served, h.queue, rfl⟩) fun hp => absurd hp (hq.1 hle)
  · rw [if_neg hle]
    refine Sim.check (fun hn => absurd (hq.2 hn) hle) fun _ => ?_
    have h₀ : (n.ringed addr head).Serves s := ⟨h.same, h.served, h.queue, rfl⟩
    have hb₀ : (n.ringed addr head).descBase = s.v.descLo + 16 * head.setWidth 32 := by
      rw [hr.descLo, ← descAt_eq]
      rfl
    rw [show n.regs.descAt head = (n.ringed addr head).descBase from rfl]
    refine Sim.link 0 h₀ rfl rfl rfl hb₀ fun header n₁ h₁ hs₁ hq₁ hb₁ => ?_
    refine Sim.link 1 h₁ hs₁ (by rw [hq₁]; rfl) (by rw [hq₁]; rfl) hb₁ fun data n₂ h₂ hs₂ hq₂ hb₂ => ?_
    refine Sim.last h₂ hs₂ (by rw [hq₂]; rfl) (by rw [hq₂, hq₁]; rfl) hb₂
      fun status n₃ h₃ hs₃ hq₃ => ?_
    refine hk _ n₃ h₃ hs₃ (by rw [hq₃]) ?_
    rw [hq₃, hq₂, hq₁]
    exact ⟨rfl, rfl, rfl, rfl, rfl, rfl⟩

def withHeader (q : BlkRequest) (word : Word) : BlkRequest :=
  if q.word = 0 then { q with typeWord := word, word := 2 }
  else if q.word = 2 then { q with sector := word, word := 3 }
  else { q with sectorHi := word, copied := 0 }

def nextHeader (n : BlkRtl) (addr : Word) : BlkRtl :=
  { n.taken false addr 0xf 0 with req := withHeader n.req (n.mem (WordRam.index addr)) }

theorem onHeader_asks (n : BlkRtl) (addr : Word) :
    (n.asks false addr 0xf 0).onHeader (n.taken false addr 0xf 0) =
      if n.req.word = 0 then (n.nextHeader addr).access false (n.req.headerAddr + 8) 0xf 0
      else if n.req.word = 2 then (n.nextHeader addr).access false (n.req.headerAddr + 12) 0xf 0
      else { n.nextHeader addr with state := .copy } := by
  unfold nextHeader withHeader
  by_cases h0 : n.req.word = 0
  · rw [if_pos h0, if_pos h0]
    exact if_pos h0
  · rw [if_neg h0, if_neg h0]
    by_cases h2 : n.req.word = 2
    · rw [if_pos h2, if_pos h2]
      exact (if_neg h0).trans (if_pos h2)
    · rw [if_neg h2, if_neg h2]
      exact (if_neg h0).trans (if_neg h2)

theorem Sim.headerWord {k : Word → Service α} (h : Serves n s) (hs : n.state = .header)
    (hk : (n.nextHeader addr).Serves s → Sim value (k (n.mem (WordRam.index addr)))
      (if n.req.word = 0 then (n.nextHeader addr).access false (n.req.headerAddr + 8) 0xf 0
      else if n.req.word = 2 then (n.nextHeader addr).access false (n.req.headerAddr + 12) 0xf 0
      else { n.nextHeader addr with state := .copy }) s R) :
    Sim value (expect (TinyProcessors.dmaRead s.mem.ram addr) >>= k) (n.access false addr 0xf 0)
      s R := by
  refine Sim.dmaRead h (patient_of_waits h.served (by rw [hs]; rfl)) ?_
  rw [cycle_asks h.served, hs]
  dsimp only
  rw [onHeader_asks]
  exact hk ⟨h.same, h.served, h.queue, rfl⟩

theorem Sim.readHeader {k : Header → Service α} (h : Serves n s) (hs : n.state = .header)
    (hz : n.req.word = 0)
    (hk : ∀ (hdr : Header) (n' : BlkRtl), Serves n' s → n'.state = .copy →
      n'.req = { n.req with
        typeWord := hdr.type
        sector := hdr.sector
        sectorHi := hdr.sectorHi
        copied := 0
        word := 3 } → Sim value (k hdr) n' s R) :
    Sim value (expect (readHeader s.mem.ram n.req.headerAddr) >>= k)
      (n.access false n.req.headerAddr 0xf 0) s R := by
  unfold TinyProcessors.readHeader
  simp only [expect_bind, bind_assoc]
  refine Sim.headerWord h hs fun h₁ => ?_
  rw [if_pos hz]
  have hq₁ : (n.nextHeader n.req.headerAddr).req = { n.req with
      typeWord := n.mem (WordRam.index n.req.headerAddr), word := 2 } := if_pos hz
  generalize hn₁ : n.nextHeader n.req.headerAddr = n₁ at h₁ hq₁ ⊢
  have hs₁ : n₁.state = .header := hn₁ ▸ hs
  have hw₁ : n₁.req.word = 2 := by rw [hq₁]
  have h0₁ : ¬ n₁.req.word = 0 := by rw [hw₁]; decide
  refine Sim.headerWord h₁ hs₁ fun h₂ => ?_
  rw [if_neg h0₁, if_pos hw₁, show n₁.req.headerAddr = n.req.headerAddr by rw [hq₁]]
  have hq₂ : (n₁.nextHeader (n.req.headerAddr + 8)).req = { n₁.req with
      sector := n₁.mem (WordRam.index (n.req.headerAddr + 8)), word := 3 } :=
    (if_neg h0₁).trans (if_pos hw₁)
  generalize hn₂ : n₁.nextHeader (n.req.headerAddr + 8) = n₂ at h₂ hq₂ ⊢
  have hs₂ : n₂.state = .header := hn₂ ▸ hs₁
  have hw₂ : n₂.req.word = 3 := by rw [hq₂]
  have h0₂ : ¬ n₂.req.word = 0 := by rw [hw₂]; decide
  have h2₂ : ¬ n₂.req.word = 2 := by rw [hw₂]; decide
  refine Sim.headerWord h₂ hs₂ fun h₃ => ?_
  rw [if_neg h0₂, if_neg h2₂]
  refine hk _ _ ⟨h₂.same, h₂.served, h₂.queue, rfl⟩ rfl ?_
  refine (if_neg h0₂).trans ((if_neg h2₂).trans ?_)
  rw [hq₂, hq₁]

theorem Sim.forM_range' {f : Nat → Service Unit} {P : Nat → BlkRtl → Blk → Prop} (m start : Nat)
    (h : P start d s)
    (hf : ∀ i d s, i < start + m → P i d s → Sim value (f i) d s fun _ d' s' => P (i + 1) d' s') :
    Sim value ((List.range' start m).forM f) d s fun _ d' s' => P (start + m) d' s' := by
  induction m generalizing start d s with
  | zero => exact .pure h
  | succ m ih =>
    change Sim value (f start >>= fun _ => (List.range' (start + 1) m).forM f) d s _
    refine .bind (hf start d s (by omega) h) fun _ d₁ s₁ h₁ => ?_
    have h₂ := ih (start + 1) h₁ fun i d s hi => hf i d s (by omega)
    rwa [Nat.add_right_comm] at h₂

theorem Sim.forM_range {f : Nat → Service Unit} {P : Nat → BlkRtl → Blk → Prop} (m : Nat)
    (h : P 0 d s)
    (hf : ∀ i d s, i < m → P i d s → Sim value (f i) d s fun _ d' s' => P (i + 1) d' s') :
    Sim value ((List.range m).forM f) d s fun _ d' s' => P m d' s' := by
  rw [List.range_eq_range']
  have h' := Sim.forM_range' m 0 h fun i d s hi => hf i d s (by omega)
  rwa [Nat.zero_add] at h'

end BlkRtl

end TinyProcessors
