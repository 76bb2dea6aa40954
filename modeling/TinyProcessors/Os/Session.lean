import TinyProcessors.Os.Lockstep

namespace TinyProcessors

def Transfer.ramAfter (c : Transfer) (drive : Drive) (ram : Bytes) : Bytes :=
  if c.Fits drive ∧ c.write = false then
    ram.overwrite c.buffer.toNat (c.count.toNat * 512) (drive.bytes.window (c.sector.toNat * 512))
  else ram

def Transfer.diskAfter (c : Transfer) (drive : Drive) (ram : Bytes) : Bytes :=
  if c.Fits drive ∧ c.write = true then
    drive.bytes.overwrite (c.sector.toNat * 512) (c.count.toNat * 512) (ram.window c.buffer.toNat)
  else drive.bytes

structure Transfer.Placed (r : Rings) (c : Transfer) : Prop where
  aligned : c.buffer.toNat % 4 = 0
  inRam : 0x80000000 ≤ c.buffer.toNat ∧ c.buffer.toNat + c.count.toNat * 512 ≤ 0x81000000
  clear : ∀ a, c.buffer.toNat ≤ a → a < c.buffer.toNat + c.count.toNat * 512 → ¬ r.owns a

def Transfer.Unwrapped (c : Transfer) (drive : Drive) : Prop :=
  c.Wraps drive → c.buffer.toNat % 4 = 0 → c.Fits drive

structure Lockstep (r : Rings) (s : Drv) : Prop where
  device : s.device = true
  queue : s.blk.v.HasQueue r
  sound : s.blk.v.Sound
  avail : s.blk.mem.ram.half (r.avail.toNat + 2) = s.seen
  used : s.blk.mem.ram.half (r.used.toNat + 2) = s.seen
  lastAvail : s.blk.v.lastAvail = s.seen
  usedIdx : s.blk.v.usedIdx = s.seen

structure Transferred (r : Rings) (c : Transfer) (s : Drv) (ok : Bool) (s' : Drv) : Prop where
  ok : ok = decide (c.Fits s.blk.v.drive)
  drive : s'.blk.v.drive = { s.blk.v.drive with
    bytes := c.diskAfter s.blk.v.drive s.blk.mem.ram }
  ram : ∀ a, ¬ r.owns a → s'.blk.mem.ram a = c.ramAfter s.blk.v.drive s.blk.mem.ram a
  failure : s'.failure = s.failure

theorem Transfer.Fits.count {c : Transfer} (h : c.Fits drive) : c.count.toNat % 2 ^ 23 = c.count.toNat := by
  have hs := drive.small
  have hf := h.2
  unfold Drive.sectors at hf
  omega

theorem Transfer.Fits.wraps {c : Transfer} (h : c.Fits drive) : c.Wraps drive := by
  unfold Transfer.Wraps
  rw [h.count]
  exact h

theorem Transfer.ramAfter_congr {ram ram' : Bytes} (c : Transfer) (drive : Drive)
    (h : ram' a = ram a) : c.ramAfter drive ram' a = c.ramAfter drive ram a := by
  unfold Transfer.ramAfter
  split
  · unfold Bytes.overwrite
    rw [h]
  · exact h

section Call

variable {r : Rings} {c : Transfer} {drive : Drive} {ram : Bytes}

theorem Transfer.ramAfter_owned (hp : c.Fits drive → c.Placed r) (ha : r.owns a) :
    c.ramAfter drive ram a = ram a := by
  unfold Transfer.ramAfter
  split
  next h =>
    have hc := (hp h.1).clear a
    apply overwrite_of_not_mem
    by_contra hn
    exact hc (by omega) (by omega) ha
  next => rfl

theorem Transfer.diskAfter_prepare (hp : c.Fits drive → c.Placed r) :
    c.diskAfter drive (c.prepare r ram) = c.diskAfter drive ram := by
  unfold Transfer.diskAfter
  split
  next h =>
    apply overwrite_congr
    intro k hk
    exact prepare_of_not_owns r c ram ((hp h.1).clear _ (by omega) (by omega))
  next => rfl

theorem answer_transfer (s : Blk) (hs : s.v.Sound) (hp : c.Fits s.v.drive → c.Placed r)
    (hu : c.Unwrapped s.v.drive) :
    Runs (answer c.header (c.chain r).data) s fun result s' =>
      (result = (if c.Fits s.v.drive then 0 else 1) ∧ s'.v.Sound ∧
        s'.v.drive = { s.v.drive with bytes := c.diskAfter s.v.drive s.mem.ram } ∧
        s'.mem.ram = c.ramAfter s.v.drive s.mem.ram) ∧ s.v.SameQueue s'.v := by
  have hi := c.fits_iff r s.v.drive
  by_cases hf : c.Fits s.v.drive
  · have hpl := hp hf
    have hlen : (c.chain r).data.length.toNat = c.count.toNat * 512 := by
      rw [← hf.count]
      exact c.length_toNat
    have hwords : 4 * (c.count.toNat * 512 / 4) = c.count.toNat * 512 := by omega
    have hdma : inDma (c.chain r).data.address ((c.chain r).data.length.toNat / 4) := by
      rw [hlen]
      refine ⟨hpl.aligned, hpl.inRam.1, ?_⟩
      rw [hwords]
      exact hpl.inRam.2
    have hfit := hi.2 ⟨hf.wraps, hpl.aligned⟩
    rw [if_pos hf]
    unfold Transfer.ramAfter Transfer.diskAfter
    cases hw : c.write with
    | false =>
      have ht : c.header.type = 0 := by
        unfold Transfer.header
        rw [hw]
        rfl
      refine Runs.mono (answer_in s ht hfit hs.noError hdma) ?_
      rintro _ s₁ ⟨rfl, h₁⟩
      rw [hlen, hwords] at h₁
      rw [if_neg (by simp), if_pos ⟨hf, rfl⟩, h₁.v]
      exact ⟨⟨rfl, hs, rfl, h₁.ram⟩, .refl _⟩
    | true =>
      have ht : c.header.type = 1 := by
        unfold Transfer.header
        rw [hw]
        rfl
      refine Runs.mono (answer_out s ht hfit hs hdma) ?_
      rintro _ s₁ ⟨rfl, h₁⟩
      rw [hlen, hwords] at h₁
      rw [if_pos ⟨hf, rfl⟩, if_neg (by simp), h₁.mem]
      exact ⟨⟨rfl, h₁.sound, h₁.drive, rfl⟩, h₁.queue⟩
  · have hfit : c.header.fits s.v.drive (c.chain r).data = false := by
      rw [Bool.eq_false_iff]
      intro h
      obtain ⟨hw, ha⟩ := hi.1 h
      exact hf (hu hw ha)
    have ht : c.header.type ≤ 1 := by
      unfold Transfer.header
      cases c.write
      · exact (by decide : (0 : Word) ≤ 1)
      · exact (by decide : (1 : Word) ≤ 1)
    refine Runs.mono (answer_refused s ht hfit) ?_
    rintro _ _ ⟨rfl, rfl⟩
    unfold Transfer.ramAfter Transfer.diskAfter
    rw [if_neg hf, if_neg (fun h => hf h.1), if_neg (fun h => hf h.1)]
    exact ⟨⟨rfl, hs, rfl, rfl⟩, .refl _⟩

structure Performed (r : Rings) (c : Transfer) (ram : Bytes) (v : VirtioBlk) (s' : Blk) : Prop where
  sound : s'.v.Sound
  drive : s'.v.drive = { v.drive with bytes := c.diskAfter v.drive ram }
  others : ∀ a, ¬ r.owns a → s'.mem.ram a = c.ramAfter v.drive ram a
  status : s'.mem.ram r.statusByte.toNat = if c.Fits v.drive then 0 else 1
  used : s'.mem.ram.half (r.used.toNat + 2) = v.usedIdx + 1
  avail : s'.mem.ram.half (r.avail.toNat + 2) = ram.half (r.avail.toNat + 2) + 1
  queue : v.SameQueue s'.v

theorem performRequest_transfer (s : Blk) (hr : s.mem.ram = c.prepare r ram)
    (hq : s.v.HasQueue r) (hn : ram.half (r.avail.toNat + 2) = s.v.lastAvail) (hs : s.v.Sound)
    (hp : c.Fits s.v.drive → c.Placed r) (hu : c.Unwrapped s.v.drive) :
    Runs performRequest s fun _ s' => Performed r c ram s.v s' := by
  have hch : readChain s.mem.ram s.v = some (c.chain r) := by
    rw [hr]
    exact prepared_chain hq hn
  have hhe : readHeader s.mem.ram (c.chain r).header.address = some c.header := by
    rw [hr]
    exact prepared_header
  have huw := used_owned (c := c) hq
  refine Runs.mono (performRequest_runs hch hhe (fun w hw => (huw w hw).1)
    (answer_transfer s hs hp hu)) ?_
  rintro _ s₂ ⟨result, s₁, ⟨rfl, hs₁, hd₁, hr₁⟩, hq₁, h₂⟩
  rw [hr₁, hr] at h₂
  rw [hr, Transfer.diskAfter_prepare hp] at hd₁
  have hun : ∀ a, a ≠ r.statusByte.toNat → (a < r.used.toNat + 2 ∨ r.used.toNat + 72 ≤ a) →
      s₂.mem.ram a = c.ramAfter s.v.drive (c.prepare r ram) a := by
    intro a hs ha
    rw [h₂.ram]
    apply usedRam_of_not
    intro w hw hst
    cases (huw w hw).2 a hst with
    | inl h => exact hs h
    | inr h => omega
  constructor
  · rw [h₂.v]
    exact hs₁
  · rw [h₂.v]
    exact hd₁
  · intro a ha
    have hp := prepare_of_not_owns r c ram ha
    unfold Rings.owns at ha
    rw [hun a (by omega) (by omega), c.ramAfter_congr s.v.drive hp]
  · rw [h₂.ram]
    split
    · exact usedRam_status hq _ 0
    · exact usedRam_status hq _ 1
  · rw [h₂.ram]
    exact usedRam_index hq _ _
  · rw [← prepare_index r c ram]
    obtain ⟨-, ⟨ha, -, hst⟩, -, -⟩ := r.facts
    unfold Apart at ha hst
    apply half_congr
    intro k hk
    rw [hun _ (by omega) (by omega)]
    exact Transfer.ramAfter_owned hp (.inr (.inl ⟨by omega, by omega⟩))
  · rw [h₂.v]
    exact hq₁

theorem notify_one {Q : Blk → Prop} (s : Blk) (hq : s.v.HasQueue r)
    (hn : s.mem.ram.half (r.avail.toNat + 2) = s.v.lastAvail + 1)
    (hp : Runs performRequest s fun _ s' => Q s' ∧ s.v.SameQueue s'.v ∧
      s'.mem.ram.half (r.avail.toNat + 2) = s.v.lastAvail + 1) (fuel : Nat) (hf : 2 ≤ fuel) :
    ∃ s', virtioStore fuel s 0x050 4 0 = some (.ok, s'.served) ∧ Q s' ∧ s.v.SameQueue s'.v := by
  obtain ⟨fuel, rfl⟩ := Nat.exists_eq_add_of_le' hf
  obtain ⟨_, s', he, hQ, hv, ha⟩ := hp
  refine ⟨s', ?_, hQ, hv⟩
  obtain ⟨h4, hl, hr⟩ := r.avail_placed
  have hd : ∀ t : Blk, t.v.driverLo = r.avail →
      dmaRead16 t.mem.ram (t.v.driverLo + 2) = some (t.mem.ram.half (r.avail.toNat + 2)) := by
    intro t ht
    have hi : (r.avail + 2).toNat = r.avail.toNat + 2 := by bv_omega
    rw [ht, dmaRead16_eq, hi, if_pos (dmaWord_of (by omega) (by omega))]
    congr 2
    omega
  have hd₁ := hd s hq.driverLo
  have hd₂ := hd s'.served (by
    change s'.v.driverLo = r.avail
    rw [hv]
    exact hq.driverLo)
  have hl₂ : s'.served.v.lastAvail = s.v.lastAvail + 1 := by
    change s'.v.lastAvail + 1 = _
    rw [hv]
  have hne : s.v.lastAvail + 1 ≠ s.v.lastAvail := by
    intro h
    exact absurd (add_eq_left.1 h) (by decide)
  have hreq : Blk.virtioRequest s = .ok () s'.served := by
    change EStateM.bind performRequest (fun _ => modify Blk.served) s = _
    unfold EStateM.bind
    rw [he]
    rfl
  have hserves : s.v.serves 0 = true := by
    unfold VirtioBlk.serves
    rw [hq.queueReady, hq.status]
    decide
  have hserve : virtioServe (fuel + 2) s = some s'.served := by
    unfold virtioServe
    rw [hq.descHi, hq.driverHi, hq.deviceHi, hq.queueNum, if_neg (by decide)]
    unfold serveLoop
    rw [hd₁, hn]
    dsimp only
    rw [if_neg hne, hreq]
    dsimp only
    unfold serveLoop
    rw [hd₂]
    exact if_pos (ha.trans hl₂.symm)
  unfold virtioStore
  rw [if_neg (by decide), if_pos rfl, if_pos hserves, hserve]
  rfl

theorem awaitUsed_seen (polls : Nat) (h : s.blk.mem.ram.half (r.used.toNat + 2) ≠ s.seen) :
    Runs (awaitUsed r polls) s fun why s' => why = none ∧ s' = s := by
  unfold awaitUsed
  refine .read ?_
  rw [if_pos h]
  exact .pure ⟨rfl, rfl⟩

def Transfer.posted (r : Rings) (c : Transfer) (s : Blk) : Blk :=
  ⟨⟨c.prepare r s.mem.ram, s.mem.fb, s.mem.lr⟩, s.v⟩

theorem notify_transfer (s : Drv) (hs : Lockstep r s) (hp : c.Fits s.blk.v.drive → c.Placed r)
    (hu : c.Unwrapped s.blk.v.drive) (hf : 2 ≤ fuel) :
    ∃ b, virtioStore fuel (c.posted r s.blk) 0x050 4 0 = some (.ok, b.served) ∧
      Performed r c s.blk.mem.ram s.blk.v b := by
  have hn : s.blk.mem.ram.half (r.avail.toNat + 2) = s.blk.v.lastAvail :=
    hs.avail.trans hs.lastAvail.symm
  have hreq := performRequest_transfer (c.posted r s.blk) rfl hs.queue hn hs.sound hp hu
  obtain ⟨b, hstore, hb, -⟩ := notify_one (c.posted r s.blk) hs.queue
    ((prepare_index r c s.blk.mem.ram).trans (congrArg (· + 1) hn))
    (hreq.mono fun _ s' h => ⟨h, h.queue, h.avail.trans (congrArg (· + 1) hn)⟩) fuel hf
  exact ⟨b, hstore, hb⟩

def Drv.collected (s : Drv) (b : Blk) : Drv where
  blk := ⟨b.mem, { b.v with
    usedIdx := b.v.usedIdx + 1
    lastAvail := b.v.lastAvail + 1
    interrupt := false }⟩
  device := true
  seen := s.seen + 1
  failure := s.failure

theorem collect_runs (s : Drv) (hd : s.device = true) (b : Blk) (fuel : Nat) :
    Runs (collect r fuel) { s with blk := b.served } fun ok s' =>
      ok = decide (b.mem.ram r.statusByte.toNat = 0) ∧ s' = s.collected b := by
  refine .bind (P := fun _ s' => s' = { s with blk := b.served, seen := s.seen + 1 })
    (.modify rfl) ?_
  rintro _ _ rfl
  refine runs_mmioRead 1 rfl ?_
  refine runs_mmioWrite rfl (.read (.pure ⟨rfl, ?_⟩))
  unfold Drv.collected
  rw [← hd]
  rfl

theorem Performed.lockstep (hs : Lockstep r s) (h : Performed r c s.blk.mem.ram s.blk.v b) :
    Lockstep r (s.collected b) := by
  have hl : b.v.lastAvail + 1 = s.seen + 1 := by
    rw [h.queue]
    exact congrArg (· + 1) hs.lastAvail
  have hu : b.v.usedIdx + 1 = s.seen + 1 := by
    rw [h.queue]
    exact congrArg (· + 1) hs.usedIdx
  constructor
  · rfl
  · have hv := h.queue
    obtain ⟨h₁, h₂, h₃, h₄, h₅, h₆, h₇, h₈, h₉⟩ := hs.queue
    unfold Drv.collected
    rw [hv]
    exact ⟨h₁, h₂, h₃, h₄, h₅, h₆, h₇, h₈, h₉⟩
  · exact ⟨h.sound.noError, h.sound.takes⟩
  · exact h.avail.trans (congrArg (· + 1) hs.avail)
  · exact h.used.trans (congrArg (· + 1) hs.usedIdx)
  · exact hl
  · exact hu

theorem Performed.transferred (h : Performed r c s.blk.mem.ram s.blk.v b) :
    Transferred r c s (decide (b.mem.ram r.statusByte.toNat = 0)) (s.collected b) := by
  refine ⟨?_, h.drive, h.others, rfl⟩
  rw [h.status]
  split
  next hf => simp [hf]
  next hf => simp [hf]

theorem virtioTransfer_runs (s : Drv) (hs : Lockstep r s) (hp : c.Fits s.blk.v.drive → c.Placed r)
    (hu : c.Unwrapped s.blk.v.drive) (hf : 2 ≤ fuel) :
    Runs (r.virtioTransfer fuel c) s fun ok s' => Transferred r c s ok s' ∧ Lockstep r s' := by
  obtain ⟨b, hstore, hb⟩ := notify_transfer s hs hp hu hf
  refine .read ?_
  rw [hs.device]
  refine .bind (P := fun _ s' => s' = { s with blk := c.posted r s.blk }) (.modify rfl) ?_
  rintro _ _ rfl
  refine runs_mmioWrite hstore ?_
  have hne : b.mem.ram.half (r.used.toNat + 2) ≠ s.seen := by
    rw [hb.used, hs.usedIdx]
    intro h
    exact absurd (add_eq_left.1 h) (by decide)
  refine .bind (awaitUsed_seen waitLimit hne) ?_
  rintro _ _ ⟨rfl, rfl⟩
  refine Runs.mono (collect_runs s hs.device b fuel) ?_
  rintro _ _ ⟨rfl, rfl⟩
  exact ⟨hb.transferred, hb.lockstep hs⟩

end Call

inductive Drv.Step (r : Rings) (fuel : Nat) : Drv → Drv → Prop
  | call (hp : c.Fits s.blk.v.drive → c.Placed r) (hu : c.Unwrapped s.blk.v.drive)
      (h : r.virtioTransfer fuel c s = .ok ok s') : Drv.Step r fuel s s'
  | others (h : ∀ a, r.owns a → mem.ram a = s.blk.mem.ram a) :
      Drv.Step r fuel s { s with blk := { s.blk with mem } }

theorem Lockstep.others (hs : Lockstep r s) {mem : Memory}
    (h : ∀ a, r.owns a → mem.ram a = s.blk.mem.ram a) :
    Lockstep r { s with blk := { s.blk with mem } } := by
  refine ⟨hs.device, hs.queue, hs.sound, ?_, ?_, hs.lastAvail, hs.usedIdx⟩
  · rw [← hs.avail]
    apply half_congr
    intro k hk
    exact h _ (.inr (.inl ⟨by omega, by omega⟩))
  · rw [← hs.used]
    apply half_congr
    intro k hk
    exact h _ (.inr (.inr (.inl ⟨by omega, by omega⟩)))

theorem Lockstep.step (hf : 2 ≤ fuel) (hs : Lockstep r s) (h : Drv.Step r fuel s s') :
    Lockstep r s' := by
  cases h with
  | call hp hu h =>
    obtain ⟨_, _, he, -, hl⟩ := virtioTransfer_runs s hs hp hu hf
    rw [h] at he
    cases he
    exact hl
  | others h => exact hs.others h

theorem Lockstep.run (hf : 2 ≤ fuel) (hs : Lockstep r s)
    (h : Relation.ReflTransGen (Drv.Step r fuel) s s') : Lockstep r s' := by
  induction h with
  | refl => exact hs
  | tail _ hstep ih => exact ih.step hf hstep

theorem setUp_lockstep (s : Drv) (hs : s.blk.v.Sound)
    (ha : s.blk.mem.ram.half (r.avail.toNat + 2) = 0)
    (hu : s.blk.mem.ram.half (r.used.toNat + 2) = 0) :
    Lockstep r { s with
      blk := { s.blk with v := s.blk.v.setUp r }
      device := true
      seen := 0 } :=
  ⟨rfl, ⟨rfl, rfl, rfl, rfl, rfl, rfl, rfl, rfl, rfl⟩, ⟨hs.noError, hs.takes⟩, ha, hu, rfl, rfl⟩

def lowRings : Rings where
  descs := 0x80000000
  avail := 0x80000040
  used := 0x80000060
  header := 0x800000b0
  statusByte := 0x800000c0
  descs_placed := by decide
  avail_placed := by decide
  used_placed := by decide
  header_placed := by decide
  status_placed := by decide
  apart := by
    unfold Apart
    decide

def started : Drv where
  blk := ⟨⟨fun _ => 0, fun _ => 0, ⟨false, 0, 0⟩⟩,
    ⟨0, false, true, false, false, 0, 0, 0, 0, 0, 0, 0, 0, 0,
      ⟨fun _ => 0, 512, rfl, by decide⟩, none, 0, false⟩⟩
  device := false
  seen := 0
  failure := none

def wrapped : Transfer := ⟨0, 0x80001000, 0x800000, false⟩

def firstSector : Transfer := ⟨0, 0x80001000, 1, false⟩

end TinyProcessors
