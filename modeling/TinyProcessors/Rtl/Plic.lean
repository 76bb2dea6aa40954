import TinyProcessors.Emu.Plic

namespace TinyProcessors

structure RtlPlic where
  prio : Fin 32 → BitVec 3
  enable : Word
  claimed : Word
  pending : Word
  threshold : BitVec 3

def RtlPlic.reset : RtlPlic := ⟨fun _ => 0, 0, 0, 0, 0⟩

structure PlicBus where
  valid : Bool
  we : Bool
  addr : Word
  strb : BitVec 4
  wdata : Word

def PlicBus.offset (b : PlicBus) : BitVec 23 := b.addr.extractLsb' 0 23

def PlicBus.word (b : PlicBus) : Bool := b.strb == 0b1111

def PlicBus.atPriority (b : PlicBus) : Bool := b.offset.extractLsb' 7 16 == 0

def PlicBus.atPending (b : PlicBus) : Bool := b.offset == 0x1000

def PlicBus.atEnable (b : PlicBus) : Bool := b.offset == 0x2000

def PlicBus.atThreshold (b : PlicBus) : Bool := b.offset == 0x200000

def PlicBus.atClaim (b : PlicBus) : Bool := b.offset == 0x200004

def PlicBus.known (b : PlicBus) : Bool :=
  b.atPriority || (b.atPending && !b.we) || b.atEnable || b.atThreshold || b.atClaim

/-- `offset[6:2]`. -/
def PlicBus.index (b : PlicBus) : Fin 32 :=
  ⟨(b.offset.extractLsb' 2 5).toNat, (b.offset.extractLsb' 2 5).isLt⟩

def RtlPlic.best (p : RtlPlic) : Fin 32 :=
  let candidates := p.pending &&& p.enable
  (plicSources.foldl (fun (s : Fin 32 × BitVec 3) (id : Fin 32) =>
    if candidates.getLsbD id.val && s.2 < p.prio id then (id, p.prio id) else s)
    (0, p.threshold)).1

def RtlPlic.rdata (p : RtlPlic) (b : PlicBus) : Word :=
  if b.atPriority then (p.prio b.index).setWidth 32
  else if b.atPending then p.pending
  else if b.atEnable then p.enable
  else if b.atThreshold then p.threshold.setWidth 32
  else if b.atClaim then BitVec.ofNat 32 p.best
  else 0

def PlicBus.error (b : PlicBus) : Bool := !(b.known && b.word)

abbrev rtlWired : Word := 0x00001002

def RtlPlic.clock (p : RtlPlic) (b : PlicBus) (lines : Word) : RtlPlic :=
  let accept := b.valid && b.word && b.known
  let claims := accept && !b.we && b.atClaim && p.best ≠ 0
  let latched := p.pending ||| lines &&& rtlWired &&& ~~~p.claimed
  { prio :=
      if accept && b.we && b.atPriority && rtlWired.getLsbD b.index.val then
        Function.update p.prio b.index (b.wdata.extractLsb' 0 3)
      else p.prio
    enable := if accept && b.we && b.atEnable then b.wdata &&& rtlWired else p.enable
    threshold := if accept && b.we && b.atThreshold then b.wdata.extractLsb' 0 3 else p.threshold
    claimed :=
      if accept && b.we && b.atClaim && b.wdata.extractLsb' 5 27 = 0 &&
          p.enable.getLsbD (b.wdata.extractLsb' 0 5).toNat then
        p.claimed &&& ~~~((1 : Word) <<< (b.wdata.extractLsb' 0 5).toNat)
      else if claims then p.claimed ||| (1 : Word) <<< p.best.val
      else p.claimed
    pending := if claims then latched &&& ~~~((1 : Word) <<< p.best.val) else latched }

/-- The core's strobes and its store data for an access of `2 ^ width` bytes. -/
def coreStrb (width : Fin 3) (lane : BitVec 2) : BitVec 4 :=
  if width = 0 then (0b0001 : BitVec 4) <<< lane.toNat
  else if width = 1 then if lane.getLsbD 1 then 0b1100 else 0b0011
  else 0b1111

def coreWdata (width : Fin 3) (b : Word) : Word :=
  if width = 0 then
    b.extractLsb' 0 8 ++ b.extractLsb' 0 8 ++ b.extractLsb' 0 8 ++ b.extractLsb' 0 8
  else if width = 1 then b.extractLsb' 0 16 ++ b.extractLsb' 0 16
  else b

/-- An access on the bus. A load drives its data wires with whatever the core has there. -/
def PlicAccess.bus (driven : Word) : PlicAccess → PlicBus
  | .load offset width =>
    ⟨true, false, 0x0c000000 + offset.setWidth 32, coreStrb width (offset.setWidth 2), driven⟩
  | .store offset width value =>
    ⟨true, true, 0x0c000000 + offset.setWidth 32, coreStrb width (offset.setWidth 2),
      coreWdata width value⟩

def RtlPlic.reply (p : RtlPlic) (b : PlicBus) : PlicReply :=
  if b.error then .fault else if b.we then .stored else .value (p.rdata b)

def socLines (l : PlicLines) : Word :=
  (0 : BitVec 19) ++ BitVec.ofBool l.input ++ (0 : BitVec 10) ++ BitVec.ofBool l.virtio ++
    (0 : BitVec 1)

def RtlPlic.idle (p : RtlPlic) (c : PlicBus × PlicLines) : RtlPlic :=
  p.clock { c.1 with valid := false } (socLines c.2)

/-- An access and the time before it. -/
structure PlicRound where
  samples : List PlicLines
  clocks : List (PlicBus × PlicLines)
  access : PlicAccess
  driven : Word
  held : PlicLines

def Plic.replies (p : Plic) : List PlicRound → List PlicReply
  | [] => []
  | r :: rest =>
    let p := r.samples.foldl Plic.sample p
    (p.access r.access).1 :: (p.access r.access).2.replies rest

def RtlPlic.replies (p : RtlPlic) : List PlicRound → List PlicReply
  | [] => []
  | r :: rest =>
    let p := r.clocks.foldl RtlPlic.idle p
    p.reply (r.access.bus r.driven) ::
      (p.clock (r.access.bus r.driven) (socLines r.held)).replies rest

/-- The RTL sees the emulator's lines by the clock of each access. -/
def SameLines : List PlicRound → Prop
  | [] => True
  | r :: rest =>
    r.clocks ≠ [] ∧ (∀ l, l ∈ r.samples ↔ ∃ b, (b, l) ∈ r.clocks) ∧
    (∀ next ∈ rest.head?, r.held ∈ r.samples ∨ r.held ∈ next.samples) ∧ SameLines rest

theorem socLines_eq (l : PlicLines) : socLines l = plicLines l := by
  obtain ⟨input, virtio⟩ := l
  cases input <;> cases virtio <;> rfl

theorem toNat_setWidth_eight (x : BitVec 3) : (x.setWidth 8).toNat = x.toNat := by
  rw [BitVec.toNat_setWidth, Nat.mod_eq_of_lt (x.isLt.trans (by omega))]

structure PlicRegs (e : Plic) (r : RtlPlic) : Prop where
  priority : ∀ i, e.priority i = (r.prio i).setWidth 8
  enable : r.enable = e.enable
  claimed : r.claimed = e.claimed
  threshold : e.threshold = r.threshold.setWidth 8

/-- The RTL has the emulator's requests, and else only those not sampled yet. -/
structure PlicNear (e : Plic) (r : RtlPlic) (ahead : Nat → Prop) : Prop where
  regs : PlicRegs e r
  has : ∀ i, e.pending.getLsbD i = true → r.pending.getLsbD i = true
  only : ∀ i, r.pending.getLsbD i = true →
    e.pending.getLsbD i = true ∨ (ahead i ∧ e.claimed.getLsbD i = false)

theorem foldl_prio (candidates : Word) (prio : Fin 32 → BitVec 3) (l : List (Fin 32))
    (s : Fin 32 × BitVec 3) :
    (l.foldl (fun (s : Fin 32 × Nat) (id : Fin 32) =>
      if candidates.getLsbD id.val && s.2 < (prio id).toNat then (id, (prio id).toNat) else s)
      (s.1, s.2.toNat)).1 =
    (l.foldl (fun (s : Fin 32 × BitVec 3) (id : Fin 32) =>
      if candidates.getLsbD id.val && s.2 < prio id then (id, prio id) else s) s).1 := by
  induction l generalizing s with
  | nil => rfl
  | cons id l ih =>
    rw [List.foldl_cons, List.foldl_cons, ← ih]
    simp only [BitVec.lt_def]
    split_ifs <;> rfl

theorem PlicRegs.best_eq (h : PlicRegs e r) (hpending : r.pending = e.pending) :
    r.best = e.best := by
  unfold RtlPlic.best Plic.best
  simp only [e.candidates_eq, h.enable, hpending, h.priority, h.threshold, toNat_setWidth_eight]
  exact (foldl_prio _ _ _ (0, r.threshold)).symm

def latch (claimed pending : Word) (l : PlicLines) : Word :=
  pending ||| plicLines l &&& plicWired &&& ~~~claimed

def lineBit (l : PlicLines) (i : Nat) : Bool := (plicLines l &&& plicWired).getLsbD i

theorem latch_bit (claimed pending : Word) (l : PlicLines) (i : Nat) :
    (latch claimed pending l).getLsbD i = true ↔
      pending.getLsbD i = true ∨ (lineBit l i = true ∧ claimed.getLsbD i = false) := by
  unfold latch lineBit
  rw [BitVec.getLsbD_or, getLsbD_and_not, Bool.or_eq_true, Bool.and_eq_true, Bool.not_eq_true']

theorem latch_all (claimed pending : Word) (ls : List PlicLines) (i : Nat) :
    (ls.foldl (latch claimed) pending).getLsbD i = true ↔
      pending.getLsbD i = true ∨
        ((∃ l ∈ ls, lineBit l i = true) ∧ claimed.getLsbD i = false) := by
  induction ls generalizing pending with
  | nil => simp
  | cons l ls ih =>
    rw [List.foldl_cons, ih, latch_bit]
    simp only [List.mem_cons, exists_eq_or_imp]
    tauto

theorem Plic.samples_eq (p : Plic) (samples : List PlicLines) :
    samples.foldl Plic.sample p =
      { p with pending := samples.foldl (latch p.claimed) p.pending } := by
  induction samples generalizing p with
  | nil => rfl
  | cons l samples ih => exact ih (p.sample l)

theorem RtlPlic.idle_eq (p : RtlPlic) (c : PlicBus × PlicLines) :
    p.idle c = { p with pending := latch p.claimed p.pending c.2 } := by
  unfold RtlPlic.idle RtlPlic.clock latch
  simp [socLines_eq]

theorem RtlPlic.clocks_eq (p : RtlPlic) (clocks : List (PlicBus × PlicLines)) :
    clocks.foldl RtlPlic.idle p =
      { p with pending := (clocks.map Prod.snd).foldl (latch p.claimed) p.pending } := by
  induction clocks generalizing p with
  | nil => rfl
  | cons c clocks ih =>
    rw [List.foldl_cons, ih, p.idle_eq]
    rfl

theorem PlicNear.between (h : PlicNear e r ahead) (samples : List PlicLines)
    (clocks : List (PlicBus × PlicLines)) (hsame : ∀ l, l ∈ samples ↔ ∃ b, (b, l) ∈ clocks)
    (hahead : ∀ i, ahead i → ∃ l ∈ samples, lineBit l i = true) :
    PlicRegs (samples.foldl Plic.sample e) (clocks.foldl RtlPlic.idle r) ∧
      (clocks.foldl RtlPlic.idle r).pending = (samples.foldl Plic.sample e).pending := by
  rw [Plic.samples_eq, RtlPlic.clocks_eq]
  refine ⟨⟨h.regs.priority, h.regs.enable, h.regs.claimed, h.regs.threshold⟩, ?_⟩
  have hlines (i : Nat) : (∃ l ∈ clocks.map Prod.snd, lineBit l i = true) ↔
      ∃ l ∈ samples, lineBit l i = true := by
    simp only [hsame, List.mem_map, Prod.exists, exists_eq_right]
  apply BitVec.eq_of_getLsbD_eq
  intro i _
  rw [Bool.eq_iff_iff, latch_all, latch_all, hlines, h.regs.claimed]
  constructor
  · rintro (hr | hl)
    · rcases h.only i hr with he | ⟨ha, hc⟩
      · exact .inl he
      · exact .inr ⟨hahead i ha, hc⟩
    · exact .inr hl
  · rintro (he | hl)
    · exact .inl (h.has i he)
    · exact .inr hl

section Bus

theorem window_offset (offset : BitVec 23) :
    (0x0c000000 + offset.setWidth 32 : Word).extractLsb' 0 23 = offset := by
  apply BitVec.eq_of_toNat_eq
  have := offset.isLt
  rw [extractLsb'_toNat_div, BitVec.toNat_add, BitVec.toNat_setWidth]
  change (201326592 + offset.toNat % 2 ^ 32) % 2 ^ 32 / 2 ^ 0 % 2 ^ 23 = offset.toNat
  omega

theorem coreStrb_word (width : Fin 3) (lane : BitVec 2) :
    (coreStrb width lane == 0b1111) = decide (width = 2) := by
  revert width lane
  decide

theorem PlicAccess.bus_offset_load : (PlicAccess.bus driven (.load offset width)).offset = offset :=
  window_offset offset

theorem PlicBus.atPriority_iff (b : PlicBus) : b.atPriority = decide (b.offset.toNat < 4 * 32) := by
  unfold PlicBus.atPriority
  rw [Bool.eq_iff_iff, beq_iff_eq, decide_eq_true_eq, ← BitVec.toNat_inj, extractLsb'_toNat_div]
  have := b.offset.isLt
  change b.offset.toNat / 2 ^ 7 % 2 ^ 16 = 0 ↔ _
  omega

theorem PlicBus.index_val (b : PlicBus) (h : b.offset.toNat < 4 * 32) :
    b.index.val = b.offset.toNat / 4 := by
  unfold PlicBus.index
  dsimp only
  rw [extractLsb'_toNat_div]
  omega

end Bus

section Clock

variable (r : RtlPlic) (b : PlicBus) (l : PlicLines)

theorem RtlPlic.clock_refused (h : (b.valid && b.word && b.known) = false) :
    r.clock b (socLines l) = { r with pending := latch r.claimed r.pending l } := by
  unfold RtlPlic.clock latch
  simp [h, socLines_eq]

theorem RtlPlic.clock_read (hwe : b.we = false) (hclaim : b.atClaim = false) :
    r.clock b (socLines l) = { r with pending := latch r.claimed r.pending l } := by
  unfold RtlPlic.clock latch
  simp [hwe, hclaim, socLines_eq]

theorem RtlPlic.clock_claim (h : (b.valid && b.word && b.known) = true) (hwe : b.we = false)
    (hclaim : b.atClaim = true) :
    r.clock b (socLines l) = if r.best = 0 then { r with pending := latch r.claimed r.pending l }
      else { r with
        claimed := r.claimed ||| (1 : Word) <<< r.best.val
        pending := latch r.claimed r.pending l &&& ~~~((1 : Word) <<< r.best.val) } := by
  unfold RtlPlic.clock latch
  split_ifs with hbest
  · simp [hwe, hbest, socLines_eq]
  · simp [h, hwe, hclaim, hbest, socLines_eq]

theorem RtlPlic.clock_write (h : (b.valid && b.word && b.known) = true) (hwe : b.we = true) :
    r.clock b (socLines l) =
      { prio :=
          if b.atPriority && rtlWired.getLsbD b.index.val then
            Function.update r.prio b.index (b.wdata.extractLsb' 0 3)
          else r.prio
        enable := if b.atEnable then b.wdata &&& rtlWired else r.enable
        threshold := if b.atThreshold then b.wdata.extractLsb' 0 3 else r.threshold
        claimed :=
          if b.atClaim && b.wdata.extractLsb' 5 27 = 0 &&
              r.enable.getLsbD (b.wdata.extractLsb' 0 5).toNat then
            r.claimed &&& ~~~((1 : Word) <<< (b.wdata.extractLsb' 0 5).toNat)
          else r.claimed
        pending := latch r.claimed r.pending l } := by
  unfold RtlPlic.clock latch
  simp [h, hwe, socLines_eq]

end Clock

/-- The lines on the clock of an access are latched already, or are to be sampled. -/
def HeldAhead (e : Plic) (held : PlicLines) (ahead : Nat → Prop) : Prop :=
  ∀ i, lineBit held i = true → e.claimed.getLsbD i = false → e.pending.getLsbD i = true ∨ ahead i

theorem PlicRegs.near_same (h : PlicRegs e' r')
    (hclaimed : ∀ i, e.claimed.getLsbD i = false → e'.claimed.getLsbD i = false)
    (hpending : e'.pending = e.pending) (hr : r'.pending = latch e.claimed e.pending held)
    (hheld : HeldAhead e held ahead) : PlicNear e' r' ahead := by
  refine ⟨h, fun i hi => ?_, fun i hi => ?_⟩
  · rw [hr, latch_bit]
    rw [hpending] at hi
    exact .inl hi
  · rw [hr, latch_bit] at hi
    rw [hpending]
    rcases hi with hi | ⟨hl, hc⟩
    · exact .inl hi
    · exact (hheld i hl hc).imp id fun ha => ⟨ha, hclaimed i hc⟩

theorem plic_offsets (offset : BitVec 23) :
    (offset.toNat = 0x1000 ↔ offset = 0x1000) ∧ (offset.toNat = 0x2000 ↔ offset = 0x2000) ∧
    (offset.toNat = 0x200000 ↔ offset = 0x200000) ∧
    (offset.toNat = 0x200004 ↔ offset = 0x200004) := by
  have hiff (c : BitVec 23) : offset.toNat = c.toNat ↔ offset = c := BitVec.toNat_inj
  exact ⟨hiff 0x1000, hiff 0x2000, hiff 0x200000, hiff 0x200004⟩

theorem two_pow_width_ne (width : Fin 3) (hw : width ≠ 2) : 2 ^ width.val ≠ 4 :=
  fun h => hw (width_four width h)

section Accesses

variable {e : Plic} {r : RtlPlic} {held : PlicLines} {ahead : Nat → Prop} {offset : BitVec 23}
  {driven v : Word}

theorem PlicRegs.narrow (h : PlicRegs e r) (hp : r.pending = e.pending)
    (hheld : HeldAhead e held ahead) (a : PlicAccess) (hword : (a.bus driven).word = false)
    (ha : e.access a = (.fault, e)) :
    r.reply (a.bus driven) = (e.access a).1 ∧
      PlicNear (e.access a).2 (r.clock (a.bus driven) (socLines held)) ahead := by
  rw [ha]
  constructor
  · unfold RtlPlic.reply PlicBus.error
    rw [hword, Bool.and_false]
    rfl
  · rw [r.clock_refused _ _ (by rw [hword, Bool.and_false, Bool.false_and])]
    refine PlicRegs.near_same ⟨h.priority, h.enable, h.claimed, h.threshold⟩ (fun _ hc => hc) rfl ?_ hheld
    rw [h.claimed, hp]

theorem RtlPlic.reply_load (r : RtlPlic) (driven : Word) (offset : BitVec 23) :
    r.reply (PlicAccess.bus driven (.load offset 2)) =
      if h : offset.toNat < 4 * 32 then
        .value ((r.prio ⟨offset.toNat / 4, by omega⟩).setWidth 32)
      else if offset = 0x1000 then .value r.pending
      else if offset = 0x2000 then .value r.enable
      else if offset = 0x200000 then .value (r.threshold.setWidth 32)
      else if offset = 0x200004 then .value (BitVec.ofNat 32 r.best)
      else .fault := by
  have hoff : (PlicAccess.bus driven (.load offset 2)).offset = offset := window_offset offset
  have hword : (PlicAccess.bus driven (.load offset 2)).word = true :=
    coreStrb_word 2 (offset.setWidth 2)
  have hwe : (PlicAccess.bus driven (.load offset 2)).we = false := rfl
  have hindex := (PlicAccess.bus driven (.load offset 2)).index_val
  rw [hoff] at hindex
  unfold RtlPlic.reply PlicBus.error PlicBus.known RtlPlic.rdata PlicBus.atPending PlicBus.atEnable
    PlicBus.atThreshold PlicBus.atClaim
  simp only [PlicBus.atPriority_iff, hoff, hword, hwe, Bool.not_false, Bool.and_true]
  by_cases hpri : offset.toNat < 4 * 32
  · have hidx : (PlicAccess.bus driven (.load offset 2)).index = ⟨offset.toNat / 4, by omega⟩ :=
      Fin.ext (hindex hpri)
    simp [hpri, hidx]
  · simp only [hpri, decide_false, Bool.false_or, dite_false, Bool.false_eq_true, if_false]
    by_cases hpending : offset = 0x1000
    · simp [hpending]
    · by_cases henable : offset = 0x2000
      · simp [henable]
      · by_cases hthreshold : offset = 0x200000
        · simp [hthreshold]
        · by_cases hclaim : offset = 0x200004
          · simp [hclaim]
          · simp only [beq_eq_false_iff_ne.mpr hpending, beq_eq_false_iff_ne.mpr henable,
              beq_eq_false_iff_ne.mpr hthreshold, beq_eq_false_iff_ne.mpr hclaim, if_neg hpending,
              if_neg henable, if_neg hthreshold, if_neg hclaim]
            rfl

theorem Plic.reply_load (p : Plic) (offset : BitVec 23) :
    (p.access (.load offset 2)).1 =
      if h : offset.toNat < 4 * 32 then
        .value ((p.priority ⟨offset.toNat / 4, by omega⟩).setWidth 32)
      else if offset = 0x1000 then .value p.pending
      else if offset = 0x2000 then .value p.enable
      else if offset = 0x200000 then .value (p.threshold.setWidth 32)
      else if offset = 0x200004 then .value (BitVec.ofNat 32 p.best)
      else .fault := by
  obtain ⟨hpending, henable, hthreshold, hclaim⟩ := plic_offsets offset
  have hw : ¬2 ^ (2 : Fin 3).val ≠ 4 := by decide
  unfold Plic.access Plic.load
  simp only [hw, if_false, hpending, henable, hthreshold, hclaim]
  split_ifs <;> rfl

theorem Plic.step_load (p : Plic) (offset : BitVec 23) (hclaim : offset ≠ 0x200004) :
    (p.access (.load offset width)).2 = p := by
  cases hload : p.load offset.toNat (2 ^ width.val) with
  | none => rw [Plic.access_load_none hload]
  | some r =>
    rcases Plic.load_cases hload with heq | ⟨-, ho⟩
    · rw [Plic.access_load_some hload, heq]
    · exact absurd (BitVec.eq_of_toNat_eq ho) hclaim

theorem setWidth_three (x : BitVec 3) : (x.setWidth 8).setWidth 32 = x.setWidth 32 := by
  revert x
  decide

theorem PlicRegs.reply_load (h : PlicRegs e r) (hp : r.pending = e.pending) :
    r.reply (PlicAccess.bus driven (.load offset 2)) = (e.access (.load offset 2)).1 := by
  rw [r.reply_load, e.reply_load, hp, h.enable, h.best_eq hp, h.threshold]
  simp only [h.priority, setWidth_three]

theorem Plic.Gated.taken_zero {e : Plic} (hg : e.Gated) :
    (e.taken 0).claimed = e.claimed ∧ (e.taken 0).pending = e.pending := by
  constructor
  · apply BitVec.eq_of_getLsbD_eq
    intro i _
    rw [e.taken_claimed, show (0 : Fin 32).val = 0 from rfl, Bool.and_not_self, Bool.or_false]
  · apply BitVec.eq_of_getLsbD_eq
    intro i _
    rw [e.taken_pending]
    cases hi : e.pending.getLsbD i with
    | false => rfl
    | true =>
      have hwired := hg.wired i hi
      have hne : i ≠ (0 : Fin 32).val := by
        rintro rfl
        exact absurd hwired (by decide)
      rw [decide_eq_false hne]
      rfl

theorem PlicRegs.claim (h : PlicRegs e r) (hp : r.pending = e.pending) (hg : e.Gated)
    (hheld : HeldAhead e held ahead) :
    PlicNear (e.taken e.best) (r.clock (PlicAccess.bus driven .claim) (socLines held)) ahead := by
  have hbest := h.best_eq hp
  have hat : (PlicAccess.bus driven .claim).atClaim = true :=
    beq_iff_eq.mpr (window_offset 0x200004)
  have hword : (PlicAccess.bus driven .claim).word = true := coreStrb_word 2 0
  have haccept : ((PlicAccess.bus driven .claim).valid && (PlicAccess.bus driven .claim).word &&
      (PlicAccess.bus driven .claim).known) = true := by
    rw [hword, PlicBus.known, hat, Bool.or_true]
    rfl
  rw [r.clock_claim _ _ haccept rfl hat, hbest]
  by_cases hz : e.best = 0
  · rw [if_pos hz, hz]
    obtain ⟨hclaimed, hpending⟩ := hg.taken_zero
    refine PlicRegs.near_same ⟨h.priority, h.enable, ?_, h.threshold⟩
      (fun i hc => hclaimed ▸ hc) hpending ?_ hheld
    · rw [hclaimed]
      exact h.claimed
    · rw [h.claimed, hp]
  · rw [if_neg hz]
    have hone := getLsbD_one_shiftLeft e.best.val
    have hval : e.best.val ≠ 0 := fun hv => hz (Fin.ext hv)
    refine ⟨⟨h.priority, h.enable, ?_, h.threshold⟩, fun i hi => ?_, fun i hi => ?_⟩
    · apply BitVec.eq_of_getLsbD_eq
      intro i _
      rw [e.taken_claimed, BitVec.getLsbD_or, hone i e.best.isLt, h.claimed]
      by_cases hi : i = e.best.val
      · rw [decide_eq_true hi, decide_eq_false (by omega)]
        rfl
      · rw [decide_eq_false hi]
        rfl
    · rw [e.taken_pending, Bool.and_eq_true] at hi
      rw [getLsbD_and_not, hone i e.best.isLt, Bool.and_eq_true, latch_bit, hp]
      exact ⟨.inl hi.1, hi.2⟩
    · rw [getLsbD_and_not, hone i e.best.isLt, Bool.and_eq_true, latch_bit, hp, h.claimed] at hi
      rw [e.taken_pending, e.taken_claimed, hi.2, Bool.and_true]
      rw [Bool.not_eq_true'] at hi
      rw [hi.2, Bool.false_and, Bool.or_false]
      rcases hi.1 with hpend | ⟨hl, hc⟩
      · exact .inl hpend
      · exact (hheld i hl hc).imp id fun ha => ⟨ha, hc⟩

theorem PlicRegs.load (h : PlicRegs e r) (hp : r.pending = e.pending) (hg : e.Gated)
    (hheld : HeldAhead e held ahead) :
    PlicNear (e.access (.load offset 2)).2
        (r.clock (PlicAccess.bus driven (.load offset 2)) (socLines held)) ahead := by
  by_cases hclaim : offset = 0x200004
  · rw [hclaim]
    exact h.claim hp hg hheld
  · rw [e.step_load offset hclaim, r.clock_read _ _ rfl]
    · refine PlicRegs.near_same ⟨h.priority, h.enable, h.claimed, h.threshold⟩ (fun _ hc => hc) rfl ?_ hheld
      rw [h.claimed, hp]
    · unfold PlicBus.atClaim
      rw [PlicAccess.bus_offset_load, beq_eq_false_iff_ne]
      exact hclaim

theorem Plic.store_word (p : Plic) (offset : BitVec 23) (v : Word) :
    p.access (.store offset 2 v) =
      if h : offset.toNat < 4 * 32 then
        (.stored, if plicWired.getLsbD (offset.toNat / 4) then
          { p with priority :=
              Function.update p.priority ⟨offset.toNat / 4, by omega⟩ ((v &&& 7).setWidth 8) }
          else p)
      else if offset = 0x2000 then (.stored, { p with enable := v &&& plicWired })
      else if offset = 0x200000 then (.stored, { p with threshold := (v &&& 7).setWidth 8 })
      else if offset = 0x200004 then (.stored, if p.completes v then p.completed v else p)
      else (.fault, p) := by
  obtain ⟨-, henable, hthreshold, hclaim⟩ := plic_offsets offset
  have hw : ¬2 ^ (2 : Fin 3).val ≠ 4 := by decide
  unfold Plic.access Plic.store Plic.completes Plic.completed
  simp only [hw, if_false, henable, hthreshold, hclaim]
  split_ifs <;> rfl

theorem low_three (v : Word) : (v &&& 7).setWidth 8 = (v.extractLsb' 0 3).setWidth 8 := by
  apply BitVec.eq_of_toNat_eq
  rw [BitVec.toNat_setWidth, BitVec.toNat_setWidth, BitVec.toNat_and, extractLsb'_toNat_div,
    show (7 : Word).toNat = 2 ^ 3 - 1 from rfl, Nat.and_two_pow_sub_one_eq_mod]
  omega

theorem Plic.completes_eq (p : Plic) (v : Word) :
    p.completes v = (decide (v.extractLsb' 5 27 = 0) &&
      p.enable.getLsbD (v.extractLsb' 0 5).toNat) := by
  have hv := v.isLt
  have hhigh : v.extractLsb' 5 27 = 0 ↔ v.toNat < 32 := by
    rw [← BitVec.toNat_inj, extractLsb'_toNat_div]
    change v.toNat / 2 ^ 5 % 2 ^ 27 = 0 ↔ _
    omega
  unfold Plic.completes
  rw [decide_eq_decide.mpr hhigh, extractLsb'_toNat_div]
  by_cases hlt : v.toNat < 32
  · rw [show v.toNat / 2 ^ 0 % 2 ^ 5 = v.toNat by omega]
  · rw [decide_eq_false hlt]
    rfl

abbrev storeBus (driven : Word) (offset : BitVec 23) (v : Word) : PlicBus :=
  PlicAccess.bus driven (.store offset 2 v)

theorem RtlPlic.reply_store (r : RtlPlic) (driven : Word) (offset : BitVec 23) (v : Word) :
    r.reply (storeBus driven offset v) =
      if (storeBus driven offset v).known then .stored else .fault := by
  have hword : (storeBus driven offset v).word = true :=
    coreStrb_word 2 (offset.setWidth 2)
  unfold RtlPlic.reply PlicBus.error
  rw [hword, Bool.and_true]
  cases (storeBus driven offset v).known <;> rfl

theorem PlicAccess.store_known (driven : Word) (offset : BitVec 23) (v : Word) :
    (storeBus driven offset v).known = true ↔
      offset.toNat < 4 * 32 ∨ offset = 0x2000 ∨ offset = 0x200000 ∨ offset = 0x200004 := by
  have hoff : (storeBus driven offset v).offset = offset := window_offset offset
  have hwe : (storeBus driven offset v).we = true := rfl
  unfold PlicBus.known PlicBus.atPending PlicBus.atEnable PlicBus.atThreshold PlicBus.atClaim
  simp only [PlicBus.atPriority_iff, hoff, hwe, Bool.not_true, Bool.and_false, Bool.or_false,
    Bool.or_eq_true, decide_eq_true_eq, beq_iff_eq, or_assoc]

theorem PlicRegs.store_known (h : PlicRegs e r) (hp : r.pending = e.pending)
    (hheld : HeldAhead e held ahead)
    (hknown : offset.toNat < 4 * 32 ∨ offset = 0x2000 ∨ offset = 0x200000 ∨ offset = 0x200004) :
    (e.access (.store offset 2 v)).1 = .stored ∧
    PlicNear (e.access (.store offset 2 v)).2
        (r.clock (storeBus driven offset v) (socLines held)) ahead := by
  have haccept : ((storeBus driven offset v).valid && (storeBus driven offset v).word &&
      (storeBus driven offset v).known) = true := by
    rw [(PlicAccess.store_known driven offset v).mpr hknown,
      show (storeBus driven offset v).word = true from coreStrb_word 2 (offset.setWidth 2)]
    rfl
  have hoff : (storeBus driven offset v).offset = offset := window_offset offset
  have hdata : (storeBus driven offset v).wdata = v := rfl
  have hlatch : latch r.claimed r.pending held = latch e.claimed e.pending held := by
    rw [h.claimed, hp]
  rw [r.clock_write _ _ haccept rfl, e.store_word]
  unfold PlicBus.atEnable PlicBus.atThreshold PlicBus.atClaim
  simp only [PlicBus.atPriority_iff, hoff, hdata]
  rcases hknown with hpri | rfl | rfl | rfl
  · have hfar (c : BitVec 23) (hc : 4 * 32 ≤ c.toNat) : (offset == c) = false := by
      rw [beq_eq_false_iff_ne]
      rintro rfl
      omega
    have hindex : (storeBus driven offset v).index =
        ⟨offset.toNat / 4, by omega⟩ := by
      have hval := PlicBus.index_val (storeBus driven offset v)
      rw [hoff] at hval
      exact Fin.ext (hval hpri)
    rw [dif_pos hpri, hfar 0x2000 (by decide), hfar 0x200000 (by decide),
      hfar 0x200004 (by decide), hindex]
    refine ⟨rfl, ?_⟩
    by_cases hwired : plicWired.getLsbD (offset.toNat / 4) = true
    · have hboth : (decide (offset.toNat < 4 * 32) && rtlWired.getLsbD (offset.toNat / 4)) = true := by
        rw [decide_eq_true hpri]
        exact hwired
      rw [if_pos hwired, if_pos hboth]
      refine PlicRegs.near_same ⟨fun i => ?_, h.enable, h.claimed, h.threshold⟩ (fun _ hc => hc) rfl
        hlatch hheld
      by_cases hi : i = ⟨offset.toNat / 4, by omega⟩
      · rw [hi]
        simp only [Function.update_self]
        exact low_three v
      · simp only [Function.update_of_ne hi]
        exact h.priority i
    · have hboth : ¬(decide (offset.toNat < 4 * 32) && rtlWired.getLsbD (offset.toNat / 4)) = true := by
        rw [decide_eq_true hpri]
        exact hwired
      rw [if_neg hwired, if_neg hboth]
      exact PlicRegs.near_same ⟨h.priority, h.enable, h.claimed, h.threshold⟩ (fun _ hc => hc) rfl
        hlatch hheld
  · refine ⟨rfl, PlicRegs.near_same ⟨h.priority, rfl, h.claimed, h.threshold⟩
      (fun _ hc => hc) rfl hlatch hheld⟩
  · refine ⟨rfl, PlicRegs.near_same ⟨h.priority, h.enable, h.claimed, low_three v⟩
      (fun _ hc => hc) rfl hlatch hheld⟩
  · refine ⟨rfl, ?_⟩
    change PlicNear (if e.completes v then e.completed v else e)
      { r with
        claimed :=
          if decide (v.extractLsb' 5 27 = 0) && r.enable.getLsbD (v.extractLsb' 0 5).toNat then
            r.claimed &&& ~~~((1 : Word) <<< (v.extractLsb' 0 5).toNat)
          else r.claimed
        pending := latch r.claimed r.pending held } ahead
    rw [h.enable, ← e.completes_eq]
    by_cases hcompletes : e.completes v = true
    · have hlt := Plic.completes_lt hcompletes
      have hnumber : (v.extractLsb' 0 5).toNat = v.toNat := by
        rw [extractLsb'_toNat_div]
        omega
      rw [if_pos hcompletes, if_pos hcompletes, hnumber]
      refine PlicRegs.near_same (e := e) ⟨h.priority, rfl, ?_, h.threshold⟩ (fun i hc => ?_) rfl
        hlatch hheld
      · rw [h.claimed]
        rfl
      · rw [e.completed_claimed i v hlt, hc]
        rfl
    · rw [if_neg hcompletes, if_neg hcompletes]
      exact PlicRegs.near_same ⟨h.priority, rfl, h.claimed, h.threshold⟩ (fun _ hc => hc) rfl
        hlatch hheld

theorem PlicRegs.store (h : PlicRegs e r) (hp : r.pending = e.pending)
    (hheld : HeldAhead e held ahead) :
    r.reply (storeBus driven offset v) = (e.access (.store offset 2 v)).1 ∧
    PlicNear (e.access (.store offset 2 v)).2
        (r.clock (storeBus driven offset v) (socLines held)) ahead := by
  have hiff := PlicAccess.store_known driven offset v
  by_cases hknown : offset.toNat < 4 * 32 ∨ offset = 0x2000 ∨ offset = 0x200000 ∨ offset = 0x200004
  · have hboth : (e.access (.store offset 2 v)).1 = .stored ∧ PlicNear (e.access (.store offset 2 v)).2
        (r.clock (storeBus driven offset v) (socLines held)) ahead :=
      h.store_known hp hheld hknown
    rw [r.reply_store, if_pos (hiff.mpr hknown), hboth.1]
    exact ⟨rfl, hboth.2⟩
  · have hno := mt hiff.mp hknown
    have haccess : e.access (.store offset 2 v) = (.fault, e) := by
      rw [e.store_word]
      push Not at hknown
      obtain ⟨hpri, henable, hthreshold, hclaim⟩ := hknown
      rw [dif_neg (by omega), if_neg henable, if_neg hthreshold, if_neg hclaim]
    rw [r.reply_store, if_neg hno, haccess, r.clock_refused]
    · refine ⟨rfl, PlicRegs.near_same ⟨h.priority, h.enable, h.claimed, h.threshold⟩
        (fun _ hc => hc) rfl ?_ hheld⟩
      rw [h.claimed, hp]
    · rw [eq_false_of_ne_true hno, Bool.and_false]

theorem PlicRegs.access (h : PlicRegs e r) (hp : r.pending = e.pending) (hg : e.Gated)
    (hheld : HeldAhead e held ahead) (a : PlicAccess) (driven : Word) :
    r.reply (a.bus driven) = (e.access a).1 ∧
      PlicNear (e.access a).2 (r.clock (a.bus driven) (socLines held)) ahead := by
  cases a with
  | load offset width =>
    by_cases hw : width = 2
    · subst hw
      exact ⟨h.reply_load hp, h.load hp hg hheld⟩
    · have hstrb := coreStrb_word width (offset.setWidth 2)
      rw [decide_eq_false hw] at hstrb
      refine h.narrow hp hheld _ hstrb (Plic.access_load_none ?_)
      unfold Plic.load
      rw [if_pos (two_pow_width_ne width hw)]
  | store offset width v =>
    by_cases hw : width = 2
    · subst hw
      exact h.store hp hheld
    · have hstrb := coreStrb_word width (offset.setWidth 2)
      rw [decide_eq_false hw] at hstrb
      refine h.narrow hp hheld _ hstrb (Plic.access_store_none ?_)
      unfold Plic.store
      rw [if_pos (two_pow_width_ne width hw)]

end Accesses

/-- The lines on the clock of an access, if the emulator has them to sample still. -/
def PlicRound.ahead (round : PlicRound) (i : Nat) : Prop :=
  round.held ∉ round.samples ∧ lineBit round.held i = true

theorem PlicRound.heldAhead (round : PlicRound) (e : Plic) :
    HeldAhead (round.samples.foldl Plic.sample e) round.held round.ahead := by
  intro i hl hc
  by_cases hheld : round.held ∈ round.samples
  · rw [Plic.samples_eq] at hc ⊢
    exact .inl ((latch_all _ _ _ i).mpr (.inr ⟨⟨_, hheld, hl⟩, hc⟩))
  · exact .inr ⟨hheld, hl⟩

theorem Plic.Gated.samples {e : Plic} (h : e.Gated) (samples : List PlicLines) :
    (samples.foldl Plic.sample e).Gated := by
  induction samples generalizing e with
  | nil => exact h
  | cons l samples ih => exact ih (h.sample l)

theorem PlicNear.replies (h : PlicNear e r ahead) (hg : e.Gated) (hsame : SameLines rounds)
    (hahead : ∀ round ∈ rounds.head?, ∀ i, ahead i → ∃ l ∈ round.samples, lineBit l i = true) :
    r.replies rounds = e.replies rounds := by
  induction rounds generalizing e r ahead with
  | nil => rfl
  | cons round rest ih =>
    obtain ⟨-, hlines, hheld, hrest⟩ := hsame
    obtain ⟨hregs, hpending⟩ := h.between round.samples round.clocks hlines
      (hahead round (by simp))
    have hgated := hg.samples round.samples
    obtain ⟨hreply, hnear⟩ := hregs.access hpending hgated (round.heldAhead e) round.access
      round.driven
    unfold RtlPlic.replies Plic.replies
    dsimp only
    rw [hreply]
    congr 1
    apply ih hnear (hgated.step (.access round.access)) hrest
    intro next hnext i hi
    exact ⟨round.held, (hheld next hnext).resolve_left hi.1, hi.2⟩

theorem plicNear_reset : PlicNear Plic.reset RtlPlic.reset fun _ => False :=
  ⟨⟨fun _ => rfl, rfl, rfl, rfl⟩, fun _ hi => hi, fun _ hi => .inl hi⟩

/-- The PLIC over every sequence of samples and accesses. -/
theorem plic_correct (events : List PlicEvent) :
    (Plic.reset.run events).pending &&& (Plic.reset.run events).claimed = 0 ∧
    ((Plic.reset.run events).access .claim).1 =
      .value (BitVec.ofNat 32 (Plic.reset.run events).best) ∧
    (Plic.reset.run events).Choice (Plic.reset.run events).best ∧
    (∀ (s : Fin 32) (later : List PlicEvent), s ≠ 0 → (Plic.reset.run events).best = s →
      (Plic.reset.run (events ++ .access .claim :: later)).best = s →
      ∃ before after, later = before ++ .access (.complete (BitVec.ofNat 32 s)) :: after ∧
        (Plic.reset.run (events ++ .access .claim :: before)).enable.getLsbD s.val = true) ∧
    (∀ (s : Fin 32) (l : PlicLines) (later : List PlicEvent),
      (plicLines l &&& plicWired).getLsbD s.val = true →
      (Plic.reset.run events).claimed.getLsbD s.val = false →
      (∀ before after, later = before ++ .access .claim :: after →
        (Plic.reset.run (events ++ .sample l :: before)).best ≠ s) →
      (Plic.reset.run (events ++ .sample l :: later)).pending.getLsbD s.val = true) ∧
    (∀ rounds, SameLines rounds → RtlPlic.reset.replies rounds = Plic.reset.replies rounds) := by
  have hgated := Plic.reset_gated.run events
  have hsplit (e : PlicEvent) (later : List PlicEvent) :
      Plic.reset.run (events ++ e :: later) = ((Plic.reset.run events).step e).run later :=
    Plic.run_append _ _ _
  refine ⟨?_, rfl, Plic.best_choice _, ?_, ?_, ?_⟩
  · apply BitVec.eq_of_getLsbD_eq
    intro i _
    rw [BitVec.getLsbD_and]
    cases hi : (Plic.reset.run events).pending.getLsbD i with
    | false => simp
    | true => simpa using hgated.unclaimed i hi
  · rintro s later hs rfl hagain
    rw [hsplit] at hagain
    obtain ⟨before, after, heq, hcompletes⟩ := Plic.claimed_once hgated later hs hagain
    refine ⟨before, after, heq, ?_⟩
    rw [hsplit]
    unfold Plic.completes at hcompletes
    rw [Bool.and_eq_true, BitVec.toNat_ofNat, Nat.mod_eq_of_lt (by omega)] at hcompletes
    exact hcompletes.2
  · intro s l later hline hunclaimed hclaims
    rw [hsplit]
    apply Plic.latched _ l later s hline hunclaimed
    intro before after heq
    have hne := hclaims before after heq
    rwa [hsplit] at hne
  · intro rounds hsame
    exact plicNear_reset.replies Plic.reset_gated hsame fun _ _ _ hi => hi.elim

def PlicRound.one (l : PlicLines) (access : PlicAccess) : PlicRound :=
  ⟨[l], [(⟨false, false, 0, 0, 0⟩, l)], access, 0, l⟩

/-- Priority and enable of the input queue, and a claim while its line is high. -/
def inputRounds : List PlicRound :=
  [.one ⟨true, false⟩ (.store 0x30 2 3), .one ⟨true, false⟩ (.store 0x2000 2 0x1000),
    .one ⟨true, false⟩ .claim]

theorem plic_correct_input :
    RtlPlic.reset.replies inputRounds = Plic.reset.replies inputRounds ∧
      Plic.reset.replies inputRounds = [.stored, .stored, .value 12] := by
  refine ⟨(plic_correct []).2.2.2.2.2 inputRounds ?_, by decide +kernel⟩
  simp [inputRounds, SameLines, PlicRound.one]

end TinyProcessors
