import TinyProcessors.Emu.Run

namespace TinyProcessors.Emu

structure Cpu.Sound (c : Cpu) : Prop where
  zero : c.hart.x 0 = 0
  pc : c.hart.pc &&& 3 = 0
  mepc : c.hart.mepc &&& 3 = 0
  sepc : c.sepc &&& 3 = 0
  mtvec : c.mtvec &&& 3 = 0
  stvec : c.stvec &&& 3 = 0
  mstatus : Masked c.hart.mstatus mstatusWritable
  mie : Masked c.mie mieMask
  mideleg : Masked c.mideleg sInterrupts
  medeleg : Masked c.medeleg medelegMask
  satp : Masked c.hart.satp satpMask
  pmp : ∀ i, c.hart.pmpcfg i &&& 2 ≠ 0 → c.hart.pmpcfg i &&& 1 ≠ 0

section Registers

variable {c : Cpu}

theorem and_not_three (x : Word) : x &&& ~~~3 &&& 3 = 0 := by
  rw [BitVec.and_assoc]
  exact BitVec.and_zero

theorem aligned_add_four {x : Word} (h : x &&& 3 = 0) : (x + 4) &&& 3 = 0 := by
  have hlow (y : Word) : y &&& 3 = 0 ↔ y.toNat % 4 = 0 := by
    rw [← BitVec.toNat_inj, show (3 : Word) = BitVec.ofNat 32 (2 ^ 2 - 1) from rfl,
      toNat_and_low y 2 (by decide)]
    rfl
  rw [hlow] at h ⊢
  rw [BitVec.toNat_add]
  change (x.toNat + 4) % 2 ^ 32 % 4 = 0
  omega

theorem pmpcfgWritten_sound (old value : BitVec 8) (h : old &&& 2 ≠ 0 → old &&& 1 ≠ 0) :
    pmpcfgWritten old value &&& 2 ≠ 0 → pmpcfgWritten old value &&& 1 ≠ 0 := by
  unfold pmpcfgWritten
  dsimp only
  split
  next => exact h
  next =>
    split
    next =>
      intro hw
      rw [BitVec.and_assoc] at hw
      exact absurd BitVec.and_zero hw
    next hok =>
      intro hw hr
      exact hok ⟨hw, hr⟩

theorem Cpu.Sound.csrWrite (h : c.Sound) (r : Csr) (value : Word) : (c.csrWrite r value).Sound := by
  cases r with
  | mstatus => exact { h with mstatus := masked_and _ _ }
  | sstatus => exact { h with mstatus := (h.mstatus.and _).or (masked_and _ _) }
  | medeleg => exact { h with medeleg := masked_and _ _ }
  | mideleg => exact { h with mideleg := masked_and _ _ }
  | sie =>
    have hmie : Masked (value &&& c.mideleg) mieMask :=
      ((masked_and _ _).trans h.mideleg).trans (by decide)
    exact { h with mie := (h.mie.and _).or hmie }
  | stvec => exact { h with stvec := and_not_three _ }
  | sepc => exact { h with sepc := and_not_three _ }
  | satp => exact { h with satp := masked_and _ _ }
  | pmpcfg n =>
    refine { h with pmp := fun i => ?_ }
    change (if i.val / 4 = n then _ else _ : BitVec 8) &&& 2 ≠ 0 →
      (if i.val / 4 = n then _ else _ : BitVec 8) &&& 1 ≠ 0
    split
    next => exact pmpcfgWritten_sound _ _ (h.pmp i)
    next => exact h.pmp i
  | pmpaddr i =>
    change Cpu.Sound { c with hart := c.hart.writePmpaddr i value }
    unfold Hart.writePmpaddr
    split
    next => exact h
    next => exact { h with }
  | mie => exact { h with mie := masked_and _ _ }
  | mtvec => exact { h with mtvec := and_not_three _ }
  | mepc => exact { h with mepc := and_not_three _ }
  | _ => exact { h with }

theorem Cpu.Sound.enterHandler (h : c.Sound) (cause tval : Word) :
    (c.enterHandler cause tval).Sound := by
  unfold Cpu.enterHandler
  split
  next =>
    have hbits : Masked (c.hart.mstatus &&& ~~~(mstatusSie ||| mstatusSpie ||| mstatusSpp) |||
        (if c.hart.mstatus &&& mstatusSie ≠ 0 then mstatusSpie else 0) |||
        (if c.hart.priv = .supervisor then mstatusSpp else 0)) mstatusWritable :=
      ((h.mstatus.and _).or (.ite (by decide) (by decide))).or (.ite (by decide) (by decide))
    exact { h with pc := h.stvec, sepc := h.pc, mstatus := hbits }
  next =>
    have hbits : Masked (c.hart.mstatus &&& ~~~(mstatusMie ||| mstatusMpie) |||
        (if c.hart.mstatus &&& mstatusMie ≠ 0 then mstatusMpie else 0)) mstatusWritable :=
      (h.mstatus.and _).or (.ite (by decide) (by decide))
    exact { h with pc := h.mtvec, mepc := h.pc, mstatus := hbits }

theorem Cpu.Sound.mret (h : c.Sound) : Cpu.Sound { c with hart := c.hart.mret } := by
  have hbits : Masked (c.hart.mstatus &&& ~~~mstatusMie ||| mstatusMpie |||
      (if c.hart.mstatus &&& mstatusMpie ≠ 0 then mstatusMie else 0)) mstatusWritable :=
    ((h.mstatus.and _).or (by decide)).or (.ite (by decide) (by decide))
  exact { h with pc := h.mepc, mstatus := .ite hbits (hbits.and _) }

theorem Cpu.Sound.sret (h : c.Sound) : c.sret.Sound := by
  have hbits : Masked (c.hart.mstatus &&& ~~~(mstatusSie ||| mstatusSpp ||| mstatusMprv) |||
      mstatusSpie ||| (if c.hart.mstatus &&& mstatusSpie ≠ 0 then mstatusSie else 0))
      mstatusWritable :=
    ((h.mstatus.and _).or (by decide)).or (.ite (by decide) (by decide))
  exact { h with pc := h.sepc, mstatus := hbits }

end Registers

theorem Cpu.Sound.executed (h : m.cpu.Sound) (hx : Executed host fuel word m r m₁) :
    m₁.cpu.Sound ∧ r.next &&& 3 = 0 := by
  have hnext : (m.hart.pc + 4) &&& 3 = 0 := aligned_add_four h.pc
  cases hx with
  | computes fp r hr hstore hhold =>
    refine ⟨{ h with }, ?_⟩
    rcases hr with hr | hr
    · rwa [hr]
    · exact hr
  | loads fp rd dirty hl hstore hhold =>
    obtain ⟨-, -, region, io, -, -, rfl⟩ := hl
    exact ⟨{ h with }, hnext⟩
  | stores hs hstore hhold =>
    obtain ⟨-, pa, region, io, -, -, -, rfl⟩ := hs
    exact ⟨h, hnext⟩
  | reserves hl hhold =>
    obtain ⟨-, -, region, io, -, -, rfl⟩ := hl
    exact ⟨h, hnext⟩
  | conditional hc =>
    cases hc with
    | fails => exact ⟨h, hnext⟩
    | succeeds hholds hpa hword hs =>
      obtain ⟨-, pa, region, io, -, -, -, rfl⟩ := hs
      exact ⟨h, hnext⟩
  | swaps hs hstore hhold =>
    obtain ⟨-, pa, region, io, value, io', -, -, -, -, -, rfl⟩ := hs
    exact ⟨h, hnext⟩
  | csr =>
    refine ⟨?_, hnext⟩
    split
    next => exact h.csrWrite _ _
    next => exact h
  | mret => exact ⟨h.mret, h.mepc⟩
  | sret => exact ⟨h.sret, h.sepc⟩
  | sfence => exact ⟨h, hnext⟩

theorem Cpu.Sound.retire (h : m.cpu.Sound) (hnext : r.next &&& 3 = 0) :
    (Machine.retire m word r).cpu.Sound := by
  refine { h with zero := ?_, pc := hnext, mstatus := .ite (h.mstatus.or (by decide)) h.mstatus }
  unfold Machine.retire
  dsimp only
  cases r.rd with
  | none => exact h.zero
  | some value =>
    dsimp only
    split
    next hrd =>
      have hne : (0 : Fin 32) ≠ Fin.ofNat 32 (rdField word) := by
        have hlt : rdField word < 32 := field_lt word 7 5
        intro he
        have hval := congrArg Fin.val he
        change 0 = rdField word % 32 at hval
        omega
      rw [Function.update_of_ne hne]
      exact h.zero
    next => exact h.zero

theorem Cpu.Sound.handle (h : m.cpu.Sound) {count : Cpu → Cpu}
    (hcount : ∀ c : Cpu, c.Sound → (count c).Sound) (cause tval : Word) :
    (Machine.handle m count cause tval).cpu.Sound := by
  unfold Machine.handle
  dsimp only
  split
  next => exact { h with }
  next =>
    have hentered : Cpu.Sound { m.cpu with steps := m.cpu.steps + 1, inTrap := true } := { h with }
    exact (hcount _ hentered).enterHandler cause tval

theorem Cpu.Sound.trap (h : m.cpu.Sound) (cause tval : Word) :
    (Machine.trap m cause tval).cpu.Sound := by
  have hcount (c : Cpu) (hc : c.Sound) : Cpu.Sound { c with traps := c.traps + 1 } := { hc with }
  exact h.handle hcount cause tval

theorem Cpu.Sound.takeInterrupt (h : m.cpu.Sound) (code : Nat) :
    (Machine.takeInterrupt m code).cpu.Sound := by
  have hcount (c : Cpu) (hc : c.Sound) : Cpu.Sound { c with interrupts := c.interrupts + 1 } :=
    { hc with }
  exact h.handle hcount _ _

theorem Cpu.Sound.stepped (h : m.cpu.Sound) (hs : Stepped host fuel m r m') : m'.cpu.Sound := by
  have hsample : m.sample.cpu.Sound := h
  cases hs with
  | interrupts code => exact hsample.takeInterrupt code
  | misaligned | unfetched cause | refuses => exact hsample.trap _ _
  | traps hf hr =>
    have hcpu := hr.cpu
    exact Cpu.Sound.trap (hcpu ▸ hsample) _ _
  | retires hf hr he hx =>
    obtain ⟨h₁, hnext⟩ := hsample.executed hx
    exact h₁.retire hnext

section Counters

def Cpu.counted (c : Cpu) : BitVec 64 := c.retired + c.traps + c.interrupts

structure Cpu.Uncounted (c c' : Cpu) : Prop where
  steps : c'.steps = c.steps
  retired : c'.retired = c.retired
  traps : c'.traps = c.traps
  interrupts : c'.interrupts = c.interrupts

theorem csrWrite_uncounted (c : Cpu) (r : Csr) (value : Word) : c.Uncounted (c.csrWrite r value) := by
  cases r <;> exact ⟨rfl, rfl, rfl, rfl⟩

theorem enterHandler_uncounted (c : Cpu) (cause tval : Word) :
    c.Uncounted (c.enterHandler cause tval) := by
  unfold Cpu.enterHandler
  split
  · exact ⟨rfl, rfl, rfl, rfl⟩
  · exact ⟨rfl, rfl, rfl, rfl⟩

theorem Executed.uncounted (h : Executed host fuel word m r m₁) : m.cpu.Uncounted m₁.cpu := by
  cases h with
  | loads fp rd dirty hl hstore hhold =>
    obtain ⟨-, -, region, io, -, -, rfl⟩ := hl
    exact ⟨rfl, rfl, rfl, rfl⟩
  | stores hs hstore hhold =>
    obtain ⟨-, pa, region, io, -, -, -, rfl⟩ := hs
    exact ⟨rfl, rfl, rfl, rfl⟩
  | reserves hl hhold =>
    obtain ⟨-, -, region, io, -, -, rfl⟩ := hl
    exact ⟨rfl, rfl, rfl, rfl⟩
  | conditional hc =>
    cases hc with
    | fails => exact ⟨rfl, rfl, rfl, rfl⟩
    | succeeds hholds hpa hword hs =>
      obtain ⟨-, pa, region, io, -, -, -, rfl⟩ := hs
      exact ⟨rfl, rfl, rfl, rfl⟩
  | swaps hs hstore hhold =>
    obtain ⟨-, pa, region, io, value, io', -, -, -, -, -, rfl⟩ := hs
    exact ⟨rfl, rfl, rfl, rfl⟩
  | csr =>
    split
    · exact csrWrite_uncounted _ _ _
    · exact ⟨rfl, rfl, rfl, rfl⟩
  | _ => exact ⟨rfl, rfl, rfl, rfl⟩

theorem halt_kept (fuel : Nat) :
    Devices.Kept fuel fun d => d.halt = .running ∨ d.halt = .done where
  load _ _ _ _ h := h
  store d d' _ _ _ _ ht h := by
    cases ht with
    | done => exact .inr rfl
    | _ => exact h
  reservation _ _ h := h

def Machine.Counts (m : Machine) : Prop :=
  m.cpu.steps = m.cpu.counted + if m.io.halt = .doubleFault then 1 else 0

theorem counts_running {m : Machine} (hrun : m.io.halt = .running) :
    m.Counts ↔ m.cpu.steps = m.cpu.counted := by
  unfold Machine.Counts
  rw [hrun, if_neg (by rintro ⟨⟩)]
  exact Iff.of_eq (congrArg _ (BitVec.add_zero _))

theorem Cpu.Uncounted.counted (h : Cpu.Uncounted c c') : c'.counted = c.counted := by
  unfold Cpu.counted
  rw [h.retired, h.traps, h.interrupts]

theorem counts_retire (h : m.cpu.steps = m.cpu.counted) (hhalt : m.io.halt ≠ .doubleFault) :
    (Machine.retire m word r).Counts := by
  have hne : (Machine.retire m word r).io.halt ≠ .doubleFault := hhalt
  unfold Machine.Counts
  rw [if_neg hne]
  change m.cpu.steps + 1 = m.cpu.retired + 1 + m.cpu.traps + m.cpu.interrupts + 0
  rw [h]
  unfold Cpu.counted
  ac_rfl

theorem counts_handle {m : Machine} (h : m.cpu.steps = m.cpu.counted)
    (hhalt : m.io.halt ≠ .doubleFault) {count : Cpu → Cpu}
    (hcount : ∀ c : Cpu, (count c).steps = c.steps ∧ (count c).counted = c.counted + 1)
    (cause tval : Word) : (m.handle count cause tval).Counts := by
  unfold Machine.handle Machine.Counts
  dsimp only
  split
  next =>
    change m.cpu.steps + 1 = m.cpu.counted + 1
    rw [h]
  next =>
    have hu := enterHandler_uncounted
      (count { m.cpu with steps := m.cpu.steps + 1, inTrap := true }) cause tval
    obtain ⟨hs, hc⟩ := hcount { m.cpu with steps := m.cpu.steps + 1, inTrap := true }
    change (Cpu.enterHandler _ cause tval).steps = Cpu.counted (Cpu.enterHandler _ cause tval) +
      if m.io.halt = .doubleFault then 1 else 0
    rw [if_neg hhalt, hu.steps, hu.counted, hs, hc]
    change m.cpu.steps + 1 = m.cpu.counted + 1 + 0
    rw [h]
    exact (BitVec.add_zero _).symm

theorem counts_trap {m : Machine} (h : m.cpu.steps = m.cpu.counted)
    (hhalt : m.io.halt ≠ .doubleFault) (cause tval : Word) : (m.trap cause tval).Counts := by
  have hcount (c : Cpu) : Cpu.steps { c with traps := c.traps + 1 } = c.steps ∧
      Cpu.counted { c with traps := c.traps + 1 } = c.counted + 1 := by
    refine ⟨rfl, ?_⟩
    change c.retired + (c.traps + 1) + c.interrupts = c.retired + c.traps + c.interrupts + 1
    ac_rfl
  exact counts_handle h hhalt hcount cause tval

theorem counts_takeInterrupt {m : Machine} (h : m.cpu.steps = m.cpu.counted)
    (hhalt : m.io.halt ≠ .doubleFault) (code : Nat) : (m.takeInterrupt code).Counts := by
  have hcount (c : Cpu) : Cpu.steps { c with interrupts := c.interrupts + 1 } = c.steps ∧
      Cpu.counted { c with interrupts := c.interrupts + 1 } = c.counted + 1 := by
    refine ⟨rfl, ?_⟩
    change c.retired + c.traps + (c.interrupts + 1) = c.retired + c.traps + c.interrupts + 1
    ac_rfl
  exact counts_handle h hhalt hcount _ _

theorem Stepped.counts (hs : Stepped host fuel m r m') (hrun : m.io.halt = .running)
    (h : m.Counts) : m'.Counts := by
  have hsample : m.sample.cpu.steps = m.sample.cpu.counted := (counts_running hrun).mp h
  have hhalt : m.sample.io.halt = .running ∨ m.sample.io.halt = .done := .inl hrun
  have hne {d : Devices} (hd : d.halt = .running ∨ d.halt = .done) : d.halt ≠ .doubleFault := by
    rintro he
    rw [he] at hd
    rcases hd with hd | hd
    · cases hd
    · cases hd
  cases hs with
  | interrupts code => exact counts_takeInterrupt hsample (hne hhalt) code
  | misaligned | unfetched | refuses => exact counts_trap hsample (hne hhalt) _ _
  | traps hf hr =>
    have hcpu := hr.cpu
    exact counts_trap (hcpu ▸ hsample) (hne ((halt_kept fuel).refused hr hhalt)) _ _
  | retires hf hr he hx =>
    have hu := hx.uncounted
    refine counts_retire ?_ (hne ((halt_kept fuel).executed hx hhalt))
    rw [hu.steps, hu.counted, hsample]

end Counters

section Runs

variable {host : Host} {boot : Boot}

theorem Cpu.reset_sound : Cpu.reset.Sound where
  zero := by decide
  pc := by decide
  mepc := by decide
  sepc := by decide
  mtvec := by decide
  stvec := by decide
  mstatus := by decide
  mie := by decide
  mideleg := by decide
  medeleg := by decide
  satp := by decide
  pmp := by decide

theorem Machine.Counts.halted {m : Machine} {halt : Halt} (h : m.Counts)
    (hrun : m.io.halt = .running) (hhalt : halt ≠ .doubleFault) : (m.halted halt).Counts := by
  unfold Machine.Counts
  rw [if_neg (show (m.halted halt).io.halt ≠ .doubleFault from hhalt)]
  exact ((counts_running hrun).mp h).trans (BitVec.add_zero _).symm

theorem Run.sound (h : Run host (reset boot) past m) : m.cpu.Sound ∧ m.Counts := by
  induction h with
  | start => exact ⟨Cpu.reset_sound, rfl⟩
  | turn hpast hrun ht ih =>
    obtain ⟨hsound, hcounts⟩ := ih
    cases ht with
    | @step fuel r m' hlimit hs =>
      have hstep := step_cases host fuel hsound.mie
      rw [hs] at hstep
      exact ⟨hsound.stepped hstep, hstep.counts hrun hcounts⟩
    | key => exact ⟨hsound, hcounts⟩
    | limit | close => exact ⟨hsound, hcounts.halted hrun (by rintro ⟨⟩)⟩

structure Devices.Invariant (P : Devices → Prop) : Prop where
  kept : ∀ fuel, Devices.Kept fuel P
  tick : ∀ d, P d → P d.tickAccelerators
  halt : ∀ d halt, P d → P { d with halt }

theorem Devices.Invariant.handle {P : Devices → Prop} (hi : Devices.Invariant P) {m : Machine}
    (h : P m.io) (count : Cpu → Cpu) (cause tval : Word) : P (m.handle count cause tval).io := by
  have htick := hi.tick _ h
  unfold Machine.handle
  dsimp only
  split
  next => exact hi.halt _ _ htick
  next => exact (hi.kept 0).reservation _ _ htick

theorem Devices.Invariant.stepped {P : Devices → Prop} (hi : Devices.Invariant P)
    (hs : Stepped host fuel m r m') (h : P m.io) : P m'.io := by
  have hsample : P m.sample.io := (hi.kept 0).load _ m.io.console _ m.io.input h
  cases hs with
  | interrupts | misaligned | unfetched | refuses => exact hi.handle hsample _ _ _
  | traps hf hr => exact hi.handle ((hi.kept fuel).refused hr hsample) _ _ _
  | retires hf hr he hx => exact hi.tick _ ((hi.kept fuel).executed hx hsample)

theorem Run.stepped (h : Run host (reset boot) past m) (hs : step host fuel m = .ok (r, m')) :
    Stepped host fuel m r m' := by
  have hstep := step_cases host fuel h.sound.1.mie
  rwa [hs] at hstep

theorem Devices.Invariant.run {P : Devices → Prop} (hi : Devices.Invariant P)
    (h : Run host (reset boot) past m) (hreset : P boot.devices) : P m.io := by
  induction h with
  | start => exact hreset
  | @turn past m act m' hpast hrun ht ih =>
    cases ht with
    | step hlimit hs => exact hi.stepped (hpast.stepped hs) ih
    | key => exact (hi.kept 0).load _ m.io.console m.io.plic _ ih
    | limit | close => exact hi.halt _ _ ih

/-- Every state of a run from reset is sound, and so is the step from it. -/
theorem reachable_state_sound (h : Run host (reset boot) past m) :
    m.cpu.Sound ∧
    (m.hart.priv.bits ∈ [0, 1, 3] ∧ m.hart.mpp.bits ∈ [0, 1, 3]) ∧
    m.cpu.steps = m.cpu.retired + m.cpu.traps + m.cpu.interrupts +
      (if m.io.halt = .doubleFault then 1 else 0) ∧
    (∀ fuel, step host fuel m ≠ .error .abort ∧ step host fuel m ≠ .error .notReached) ∧
    ∀ fuel pc code m', step host fuel m = .ok (.interrupted pc code, m') →
      m.cpu.inTrap = false := by
  obtain ⟨hsound, hcounts⟩ := h.sound
  have hstep := fun fuel => step_cases host fuel hsound.mie
  have hbits (p : Priv) : p.bits ∈ [0, 1, 3] := by cases p <;> decide
  refine ⟨hsound, ⟨hbits _, hbits _⟩, hcounts, fun fuel => ⟨fun he => ?_, fun he => ?_⟩, ?_⟩
  · have hcases := hstep fuel
    rw [he] at hcases
    cases hcases
  · have hcases := hstep fuel
    rw [he] at hcases
    cases hcases
  · intro fuel pc code m' he
    have hcases := hstep fuel
    rw [he] at hcases
    cases hcases with
    | interrupts code hin => exact hin

/-- A run's first step, over an image that is one NOP. -/
theorem reachable_state_sound_nop : ∃ r m,
    Run ⟨fun _ _ _ _ _ => (0, 0), fun _ => 0, fun _ => .nothing, 100⟩
      (reset (.bare fun a => if a = 0x80000000 then 0x13 else 0))
      [(reset (.bare fun a => if a = 0x80000000 then 0x13 else 0), .step 0 r)] m ∧
    r = .retired 0x80000000 0x13 ∧ m.cpu.Sound ∧ m.cpu.steps = 1 := by
  have hrun : Run ⟨fun _ _ _ _ _ => (0, 0), fun _ => 0, fun _ => .nothing, 100⟩
      (reset (.bare fun a => if a = 0x80000000 then 0x13 else 0))
      [(reset (.bare fun a => if a = 0x80000000 then 0x13 else 0), .step 0 _)] _ :=
    .turn .start rfl (.step (by decide) (show step _ 0 _ = .ok (_, _) from rfl))
  exact ⟨_, _, hrun, rfl, (reachable_state_sound hrun).1, rfl⟩

end Runs

end TinyProcessors.Emu
