import TinyProcessors.Emu.Executed

namespace TinyProcessors.Emu

/-- What a run is started with. -/
structure Boot where
  ram : Bytes
  drive : Drive
  file : Option (Nat → Bool)
  received : List UInt8
  interactive : Bool
  prompt : List UInt8
  script : List (Word × Word)

/-- `emu_init` and `emu_alloc`, for the hart: its first address is the first of RAM. -/
def Cpu.reset : Cpu where
  hart :=
    { x := Function.update (Function.update (fun _ => 0) 10 0) 11 0x1000
      pc := 0x80000000
      fp := .zero
      mstatus := mstatusFs
      mpp := .machine
      priv := .machine
      mepc := 0
      satp := 0
      pmpcfg := fun _ => 0
      pmpaddr := fun _ => 0 }
  mtvec := 0
  mcause := 0
  mtval := 0
  mie := 0
  mscratch := 0
  medeleg := 0
  mideleg := 0
  mipSoft := 0
  stvec := 0
  sscratch := 0
  sepc := 0
  scause := 0
  stval := 0
  scounteren := 0
  mcounteren := 0
  steps := 0
  retired := 0
  traps := 0
  interrupts := 0
  inTrap := false
  secondCause := 0
  secondTval := 0

/-- `virtio_blk` as `emu_alloc` and `emu_open_disk` leave it. -/
def Boot.virtio (b : Boot) : VirtioBlk where
  status := 0
  featuresSel := false
  queueSelZero := true
  queueReady := false
  interrupt := false
  queueNum := 0
  descLo := 0
  descHi := 0
  driverLo := 0
  driverHi := 0
  deviceLo := 0
  deviceHi := 0
  lastAvail := 0
  usedIdx := 0
  drive := b.drive
  file := b.file
  fileWrites := 0
  writeError := false

def Boot.console (b : Boot) : Console where
  ier := 0
  lcr := 0
  mcr := 0
  scr := 0
  dll := 0
  dlm := 0
  latched := 0
  received := b.received
  interactive := b.interactive
  polls := 0
  prompt := b.prompt
  tail := []
  promptsSeen := 0
  linesTaken := 0
  sent := []

def Boot.input (b : Boot) : Input :=
  { queue := fun _ => 0, head := 0, count := 0, keys := 0, script := b.script, dropped := 0
    : Input }.deliverEvents 0

def emptyJob : G3d.Job where
  vcount := 0
  tcount := 0
  zbase := 0
  limit := 0
  consts := fun _ => 0
  program := fun _ => 0
  inputs := fun _ _ => 0
  tris := fun _ => 0

/-- `memset` and `g3d_device_reset`. -/
def g3dPowerOn : G3d.Device where
  job := emptyJob
  status := .idle
  error := .none
  faultPc := 0
  cycles := 0
  stalls := 0
  counts := .zero
  phase := .idle
  clearing := false
  commandTick := false
  index := 0
  batch := 0
  lane := 0
  shader := .start 0
  verts := fun _ => ⟨0, 0, 0, 0, 0, 0, false⟩
  div := ⟨0, 0, false, fun _ => 0, 0, fun _ => 0⟩
  tri := ⟨⟨0, 0, 0, 0, 0, 0, false⟩, ⟨0, 0, 0, 0, 0, 0, false⟩, ⟨0, 0, 0, 0, 0, 0, false⟩, 0, 0, 0,
    0, 0⟩
  pixel := ⟨0, 0, 0, 0, 0, 0⟩

/-- `emu_init` and `emu_alloc`, for what is on the bus. -/
def Boot.devices (b : Boot) : Devices where
  mem := ⟨b.ram, fun _ => 0, ⟨false, 0, 0⟩⟩
  plic := .reset
  virtio := b.virtio
  clint := ⟨0, BitVec.allOnes 64, 0⟩
  console := b.console
  input := b.input
  frames := 0
  palette := rgb332Word
  simd := ⟨fun _ => 0, fun _ => 0, .reset⟩
  gpu := .reset
  g3d := g3dPowerOn
  window := ⟨0x80000000, 0x81000000⟩
  halt := .running
  doneWord := 0

def reset (b : Boot) : Machine := ⟨.reset, b.devices⟩

/-- A run of an image, with the disk that there is without a file and nothing to read. -/
def Boot.bare (ram : Bytes) : Boot where
  ram := ram
  drive := ⟨fun _ => 0, 0x20000, by decide, by decide⟩
  file := none
  received := []
  interactive := false
  prompt := []
  script := []

/-- A turn of a run: a step, a key of the window's, or an end. -/
inductive Act
  | step (fuel : Nat) (record : Record)
  | key (event : Word)
  | limit
  | close

/-- `emu_queue_event`. -/
def Machine.queueEvent (m : Machine) (event : Word) : Machine :=
  { m with io := { m.io with input := m.io.input.queueEvent event } }

def Machine.halted (m : Machine) (halt : Halt) : Machine := { m with io := { m.io with halt } }

/-- A turn of `emu_run_until`, or of the loop of the window's program around it. -/
inductive Turn (host : Host) (m : Machine) : Act → Machine → Prop
  | step (hlimit : m.cpu.steps < host.limit) (h : Emu.step host fuel m = .ok (r, m')) :
    Turn host m (.step fuel r) m'
  | key (event : Word) : Turn host m (.key event) (m.queueEvent event)
  | limit (h : host.limit ≤ m.cpu.steps) : Turn host m .limit (m.halted .limit)
  | close : Turn host m .close (m.halted .stopped)

/-- The states of a run from `m₀`; `past` has its turns, the last one first. -/
inductive Run (host : Host) (m₀ : Machine) : List (Machine × Act) → Machine → Prop
  | start : Run host m₀ [] m₀
  | turn (h : Run host m₀ past m) (hrun : m.io.halt = .running) (ht : Turn host m act m') :
    Run host m₀ ((m, act) :: past) m'

inductive Stepped (host : Host) (fuel : Nat) (m : Machine) : Record → Machine → Prop
  | interrupts (code : Nat) (h : m.cpu.inTrap = false) :
    Stepped host fuel m (.interrupted m.hart.pc code) (m.sample.takeInterrupt code)
  | misaligned (h : m.hart.pc &&& 3 ≠ 0) :
    Stepped host fuel m (.trapped m.hart.pc 0 causeFetchMisaligned m.hart.pc)
      (m.sample.trap causeFetchMisaligned m.hart.pc)
  | unfetched (cause : Word) :
    Stepped host fuel m (.trapped m.hart.pc 0 cause m.hart.pc) (m.sample.trap cause m.hart.pc)
  | refuses (hf : m.Fetches word) (h : m.refuses word = true) :
    Stepped host fuel m (.trapped m.hart.pc word causeIllegal word)
      (m.sample.trap causeIllegal word)
  | traps (hf : m.Fetches word) (h : Refused host fuel m.sample (.trap cause tval) m₁) :
    Stepped host fuel m (.trapped m.hart.pc word cause tval) (m₁.trap cause tval)
  | retires (hf : m.Fetches word) (hr : m.refuses word = false)
    (he : execute host fuel word m.sample = .ok r m₁)
    (h : Executed host fuel word m.sample r m₁) :
    Stepped host fuel m (.retired m.hart.pc word) (m₁.retire word r)

section Stepping

variable {host : Host} {fuel : Nat}

theorem fetch_ensures (m : Machine) : Ensures fetch m (fun _ m' => m' = m)
    fun e m' => m' = m ∧ ∃ cause, e = .trap cause m.hart.pc := by
  unfold fetch
  change Ensures (trapping _ m.hart.pc (translated m.hart.pc .fetch m.hart.priv) >>= _) m _ _
  refine .bind ?_
  unfold Ensures trapping
  rw [translated_eq]
  cases m.translate m.hart.pc .fetch m.hart.priv with
  | error e => exact ⟨rfl, _, rfl⟩
  | ok address =>
    change Ensures (if _ then throw _ else pure _ : Exec Word) m _ _
    split
    next => exact ⟨rfl, _, rfl⟩
    next => rfl

/-- No bit of `mie` is another's. -/
theorem interruptOrder_find {m : Machine} (h : Masked m.cpu.mie mieMask) (hne : m.enabled ≠ 0) :
    ∃ code, interruptOrder.find? (m.enabled.getLsbD ·) = some code := by
  have hmie : Masked m.enabled m.cpu.mie := by
    have hpending : Masked (if m.cpu.inTrap then 0 else m.mipNow &&& m.cpu.mie) m.cpu.mie :=
      .ite (masked_zero _) (masked_and _ _)
    have hgated {b : Bool} (mask : Word) : Masked (if b then
        (if m.cpu.inTrap then 0 else m.mipNow &&& m.cpu.mie) &&& mask else 0) m.cpu.mie :=
      .ite (hpending.and mask) (masked_zero _)
    exact .ite (hgated _) (hgated _)
  have hlisted : ∀ i, mieMask.getLsbD i = true → i ∈ interruptOrder := by
    intro i hi
    have hlt : i < 32 := BitVec.lt_of_getLsbD hi
    have hall : ∀ i : Fin 32, mieMask.getLsbD i = true → i.val ∈ interruptOrder := by decide
    exact hall ⟨i, hlt⟩ hi
  have hbit : ∃ i, m.enabled.getLsbD i = true := by
    by_contra hnone
    apply hne
    apply BitVec.eq_of_getLsbD_eq
    intro i _
    exact (eq_false_of_ne_true fun hi => hnone ⟨i, hi⟩).trans BitVec.getLsbD_zero.symm
  obtain ⟨i, hi⟩ := hbit
  rw [← Option.isSome_iff_exists, List.find?_isSome]
  exact ⟨i, hlisted i (masked_iff.mp (hmie.trans h) i hi), hi⟩

theorem enabled_inTrap {m : Machine} (h : m.enabled ≠ 0) : m.cpu.inTrap = false := by
  by_contra hin
  rw [Bool.not_eq_false] at hin
  apply h
  unfold Machine.enabled
  rw [hin]
  simp

theorem step_cases (host : Host) (fuel : Nat) {m : Machine} (hmie : Masked m.cpu.mie mieMask) :
    match step host fuel m with
    | .ok (r, m') => Stepped host fuel m r m'
    | .error e => e = .spins := by
  unfold step sampled
  by_cases hen : m.sample.enabled = 0
  · rw [if_neg (not_not.mpr hen)]
    by_cases hpc : m.sample.hart.pc &&& 3 = 0
    · rw [if_neg (not_not.mpr hpc)]
      have hfetch := fetch_ensures m.sample
      unfold instruction
      unfold Ensures at hfetch
      cases hf : fetch m.sample with
      | error e m' =>
        rw [hf] at hfetch
        obtain ⟨rfl, cause, rfl⟩ := hfetch
        exact Stepped.unfetched cause
      | ok word m' =>
        rw [hf] at hfetch
        subst hfetch
        have hfetches : m.Fetches word := ⟨hen, hpc, hf⟩
        dsimp only
        by_cases hr : m.refuses word = true
        · have hr' : m.sample.refuses word = true := hr
          rw [execute_refuses hr']
          exact Stepped.refuses hfetches hr
        · have hr' : m.refuses word = false := eq_false_of_ne_true hr
          have hx : Executes host fuel word m.sample (execute host fuel word) := execute_ensures hr'
          unfold Executes Ensures at hx
          cases he : execute host fuel word m.sample with
          | ok r m₁ =>
            rw [he] at hx
            exact Stepped.retires hfetches hr' he hx
          | error e m₁ =>
            rw [he] at hx
            cases e with
            | trap cause tval => exact Stepped.traps hfetches hx
            | spins => rfl
            | denied => cases hx
            | abort => cases hx
            | notReached => cases hx
    · rw [if_pos hpc]
      exact Stepped.misaligned hpc
  · rw [if_pos hen]
    obtain ⟨code, hcode⟩ := @interruptOrder_find m.sample hmie hen
    rw [hcode]
    exact Stepped.interrupts code (enabled_inTrap (m := m.sample) hen)

end Stepping

end TinyProcessors.Emu
