import TinyProcessors.Lib.Bits
import TinyProcessors.Simd.Device

namespace TinyProcessors.Simd

namespace Simd4

-- The registers of `simd4.v` have the names of `simd_execution`: `lane` is `memory_lane`, `loop` is
-- `loop_count`, and there is no `commandTick`.

def accumulatorRead (value : Word) (shift : BitVec 5) : BitVec 16 :=
  BitVec.ofFnLE fun position =>
    let source := shift.toNat + position
    if 31 < source then value.getLsbD 31 else value.getLsbD source

/-- An operand of a lane's multiplier, with its 17th bit. -/
def factor (signExtend : Bool) (x : BitVec 16) : BitVec 17 :=
  BitVec.ofBool (signExtend && x.msb) ++ x

def product (op : Op) (a b : BitVec 16) : Word :=
  let signExtend : Bool := op = .mac
  (factor signExtend a).signExtend 32 * (factor signExtend b).signExtend 32

/-- What the EXECUTE state makes of a lane. -/
def laneNext (op : Op) (word : Word) (lane : Lane) (r : Regs) (acc : Word) : Regs × Word :=
  let product := product op (r (ra word)) (r (rb word))
  let set (v : BitVec 16) : Regs × Word := (Function.update r (rd word) v, acc)
  match op with
  | .ldi => set (imm word)
  | .lane => set (BitVec.ofNat 16 lane)
  | .add => set (r (ra word) + r (rb word))
  | .addi => set (r (ra word) + imm word)
  | .mul => set (product.extractLsb' 0 16)
  | .mac | .macu => (r, acc + product)
  | .clra => (r, 0)
  | .rda => set (accumulatorRead acc ((imm word).extractLsb' 0 5))
  | _ => (r, acc)

/-- The EXECUTE state for an opcode up to `LAST_OPCODE`. -/
def control (e : Execution) (op : Op) : Execution :=
  if op = .load ∨ op = .store then { e with lane := 0, state := .memory }
  else if (op = .setloop ∧ imm e.instruction = 0) ∨ (op = .loop ∧ e.loop = 0) then
    { e with state := .idle, done := true, fault := true }
  else
    let e := { e with instructions := e.instructions + 1, state := .fetch }
    match op with
    | .hlt => { e with state := .idle, done := true }
    | .setloop => { e with loop := imm e.instruction }
    | .loop =>
      { e with
        loop := e.loop - 1
        pc := if 1 < e.loop then (imm e.instruction).extractLsb' 0 8 else e.pc }
    | _ => e

def execute (e : Execution) : Execution :=
  match opcode e.instruction with
  | none => { e with state := .idle, done := true, fault := true }
  | some op =>
    let next (lane : Lane) := laneNext op e.instruction lane (e.r lane) (e.acc lane)
    control { e with r := fun lane => (next lane).1, acc := fun lane => (next lane).2 } op

/-- The MEMORY state, when the memory is ready. -/
def transfer (t : Device) : Device :=
  let e := t.execution
  let base := e.r e.lane (ra e.instruction)
  let address := base.extractLsb' 0 8 + (imm e.instruction).extractLsb' 0 8
  let row := Function.update (e.r e.lane) (rd e.instruction) (t.data address)
  let next : Execution := { e with
    transfers := e.transfers + 1
    r := if opcode e.instruction = some .load then Function.update e.r e.lane row else e.r }
  { t with
    data := if opcode e.instruction = some .store then
      Function.update t.data address (e.r e.lane (rd e.instruction)) else t.data
    execution :=
      if e.lane = 3 then { next with instructions := e.instructions + 1, state := .fetch }
      else { next with lane := e.lane + 1 } }

/-- A clock edge of `rv32_simd4`; `command` is what the bus writes to its COMMAND register. -/
def clock (t : Device) (command : Option Word) (memoryHold : Bool) : Device :=
  let e := t.execution
  let busy := e.state ≠ .idle
  if command = some 2 ∨ (command = some 1 ∧ ¬busy) then
    let reset := command = some 2
    let entry := if reset then 0 else e.entry
    { t with execution := { Execution.reset with
        entry
        pc := entry
        state := if reset then .idle else .fetch
        commandTick := false } }
  else
    let e := { e with cycles := if busy then e.cycles + 1 else e.cycles }
    match e.state with
    | .idle => t
    | .fetch =>
      { t with execution :=
          { e with instruction := t.program e.pc, pc := e.pc + 1, state := .execute } }
    | .execute => { t with execution := execute e }
    | .memory =>
      if memoryHold then { t with execution := { e with stalls := e.stalls + 1 } }
      else transfer { t with execution := e }

end Simd4

/-- The same edge on the emulator's device: the store, if it is taken, and then the tick. -/
def Device.edge (s : Device) (command : Option Word) (hold : Bool) : Device :=
  ((command.bind (s.store simdBase 4)).getD s).tick hold

/-- The emulator's view of the registers: it clears `lane` where the RTL leaves the last one. -/
def Device.settled (t : Device) : Device :=
  { t with execution := { t.execution with
      lane := if t.execution.state = .memory then t.execution.lane else 0 } }

section Lanes

theorem extract_eq (x : BitVec w) (v : Nat) : x.extractLsb' 0 v = x.setWidth v := by
  apply BitVec.eq_of_toNat_eq
  rw [extractLsb'_toNat_div, BitVec.toNat_setWidth, pow_zero, Nat.div_one]

theorem factor_toInt (s : Bool) (x : BitVec 16) :
    (Simd4.factor s x).toInt = if s then x.toInt else x.toNat := by
  have hx := BitVec.toInt_eq_msb_cond x
  unfold Simd4.factor
  rw [BitVec.toInt_append, if_neg (by decide), hx]
  cases s <;> cases x.msb <;> simp
  omega

theorem product_eq (op : Op) (a b : BitVec 16) : Simd4.product op a b =
    if op = .mac then BitVec.ofInt 32 (a.toInt * b.toInt)
    else a.setWidth 32 * b.setWidth 32 := by
  unfold Simd4.product BitVec.signExtend
  dsimp only
  rw [factor_toInt, factor_toInt]
  by_cases h : op = .mac
  · simp only [h, decide_true, if_true, BitVec.ofInt_mul]
  · simp only [h, decide_false, Bool.false_eq_true, if_false, BitVec.ofInt_natCast,
      BitVec.ofNat_toNat]

theorem readBack_eq (acc : Word) (shift : BitVec 5) :
    readBack acc shift.toNat = Simd4.accumulatorRead acc shift := by
  have hsign : acc &&& 0x80000000 ≠ 0 ↔ acc.getLsbD 31 = true := by
    have hbit := and_two_pow_eq_zero acc 31 (by decide)
    rw [BitVec.getLsbD, Nat.testBit_eq_decide_div_mod_eq, decide_eq_true_eq]
    exact (not_congr hbit).trans (by omega)
  have hones : (0xffffffff : Word) = BitVec.allOnes 32 := rfl
  have hlt := shift.isLt
  apply BitVec.eq_of_getLsbD_eq
  intro i hi
  unfold readBack Simd4.accumulatorRead
  rw [BitVec.getLsbD_ofFnLE, dif_pos hi]
  dsimp only
  rw [BitVec.getLsbD_setWidth, decide_eq_true hi, Bool.true_and]
  split
  next hc =>
    rw [BitVec.getLsbD_or, BitVec.getLsbD_ushiftRight, hones, BitVec.getLsbD_shiftLeft,
      BitVec.getLsbD_allOnes]
    split
    next hout =>
      rw [hsign.1 hc.2, decide_eq_true (by omega), decide_eq_false (by omega),
        decide_eq_true (by omega)]
      simp
    next hin =>
      rw [decide_eq_true (by omega : i < 32 - shift.toNat)]
      simp
  next hc =>
    rw [BitVec.getLsbD_ushiftRight]
    split
    next hout =>
      rw [BitVec.getLsbD_of_ge _ _ (by omega)]
      by_contra hbit
      exact hc ⟨by omega, hsign.2 (Bool.eq_true_of_not_eq_false (Ne.symm hbit))⟩
    next => rfl

theorem laneNext_eq (op : Op) (word : Word) (lane : Lane) (r : Regs) (acc : Word) :
    Simd4.laneNext op word lane r acc = laneStep op word lane r acc := by
  have hshift : (imm word &&& 31).toNat = ((imm word).extractLsb' 0 5).toNat := by
    rw [extractLsb'_toNat_div, pow_zero, Nat.div_one]
    exact toNat_and_low (imm word) 5 (by decide)
  unfold Simd4.laneNext laneStep
  cases op with
  | mul | mac | macu => simp [product_eq, extract_eq]
  | rda => simp only [hshift, readBack_eq]
  | _ => rfl

end Lanes

section Lockstep

variable {t : Device}

/-- What holds between two edges. -/
structure Execution.Between (e : Execution) : Prop where
  serves : e.state = .memory →
    opcode e.instruction = some .load ∨ opcode e.instruction = some .store
  quiet : e.commandTick = false

theorem Device.tick_eq (hs : t.execution.state ≠ .idle) (h : t.execution.Between)
    (hold : Bool) : t.settled.tick hold = Device.phase { t.settled with
      execution := { t.settled.execution with cycles := t.execution.cycles + 1 } } hold := by
  unfold Device.tick
  rw [if_neg (by rw [settled, h.quiet]; decide)]
  exact if_neg hs

attribute [local simp] Simd4.clock Device.settled Simd4.execute Simd4.control Simd4.transfer
  Device.phase Device.fetch Execution.execute Execution.control Execution.compute Execution.retire
  Execution.refuse faulty laneNext_eq laneStep extract_eq Device.memory Device.transfer
  Execution.nextLane Execution.address

theorem Device.execute_eq (hs : t.execution.state = .execute) (h : t.execution.Between)
    (hold : Bool) :
    (Simd4.clock t none hold).settled = t.settled.tick hold := by
  rw [tick_eq (by rw [hs]; decide) h]
  cases hop : opcode t.execution.instruction with
  | none => simp [hs, hop]
  | some op =>
    cases op with
    | setloop =>
      by_cases hz : imm t.execution.instruction = 0#16
      · simp [hs, hop, hz]
      · simp [hs, hop, hz]
    | loop =>
      by_cases hz : t.execution.loop = 0#16
      · simp [hs, hop, hz]
      · have hmore : 1#16 < t.execution.loop ↔ ¬t.execution.loop - 1#16 = 0#16 := by bv_omega
        simp [hs, hop, hz, hmore]
    | _ => simp [hs, hop]

theorem Device.memory_eq (hs : t.execution.state = .memory) (h : t.execution.Between)
    (hold : Bool) :
    (Simd4.clock t none hold).settled = t.settled.tick hold := by
  have hsum (a b : BitVec 16) : (a + b).setWidth 8 = a.setWidth 8 + b.setWidth 8 :=
    BitVec.setWidth_add _ _ (by decide)
  rw [tick_eq (by rw [hs]; decide) h]
  cases hold with
  | true => simp [hs]
  | false =>
    rcases h.serves hs with hop | hop
    all_goals
      by_cases hl : t.execution.lane = 3
      · simp [hs, hop, hl, hsum]
      · simp [hs, hop, hl, hsum]

theorem Device.tick_clock (h : t.execution.Between) (hold : Bool) :
    (Simd4.clock t none hold).settled = t.settled.tick hold := by
  cases hs : t.execution.state with
  | idle => simp [Device.tick, hs, h.quiet]
  | fetch =>
    rw [tick_eq (by rw [hs]; decide) h]
    simp [hs]
  | execute => exact execute_eq hs h hold
  | memory => exact memory_eq hs h hold

theorem Device.store_command (s : Device) (value : Word) : s.store simdBase 4 value =
    if value = 2 then some s.reset
    else if value ≠ 1 ∨ s.execution.state ≠ .idle then none
    else some { s with execution := s.execution.start } := by
  unfold Device.store
  rw [if_neg (by decide), if_neg (by decide), if_neg (by decide), if_pos rfl]

theorem Device.clock_eq (h : t.execution.Between) (command : Option Word) (hold : Bool) :
    (Simd4.clock t command hold).settled = t.settled.edge command hold := by
  cases command with
  | none => exact tick_clock h hold
  | some value =>
    unfold edge
    rw [Option.bind_some, store_command]
    split
    next hv => simp [hv, Device.reset, Device.tick, Execution.reset]
    next hv =>
      split
      next hn =>
        have hsame : Simd4.clock t (some value) hold = Simd4.clock t none hold := by
          have hno : ¬(value = 1#32 ∧ t.execution.state = .idle) := not_and_or.2 hn
          have hv : value ≠ 2#32 := hv
          simp [hv, hno]
        rw [hsame]
        exact tick_clock h hold
      next hn =>
        obtain ⟨rfl, hs⟩ : value = 1 ∧ t.execution.state = .idle := by
          by_contra hno
          exact hn (not_and_or.1 hno)
        simp [hs, Execution.start, Device.tick, Execution.reset]

theorem Execution.Between.control {e : Execution} (h : e.commandTick = false)
    (hop : opcode e.instruction = some op) : (Simd4.control e op).Between := by
  unfold Simd4.control
  split
  next hl =>
    refine ⟨fun _ => ?_, h⟩
    change opcode e.instruction = _ ∨ opcode e.instruction = _
    rw [hop]
    exact hl.imp (congrArg some) (congrArg some)
  next =>
    split
    next => exact ⟨by rintro ⟨⟩, h⟩
    next => cases op <;> exact ⟨by rintro ⟨⟩, h⟩

theorem Execution.Between.execute {e : Execution} (h : e.commandTick = false) :
    (Simd4.execute e).Between := by
  unfold Simd4.execute
  split
  next => exact ⟨by rintro ⟨⟩, h⟩
  next hop => exact .control h hop

theorem Execution.Between.clock (h : t.execution.Between) (command : Option Word) (hold : Bool) :
    (Simd4.clock t command hold).execution.Between := by
  unfold Simd4.clock
  dsimp only
  split
  next => exact ⟨by split <;> rintro ⟨⟩, rfl⟩
  next =>
    split
    next => exact h
    next => exact ⟨by rintro ⟨⟩, h.quiet⟩
    next => exact .execute h.quiet
    next =>
      split
      next => exact ⟨h.serves, h.quiet⟩
      next =>
        unfold Simd4.transfer
        dsimp only
        split
        next => exact ⟨by rintro ⟨⟩, h.quiet⟩
        next => exact ⟨h.serves, h.quiet⟩

/-- From an idle engine on, whatever is in its memories, whatever is written to COMMAND and whenever
the memory holds a lane up, the RTL and the emulator's device stay in one state edge for edge. -/
theorem simd4_lockstep (program : BitVec 8 → Word) (data : BitVec 8 → BitVec 16)
    (entry : BitVec 8) (edges : List (Option Word × Bool)) :
    let start : Device := ⟨program, data, { Execution.reset with entry, commandTick := false }⟩
    (edges.foldl (fun t i => Simd4.clock t i.1 i.2) start).settled =
      edges.foldl (fun s i => s.edge i.1 i.2) start := by
  intro start
  have hrun (edges : List (Option Word × Bool)) : ∀ t : Device, t.execution.Between →
      (edges.foldl (fun t i => Simd4.clock t i.1 i.2) t).settled =
        edges.foldl (fun s i => s.edge i.1 i.2) t.settled := by
    induction edges with
    | nil => exact fun t _ => rfl
    | cons i edges ih =>
      intro t h
      rw [List.foldl_cons, List.foldl_cons, ← Device.clock_eq h]
      exact ih _ (h.clock i.1 i.2)
  exact hrun edges start ⟨by rintro ⟨⟩, rfl⟩

end Lockstep

end TinyProcessors.Simd
