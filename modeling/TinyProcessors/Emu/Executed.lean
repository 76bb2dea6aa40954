import TinyProcessors.Emu.Effects

namespace TinyProcessors.Emu

def floatLegal (frm : Nat) (word : Word) : Bool :=
  let f3 := funct3 word
  let rs2 := rs2Field word
  let rounded : Bool := (if f3 = 7 then frm else f3) ≤ 4
  if field word 0 7 ≠ 0x53 then field word 25 2 = 0 && rounded
  else match funct7 word with
    | 0x00 | 0x04 | 0x08 | 0x0c => rounded
    | 0x2c => rs2 = 0 && rounded
    | 0x60 | 0x68 => rs2 ≤ 1 && rounded
    | 0x50 => f3 ≤ 2
    | 0x14 => f3 ≤ 1
    | 0x10 => f3 ≤ 2
    | 0x70 => rs2 = 0 && f3 ≤ 1
    | 0x78 => rs2 = 0 && f3 = 0
    | _ => false

def privilegedLegal (c : Cpu) (word : Word) : Bool :=
  word = 0x00000073 || word = 0x00100073 || (word = 0x30200073 && c.hart.priv = .machine) ||
    (word = 0x10200073 && c.supervisorAllows mstatusTsr) ||
    (word = 0x10500073 && c.supervisorAllows mstatusTw) ||
    (word &&& 0xfe007fff = 0x12000073 && c.supervisorAllows mstatusTvm)

def Machine.unknown (m : Machine) (word : Word) (code : Opcode) : Bool :=
  let f3 := funct3 word
  let f7 := funct7 word
  match code with
  | .lui | .auipc | .jal => false
  | .jalr => f3 ≠ 0
  | .branch => f3 = 2 || f3 = 3
  | .flw | .fsw => f3 ≠ 2
  | .load => f3 = 3 || 5 < f3
  | .store => 2 < f3
  | .amo => f3 ≠ 2 || (amoValid (f7 / 4) (rs2Field word)).isNone
  | .opImm => f3 = 1 && f7 ≠ 0 || f3 = 5 && f7 ≠ 0 && f7 ≠ 0x20
  | .op => f7 ≠ 1 && f7 ≠ 0 && !(f7 = 0x20 && (f3 = 0 || f3 = 5))
  | .fence => 1 < f3
  | .floating => !floatLegal (m.hart.fp.fcsr >>> 5).toNat word
  | .system => if f3 = 0 then !privilegedLegal m.cpu word else f3 = 4 || (m.csrOf word).isNone

def Machine.refuses (m : Machine) (word : Word) : Bool :=
  m.fsOff && floatingInstruction word || match Opcode.of (field word 0 7) with
    | none => true
    | some code => m.unknown word code

inductive Hold
  | keeps | takes | ends
  deriving DecidableEq

def AmoOp.hold : AmoOp → Hold
  | .lr => .takes
  | .sc => .ends
  | _ => .keeps

def holdOf (word : Word) : Hold :=
  match Opcode.of (field word 0 7) with
  | some .amo => ((amoValid (funct7 word / 4) (rs2Field word)).map AmoOp.hold).getD .keeps
  | some .system =>
    if word = 0x30200073 ∨ word = 0x10200073 ∨ word &&& 0xfe007fff = 0x12000073 ∨
        (funct3 word ≠ 0 ∧ csrWrites word ∧ field word 20 12 = 0x180) then .ends
    else .keeps
  | _ => .keeps

def Machine.storeOf (m : Machine) (word : Word) : Option (Word × Nat × Word) :=
  let width := widthOf (funct3 word)
  let address := m.rs1 word + immS word
  match Opcode.of (field word 0 7) with
  | some .store => some (address, width, storedValue width (m.rs2 word))
  | some .fsw =>
    some (address, width, storedValue width (m.hart.fp.f (Fin.ofNat 32 (rs2Field word))))
  | _ => none

inductive Conditional (fuel : Nat) (word : Word) (m : Machine) : Retirement → Machine → Prop
  | fails (h : m.io.holds (m.rs1 word) = true → ∃ pa, m.passing (m.rs1 word) .store 2 = .ok pa ∧
      pa >>> 2 ≠ m.io.mem.lr.reservationPa) :
    Conditional fuel word m (m.result 1) { m with io := m.io.unreserve }
  | succeeds (hholds : m.io.holds (m.rs1 word) = true)
    (hpa : m.passing (m.rs1 word) .store 2 = .ok pa)
    (hword : pa >>> 2 = m.io.mem.lr.reservationPa)
    (h : Stored fuel m (m.rs1 word) 4 (m.rs2 word) m₁) :
    Conditional fuel word m (m.result 0) { m₁ with io := m₁.io.unreserve }

inductive Executed (host : Host) (fuel : Nat) (word : Word) (m : Machine) :
    Retirement → Machine → Prop
  | computes (fp : FState) (r : Retirement) (hnext : r.next = m.hart.pc + 4 ∨ r.next &&& 3 = 0)
    (hstore : m.storeOf word = none) (hhold : holdOf word = .keeps) :
    Executed host fuel word m r { m with cpu := { m.cpu with hart := { m.hart with fp } } }
  | loads (fp : FState) (rd : Option Word) (dirty : Bool) (h : Loaded host m va width r m₁)
    (hstore : m.storeOf word = none) (hhold : holdOf word = .keeps) :
    Executed host fuel word m ⟨m.hart.pc + 4, rd, dirty⟩
      { m₁ with cpu := { m₁.cpu with hart := { m₁.hart with fp } } }
  | stores (h : Stored fuel m va width value m₁)
    (hstore : m.storeOf word = some (va, width, value)) (hhold : holdOf word = .keeps) :
    Executed host fuel word m m.noResult m₁
  | reserves (h : Loaded host m (m.rs1 word) 4 r m₁) (hhold : holdOf word = .takes) :
    Executed host fuel word m (m.result r.1) { m₁ with io := m₁.io.reserve (m.rs1 word) r.2 }
  | conditional (h : Conditional fuel word m r m₁) (hhold : holdOf word = .ends) :
    Executed host fuel word m r m₁
  | swaps (h : Swapped host fuel m (m.rs1 word) op (m.rs2 word) old m₁)
    (hstore : m.storeOf word = none) (hhold : holdOf word = .keeps) :
    Executed host fuel word m (m.result old) m₁
  | csr (h : m.csrOf word = some r) (hstore : m.storeOf word = none)
    (hhold : holdOf word = if csrWrites word ∧ r = .satp then .ends else .keeps) :
    Executed host fuel word m ⟨m.hart.pc + 4, some (m.csrRead r),
        csrWrites word && (r = .fflags || r = .frm || r = .fcsr)⟩
      (if csrWrites word then m.csrWrite r (csrOperand word (m.rs1 word) (m.csrRead r)) else m)
  | mret (h : m.hart.priv = .machine) (hhold : holdOf word = .ends) :
    Executed host fuel word m ⟨m.hart.mepc, none, false⟩
      { cpu := { m.cpu with hart := m.hart.mret }, io := m.io.unreserve }
  | sret (h : m.cpu.supervisorAllows mstatusTsr = true) (hhold : holdOf word = .ends) :
    Executed host fuel word m ⟨m.cpu.sepc, none, false⟩
      { cpu := m.cpu.sret, io := m.io.unreserve }
  | sfence (hhold : holdOf word = .ends) :
    Executed host fuel word m m.noResult { m with io := m.io.unreserve }

inductive Refused (host : Host) (fuel : Nat) (m : Machine) : Exit → Machine → Prop
  | jumps (h : target &&& 3 ≠ 0) : Refused host fuel m (.trap causeFetchMisaligned target) m
  | ecall : Refused host fuel m (.trap (ecallCause m.hart.priv) 0) m
  | ebreak : Refused host fuel m (.trap causeBreakpoint m.hart.pc) m
  | loads (status : MemAccess) (tval : Word) : Refused host fuel m (.trap (loadCause status) tval) m
  | stores (status : MemAccess) (tval : Word)
    (h : m' = m ∨ ∃ va, HalfSwapped host fuel m va m') :
    Refused host fuel m (.trap (storeCause status) tval) m'
  | spins (m' : Machine) : Refused host fuel m .spins m'

theorem trapping_ensures {x : Exec α} (h : Ensures x m Q E)
    (hdenied : ∀ status m', E (.denied status) m' → E' (.trap (cause status) tval) m')
    (hother : ∀ e m', (∀ status, e ≠ .denied status) → E e m' → E' e m') :
    Ensures (trapping cause tval x) m Q E' := by
  unfold Ensures at h ⊢
  unfold trapping
  cases hx : x m with
  | ok a m' =>
    rw [hx] at h
    exact h
  | error e m' =>
    rw [hx] at h
    cases e with
    | denied status => exact hdenied status m' h
    | trap cause tval | abort | notReached | spins => exact hother _ m' (by rintro _ ⟨⟩) h

section Executes

variable {host : Host} {fuel : Nat}

abbrev Executes (host : Host) (fuel : Nat) (word : Word) (m : Machine) (x : Exec Retirement) : Prop :=
  Ensures x m (Executed host fuel word m) (Refused host fuel m)

def Plain (m : Machine) (word : Word) : Prop := m.storeOf word = none ∧ holdOf word = .keeps

theorem plain_of_opcode (hop : Opcode.of (field word 0 7) = some code)
    (hcode : code ∉ [.store, .fsw, .amo, .system]) (m : Machine) : Plain m word := by
  unfold Plain Machine.storeOf holdOf
  rw [hop]
  cases code <;> first | exact ⟨rfl, rfl⟩ | exact absurd (by decide) hcode

theorem jump_ensures {k : Word → Exec Retirement}
    (h : ∀ next, next &&& 3 = 0 → Executes host fuel word m (k next)) :
    Executes host fuel word m (jump target >>= k) := by
  refine .bind ?_
  unfold jump
  split
  next ht => exact Refused.jumps ht
  next ht => exact h target (not_not.mp ht)

theorem computes_plain (hplain : Plain m word) (r : Retirement)
    (hnext : r.next = m.hart.pc + 4 ∨ r.next &&& 3 = 0) : Executed host fuel word m r m :=
  .computes m.hart.fp r hnext hplain.1 hplain.2

theorem branch_executes (hplain : Plain m word)
    (h : branchTaken (funct3 word) (m.rs1 word) (m.rs2 word) = some b) :
    Executes host fuel word m (branch word) := by
  unfold branch
  refine .read ?_
  rw [h]
  cases b with
  | false => exact computes_plain hplain _ (.inl rfl)
  | true => exact jump_ensures fun next hn => computes_plain hplain ⟨next, none, false⟩ (.inr hn)

theorem trapping_load (va : Word) (width : Nat) (m : Machine) :
    Ensures (trapping loadCause va (load host va width)) m (Loaded host m va width)
      (Refused host fuel m) := by
  refine trapping_ensures (load_ensures host va width m) ?_ ?_
  · rintro status _ ⟨rfl, -⟩
    exact .loads status va
  · rintro _ _ hne ⟨-, status, rfl⟩
    exact absurd rfl (hne status)

theorem trapping_store {x : Exec α} (h : Ensures x m Q fun e m' => m' = m ∧ e.stored) (va : Word) :
    Ensures (trapping storeCause va x) m Q (Refused host fuel m) := by
  refine trapping_ensures h ?_ ?_
  · rintro status _ ⟨rfl, -⟩
    exact .stores status va (.inl rfl)
  · rintro _ _ hne ⟨rfl, rfl | ⟨status, rfl⟩⟩
    · exact .spins _
    · exact absurd rfl (hne status)

theorem loads_executes (float : Bool) (hplain : Plain m word)
    (h : ¬((float && funct3 word ≠ 2 || funct3 word = 3 || 5 < funct3 word) = true)) :
    Executes host fuel word m (loads host word float) := by
  unfold loads
  refine .read ?_
  dsimp only
  rw [if_neg h]
  refine .bind (.mono (trapping_load _ _ m) ?_ fun _ _ he => he)
  intro r m₁ hl
  have hnext (rd : Option Word) (dirty : Bool) :
      (⟨m₁.hart.pc + 4, rd, dirty⟩ : Retirement) = ⟨m.hart.pc + 4, rd, dirty⟩ := by
    rw [Machine.hart, hl.cpu]
  refine .read ?_
  unfold Machine.result
  simp only [hnext]
  split
  next =>
    have he : Executed host fuel word m _ _ :=
      .loads (m₁.hart.fp.write (rdField word) (extended (funct3 word) r.1)) none true hl
        hplain.1 hplain.2
    exact he
  next =>
    have he : Executed host fuel word m _ _ :=
      .loads m₁.hart.fp (some (extended (funct3 word) r.1)) false hl hplain.1 hplain.2
    exact he

theorem stores_executes (float : Bool) (hhold : holdOf word = .keeps)
    (hstore : m.storeOf word = some (m.rs1 word + immS word, widthOf (funct3 word),
      storedValue (widthOf (funct3 word))
        (if float then m.hart.fp.f (Fin.ofNat 32 (rs2Field word)) else m.rs2 word)))
    (h : ¬((float && funct3 word ≠ 2 || 2 < funct3 word) = true)) :
    Executes host fuel word m (stores fuel word float) := by
  unfold stores
  change Executes host fuel word m (if _ then _ else _)
  rw [if_neg h]
  refine .bind (.mono (trapping_store (store_ensures fuel _ _ _ m) _) ?_ fun _ _ he => he)
  intro _ m₁ hs
  exact Executed.stores hs hstore hhold

theorem loadReserved_executes (hhold : holdOf word = .takes) :
    Executes host fuel word m (loadReserved host word) := by
  unfold loadReserved
  change Ensures (trapping loadCause (m.rs1 word) (load host (m.rs1 word) 4) >>= _) m _ _
  refine .bind (.mono (trapping_load _ _ m) ?_ fun _ _ he => he)
  intro r m₁ hl
  exact Executed.reserves hl hhold

theorem held_ensures (va : Word) (m : Machine) :
    Ensures (held va) m (fun ok m' => m' = m ∧ (ok = true → m.io.holds va = true ∧
        ∃ pa, m.passing va .store 2 = .ok pa ∧ pa >>> 2 = m.io.mem.lr.reservationPa) ∧
      (ok = false → m.io.holds va = true → ∃ pa, m.passing va .store 2 = .ok pa ∧
        pa >>> 2 ≠ m.io.mem.lr.reservationPa)) (Refused host fuel m) := by
  change Ensures (if m.io.holds va then _ else pure false : Exec Bool) m _ _
  split
  next hholds =>
    have hreached := reached_ensures va .store 2 m
    refine .bind (.mono (trapping_store (.mono hreached (fun _ _ hq => hq)
      fun _ _ he => ⟨he.1, .inr he.2⟩) va) ?_ fun _ _ he => he)
    rintro pa _ ⟨rfl, hpa⟩
    refine ⟨rfl, fun hok => ⟨hholds, pa, hpa, of_decide_eq_true hok⟩, fun hok _ => ?_⟩
    exact ⟨pa, hpa, of_decide_eq_false hok⟩
  next hholds => exact ⟨rfl, (by rintro ⟨⟩), fun _ h => absurd h hholds⟩

theorem storeConditional_ensures (word : Word) (m : Machine) :
    Ensures (storeConditional fuel word) m (Conditional fuel word m) (Refused host fuel m) := by
  unfold storeConditional
  change Ensures (trapping storeCause (m.rs1 word) (aligned (m.rs1 word) 4) >>= _) m _ _
  refine .bind (.mono (trapping_store (.mono (aligned_ensures _ 4 m) (fun _ _ hq => hq)
    fun _ _ he => ⟨he.1, .inr he.2⟩) _) ?_ fun _ _ he => he)
  rintro _ _ ⟨rfl, -⟩
  refine .bind (.mono (held_ensures _ _) ?_ fun _ _ he => he)
  rintro ok _ ⟨rfl, htrue, hfalse⟩
  cases ok with
  | false => exact Conditional.fails (hfalse rfl)
  | true =>
    obtain ⟨hholds, pa, hpa, hword⟩ := htrue rfl
    refine .bind (.mono (trapping_store (store_ensures fuel _ _ _ _) _) ?_ fun _ _ he => he)
    intro _ m₁ hs
    exact Conditional.succeeds hholds hpa hword hs

theorem atomic_executes (hamo : Opcode.of (field word 0 7) = some .amo) (hf : funct3 word = 2)
    (hop : amoValid (funct7 word / 4) (rs2Field word) = some op) :
    Executes host fuel word m (atomic host fuel word) := by
  unfold atomic
  refine .read ?_
  rw [if_pos hf, hop]
  have hhold : holdOf word = op.hold := by
    unfold holdOf
    rw [hamo]
    dsimp only
    rw [hop]
    rfl
  have hstore : m.storeOf word = none := by
    unfold Machine.storeOf
    rw [hamo]
  have hswap (hl : op ≠ .lr) (hs : op ≠ .sc) (hhold : holdOf word = .keeps) : Executes host fuel word m (do
      let old ← trapping storeCause (m.rs1 word) (amo host fuel (m.rs1 word) op (m.rs2 word))
      return m.result old) := by
    refine .bind (.mono (trapping_ensures (amo_ensures host fuel _ op _ hl hs m) ?_ ?_) ?_
      fun _ _ he => he)
    · rintro status m' ⟨-, hm⟩
      exact .stores status _ (hm.imp id fun h => ⟨_, h⟩)
    · rintro _ m' hne ⟨rfl | ⟨status, rfl⟩, -⟩
      · exact .spins m'
      · exact absurd rfl (hne status)
    · intro old m₁ hs
      exact Executed.swaps hs hstore hhold
  cases op with
  | lr => exact loadReserved_executes hhold
  | sc =>
    exact .mono (storeConditional_ensures word m) (fun _ _ h => .conditional h hhold) fun _ _ he => he
  | _ => exact hswap (by rintro ⟨⟩) (by rintro ⟨⟩) hhold

theorem computed_executes (hplain : Plain m word) (v : Word) :
    Executes host fuel word m (computed word (some v)) :=
  computes_plain hplain (m.result v) (.inl rfl)

theorem floating_executes (hplain : Plain m word)
    (h : executeFloating host.fp m.hart.fp word (m.rs1 word) 0 = some r) :
    Executes host fuel word m (floating host word) := by
  unfold floating
  refine .read ?_
  rw [h]
  exact Executed.computes r.fp ⟨m.hart.pc + 4, r.rd, r.dirty⟩ (.inl rfl) hplain.1 hplain.2

theorem csrOf_satp {m : Machine} (h : m.csrOf word = some r) : r = .satp ↔ field word 20 12 = 0x180 := by
  obtain ⟨hof, -⟩ := Option.filter_eq_some_iff.mp h
  constructor
  · rintro rfl
    revert hof
    unfold Csr.of
    split
    case h_27 hn => exact fun _ => hn
    case h_38 => split <;> rintro ⟨⟩
    all_goals rintro ⟨⟩
  · intro hn
    rw [hn] at hof
    cases hof
    rfl

theorem sfence_fields (h : word &&& 0xfe007fff = (0x12000073 : Word)) :
    field word 0 7 = 0x73 ∧ field word 12 3 = 0 := by
  have hlow : word &&& 0x7fff = (0x73 : Word) := by
    have hand := congrArg (· &&& (0x7fff : Word)) h
    rwa [BitVec.and_assoc] at hand
  have hnat : word.toNat % 2 ^ 15 = 0x73 := by
    rw [← toNat_and_low word 15 (by decide)]
    exact congrArg BitVec.toNat hlow
  unfold field
  omega

theorem holdOf_system (hsystem : Opcode.of (field word 0 7) = some .system) : holdOf word =
    if word = 0x30200073 ∨ word = 0x10200073 ∨ word &&& 0xfe007fff = 0x12000073 ∨
      (funct3 word ≠ 0 ∧ csrWrites word ∧ field word 20 12 = 0x180) then .ends else .keeps := by
  unfold holdOf
  rw [hsystem]

theorem csrInstruction_executes (hsystem : Opcode.of (field word 0 7) = some .system)
    (hf : funct3 word ≠ 0) (h : m.csrOf word = some r) :
    Executes host fuel word m (csrInstruction word) := by
  unfold csrInstruction
  refine .read ?_
  rw [h]
  dsimp only
  have hstore : m.storeOf word = none := by
    unfold Machine.storeOf
    rw [hsystem]
  have hhold : holdOf word = if csrWrites word ∧ r = .satp then .ends else .keeps := by
    have hwhole : ¬(word = 0x30200073) ∧ ¬(word = 0x10200073) ∧
        ¬(word &&& 0xfe007fff = 0x12000073) := by
      refine ⟨?_, ?_, fun hs => hf (sfence_fields hs).2⟩
      · rintro rfl
        exact hf (by decide)
      · rintro rfl
        exact hf (by decide)
    rw [holdOf_system hsystem]
    simp only [csrOf_satp h, hwhole, hf, false_or, ne_eq, not_false_eq_true, true_and]
  have hcsr : Executed host fuel word m _ _ := .csr h hstore hhold
  split
  next hw =>
    rw [if_pos hw] at hcsr
    exact hcsr
  next hw =>
    rw [if_neg hw] at hcsr
    exact hcsr

theorem privileged_executes (hsystem : Opcode.of (field word 0 7) = some .system)
    (h : privilegedLegal m.cpu word = true) :
    Executes host fuel word m (privileged word) := by
  change Executes host fuel word m (if word = 0x00000073 then _ else _)
  simp only [privilegedLegal, Bool.or_eq_true, Bool.and_eq_true, decide_eq_true_eq] at h
  have hhold := holdOf_system hsystem
  split
  next => exact Refused.ecall
  next h₁ =>
    split
    next => exact Refused.ebreak
    next h₂ =>
      split
      next h₃ => exact Executed.mret h₃.2 (hhold.trans (if_pos (.inl h₃.1)))
      next h₃ =>
        split
        next h₄ => exact Executed.sret h₄.2 (hhold.trans (if_pos (.inr (.inl h₄.1))))
        next h₄ =>
          split
          next h₅ =>
            have hplain : Plain m word := by
              obtain ⟨rfl, -⟩ := h₅
              exact ⟨rfl, by decide⟩
            exact computes_plain hplain _ (.inl rfl)
          next h₅ =>
            split
            next h₆ => exact Executed.sfence (hhold.trans (if_pos (.inr (.inr (.inl h₆.1)))))
            next h₆ => tauto

theorem not_and_of_false {p : Prop} {b : Bool} (h : ¬p ∨ b = false) : ¬(p ∧ b = true) := by
  rintro ⟨hp, rfl⟩
  rcases h with h | h
  · exact h hp
  · cases h

theorem privileged_refuses (h : privilegedLegal m.cpu word = false) :
    privileged word m = .error (.trap causeIllegal word) m := by
  simp only [privilegedLegal, Bool.or_eq_false_iff, Bool.and_eq_false_iff, decide_eq_false_iff_not]
    at h
  change (if word = 0x00000073 then _ else _ : Exec Retirement) m = _
  obtain ⟨⟨⟨⟨⟨h₁, h₂⟩, h₃⟩, h₄⟩, h₅⟩, h₆⟩ := h
  rw [if_neg h₁, if_neg h₂, if_neg (not_and_or.mpr h₃), if_neg (not_and_of_false h₄),
    if_neg (not_and_of_false h₅), if_neg (not_and_of_false h₆)]
  rfl

theorem Opcode.of_floating (h : Opcode.of n = some .floating) :
    n = 0x43 ∨ n = 0x47 ∨ n = 0x4b ∨ n = 0x4f ∨ n = 0x53 := by
  unfold Opcode.of at h
  split at h <;> first | contradiction | decide

theorem isSome_unless {p : Prop} [Decidable p] (a : Option α) :
    (if p then none else a).isSome = (!decide p && a.isSome) := by
  split
  next h => simp [h]
  next h => simp [h]

theorem roundingMode_isSome (s : FState) (funct3 : Nat) :
    (roundingMode s funct3).isSome =
      decide ((if funct3 = 7 then (s.fcsr >>> 5).toNat else funct3) ≤ 4) := by
  unfold roundingMode
  dsimp only
  rw [isSome_unless, Option.isSome_some, Bool.and_true, ← decide_not]
  exact decide_eq_decide.mpr Nat.not_lt

theorem executeOpFp_isSome (unit : FpUnit) (s : FState) (word a : Word) (hop : field word 0 7 = 0x53) :
    (executeOpFp unit s word a).isSome = floatLegal (s.fcsr >>> 5).toNat word := by
  unfold executeOpFp floatLegal
  rw [if_neg (not_not.mpr hop)]
  dsimp only
  split
  all_goals
    simp only [*, isSome_unless, Option.isSome_map, roundingMode_isSome, Option.isSome_some,
      Option.isSome_none, Bool.and_true, ne_eq, ← decide_not, not_or, not_not, gt_iff_lt, Nat.not_lt,
      Bool.decide_and]

theorem executeFloating_isSome (unit : FpUnit) (s : FState) (word a loaded : Word)
    (hop : Opcode.of (field word 0 7) = some .floating) :
    (executeFloating unit s word a loaded).isSome = floatLegal (s.fcsr >>> 5).toNat word := by
  have hfused (hfused : field word 0 7 ≠ 0x53) : floatLegal (s.fcsr >>> 5).toNat word =
      (decide (field word 25 2 = 0) && (roundingMode s (funct3 word)).isSome) := by
    rw [floatLegal, if_pos hfused, roundingMode_isSome]
  unfold executeFloating
  rcases Opcode.of_floating hop with h | h | h | h | h
  case inr.inr.inr.inr =>
    rw [h]
    exact executeOpFp_isSome unit s word a h
  all_goals
    rw [hfused (by rw [h]; decide), h]
    simp only [isSome_unless, Option.isSome_map, ne_eq, ← decide_not, not_not]

theorem field_lt (word : Word) (low width : Nat) : field word low width < 2 ^ width :=
  Nat.mod_lt _ (Nat.two_pow_pos width)

theorem branchTaken_isSome (a b : Word) (hf : f < 8) :
    (branchTaken f a b).isSome = !(f = 2 || f = 3 : Bool) := by
  interval_cases f <;> rfl

theorem opImm_isSome (word a : Word) : (opImm word a).isSome =
    !(funct3 word = 1 && funct7 word ≠ 0 ||
      funct3 word = 5 && funct7 word ≠ 0 && funct7 word ≠ 0x20 : Bool) := by
  unfold opImm
  dsimp only
  split
  all_goals rename_i hf
  case h_2 =>
    rw [hf]
    by_cases h : funct7 word = 0 <;> simp [h]
  case h_6 =>
    rw [hf]
    by_cases h : funct7 word = 0
    · simp [h]
    · by_cases h' : funct7 word = 0x20 <;> simp [h, h']
  all_goals simp_all

theorem opReg_isSome (word a b : Word) : (opReg word a b).isSome =
    !(funct7 word ≠ 1 && funct7 word ≠ 0 &&
      !(funct7 word = 0x20 && (funct3 word = 0 || funct3 word = 5)) : Bool) := by
  unfold opReg
  dsimp only
  by_cases h1 : funct7 word = 1
  · simp [h1]
  · rw [if_neg h1]
    by_cases h0 : funct7 word ≠ 0 ∧ ¬(funct7 word = 0x20 ∧ (funct3 word = 0 ∨ funct3 word = 5))
    · rw [if_pos h0]
      simpa [h0.1, h1] using h0.2
    · rw [if_neg h0]
      have hsome : (!(funct7 word ≠ 1 && funct7 word ≠ 0 &&
          !(funct7 word = 0x20 && (funct3 word = 0 || funct3 word = 5)) : Bool)) = true := by
        simp only [Bool.not_eq_true', Bool.and_eq_false_iff, Bool.not_eq_false', Bool.and_eq_true,
          Bool.or_eq_true, decide_eq_true_eq, decide_eq_false_iff_not]
        tauto
      rw [hsome]
      split <;> rfl

theorem eq_none_of_isSome {o : Option β} {b : Bool} (hs : o.isSome = !b) (hb : b = true) :
    o = none := by
  rw [← Option.not_isSome_iff_eq_none, hs, hb]
  decide

theorem eq_some_of_isSome {o : Option β} {b : Bool} (hs : o.isSome = !b) (hb : b = false) :
    ∃ v, o = some v := by
  rw [← Option.isSome_iff_exists, hs, hb]
  rfl

theorem computed_none (h : o = none) :
    computed word o m = .error (.trap causeIllegal word) m := by
  rw [h]
  rfl

theorem perform_unknown (hop : Opcode.of (field word 0 7) = some code)
    (h : m.unknown word code = true) :
    perform host fuel word code m = .error (.trap causeIllegal word) m := by
  cases code with
  | lui => cases h
  | auipc => cases h
  | jal => cases h
  | jalr =>
    change (if funct3 word ≠ 0 then illegal word else _ : Exec Retirement) m = _
    rw [if_pos (of_decide_eq_true h)]
    rfl
  | branch =>
    have hnone := eq_none_of_isSome (branchTaken_isSome (m.rs1 word) (m.rs2 word) (field_lt word 12 3)) h
    change branch word m = _
    unfold branch
    rw [get_bind_apply, hnone]
    rfl
  | flw =>
    change (if _ then illegal word else _ : Exec Retirement) m = _
    rw [if_pos (by simpa using Or.inl (Or.inl (of_decide_eq_true h)))]
    rfl
  | load =>
    change (if _ then illegal word else _ : Exec Retirement) m = _
    rw [if_pos (by simpa [Machine.unknown] using h)]
    rfl
  | fsw =>
    change (if _ then illegal word else _ : Exec Retirement) m = _
    rw [if_pos (by simpa using Or.inl (of_decide_eq_true h))]
    rfl
  | store =>
    change (if _ then illegal word else _ : Exec Retirement) m = _
    rw [if_pos (by simpa [Machine.unknown] using h)]
    rfl
  | amo =>
    have hnone : (if funct3 word = 2 then amoValid (funct7 word / 4) (rs2Field word) else none) =
        none := by
      split
      next hf => simpa [Machine.unknown, hf] using h
      next => rfl
    change atomic host fuel word m = _
    unfold atomic
    rw [get_bind_apply, hnone]
    rfl
  | opImm =>
    change computed word (opImm word (m.rs1 word)) m = _
    exact computed_none (eq_none_of_isSome (opImm_isSome word (m.rs1 word)) h)
  | op =>
    change computed word (opReg word (m.rs1 word) (m.rs2 word)) m = _
    exact computed_none (eq_none_of_isSome (opReg_isSome word (m.rs1 word) (m.rs2 word)) h)
  | fence =>
    change (if 1 < funct3 word then illegal word else _ : Exec Retirement) m = _
    rw [if_pos (of_decide_eq_true h)]
    rfl
  | floating =>
    have hlegal : floatLegal (m.hart.fp.fcsr >>> 5).toNat word = false := by
      simpa [Machine.unknown] using h
    have hnone : executeFloating host.fp m.hart.fp word (m.rs1 word) 0 = none := by
      rw [← Option.not_isSome_iff_eq_none, executeFloating_isSome _ _ _ _ _ hop, hlegal]
      decide
    change floating host word m = _
    unfold floating
    rw [get_bind_apply, hnone]
    rfl
  | system =>
    change (if funct3 word = 0 then _ else _ : Exec Retirement) m = _
    change (if funct3 word = 0 then _ else _ : Bool) = true at h
    split
    next hf =>
      rw [if_pos hf] at h
      exact privileged_refuses (by simpa using h)
    next hf =>
      rw [if_neg hf, Bool.or_eq_true] at h
      rcases h with h | h
      · rw [if_pos (of_decide_eq_true h)]
        rfl
      · split
        next => rfl
        next =>
          unfold csrInstruction
          rw [get_bind_apply, Option.isNone_iff_eq_none.mp h]
          rfl

theorem execute_refuses (h : m.refuses word = true) :
    execute host fuel word m = .error (.trap causeIllegal word) m := by
  unfold Machine.refuses at h
  change (if m.fsOff && floatingInstruction word then illegal word else _ : Exec Retirement) m = _
  split
  next => rfl
  next hfs =>
    rw [eq_false_of_ne_true hfs, Bool.false_or] at h
    cases hop : Opcode.of (field word 0 7) with
    | none => rfl
    | some code =>
      rw [hop] at h
      exact perform_unknown hop h

theorem perform_executes (hop : Opcode.of (field word 0 7) = some code)
    (h : m.unknown word code = false) :
    Executes host fuel word m (perform host fuel word code) := by
  have hplain (hcode : code ∉ [.store, .fsw, .amo, .system]) : Plain m word :=
    plain_of_opcode hop hcode m
  unfold perform
  refine .read ?_
  dsimp only
  cases code with
  | lui | auipc => exact computes_plain (hplain (by decide)) _ (.inl rfl)
  | jal =>
    exact jump_ensures fun next hn => computes_plain (hplain (by decide)) ⟨next, _, false⟩ (.inr hn)
  | jalr =>
    dsimp only
    rw [if_neg (of_decide_eq_false h)]
    exact jump_ensures fun next hn => computes_plain (hplain (by decide)) ⟨next, _, false⟩ (.inr hn)
  | branch =>
    obtain ⟨b, hb⟩ := eq_some_of_isSome (branchTaken_isSome (m.rs1 word) (m.rs2 word) (field_lt word 12 3)) h
    exact branch_executes (hplain (by decide)) hb
  | flw =>
    have hf : funct3 word = 2 := not_not.mp (of_decide_eq_false h)
    exact loads_executes true (hplain (by decide)) (by rw [hf]; decide)
  | load => exact loads_executes false (hplain (by decide)) (by simpa [Machine.unknown] using h)
  | fsw =>
    have hf : funct3 word = 2 := not_not.mp (of_decide_eq_false h)
    have hhold : holdOf word = .keeps := by
      unfold holdOf
      rw [hop]
    refine stores_executes true hhold ?_ (by rw [hf]; decide)
    unfold Machine.storeOf
    rw [hop]
    rfl
  | store =>
    have hhold : holdOf word = .keeps := by
      unfold holdOf
      rw [hop]
    refine stores_executes false hhold ?_ (by simpa [Machine.unknown] using h)
    unfold Machine.storeOf
    rw [hop]
    rfl
  | amo =>
    change (decide (funct3 word ≠ 2) || (amoValid (funct7 word / 4) (rs2Field word)).isNone) = false at h
    rw [Bool.or_eq_false_iff] at h
    have hf : funct3 word = 2 := not_not.mp (of_decide_eq_false h.1)
    obtain ⟨op, ha⟩ := Option.ne_none_iff_exists'.mp
      (mt Option.isNone_iff_eq_none.mpr (by rw [h.2]; decide))
    exact atomic_executes hop hf ha
  | opImm =>
    obtain ⟨v, hv⟩ := eq_some_of_isSome (opImm_isSome word (m.rs1 word)) h
    dsimp only
    rw [hv]
    exact computed_executes (hplain (by decide)) v
  | op =>
    obtain ⟨v, hv⟩ := eq_some_of_isSome (opReg_isSome word (m.rs1 word) (m.rs2 word)) h
    dsimp only
    rw [hv]
    exact computed_executes (hplain (by decide)) v
  | fence =>
    dsimp only
    rw [if_neg (of_decide_eq_false h)]
    exact computes_plain (hplain (by decide)) _ (.inl rfl)
  | floating =>
    obtain ⟨r, hr⟩ := eq_some_of_isSome (b := false)
      ((executeFloating_isSome host.fp m.hart.fp word (m.rs1 word) 0 hop).trans
        (by simpa [Machine.unknown] using h)) rfl
    exact floating_executes (hplain (by decide)) hr
  | system =>
    change (if funct3 word = 0 then _ else _ : Bool) = false at h
    dsimp only [system]
    split
    next hf =>
      rw [if_pos hf] at h
      exact privileged_executes hop (by simpa using h)
    next hf =>
      rw [if_neg hf, Bool.or_eq_false_iff] at h
      rw [if_neg (of_decide_eq_false h.1)]
      obtain ⟨r, hr⟩ := Option.ne_none_iff_exists'.mp
        (mt Option.isNone_iff_eq_none.mpr (by rw [h.2]; decide))
      exact csrInstruction_executes hop hf hr

theorem execute_ensures (h : m.refuses word = false) :
    Executes host fuel word m (execute host fuel word) := by
  unfold Machine.refuses at h
  rw [Bool.or_eq_false_iff] at h
  obtain ⟨hfs, h⟩ := h
  change Executes host fuel word m (if m.fsOff && floatingInstruction word then _ else _)
  rw [hfs, if_neg Bool.false_ne_true]
  cases hop : Opcode.of (field word 0 7) with
  | none =>
    rw [hop] at h
    cases h
  | some code =>
    rw [hop] at h
    exact perform_executes hop h

structure Devices.Kept (fuel : Nat) (P : Devices → Prop) : Prop where
  load : ∀ d console plic input, P d → P { d with console, plic, input }
  store : ∀ d d' offset width value r, Took fuel d offset width value r d' → P d → P d'
  reservation : ∀ d lr, P d → P { d with mem := { d.mem with lr } }

section Kept

variable {P : Devices → Prop}

theorem Devices.Kept.loaded (hk : Devices.Kept fuel P) (h : Loaded host m va width r m₁)
    (hm : P m.io) : P m₁.io := by
  obtain ⟨-, -, region, io, -, hload, rfl⟩ := h
  obtain ⟨console, plic, input, rfl⟩ := Region.load_frame hload
  exact hk.load _ console plic input hm

theorem Devices.Kept.stored (hk : Devices.Kept fuel P) (h : Stored fuel m va width value m₁)
    (hm : P m.io) : P m₁.io := by
  obtain ⟨-, pa, region, io, -, -, hstore, rfl⟩ := h
  exact hk.store _ _ _ _ _ _ (Region.store_took hstore) hm

theorem Devices.Kept.executed (hk : Devices.Kept fuel P) (h : Executed host fuel word m r m₁)
    (hm : P m.io) : P m₁.io := by
  cases h with
  | computes => exact hm
  | loads fp rd dirty hl hstore hhold =>
    have hio := hk.loaded hl hm
    exact hio
  | stores hs hstore hhold => exact hk.stored hs hm
  | reserves hl hhold => exact hk.reservation _ _ (hk.loaded hl hm)
  | conditional hc =>
    cases hc with
    | fails => exact hk.reservation _ _ hm
    | succeeds hholds hpa hword hs => exact hk.reservation _ _ (hk.stored hs hm)
  | swaps hs =>
    obtain ⟨-, pa, region, io, value, io', -, -, hload, -, hstore, rfl⟩ := hs
    obtain ⟨console, plic, input, rfl⟩ := Region.load_frame hload
    exact hk.store _ _ _ _ _ _ (Region.store_took hstore) (hk.load _ console plic input hm)
  | csr =>
    split
    next =>
      unfold Machine.csrWrite
      dsimp only
      split
      next => exact hk.reservation _ _ hm
      next => exact hm
    next => exact hm
  | mret | sret | sfence => exact hk.reservation _ _ hm

theorem Devices.Kept.refused (hk : Devices.Kept fuel P) (h : Refused host fuel m (.trap cause tval) m₁)
    (hm : P m.io) : P m₁.io := by
  cases h with
  | jumps => exact hm
  | ecall => exact hm
  | ebreak => exact hm
  | loads => exact hm
  | stores status tval hs =>
    obtain rfl | ⟨va, -, pa, region, old, io, value, -, -, hload, -, rfl⟩ := hs
    · exact hm
    · obtain ⟨console, plic, input, rfl⟩ := Region.load_frame hload
      exact hk.load _ console plic input hm

theorem Refused.cpu (h : Refused host fuel m (.trap cause tval) m₁) : m₁.cpu = m.cpu := by
  cases h with
  | jumps => rfl
  | ecall => rfl
  | ebreak => rfl
  | loads => rfl
  | stores status tval hs =>
    obtain rfl | ⟨va, -, pa, region, old, io, value, -, -, -, -, rfl⟩ := hs
    · rfl
    · rfl

end Kept

theorem Refused.cause_ne (h : Refused host fuel m (.trap cause tval) m') :
    cause ≠ causeIllegal := by
  cases h with
  | jumps => decide
  | ebreak => decide
  | ecall => cases m.hart.priv <;> decide
  | loads status | stores status => cases status <;> decide

theorem refuses_iff : m.refuses word = true ↔
    ∃ tval m', execute host fuel word m = .error (.trap causeIllegal tval) m' := by
  constructor
  · intro h
    exact ⟨word, m, execute_refuses h⟩
  · rintro ⟨tval, m', hx⟩
    by_contra hne
    have he : Executes host fuel word m (execute host fuel word) :=
      execute_ensures (eq_false_of_ne_true hne)
    unfold Executes Ensures at he
    rw [hx] at he
    exact he.cause_ne rfl

def Machine.Fetches (m : Machine) (word : Word) : Prop :=
  m.sample.enabled = 0 ∧ m.hart.pc &&& 3 = 0 ∧ fetch m.sample = .ok word m.sample

theorem Machine.Fetches.step_eq (h : m.Fetches word) : step host fuel m =
    match execute host fuel word m.sample with
    | .error (.trap cause tval) m' => .ok (.trapped m.hart.pc word cause tval, m'.trap cause tval)
    | .error e _ => .error e
    | .ok r m' => .ok (.retired m.hart.pc word, m'.retire word r) := by
  obtain ⟨hen, hpc, hf⟩ := h
  unfold step sampled
  have hpc' : m.sample.hart.pc &&& 3 = 0 := hpc
  rw [hen, if_neg (not_not.mpr rfl), hpc', if_neg (not_not.mpr rfl)]
  unfold instruction
  rw [hf]
  rfl

theorem step_illegal_iff (h : m.Fetches word) : m.refuses word = true ↔
    ∃ tval m', step host fuel m = .ok (.trapped m.hart.pc word causeIllegal tval, m') := by
  have hsample : m.refuses word = m.sample.refuses word := rfl
  rw [hsample, h.step_eq]
  constructor
  · intro hr
    rw [execute_refuses hr]
    exact ⟨word, _, rfl⟩
  · rintro ⟨tval, m', hs⟩
    apply refuses_iff.mpr
    split at hs
    next cause tval' m₁ hx =>
      cases hs
      exact ⟨tval, m₁, hx⟩
    next => cases hs
    next => cases hs

end Executes

end TinyProcessors.Emu
