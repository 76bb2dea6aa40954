import TinyProcessors.Emu.Dma
import TinyProcessors.Emu.Sound
import TinyProcessors.G3d.Bounds

namespace TinyProcessors.Emu

section Ticks

def g3dWrites (d : G3d.Device) : List Nat :=
  if d.moves .zwrite then [ramBase + d.zoff, ramBase + d.zoff + 1]
  else if d.moves .clear then
    let at_ := ramBase + wrap32 (d.job.zbase.toNat - 0x80000000 + 4 * d.index)
    [at_, at_ + 1, at_ + 2, at_ + 3]
  else if d.moves .pwrite then [fbBase + d.fbAt]
  else []

def Devices.tickWrites (d : Devices) : List Word :=
  (g3dWrites d.g3d ++ (d.gpu.fbWritten.map (fbBase + ·)).toList).map (BitVec.ofNat 32)

theorem snoops_lr (base : Nat) (at_ : Option Nat) (mem : Memory) : (snoops base at_ mem).lr =
    mem.lr.snoops ((at_.map (base + ·)).toList.map (BitVec.ofNat 32)) := by
  cases at_ with
  | none => rfl
  | some offset => exact Memory.snoop_lr _ _

theorem word_of_byte (h : a % 4 + k < 4) :
    BitVec.ofNat 32 (a + k) >>> 2 = BitVec.ofNat 32 a >>> 2 := by
  apply BitVec.eq_of_toNat_eq
  rw [BitVec.toNat_ushiftRight, BitVec.toNat_ushiftRight, BitVec.toNat_ofNat, BitVec.toNat_ofNat,
    Nat.shiftRight_eq_div_pow, Nat.shiftRight_eq_div_pow]
  omega

theorem snoops_congr (r : Reservation) {l l' : List Word}
    (h : ∀ p, (∃ w ∈ l, w >>> 2 = p) ↔ ∃ w ∈ l', w >>> 2 = p) : r.snoops l = r.snoops l' := by
  rw [Reservation.snoops_eq, Reservation.snoops_eq]
  simp only [h]

theorem snoops_append (r : Reservation) (l l' : List Word) :
    r.snoops (l ++ l') = (r.snoops l).snoops l' := List.foldl_append

theorem snoops_bytes (r : Reservation) (ks : List Nat) (h : ∀ k ∈ ks, a % 4 + k < 4)
    (hne : ks ≠ []) :
    r.snoops ((ks.map (a + ·)).map (BitVec.ofNat 32)) = r.snoops [BitVec.ofNat 32 a] := by
  apply snoops_congr
  intro p
  simp only [List.mem_map, List.mem_singleton, exists_eq_left, exists_exists_and_eq_and]
  constructor
  · rintro ⟨k, hk, hp⟩
    rwa [word_of_byte (h k hk)] at hp
  · intro hp
    obtain ⟨k, hk⟩ := List.exists_mem_of_ne_nil ks hne
    exact ⟨k, hk, by rwa [word_of_byte (h k hk)]⟩

theorem moves_iff (d : G3d.Device) (phase : G3d.Phase) : d.moves phase = true ↔
    d.commandTick = false ∧ d.status = .busy ∧ d.phase = phase := by
  unfold G3d.Device.moves
  simp only [Bool.and_eq_true, Bool.not_eq_true', decide_eq_true_eq, and_assoc]

theorem moves_ne {d : G3d.Device} (h : d.moves phase = true) (hne : phase ≠ phase') :
    d.moves phase' = false := by
  apply eq_false_of_ne_true
  intro h'
  exact hne (((moves_iff _ _).mp h).2.2.symm.trans ((moves_iff _ _).mp h').2.2)

structure DepthBuffer (zbase : Word) : Prop where
  aligned : zbase.toNat % 4 = 0
  start : 0x80000000 ≤ zbase.toNat
  stop : zbase.toNat + zBytes ≤ 0x81000000

theorem DepthBuffer.of_valid {d : G2} {w : Window} (h : d.valid w = true) : DepthBuffer d.zbase := by
  unfold G2.valid at h
  simp only [Bool.and_eq_true, decide_eq_true_eq, BitVec.le_def] at h
  obtain ⟨⟨⟨⟨⟨hal, hstart⟩, hstop⟩, -⟩, -⟩, -⟩ := h
  have hbase : (0x80000000 : Word).toNat = 0x80000000 := rfl
  rw [hbase] at hstart
  exact ⟨hal, hstart, by unfold zBytes at hstop ⊢; omega⟩

theorem DepthBuffer.of_moves {d : G3d.Device} (h : d.moves phase = true) (hne : phase ≠ .validate)
    (hw : d.status = .busy → d.Working) : DepthBuffer d.job.zbase := by
  obtain ⟨-, hb, hp⟩ := (moves_iff _ _).mp h
  obtain ⟨w, hv⟩ := (hw hb).valid (hp ▸ hne)
  exact .of_valid hv

theorem g3d_snoops {d : G3d.Device} (hw : d.status = .busy → d.Working) (r : Reservation) :
    r.snoops ((g3dWrites d).map (BitVec.ofNat 32)) =
      (r.snoops ((d.ramWritten.map (ramBase + ·)).toList.map (BitVec.ofNat 32))).snoops
        ((d.fbWritten.map (fbBase + ·)).toList.map (BitVec.ofNat 32)) := by
  unfold g3dWrites G3d.Device.ramWritten G3d.Device.fbWritten
  by_cases hz : d.moves .zwrite = true
  · have hal := (DepthBuffer.of_moves hz (by rintro ⟨⟩) hw).aligned
    have heven : (ramBase + d.zoff) % 4 + 1 < 4 := by
      unfold G3d.Device.zoff wrap32 ramBase
      omega
    rw [if_pos hz, if_pos hz, moves_ne hz (by rintro ⟨⟩)]
    exact snoops_bytes r [0, 1] (by simp; omega) (by simp)
  · by_cases hc : d.moves .clear = true
    · have hal := (DepthBuffer.of_moves hc (by rintro ⟨⟩) hw).aligned
      have hword : (ramBase + wrap32 (d.job.zbase.toNat - 0x80000000 + 4 * d.index)) % 4 = 0 := by
        unfold wrap32 ramBase
        omega
      rw [if_neg hz, if_neg hz, if_pos hc, if_pos hc, moves_ne hc (by rintro ⟨⟩)]
      exact snoops_bytes r [0, 1, 2, 3] (by simp; omega) (by simp)
    · rw [if_neg hz, if_neg hz, if_neg hc, if_neg hc]
      split
      next => rfl
      next => rfl

theorem tick_lr {d : Devices} (hw : d.g3d.status = .busy → d.g3d.Working) :
    d.tickAccelerators.mem.lr = d.mem.lr.snoops d.tickWrites := by
  unfold Devices.tickAccelerators Devices.tickWrites
  rw [List.map_append, snoops_append, g3d_snoops hw]
  dsimp only
  rw [snoops_lr, snoops_lr, snoops_lr]

variable {d : Devices}

end Ticks

section Reservation

variable {host : Host} {fuel : Nat} {m m₁ : Machine}

def Machine.dmaWrites (fuel : Nat) (m : Machine) (word : Word) : List Word :=
  match m.storeOf word with
  | none => []
  | some (va, width, value) =>
    match m.passing va .store 2 with
    | .error _ => []
    | .ok pa =>
      if Region.find pa.toNat width = some .virtio then
        virtioWrites fuel ⟨m.io.mem, m.io.virtio⟩ (pa.toNat - Region.virtio.base) width value
      else []

/-- The addresses that devices write in a step whose instruction retires. -/
def Machine.deviceWrites (host : Host) (fuel : Nat) (m : Machine) (word : Word) : List Word :=
  m.dmaWrites fuel word ++ match execute host fuel word m.sample with
    | .ok _ m₁ => m₁.io.tickWrites
    | .error _ _ => []

theorem Took.lr (h : Took fuel d offset width value r d') : d'.mem.lr = d.mem.lr.snoops
    (if r = .virtio then virtioWrites fuel ⟨d.mem, d.virtio⟩ offset width value else []) := by
  cases h with
  | virtio h => exact (virtioStore_written h).lr
  | plain hr =>
    rw [if_neg (by rintro rfl; simp at hr)]
    rfl
  | _ => rfl

theorem Stored.lr (h : Stored fuel m va width value m₁)
    (hstore : m.storeOf word = some (va, width, value)) :
    m₁.io.mem.lr = m.io.mem.lr.snoops (m.dmaWrites fuel word) := by
  obtain ⟨-, pa, region, io, hpa, hregion, hio, rfl⟩ := h
  unfold Machine.dmaWrites
  rw [hstore]
  dsimp only
  rw [hpa]
  dsimp only
  rw [hregion, (Region.store_took hio).lr]
  by_cases hv : region = .virtio
  · subst hv
    rw [if_pos rfl, if_pos rfl]
  · rw [if_neg hv, if_neg fun h => hv (Option.some.inj h)]

theorem virtioLoad_notify (v : VirtioBlk) (width : Nat) : virtioLoad v 0x050 width = none := by
  unfold virtioLoad
  split
  · rfl
  · rfl

theorem Swapped.lr (h : Swapped host fuel m va op operand old m₁) :
    m₁.io.mem.lr = m.io.mem.lr := by
  obtain ⟨-, pa, region, io, value, io', -, -, hload, -, hstore, rfl⟩ := h
  rw [(Region.store_took hstore).lr]
  obtain ⟨console, plic, input, rfl⟩ := Region.load_frame hload
  split
  next hv =>
    subst hv
    have hne : pa.toNat - Region.virtio.base ≠ 0x050 := by
      intro he
      rw [he] at hload
      change (virtioLoad m.io.virtio 0x050 4).map (·, m.io) = _ at hload
      rw [virtioLoad_notify] at hload
      cases hload
    unfold virtioWrites
    rw [if_neg fun hc => hne hc.2.1]
    rfl
  next => rfl

theorem Machine.dmaWrites_nil {m : Machine} (h : m.storeOf word = none) :
    m.dmaWrites fuel word = [] := by
  unfold Machine.dmaWrites
  rw [h]

theorem Executed.lr (h : Executed host fuel word m r m₁) :
    match holdOf word with
    | .keeps => m₁.io.mem.lr = m.io.mem.lr.snoops (m.dmaWrites fuel word)
    | .takes => ∃ pa, m.passing (m.rs1 word) .load 1 = .ok pa ∧
        m₁.io.mem.lr = ⟨true, m.rs1 word >>> 2, pa >>> 2⟩
    | .ends => m₁.io.mem.lr.reserved = false := by
  cases h with
  | computes fp r hnext hstore hhold =>
    rw [hhold, Machine.dmaWrites_nil hstore]
    rfl
  | loads fp rd dirty hl hstore hhold =>
    rw [hhold, Machine.dmaWrites_nil hstore]
    obtain ⟨-, -, region, io, -, hload, rfl⟩ := hl
    obtain ⟨console, plic, input, rfl⟩ := Region.load_frame hload
    rfl
  | stores hs hstore hhold =>
    rw [hhold]
    exact hs.lr hstore
  | reserves hl hhold =>
    rw [hhold]
    exact ⟨_, hl.passes, rfl⟩
  | conditional hc hhold =>
    rw [hhold]
    cases hc with
    | fails => rfl
    | succeeds => rfl
  | swaps hs hstore hhold =>
    rw [hhold, Machine.dmaWrites_nil hstore]
    exact hs.lr
  | @csr reg h hstore hhold =>
    rw [hhold, Machine.dmaWrites_nil hstore]
    by_cases hw : csrWrites word = true
    · rw [if_pos hw]
      by_cases hr : reg = .satp
      · subst hr
        rw [if_pos ⟨hw, rfl⟩]
        rfl
      · rw [if_neg fun h => hr h.2]
        unfold Machine.csrWrite
        rw [if_neg hr]
        rfl
    · rw [if_neg hw, if_neg fun h => hw h.1]
      rfl
  | mret h hhold | sret h hhold | sfence hhold =>
    rw [hhold]
    rfl

/-- A turn in which a reservation of the physical word `p` stays. -/
def Quiet (host : Host) (p : Word) : Machine × Act → Prop
  | (m, .step fuel (.retired _ word)) =>
    holdOf word = .keeps ∧ ∀ w ∈ m.deviceWrites host fuel word, w >>> 2 ≠ p
  | (_, .step _ _) => False
  | (_, _) => True

/-- A turn in which LR.W reserves the virtual word `v`, at the physical word `p`. -/
def Reserves (host : Host) (v p : Word) : Machine × Act → Prop
  | (m, .step fuel (.retired _ word)) => holdOf word = .takes ∧ m.rs1 word >>> 2 = v ∧
    (∃ pa, m.passing (m.rs1 word) .load 1 = .ok pa ∧ pa >>> 2 = p) ∧
    ∀ w ∈ m.deviceWrites host fuel word, w >>> 2 ≠ p
  | _ => False

def Reserved (host : Host) (past : List (Machine × Act)) (v p : Word) : Prop :=
  ∃ later turn earlier, past = later ++ turn :: earlier ∧ Reserves host v p turn ∧
    ∀ t ∈ later, Quiet host p t

theorem reserved_nil (v p : Word) : ¬Reserved host [] v p := by
  rintro ⟨later, turn, earlier, h, -⟩
  cases later with
  | nil => cases h
  | cons => cases h

theorem reserved_cons (turn : Machine × Act) (past : List (Machine × Act)) (v p : Word) :
    Reserved host (turn :: past) v p ↔
      Reserves host v p turn ∨ Quiet host p turn ∧ Reserved host past v p := by
  constructor
  · rintro ⟨later, t, earlier, h, ht, hquiet⟩
    cases later with
    | nil =>
      cases h
      exact .inl ht
    | cons t' later =>
      cases h
      exact .inr ⟨hquiet _ (.head _), later, t, earlier, rfl, ht, fun t h => hquiet t (.tail _ h)⟩
  · rintro (ht | ⟨hq, later, t, earlier, rfl, ht, hquiet⟩)
    · exact ⟨[], turn, past, rfl, ht, fun _ h => nomatch h⟩
    · exact ⟨turn :: later, t, earlier, rfl, ht, List.forall_mem_cons.mpr ⟨hq, hquiet⟩⟩

theorem storeOf_takes (m : Machine) (h : holdOf word = .takes) : m.storeOf word = none := by
  unfold holdOf at h
  unfold Machine.storeOf
  split at h
  next hop => rw [hop]
  next => split at h <;> cases h
  next => cases h

theorem g3dWorking_invariant :
    Devices.Invariant fun d => d.g3d.status = .busy → d.g3d.Working where
  kept fuel :=
    { load := fun _ _ _ _ h => h
      store := by
        intro d d' offset width value r ht h
        cases ht with
        | g3d hs => exact G3d.Device.store_working hs
        | _ => exact h
      reservation := fun _ _ h => h }
  tick d h := G3d.Board.tick_working (s := ⟨d.g3d, _, _⟩) h d.window false
  halt _ _ h := h

theorem Run.g3dWorking (h : Run host (reset boot) past m) (hb : m.io.g3d.status = .busy) :
    m.io.g3d.Working :=
  g3dWorking_invariant.run h (by rintro ⟨⟩) hb

theorem handle_lr {m : Machine} {count : Cpu → Cpu}
    (h : (m.handle count cause tval).io.halt ≠ .doubleFault) :
    (m.handle count cause tval).io.mem.lr.reserved = false := by
  unfold Machine.handle at h ⊢
  dsimp only at h ⊢
  split
  next hin =>
    rw [if_pos hin] at h
    exact absurd rfl h
  next => rfl

theorem retire_lr (hw : m.io.g3d.status = .busy → m.io.g3d.Working)
    (he : execute host fuel word m.sample = .ok r m₁) (hx : Executed host fuel word m.sample r m₁) :
    (m₁.retire word r).io.mem.lr = m₁.io.mem.lr.snoops m₁.io.tickWrites ∧
      m.deviceWrites host fuel word = m.dmaWrites fuel word ++ m₁.io.tickWrites := by
  refine ⟨tick_lr ((g3dWorking_invariant.kept fuel).executed hx hw), ?_⟩
  unfold Machine.deviceWrites
  rw [he]

theorem reservation_step (hw : m.io.g3d.status = .busy → m.io.g3d.Working)
    (hs : Stepped host fuel m r m') (hrun : m'.io.halt ≠ .doubleFault)
    (hpast : ∀ v p, Reserved host past v p ↔ m.io.mem.lr = ⟨true, v, p⟩) (v p : Word) :
    Reserved host ((m, .step fuel r) :: past) v p ↔ m'.io.mem.lr = ⟨true, v, p⟩ := by
  have hended {lr : Reservation} (h : lr.reserved = false) : lr ≠ ⟨true, v, p⟩ := by
    rintro rfl
    cases h
  -- A trap or an interrupt is neither quiet nor an LR.W.
  have hhandle (h : m'.io.mem.lr.reserved = false) :
      ((False : Prop) ∨ False ∧ Reserved host past v p) ↔ m'.io.mem.lr = ⟨true, v, p⟩ := by
    simp only [false_and, or_false, false_iff]
    exact hended h
  rw [reserved_cons]
  cases hs with
  | interrupts | misaligned | unfetched | refuses | traps => exact hhandle (handle_lr hrun)
  | @retires word r m₁ hf hr he hx =>
    obtain ⟨hlr, hwrites⟩ := retire_lr hw he hx
    have hexecuted := hx.lr
    have hrs1 : m.sample.rs1 word = m.rs1 word := rfl
    rw [hlr, Reservation.snoops_iff]
    unfold Reserves Quiet
    dsimp only
    rw [hwrites, List.forall_mem_append]
    cases hhold : holdOf word with
    | keeps =>
      rw [hhold] at hexecuted
      have hdma : m₁.io.mem.lr = m.io.mem.lr.snoops (m.dmaWrites fuel word) := hexecuted
      rw [hdma, Reservation.snoops_iff, hpast]
      simp only [reduceCtorEq, false_and, true_and, false_or]
      tauto
    | takes =>
      rw [hhold] at hexecuted
      obtain ⟨pa, hpa, hreserved⟩ := hexecuted
      have hpa' : m.passing (m.rs1 word) .load 1 = .ok pa := hpa
      rw [hreserved, hpa', m.dmaWrites_nil (storeOf_takes m hhold), hrs1]
      simp only [Except.ok.injEq, exists_eq_left', List.not_mem_nil, ne_eq, IsEmpty.forall_iff,
        implies_true, true_and, reduceCtorEq, false_and, or_false, Reservation.mk.injEq]
      tauto
    | ends =>
      rw [hhold] at hexecuted
      simp only [reduceCtorEq, false_and, false_or, false_iff, not_and]
      intro h
      exact absurd h (hended hexecuted)

theorem Run.reserved (h : Run host (reset boot) past m) (hrun : m.io.halt ≠ .doubleFault)
    (v p : Word) : Reserved host past v p ↔ m.io.mem.lr = ⟨true, v, p⟩ := by
  induction h generalizing v p with
  | start =>
    refine ⟨fun h => absurd h (reserved_nil v p), fun h => ?_⟩
    cases h
  | @turn past m act m' hpast hrun' ht ih =>
    have ih' := ih (by rw [hrun']; rintro ⟨⟩)
    have hother (hreserves : Reserves host v p (m, act) ↔ False)
        (hquiet : Quiet host p (m, act) ↔ True) :
        Reserved host ((m, act) :: past) v p ↔ m.io.mem.lr = ⟨true, v, p⟩ := by
      rw [reserved_cons, hreserves, hquiet, false_or, true_and]
      exact ih' v p
    cases ht with
    | step hlimit hs => exact reservation_step hpast.g3dWorking (hpast.stepped hs) hrun ih' v p
    | key | limit | close => exact hother .rfl .rfl

def isStoreConditional (word : Word) : Bool :=
  field word 0 7 = 0x2f && funct3 word = 2 &&
    amoValid (funct7 word / 4) (rs2Field word) = some .sc

theorem execute_storeConditional (h : isStoreConditional word = true) (m : Machine) :
    execute host fuel word m = storeConditional fuel word m := by
  unfold isStoreConditional at h
  simp only [Bool.and_eq_true, decide_eq_true_eq] at h
  obtain ⟨⟨hop, hf⟩, hamo⟩ := h
  have hfloat : floatingInstruction word = false := by
    unfold floatingInstruction
    rw [hop]
    rfl
  unfold execute
  rw [get_bind_apply, hfloat, Bool.and_false, if_neg Bool.false_ne_true, hop]
  change atomic host fuel word m = _
  unfold atomic
  rw [get_bind_apply, if_pos hf, hamo]

theorem storeConditional_free (hal : (m.rs1 word).toNat % 4 = 0)
    (h : m.io.holds (m.rs1 word) = false) : storeConditional fuel word m =
      .ok (m.result 1) { m with io := m.io.unreserve } := by
  have haligned : trapping storeCause (m.rs1 word) (aligned (m.rs1 word) 4) m = .ok () m := by
    unfold trapping aligned
    rw [if_neg (not_not.mpr hal)]
    rfl
  have hheld : held (m.rs1 word) m = .ok false m := by
    change (if m.io.holds (m.rs1 word) = true then _ else _ : Exec Bool) m = _
    rw [h, if_neg Bool.false_ne_true]
    rfl
  change EStateM.bind (trapping storeCause (m.rs1 word) (aligned (m.rs1 word) 4)) _ m = _
  unfold EStateM.bind
  rw [haligned]
  change EStateM.bind (held (m.rs1 word)) _ m = _
  unfold EStateM.bind
  rw [hheld]
  rfl

/-- The reservation of the past is for the word that an SC.W names. -/
def Machine.Holds (host : Host) (past : List (Machine × Act)) (m : Machine) (va : Word) : Prop :=
  ∃ p pa, Reserved host past (va >>> 2) p ∧ m.passing va .store 2 = .ok pa ∧ pa >>> 2 = p

def Machine.Writes (fuel : Nat) (m : Machine) (word : Word) (m₁ : Machine) : Prop :=
  ∃ m₂, Stored fuel m (m.rs1 word) 4 (m.rs2 word) m₂ ∧ m₁ = { m₂ with io := m₂.io.unreserve }

theorem holds_iff (hlr : ∀ v p, Reserved host past v p ↔ m.io.mem.lr = ⟨true, v, p⟩) (va : Word) :
    m.io.holds va = true ↔ ∃ p, Reserved host past (va >>> 2) p := by
  unfold Devices.holds
  rw [Bool.and_eq_true, decide_eq_true_eq]
  simp only [hlr]
  constructor
  · rintro ⟨hr, hv⟩
    exact ⟨m.io.mem.lr.reservationPa, by rw [← hr, ← hv]⟩
  · rintro ⟨p, hp⟩
    rw [hp]
    exact ⟨rfl, rfl⟩

theorem conditional_iff (hlr : ∀ v p, Reserved host past v p ↔ m.io.mem.lr = ⟨true, v, p⟩)
    (h : Conditional fuel word m r m₁) :
    (r.rd = some 0 ∧ m.Writes fuel word m₁ ↔ m.Holds host past (m.rs1 word)) ∧
    (¬m.Holds host past (m.rs1 word) → r.rd = some 1 ∧ m₁ = { m with io := m.io.unreserve }) := by
  cases h with
  | fails h =>
    have hnot : ¬m.Holds host past (m.rs1 word) := by
      rintro ⟨p, pa, hreserved, hpa, hp⟩
      obtain ⟨pa', hpa', hne⟩ := h ((holds_iff hlr _).mpr ⟨p, hreserved⟩)
      rw [hpa] at hpa'
      cases hpa'
      rw [(hlr _ _).mp hreserved] at hne
      exact hne hp
    refine ⟨iff_of_false ?_ hnot, fun _ => ⟨rfl, rfl⟩⟩
    rintro ⟨h0, -⟩
    cases h0
  | @succeeds pa m₂ hholds hpa hword hs =>
    obtain ⟨p, hreserved⟩ := (holds_iff hlr _).mp hholds
    have hp : pa >>> 2 = p := by rw [hword, (hlr _ _).mp hreserved]
    have hyes : m.Holds host past (m.rs1 word) := ⟨p, pa, hreserved, hpa, hp⟩
    exact ⟨iff_of_true ⟨rfl, m₂, hs, rfl⟩ hyes, fun hnot => absurd hyes hnot⟩

/-- An aligned SC.W stores exactly if the last LR.W's reservation still stands. -/
theorem store_conditional_iff (h : Run host (reset boot) past m) (hrun : m.io.halt = .running)
    (hf : m.Fetches word) (hsc : isStoreConditional word = true)
    (hal : (m.rs1 word).toNat % 4 = 0) (fuel : Nat) :
    (∀ m', step host fuel m = .ok (.retired m.hart.pc word, m') → ∃ r m₁,
      execute host fuel word m.sample = .ok r m₁ ∧ m' = m₁.retire word r ∧
      (r.rd = some 0 ∧ m.sample.Writes fuel word m₁ ↔ m.Holds host past (m.rs1 word)) ∧
      (¬m.Holds host past (m.rs1 word) →
        r.rd = some 1 ∧ m₁ = { m.sample with io := m.sample.io.unreserve })) ∧
    ((¬∃ p, Reserved host past (m.rs1 word >>> 2) p) →
      step host fuel m = .ok (.retired m.hart.pc word,
        Machine.retire { m.sample with io := m.sample.io.unreserve } word (m.result 1))) := by
  have hlr : ∀ v p, Reserved host past v p ↔ m.sample.io.mem.lr = ⟨true, v, p⟩ :=
    h.reserved (by rw [hrun]; rintro ⟨⟩)
  rw [hf.step_eq, execute_storeConditional hsc]
  constructor
  · intro m' hstep
    have hcond := @storeConditional_ensures host fuel word m.sample
    unfold Ensures at hcond
    cases he : storeConditional fuel word m.sample with
    | error e m₁ =>
      rw [he] at hstep
      cases e <;> cases hstep
    | ok r m₁ =>
      rw [he] at hstep hcond
      cases hstep
      exact ⟨r, m₁, rfl, rfl, conditional_iff hlr hcond⟩
  · intro hnone
    have hholds : m.sample.io.holds (m.rs1 word) = false :=
      eq_false_of_ne_true fun hh => hnone ((holds_iff hlr _).mp hh)
    rw [storeConditional_free (m := m.sample) hal hholds]
    rfl

/-- An SC.W with no LR.W before it returns 1, also where nothing is. -/
theorem store_conditional_iff_first : ∃ m,
    step ⟨fun _ _ _ _ _ => (0, 0), fun _ => 0, fun _ => .nothing, 100⟩ 0
      (reset (.bare fun a => (0x180023af#32 >>> (8 * (a - 0x80000000))).toNat.toUInt8)) =
        .ok (.retired 0x80000000 0x180023af, m) ∧
    m.hart.x 7 = 1 := by
  have hrun : Run ⟨fun _ _ _ _ _ => (0, 0), fun _ => 0, fun _ => .nothing, 100⟩
      (reset (.bare fun a => (0x180023af#32 >>> (8 * (a - 0x80000000))).toNat.toUInt8)) [] _ := .start
  have hfetches : Machine.Fetches
      (reset (.bare fun a => (0x180023af#32 >>> (8 * (a - 0x80000000))).toNat.toUInt8))
      0x180023af := ⟨rfl, rfl, rfl⟩
  refine ⟨_, (store_conditional_iff hrun rfl hfetches (by decide) rfl 0).2 ?_, rfl⟩
  rintro ⟨p, hp⟩
  exact reserved_nil _ p hp

end Reservation

end TinyProcessors.Emu
