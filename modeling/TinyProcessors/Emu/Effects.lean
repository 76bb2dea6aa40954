import TinyProcessors.Emu.Step

namespace TinyProcessors.Emu

theorem walk_eq (ram : Nat → Word) (h : Hart) (va : Word) (kind : Kind) (priv : Priv)
    (hon : ¬(h.satp &&& 0x80000000 = 0 ∨ priv = .machine)) :
    walk ram h va kind priv [1, 0] ((h.satp &&& 0x3fffff).toNat * 2 ^ 12) =
      some (TinyProcessors.translate ram h va kind priv) := by
  rw [TinyProcessors.translate, if_neg hon]
  simp only [walk, walkLevel, ne_eq, one_ne_zero, not_false_eq_true, if_true, not_true_eq_false,
    if_false, false_or, true_or, decide_true, decide_false]
  cases readPte ram h ((h.satp &&& 0x3fffff).toNat * 2 ^ 12) (va >>> 22 &&& 0x3ff) with
  | error e => rfl
  | ok pte =>
    dsimp only
    by_cases hleaf : pte &&& (pteR ||| pteX) = 0
    · rw [if_pos hleaf, if_neg (not_not.mpr hleaf)]
      by_cases hbits : pte &&& (pteD ||| pteA ||| pteU) = 0
      · rw [if_neg (not_not.mpr hbits), if_neg (not_not.mpr hbits)]
        dsimp only
        cases readPte ram h ((pte >>> 10).toNat * 2 ^ 12) (va >>> 12 &&& 0x3ff) with
        | error e => rfl
        | ok pte' =>
          dsimp only
          by_cases hleaf' : pte' &&& (pteR ||| pteX) = 0
          · rw [if_pos hleaf', if_neg (not_not.mpr hleaf')]
          · rw [if_neg hleaf', if_pos hleaf']
      · rw [if_pos hbits, if_pos hbits]
    · rw [if_neg hleaf, if_pos hleaf]

def Machine.translate (m : Machine) (va : Word) (kind : Kind) (priv : Priv) : Except Refusal Word :=
  TinyProcessors.translate m.io.mem.ram.word m.hart va kind priv

theorem translated_eq (va : Word) (kind : Kind) (priv : Priv) (m : Machine) :
    translated va kind priv m = match m.translate va kind priv with
      | .ok address => .ok address m
      | .error e => .error (.denied (Refusal.status e)) m := by
  unfold Machine.translate
  by_cases hoff : m.hart.satp &&& 0x80000000 = 0 ∨ priv = .machine
  · change (if m.hart.satp &&& 0x80000000 = 0 ∨ priv = .machine then pure va else _ : Exec Word) m = _
    rw [if_pos hoff, TinyProcessors.translate, if_pos hoff]
    rfl
  · change (if m.hart.satp &&& 0x80000000 = 0 ∨ priv = .machine then pure va else _ : Exec Word) m = _
    rw [if_neg hoff, walk_eq _ _ _ _ _ hoff]
    cases TinyProcessors.translate m.io.mem.ram.word m.hart va kind priv with
    | ok address => rfl
    | error e => rfl

def Machine.passing (m : Machine) (va : Word) (kind : Kind) (need : BitVec 8) :
    Except MemAccess Word :=
  match m.translate va kind m.hart.dataPriv with
  | .error e => .error (Refusal.status e)
  | .ok address =>
    if pmpAllows m.hart.dataPriv m.hart address need then .ok address else .error .fault

theorem reached_eq (va : Word) (kind : Kind) (need : BitVec 8) (m : Machine) :
    reached va kind need m = match m.passing va kind need with
      | .ok address => .ok address m
      | .error status => .error (.denied status) m := by
  unfold Machine.passing
  change EStateM.bind (translated va kind m.hart.dataPriv) _ m = _
  unfold EStateM.bind
  rw [translated_eq]
  cases m.translate va kind m.hart.dataPriv with
  | error e => rfl
  | ok address =>
    dsimp only
    split_ifs
    · rfl
    · rfl

def Denied (m : Machine) (e : Exit) (m' : Machine) : Prop := m' = m ∧ ∃ status, e = .denied status

structure Loaded (host : Host) (m : Machine) (va : Word) (width : Nat) (r : Word × Word)
    (m' : Machine) : Prop where
  aligned : va.toNat % width = 0
  passes : m.passing va .load 1 = .ok r.2
  answers : ∃ region io, Region.find r.2.toNat width = some region ∧
    region.load host m.cpu.steps m.io (r.2.toNat - region.base) width = some (r.1, io) ∧
    m' = { m with io }

theorem Loaded.cpu (h : Loaded host m va width r m') : m'.cpu = m.cpu := by
  obtain ⟨-, -, region, io, -, -, rfl⟩ := h
  rfl

structure Stored (fuel : Nat) (m : Machine) (va : Word) (width : Nat) (value : Word)
    (m' : Machine) : Prop where
  aligned : va.toNat % width = 0
  takes : ∃ pa region io, m.passing va .store 2 = .ok pa ∧ Region.find pa.toNat width = some region ∧
    region.store fuel m.cpu.steps m.io (pa.toNat - region.base) width value = .ok io ∧
    m' = { m with io }

structure Swapped (host : Host) (fuel : Nat) (m : Machine) (va : Word) (op : AmoOp) (operand : Word)
    (old : Word) (m' : Machine) : Prop where
  aligned : va.toNat % 4 = 0
  takes : ∃ pa region io value io', m.passing va .store 3 = .ok pa ∧
    Region.find pa.toNat 4 = some region ∧
    region.load host m.cpu.steps m.io (pa.toNat - region.base) 4 = some (old, io) ∧
    amoValue op old operand = some value ∧
    region.store fuel m.cpu.steps io (pa.toNat - region.base) 4 value = .ok io' ∧
    m' = { m with io := io' }

def Exit.stored (e : Exit) : Prop := e = .spins ∨ ∃ status, e = .denied status

theorem granted_error (h : Region.granted o = .error e) : e = .denied .fault := by
  cases o with
  | none =>
    cases h
    rfl
  | some a => cases h

theorem Region.store_error {r : Region} (h : r.store fuel steps d offset width value = .error e) :
    e.stored := by
  have hgranted {α : Type} {o : Option α} (h : Region.granted o = .error e) : e.stored :=
    .inr ⟨.fault, granted_error h⟩
  cases r with
  | virtio =>
    change Region.virtioAccess fuel d offset width value = _ at h
    unfold Region.virtioAccess at h
    split at h
    next =>
      cases h
      exact .inl rfl
    next => cases h
    next status _ _ _ =>
      cases h
      exact .inr ⟨status, rfl⟩
  | bootrom | input =>
    cases h
    exact .inr ⟨_, rfl⟩
  | _ => exact hgranted h

theorem onBus_eq (f : Machine → Except Exit (α × Devices)) (m : Machine) :
    onBus f m = match f m with
      | .error e => .error e m
      | .ok (a, io) => .ok a { m with io } := by
  change (match f m with
    | .error e => throw e
    | .ok (a, io) => do
      set { m with io }
      return a : Exec α) m = _
  cases f m with
  | error e => rfl
  | ok r => rfl

theorem aligned_ensures (va : Word) (width : Nat) (m : Machine) :
    Ensures (aligned va width) m (fun _ m' => m' = m ∧ va.toNat % width = 0) (Denied m) := by
  unfold aligned
  split
  next => exact ⟨rfl, _, rfl⟩
  next h => exact ⟨rfl, not_not.mp h⟩

theorem reached_ensures (va : Word) (kind : Kind) (need : BitVec 8) (m : Machine) :
    Ensures (reached va kind need) m
      (fun pa m' => m' = m ∧ m.passing va kind need = .ok pa) (Denied m) := by
  unfold Ensures
  rw [reached_eq]
  cases m.passing va kind need with
  | ok pa => exact ⟨rfl, rfl⟩
  | error status => exact ⟨rfl, status, rfl⟩

theorem window_ensures (pa : Word) (width : Nat) (m : Machine) :
    Ensures (window pa width) m
      (fun r m' => m' = m ∧ Region.find pa.toNat width = some r) (Denied m) := by
  unfold window
  cases Region.find pa.toNat width with
  | none => exact ⟨rfl, _, rfl⟩
  | some r => exact ⟨rfl, rfl⟩

theorem loadFrom_ensures (host : Host) (r : Region) (pa : Word) (width : Nat) (m : Machine) :
    Ensures (loadFrom host r pa width) m
      (fun v m' => ∃ io, r.load host m.cpu.steps m.io (pa.toNat - r.base) width = some (v, io) ∧
        m' = { m with io }) (Denied m) := by
  unfold Ensures loadFrom
  rw [onBus_eq]
  cases r.load host m.cpu.steps m.io (pa.toNat - r.base) width with
  | none => exact ⟨rfl, _, rfl⟩
  | some a => exact ⟨a.2, rfl, rfl⟩

theorem storeTo_ensures (fuel : Nat) (r : Region) (pa : Word) (width : Nat) (value : Word)
    (m : Machine) :
    Ensures (storeTo fuel r pa width value) m
      (fun _ m' => ∃ io, r.store fuel m.cpu.steps m.io (pa.toNat - r.base) width value = .ok io ∧
        m' = { m with io }) (fun e m' => m' = m ∧ e.stored) := by
  unfold Ensures storeTo
  rw [onBus_eq]
  cases h : r.store fuel m.cpu.steps m.io (pa.toNat - r.base) width value with
  | error e => exact ⟨rfl, Region.store_error h⟩
  | ok io => exact ⟨io, rfl, rfl⟩

theorem access_ensures {k : Word → Region → Exec α}
    (h : ∀ pa r, va.toNat % width = 0 → m.passing va kind need = .ok pa →
      Region.find pa.toNat width = some r → Ensures (k pa r) m Q E)
    (hE : ∀ e m', Denied m e m' → E e m') :
    Ensures (do
      aligned va width
      let pa ← reached va kind need
      let r ← window pa width
      k pa r) m Q E := by
  refine .bind (.mono (aligned_ensures va width m) ?_ hE)
  rintro _ _ ⟨rfl, hal⟩
  refine .bind (.mono (reached_ensures va kind need _) ?_ hE)
  rintro pa _ ⟨rfl, hpa⟩
  refine .bind (.mono (window_ensures pa width _) ?_ hE)
  rintro r _ ⟨rfl, hr⟩
  exact h pa r hal hpa hr

theorem load_ensures (host : Host) (va : Word) (width : Nat) (m : Machine) :
    Ensures (load host va width) m (Loaded host m va width) (Denied m) := by
  refine access_ensures (fun pa r hal hpa hr => ?_) fun _ _ h => h
  refine .bind (.mono (loadFrom_ensures host r pa width m) ?_ fun _ _ h => h)
  rintro v _ ⟨io, hv, rfl⟩
  exact ⟨hal, hpa, r, io, hr, hv, rfl⟩

theorem store_ensures (fuel : Nat) (va : Word) (width : Nat) (value : Word) (m : Machine) :
    Ensures (store fuel va width value) m (fun _ => Stored fuel m va width value)
      (fun e m' => m' = m ∧ e.stored) := by
  refine access_ensures (fun pa r hal hpa hr => ?_) fun _ _ h => ⟨h.1, .inr h.2⟩
  refine .mono (storeTo_ensures fuel r pa width value m) ?_ fun _ _ h => h
  rintro _ _ ⟨io, hio, rfl⟩
  exact ⟨hal, pa, r, io, hpa, hr, hio, rfl⟩

structure HalfSwapped (host : Host) (fuel : Nat) (m : Machine) (va : Word) (m' : Machine) : Prop where
  aligned : va.toNat % 4 = 0
  takes : ∃ pa region old io value, m.passing va .store 3 = .ok pa ∧
    Region.find pa.toNat 4 = some region ∧
    region.load host m.cpu.steps m.io (pa.toNat - region.base) 4 = some (old, io) ∧
    (∀ io', region.store fuel m.cpu.steps io (pa.toNat - region.base) 4 value ≠ .ok io') ∧
    m' = { m with io }

theorem amo_ensures (host : Host) (fuel : Nat) (va : Word) (op : AmoOp) (operand : Word)
    (hl : op ≠ .lr) (hs : op ≠ .sc) (m : Machine) :
    Ensures (amo host fuel va op operand) m (Swapped host fuel m va op operand)
      (fun e m' => e.stored ∧ (m' = m ∨ HalfSwapped host fuel m va m')) := by
  refine access_ensures (fun pa r hal hpa hr => ?_) fun _ _ h => ⟨.inr h.2, .inl h.1⟩
  refine .bind (.mono (loadFrom_ensures host r pa 4 m) ?_ fun _ _ h => ⟨.inr h.2, .inl h.1⟩)
  rintro old _ ⟨io, hold, rfl⟩
  cases hv : amoValue op old operand with
  | none => cases op <;> contradiction
  | some value =>
    have hstore := storeTo_ensures fuel r pa 4 value { m with io }
    dsimp only
    refine .bind ?_
    unfold Ensures at hstore ⊢
    cases he : storeTo fuel r pa 4 value { m with io } with
    | ok u m' =>
      rw [he] at hstore
      obtain ⟨io', hio', rfl⟩ := hstore
      exact ⟨hal, pa, r, io, value, io', hpa, hr, hold, hv, hio', rfl⟩
    | error e m' =>
      rw [he] at hstore
      obtain ⟨rfl, hexit⟩ := hstore
      refine ⟨hexit, .inr ⟨hal, pa, r, old, io, value, hpa, hr, hold, ?_, rfl⟩⟩
      intro io' hio'
      unfold storeTo at he
      rw [onBus_eq] at he
      dsimp only at he
      rw [hio'] at he
      cases he

section Devices

variable {d d' : Devices}

theorem Region.load_frame {r : Region} (h : r.load host steps d offset width = some (v, d')) :
    ∃ console plic input, d' = { d with console, plic, input } := by
  have hsame {o : Option Word} (h : o.map (·, d) = some (v, d')) :
      ∃ console plic input, d' = { d with console, plic, input } := by
    obtain ⟨_, -, ho⟩ := Option.map_eq_some_iff.mp h
    cases ho
    exact ⟨d.console, d.plic, d.input, rfl⟩
  cases r with
  | console =>
    obtain ⟨a, -, ho⟩ := Option.map_eq_some_iff.mp h
    cases ho
    exact ⟨a.2, d.plic, d.input, rfl⟩
  | plic =>
    obtain ⟨a, -, ho⟩ := Option.map_eq_some_iff.mp h
    cases ho
    exact ⟨d.console, a.2, d.input, rfl⟩
  | input =>
    obtain ⟨a, -, ho⟩ := Option.map_eq_some_iff.mp h
    cases ho
    exact ⟨d.console, d.plic, a.2, rfl⟩
  | done =>
    change (if width = 4 ∧ offset = 0 then some (0, d) else none) = _ at h
    split at h
    next =>
      cases h
      exact ⟨d.console, d.plic, d.input, rfl⟩
    next => cases h
  | bootrom | ram =>
    cases h
    exact ⟨d.console, d.plic, d.input, rfl⟩
  | _ => exact hsame h

inductive Took (fuel : Nat) (d : Devices) (offset width : Nat) (value : Word) :
    Region → Devices → Prop
  | ram (hsource : d.gpu.toG1.sourceLocked (ramBase + offset) width = false)
    (hdepth : d.g3d.toG2.zLocked (ramBase + offset) width = false) :
    Took fuel d offset width value .ram
      { d with mem := { d.mem with ram := d.mem.ram.write (ramBase + offset) width value } }
  | framebuffer (h : d.engineBusy = false) :
    Took fuel d offset width value .framebuffer
      { d with mem := { d.mem with fb := d.mem.fb.write offset width value } }
  | present (h : d.engineBusy = false) : Took fuel d offset width value .display d.present
  | gpu (h : d.gpu.store offset value = some gpu)
    (hstart : ¬(offset = 0 ∧ value = gpuStart ∧ d.g3d.status = .busy)) :
    Took fuel d offset width value .gpu { d with gpu }
  | g3d (h : d.g3d.store offset value (d.gpu.status = .busy) = some g3d) :
    Took fuel d offset width value .g3d { d with g3d }
  | window (window : Window) : Took fuel d offset width value .dmaWindow { d with window }
  | virtio (h : virtioStore fuel ⟨d.mem, d.virtio⟩ offset width value = some (.ok, s)) :
    Took fuel d offset width value .virtio { d with mem := s.mem, virtio := s.v }
  | done : Took fuel d offset width value .done { d with halt := .done, doneWord := value }
  | plain (hr : r ∈ [.console, .clint, .plic, .palette, .simd4, .simd4Program, .simd4Data])
    (console : Console) (clint : Clint) (plic : Plic) (palette : BitVec 8 → Word)
    (simd : Simd.Device) :
    Took fuel d offset width value r { d with console, clint, plic, palette, simd }

theorem granted_ok (h : Region.granted o = .ok a) : o = some a := by
  cases o with
  | none => cases h
  | some b =>
    cases h
    rfl

theorem Region.store_took {r : Region} (h : r.store fuel steps d offset width value = .ok d') :
    Took fuel d offset width value r d' := by
  cases r with
  | ram =>
    have h' := granted_ok h
    unfold Devices.ramStore at h'
    split at h'
    next => cases h'
    next hs =>
      split at h'
      next => cases h'
      next hz =>
        cases h'
        exact .ram (eq_false_of_ne_true hs) (eq_false_of_ne_true hz)
  | framebuffer =>
    have h' := granted_ok h
    unfold Devices.fbStore at h'
    split at h'
    next => cases h'
    next hb =>
      cases h'
      exact .framebuffer (eq_false_of_ne_true hb)
  | display =>
    have h' := granted_ok h
    unfold Devices.displayStore at h'
    split at h'
    next =>
      split at h'
      next => cases h'
      next hb =>
        cases h'
        exact .present (eq_false_of_ne_true hb)
    next => cases h'
  | gpu =>
    have h' := granted_ok h
    unfold Devices.gpuStore at h'
    split at h'
    next => cases h'
    next hstart =>
      split at h'
      next => cases h'
      next =>
        obtain ⟨gpu, hg, hd⟩ := Option.map_eq_some_iff.mp h'
        cases hd
        exact .gpu hg hstart
  | g3d =>
    have h' := granted_ok h
    unfold Devices.g3dStore at h'
    split at h'
    next => cases h'
    next =>
      obtain ⟨g3d, hg, hd⟩ := Option.map_eq_some_iff.mp h'
      cases hd
      exact .g3d hg
  | dmaWindow =>
    have h' := granted_ok h
    unfold Devices.windowStore at h'
    split at h'
    next => cases h'
    next =>
      split at h'
      next =>
        cases h'
        exact .window _
      next =>
        split at h'
        next =>
          cases h'
          exact .window _
        next => cases h'
  | done =>
    have h' := granted_ok h
    unfold Devices.doneStore at h'
    split at h'
    next =>
      cases h'
      exact .done
    next => cases h'
  | virtio =>
    change Region.virtioAccess fuel d offset width value = _ at h
    unfold Region.virtioAccess at h
    split at h
    next => cases h
    next hs =>
      cases h
      exact .virtio hs
    next => cases h
  | console =>
    obtain ⟨console, -, hd⟩ := Option.map_eq_some_iff.mp (granted_ok h)
    cases hd
    exact .plain (by decide) console d.clint d.plic d.palette d.simd
  | clint =>
    obtain ⟨clint, -, hd⟩ := Option.map_eq_some_iff.mp (granted_ok h)
    cases hd
    exact .plain (by decide) d.console clint d.plic d.palette d.simd
  | plic =>
    obtain ⟨plic, -, hd⟩ := Option.map_eq_some_iff.mp (granted_ok h)
    cases hd
    exact .plain (by decide) d.console d.clint plic d.palette d.simd
  | palette =>
    have h' := granted_ok h
    unfold Devices.paletteStore at h'
    split at h'
    next => cases h'
    next =>
      cases h'
      exact .plain (by decide) d.console d.clint d.plic _ d.simd
  | simd4 | simd4Program | simd4Data =>
    obtain ⟨simd, -, hd⟩ := Option.map_eq_some_iff.mp (granted_ok h)
    cases hd
    exact .plain (by decide) d.console d.clint d.plic d.palette simd
  | bootrom => cases h
  | input => cases h

end Devices

end TinyProcessors.Emu
