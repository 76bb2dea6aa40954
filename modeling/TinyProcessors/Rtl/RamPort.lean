import TinyProcessors.Lib.Bytes

namespace TinyProcessors.RamPort

/-- A request to the RAM; a write makes `data` of the word. -/
structure Request where
  word : BitVec 30
  we : Bool
  data : Word → Word

inductive Kind
  | load | store | lr | sc | amo
  deriving DecidableEq

/-- A load or store to RAM; `data` is `amo_value` for an AMO, and else the store's lanes. -/
structure Access where
  kind : Kind
  word : BitVec 30
  data : Word → Word

def Access.locks (a : Access) : Bool := a.kind = .sc || a.kind = .amo

/-- The core in MEM or AMO_WRITE with an access to RAM, or in any other state. -/
inductive Core
  | mem (a : Access) (dataWaiting : Bool)
  | amoWrite (a : Access) (mdr : Word)
  | elsewhere

/-- The RAM, its arbiter's registers and what the core keeps for the A extension. -/
structure Soc where
  core : Core
  reserved : Bool
  reservationPa : BitVec 30
  preferGpu : Bool
  gpuGrantHeld : Bool
  ram : BitVec 30 → Word

/-- What a cycle brings from outside. -/
structure Cycle where
  engine : Option Request
  gpuMemoryHold : Bool
  emCancel : Bool
  memHold : Bool
  sourceLocked : Bool
  -- With the core elsewhere: a fetch, a page-table read or virtio's DMA; a lock for another
  -- window; what ends a reservation there; the access that MEM is entered with.
  other : Option Request
  otherLock : Bool
  ends : Bool
  enters : Option Access
  deriving Inhabited

namespace Soc

section Wires

variable (s : Soc) (i : Cycle)

def scAbort : Bool :=
  match s.core with
  | .mem a false => a.kind = .sc && !(s.reserved && s.reservationPa = a.word)
  | _ => false

def lockWait : Bool :=
  match s.core with
  | .mem a false => a.locks && !s.scAbort && s.gpuGrantHeld
  | _ => false

def memValid : Bool := !s.scAbort && !s.lockWait

def memLock : Bool :=
  match s.core with
  | .mem a _ => s.memValid && a.locks
  | .amoWrite .. => true
  | .elsewhere => i.otherLock

def side : Option Request :=
  match s.core with
  | .mem a _ =>
    if s.memValid && !i.memHold then some ⟨a.word, a.kind = .store || a.kind = .sc, a.data⟩
    else none
  | .amoWrite a mdr => if i.memHold then none else some ⟨a.word, true, fun _ => a.data mdr⟩
  | .elsewhere => i.other

def grantGpu : Bool :=
  i.engine.isSome && (s.gpuGrantHeld || (!s.memLock i && ((s.side i).isNone || s.preferGpu)))

def ramCpuFault : Bool :=
  match s.core with
  | .elsewhere => false
  | _ => i.sourceLocked && (s.side i).any (·.we)

/-- `ram_ready`, or `vio_ready`. -/
def ready : Bool := (s.side i).isSome && (s.ramCpuFault i || !s.grantGpu i)

/-- The request that the RAM serves. -/
def physical : Option Request :=
  if s.grantGpu i then if i.gpuMemoryHold then none else i.engine
  else if s.ramCpuFault i then none else s.side i

/-- `ram_device_write` to a word. -/
def deviceWrite (word : BitVec 30) : Bool :=
  (match s.core with | .elsewhere => true | _ => s.grantGpu i) &&
    (s.physical i).any fun r => r.we && r.word = word

/-- The word that an LR.W reserves. -/
def reserves : Option (BitVec 30) :=
  match s.core with
  | .mem a _ => if a.kind = .lr ∧ s.ready i then some a.word else none
  | _ => none

/-- A trap, or what else ends the reservation. -/
def ends : Bool :=
  match s.core with
  | .elsewhere => i.ends
  | _ => s.ready i && s.ramCpuFault i

def nextCore : Core :=
  match s.core with
  | .mem a _ =>
    if s.scAbort then .elsewhere
    else if !s.ready i then .mem a s.memValid
    else if a.kind = .amo ∧ !s.ramCpuFault i then .amoWrite a (s.ram a.word)
    else .elsewhere
  | .amoWrite .. => if s.ready i then .elsewhere else s.core
  | .elsewhere =>
    match i.enters with
    | some a => .mem a false
    | none => .elsewhere

def clock : Soc where
  core := s.nextCore i
  reserved := (s.reserves i).isSome ||
    s.reserved && !s.deviceWrite i s.reservationPa && !s.ends i
  reservationPa := (s.reserves i).getD s.reservationPa
  preferGpu := !i.emCancel &&
    if s.grantGpu i then i.gpuMemoryHold && s.preferGpu else s.ready i || s.preferGpu
  gpuGrantHeld := !i.emCancel && s.grantGpu i && i.gpuMemoryHold
  ram := match s.physical i with
    | some r => if r.we then Function.update s.ram r.word (r.data (s.ram r.word)) else s.ram
    | none => s.ram

end Wires

/-- The state after a reset and the cycles of `past`, the last one first. -/
def after (ram : BitVec 30 → Word) : (past : List Cycle) → Soc
  | [] => ⟨.elsewhere, false, 0, false, false, ram⟩
  | i :: past => (after ram past).clock i

/-- An LR.W has read the word, and no device has written it since. -/
def Untouched (ram : BitVec 30 → Word) (word : BitVec 30) : (past : List Cycle) → Prop
  | [] => False
  | i :: past => (after ram past).reserves i = some word ∨
      Untouched ram word past ∧ (after ram past).deviceWrite i word = false

section Steps

variable {s : Soc} {i : Cycle}

theorem grant_locked (hl : s.memLock i = true) (hh : s.gpuGrantHeld = false) :
    s.grantGpu i = false := by
  simp [grantGpu, hl, hh]

theorem deviceWrite_locked (hc : s.core ≠ .elsewhere) (hg : s.grantGpu i = false)
    (word : BitVec 30) : s.deviceWrite i word = false := by
  unfold deviceWrite
  split
  next h => exact absurd h hc
  next => rw [hg, Bool.false_and]

theorem ready_valid (hc : s.core = .mem a waiting) (hr : s.ready i = true) : s.memValid = true := by
  by_contra hv
  simp [ready, side, hc, hv] at hr

theorem ready_side (hg : s.grantGpu i = false) : s.ready i = (s.side i).isSome := by
  rw [ready, hg, Bool.not_false, Bool.or_true, Bool.and_true]

theorem clock_held (hg : s.grantGpu i = false) : (s.clock i).gpuGrantHeld = false := by
  unfold clock
  dsimp only
  rw [hg, Bool.and_false, Bool.false_and]

theorem physical_side (hg : s.grantGpu i = false) :
    s.physical i = if s.ramCpuFault i then none else s.side i := by
  rw [physical, hg, if_neg Bool.false_ne_true]

theorem clock_read (hg : s.grantGpu i = false) (hp : ∀ r ∈ s.side i, r.we = false) :
    (s.clock i).ram = s.ram := by
  unfold clock
  dsimp only
  rw [physical_side hg]
  split
  next r hr =>
    split at hr
    next => cases hr
    next => rw [hp r hr, if_neg Bool.false_ne_true]
  next => rfl

theorem clock_write (hg : s.grantGpu i = false) (hf : s.ramCpuFault i = false)
    (hs : s.side i = some ⟨word, true, data⟩) :
    (s.clock i).ram = Function.update s.ram word (data (s.ram word)) := by
  unfold clock
  dsimp only
  rw [physical_side hg, hf, if_neg Bool.false_ne_true, hs]
  rfl

theorem nextCore_waiting (h : s.nextCore i = .mem a true) :
    s.memValid = true ∧ ∃ w, s.core = .mem a w := by
  unfold nextCore at h
  split at h
  next hc =>
    split_ifs at h
    obtain ⟨rfl, hv⟩ := Core.mem.inj h
    exact ⟨hv, _, hc⟩
  next hc =>
    split_ifs at h
    cases hc.symm.trans h
  next => split at h <;> cases h

theorem nextCore_amo (h : s.nextCore i = .amoWrite a mdr) :
    (∃ w, s.core = .mem a w) ∧ a.kind = .amo ∧ s.ready i = true ∧ mdr = s.ram a.word ∨
      s.core = .amoWrite a mdr ∧ s.ready i = false := by
  unfold nextCore at h
  split at h
  next hc =>
    split_ifs at h with _ hr hk
    obtain ⟨rfl, rfl⟩ := Core.amoWrite.inj h
    exact .inl ⟨⟨_, hc⟩, hk.1, by simpa using hr, rfl⟩
  next =>
    split_ifs at h with hr
    exact .inr ⟨h, by simpa using hr⟩
  next => split at h <;> cases h

/-- What holds from a reset on; `u` are the words that no device has written since an LR.W. -/
structure Sound (s : Soc) (u : BitVec 30 → Prop) : Prop where
  reserved : s.reserved = true → u s.reservationPa
  waiting : s.core = .mem a true → a.locks = true →
    s.gpuGrantHeld = false ∧ (a.kind = .sc → u a.word)
  amo : s.core = .amoWrite a mdr → s.gpuGrantHeld = false ∧ s.ram a.word = mdr

/-- From the cycle on in which an SC.W or an AMO is presented no engine gets a grant. -/
theorem Sound.presented (h : Sound s u) (hc : s.core = .mem a w) (hl : a.locks = true)
    (hv : s.memValid = true) (i : Cycle) :
    s.grantGpu i = false ∧ (a.kind = .sc → u a.word) := by
  have hlock : s.memLock i = true := by simp [memLock, hc, hv, hl]
  cases w with
  | true =>
    obtain ⟨hh, hu⟩ := h.waiting hc hl
    exact ⟨grant_locked hlock hh, hu⟩
  | false =>
    have hv : s.scAbort = false ∧ s.lockWait = false := by simpa [memValid] using hv
    have hh : s.gpuGrantHeld = false := by simpa [lockWait, hc, hl, hv.1] using hv.2
    refine ⟨grant_locked hlock hh, fun hk => ?_⟩
    have hr : s.reserved = true ∧ s.reservationPa = a.word := by simpa [scAbort, hc, hk] using hv.1
    rw [← hr.2]
    exact h.reserved hr.1

theorem Sound.locked (h : Sound s u) (hc : s.core = .amoWrite a mdr) (i : Cycle) :
    s.grantGpu i = false :=
  grant_locked (by simp [memLock, hc]) (h.amo hc).1

theorem Sound.clock (h : Sound s u) (i : Cycle) : Sound (s.clock i) fun word =>
    s.reserves i = some word ∨ u word ∧ s.deviceWrite i word = false where
  reserved := by
    unfold Soc.clock
    dsimp only
    intro hr
    cases hw : s.reserves i with
    | some word => exact .inl rfl
    | none =>
      simp only [hw, Option.isSome_none, Bool.false_or, Bool.and_eq_true, Bool.not_eq_true'] at hr
      exact .inr ⟨h.reserved hr.1.1, hr.1.2⟩
  waiting := by
    intro a ha hl
    obtain ⟨hv, _, hc⟩ := nextCore_waiting ha
    obtain ⟨hg, hu⟩ := h.presented hc hl hv i
    have hno := deviceWrite_locked (by rw [hc]; rintro ⟨⟩) hg a.word
    exact ⟨clock_held hg, fun hk => .inr ⟨hu hk, hno⟩⟩
  amo := by
    intro a mdr ha
    obtain ⟨⟨_, hc⟩, hk, hr, rfl⟩ | ⟨hc, hr⟩ := nextCore_amo ha
    · have hg := (h.presented hc (by simp [Access.locks, hk]) (ready_valid hc hr) i).1
      exact ⟨clock_held hg, congrFun (clock_read hg (by simp [side, hc, hk])) a.word⟩
    · have hg := h.locked hc i
      have hs : s.side i = none := by simpa [ready_side hg] using hr
      refine ⟨clock_held hg, ?_⟩
      rw [← (h.amo hc).2]
      exact congrFun (clock_read hg (by simp [hs])) a.word

end Steps

section Runs

variable {ram : BitVec 30 → Word} {past : List Cycle} {i : Cycle}

theorem sound : Sound (after ram past) (Untouched ram · past) := by
  induction past with
  | nil => exact ⟨by rintro ⟨⟩, by rintro _ ⟨⟩, by rintro _ _ ⟨⟩⟩
  | cons i past ih => exact ih.clock i

/-- An AMO's write makes the AMO's value of the word as it is in that cycle, whatever the engines,
virtio-blk and the host have done since its read. -/
theorem amo_atomic (hc : (after ram past).core = .amoWrite a mdr)
    (hr : (after ram past).ready i = true) (hf : (after ram past).ramCpuFault i = false) :
    (after ram (i :: past)).ram =
      Function.update (after ram past).ram a.word (a.data ((after ram past).ram a.word)) := by
  have hg := sound.locked hc i
  rw [ready_side hg] at hr
  have hs : (after ram past).side i = some ⟨a.word, true, fun _ => a.data mdr⟩ := by
    unfold side at hr ⊢
    rw [hc] at hr ⊢
    dsimp only at hr ⊢
    split at hr
    next => cases hr
    next hm => rw [if_neg hm]
  rw [(sound.amo hc).2]
  exact clock_write hg hf hs

theorem amo_atomic_increment :
    (after (fun _ => 41) [{ (default : Cycle) with engine := some ⟨0, true, fun _ => 7⟩ }, default,
      { (default : Cycle) with enters := some ⟨.amo, 0, (· + 1)⟩ }]).ram =
      Function.update (fun _ => 41) 0 42 :=
  amo_atomic (a := ⟨.amo, 0, (· + 1)⟩) rfl rfl rfl

/-- An SC.W stores only over a word that no device has written since an LR.W read it. -/
theorem sc_untouched (hc : (after ram past).core = .mem a w) (hk : a.kind = .sc)
    (hr : (after ram past).ready i = true) : Untouched ram a.word past ∧
      ∀ word, (after ram past).deviceWrite i word = false := by
  obtain ⟨hg, hu⟩ := sound.presented hc (by simp [Access.locks, hk]) (ready_valid hc hr) i
  exact ⟨hu hk, deviceWrite_locked (by rw [hc]; rintro ⟨⟩) hg⟩

theorem sc_untouched_word : Untouched (fun _ => 0) 5
    [{ (default : Cycle) with enters := some ⟨.sc, 5, fun _ => 1⟩ }, default,
      { (default : Cycle) with enters := some ⟨.lr, 5, id⟩ }] :=
  (sc_untouched (i := default) (a := ⟨.sc, 5, fun _ => 1⟩) (w := false) rfl rfl rfl).1

/-- The cycles in which a request of the core or of virtio-blk has to wait. -/
def waits (s : Soc) : List Cycle → List Cycle
  | [] => []
  | i :: rest => if (s.side i).isSome && !s.ready i then i :: (s.clock i).waits rest else []

theorem waits_grant {s : Soc} (hs : (s.side i).isSome && !s.ready i) : s.grantGpu i = true := by
  by_contra hg
  rw [ready_side (Bool.eq_false_of_not_eq_true hg), Bool.and_not_self] at hs
  cases hs

/-- An engine keeps a request waiting for one access only, which ends when the hold does. -/
theorem waits_once (s : Soc) (run : List Cycle) :
    (s.waits run).countP (!·.gpuMemoryHold) ≤ 1 := by
  induction run generalizing s with
  | nil => exact Nat.zero_le 1
  | cons i rest ih =>
    unfold waits
    split
    next hw =>
      have hg := waits_grant hw
      cases hh : i.gpuMemoryHold with
      | true =>
        rw [List.countP_cons_of_neg (by simp [hh])]
        exact ih _
      | false =>
        have hnone : (s.clock i).waits rest = [] := by
          cases rest with
          | nil => rfl
          | cons j rest =>
            have hheld : (s.clock i).gpuGrantHeld = false := by simp [clock, hh]
            have hprefer : (s.clock i).preferGpu = false := by simp [clock, hg, hh]
            refine if_neg fun hw' => ?_
            have hg' := waits_grant hw'
            have hside : (s.clock i).side j = none := by
              simp only [grantGpu, hheld, hprefer, Bool.false_or, Bool.or_false, Bool.and_eq_true,
                Option.isNone_iff_eq_none] at hg'
              exact hg'.2.2
            simp [hside] at hw'
        rw [hnone]
        exact List.countP_le_length
    next => exact Nat.zero_le 1

end Runs

end Soc

end TinyProcessors.RamPort
