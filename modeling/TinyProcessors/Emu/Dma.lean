import TinyProcessors.Emu.Requests

namespace TinyProcessors

section Snoop

def Reservation.snoop (r : Reservation) (address : Word) : Reservation :=
  if r.reserved ∧ address >>> 2 = r.reservationPa then { r with reserved := false } else r

def Reservation.snoops (r : Reservation) (writes : List Word) : Reservation :=
  writes.foldl Reservation.snoop r

theorem Memory.snoop_lr (mem : Memory) (address : Word) :
    (mem.snoopDeviceWrite address).lr = mem.lr.snoop address := by
  unfold Memory.snoopDeviceWrite Reservation.snoop
  split
  · rfl
  · rfl

theorem Reservation.snoops_eq (r : Reservation) (writes : List Word) : r.snoops writes =
    if r.reserved ∧ ∃ w ∈ writes, w >>> 2 = r.reservationPa then { r with reserved := false }
    else r := by
  induction writes generalizing r with
  | nil => simp [Reservation.snoops]
  | cons w writes ih =>
    change Reservation.snoops (r.snoop w) writes = _
    rw [ih]
    unfold Reservation.snoop
    by_cases hr : r.reserved = true
    · by_cases hw : w >>> 2 = r.reservationPa
      · simp [hr, hw]
      · simp [hr, hw]
    · simp [hr]

theorem Reservation.snoops_iff (r : Reservation) (writes : List Word) (v p : Word) :
    r.snoops writes = ⟨true, v, p⟩ ↔ r = ⟨true, v, p⟩ ∧ ∀ w ∈ writes, w >>> 2 ≠ p := by
  rw [Reservation.snoops_eq]
  constructor
  · intro h
    split at h
    next => cases h
    next hnot =>
      subst h
      exact ⟨rfl, fun w hw hp => hnot ⟨rfl, w, hw, hp⟩⟩
  · rintro ⟨rfl, hw⟩
    rw [if_neg]
    rintro ⟨-, w, hm, hp⟩
    exact hw w hm hp

end Snoop

abbrev DmaAccess := Bool × Word

abbrev DmaAccess.inRam (a : DmaAccess) : Bool := dmaWord a.2

def dmaWrites (log : List DmaAccess) : List Word := (log.filter (·.1)).map (·.2)

/-- What the accesses of a log do to a reservation and to the bytes of RAM. -/
structure Blk.Follows (s : Blk) (log : List DmaAccess) (s' : Blk) : Prop where
  lr : s'.mem.lr = s.mem.lr.snoops (dmaWrites log)
  ram : ∀ a, (∀ w ∈ dmaWrites log, w.toNat / 4 ≠ a / 4) → s'.mem.ram a = s.mem.ram a
  fb : s'.mem.fb = s.mem.fb
  queue : s.v.SameQueue s'.v

theorem Blk.Follows.refl (s : Blk) : s.Follows [] s := ⟨rfl, fun _ _ => rfl, rfl, .refl _⟩

theorem Blk.Follows.trans (h : Blk.Follows s l s') (h' : Blk.Follows s' l' s'') :
    Blk.Follows s (l ++ l') s'' := by
  have hw : dmaWrites (l ++ l') = dmaWrites l ++ dmaWrites l' := by
    unfold dmaWrites
    rw [List.filter_append, List.map_append]
  refine ⟨?_, fun a ha => ?_, h'.fb.trans h.fb, h.queue.trans h'.queue⟩
  · rw [h'.lr, h.lr, hw]
    exact List.foldl_append.symm
  · rw [hw] at ha
    exact (h'.ram a fun w hm => ha w (List.mem_append.mpr (.inr hm))).trans
      (h.ram a fun w hm => ha w (List.mem_append.mpr (.inl hm)))

def Logs (x : Service α) (s : Blk) (log : List DmaAccess) : Prop :=
  Ensures x s (fun _ s' => s.Follows log s' ∧ ∀ a ∈ log, a.inRam = true)
    (fun _ s' => s.Follows (log.takeWhile (·.inRam)) s' ∧ ¬∀ a ∈ log, a.inRam = true)

theorem takeWhile_append_of_all {p : α → Bool} (h : ∀ a ∈ l, p a = true) (l' : List α) :
    (l ++ l').takeWhile p = l ++ l'.takeWhile p := List.takeWhile_append_of_pos h

theorem takeWhile_append_of_not {p : α → Bool} (h : ¬∀ a ∈ l, p a = true) (l' : List α) :
    (l ++ l').takeWhile p = l.takeWhile p := by
  induction l with
  | nil => exact absurd (by simp) h
  | cons a l ih =>
    rw [List.cons_append, List.takeWhile_cons, List.takeWhile_cons]
    cases hp : p a with
    | false => rfl
    | true =>
      have hl : ¬∀ a ∈ l, p a = true := by
        intro hall
        exact h (List.forall_mem_cons.mpr ⟨hp, hall⟩)
      simp only [if_true]
      rw [ih hl]

theorem Logs.bind {x : Service α} {k : α → Service β} (hx : Logs x s l)
    (hk : ∀ a s', s.Follows l s' → Logs (k a) s' l') : Logs (x >>= k) s (l ++ l') := by
  refine Ensures.bind (Ensures.mono hx ?_ ?_)
  · rintro a s' ⟨hf, hall⟩
    refine Ensures.mono (hk a s' hf) ?_ ?_
    · rintro b s'' ⟨hf', hall'⟩
      exact ⟨hf.trans hf', List.forall_mem_append.mpr ⟨hall, hall'⟩⟩
    · rintro e s'' ⟨hf', hall'⟩
      rw [takeWhile_append_of_all hall]
      exact ⟨hf.trans hf', fun h => hall' (List.forall_mem_append.mp h).2⟩
  · rintro e s' ⟨hf, hall⟩
    rw [takeWhile_append_of_not hall]
    exact ⟨hf, fun h => hall (List.forall_mem_append.mp h).1⟩

theorem Logs.pure (a : α) (s : Blk) : Logs (pure a : Service α) s [] :=
  ⟨.refl s, by simp⟩

theorem Logs.read {k : Blk → Service α} (h : Logs (k s) s l) : Logs (get >>= k) s l := h

theorem dmaWrite_logs (address value strobe : Word) (s : Blk) :
    Logs (dmaWrite address value strobe) s [(true, address)] := by
  refine .read ?_
  unfold Memory.dmaWrite
  split
  next h =>
    refine ⟨⟨Memory.snoop_lr _ _, fun a ha => ?_, Memory.snoop_fb _ _, .refl _⟩, by simpa using h⟩
    change Bytes.strobe (s.mem.snoopDeviceWrite address).ram _ value strobe a = _
    have hne : address.toNat / 4 ≠ a / 4 := ha address (by simp [dmaWrites])
    rw [strobe_of_not, Memory.snoop_ram]
    rintro ⟨hl, hh, -⟩
    rw [wordStart] at hl hh
    omega
  next h =>
    have hout : dmaWord address = false := eq_false_of_ne_true h
    refine ⟨?_, by simpa using hout⟩
    simp only [List.takeWhile_cons, DmaAccess.inRam, hout]
    exact .refl s

theorem moveIn_logs (sector buffer : Word) (i : Nat) (s : Blk) :
    Logs (moveIn sector buffer i) s [(true, buffer + 4 * BitVec.ofNat 32 i)] := by
  refine .read ?_
  exact dmaWrite_logs _ _ _ s

theorem moveOut_logs (sector buffer : Word) (i : Nat) (s : Blk) :
    Logs (moveOut sector buffer i) s [(false, buffer + 4 * BitVec.ofNat 32 i)] := by
  refine .read ?_
  unfold dmaRead
  dsimp only
  cases h : dmaWord (buffer + 4 * BitVec.ofNat 32 i) with
  | true => exact ⟨⟨rfl, fun _ _ => rfl, rfl, rfl⟩, by simpa using h⟩
  | false =>
    refine ⟨?_, by simpa using h⟩
    simp only [List.takeWhile_cons, DmaAccess.inRam, h]
    exact ⟨rfl, fun _ _ => rfl, rfl, s.v.diskWritten_same⟩

theorem Logs.forM {f : Nat → Service PUnit} {a : Nat → DmaAccess}
    (h : ∀ i s, Logs (f i) s [a i]) (l : List Nat) (s : Blk) : Logs (l.forM f) s (l.map a) := by
  induction l generalizing s with
  | nil => exact .pure _ s
  | cons i l ih => exact .bind (h i s) fun _ s' _ => ih s'

def dataLog (h : Header) (drive : Drive) (data : Descriptor) : List DmaAccess :=
  if 1 < h.type ∨ h.fits drive data = false then []
  else (List.range (data.length.toNat / 4)).map fun i =>
    (decide (h.type = 0), data.address + 4 * BitVec.ofNat 32 i)

def usedLog (c : Chain) (v : VirtioBlk) : List DmaAccess :=
  let used := v.deviceLo + 4 + 8 * (v.usedIdx.setWidth 32 &&& (v.queueNum - 1))
  [(true, c.status.address), (true, used), (true, used + 4), (true, v.deviceLo + 2)]

theorem moveData_logs (h : Header) (data : Descriptor) (s : Blk) :
    Logs (moveData h data) s ((List.range (data.length.toNat / 4)).map fun i =>
      (decide (h.type = 0), data.address + 4 * BitVec.ofNat 32 i)) := by
  unfold moveData
  split
  next ht =>
    rw [decide_eq_true ht]
    exact Logs.forM (fun i s => moveIn_logs h.sector data.address i s) _ s
  next ht =>
    rw [decide_eq_false ht]
    have hmodify (s : Blk) : Logs (modify fun s => { s with v := s.v.diskWritten } : Service PUnit)
        s [] := ⟨⟨rfl, fun _ _ => rfl, rfl, s.v.diskWritten_same⟩, by simp⟩
    have hboth := Logs.bind (.forM (fun i s => moveOut_logs h.sector data.address i s)
      (List.range (data.length.toNat / 4)) s) fun _ s' _ => hmodify s'
    rwa [List.append_nil] at hboth

theorem answer_logs (h : Header) (data : Descriptor) (s : Blk) :
    Logs (answer h data) s (dataLog h s.v.drive data) := by
  refine .read ?_
  unfold dataLog
  split
  next ht =>
    rw [if_pos (.inl ht)]
    exact .pure _ s
  next ht =>
    split
    next hf =>
      rw [if_pos (.inr (by simpa using hf))]
      exact .pure _ s
    next hf =>
      rw [if_neg (not_or.mpr ⟨ht, by simpa using hf⟩)]
      have hboth := Logs.bind (moveData_logs h data s) fun _ s' _ =>
        Logs.read (Logs.pure (if s'.v.writeError then (1 : Word) else 0) s')
      rwa [List.append_nil] at hboth

theorem writeUsed_logs (c : Chain) (written result : Word) (s : Blk) :
    Logs (writeUsed c written result) s (usedLog c s.v) := by
  refine .read ?_
  exact .bind (dmaWrite_logs _ _ _ s) fun _ s₁ _ => .bind (dmaWrite_logs _ _ _ s₁) fun _ s₂ _ =>
    .bind (dmaWrite_logs _ _ _ s₂) fun _ s₃ _ => dmaWrite_logs _ _ _ s₃

def Blk.requestLog (s : Blk) (c : Chain) (h : Header) : List DmaAccess :=
  dataLog h s.v.drive c.data ++ usedLog c s.v

def Blk.requestWrites (s : Blk) : List Word :=
  match readChain s.mem.ram s.v with
  | none => []
  | some c => match readHeader s.mem.ram c.header.address with
    | none => []
    | some h => dmaWrites ((s.requestLog c h).takeWhile (·.inRam))

structure Memory.Written (mem : Memory) (writes : List Word) (mem' : Memory) : Prop where
  lr : mem'.lr = mem.lr.snoops writes
  ram : ∀ a, (∀ w ∈ writes, w.toNat / 4 ≠ a / 4) → mem'.ram a = mem.ram a
  fb : mem'.fb = mem.fb

theorem Memory.Written.refl (mem : Memory) : mem.Written [] mem := ⟨rfl, fun _ _ => rfl, rfl⟩

theorem Memory.Written.trans {mem mem' mem'' : Memory} (h : mem.Written l mem')
    (h' : mem'.Written l' mem'') : mem.Written (l ++ l') mem'' := by
  refine ⟨?_, fun a ha => ?_, h'.fb.trans h.fb⟩
  · rw [h'.lr, h.lr]
    exact List.foldl_append.symm
  · exact (h'.ram a fun w hm => ha w (List.mem_append.mpr (.inr hm))).trans
      (h.ram a fun w hm => ha w (List.mem_append.mpr (.inl hm)))

theorem Blk.Follows.written (h : Blk.Follows s log s') :
    s.mem.Written (dmaWrites log) s'.mem := ⟨h.lr, h.ram, h.fb⟩

theorem Logs.follows {x : Service α} (h : Logs x s log) :
    Ensures x s (fun _ s' => s.Follows (log.takeWhile (·.inRam)) s')
      (fun _ s' => s.Follows (log.takeWhile (·.inRam)) s') := by
  refine Ensures.mono h ?_ fun _ _ hf => hf.1
  rintro _ s' ⟨hf, hall⟩
  have htake : log.takeWhile (·.inRam) = log := List.takeWhile_eq_self_iff.mpr hall
  rw [htake]
  exact hf

theorem performRequest_follows (s : Blk) :
    Ensures performRequest s (fun _ s' => ∃ log, dmaWrites log = s.requestWrites ∧ s.Follows log s')
      (fun _ s' => ∃ log, dmaWrites log = s.requestWrites ∧ s.Follows log s') := by
  change Ensures (expect (readChain s.mem.ram s.v) >>= _) s _ _
  unfold Blk.requestWrites
  cases readChain s.mem.ram s.v with
  | none => exact ⟨[], rfl, .refl s⟩
  | some c =>
    change Ensures (expect (readHeader s.mem.ram c.header.address) >>= _) s _ _
    dsimp only
    cases readHeader s.mem.ram c.header.address with
    | none => exact ⟨[], rfl, .refl s⟩
    | some h =>
      have hlogs : Logs (do
          let result ← answer h c.data
          writeUsed c (if result = 0 ∧ h.type = 0 then c.data.length + 1 else 1) result) s
          (s.requestLog c h) := by
        refine .bind (answer_logs h c.data s) fun result s' hf => ?_
        have hu : usedLog c s'.v = usedLog c s.v := by
          rw [hf.queue]
          rfl
        rw [← hu]
        exact writeUsed_logs _ _ _ s'
      exact Ensures.mono hlogs.follows (fun _ _ hf => ⟨_, rfl, hf⟩) fun _ _ hf => ⟨_, rfl, hf⟩

def serveWrites : (fuel : Nat) → Blk → List Word
  | 0, _ => []
  | fuel + 1, s =>
    match dmaRead16 s.mem.ram (s.v.driverLo + 2) with
    | none => []
    | some available =>
      if available = s.v.lastAvail then []
      else match Blk.virtioRequest s with
        | .ok _ s' => s.requestWrites ++ serveWrites fuel s'
        | .error _ _ => s.requestWrites

theorem virtioRequest_written (s : Blk) :
    Ensures Blk.virtioRequest s (fun _ s' => s.mem.Written s.requestWrites s'.mem)
      (fun _ s' => s.mem.Written s.requestWrites s'.mem) := by
  have hwritten : ∀ s', (∃ log, dmaWrites log = s.requestWrites ∧ s.Follows log s') →
      s.mem.Written s.requestWrites s'.mem := by
    rintro s' ⟨log, hlog, hf⟩
    exact hlog ▸ hf.written
  exact Ensures.bind (Ensures.mono (performRequest_follows s) (fun _ s' h => hwritten s' h)
    fun _ s' h => hwritten s' h)

theorem virtioRequest_failed (h : Blk.virtioRequest s = .error e s') : s.v.SameQueue s'.v := by
  have hq : Ensures Blk.virtioRequest s (fun _ _ => True) (fun _ s' => s.v.SameQueue s'.v) :=
    Ensures.bind (Ensures.mono (performRequest_follows s) (fun _ _ _ => trivial)
      fun _ _ ⟨_, _, hf⟩ => hf.queue)
  unfold Ensures at hq
  rw [h] at hq
  exact hq

theorem serveLoop_written (h : serveLoop fuel s = some s') :
    s.mem.Written (serveWrites fuel s) s'.mem := by
  induction fuel generalizing s with
  | zero => cases h
  | succ fuel ih =>
    unfold serveLoop at h
    unfold serveWrites
    cases hread : dmaRead16 s.mem.ram (s.v.driverLo + 2) with
    | none =>
      rw [hread] at h
      cases h
      exact .refl _
    | some available =>
      rw [hread] at h
      dsimp only at h ⊢
      split
      next heq =>
        rw [if_pos heq] at h
        cases h
        exact .refl _
      next hne =>
        rw [if_neg hne] at h
        have hw := virtioRequest_written s
        unfold Ensures at hw
        cases hreq : Blk.virtioRequest s with
        | ok u s₁ =>
          rw [hreq] at h hw
          exact hw.trans (ih h)
        | error e s₁ =>
          rw [hreq] at h hw
          cases h
          exact hw

def virtioWrites (fuel : Nat) (s : Blk) (offset width : Nat) (value : Word) : List Word :=
  if width = 4 ∧ offset = 0x050 ∧ s.v.serves value ∧
      ¬(s.v.descHi ≠ 0 ∨ s.v.driverHi ≠ 0 ∨ s.v.deviceHi ≠ 0 ∨ s.v.queueNum = 0) then
    serveWrites fuel s
  else []

theorem virtioStore_written (h : virtioStore fuel s offset width value = some (.ok, s')) :
    s.mem.Written (virtioWrites fuel s offset width value) s'.mem := by
  unfold virtioStore at h
  unfold virtioWrites
  split at h
  next => cases h
  next hw =>
    split at h
    next ho =>
      split at h
      next hs =>
        obtain ⟨s₁, hserve, heq⟩ := Option.map_eq_some_iff.mp h
        cases heq
        unfold virtioServe at hserve
        split at hserve
        next hbad =>
          rw [if_neg fun hc => hc.2.2.2 hbad]
          cases hserve
          exact .refl _
        next hok =>
          rw [if_pos ⟨not_not.mp hw, ho, hs, hok⟩]
          exact serveLoop_written hserve
      next hs =>
        rw [if_neg fun hc => hs hc.2.2.1]
        cases h
        exact .refl _
    next ho =>
      rw [if_neg fun hc => ho hc.2.1]
      split at h
      next => cases h
      next =>
        cases h
        exact .refl _

end TinyProcessors
