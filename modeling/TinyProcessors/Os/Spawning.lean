import TinyProcessors.Os.Acting

namespace TinyProcessors

structure Program.Sized (e : Program) : Prop where
  base : slotBase ≤ e.load.toNat
  stop : e.load.toNat + e.span.toNat ≤ slotsEnd
  loadAligned : e.load.toNat % slotSize = 0
  spanAligned : e.span.toNat % slotSize = 0
  stackAligned : e.stack.toNat % 4096 = 0
  stackRoom : 8192 ≤ e.stack.toNat
  file : e.fileSize.toNat ≤ e.memorySize.toNat
  memory : e.memorySize.toNat + e.stack.toNat ≤ e.span.toNat
  nonempty : 0 < e.fileSize.toNat

theorem Program.Valid.sized {e : Program} (h : e.Valid) : e.Sized := by
  obtain ⟨size, h⟩ := h
  simp only [entryOk, Bool.not_eq_true', Bool.or_eq_false_iff, decide_eq_false_iff_not, not_not,
    gt_iff_lt, ge_iff_le, ne_eq, BitVec.not_lt, BitVec.not_le] at h
  obtain ⟨⟨⟨⟨⟨⟨⟨⟨⟨⟨⟨⟨⟨⟨⟨⟨-, -⟩, -⟩, -⟩, hfile⟩, hspan0⟩, hspan⟩, hmax⟩, hload⟩, hla⟩, hstop⟩, hsa⟩,
    hroom⟩, hstack⟩, hmem⟩, hentry⟩, hsize⟩ := h
  rw [BitVec.le_def] at hfile hmax hload hstop hroom hmem hentry
  rw [BitVec.lt_def] at hstack hsize
  have hspan' : e.span.toNat % 0x20000 = 0 := by simpa using congrArg BitVec.toNat hspan
  have hsa' : e.stack.toNat % 4096 = 0 := by simpa using congrArg BitVec.toNat hsa
  have hla' : (e.load - 0x80100000).toNat % 0x20000 = 0 := by simpa using congrArg BitVec.toNat hla
  rw [BitVec.toNat_sub_of_le (BitVec.le_def.2 hload)] at hla'
  rw [BitVec.toNat_sub_of_le (BitVec.le_def.2 (by simp at hmax ⊢; omega))] at hstop
  rw [BitVec.toNat_sub_of_le (BitVec.le_def.2 (by omega))] at hmem
  rw [BitVec.toNat_sub_of_le (BitVec.le_def.2 hentry)] at hsize
  simp only [BitVec.ofNat_eq_ofNat, BitVec.toNat_ofNat] at hmax hload hstop hroom hla'
  have hb : slotBase = 0x80100000 := rfl
  have he : slotsEnd = 0x81000000 := rfl
  refine ⟨by omega, by omega, ?_, hspan', hsa', by omega, by omega, by omega, by omega⟩
  change e.load.toNat % 0x20000 = 0
  omega

def State.Own (s : State) (p : Fin 8) (x : Nat) : Prop :=
  (s.procs p).base.toNat ≤ x ∧ x < (s.procs p).base.toNat + (s.procs p).span.toNat ∧
    ¬ ((s.guardOf p).toNat ≤ x ∧ x < (s.guardOf p).toNat + 4096)

/-- Where process `p`'s memory lies. -/
structure State.Fits (s : State) (p : Fin 8) : Prop where
  base : slotBase ≤ (s.procs p).base.toNat
  stop : (s.procs p).base.toNat + (s.procs p).span.toNat ≤ slotsEnd
  guard : (s.guardOf p).toNat + 4096 ≤ (s.procs p).base.toNat + (s.procs p).span.toNat
  image : (s.procs p).base.toNat + (s.image p).memorySize.toNat ≤ (s.procs p).brk.toNat
  brk : (s.procs p).brk.toNat ≤ (s.guardOf p).toNat

theorem State.Fits.own (h : State.Fits s p) (hr : s.userRange p address len = true) :
    ∀ k < len.toNat, s.Own p (address.toNat + k) := by
  intro k hk
  have he : slotsEnd = 0x81000000 := rfl
  have hstop := h.stop
  have hguard := h.guard
  simp only [State.userRange, Bool.and_eq_true, decide_eq_true_eq, Bool.not_eq_true',
    Bool.and_eq_false_iff, decide_eq_false_iff_not, ne_eq, not_not, BitVec.not_lt] at hr
  obtain ⟨⟨⟨hbase, hlen⟩, hin⟩, hoff⟩ := hr
  rw [BitVec.le_def, BitVec.toNat_sub_of_le hbase, BitVec.toNat_sub_of_le hlen] at hin
  rw [BitVec.le_def] at hbase hlen
  have hg : (s.guardOf p + 0x1000).toNat = (s.guardOf p).toNat + 4096 := by
    rw [BitVec.toNat_add]
    exact Nat.mod_eq_of_lt (by simp; omega)
  have ha : (address + len).toNat = address.toNat + len.toNat := by
    rw [BitVec.toNat_add]
    exact Nat.mod_eq_of_lt (by omega)
  refine ⟨by omega, by omega, ?_⟩
  rcases hoff with (h0 | hlow) | hhigh
  · rw [h0] at hk
    exact absurd hk (Nat.not_lt_zero _)
  · rw [BitVec.le_def, hg] at hlow
    omega
  · rw [BitVec.le_def, ha] at hhigh
    omega

structure State.Grown (s s' : State) : Prop where
  procs : ∀ j, (s.procs j).state ≠ .free → s'.procs j = s.procs j
  current : s'.current = s.current
  protectedPid : s'.protectedPid = s.protectedPid

theorem State.Same.grown {s s' : State} (h : s.Same s') : s.Grown s' :=
  ⟨fun j _ => congrFun h.procs j, h.current, h.protectedPid⟩

def Program.Spans (e : Program) (x : Nat) : Prop :=
  e.load.toNat ≤ x ∧ x < e.load.toNat + e.span.toNat

def Board.Buffers (b : Board) (x : Nat) : Prop :=
  (b.header ≤ x ∧ x < b.header + 16) ∨ (b.onDisk ≤ x ∧ x < b.onDisk + 56)

structure Board.Checked (b : Board) : Prop where
  header : b.ramdiskOk = true
  entries : ∀ i < (b.ramdisk.word 4).toNat, entryOk (b.program i) b.ramdiskSize = true

theorem programs_checked (hb : b.Checked) : programs b = pure (b.ramdisk.word 4).toNat := by
  rw [programs, if_pos hb.header]

structure State.Browsed (s s' : State) : Prop where
  same : s.Same s'
  files : s.io.SameFiles s'.io

theorem State.Browsed.trans {s s₁ s₂ : State} (h₁ : s.Browsed s₁) (h₂ : s₁.Browsed s₂) :
    s.Browsed s₂ :=
  ⟨h₁.same.trans h₂.same, h₁.files.trans h₂.files⟩

theorem Calm.browsed (h : Calm S s s') : s.Browsed s' := by
  refine ⟨h.same, ?_⟩
  obtain ⟨d, v, m, -, -, -⟩ := h
  exact ⟨rfl, rfl, rfl, rfl, rfl, rfl, rfl, id⟩

theorem fsRead_browsed (s : State) (file : Fin 16) (position : Word) (dst : Nat) (length : Word)
    (hw : ∀ k < length.toNat, S.writes (dst + k)) :
    Acting b S (fsCall b fun io => fsRead io file position dst length) s fun _ s' =>
      s.Browsed s' := by
  refine Does.mono (fsRead_acting s file position dst length hw) ?_
  intro r s' _ ⟨⟨io, hsame, hc⟩, _⟩
  have h : s.Browsed { s with io } := ⟨s.same_io io, hsame⟩
  exact h.trans hc.browsed

theorem fsOpen_browse (io : Io) (name : List UInt8) : (fsOpen io name false).2 = io := by
  unfold fsOpen
  split
  · rfl
  · split
    · rfl
    · split
      · rfl
      · simp

theorem fsOpen_browsed (s : State) (name : List UInt8) :
    Acting b S (fsCall b fun io => fsOpen io name false) s fun _ s' => s.Browsed s' := by
  refine Does.mono (fsCall_idle s (fsOpen_browse _ name)) fun _ s' _ ⟨_, hc⟩ => ?_
  have h : s.Browsed { s with io := s.io.clean } := ⟨s.same_io _, s.io.clean_sameFiles⟩
  exact h.trans hc.browsed

theorem State.Same.mayOpen {s s' : State} (h : s.Same s') (file : Fin 16) (mode : Word) :
    s'.mayOpen file mode = s.mayOpen file mode := by
  rw [State.mayOpen, State.mayOpen, h.procs]

theorem State.Same.overlaps {s s' : State} (h : s.Same s') (e : Program) :
    s'.overlaps e = s.overlaps e := by
  rw [State.overlaps, State.overlaps, h.procs]

theorem State.Same.userRange {s s' : State} (h : s.Same s') (p : Fin 8) (address len : Word) :
    s'.userRange p address len = s.userRange p address len := by
  rw [State.userRange, State.userRange, State.guardOf, State.guardOf, h.procs, h.spaces]

theorem diskProgram_acting (s : State) (name : List UInt8)
    (hw : ∀ x, b.Buffers x → S.writes x) :
    Acting b S (diskProgram b name) s fun r s' => s.Browsed s' ∧
      ∀ q, r = some q → q.2.Valid ∧ s'.mayOpen q.1 oRead = true := by
  have hrefuse : ∀ (why : String) (s₁ : State), s.Browsed s₁ →
      Acting b S (refuseDiskProgram b name why) s₁ fun r s' => s.Browsed s' ∧
        ∀ q : Fin 16 × Program, r = some q → q.2.Valid ∧ s'.mayOpen q.1 oRead = true := by
    intro why s₁ h₁
    refine Does.mono (refuseDiskProgram_calm name why s₁).acting fun r s₂ _ ⟨h₂, hr⟩ => ?_
    exact ⟨h₁.trans h₂.browsed, by rintro q hq; rw [hr] at hq; cases hq⟩
  refine .bind (fsOpen_browsed s name) fun r s₁ _ h₁ => ?_
  split
  next => exact .pure ⟨h₁, by rintro q ⟨⟩⟩
  next file =>
    refine .read ?_
    split
    next => exact hrefuse _ s₁ h₁
    next hopen =>
      simp only [Bool.not_eq_true', Bool.not_eq_false] at hopen
      refine .bind (fsRead_browsed s₁ file 0 b.header 16 ?_) fun r s₂ _ h₂ => ?_
      · intro k hk
        exact hw _ (.inl ⟨by omega, by simp at hk; omega⟩)
      refine .read ?_
      dsimp only
      split
      next => exact hrefuse _ s₂ (h₁.trans h₂)
      next =>
        refine .bind (fsRead_browsed s₂ file 16 b.onDisk 56 ?_) fun r s₃ _ h₃ => ?_
        · intro k hk
          exact hw _ (.inr ⟨by omega, by simp at hk; omega⟩)
        have h₀₃ := (h₁.trans h₂).trans h₃
        refine .read ?_
        split
        next => exact hrefuse _ s₃ h₀₃
        next =>
          split
          next => exact hrefuse _ s₃ h₀₃
          next hok =>
            split
            next => exact hrefuse _ s₃ h₀₃
            next =>
              split
              next => exact hrefuse _ s₃ h₀₃
              next =>
                simp only [Bool.not_eq_true', Bool.not_eq_false] at hok
                refine .pure ⟨h₀₃, ?_⟩
                rintro q ⟨⟩
                rw [(h₂.trans h₃).same.mayOpen]
                exact ⟨⟨_, hok⟩, hopen⟩

section Starting

variable {S : Scope} {e : Program} (hv : e.Valid) (hs : ∀ x, e.Spans x → S.writes x)
include hv hs

theorem loadImage_acting (s : State) (file : Option (Fin 16)) :
    Acting b S (loadImage b e file) s fun _ s' => s.Browsed s' := by
  have hz := hv.sized
  have hmem := hz.memory
  have hfile := hz.file
  cases file with
  | none =>
    refine .bind (storeBytes_calm _ _ s ?_).acting fun _ s₁ _ ⟨h₁, _⟩ => .pure h₁.browsed
    intro k hk
    rw [Bytes.slice, List.length_map, List.length_range] at hk
    exact hs _ ⟨by omega, by omega⟩
  | some file =>
    refine .bind (fsRead_browsed s file e.offset e.load.toNat e.fileSize ?_) fun _ s₁ _ h₁ =>
      .pure h₁
    intro k hk
    exact hs _ ⟨by omega, by omega⟩

theorem startProgram_acting (s : State) (i : Fin 8) (file : Option (Fin 16)) (args : List UInt8)
    (parent : Word) (hf : (s.procs i).state = .free) (ho : s.overlaps e = false)
    (hp : (∃ p, (s.procs p).state = .running ∧ (s.procs p).pid = parent) ∨
      ((∀ j, (s.procs j).state = .free) ∧ parent = 0)) :
    Acting b S (startProgram b i e file args parent) s fun _ s' => s.Grown s' := by
  have hz := hv.sized
  have hmem := hz.memory
  have hfile := hz.file
  have hstop := hz.stop
  have hroom := hz.stackRoom
  have hend : slotsEnd = 0x81000000 := rfl
  have hload : (e.load + e.fileSize).toNat = e.load.toNat + e.fileSize.toNat := by
    rw [BitVec.toNat_add]
    exact Nat.mod_eq_of_lt (by omega)
  have htop : (e.load + e.span).toNat = e.load.toNat + e.span.toNat := by
    rw [BitVec.toNat_add]
    exact Nat.mod_eq_of_lt (by omega)
  have h64 : (64 : Word).toNat = 64 := rfl
  have hargs : (e.load + e.span - 64).toNat = e.load.toNat + e.span.toNat - 64 := by
    rw [BitVec.toNat_sub_of_le (BitVec.le_def.2 (by omega)), htop, h64]
  refine .bind (loadImage_acting hv hs s file) fun loaded s₁ _ h₁ => ?_
  split
  next =>
    refine .bind (storeBytes_calm _ _ s₁ ?_).acting fun _ s₂ _ ⟨h₂, _⟩ => ?_
    · intro k hk
      rw [List.length_replicate, BitVec.toNat_sub_of_le (BitVec.le_def.2 hfile)] at hk
      exact hs _ ⟨by omega, by omega⟩
    refine .bind (storeBytes_calm _ _ s₂ ?_).acting fun _ s₃ _ ⟨h₃, _⟩ => ?_
    · intro k hk
      rw [List.length_append, List.length_take, List.length_singleton] at hk
      exact hs _ ⟨by omega, by omega⟩
    have h₀₃ := (h₁.trans h₂.browsed).trans h₃.browsed
    have hf₃ : (s₃.procs i).state = .free := by rw [h₀₃.same.procs, hf]
    refine .read ?_
    split
    next why hm => exact panic_acting (.paging hv hf₃ hm)
    next space tables hm =>
      refine Acting.update (.spawned hv hf₃ ?_ hm ?_) rfl rfl (.pure ?_)
      · rw [h₀₃.same.overlaps, ho]
      · rw [h₀₃.same.procs]
        exact hp
      · refine ⟨fun j hj => ?_, h₀₃.same.current, h₀₃.same.protectedPid⟩
        have hne : j ≠ i := fun he => hj (he ▸ hf)
        exact (Function.update_of_ne hne _ _).trans (congrFun h₀₃.same.procs j)
  next => exact .pure h₁.same.grown

end Starting

theorem place_acting (hv : e.Valid) (s : State) (file : Option (Fin 16)) (args : List UInt8)
    (parent : Word) (hs : s.overlaps e = false → ∀ x, e.Spans x → S.writes x)
    (hp : (∃ p, (s.procs p).state = .running ∧ (s.procs p).pid = parent) ∨
      ((∀ j, (s.procs j).state = .free) ∧ parent = 0)) :
    Acting b S (place b e file args parent) s fun _ s' => s.Grown s' := by
  refine .read ?_
  split
  next => exact .pure ⟨fun _ _ => rfl, rfl, rfl⟩
  next ho =>
    split
    next => exact .pure ⟨fun _ _ => rfl, rfl, rfl⟩
    next i hi =>
      have hf : (s.procs i).state = .free := by simpa using List.find?_some hi
      rw [Bool.not_eq_true] at ho
      exact startProgram_acting hv (hs ho) s i file args parent hf ho hp

theorem programNamed_checked (hb : b.Checked) (name : List UInt8) :
    ∃ r, programNamed b name = pure r ∧ ∀ e, r = some e → e.Valid := by
  refine ⟨_, by rw [programNamed, programs_checked hb, pure_bind], ?_⟩
  intro e he
  obtain ⟨i, hi, rfl⟩ := List.mem_map.1 (List.mem_of_find?_eq_some he)
  exact ⟨_, hb.entries i (List.mem_range.1 hi)⟩

theorem spawn_acting {S : Program → Scope} (hb : b.Checked) (s : State) (name args : List UInt8)
    (parent : Word)
    (hs : ∀ e : Program, e.Valid → s.overlaps e = false → ∀ x, e.Spans x → (S e).writes x)
    (hw : ∀ e x, b.Buffers x → (S e).writes x)
    (hp : (∃ p, (s.procs p).state = .running ∧ (s.procs p).pid = parent) ∨
      ((∀ j, (s.procs j).state = .free) ∧ parent = 0)) :
    ∃ e, Acting b (S e) (spawn b name args parent) s fun _ s' => s.Grown s' := by
  obtain ⟨r, hr, hvalid⟩ := programNamed_checked hb name
  rw [spawn, hr, pure_bind]
  cases r with
  | some e =>
    have hv := hvalid e rfl
    exact ⟨e, place_acting hv s none args parent (hs e hv) hp⟩
  | none =>
    refine Does.choose (fun e => diskProgram_acting s name (hw e)) fun q s₁ _ ⟨h₁, hq⟩ => ?_
    cases q with
    | none => exact ⟨default, .pure h₁.same.grown⟩
    | some q =>
      obtain ⟨file, e⟩ := q
      have hv := (hq _ rfl).1
      refine ⟨e, Does.mono (place_acting hv s₁ (some file) args parent ?_ ?_) ?_⟩
      · rw [h₁.same.overlaps]
        exact hs e hv
      · rw [h₁.same.procs]
        exact hp
      · intro _ s₂ _ h₂
        refine ⟨fun j hj => ?_, h₂.current.trans h₁.same.current,
          h₂.protectedPid.trans h₁.same.protectedPid⟩
        have hj₁ := congrFun h₁.same.procs j
        exact (h₂.procs j (hj₁ ▸ hj)).trans hj₁

end TinyProcessors
