import TinyProcessors.Os.Run
import TinyProcessors.Fs.Outcomes

namespace TinyProcessors

def G1.Advances (w : Window) (g g' : G1) : Prop :=
  g'.busy = true → g.busy = true ∧ g'.p = g.p ∧ (g'.setup = true → g.setup = true) ∧
    (g'.commandTick = true → g.commandTick = true) ∧
    (g.setup = true → g'.setup = true ∨ g.valid w = true)

def G2.Advances (w : Window) (d d' : G2) : Prop :=
  d'.busy = true → d.busy = true ∧ d'.zbase = d.zbase ∧ d'.valid = d.valid ∧
    (d'.validating = true → d.validating = true) ∧
    (d'.commandTick = true → d.commandTick = true) ∧
    (d.validating = true → d'.validating = true ∨ d.valid w = true)

structure Devices.Advances (d d' : Devices) : Prop where
  g1 : d.g1.Advances d.window d'.g1
  g2 : d.g2.Advances d.window d'.g2
  window : d'.window = d.window

theorem G1.valid_congr {g g' : G1} (h : g'.p = g.p) (w : Window) : g'.valid w = g.valid w := by
  rw [G1.valid, G1.valid, G1.sourceEnd, G1.sourceEnd, h]

theorem G1.Advances.refl (w : Window) (g : G1) : g.Advances w g :=
  fun h => ⟨h, rfl, id, id, .inl⟩

theorem G1.Advances.trans {g g₁ g₂ : G1} (h₁ : g.Advances w g₁) (h₂ : g₁.Advances w g₂) :
    g.Advances w g₂ := by
  intro hb
  obtain ⟨hb₂, hp₂, hs₂, hc₂, hv₂⟩ := h₂ hb
  obtain ⟨hb₁, hp₁, hs₁, hc₁, hv₁⟩ := h₁ hb₂
  refine ⟨hb₁, hp₂.trans hp₁, hs₁ ∘ hs₂, hc₁ ∘ hc₂, fun hs => ?_⟩
  rcases hv₁ hs with hs' | hv
  · exact (hv₂ hs').imp_right fun hv => (G1.valid_congr hp₁ w) ▸ hv
  · exact .inr hv

theorem G2.Advances.refl (w : Window) (d : G2) : d.Advances w d :=
  fun h => ⟨h, rfl, rfl, id, id, .inl⟩

theorem G2.Advances.trans {d d₁ d₂ : G2} (h₁ : d.Advances w d₁) (h₂ : d₁.Advances w d₂) :
    d.Advances w d₂ := by
  intro hb
  obtain ⟨hb₂, hz₂, he₂, hv₂, hc₂, hk₂⟩ := h₂ hb
  obtain ⟨hb₁, hz₁, he₁, hv₁, hc₁, hk₁⟩ := h₁ hb₂
  refine ⟨hb₁, hz₂.trans hz₁, he₂.trans he₁, hv₁ ∘ hv₂, hc₁ ∘ hc₂, fun hv => ?_⟩
  rcases hk₁ hv with hv' | hk
  · exact (hk₂ hv').imp_right fun hk => he₁ ▸ hk
  · exact .inr hk

theorem G1.tick_advances (g : G1) (window : Window) (ends : Bool) :
    g.Advances window (g.tick window ends) := by
  intro hb
  unfold G1.tick at hb ⊢
  split
  next hc => simp_all
  next hc =>
    simp only [hc, if_false, Bool.false_eq_true] at hb
    split_ifs at hb ⊢ <;> simp_all

theorem G2.tick_advances (d : G2) (window : Window) (ends : Bool) :
    d.Advances window (d.tick window ends) := by
  intro hb
  unfold G2.tick at hb ⊢
  split
  next hc =>
    simp only [hc, if_true] at hb
    exact ⟨hb, rfl, rfl, id, by rintro ⟨⟩, .inl⟩
  next hc =>
    simp only [hc, if_false, Bool.false_eq_true] at hb
    split_ifs at hb ⊢
    next hn => simp_all
    next hv => simp_all
    next => cases hb
    next hn hv he =>
      simp only [Bool.not_eq_true', Bool.not_eq_false] at hn
      refine ⟨hn, rfl, rfl, by rintro ⟨⟩, id, fun hval => .inr ?_⟩
      simpa [hval] using hv

theorem Devices.Advances.refl (d : Devices) : d.Advances d := ⟨.refl _ _, .refl _ _, rfl⟩

theorem Devices.Advances.trans {d d₁ d₂ : Devices} (h₁ : d.Advances d₁) (h₂ : d₁.Advances d₂) :
    d.Advances d₂ := by
  have h₂g := h₂.g1
  have h₂d := h₂.g2
  rw [h₁.window] at h₂g h₂d
  exact ⟨h₁.g1.trans h₂g, h₁.g2.trans h₂d, h₂.window.trans h₁.window⟩

def Devices.Idle (b : Board) (d : Devices) : Prop :=
  (b.gpu = true → d.g1.busy = false) ∧ (b.g3d = true → d.g2.busy = false)

theorem Devices.Idle.advances {d d' : Devices} (h : d.Idle b) (ha : d.Advances d') : d'.Idle b := by
  constructor
  · intro hb
    by_contra hn
    have hbusy := (ha.g1 (by simpa using hn)).1
    rw [h.1 hb] at hbusy
    cases hbusy
  · intro hb
    by_contra hn
    have hbusy := (ha.g2 (by simpa using hn)).1
    rw [h.2 hb] at hbusy
    cases hbusy

structure Scope where
  reads : Nat → Prop
  writes : Nat → Prop
  words : Nat → Prop

inductive Scope.Access (S : Scope) : Access → Prop
  | device (hd : a.device ≠ .ram) (hw : a.offset % a.width = 0)
      (hs : a.device = .display → a.kind ≠ .store) (h : ∀ d : Devices, d.handles a = true) :
      S.Access a
  | present : S.Access ⟨.display, 0, 4, .store, 1⟩
  | load (h : S.reads x) : S.Access ⟨.ram, x, 1, .load, 0⟩
  | word (h : S.words x) : S.Access ⟨.ram, x, 4, .load, 0⟩
  | store (h : S.writes x) : S.Access ⟨.ram, x, 1, .store, value⟩

structure Within (S : Scope) (s s' : State) : Prop where
  log : ∃ l, s'.dev.log = s.dev.log ++ l ∧ ∀ a ∈ l, S.Access a
  mem : ∀ x, ¬ S.writes x → s'.io.mem x = s.io.mem x

theorem Within.of_eq (hl : s'.dev.log = s.dev.log) (hm : s'.io.mem = s.io.mem) : Within S s s' :=
  ⟨⟨[], by simpa using hl, by simp⟩, fun _ _ => congrFun hm _⟩

theorem Within.refl (s : State) : Within S s s := .of_eq rfl rfl

theorem Within.trans (h₁ : Within S s s₁) (h₂ : Within S s₁ s₂) : Within S s s₂ := by
  obtain ⟨⟨l₁, hl₁, ha₁⟩, hm₁⟩ := h₁
  obtain ⟨⟨l₂, hl₂, ha₂⟩, hm₂⟩ := h₂
  refine ⟨⟨l₁ ++ l₂, by rw [hl₂, hl₁, List.append_assoc], ?_⟩,
    fun x hx => (hm₂ x hx).trans (hm₁ x hx)⟩
  intro a ha
  rcases List.mem_append.1 ha with h | h
  · exact ha₁ a h
  · exact ha₂ a h

/-- Service of the devices: accesses and what they do. -/
inductive Calm (S : Scope) (s : State) : State → Prop
  | intro (d : Devices) (v : Vars) (m : Bytes) (hd : s.dev.Advances d)
      (hv : v.enginesUsed = s.vars.enginesUsed)
      (hw : Within S s { s with dev := d, vars := v, io := { s.io with mem := m } }) :
      Calm S s { s with dev := d, vars := v, io := { s.io with mem := m } }

instance : IsPreorder State (Calm S) where
  refl s := .intro s.dev s.vars s.io.mem (.refl _) rfl (.refl _)
  trans := by
    intro s s₁ s₂ h₁ h₂
    obtain ⟨d₁, v₁, m₁, hd₁, hv₁, hw₁⟩ := h₁
    obtain ⟨d₂, v₂, m₂, hd₂, hv₂, hw₂⟩ := h₂
    exact .intro d₂ v₂ m₂ (hd₁.trans hd₂) (hv₂.trans hv₁) (hw₁.trans hw₂)

def Program.Valid (e : Program) : Prop := ∃ size, entryOk e size = true

/-- The kernel's transitions, each with what the code has made sure of. -/
inductive Act (b : Board) : State → State → Prop
  | calm (hd : s.dev.Advances d) (hv : v.enginesUsed = s.vars.enginesUsed) :
      Act b s { s with dev := d, vars := v, io := { s.io with mem := m } }
  | settle (h : s.dev.Idle b) :
      Act b s { s with vars := { s.vars with enginesUsed := s.driverAlive } }
  | engage : Act b s { s with vars := { s.vars with enginesUsed := true } }
  | mount (h : ∀ i, (s.procs i).state = .free) (hm : s.io.fs.mounted = false) :
      Act b s { s with io := (fsMount s.io.clean s.io.disk.capacity).2 }
  | idle (x : Fin 32 → Word) :
      Act b s { s with idleFrame := ⟨x, b.idlePc, mstatusMppM ||| mstatusMpie⟩ }
  | files (h : s.io.SameFiles io) : Act b s { s with io }
  | flush : Act b s { s with io := (fsFlush s.io.clean).2 }
  | create (hm : s.io.fs.mounted = true) (hf : (s.io.fs.directory i).name 0 = 0) (hn : name ≠ [])
      (h0 : 0 ∉ name) (hb : (newEntry name first).Bounded s.io.fs.sectors.toNat) :
      Act b s { s with io := (fsFlush (s.io.clean.setEntry i (newEntry name first))).2 }
  | write (hp : (s.procs p).state = .running) (hm : ((s.procs p).files k).mode = oWrite) :
      Act b s { s with io := (fsWrite s.io.clean ((s.procs p).files k).file
        ((s.procs p).files k).position src length).2 }
  | move (hp : (s.procs p).state = .running) (hm : ((s.procs p).files k).mode ≠ 0)
      (hle : position = ((s.procs p).files k).position ∨
        position ≤ fsSize s.io ((s.procs p).files k).file) :
      Act b s (s.setFile p k { (s.procs p).files k with position })
  | openRead (hp : (s.procs p).state = .running) (hk : ((s.procs p).files k).mode = 0)
      (hm : s.io.fs.mounted = true) (hu : inUse s.io.fs file = true)
      (ho : s.mayOpen file oRead = true) :
      Act b s (s.setFile p k ⟨oRead, file, 0⟩)
  | openWrite (hp : (s.procs p).state = .running) (hk : ((s.procs p).files k).mode = 0)
      (hm : s.io.fs.mounted = true) (hu : inUse s.io.fs file = true)
      (ho : s.mayOpen file oWrite = true) :
      Act b s { s.setFile p k ⟨oWrite, file, 0⟩ with io := fsTruncate s.io file }
  | closeRead (hp : (s.procs p).state = .running) (hm : ((s.procs p).files k).mode ≠ oWrite) :
      Act b s (s.setFile p k { (s.procs p).files k with mode := 0 })
  | closeWrite (hp : (s.procs p).state = .running) (hm : ((s.procs p).files k).mode = oWrite) :
      Act b s { s.setFile p k { (s.procs p).files k with mode := 0 } with
        io := (fsFlush s.io.clean).2 }
  | sbrk (hp : (s.procs p).state = .running) (hle : size ≤ s.guardOf p - (s.procs p).brk) :
      Act b s (s.setProc p fun q => { q with brk := q.brk + size })
  | complete (hp : (s.procs p).alive = true) (hw : (s.procs p).state ≠ .blockedWait) :
      Act b s (s.complete p result)
  | skip (hp : (s.procs p).alive = false) :
      Act b s (s.setProc p fun q => { q with f := { q.f with pc := q.f.pc + 4 } })
  | park (hp : (s.procs p).state = .running)
      (hst : state = .ready ∨ state = .blockedRead ∨ state = .blockedSleep)
      (hf : ∀ q, f q = { q with state, wake := (f q).wake, switches := (f q).switches }) :
      Act b s (s.setProc p f)
  | wait (hp : (s.procs p).state = .running) (hc : (s.procs i).alive = true)
      (hpid : (s.procs i).pid = c) (hpar : (s.procs i).parent = (s.procs p).pid)
      (hx : Sys.ofNumber ((s.procs p).f.x 17) = some .wait ∧ (s.procs p).f.x 10 = c) :
      Act b s { s.setProc p (fun q => { q with state := .blockedWait, waitPid := c }) with
        waiting := Function.update s.waiting p (some c) }
  | reap (hp : (s.procs p).state = .running) (hz : (s.procs i).state = .zombie)
      (hpid : (s.procs i).pid = c) (hpar : (s.procs i).parent = (s.procs p).pid) :
      Act b s { s.setState i .free with
        returned := s.returned ++ [(c, (s.procs i).exitCode)]
        waiting := Function.update s.waiting p none }
  | reapAll (hp : (s.procs p).state = .running) :
      Act b s { (s.reapChildren p).setProc p (fun q => { q with exitCode := code }) with
        waiting := Function.update s.waiting p none }
  | vanish (hp : (s.procs p).state = .running) (hf : ∀ k, ((s.procs p).files k).mode = 0)
      (hz : ∀ i, (s.procs i).state = .zombie → (s.procs i).parent ≠ (s.procs p).pid)
      (hn : s.parentOf p = none) (h1 : (s.procs p).pid ≠ 1) :
      Act b s ((s.release p).setState p .free)
  | bury (hp : (s.procs p).state = .running) (hf : ∀ k, ((s.procs p).files k).mode = 0)
      (hz : ∀ i, (s.procs i).state = .zombie → (s.procs i).parent ≠ (s.procs p).pid)
      (hs : s.parentOf p = some parent) :
      Act b s (s.bury p parent)
  | wake (hw : (s.procs i).state = .blockedRead ∨ (s.procs i).state = .blockedSleep) :
      Act b s (s.setState i .ready)
  | spawned (hv : e.Valid) (hf : (s.procs i).state = .free) (ho : s.overlaps e = false)
      (hm : mapProcess b i e (s.spaces i) s.tables = .ok (space, tables))
      (hp : (∃ p, (s.procs p).state = .running ∧ (s.procs p).pid = parent) ∨
        ((∀ j, (s.procs j).state = .free) ∧ parent = 0)) :
      Act b s (s.start i e parent space tables)
  | claim (hp : (s.procs p).state = .running) (hc : s.current = some p)
      (hf : (s.procs p).f.mstatus &&& mstatusFs = 0) :
      Act b s (s.claim p)
  | run (hi : (s.procs i).state = .ready)
      (hc : ∀ j, s.current = some j → (s.procs j).state ≠ .running) :
      Act b s { s.setState i .running with current := some i }
  | rest (hc : ∀ j, s.current = some j → (s.procs j).state ≠ .running) :
      Act b s { s with current := none }
  | protect (hi : (s.procs i).state = .running) (hc : s.current = some i) :
      Act b s { s with
        protectedPid := (s.procs i).pid
        hart := s.hart.protect b i (s.procs i) }
  | window (hi : (s.procs i).state = .running) (hc : s.current = some i) :
      Act b s { s with dev := { s.dev with
        window := ⟨(s.procs i).base, (s.procs i).base + (s.procs i).span⟩ } }

structure Reach (b : Board) (S : Scope) (s s' : State) : Prop where
  acts : Relation.ReflTransGen (Act b) s s'
  within : Within S s s'

instance : IsPreorder State (Reach b S) where
  refl s := ⟨.refl, .refl s⟩
  trans _ _ _ h₁ h₂ := ⟨h₁.acts.trans h₂.acts, h₁.within.trans h₂.within⟩

theorem Reach.of_act (h : Act b s s') (hl : s'.dev.log = s.dev.log) (hm : s'.io.mem = s.io.mem) :
    Reach b S s s' :=
  ⟨.single h, .of_eq hl hm⟩

theorem Calm.reach (h : Calm S s s') : Reach b S s s' := by
  obtain ⟨d, v, m, hd, hv, hw⟩ := h
  exact ⟨.single (.calm hd hv), hw⟩

inductive PanicCause (b : Board) : String → State → Prop
  | paging (hv : e.Valid) (hf : (s.procs i).state = .free)
      (hm : mapProcess b i e (s.spaces i) s.tables = .error why) : PanicCause b why s
  | fpu (hp : (s.procs p).state = .running) (ho : s.fpuOwner = some p) (h : s.secondFs p = true) :
      PanicCause b "fpu: a second process with FS on" s
  | other (h : why ∈ ["no RAM disk", "bad RAM disk entry", "RAM disk table larger than the disk",
      "page tables: more 4 MiB regions than an entry has tables", "no shell",
      "trap in the idle loop"]) : PanicCause b why s

def State.Flushed (s : State) : Prop := ∃ io, s.io = (fsFlush io).2

/-- How the kernel's work ends before it is done. -/
inductive Ends (b : Board) (S : Scope) : Stop → State → State → Prop
  | fault (ha : S.Access a) (hn : s.accepts b a = false)
      (hp : a.device = .display → a.kind = .store →
        s.vars.enginesUsed = false ∨ s.dev.Idle b) : Ends b S (.fault a) s s
  | halt (hw : s.writing = true → s.Flushed) : Ends b S (.halt code) s s
  | panic (hc : PanicCause b why s) : Ends b S (.panic why) s s

end TinyProcessors
