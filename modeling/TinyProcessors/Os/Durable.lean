import TinyProcessors.Fs.Durable
import TinyProcessors.Os.Descriptors

namespace TinyProcessors

def State.Writes (s : State) (p : Fin 8) (k : Fin 4) : Prop :=
  (s.procs p).state ≠ .free ∧ ((s.procs p).files k).mode = oWrite

theorem State.writing_iff {s : State} : s.writing = true ↔ ∃ p k, s.Writes p k := by
  simp only [State.writing, List.any_eq_true, List.mem_finRange, true_and, Bool.and_eq_true,
    decide_eq_true_eq, State.Writes]
  constructor
  · rintro ⟨p, hp, k, hk⟩
    exact ⟨p, k, hp, hk⟩
  · rintro ⟨p, k, hp, hk⟩
    exact ⟨p, hp, k, hk⟩

structure State.Durable (s : State) : Prop where
  sound : s.io.disk.Sound
  zombie : (s.procs p).state = .zombie → ((s.procs p).files k).mode ≠ oWrite
  recorded : s.io.fs.mounted = true → s.io.Recorded
  current : s.io.fs.mounted = true → s.writing = false → s.io.Current

theorem State.Durable.keep {s s' : State} (h : s.Durable) (hio : s.io.SameFiles s'.io)
    (hz : ∀ p k, (s'.procs p).state = .zombie → ((s'.procs p).files k).mode ≠ oWrite)
    (hw : ∀ p k, s.Writes p k → s'.Writes p k) : s'.Durable where
  sound := hio.sound h.sound
  zombie {p k} := hz p k
  recorded hm := hio.recorded (h.recorded (hio.mounted.symm.trans hm))
  current hm hno := by
    refine hio.current (h.current (hio.mounted.symm.trans hm) ?_)
    by_contra hs
    rw [Bool.not_eq_false, State.writing_iff] at hs
    obtain ⟨p, k, hk⟩ := hs
    rw [State.writing_iff.2 ⟨p, k, hw p k hk⟩] at hno
    cases hno

theorem State.Durable.same {s s' : State} (h : s.Durable) (hp : s'.procs = s.procs)
    (hio : s.io.SameFiles s'.io) : s'.Durable := by
  refine h.keep hio (fun p k => ?_) fun p k hw => ?_
  · rw [hp]
    exact h.zombie
  · rw [State.Writes, hp]
    exact hw

theorem State.Durable.update {s s' : State} (h : s.Durable)
    (he : s'.procs = Function.update s.procs p q) (hio : s'.io = s.io)
    (hz : q.state = .zombie → ∀ k, (q.files k).mode ≠ oWrite)
    (hw : ∀ k, s.Writes p k → q.state ≠ .free ∧ (q.files k).mode = oWrite) : s'.Durable := by
  refine h.keep (hio ▸ .refl s.io) (fun i k hi => ?_) fun i k hk => ?_
  · rw [he] at hi ⊢
    by_cases hip : i = p
    · rw [hip, Function.update_self] at hi ⊢
      exact hz hi k
    · rw [Function.update_of_ne hip] at hi ⊢
      exact h.zombie hi
  · rw [State.Writes, he]
    by_cases hip : i = p
    · subst hip
      rw [Function.update_self]
      exact hw k hk
    · rw [Function.update_of_ne hip]
      exact hk

theorem State.Durable.alike {s s' : State} (h : s.Durable)
    (he : s'.procs = Function.update s.procs p q) (hio : s'.io = s.io)
    (hfiles : q.files = (s.procs p).files) (hz : q.state ≠ .zombie)
    (hf : q.state ≠ .free) : s'.Durable := by
  refine h.update he hio (fun hq => absurd hq hz) fun k hk => ⟨hf, ?_⟩
  rw [hfiles]
  exact hk.2

theorem State.Durable.unwritten {s s' : State} (h : s.Durable)
    (he : s'.procs = Function.update s.procs p q) (hio : s'.io = s.io)
    (hfiles : ∀ k, (q.files k).mode ≠ oWrite) (hno : ∀ k, ¬ s.Writes p k) : s'.Durable :=
  h.update he hio (fun _ => hfiles) fun k hk => absurd hk (hno k)

theorem State.Durable.setFile {s : State} (h : s.Durable) (hp : (s.procs p).state = .running)
    (hk : ((s.procs p).files k).mode = oWrite → o.mode = oWrite) : (s.setFile p k o).Durable := by
  refine h.update rfl rfl (fun hz => ?_) fun j hj => ⟨?_, ?_⟩
  · change (s.procs p).state = .zombie at hz
    rw [hp] at hz
    cases hz
  · exact hj.1
  · change (Function.update (s.procs p).files k o j).mode = oWrite
    by_cases hjk : j = k
    · subst hjk
      rw [Function.update_self]
      exact hk hj.2
    · rw [Function.update_of_ne hjk]
      exact hj.2

theorem Io.Recorded.clean {io : Io} (h : io.Recorded) : io.clean.Recorded :=
  io.clean_sameFiles.recorded h

theorem State.Durable.flush {s s' : State} (h : s.Durable) (hs : s.Served)
    (hio : s'.io = (fsFlush s.io.clean).2)
    (hz : ∀ p k, (s'.procs p).state = .zombie → ((s'.procs p).files k).mode ≠ oWrite) :
    s'.Durable := by
  by_cases hm : s.io.fs.mounted = true
  · obtain ⟨h₁, h₂, h₃⟩ := fsFlush_durable s.io.clean (hs hm).clean
      (s.io.clean_sameFiles.sound h.sound) (h.recorded hm).clean
    rw [← hio] at h₁ h₂ h₃
    exact ⟨h₁, fun {p k} => hz p k, fun _ => h₂, fun _ _ => h₃⟩
  · have hidle : (fsFlush s.io.clean).2 = s.io.clean := congrArg Prod.snd (if_neg hm)
    have hno : s'.io.fs.mounted ≠ true := by
      rw [hio, hidle]
      exact hm
    refine ⟨?_, fun {p k} => hz p k, fun hm' => absurd hm' hno, fun hm' => absurd hm' hno⟩
    rw [hio, hidle]
    exact s.io.clean_sameFiles.sound h.sound

theorem State.Durable.mount {s : State} (h : s.Durable) (hf : ∀ i, (s.procs i).state = .free)
    (hm : s.io.fs.mounted = false) :
    State.Durable { s with io := (fsMount s.io.clean s.io.disk.capacity).2 } := by
  have hsound := s.io.clean_sameFiles.sound h.sound
  have hdone : (fsMount s.io.clean s.io.disk.capacity).2.fs.mounted = true →
      (fsMount s.io.clean s.io.disk.capacity).2.Recorded ∧
        (fsMount s.io.clean s.io.disk.capacity).2.Current := by
    intro hmounted
    obtain ⟨hiff, hre⟩ := fsMount_sound s.io.clean hsound
    rcases fsMount_cases s.io.clean s.io.disk.capacity with ⟨-, he⟩ | ⟨_, _, _, _, _, _, _, he⟩
    · have hfalse := he.symm.trans hmounted
      change s.io.fs.mounted = true at hfalse
      rw [hm] at hfalse
      cases hfalse
    · have hok := congrArg Prod.fst he
      exact (hre hok).recorded (hiff.1 hok)
  refine ⟨(fsMount_disk s.io.clean s.io.disk.capacity).2.2 hsound, fun {p k} hz => ?_,
    fun hmt => (hdone hmt).1, fun hmt _ => (hdone hmt).2⟩
  change (s.procs p).state = .zombie at hz
  rw [hf p] at hz
  cases hz

theorem State.durable_of_writes {s : State} (hw : s.Writes p k) (hs : s.io.disk.Sound)
    (hr : s.io.Recorded)
    (hz : ∀ p k, (s.procs p).state = .zombie → ((s.procs p).files k).mode ≠ oWrite) :
    s.Durable := by
  refine ⟨hs, fun {p k} => hz p k, fun _ => hr, fun _ hno => ?_⟩
  rw [State.writing_iff.2 ⟨p, k, hw⟩] at hno
  cases hno

theorem State.Durable.reapChildren {s : State} (h : s.Durable) (p : Fin 8) :
    (s.reapChildren p).Durable := by
  refine h.keep (.refl s.io) (fun i k => ?_) fun i k hk => ?_
  · unfold State.reapChildren
    dsimp only
    split
    · rintro ⟨⟩
    · exact h.zombie
  · unfold State.Writes State.reapChildren
    dsimp only
    split
    next hc => exact absurd hk.2 (h.zombie hc.1)
    next => exact hk

theorem Act.durable (ha : Act b s s') (hd : s.Descriptors) (hs : s.Served) (h : s.Durable) :
    s'.Durable := by
  cases ha with
  | calm hd hv => exact h.same rfl ⟨rfl, rfl, rfl, rfl, rfl, rfl, rfl, id⟩
  | settle hi | engage | idle x | rest hc | protect hi hc => exact h.same rfl (.refl s.io)
  | window hi hc => exact h.same rfl (.refl s.io)
  | files hf => exact h.same rfl hf
  | mount hf hm => exact h.mount hf hm
  | flush => exact h.flush hs rfl fun _ _ => h.zombie
  | create hm hf hn h0 hb =>
    rename_i name first i
    have hfree := (hs hm).free i hf
    obtain ⟨h₁, h₂, h₃⟩ := fsFlush_durable (s.io.clean.setEntry i (newEntry name first))
      ((hs hm).clean.setEntry hfree hb) (s.io.clean_sameFiles.sound h.sound)
      ((h.recorded hm).clean.setEntry hfree _)
    exact ⟨h₁, h.zombie, fun _ => h₂, fun _ _ => h₃⟩
  | write hp hm =>
    rename_i p k src length
    have hw : s.Writes p k := by
      refine ⟨?_, hm⟩
      rw [hp]
      rintro ⟨⟩
    have hopen : s.Opens p k ((s.procs p).files k) := by
      refine ⟨hw.1, rfl, ?_⟩
      rw [hm]
      decide
    obtain ⟨hmt, hu⟩ := hd.used hopen
    obtain ⟨h₁, h₂⟩ := fsWrite_recorded s.io.clean (hs hmt).clean
      (s.io.clean_sameFiles.sound h.sound) hu (h.recorded hmt).clean
      ((s.procs p).files k).position length src
    exact State.durable_of_writes (p := p) (k := k) hw h₁ h₂ fun _ _ => h.zombie
  | move hp hm hle => exact h.setFile hp id
  | openRead hp hk hm hu ho =>
    refine h.setFile hp fun hw => ?_
    rw [hk] at hw
    exact absurd hw (by decide)
  | openWrite hp hk hm hu ho =>
    rename_i file p k
    have hset : (s.setFile p k ⟨oWrite, file, 0⟩).Durable := h.setFile hp fun _ => rfl
    refine State.durable_of_writes (p := p) (k := k) ?_ h.sound
      ((h.recorded hm).setEntry (inUse_iff.1 hu).2 _) fun _ _ => hset.zombie
    constructor
    · change ((s.setFile p k ⟨oWrite, file, 0⟩).procs p).state ≠ .free
      rw [State.setFile, State.setProc_self, hp]
      rintro ⟨⟩
    · change (((s.setFile p k ⟨oWrite, file, 0⟩).procs p).files k).mode = oWrite
      rw [State.setFile, State.setProc_self]
      dsimp only
      rw [Function.update_self]
  | closeRead hp hm => exact h.setFile hp fun hw => absurd hw hm
  | closeWrite hp hm =>
    rename_i p k
    refine h.flush hs rfl fun i j hz => ?_
    change ((s.setFile p k { (s.procs p).files k with mode := 0 }).procs i).state = .zombie at hz
    by_cases hip : i = p
    · subst hip
      rw [State.setFile, State.setProc_self, hp] at hz
      cases hz
    · rw [State.setFile, State.setProc_of_ne _ _ hip] at hz ⊢
      exact h.zombie hz
  | sbrk hp hle =>
    refine h.alike rfl rfl rfl ?_ ?_ <;> rw [hp] <;> rintro ⟨⟩
  | complete hp hw =>
    rename_i p r
    refine h.update rfl rfl (fun hz k => h.zombie hz) fun k hk => hk
  | skip hp =>
    refine h.update rfl rfl (fun hz k => h.zombie hz) fun k hk => hk
  | park hp hst hf =>
    refine h.alike rfl rfl (by rw [hf]) ?_ ?_ <;> rw [hf] <;>
      rcases hst with rfl | rfl | rfl <;> rintro ⟨⟩
  | wait hp hc hpid hpar hx =>
    exact h.alike rfl rfl rfl (by rintro ⟨⟩) (by rintro ⟨⟩)
  | reap hp hz hpid hpar =>
    exact h.unwritten rfl rfl (fun k => h.zombie hz) fun k hk => h.zombie hz hk.2
  | reapAll hp =>
    rename_i p code
    have hr := h.reapChildren p
    exact hr.update rfl rfl (fun hz k => hr.zombie hz) fun k hk => hk
  | vanish hp hf hz hn h1 =>
    refine h.unwritten rfl rfl (fun k => ?_) fun k hk => ?_
    · change ((s.procs _).files k).mode ≠ oWrite
      rw [hf]
      decide
    · have hw := hk.2
      rw [hf] at hw
      exact absurd hw (by decide)
  | bury hp hf hz hsome =>
    rename_i parent p
    have hzombie : ((s.release p).setState p .zombie).Durable := by
      refine h.unwritten rfl rfl (fun k => ?_) fun k hk => ?_
      · change ((s.procs _).files k).mode ≠ oWrite
        rw [hf]
        decide
      · have hw := hk.2
        rw [hf] at hw
        exact absurd hw (by decide)
    unfold State.bury
    dsimp only
    split
    next hw => exact hzombie.alike rfl rfl rfl (by rintro ⟨⟩) (by rintro ⟨⟩)
    next => exact hzombie
  | wake hw => exact h.alike rfl rfl rfl (by rintro ⟨⟩) (by rintro ⟨⟩)
  | spawned hv hf ho hm hp =>
    refine h.unwritten rfl rfl (fun k => ?_) fun k hk => hk.1 hf
    change (0 : Word) ≠ oWrite
    decide
  | claim hp hc hf =>
    rename_i p
    refine h.keep (by rw [s.claim_eq]; exact .refl s.io) (fun i k => ?_) fun i k hk => ?_
    · obtain ⟨m, hproc⟩ := s.claim_procs p i
      rw [hproc]
      exact h.zombie
    · obtain ⟨m, hproc⟩ := s.claim_procs p i
      rw [State.Writes, hproc]
      exact hk
  | run hi hc => exact h.alike rfl rfl rfl (by rintro ⟨⟩) (by rintro ⟨⟩)

theorem State.Tried.of_same {s s' : State} (h : s.Tried) (hm : s'.io.fs.mounted = s.io.fs.mounted)
    (hd : s.io.fs.mounted = false → s'.io.disk.image = s.io.disk.image ∧
      s'.io.disk.size = s.io.disk.size) : s'.Tried := by
  intro hno
  rw [hm] at hno
  obtain ⟨hi, hz⟩ := hd hno
  rw [Disk.capacity, hi, hz]
  exact h hno

theorem State.Tried.flush {s s' : State} (h : s.Tried) (hio : s'.io = (fsFlush s.io.clean).2) :
    s'.Tried := by
  refine h.of_same ?_ fun hm => ?_
  · rw [hio, (fsFlush_any s.io.clean).fs]
    rfl
  · have hidle : (fsFlush s.io.clean).2 = s.io.clean := by
      refine congrArg Prod.snd (if_neg ?_)
      rw [Io.clean, hm]
      exact Bool.false_ne_true
    rw [hio, hidle]
    exact ⟨rfl, rfl⟩

theorem State.tried_of_mounted {s : State} (h : s.io.fs.mounted = true) : s.Tried := by
  intro hno
  rw [h] at hno
  cases hno

theorem Act.tried (ha : Act b s s') (hd : s.Descriptors) (h : s.Durable) (ht : s.Tried) :
    s'.Tried := by
  cases ha with
  | mount hf hm => exact fsMount_tried s.io.clean (s.io.clean_sameFiles.sound h.sound)
  | files hf => exact ht.of_same hf.mounted fun _ => ⟨hf.image, hf.size⟩
  | flush => exact ht.flush rfl
  | create hm hf hn h0 hb =>
    refine State.tried_of_mounted ?_
    rw [(fsFlush_any _).fs]
    exact hm
  | write hp hm =>
    rename_i p k src length
    refine State.tried_of_mounted ?_
    have hopen : s.Opens p k ((s.procs p).files k) := by
      refine ⟨?_, rfl, ?_⟩
      · rw [hp]
        rintro ⟨⟩
      · rw [hm]
        decide
    exact (fsWrite_any s.io.clean _ _ src length).1.mounted.trans (hd.used hopen).1
  | openWrite hp hk hm hu ho => exact State.tried_of_mounted hm
  | closeWrite hp hm => exact ht.flush rfl
  | claim hp hc hf =>
    rw [s.claim_eq]
    exact ht
  | bury hp hf hz hs =>
    rw [s.bury_eq]
    exact ht
  | _ => exact ht

structure State.Filed (s : State) : Prop where
  descriptors : s.Descriptors
  served : s.Served
  durable : s.Durable

theorem State.UserSame.filed {s s' : State} (hu : s.UserSame s') (h : s.Filed) : s'.Filed := by
  refine ⟨hu.descriptors h.descriptors, h.served.congr hu.fs (by rw [hu.disk]),
    h.durable.same hu.procs ?_⟩
  exact ⟨by rw [hu.fs], by rw [hu.fs], by rw [hu.fs], by rw [hu.fs], by rw [hu.disk],
    by rw [hu.disk], by rw [hu.disk], fun hs => by rw [hu.disk]; exact hs⟩

theorem State.Filed.enter {s : State} (h : s.Filed) : s.enter.Filed := by
  refine ⟨h.descriptors.enter, ?_, h.durable.keep ?_ (fun i k => ?_) fun i k hk => ?_⟩
  · exact h.served.congr (by rw [s.enter_eq]) (by rw [s.enter_eq])
  · rw [s.enter_eq]
    exact .refl s.io
  · obtain ⟨f, hf⟩ := s.enter_proc i
    rw [hf]
    exact h.durable.zombie
  · obtain ⟨f, hf⟩ := s.enter_proc i
    rw [State.Writes, hf]
    exact hk

theorem State.filed_stable (b : Board) : Stable b State.Filed State.Filed where
  act h ha := ⟨ha.descriptors h.descriptors, ha.served h.served,
    ha.durable h.descriptors h.served h.durable⟩
  enter h := h.enter
  resume h _ := ⟨h.descriptors.keep rfl rfl rfl rfl, h.served, h.durable.same rfl (.refl _)⟩
  execute h _ := (State.execute_same b _ _ _).filed h
  elapse h _ := (State.elapse_same _).filed h

theorem State.tried_stable (b : Board) :
    Stable b (fun s => s.Filed ∧ s.Tried) (fun s => s.Filed ∧ s.Tried) where
  act h ha := ⟨(State.filed_stable b).act h.1 ha, ha.tried h.1.descriptors h.1.durable h.2⟩
  enter {s} h := ⟨h.1.enter, h.2.congr (by rw [s.enter_eq]) (by rw [s.enter_eq])⟩
  resume h hy := ⟨(State.filed_stable b).resume h.1 hy, h.2⟩
  execute {s i e} h hc := by
    have hu := s.execute_same b i e
    exact ⟨hu.filed h.1, h.2.congr hu.fs hu.disk⟩
  elapse {s} h hc := ⟨(State.elapse_same s).filed h.1, h.2⟩

theorem State.reset_filed (b : Board) (ho : ∀ n, m.outcome n = .done) :
    (State.reset b m).Filed := by
  have hnone : ∀ {i k o}, ¬ (State.reset b m).Opens i k o := fun ho => absurd rfl ho.1
  refine ⟨⟨fun ho => (hnone ho).elim, fun ho => (hnone ho).elim, fun ho => (hnone ho).elim,
    fun ho => (hnone ho).elim⟩, ?_, ⟨⟨rfl, ho⟩, ?_, ?_, ?_⟩⟩
  · rintro ⟨⟩
  · rintro p k ⟨⟩
  · rintro ⟨⟩
  · rintro ⟨⟩

theorem Reached.filed (hr : Reached b m events s) (ho : ∀ n, m.outcome n = .done) : s.Filed :=
  hr.stable (State.filed_stable b) fun _ hb =>
    ((State.filed_stable b).booted (State.reset_filed b ho) hb).2

theorem Reached.tried (hr : Reached b m events s) (hd : b.disk = true)
    (ho : ∀ n, m.outcome n = .done) : s.Tried := by
  have h := State.tried_stable b
  refine (hr.stable h fun s₀ hb => ?_).2
  obtain ⟨s₁, hreach, htried, hrest⟩ := hb.mounted
  have hfiled := (State.filed_stable b).acts (State.reset_filed b ho) hreach.acts
  exact h.resume (h.acts ⟨hfiled, htried hd ⟨rfl, ho⟩⟩ hrest.acts) hb.ready

/-- The disk mounted afresh holds the store the kernel serves. -/
def State.Mirrored (s : State) : Prop :=
  (fsMount (Io.boot s.io.disk.image s.io.disk.size) s.io.disk.capacity).1 = s.io.fs.mounted ∧
  (s.io.fs.mounted = true → (∃ store, Represents s.io store) ∧
    ∀ store, Represents
      (fsMount (Io.boot s.io.disk.image s.io.disk.size) s.io.disk.capacity).2 store ↔
        Represents s.io store)

theorem State.Filed.mirrored {s : State} (h : s.Filed) (hm : s.io.fs.mounted = true)
    (hc : s.io.Current) : s.Mirrored := by
  obtain ⟨hmount, hiff⟩ := (h.durable.recorded hm).remount (h.served hm) hc
  exact ⟨hmount.trans hm.symm, fun _ => ⟨(h.served hm).exists_store, hiff⟩⟩

theorem State.Tried.mirrored {s : State} (h : s.Tried) (hm : s.io.fs.mounted = false) :
    s.Mirrored := by
  refine ⟨?_, fun hmt => absurd (hm.symm.trans hmt) Bool.false_ne_true⟩
  rw [hm]
  by_contra hmount
  rw [Bool.not_eq_false] at hmount
  have hsound : (Io.boot s.io.disk.image s.io.disk.size).disk.Sound := ⟨rfl, fun _ => rfl⟩
  exact h hm ((fsMount_sound _ hsound).1.1 hmount)

theorem State.Flushed.current {s : State} (hf : s.Flushed) (h : s.Filed)
    (hm : s.io.fs.mounted = true) : s.io.Current := by
  obtain ⟨io, hio⟩ := hf
  have hfs : io.fs = s.io.fs := by rw [hio, (fsFlush_any io).fs]
  have hsize : io.disk.size = s.io.disk.size := by rw [hio, (fsFlush_any io).size]
  have hsound : io.disk.Sound := by
    refine ⟨?_, ?_⟩
    · have hnone := h.durable.sound.1
      rw [hio, fsFlush, hfs, hm, if_pos rfl] at hnone
      by_contra hsome
      have hgone : virtioTransfer io.disk 1 1 = (0, false, io.disk) :=
        if_pos (Option.isSome_iff_ne_none.2 hsome)
      dsimp only [Disk.transferOut] at hnone
      rw [hgone] at hnone
      exact hsome hnone
    · rw [← (fsFlush_any io).outcome, ← hio]
      exact h.durable.sound.2
  have hmounted : io.Mounted :=
    (h.served hm).congr (by rw [hfs]) (by rw [hfs]) (by rw [hfs]) (by rw [hfs]) hsize
  obtain ⟨io', hrun, hw⟩ := fsFlush_spec io hmounted hsound
  rw [hio, hrun]
  exact hw.flushed_current

theorem State.Filed.halted {s s' : State} (h : s.Filed) (he : Ends b S (.halt code) s s')
    (hm : s'.io.fs.mounted = true) : s'.Mirrored := by
  cases he with
  | halt hw =>
    refine h.mirrored hm ?_
    cases hwriting : s.writing with
    | false => exact h.durable.current hm hwriting
    | true => exact (hw hwriting).current h hm

/-- With no file open for writing, and after a halt, the disk holds what is served. -/
theorem disk_mirrors_store (b : Board) (m : Machine) (events : List Event) (hd : b.disk = true)
    (ho : ∀ n, m.outcome n = .done) :
    (∀ s, Reached b m events s → s.writing = false → s.Mirrored) ∧
    ∀ code s, Stopped b m events (.halt code) s → s.io.fs.mounted = true → s.Mirrored := by
  constructor
  · intro s hr hw
    have h := hr.filed ho
    cases hm : s.io.fs.mounted with
    | true => exact h.mirrored hm (h.durable.current hm hw)
    | false => exact (hr.tried hd ho).mirrored hm
  · intro code s hstop hm
    rcases hstop.cases with ⟨s₁, hr, he⟩ | ⟨before, cause, tval, rest, s₀, s₁, -, hr, hreach, he⟩
    · exact ((State.filed_stable b).acts (State.reset_filed b ho) hr.acts).halted he hm
    · exact ((State.filed_stable b).acts (hr.filed ho).enter hreach.acts).halted he hm

theorem disk_mirrors_store_closed : ∃ s,
    Reached (diskBoardOf [⟨"sh", 0, 0⟩]) quietDisk (.store 0x80100100 1 97 ::
      callFrom 0 16 [(10, 0x80100100), (11, 6)] ++ callFrom 0 17 [(10, 3)]) s ∧
    inUse s.io.fs 0 = true ∧ s.Mirrored := by
  have h : reaches (diskBoardOf [⟨"sh", 0, 0⟩]) quietDisk (.store 0x80100100 1 97 ::
      callFrom 0 16 [(10, 0x80100100), (11, 6)] ++ callFrom 0 17 [(10, 3)])
      (fun s => !s.writing && inUse s.io.fs 0) = true := by
    decide +kernel
  obtain ⟨s, hs, ht⟩ := reaches_iff.1 h
  simp only [Bool.and_eq_true, Bool.not_eq_true'] at ht
  have hmirrored := (disk_mirrors_store (diskBoardOf [⟨"sh", 0, 0⟩]) quietDisk
    (.store 0x80100100 1 97 :: callFrom 0 16 [(10, 0x80100100), (11, 6)] ++
      callFrom 0 17 [(10, 3)]) rfl fun _ => rfl).1 s hs ht.1
  exact ⟨s, hs, ht.2, hmirrored⟩

end TinyProcessors
