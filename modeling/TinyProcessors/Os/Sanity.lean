import TinyProcessors.Os.Slots
import TinyProcessors.Fs.Mount

namespace TinyProcessors

def State.Served (s : State) : Prop := s.io.fs.mounted = true → s.io.Mounted

theorem State.Served.congr {s s' : State} (h : s.Served) (hf : s'.io.fs = s.io.fs)
    (hz : s'.io.disk.size = s.io.disk.size) : s'.Served := by
  intro hm
  rw [hf] at hm
  exact (h hm).congr (by rw [hf]) (by rw [hf]) (by rw [hf]) (by rw [hf]) hz

theorem Act.served (ha : Act b s s') (h : s.Served) : s'.Served := by
  cases ha with
  | mount hf hm =>
    intro hmounted
    rcases fsMount_cases s.io.clean s.io.disk.capacity with ⟨-, he⟩ | ⟨_, _, _, _, _, _, _, he⟩
    · have hfalse := he.symm.trans hmounted
      change s.io.fs.mounted = true at hfalse
      rw [hm] at hfalse
      cases hfalse
    · exact fsMount_mounted s.io.clean (congrArg Prod.fst he)
  | files hs => exact fun hm => hs.isMounted (h (hs.mounted.symm.trans hm))
  | flush =>
    have hf := fsFlush_any s.io.clean
    exact h.congr hf.fs hf.size
  | create hm hfree hn h0 hb =>
    intro _
    have hset := (h hm).clean.setEntry ((h hm).free _ hfree) hb
    exact (fsFlush_any _).isMounted hset
  | write hp hm =>
    rename_i p k src length
    have hw := (fsWrite_any s.io.clean ((s.procs p).files k).file ((s.procs p).files k).position
      src length).1
    exact fun hmt => hw.isMounted (h (hw.mounted.symm.trans hmt)).clean
  | openWrite hp hk hm hu ho => exact fun _ => (h hm).resize _ 0 (.inr (Nat.zero_le _))
  | closeWrite hp hm =>
    have hf := fsFlush_any s.io.clean
    exact h.congr hf.fs hf.size
  | claim hp hc hf =>
    rw [s.claim_eq]
    exact h
  | bury hp hf hz hs =>
    rw [s.bury_eq]
    exact h
  | calm hd hv => exact h.congr rfl rfl
  | settle hi => exact h
  | engage => exact h
  | idle x => exact h
  | move => exact h
  | openRead => exact h
  | closeRead => exact h
  | sbrk => exact h
  | complete => exact h
  | skip => exact h
  | park => exact h
  | wait => exact h
  | reap => exact h
  | reapAll => exact h
  | vanish => exact h
  | wake => exact h
  | spawned => exact h
  | run => exact h
  | rest => exact h
  | protect => exact h
  | window => exact h

def State.OneRuns (s : State) : Prop := ∀ i, (s.procs i).state = .running → s.current = some i

theorem State.OneRuns.update {s s' : State} (h : s.OneRuns)
    (he : s'.procs = Function.update s.procs p q)
    (hq : q.state = .running → (s.procs p).state = .running)
    (hc : s'.current = s.current) : s'.OneRuns := by
  intro i hi
  rw [he] at hi
  rw [hc]
  by_cases hip : i = p
  · rw [hip, Function.update_self] at hi
    exact hip ▸ h p (hq hi)
  · rw [Function.update_of_ne hip] at hi
    exact h i hi

theorem Act.oneRuns (ha : Act b s s') (h : s.OneRuns) : s'.OneRuns := by
  have hstop : ∀ {q r : Proc}, q.state ≠ .running →
      (q.state = .running → r.state = .running) := fun hn he => absurd he hn
  cases ha with
  | calm => exact h
  | settle => exact h
  | engage => exact h
  | mount => exact h
  | idle => exact h
  | files => exact h
  | flush => exact h
  | create => exact h
  | write => exact h
  | move | openRead | openWrite | closeRead | closeWrite | sbrk => exact h.update rfl id rfl
  | complete | skip => exact h.update rfl id rfl
  | park hp hst hf =>
    refine h.update rfl (hstop ?_) rfl
    rw [hf]
    rcases hst with rfl | rfl | rfl <;> rintro ⟨⟩
  | wait | reap => exact h.update rfl (hstop (by rintro ⟨⟩)) rfl
  | reapAll hp =>
    rename_i p code
    have hreap : (s.reapChildren p).OneRuns := by
      intro i hi
      unfold State.reapChildren at hi
      dsimp only at hi
      split at hi
      · cases hi
      · exact h i hi
    exact hreap.update rfl id rfl
  | vanish => exact h.update rfl (hstop (by rintro ⟨⟩)) rfl
  | bury hp hf hz hs =>
    rename_i parent p
    have hzombie : ((s.release p).setState p .zombie).OneRuns :=
      h.update rfl (hstop (by rintro ⟨⟩)) rfl
    unfold State.bury
    dsimp only
    split
    · exact hzombie.update rfl (hstop (by rintro ⟨⟩)) rfl
    · exact hzombie
  | wake | spawned => exact h.update rfl (hstop (by rintro ⟨⟩)) rfl
  | claim hp hc hf =>
    rename_i p
    intro i hi
    obtain ⟨m, hm⟩ := s.claim_procs p i
    rw [hm] at hi
    rw [s.claim_eq]
    exact h i hi
  | run hi hc =>
    rename_i i
    intro j hj
    by_cases hji : j = i
    · rw [hji]
    · have hother : (s.setState i .running).procs j = s.procs j := s.setProc_of_ne _ hji
      have hrun : (s.procs j).state = .running := hother ▸ hj
      exact absurd hrun (hc j (h j hrun))
  | rest hc =>
    intro i hi
    exact absurd hi (hc i (h i hi))
  | protect => exact h
  | window => exact h

structure State.Sound (s : State) : Prop where
  layout : s.Layout
  served : s.Served
  oneRuns : s.OneRuns

structure State.Settled (s : State) : Prop extends s.Sound where
  running : ∀ i, s.current = some i → (s.procs i).state = .running

theorem State.setFrame_procs (s : State) (f : Frame) (i : Fin 8) :
    (s.setFrame f).procs i = s.procs i ∨
      (s.current = some i ∧ (s.setFrame f).procs i = { s.procs i with f }) := by
  unfold State.setFrame
  split
  · exact .inl rfl
  next j hj =>
    by_cases hi : i = j
    · subst hi
      exact .inr ⟨hj, s.setProc_self _ _⟩
    · exact .inl (s.setProc_of_ne _ hi)

theorem State.setFrame_self {s : State} (h : s.current = some p) (f : Frame) :
    (s.setFrame f).procs p = { s.procs p with f } := by
  unfold State.setFrame
  rw [h]
  exact s.setProc_self p _

theorem State.enter_eq (s : State) : s.enter = { s with
    procs := s.enter.procs
    idleFrame := s.enter.idleFrame
    hart := s.hart.enterHandler
    dev := s.dev.tick } := by
  unfold State.enter State.setFrame
  dsimp only
  split <;> rfl

theorem State.enter_procs (s : State) (i : Fin 8) :
    s.enter.procs i = s.procs i ∨ (s.current = some i ∧ s.enter.procs i = { s.procs i with
      f := ⟨s.hart.x, s.hart.pc, s.hart.enterHandler.mstatusValue⟩ }) :=
  s.setFrame_procs _ i

theorem State.enter_self {s : State} (h : s.current = some p) : s.enter.procs p = { s.procs p with
    f := ⟨s.hart.x, s.hart.pc, s.hart.enterHandler.mstatusValue⟩ } :=
  State.setFrame_self h _

theorem State.enter_proc (s : State) (i : Fin 8) :
    ∃ f, s.enter.procs i = { s.procs i with f } := by
  rcases s.enter_procs i with h | ⟨-, h⟩
  · exact ⟨_, h⟩
  · exact ⟨_, h⟩

theorem State.Sound.enter {s : State} (h : s.Sound) : s.enter.Sound := by
  have hkeep : ∀ i, (s.procs i).Keeps (s.enter.procs i) := by
    intro i
    obtain ⟨f, hf⟩ := s.enter_proc i
    rw [hf]
    exact ⟨id, id, rfl, rfl, rfl⟩
  refine ⟨h.layout.keeps hkeep ?_ ?_, ?_, ?_⟩
  · intro i
    rw [s.enter_eq]
    rfl
  · rw [s.enter_eq]
  · rw [s.enter_eq]
    exact h.served
  · intro i hi
    obtain ⟨f, hf⟩ := s.enter_proc i
    rw [hf] at hi
    rw [s.enter_eq]
    exact h.oneRuns i hi

theorem State.UserSame.settled {s s' : State} (hs : s.UserSame s') (h : s.Settled) :
    s'.Settled where
  layout := h.layout.of_same hs.procs hs.spaces hs.image
  served := h.served.congr hs.fs (by rw [hs.disk])
  oneRuns := by
    rw [State.OneRuns, hs.procs, hs.current]
    exact h.oneRuns
  running := by
    rw [hs.procs, hs.current]
    exact h.running

theorem State.settled_stable (b : Board) : Stable b State.Sound State.Settled where
  act h ha := ⟨ha.layout h.layout, ha.served h.served, ha.oneRuns h.oneRuns⟩
  enter h := h.toSound.enter
  resume h hy := ⟨⟨h.layout.of_same rfl rfl rfl, h.served, h.oneRuns⟩, fun i hi => (hy i hi).1⟩
  execute h _ := (State.execute_same b _ _ _).settled h
  elapse h _ := (State.elapse_same _).settled h

theorem State.Settled.sane {s : State} (h : s.Settled) (hb : b.Checked) : s.enter.Sane b where
  checked := hb
  mounted := h.toSound.enter.served
  running p hp := by
    obtain ⟨f, hf⟩ := s.enter_proc p
    rw [s.enter_eq] at hp
    rw [hf]
    exact h.running p hp
  fits p hp := by
    refine h.toSound.enter.layout.fits p fun hf => ?_
    rw [Proc.alive, hf] at hp
    cases hp

theorem State.reset_sound (b : Board) (m : Machine) : (State.reset b m).Sound where
  layout := ⟨fun _ hp => absurd rfl hp, fun _ _ _ ha => by cases ha⟩
  served := by rintro ⟨⟩
  oneRuns := by rintro i ⟨⟩

theorem Reached.settled (hr : Reached b m events s) :
    b.Checked ∧ (∃ r, checkPageTableBudget b = .ok r) ∧ s.Settled := by
  induction events using List.reverseRecOn generalizing s with
  | nil =>
    obtain ⟨s₀, hk, rfl⟩ := reached_nil.1 hr
    have hb := kernelMain_ok hk
    exact ⟨hb.checked, hb.budget,
      ((State.settled_stable b).booted (State.reset_sound b m) hb).2⟩
  | append_singleton events e ih =>
    obtain ⟨s₀, hr₀, hstep⟩ := reached_snoc hr
    obtain ⟨hc, hbud, hs⟩ := ih hr₀
    exact ⟨hc, hbud, (State.settled_stable b).moves hs (step_moves (hs.sane hc) hstep)⟩

theorem Reached.stable (hr : Reached b m events s) (h : Stable b K U)
    (h₀ : ∀ s, Booted b m s → U s.resume) : U s := by
  induction events using List.reverseRecOn generalizing s with
  | nil =>
    obtain ⟨s₀, hk, rfl⟩ := reached_nil.1 hr
    exact h₀ s₀ (kernelMain_ok hk)
  | append_singleton events e ih =>
    obtain ⟨s₀, hr₀, hstep⟩ := reached_snoc hr
    obtain ⟨hc, -, hs⟩ := hr₀.settled
    exact h.moves (ih hr₀) (step_moves (hs.sane hc) hstep)

theorem Stopped.cases (h : Stopped b m events stop s') :
    (∃ s₁, Reach b b.scope (State.reset b m) s₁ ∧ Ends b b.scope stop s₁ s') ∨
      ∃ before cause tval rest s s₁, events = before ++ .trap cause tval :: rest ∧
        Reached b m before s ∧ Reach b (s.enter.scope b cause) s.enter s₁ ∧
        Ends b (s.enter.scope b cause) stop s₁ s' := by
  rcases stopped_cases h with hb | ⟨before, e, rest, s, he, hr, hstep⟩
  · exact .inl (kernelMain_error hb)
  · obtain ⟨hc, -, hs⟩ := hr.settled
    obtain ⟨cause, tval, s₁, rfl, hreach, hends⟩ := step_stops (hs.sane hc) hstep
    exact .inr ⟨before, cause, tval, rest, s, s₁, he, hr, hreach, hends⟩

end TinyProcessors
