import TinyProcessors.Os.Booting

namespace TinyProcessors

/-- A step of the machine; a trap goes from the kernel's entry to its exit. -/
inductive Moves (b : Board) (s : State) : Event → State → Prop
  | elapse (hc : s.current = none) : Moves b s e s.elapse
  | execute (hc : s.current = some i) : Moves b s e (s.execute b i e)
  | trap (hr : Reach b (s.enter.scope b cause) s.enter s₁) (hy : s₁.Ready b before) :
      Moves b s (.trap cause tval) s₁.resume

theorem trap_acting (cause tval : Word) (hs : s.enter.Sane b) :
    Ensures (trap b cause tval) s
      (fun _ s' => ∃ s₁ before, Reach b (s.enter.scope b cause) s.enter s₁ ∧
        s₁.Ready b before ∧ s' = s₁.resume)
      (fun stop s' => ∃ s₁, Reach b (s.enter.scope b cause) s.enter s₁ ∧
        Ends b (s.enter.scope b cause) stop s₁ s') := by
  have h := kernelTrap_acting s.enter hs cause tval
  change Ensures (do kernelTrap b cause tval; modify State.resume) s.enter _ _
  refine Ensures.bind (Ensures.mono h ?_ ?_)
  · intro _ s₁ ⟨hr, before, hy⟩
    exact ⟨s₁, before, hr, hy, rfl⟩
  · intro stop s' he
    exact he

theorem step_cases (b : Board) (e : Event) (s : State) :
    (∃ cause tval, e = .trap cause tval ∧ step b e s = trap b cause tval s) ∨
    (∃ i, s.current = some i ∧ step b e s = .ok () (s.execute b i e)) ∨
    (s.current = none ∧ step b e s = .ok () s.elapse) := by
  unfold step
  rw [get_bind_apply]
  cases hc : s.current with
  | some i =>
    cases e with
    | trap cause tval => exact .inl ⟨cause, tval, rfl, rfl⟩
    | compute x pc | store va width value | float word loaded => exact .inr (.inl ⟨i, rfl, rfl⟩)
  | none =>
    cases e with
    | trap cause tval =>
      dsimp only
      split
      · exact .inl ⟨cause, tval, rfl, rfl⟩
      · exact .inr (.inr ⟨rfl, rfl⟩)
    | compute x pc | store va width value | float word loaded => exact .inr (.inr ⟨rfl, rfl⟩)

theorem step_moves (hs : s.enter.Sane b) (h : step b e s = .ok () s') : Moves b s e s' := by
  rcases step_cases b e s with ⟨cause, tval, rfl, he⟩ | ⟨i, hc, he⟩ | ⟨hc, he⟩
  · have ht := trap_acting cause tval hs
    rw [Ensures, ← he, h] at ht
    obtain ⟨s₁, before, hr, hy, rfl⟩ := ht
    exact .trap hr hy
  · rw [he] at h
    cases h
    exact .execute hc
  · rw [he] at h
    cases h
    exact .elapse hc

theorem step_stops (hs : s.enter.Sane b) (h : step b e s = .error stop s') :
    ∃ cause tval s₁, e = .trap cause tval ∧ Reach b (s.enter.scope b cause) s.enter s₁ ∧
      Ends b (s.enter.scope b cause) stop s₁ s' := by
  rcases step_cases b e s with ⟨cause, tval, rfl, he⟩ | ⟨i, hc, he⟩ | ⟨hc, he⟩
  · have ht := trap_acting cause tval hs
    rw [Ensures, ← he, h] at ht
    obtain ⟨s₁, hr, hends⟩ := ht
    exact ⟨cause, tval, s₁, rfl, hr, hends⟩
  · rw [he] at h
    cases h
  · rw [he] at h
    cases h

structure Booted (b : Board) (m : Machine) (s : State) : Prop where
  reach : Reach b b.scope (State.reset b m) s
  checked : b.Checked
  budget : ∃ r, checkPageTableBudget b = .ok r
  ready : s.Ready b 0
  mounted : ∃ s₁, Reach b b.scope (State.reset b m) s₁ ∧
    (b.disk = true → (State.reset b m).io.disk.Sound → s₁.Tried) ∧ Reach b b.scope s₁ s

theorem kernelMain_ok (h : kernelMain b (State.reset b m) = .ok () s) : Booted b m s := by
  obtain ⟨hr, hc, hb, hy, hm⟩ := (kernelMain_acting (State.reset b m) (fun _ => rfl) rfl).ok h
  exact ⟨hr, hc, hb, hy, hm⟩

theorem kernelMain_error (h : kernelMain b (State.reset b m) = .error stop s') :
    ∃ s₁, Reach b b.scope (State.reset b m) s₁ ∧ Ends b b.scope stop s₁ s' :=
  (kernelMain_acting (State.reset b m) (fun _ => rfl) rfl).error h

theorem run_append (b : Board) (l l' : List Event) (s : State) :
    run b (l ++ l') s = (run b l >>= fun _ => run b l') s := by
  induction l generalizing s with
  | nil => rfl
  | cons e rest ih =>
    change (step b e >>= fun _ => run b (rest ++ l')) s =
      ((step b e >>= fun _ => run b rest) >>= fun _ => run b l') s
    rw [bind_assoc]
    change EStateM.bind _ _ s = EStateM.bind _ _ s
    unfold EStateM.bind
    split
    next s₁ _ => exact ih s₁
    next => rfl

theorem reached_nil : Reached b m [] s ↔
    ∃ s₀, kernelMain b (State.reset b m) = .ok () s₀ ∧ s = s₀.resume := by
  change EStateM.bind (kernelMain b) (fun _ => modify State.resume >>= fun _ => run b [])
    (State.reset b m) = .ok () s ↔ _
  unfold EStateM.bind
  split
  next s₀ h =>
    rw [h]
    constructor
    · intro he
      cases he
      exact ⟨s₀, rfl, rfl⟩
    · rintro ⟨s₁, he, rfl⟩
      cases he
      rfl
  next h =>
    rw [h]
    constructor
    · rintro ⟨⟩
    · rintro ⟨s₁, ⟨⟩, _⟩

theorem session_append (b : Board) (l l' : List Event) (s : State) :
    session b (l ++ l') s = (session b l >>= fun _ => run b l') s := by
  change (kernelMain b >>= fun _ => modify State.resume >>= fun _ => run b (l ++ l')) s =
    ((kernelMain b >>= fun _ => modify State.resume >>= fun _ => run b l) >>=
      fun _ => run b l') s
  rw [bind_assoc]
  change EStateM.bind _ _ s = EStateM.bind _ _ s
  unfold EStateM.bind
  split
  next s₀ _ => exact run_append b l l' s₀.resume
  next => rfl

theorem reached_snoc (h : Reached b m (events ++ [e]) s') :
    ∃ s, Reached b m events s ∧ step b e s = .ok () s' := by
  rw [Reached, session_append] at h
  change EStateM.bind _ _ _ = _ at h
  unfold EStateM.bind at h
  split at h
  next s hs =>
    refine ⟨s, hs, ?_⟩
    change EStateM.bind (step b e) (fun _ => pure ()) s = .ok () s' at h
    unfold EStateM.bind at h
    split at h
    next s₁ hs₁ =>
      cases h
      exact hs₁
    next => cases h
  next => cases h

theorem reached_step (h : Reached b m events s) (hs : step b e s = .ok () s') :
    Reached b m (events ++ [e]) s' := by
  rw [Reached, session_append]
  change EStateM.bind _ _ _ = _
  unfold EStateM.bind
  rw [show session b events (State.reset b m) = .ok () s from h]
  change EStateM.bind (step b e) (fun _ => pure ()) s = .ok () s'
  unfold EStateM.bind
  rw [hs]
  rfl

theorem stopped_cases (h : Stopped b m events stop s') :
    kernelMain b (State.reset b m) = .error stop s' ∨
      ∃ before e rest s, events = before ++ e :: rest ∧ Reached b m before s ∧
        step b e s = .error stop s' := by
  induction events using List.reverseRecOn with
  | nil =>
    left
    change EStateM.bind (kernelMain b) (fun _ => modify State.resume >>= fun _ => run b [])
      (State.reset b m) = .error stop s' at h
    unfold EStateM.bind at h
    split at h
    next => cases h
    next he =>
      cases h
      exact he
  | append_singleton events e ih =>
    rw [Stopped, session_append] at h
    change EStateM.bind _ _ _ = _ at h
    unfold EStateM.bind at h
    split at h
    next s hs =>
      change EStateM.bind (step b e) (fun _ => pure ()) s = .error stop s' at h
      unfold EStateM.bind at h
      split at h
      next => cases h
      next he =>
        cases h
        exact .inr ⟨events, e, [], s, rfl, hs, he⟩
    next he =>
      cases h
      rcases ih he with hb | ⟨before, e', rest, s, rfl, hr, hstep⟩
      · exact .inl hb
      · exact .inr ⟨before, e', rest ++ [e], s, by simp, hr, hstep⟩

structure State.UserSame (s s' : State) : Prop where
  procs : s'.procs = s.procs
  spaces : s'.spaces = s.spaces
  current : s'.current = s.current
  fpuOwner : s'.fpuOwner = s.fpuOwner
  idleFrame : s'.idleFrame = s.idleFrame
  nextPid : s'.nextPid = s.nextPid
  protectedPid : s'.protectedPid = s.protectedPid
  fs : s'.io.fs = s.io.fs
  disk : s'.io.disk = s.io.disk
  vars : s'.vars = s.vars
  image : s'.image = s.image
  returned : s'.returned = s.returned
  spawned : s'.spawned = s.spawned
  born : s'.born = s.born

theorem State.UserSame.changed (s : State) (tables : Nat → Word) (mem : Bytes) (hart : Hart)
    (dev : Devices) (waiting : Fin 8 → Option Word) :
    s.UserSame { s with tables, io := { s.io with mem }, hart, dev, waiting } := by
  constructor <;> rfl

theorem State.UserSame.refl (s : State) : s.UserSame s := .changed s _ _ _ _ _

theorem State.elapse_same (s : State) : s.UserSame s.elapse := .changed s _ _ _ _ _

theorem State.busStore_eq (h : State.busStore b s address width value = some s') :
    s' = { s with tables := s'.tables, io := { s.io with mem := s'.io.mem }, dev := s'.dev } := by
  unfold State.busStore at h
  dsimp only at h
  split at h
  · split at h
    · cases h
    · cases h
      unfold State.storeRam
      split <;> rfl
  · split at h
    · split at h
      · cases h
      · obtain ⟨g, -, rfl⟩ := Option.map_eq_some_iff.1 h
        rfl
    · split at h
      · split at h
        · cases h
        · obtain ⟨g, -, rfl⟩ := Option.map_eq_some_iff.1 h
          rfl
      · cases h
        rfl

/-- A store leaves the kernel's variables and the hart as they are. -/
theorem State.userStore_eq (h : State.userStore b s va width value = some s') :
    s' = { s with tables := s'.tables, io := { s.io with mem := s'.io.mem }, dev := s'.dev } := by
  unfold State.userStore at h
  split at h
  · cases h
  · split at h
    · cases h
    · exact State.busStore_eq h

theorem State.float_eq (h : State.float b s word loaded = some s') :
    s' = { s with
      tables := s'.tables
      io := { s.io with mem := s'.io.mem }
      dev := s'.dev
      hart := s'.hart } := by
  unfold State.float at h
  split at h
  · cases h
  · dsimp only at h
    split at h
    · cases h
    · obtain ⟨s₁, hs₁, rfl⟩ := Option.map_eq_some_iff.1 h
      have h₁ : s₁ = { s with
          tables := s₁.tables
          io := { s.io with mem := s₁.io.mem }
          dev := s₁.dev } := by
        split at hs₁
        · cases hs₁
          rfl
        · exact State.userStore_eq hs₁
      generalize s₁.tables = tables, s₁.io.mem = mem, s₁.dev = dev at h₁
      subst h₁
      rfl

theorem State.execute_same (b : Board) (s : State) (i : Fin 8) (e : Event) :
    s.UserSame (s.execute b i e) := by
  unfold State.execute
  split
  · exact .changed s _ _ _ _ _
  · split
    · split
      · exact .refl s
      next hs =>
        rw [State.userStore_eq hs]
        exact .changed s _ _ _ _ _
    · exact .refl s
  · split
    · exact .refl s
    next hs =>
      rw [State.float_eq hs]
      exact .changed s _ _ _ _ _
  · exact .refl s

structure Stable (b : Board) (K U : State → Prop) : Prop where
  act : K s → Act b s s' → K s'
  enter : U s → K s.enter
  resume : K s → s.Ready b before → U s.resume
  execute : U s → s.current = some i → U (s.execute b i e)
  elapse : U s → s.current = none → U s.elapse

theorem Stable.acts (h : Stable b K U) (hk : K s) (ha : Relation.ReflTransGen (Act b) s s') :
    K s' := by
  induction ha with
  | refl => exact hk
  | tail _ hs ih => exact h.act ih hs

theorem Stable.moves (h : Stable b K U) (hu : U s) (hm : Moves b s e s') : U s' := by
  cases hm with
  | elapse hc => exact h.elapse hu hc
  | execute hc => exact h.execute hu hc
  | trap hr hy => exact h.resume (h.acts (h.enter hu) hr.acts) hy

theorem Stable.booted (h : Stable b K U) (hk : K (State.reset b m)) (hb : Booted b m s) :
    K s ∧ U s.resume := by
  have hs := h.acts hk hb.reach.acts
  exact ⟨hs, h.resume hs hb.ready⟩

end TinyProcessors
