import TinyProcessors.Os.Finishing

namespace TinyProcessors

theorem State.Same.refl (s : State) : s.Same s := ⟨rfl, rfl, rfl, rfl, rfl, rfl⟩

theorem orElse_calm {m : Kernel α} (known : Option α) (h : Calmly b S m s) :
    Calmly b S (orElse known m) s := by
  cases known with
  | none => exact h
  | some a => exact .pure trivial

structure State.Woken (s s' : State) : Prop where
  procs : ∀ i, s'.procs i = s.procs i ∨
    ((s.procs i).state ≠ .running ∧ (s'.procs i).state ≠ .running)
  current : s'.current = s.current
  protectedPid : s'.protectedPid = s.protectedPid

theorem State.Same.woken {s s' : State} (h : s.Same s') : s.Woken s' :=
  ⟨fun i => .inl (congrFun h.procs i), h.current, h.protectedPid⟩

theorem State.Woken.trans {s s₁ s₂ : State} (h₁ : s.Woken s₁) (h₂ : s₁.Woken s₂) :
    s.Woken s₂ := by
  refine ⟨fun i => ?_, h₂.current.trans h₁.current, h₂.protectedPid.trans h₁.protectedPid⟩
  rcases h₁.procs i with he₁ | ⟨hn₁, hn₁'⟩ <;> rcases h₂.procs i with he₂ | ⟨hn₂, hn₂'⟩
  · exact .inl (he₂.trans he₁)
  · exact .inr ⟨he₁ ▸ hn₂, hn₂'⟩
  · exact .inr ⟨hn₁, he₂ ▸ hn₁'⟩
  · exact .inr ⟨hn₁, hn₂'⟩

theorem wake_acting [Decidable c] (s : State) (i : Fin 8)
    (hw : (s.procs i).state = .blockedRead ∨ (s.procs i).state = .blockedSleep) :
    Acting b S (when c (modify fun s => s.setState i .ready)) s fun _ s' => s.Woken s' := by
  refine when_acting (fun _ => Acting.modify (.wake hw) rfl rfl ⟨fun j => ?_, rfl, rfl⟩)
    fun _ => (State.Same.refl s).woken
  by_cases hj : j = i
  · subst hj
    rw [State.setState, State.setProc_self]
    refine .inr ⟨?_, by rintro ⟨⟩⟩
    rcases hw with h | h <;> rw [h] <;> rintro ⟨⟩
  · exact .inl (s.setProc_of_ne _ hj)

theorem wakeBlocked_acting (l : List (Fin 8)) (now : BitVec 64) (ready : Option Bool) (s : State) :
    Acting b S (wakeBlocked b l now ready) s fun _ s' => s.Woken s' := by
  induction l generalizing now ready s with
  | nil => exact .pure (State.Same.refl s).woken
  | cons i rest ih =>
    refine .read ?_
    split
    next hi =>
      refine .bind (orElse_calm ready (consoleReady_calm s)).acting fun r s₁ _ ⟨h₁, _⟩ => ?_
      refine .bind (wake_acting s₁ i (.inl (by rw [h₁.procs, hi]))) fun _ s₂ _ h₂ => ?_
      exact Does.mono (ih now (some r) s₂) fun _ s₃ _ h₃ => (h₁.same.woken.trans h₂).trans h₃
    next hi =>
      refine .bind (orElse_calm _ (mtime_calm s)).acting fun t s₁ _ ⟨h₁, _⟩ => ?_
      refine .bind (wake_acting s₁ i (.inr (by rw [h₁.procs, hi]))) fun _ s₂ _ h₂ => ?_
      exact Does.mono (ih t ready s₂) fun _ s₃ _ h₃ => (h₁.same.woken.trans h₂).trans h₃
    next => exact ih now ready s

theorem enginesBusy_acting (s : State) :
    Acting b S (enginesBusy b) s fun r s' => s.Same s' ∧
      (r = false → s'.vars.enginesUsed = false ∨ s'.dev.Idle b) := by
  refine .read ?_
  split
  next hu => exact .pure ⟨.refl s, fun _ => .inl (by simpa using hu)⟩
  next =>
    refine .bind (g1Busy_calm s).acting fun busy s₁ _ ⟨h₁, hg₁⟩ => ?_
    split
    next => exact .pure ⟨h₁.same, by rintro ⟨⟩⟩
    next hb₁ =>
      refine .bind (g2Busy_calm s₁).acting fun busy s₂ _ ⟨h₂, hg₂⟩ => ?_
      split
      next => exact .pure ⟨h₁.same.trans h₂.same, by rintro ⟨⟩⟩
      next hb₂ =>
        have hidle : s₂.dev.Idle b := by
          refine ⟨fun hb => ?_, hg₂ (by simpa using hb₂)⟩
          have hfree := hg₁ (by simpa using hb₁) hb
          by_contra hbusy
          rw [((h₂.advances).g1 (by simpa using hbusy)).1] at hfree
          cases hfree
        have hsame : s.Same { s₂ with vars := { s₂.vars with enginesUsed := s₂.driverAlive } } :=
          (h₁.same.trans h₂.same).trans ⟨rfl, rfl, rfl, rfl, rfl, rfl⟩
        refine .bind (P := fun _ s₃ => s.Same s₃ ∧ s₃.dev.Idle b)
          (Acting.modify (.settle hidle) rfl rfl ⟨hsame, hidle⟩) fun _ s₃ _ ⟨h₃, hi₃⟩ => ?_
        exact .pure ⟨h₃, fun _ => .inr hi₃⟩

theorem orElse_acting {m : Kernel α} {R : State → Prop} (known : Option α)
    (h : Acting b S m s fun _ s' => R s') (hr : R s) :
    Acting b S (orElse known m) s fun _ s' => R s' := by
  cases known with
  | none => exact h
  | some a => exact .pure hr

theorem nextReadyFrom_acting (l : List (Fin 8)) (busy : Option Bool) (s : State) :
    Acting b S (nextReadyFrom b l busy) s fun r s' => s.Same s' ∧
      ∀ i, r = some i → (s.procs i).state = .ready := by
  induction l generalizing busy s with
  | nil => exact .pure ⟨.refl s, by rintro i ⟨⟩⟩
  | cons i rest ih =>
    refine .read ?_
    split
    next => exact ih busy s
    next hr =>
      have hready : (s.procs i).state = .ready := by simpa using hr
      split
      next => exact .pure ⟨.refl s, by rintro _ ⟨⟩; exact hready⟩
      next =>
        refine .bind (orElse_acting busy (Does.mono (enginesBusy_acting s)
          fun _ _ _ h => h.1) (.refl s)) fun _ s₁ _ h₁ => ?_
        split
        next =>
          refine Does.mono (ih _ s₁) fun r s₂ _ ⟨h₂, hi⟩ => ⟨h₁.trans h₂, fun j hj => ?_⟩
          rw [← h₁.procs]
          exact hi j hj
        next => exact .pure ⟨h₁, by rintro _ ⟨⟩; exact hready⟩

def State.Given (s : State) (next : Option (Fin 8)) : Prop :=
  s.current = next ∧ ∀ i, next = some i → (s.procs i).state = .running

theorem pickNext_acting (s : State) (after : Option (Fin 8))
    (hc : ∀ j, s.current = some j → (s.procs j).state ≠ .running) :
    Acting b S (pickNext b after) s fun r s' =>
      s'.Given r ∧ s'.protectedPid = s.protectedPid := by
  refine .bind (nextReadyFrom_acting _ none s) fun next s₁ _ ⟨h₁, hn⟩ => ?_
  have hc₁ : ∀ j, s₁.current = some j → (s₁.procs j).state ≠ .running := by
    rw [h₁.current, h₁.procs]
    exact hc
  cases next with
  | none =>
    refine .bind (P := fun _ s₂ => s₂.Given none ∧ s₂.protectedPid = s.protectedPid)
      (Acting.modify (.rest hc₁) rfl rfl ⟨⟨rfl, by rintro i ⟨⟩⟩, h₁.protectedPid⟩)
      fun _ s₂ _ h₂ => .pure h₂
  | some i =>
    refine .bind (P := fun _ s₂ => s₂.Given (some i) ∧ s₂.protectedPid = s.protectedPid)
      (Acting.modify (.run (by rw [h₁.procs, hn i rfl]) hc₁) rfl rfl
        ⟨⟨rfl, ?_⟩, h₁.protectedPid⟩) fun _ s₂ _ h₂ => .pure h₂
    rintro j ⟨⟩
    change ((s₁.setState i .running).procs i).state = .running
    rw [State.setState, State.setProc_self]

theorem dispatch_acting (s : State) :
    Acting b S (dispatch b) s fun r s' => s'.Given r ∧ s'.protectedPid = s.protectedPid := by
  refine .read ?_
  split
  next i hi =>
    split
    next hrun => exact .pure ⟨⟨hi, by rintro j ⟨⟩; exact hrun⟩, rfl⟩
    next hrun =>
      refine pickNext_acting s (some i) ?_
      rw [hi]
      rintro j ⟨⟩
      exact hrun
  next hn =>
    refine pickNext_acting s none ?_
    rw [hn]
    rintro j ⟨⟩

def State.Protected (b : Board) (s : State) (i : Fin 8) (before : Word) : Prop :=
  s.protectedPid = (s.procs i).pid ∧ (before ≠ (s.procs i).pid → b.dmaWindow = true →
    s.dev.window = ⟨(s.procs i).base, (s.procs i).base + (s.procs i).span⟩)

theorem setWindow_acting (s : State) (hi : (s.procs i).state = .running)
    (hc : s.current = some i) :
    Acting b S (setWindow b (s.procs i)) s fun _ s' => s.Same s' ∧ (b.dmaWindow = true →
      s'.dev.window = ⟨(s.procs i).base, (s.procs i).base + (s.procs i).span⟩) := by
  refine when_acting (fun _ => ?_) fun hn => ⟨.refl s, fun hw => absurd hw hn⟩
  refine .bind (register_calm rfl fun _ => rfl).acting
    fun _ s₁ _ ⟨h₁, _⟩ => ?_
  refine .bind (register_calm rfl fun _ => rfl).acting
    fun _ s₂ _ ⟨h₂, _⟩ => ?_
  have h₀₂ := h₁.same.trans h₂.same
  rw [← h₀₂.procs] at hi ⊢
  refine Acting.modify (.window hi (h₀₂.current.trans hc)) rfl rfl ⟨?_, fun _ => rfl⟩
  exact h₀₂.trans ⟨rfl, rfl, rfl, rfl, rfl, rfl⟩

theorem protect_acting (s : State) (hi : (s.procs i).state = .running)
    (hc : s.current = some i) :
    Acting b S (protect b i) s fun _ s' =>
      s'.Given (some i) ∧ s'.Protected b i s.protectedPid := by
  have hgiven : ∀ s' : State, s'.procs = s.procs → s'.current = s.current →
      s'.Given (some i) := by
    intro s' hp hcur
    refine ⟨hcur.trans hc, ?_⟩
    rintro j ⟨⟩
    rw [hp, hi]
  refine .read (when_acting (fun _ => ?_) fun he => ?_)
  · refine Acting.update (.protect hi hc) rfl rfl ?_
    have hw := setWindow_acting (b := b) (S := S) { s with
      protectedPid := (s.procs i).pid
      hart := s.hart.protect b i (s.procs i) } hi hc
    refine Does.mono hw fun _ s₁ _ ⟨h₁, hw⟩ => ?_
    refine ⟨hgiven s₁ h₁.procs h₁.current, ?_⟩
    rw [State.Protected, h₁.procs]
    exact ⟨h₁.protectedPid, fun _ => hw⟩
  · simp only [ne_eq, not_not] at he
    exact ⟨hgiven s rfl rfl, he.symm, fun hne => absurd he.symm hne⟩

theorem engage_acting (s : State) (hg : s.Given (some i)) :
    Acting b S (engage b i) s fun _ s' =>
      s'.Given (some i) ∧ s'.Protected b i s.protectedPid := by
  refine .read (.bind (P := fun _ s₁ => s.Same s₁) (when_acting (fun _ => ?_) fun _ => .refl s) ?_)
  · exact Acting.modify .engage rfl rfl ⟨rfl, rfl, rfl, rfl, rfl, rfl⟩
  · intro _ s₁ _ h₁
    rw [← h₁.protectedPid]
    exact protect_acting s₁ (by rw [h₁.procs, hg.2 i rfl]) (h₁.current.trans hg.1)

/-- The machine is where a kernel exit leaves it. -/
def State.Ready (b : Board) (s : State) (before : Word) : Prop :=
  ∀ i, s.current = some i → (s.procs i).state = .running ∧ s.Protected b i before

theorem schedule_acting (s : State) :
    Acting b S (schedule b) s fun _ s' => s'.Ready b s.protectedPid := by
  refine .bind (wakeBlocked_acting _ 0 none s) fun _ s₁ _ h₁ => ?_
  refine .bind (dispatch_acting s₁) fun next s₂ _ ⟨h₂, hp₂⟩ => ?_
  rw [← h₁.protectedPid, ← hp₂]
  cases next with
  | none =>
    refine .pure ?_
    intro i hi
    rw [h₂.1] at hi
    cases hi
  | some i =>
    refine Does.mono (engage_acting s₂ h₂) fun _ s₃ _ ⟨hg, hprot⟩ => ?_
    intro j hj
    rw [hg.1] at hj
    cases hj
    exact ⟨hg.2 i rfl, hprot⟩

end TinyProcessors
