import TinyProcessors.Os.Syscalls

namespace TinyProcessors

/-- What a trap from `s` may touch of RAM. -/
def State.scope (b : Board) (s : State) (cause : Word) : Scope where
  reads x := ∃ p, s.current = some p ∧ s.Own p x
  words x := ∃ p, s.current = some p ∧ x = (s.procs p).f.pc.toNat
  writes x := (cause = 11 ∨ cause = 8) ∧ ∃ p, s.current = some p ∧ (s.Fills p x ∨
    s.call p = some .spawn ∧
      (b.Buffers x ∨ ∃ e : Program, e.Valid ∧ s.overlaps e = false ∧ e.Spans x))

theorem State.scope_covers (hc : State.current s = some p) (he : cause = 11 ∨ cause = 8) :
    Covers b (s.scope b cause) s p e where
  own _ hx := ⟨p, hc, hx⟩
  fills _ hx := ⟨he, p, hc, .inl hx⟩
  buffers hs _ hx := ⟨he, p, hc, .inr ⟨hs, .inl hx⟩⟩
  spans hs hv ho _ hx := ⟨he, p, hc, .inr ⟨hs, .inr ⟨e, hv, ho, hx⟩⟩⟩

structure State.Sane (b : Board) (s : State) : Prop where
  checked : b.Checked
  mounted : s.io.fs.mounted = true → s.io.Mounted
  running : ∀ p, s.current = some p → (s.procs p).state = .running
  fits : ∀ p, (s.procs p).alive = true → s.Fits p

theorem Proc.alive_of_running {q : Proc} (h : q.state = .running) : q.alive = true := by
  rw [Proc.alive, h]
  rfl

theorem putPlace_calm (p : Fin 8) (s : State) : Calmly b S (putPlace b p) s := by
  refine .read ?_
  split
  · refine .seq (kputBytes_calm _ s) fun _ s₁ _ => ?_
    exact .seq (kputs_calm _) fun _ s₂ _ => kputhexShort_calm _
  · exact kputhex_calm _

theorem kill_acting (s : State) (cause tval : Word) (hp : (s.procs p).state = .running) :
    Acting b S (kill b p cause tval) s := by
  have hreport : ∀ m : Kernel Unit, (∀ s', Calmly b S m s') →
      ∀ k : Kernel Unit, (∀ s', (s'.procs p).state = .running →
        Acting b S k s') →
      ∀ s', (s'.procs p).state = .running → Acting b S (m >>= fun _ => k) s' :=
    fun m hm k hk s' hp' => .bind (hm s').acting fun _ s₁ _ ⟨h₁, _⟩ => hk s₁ (by rw [h₁.procs, hp'])
  refine .read ?_
  refine hreport _ (fun _ => kputs_calm _) _ (hreport _ (fun _ => kputdec_calm _) _ ?_) s hp
  refine hreport _ (fun _ => kputs_calm _) _ (hreport _ (fun s' => kputBytes_calm _ s') _ ?_)
  refine hreport _ (fun _ => kputs_calm _) _ (hreport _ (fun _ => kputdec_calm _) _ ?_)
  refine hreport _ (fun _ => kputs_calm _) _ (hreport _ (fun s' => putPlace_calm p s') _ ?_)
  refine hreport _ (fun _ => kputs_calm _) _ (hreport _ (fun _ => kputhex_calm _) _ ?_)
  refine hreport _ (fun _ => when_calm fun _ => kputs_calm _) _ ?_
  refine hreport _ (fun _ => kputs_calm _) _ fun s' hp' => ?_
  exact Does.mono (finish_acting s' _ hp') fun _ _ _ _ => trivial

theorem reportDiskFailure_calm (s : State) :
    Calmly b S (reportDiskFailure b) s := by
  refine .read ?_
  split
  · exact .pure trivial
  · refine when_calm fun _ => .seq (modifyVars_calm rfl) fun _ s₁ _ => ?_
    refine .seq (kputs_calm _) fun _ s₂ _ => .seq (kputs_calm _) fun _ s₃ _ => kputs_calm _

theorem trappedInstruction_calm (s : State) (tval : Word)
    (hw : S.words (s.procs p).f.pc.toNat) :
    Calmly b S (trappedInstruction b p tval) s := by
  refine .read ?_
  split
  · exact .pure trivial
  · refine .seq (bus_calm (.word hw) (by rintro ⟨⟩)) fun _ s₁ _ => ?_
    exact .read (.pure trivial)

theorem State.claim_eq (s : State) (p : Fin 8) : s.claim p = { s with
    procs := (s.claim p).procs
    spaces := (s.claim p).spaces
    hart := (s.claim p).hart
    fpuOwner := some p } := by
  unfold State.claim State.fpuLoad State.giveUp
  split
  · rfl
  · dsimp only
    split <;> rfl

theorem State.claim_procs (s : State) (p i : Fin 8) :
    ∃ mstatus, (s.claim p).procs i =
      { s.procs i with f := { (s.procs i).f with mstatus := mstatus } } := by
  have hgive : ∃ mstatus, s.giveUp.procs i =
      { s.procs i with f := { (s.procs i).f with mstatus := mstatus } } := by
    unfold State.giveUp
    split
    · exact ⟨_, rfl⟩
    next o ho =>
      dsimp only
      have hsaved : (if (s.procs o).f.mstatus &&& mstatusFs = mstatusFs then s.fpuSave o
          else s).procs = s.procs := by
        split <;> rfl
      by_cases hi : i = o
      · subst hi
        rw [State.setProc_self, hsaved]
        exact ⟨_, rfl⟩
      · rw [State.setProc_of_ne _ _ hi, hsaved]
        exact ⟨_, rfl⟩
  obtain ⟨m, hm⟩ := hgive
  have hload : (s.giveUp.fpuLoad p).procs = s.giveUp.procs := rfl
  have hclaim : (s.claim p).procs = ((s.giveUp.fpuLoad p).setProc p fun q => { q with
      f := { q.f with mstatus := q.f.mstatus ||| mstatusFsClean } }).procs := rfl
  rw [hclaim]
  by_cases hi : i = p
  · subst hi
    rw [State.setProc_self, hload, hm]
    exact ⟨_, rfl⟩
  · rw [State.setProc_of_ne _ _ hi, hload, hm]
    exact ⟨m, rfl⟩

theorem claimFpu_acting (s : State) (word : Word) (hp : (s.procs p).state = .running)
    (hc : s.current = some p) :
    Acting b S (claimFpu b p word) s fun r s' => r = false → s' = s := by
  refine .read ?_
  split
  next => exact .pure fun _ => rfl
  next hn =>
    simp only [not_or, not_not] at hn
    refine .bind (P := fun _ s₁ => s₁ = s.claim p) (Acting.modify (.claim hp hc hn.1) ?_ ?_ rfl) ?_
    · rw [s.claim_eq]
    · rw [s.claim_eq]
    · rintro _ s₁ _ rfl
      refine .read ?_
      split
      next hs =>
        refine panic_acting (.fpu ?_ rfl hs)
        obtain ⟨m, hm⟩ := s.claim_procs p p
        rw [hm]
        exact hp
      next => exact .pure (by rintro ⟨⟩)

theorem preempt_acting (s : State) (p : Fin 8) :
    Acting b S (preempt b p) s := by
  refine .bind (nextReadyFrom_acting _ none s) fun next s₁ _ _ => ?_
  by_cases hc : (s₁.procs p).state = .running ∧ next ≠ none ∧ next ≠ some p
  · refine Acting.modify ?_ ?_ ?_ trivial
    · rw [if_pos hc]
      exact .park hc.1 (.inl rfl) fun _ => rfl
    · rw [if_pos hc]
      rfl
    · rw [if_pos hc]
      rfl
  · refine Does.modify ?_ trivial
    rw [if_neg hc]
    exact refl_of (Reach b S) s₁

theorem timerInterrupt_acting (s : State) :
    Acting b S (timerInterrupt b) s := by
  refine .bind (mtime_calm s).acting fun now s₁ _ _ => ?_
  refine .bind (setTimer_calm _).acting fun _ s₂ _ _ => .read ?_
  split
  · exact .pure trivial
  · exact preempt_acting s₂ _

theorem exception_acting (s : State) (hs : s.Sane b) (hc : s.current = some p)
    (cause tval : Word) :
    Acting b (s.scope b cause) (exception b p cause tval) s := by
  have hp := hs.running p hc
  have hf := hs.fits p (Proc.alive_of_running hp)
  unfold exception
  split
  next he =>
    obtain ⟨-, hcall⟩ := syscall_acting hp hf hs.checked hs.mounted
      fun _ => State.scope_covers (b := b) hc he
    refine .bind hcall fun _ s₁ _ _ => ?_
    exact Does.mono (reportDiskFailure_calm s₁).acting fun _ _ _ _ => trivial
  next =>
    split
    next =>
      have hw : (s.scope b cause).words (s.procs p).f.pc.toNat := ⟨p, hc, rfl⟩
      refine .bind (trappedInstruction_calm s tval hw).acting
        fun word s₁ _ ⟨h₁, _⟩ => ?_
      have hp₁ : (s₁.procs p).state = .running := by rw [h₁.procs, hp]
      refine .bind (claimFpu_acting s₁ word hp₁ (h₁.current.trans hc)) fun claimed s₂ _ h₂ => ?_
      refine when_acting (fun hn => ?_) fun _ => trivial
      rw [h₂ (by simpa using hn)]
      exact kill_acting s₁ cause tval hp₁
    next => exact kill_acting s cause tval hp

theorem service_acting (s : State) (hs : s.Sane b) (cause tval : Word) :
    Acting b (s.scope b cause) (service b cause tval) s := by
  refine .read ?_
  split
  · unfold interrupt
    split
    · exact Does.mono (externalInterrupt_calm s).acting fun _ _ _ _ => trivial
    · split
      · exact timerInterrupt_acting s
      · exact .pure trivial
  · split
    next => exact panic_acting (.other (by simp))
    next p hc => exact exception_acting s hs hc cause tval

/-- All a trap does, as transitions. -/
theorem kernelTrap_acting (s : State) (hs : s.Sane b) (cause tval : Word) :
    Acting b (s.scope b cause) (kernelTrap b cause tval) s fun _ s' =>
      ∃ before, s'.Ready b before := by
  refine .bind (service_acting s hs cause tval) fun _ s₁ _ _ => ?_
  exact Does.mono (schedule_acting s₁) fun _ s₂ _ h => ⟨_, h⟩

end TinyProcessors
