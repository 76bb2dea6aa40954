import TinyProcessors.Os.Calm

namespace TinyProcessors

abbrev Acting (b : Board) (S : Scope) (m : Kernel α) (s : State)
    (R : α → State → Prop := fun _ _ => True) : Prop :=
  Does (Reach b S) (Ends b S) m s R

theorem Calmly.acting {R : α → State → Prop} (h : Calmly b S m s R) :
    Acting b S m s fun a s' => Calm S s s' ∧ R a s' := by
  refine Ensures.mono h ?_ ?_
  · intro a s' ⟨hc, hr⟩
    exact ⟨hc.reach, hc, hr⟩
  · intro e s' ⟨s₁, hc, he⟩
    exact ⟨s₁, hc.reach, he.ends⟩

theorem when_acting {m : Kernel Unit} [Decidable c] {R : Unit → State → Prop}
    (h : c → Acting b S m s R) (hn : ¬ c → R () s) : Acting b S (when c m) s R := by
  unfold when
  split
  next hc => exact h hc
  next hc => exact .pure (hn hc)

theorem Acting.update {k : PUnit → Kernel α} (ha : Act b s s') (hl : s'.dev.log = s.dev.log)
    (hm : s'.io.mem = s.io.mem) (h : Acting b S (k ()) s' R) :
    Acting b S (set s' >>= k) s R :=
  have he : (set s' >>= k : Kernel α) s = k () s' := rfl
  .jump he (.of_act ha hl hm) h

theorem Acting.modify {f : State → State} {R : PUnit → State → Prop} (ha : Act b s (f s))
    (hl : (f s).dev.log = s.dev.log) (hm : (f s).io.mem = s.io.mem) (h : R () (f s)) :
    Acting b S (modify f : Kernel PUnit) s R :=
  Does.modify (.of_act ha hl hm) h

section FileCalls

theorem fsRest_acting (r : α) (served : Nat) (io : Io) (s : State)
    (hl : ∀ r ∈ io.loads, ∀ k < r.2, S.reads (r.1 + k))
    (hs : ∀ r ∈ io.stores, ∀ k < r.2, S.writes (r.1 + k)) :
    Acting b S (do fsAccesses b served io; return r) s fun a s' => a = r ∧ Calm S s s' :=
  .bind (fsAccesses_calm served io s hl hs).acting fun _ _ _ ⟨hc, _⟩ => .pure ⟨rfl, hc⟩

theorem fsCall_acting {f : Io → α × Io} (s : State)
    (ha : Act b s { s with io := (f s.io.clean).2 })
    (hm : ∀ x, ¬ S.writes x → (f s.io.clean).2.mem x = s.io.mem x)
    (hl : ∀ r ∈ (f s.io.clean).2.loads, ∀ k < r.2, S.reads (r.1 + k))
    (hs : ∀ r ∈ (f s.io.clean).2.stores, ∀ k < r.2, S.writes (r.1 + k)) :
    Acting b S (fsCall b f) s fun a s' =>
      a = (f s.io.clean).1 ∧ Calm S { s with io := (f s.io.clean).2 } s' := by
  have he : fsCall b f s = (do fsAccesses b s.io.disk.served (f s.io.clean).2; return (f s.io.clean).1)
      { s with io := (f s.io.clean).2 } := rfl
  exact .jump he ⟨.single ha, ⟨⟨[], by simp, by simp⟩, hm⟩⟩ (fsRest_acting _ _ _ _ hl hs)

theorem Io.clean_sameFiles (io : Io) : io.SameFiles io.clean :=
  ⟨rfl, rfl, rfl, rfl, rfl, rfl, rfl, id⟩

theorem fsCall_idle {f : Io → α × Io} (s : State) (he : (f s.io.clean).2 = s.io.clean) :
    Acting b S (fsCall b f) s fun r s' =>
      r = (f s.io.clean).1 ∧ Calm S { s with io := s.io.clean } s' := by
  have h := fsCall_acting (b := b) (S := S) (f := f) s
  rw [he] at h
  exact h (.files s.io.clean_sameFiles) (fun _ _ => rfl) (by rintro r ⟨⟩) (by rintro r ⟨⟩)

theorem fsRead_acting (s : State) (file : Fin 16) (position : Word) (dst : Nat) (length : Word)
    (hw : ∀ k < length.toNat, S.writes (dst + k)) :
    Acting b S (fsCall b fun io => fsRead io file position dst length) s fun r s' =>
      (∃ io, s.io.SameFiles io ∧ Calm S { s with io } s') ∧
        ∀ n, r = some n → n ≤ length.toNat ∧
          (n = 0 ∨ position.toNat + n ≤ (fsSize s.io file).toNat) := by
  obtain ⟨hr, hn⟩ := fsRead_any s.io.clean file position dst length
  have hsame := s.io.clean_sameFiles.trans hr.same
  have hin : ∀ x, dst ≤ x → x < dst + length.toNat → S.writes x := by
    intro x hx hlt
    have h := hw (x - dst) (by omega)
    rwa [Nat.add_sub_cancel' hx] at h
  refine Does.mono (fsCall_acting s (.files hsame) ?_ ?_ ?_) ?_
  · intro x hx
    exact hr.mem x fun ⟨h₁, h₂⟩ => hx (hin x h₁ h₂)
  · rw [hr.loads]
    rintro r ⟨⟩
  · intro r hmem k hk
    rcases hr.stores r hmem with h | ⟨h₁, h₂⟩
    · cases h
    · exact hin _ (by omega) (by omega)
  · intro r s' _ ⟨he, hc⟩
    refine ⟨⟨_, hsame, hc⟩, fun n h => hn n (he ▸ h)⟩

theorem fsFlush_acting (s : State) :
    Acting b S (fsCall b fsFlush) s fun r s' =>
      r = (fsFlush s.io.clean).1 ∧ Calm S { s with io := (fsFlush s.io.clean).2 } s' := by
  have h := fsFlush_any s.io.clean
  refine fsCall_acting s .flush (fun x _ => congrFun h.mem x) ?_ ?_
  · rw [h.loads]
    rintro r ⟨⟩
  · rw [h.stores]
    rintro r ⟨⟩

end FileCalls

section Stopping

theorem Calm.flushed (h : Calm S s s') (hf : s.Flushed) : s'.Flushed := by
  obtain ⟨d, v, m, -, -, -⟩ := h
  obtain ⟨io, hio⟩ := hf
  refine ⟨{ io with mem := m }, ?_⟩
  change ({ s.io with mem := m } : Io) = _
  rw [hio]
  unfold fsFlush
  split <;> rfl

structure State.Same (s s' : State) : Prop where
  procs : s'.procs = s.procs
  spaces : s'.spaces = s.spaces
  tables : s'.tables = s.tables
  fpuOwner : s'.fpuOwner = s.fpuOwner
  current : s'.current = s.current
  protectedPid : s'.protectedPid = s.protectedPid

theorem Calm.same (h : Calm S s s') : s.Same s' := by
  obtain ⟨d, v, m, -, -, -⟩ := h
  exact ⟨rfl, rfl, rfl, rfl, rfl, rfl⟩

theorem State.Same.trans {s s₁ s₂ : State} (h₁ : s.Same s₁) (h₂ : s₁.Same s₂) : s.Same s₂ :=
  ⟨h₂.procs.trans h₁.procs, h₂.spaces.trans h₁.spaces, h₂.tables.trans h₁.tables,
    h₂.fpuOwner.trans h₁.fpuOwner, h₂.current.trans h₁.current,
    h₂.protectedPid.trans h₁.protectedPid⟩

theorem State.same_io (s : State) (io : Io) : s.Same { s with io } :=
  ⟨rfl, rfl, rfl, rfl, rfl, rfl⟩

theorem PanicCause.same (h : PanicCause b why s) (hs : s.Same s') : PanicCause b why s' := by
  cases h with
  | paging hv hf hm =>
    rename_i i e
    refine .paging (e := e) (i := i) hv ?_ ?_
    · rw [hs.procs]
      exact hf
    · rw [hs.spaces, hs.tables]
      exact hm
  | fpu hp ho h =>
    rename_i p
    refine .fpu (p := p) ?_ ?_ ?_
    · rw [hs.procs]
      exact hp
    · rw [hs.fpuOwner]
      exact ho
    · rw [State.secondFs, hs.procs]
      exact h
  | other h => exact .other h

theorem flushWriters_acting (s : State) :
    Acting b S (flushWriters b) s fun _ s' =>
      s.Same s' ∧ (s'.writing = true → s'.Flushed) := by
  refine .read (when_acting ?_ ?_)
  · intro hw
    refine .bind (fsFlush_acting s) fun ok s₁ _ ⟨_, h₁⟩ => ?_
    have hf₁ : s₁.Flushed := h₁.flushed ⟨_, rfl⟩
    have hs₁ : s.Same s₁ := (s.same_io _).trans h₁.same
    refine when_acting (fun _ => ?_) fun _ => ⟨hs₁, fun _ => hf₁⟩
    exact Does.mono (kputs_calm _).acting fun _ s₂ _ ⟨h₂, _⟩ =>
      ⟨hs₁.trans h₂.same, fun _ => h₂.flushed hf₁⟩
  · intro hw
    exact ⟨⟨rfl, rfl, rfl, rfl, rfl, rfl⟩, fun h => absurd h hw⟩

theorem shutdown_acting (code : Word) (s : State) :
    Acting b S (shutdown b code) s fun _ s' =>
      s.Same s' ∧ (s'.writing = true → s'.Flushed) := by
  refine .bind (flushWriters_acting s) fun _ s₁ _ ⟨hs₁, hf₁⟩ => ?_
  refine .bind (reportDropped_calm s₁).acting fun _ s₂ _ ⟨h₂, _⟩ => ?_
  refine Does.mono (reportHalt_calm code s₂).acting fun _ s₃ _ ⟨h₃, _⟩ => ?_
  refine ⟨(hs₁.trans h₂.same).trans h₃.same, fun hw => ?_⟩
  rw [h₃.writing, h₂.writing] at hw
  exact h₃.flushed (h₂.flushed (hf₁ hw))

theorem halt_acting (code : Word) (s : State) :
    Acting b S (halt b code : Kernel α) s R :=
  .bind (shutdown_acting code s) fun _ _ _ ⟨_, hf⟩ => .throw (.halt hf)

theorem panic_acting (hc : PanicCause b why s) : Acting b S (panic b why : Kernel α) s R := by
  refine .bind (kputs_calm _).acting fun _ s₁ _ ⟨h₁, _⟩ => ?_
  refine .bind (kputs_calm _).acting fun _ s₂ _ ⟨h₂, _⟩ => ?_
  refine .bind (kputs_calm _).acting fun _ s₃ _ ⟨h₃, _⟩ => ?_
  refine .bind (shutdown_acting 255 s₃) fun _ s₄ _ ⟨hs₄, _⟩ => .throw (.panic ?_)
  exact hc.same (((h₁.same.trans h₂.same).trans h₃.same).trans hs₄)

end Stopping

end TinyProcessors
