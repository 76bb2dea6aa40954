import TinyProcessors.Os.Spawning

namespace TinyProcessors

theorem closeFile_acting (s : State) (k : Fin 4) (hp : (s.procs p).state = .running) :
    Acting b S (closeFile b p k) s fun _ s' =>
      s'.procs = (s.setFile p k { (s.procs p).files k with mode := 0 }).procs := by
  refine .read ?_
  dsimp only
  split
  next hm =>
    have h := fsFlush_any s.io.clean
    have he : (do set (s.setFile p k { (s.procs p).files k with mode := 0 }); fsCall b fsFlush) s =
        (do fsAccesses b s.io.disk.served (fsFlush s.io.clean).2; return (fsFlush s.io.clean).1)
          { s.setFile p k { (s.procs p).files k with mode := 0 } with
            io := (fsFlush s.io.clean).2 } := rfl
    refine .jump he (.of_act (.closeWrite hp hm) rfl h.mem) ?_
    refine Does.mono (fsRest_acting _ _ _ _ ?_ ?_) fun _ s' _ ⟨_, hc⟩ => hc.procs
    · rw [h.loads]
      rintro r ⟨⟩
    · rw [h.stores]
      rintro r ⟨⟩
  next hm => exact Acting.update (.closeRead hp hm) rfl rfl (.pure rfl)

theorem closeAll_acting (l : List (Fin 4)) (s : State) (hp : (s.procs p).state = .running) :
    Acting b S (closeAll b p l) s fun _ s' => (s'.procs p).state = .running ∧
      ∀ k, k ∈ l ∨ ((s.procs p).files k).mode = 0 → ((s'.procs p).files k).mode = 0 := by
  induction l generalizing s with
  | nil => exact .pure ⟨hp, fun k hk => hk.resolve_left List.not_mem_nil⟩
  | cons k rest ih =>
    refine .read (.bind (closeFile_acting s k hp) fun ok s₁ _ h₁ => ?_)
    have hself : s₁.procs p = { s.procs p with
        files := Function.update (s.procs p).files k { (s.procs p).files k with mode := 0 } } := by
      rw [h₁]
      exact s.setProc_self p _
    refine .bind (P := fun _ s₂ => s₂.procs = s₁.procs) (when_acting (fun _ => ?_) fun _ => rfl) ?_
    · refine .bind (kputs_calm _).acting fun _ s₂ _ ⟨h₂, _⟩ => ?_
      refine .bind (kputdec_calm _).acting fun _ s₃ _ ⟨h₃, _⟩ => ?_
      exact Does.mono (kputs_calm _).acting fun _ s₄ _ ⟨h₄, _⟩ =>
        (h₄.procs.trans h₃.procs).trans h₂.procs
    · intro _ s₂ _ h₂
      have hself₂ := (congrFun h₂ p).trans hself
      refine Does.mono (ih s₂ (by rw [hself₂]; exact hp)) ?_
      rintro _ s₃ _ ⟨hrun, hclosed⟩
      refine ⟨hrun, fun j hj => hclosed j ?_⟩
      rw [hself₂]
      dsimp only
      by_cases hjk : j = k
      · rw [hjk, Function.update_self]
        exact .inr rfl
      · rw [Function.update_of_ne hjk]
        exact hj.imp (fun h => (List.mem_cons.1 h).resolve_left hjk) id

theorem State.reapChildren_running (s : State) (h : (s.procs i).state = .running) :
    (s.reapChildren p).procs i = s.procs i := by
  have hn : ¬ ((s.procs i).state = .zombie ∧ (s.procs i).parent = (s.procs p).pid) := by
    rw [h]
    rintro ⟨⟨⟩, _⟩
  exact if_neg hn

theorem State.reapChildren_zombie (s : State) (h : ((s.reapChildren p).procs i).state = .zombie) :
    ((s.reapChildren p).procs i).parent ≠ (s.procs p).pid := by
  unfold State.reapChildren at h ⊢
  dsimp only at h ⊢
  split at h
  · cases h
  next hn =>
    rw [if_neg hn]
    exact fun he => hn ⟨h, he⟩

theorem State.bury_eq (s : State) (p parent : Fin 8) : s.bury p parent = { s with
    procs := (s.bury p parent).procs
    fpuOwner := (s.release p).fpuOwner } := by
  unfold State.bury
  dsimp only
  split <;> rfl

theorem State.bury_self (s : State) (p parent : Fin 8) :
    ((s.bury p parent).procs p).state = .zombie := by
  have hz : (((s.release p).setState p .zombie).procs p).state = .zombie := by
    rw [State.setState, State.setProc_self]
  unfold State.bury
  dsimp only
  split
  next h =>
    have hne : p ≠ parent := by
      rintro rfl
      rw [hz] at h
      cases h.1
    rw [State.setState, State.setProc_of_ne _ _ hne]
    exact hz
  next => exact hz

theorem finish_acting (s : State) (code : Word) (hp : (s.procs p).state = .running) :
    Acting b S (finish b p code) s fun _ s' => (s'.procs p).alive = false := by
  refine .bind (stopOrphanedEngines_calm p s).acting fun _ s₁ _ ⟨h₁, _⟩ => ?_
  refine .bind (restorePalette_calm p s₁).acting fun _ s₂ _ ⟨h₂, _⟩ => ?_
  have hp₂ : (s₂.procs p).state = .running := by rw [h₂.procs, h₁.procs, hp]
  refine .bind (closeAll_acting _ s₂ hp₂) fun _ s₃ _ ⟨hp₃, hclosed⟩ => ?_
  refine .bind (P := fun _ s₄ => s₄.procs = ((s₃.reapChildren p).setProc p fun q =>
    { q with exitCode := code }).procs) (Acting.modify (.reapAll hp₃) rfl rfl rfl)
    fun _ s₄ _ h₄ => ?_
  have hself : s₄.procs p = { s₃.procs p with exitCode := code } := by
    rw [h₄, State.setProc_self, s₃.reapChildren_running hp₃]
  have hother : ∀ j, j ≠ p → s₄.procs j = (s₃.reapChildren p).procs j := by
    intro j hj
    rw [h₄, State.setProc_of_ne _ _ hj]
  refine .read (.bind (modifyVars_calm rfl).acting fun _ s₅ _ ⟨h₅, _⟩ => ?_)
  have hp₅ : (s₅.procs p).state = .running := by rw [h₅.procs, hself, hp₃]
  have hf₅ : ∀ k, ((s₅.procs p).files k).mode = 0 := by
    intro k
    rw [h₅.procs, hself]
    exact hclosed k (.inl (List.mem_finRange k))
  have hz₅ : ∀ i, (s₅.procs i).state = .zombie → (s₅.procs i).parent ≠ (s₅.procs p).pid := by
    rw [h₅.procs]
    intro i hi
    by_cases hip : i = p
    · rw [hip, hself, hp₃] at hi
      cases hi
    · rw [hother i hip] at hi ⊢
      rw [hself]
      exact s₃.reapChildren_zombie hi
  have hpar : s₅.parentOf p = s₄.parentOf p := by rw [State.parentOf, State.parentOf, h₅.procs]
  split
  next hnone =>
    split
    next => exact halt_acting code s₅
    next hpid =>
      refine Acting.modify (.vanish hp₅ hf₅ hz₅ (hpar.trans hnone) ?_) rfl rfl ?_
      · rwa [h₅.procs]
      · rw [State.setState, State.setProc_self]
        rfl
  next parent hsome =>
    refine Acting.modify (.bury hp₅ hf₅ hz₅ (hpar.trans hsome)) ?_ ?_ ?_
    · rw [s₅.bury_eq]
    · rw [s₅.bury_eq]
    · rw [Proc.alive, s₅.bury_self]
      rfl

end TinyProcessors
