import TinyProcessors.Os.Traps
import TinyProcessors.Fs.Mount

namespace TinyProcessors

def Board.scope (b : Board) : Scope where
  reads _ := False
  words _ := False
  writes x := b.Buffers x ∨ ∃ e : Program, e.Valid ∧ e.Spans x

theorem checkEntries_acting (l : List Nat) (s : State) :
    Acting b S (checkEntries b l) s fun _ s' => s' = s ∧
      ∀ i ∈ l, entryOk (b.program i) b.ramdiskSize = true := by
  induction l with
  | nil => exact .pure ⟨rfl, by simp⟩
  | cons i rest ih =>
    rw [checkEntries]
    split
    next hok =>
      refine Does.mono ih fun _ s' _ ⟨hs, hrest⟩ => ⟨hs, ?_⟩
      rw [List.forall_mem_cons]
      exact ⟨hok, hrest⟩
    next =>
      refine .bind (kputs_calm _).acting fun _ s₁ _ _ => ?_
      refine .bind (kputdec_calm _).acting fun _ s₂ _ _ => ?_
      exact .bind (kputs_calm _).acting fun _ s₃ _ _ => panic_acting (.other (by simp))

theorem checkPrograms_acting (s : State) :
    Acting b S (checkPrograms b) s fun _ s' => s' = s ∧ b.Checked := by
  unfold checkPrograms programs
  split
  next hok =>
    rw [pure_bind]
    split
    next => exact panic_acting (.other (by simp))
    next =>
      refine Does.mono (checkEntries_acting _ s) fun _ s' _ ⟨hs, hall⟩ => ⟨hs, hok, ?_⟩
      exact fun i hi => hall i (List.mem_range.2 hi)
  next =>
    have hp : Acting b S (panic b "no RAM disk" : Kernel Nat) s fun _ _ => False :=
      panic_acting (.other (by simp))
    exact .bind hp fun _ _ _ h => h.elim

theorem addRegions_error (h : addRegions regions start stop = .error why) :
    why = "page tables: more 4 MiB regions than an entry has tables" := by
  unfold addRegions at h
  generalize List.range' _ _ = l at h
  induction l generalizing regions with
  | nil => cases h
  | cons region rest ih =>
    rw [List.foldlM_cons] at h
    split at h
    · exact ih h
    · split at h
      · cases h
        rfl
      · exact ih h

theorem addWindows_error (l : List (Word × Word)) (regions : List Nat)
    (h : l.foldlM (fun regions w => addRegions regions w.1 (w.1 + w.2)) regions = .error why) :
    why = "page tables: more 4 MiB regions than an entry has tables" := by
  induction l generalizing regions with
  | nil => cases h
  | cons w rest ih =>
    rw [List.foldlM_cons] at h
    rcases except_bind_error h with h | ⟨r, -, h⟩
    · exact addRegions_error h
    · exact ih r h

theorem checkPageTableBudget_error (h : checkPageTableBudget b = .error why) :
    why = "page tables: more 4 MiB regions than an entry has tables" := by
  rcases except_bind_error h with h | ⟨r, -, h⟩
  · exact addRegions_error h
  · rcases except_bind_error h with h | ⟨r', -, h⟩
    · unfold addDisplay at h
      split at h
      · cases h
      · exact addRegions_error h
    · exact addWindows_error _ _ h

theorem checkBudget_acting (s : State) :
    Acting b S (checkBudget b) s fun _ s' => s' = s ∧ ∃ r, checkPageTableBudget b = .ok r := by
  unfold checkBudget
  split
  next why hw =>
    rw [checkPageTableBudget_error hw]
    exact panic_acting (.other (by simp))
  next r hr => exact .pure ⟨rfl, r, hr⟩

theorem busAll_calm (l : List (Kind × Nat × Word)) (s : State)
    (h : ∀ a ∈ l, a.2.1 % 4 = 0 ∧
      ∀ d : Devices, d.handles ⟨.virtio, a.2.1, 4, a.1, a.2.2⟩ = true) :
    Calmly b S (busAll b .virtio l) s := by
  induction l generalizing s with
  | nil => exact .pure trivial
  | cons a rest ih =>
    obtain ⟨ho, hd⟩ := h a List.mem_cons_self
    refine .seq (register_calm ho fun d => by simp [hd d]) fun _ s₁ _ => ih s₁ ?_
    exact fun q hq => h q (List.mem_cons_of_mem _ hq)

theorem virtioInit_calm (s : State) :
    Calmly b S (virtioInit b) s fun r s' => r = s'.io.disk.capacity := by
  refine .seq (busAll_calm _ s fun a ha => ?_) fun _ s₁ _ => .read (.pure rfl)
  fin_cases ha <;> exact ⟨rfl, fun _ => rfl⟩

theorem reportMount_calm (sectors : Word) (mounted : Bool) (s : State) :
    Calmly b S (reportMount b sectors mounted) s := by
  refine .read (.seq (kputs_calm _) fun _ s₁ _ => .seq (kputdec_calm _) fun _ s₂ _ => ?_)
  refine .seq (kputs_calm _) fun _ s₃ _ => when_calm fun _ => ?_
  exact .seq (kputs_calm _) fun _ s₄ _ => .seq (kputdec_calm _) fun _ s₅ _ => kputs_calm _

theorem fsMount_any (io : Io) (capacity : Word) :
    (fsMount io capacity).2.mem = io.mem ∧ (fsMount io capacity).2.loads = io.loads ∧
      (fsMount io capacity).2.stores = io.stores := by
  unfold fsMount
  dsimp only
  split
  · exact ⟨rfl, rfl, rfl⟩
  · split <;> exact ⟨rfl, rfl, rfl⟩

def State.Tried (s : State) : Prop :=
  s.io.fs.mounted = false → ¬ Superblock s.io.disk.image s.io.disk.capacity

theorem State.Tried.congr {s s' : State} (h : s.Tried) (hf : s'.io.fs = s.io.fs)
    (hd : s'.io.disk = s.io.disk) : s'.Tried := by
  intro hm
  rw [hd]
  rw [hf] at hm
  exact h hm

theorem fsMount_tried (io : Io) (hs : io.disk.Sound)
    (h : (fsMount io io.disk.capacity).2.fs.mounted = false) :
    ¬ Superblock (fsMount io io.disk.capacity).2.disk.image
      (fsMount io io.disk.capacity).2.disk.capacity := by
  obtain ⟨hi, hz, -⟩ := fsMount_disk io io.disk.capacity
  have hsize : (fsMount io io.disk.capacity).2.disk.capacity = io.disk.capacity := by
    rw [Disk.capacity, hz]
    rfl
  rw [hi, hsize]
  intro hb
  have hm := (fsMount_sound io hs).1.2 hb
  rw [(fsMount_mounted io hm).mounted] at h
  cases h

theorem mountDisk_acting (s : State) (hfree : ∀ i, (s.procs i).state = .free)
    (hm : s.io.fs.mounted = false) :
    Acting b S (mountDisk b) s fun _ s' => s.Same s' ∧ (s.io.disk.Sound → s'.Tried) := by
  refine .bind (virtioInit_calm s).acting fun sectors s₁ _ ⟨h₁, hcap⟩ => ?_
  split
  next h0 =>
    refine Does.mono (reportMount_calm _ _ s₁).acting fun _ s₂ _ ⟨h₂, _⟩ =>
      ⟨h₁.same.trans h₂.same, fun _ _ hb => ?_⟩
    rw [h₂.disk, ← hcap, h0] at hb
    exact Nat.not_lt_zero _ (Nat.lt_of_lt_of_le (BitVec.lt_def.1 hb.room) (BitVec.le_def.1 hb.fits))
  next =>
    have hf := fsMount_any s₁.io.clean s₁.io.disk.capacity
    have hfree₁ : ∀ i, (s₁.procs i).state = .free := by rwa [h₁.procs]
    have hm₁ : s₁.io.fs.mounted = false := by rw [h₁.fs, hm]
    rw [hcap]
    refine .bind (fsCall_acting s₁ (.mount hfree₁ hm₁) ?_ ?_ ?_) fun mounted s₂ _ ⟨_, h₂⟩ => ?_
    · intro x _
      rw [hf.1]
      rfl
    · rw [hf.2.1]
      rintro r ⟨⟩
    · rw [hf.2.2]
      rintro r ⟨⟩
    · refine Does.mono (reportMount_calm _ _ s₂).acting fun _ s₃ _ ⟨h₃, _⟩ =>
        ⟨((h₁.same.trans (s₁.same_io _)).trans h₂.same).trans h₃.same, fun hs => ?_⟩
      have htried : State.Tried { s₁ with io := (fsMount s₁.io.clean s₁.io.disk.capacity).2 } :=
        fsMount_tried s₁.io.clean (by rw [Io.clean, h₁.disk]; exact hs)
      exact (htried.congr h₂.fs h₂.disk).congr h₃.fs h₃.disk

theorem startInput_calm (s : State) : Calmly b S (startInput b) s := by
  have hlt := b.inputSource_lt
  have hi : 4 * b.inputSource.toNat < 128 := by omega
  refine .seq (register_calm (Nat.mul_mod_right 4 _)
    fun _ => by simp [Devices.handles, hi]) fun _ s₁ _ => ?_
  refine .seq (register_calm rfl fun _ => rfl) fun _ s₂ _ => ?_
  exact register_calm rfl fun _ => rfl

theorem spawnShell_acting (hb : b.Checked) (s : State) (hfree : ∀ i, (s.procs i).state = .free) :
    Acting b b.scope (spawnShell b) s fun _ s' => s.Grown s' := by
  obtain ⟨-, hspawn⟩ := spawn_acting (S := fun _ => b.scope) hb s (textBytes "sh") [] 0
    (fun e hv _ x hx => .inr ⟨e, hv, hx⟩) (fun _ x hx => .inl hx) (.inr ⟨hfree, rfl⟩)
  refine .bind hspawn fun shell s₁ _ h₁ => ?_
  cases shell with
  | none => exact panic_acting (.other (by simp))
  | some i => exact .pure h₁

theorem kernelStart_acting (hb : b.Checked) (s : State) (hfree : ∀ i, (s.procs i).state = .free) :
    Acting b b.scope (do
      when b.input (startInput b)
      let now ← mtime b
      setTimer b (now + b.tick)
      modify fun s => { s with
        idleFrame := ⟨fun k => if k = 2 then b.idleStack else 0, b.idlePc,
          mstatusMppM ||| mstatusMpie⟩ }
      spawnShell b
      schedule b) s fun _ s' => s'.Ready b s.protectedPid := by
  refine .bind (when_calm fun _ => startInput_calm s).acting fun _ s₄ _ ⟨h₄, _⟩ => ?_
  refine .bind (mtime_calm s₄).acting fun now s₅ _ ⟨h₅, _⟩ => ?_
  refine .bind (setTimer_calm _).acting fun _ s₆ _ ⟨h₆, _⟩ => ?_
  have h₆' := (h₄.same.trans h₅.same).trans h₆.same
  refine .bind (P := fun _ s₇ => s.Same s₇) (Acting.modify (.idle _) rfl rfl
    (h₆'.trans ⟨rfl, rfl, rfl, rfl, rfl, rfl⟩)) fun _ s₇ _ h₇ => ?_
  refine .bind (spawnShell_acting hb s₇ (by rw [h₇.procs]; exact hfree)) fun _ s₈ _ h₈ => ?_
  refine Does.mono (schedule_acting s₈) fun _ s₉ _ h₉ => ?_
  rw [← h₇.protectedPid, ← h₈.protectedPid]
  exact h₉

theorem kernelMain_acting (s : State) (hfree : ∀ i, (s.procs i).state = .free)
    (hm : s.io.fs.mounted = false) :
    Acting b b.scope (kernelMain b) s fun _ s' => b.Checked ∧
      (∃ r, checkPageTableBudget b = .ok r) ∧ s'.Ready b s.protectedPid ∧
      ∃ s₁, Reach b b.scope s s₁ ∧ (b.disk = true → s.io.disk.Sound → s₁.Tried) ∧
        Reach b b.scope s₁ s' := by
  refine .bind (checkPrograms_acting s) fun _ s₁ _ ⟨h₁, hb⟩ => ?_
  subst h₁
  refine .bind (checkBudget_acting s₁) fun _ s₂ _ ⟨h₂, hr⟩ => ?_
  subst h₂
  refine .bind (P := fun _ s₃ => s₂.Same s₃ ∧ (b.disk = true → s₂.io.disk.Sound → s₃.Tried))
    (when_acting (fun _ => ?_) fun hd => ⟨.refl s₂, fun h => absurd h hd⟩) fun _ s₃ hs₃ h₃ => ?_
  · exact Does.mono (mountDisk_acting s₂ hfree hm) fun _ _ _ h => ⟨h.1, fun _ => h.2⟩
  refine Does.mono (kernelStart_acting hb s₃ (by rw [h₃.1.procs]; exact hfree))
    fun _ s₄ hs₄ h₄ => ⟨hb, hr, ?_, s₃, hs₃, h₃.2, hs₄⟩
  rw [← h₃.1.protectedPid]
  exact h₄

end TinyProcessors
