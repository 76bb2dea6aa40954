import TinyProcessors.Os.Sanity
import TinyProcessors.Os.Machine

namespace TinyProcessors

def State.Opens (s : State) (p : Fin 8) (k : Fin 4) (o : OpenFile) : Prop :=
  (s.procs p).state ≠ .free ∧ (s.procs p).files k = o ∧ o.mode ≠ 0

structure State.Descriptors (s : State) : Prop where
  kind : s.Opens p k o → o.mode = oRead ∨ o.mode = oWrite
  used : s.Opens p k o → s.io.fs.mounted = true ∧ inUse s.io.fs o.file = true
  bound : s.Opens p k o → o.position.toNat ≤ (fsSize s.io o.file).toNat
  sole : s.Opens p k o → s.Opens q j o' → o.mode = oWrite → o'.file = o.file → p = q ∧ k = j

theorem State.Opens.of_update {s s' : State} (he : s'.procs = Function.update s.procs p q)
    (hq : ∀ k, q.state ≠ .free → (q.files k).mode ≠ 0 →
      (s.procs p).state ≠ .free ∧ (s.procs p).files k = q.files k)
    (h : s'.Opens i k o) : s.Opens i k o := by
  obtain ⟨hf, hk, hm⟩ := h
  rw [he] at hf hk
  by_cases hip : i = p
  · subst hip
    rw [Function.update_self] at hf hk
    obtain ⟨hf', hk'⟩ := hq k hf (hk ▸ hm)
    exact ⟨hf', hk'.trans hk, hm⟩
  · rw [Function.update_of_ne hip] at hf hk
    exact ⟨hf, hk, hm⟩

theorem State.Descriptors.shrink {s s' : State} (h : s.Descriptors)
    (ho : ∀ {i k o}, s'.Opens i k o → s.Opens i k o)
    (hm : s'.io.fs.mounted = s.io.fs.mounted)
    (hu : ∀ f, inUse s.io.fs f = true → inUse s'.io.fs f = true ∧
      (s.io.fs.directory f).size.toNat ≤ (s'.io.fs.directory f).size.toNat) : s'.Descriptors where
  kind hi := h.kind (ho hi)
  used hi := by
    obtain ⟨hmt, hf⟩ := h.used (ho hi)
    exact ⟨hm.trans hmt, (hu _ hf).1⟩
  bound hi := (h.bound (ho hi)).trans (hu _ (h.used (ho hi)).2).2
  sole hi hj := h.sole (ho hi) (ho hj)

theorem State.Descriptors.keep {s s' : State} (h : s.Descriptors) (hp : s'.procs = s.procs)
    (hm : s'.io.fs.mounted = s.io.fs.mounted) (hc : s'.io.fs.corrupt = s.io.fs.corrupt)
    (hd : s'.io.fs.directory = s.io.fs.directory) : s'.Descriptors := by
  refine h.shrink ?_ hm fun f hf => ?_
  · intro i k o ho
    rw [Opens, hp] at ho
    exact ho
  · rw [inUse, hd, hc]
    exact ⟨hf, Nat.le_refl _⟩

theorem State.Descriptors.update {s s' : State} (h : s.Descriptors)
    (he : s'.procs = Function.update s.procs p q)
    (hq : ∀ k, q.state ≠ .free → (q.files k).mode ≠ 0 →
      (s.procs p).state ≠ .free ∧ (s.procs p).files k = q.files k)
    (hf : s'.io.fs = s.io.fs) : s'.Descriptors := by
  refine h.shrink (.of_update he hq) (by rw [hf]) fun f hu => ?_
  rw [hf]
  exact ⟨hu, Nat.le_refl _⟩

theorem State.Descriptors.running {s s' : State} (h : s.Descriptors)
    (he : s'.procs = Function.update s.procs p q) (hq : q.files = (s.procs p).files)
    (hp : (s.procs p).state = .running) (hf : s'.io.fs = s.io.fs) : s'.Descriptors := by
  refine h.update he (fun k _ _ => ⟨?_, by rw [hq]⟩) hf
  rw [hp]
  rintro ⟨⟩

theorem State.mayOpen_iff {s : State} : s.mayOpen file mode = true ↔
    ∀ p k o, s.Opens p k o → o.file = file → mode ≠ oWrite ∧ o.mode ≠ oWrite := by
  unfold State.mayOpen State.Opens
  simp only [List.all_eq_true, List.mem_finRange, forall_const, Bool.or_eq_true,
    decide_eq_true_eq, Bool.not_eq_true', Bool.and_eq_false_iff, Bool.or_eq_false_iff,
    decide_eq_false_iff_not, ne_eq, not_not]
  constructor
  · rintro h p k o ⟨hf, rfl, hm⟩ hfile
    rcases (h p).resolve_left hf k with (h0 | hne) | hw
    · exact absurd h0 hm
    · exact absurd hfile hne
    · exact hw
  · intro h p
    by_cases hf : (s.procs p).state = .free
    · exact .inl hf
    · refine .inr fun k => ?_
      by_cases hm : ((s.procs p).files k).mode = 0
      · exact .inl (.inl hm)
      · by_cases hfile : ((s.procs p).files k).file = file
        · exact .inr (h p k _ ⟨hf, rfl, hm⟩ hfile)
        · exact .inl (.inr hfile)

theorem State.opens_setFile {s : State} (h : (s.setFile p k o').Opens i j o) :
    (i = p ∧ j = k ∧ o = o' ∧ (s.procs p).state ≠ .free ∧ o'.mode ≠ 0) ∨
      (s.Opens i j o ∧ ¬ (i = p ∧ j = k)) := by
  obtain ⟨hf, hk, hm⟩ := h
  by_cases hi : i = p
  · subst hi
    rw [State.setFile, State.setProc_self] at hf hk
    dsimp only at hf hk
    by_cases hj : j = k
    · subst hj
      rw [Function.update_self] at hk
      subst hk
      exact .inl ⟨rfl, rfl, rfl, hf, hm⟩
    · rw [Function.update_of_ne hj] at hk
      exact .inr ⟨⟨hf, hk, hm⟩, fun h => hj h.2⟩
  · rw [State.setFile, State.setProc_of_ne _ _ hi] at hf hk
    exact .inr ⟨⟨hf, hk, hm⟩, fun h => hi h.1⟩

theorem State.Descriptors.close {s s' : State} (h : s.Descriptors)
    (he : s'.procs = (s.setFile p k { (s.procs p).files k with mode := 0 }).procs)
    (hf : s'.io.fs = s.io.fs) : s'.Descriptors := by
  refine h.shrink ?_ (by rw [hf]) fun f hu => ?_
  · intro i j o ho
    rw [Opens, he] at ho
    rcases opens_setFile ho with ⟨-, -, -, -, h0⟩ | ⟨hold, -⟩
    · exact absurd rfl h0
    · exact hold
  · rw [hf]
    exact ⟨hu, Nat.le_refl _⟩

theorem State.Descriptors.move {s : State} (h : s.Descriptors)
    (hp : (s.procs p).state = .running) (hm : ((s.procs p).files k).mode ≠ 0)
    (hle : position = ((s.procs p).files k).position ∨
      position ≤ fsSize s.io ((s.procs p).files k).file) :
    (s.setFile p k { (s.procs p).files k with position }).Descriptors := by
  have hold : s.Opens p k ((s.procs p).files k) := ⟨by rw [hp]; rintro ⟨⟩, rfl, hm⟩
  -- the descriptor before, in the place of the one that has moved
  have hback : ∀ {i j o}, (s.setFile p k { (s.procs p).files k with position }).Opens i j o →
      ∃ o', s.Opens i j o' ∧ o'.mode = o.mode ∧ o'.file = o.file ∧
        (o'.position = o.position ∨ o.position ≤ fsSize s.io o.file) := by
    intro i j o ho
    rcases opens_setFile ho with ⟨rfl, rfl, rfl, -, -⟩ | ⟨ho, -⟩
    · exact ⟨_, hold, rfl, rfl, hle.imp Eq.symm id⟩
    · exact ⟨o, ho, rfl, rfl, .inl rfl⟩
  constructor
  · intro i j o ho
    obtain ⟨o', ho', hmode, -, -⟩ := hback ho
    exact hmode ▸ h.kind ho'
  · intro i j o ho
    obtain ⟨o', ho', -, hfile, -⟩ := hback ho
    exact hfile ▸ h.used ho'
  · intro i j o ho
    obtain ⟨o', ho', -, hfile, hpos⟩ := hback ho
    rcases hpos with hpos | hpos
    · rw [← hpos, ← hfile]
      exact h.bound ho'
    · exact BitVec.le_def.1 hpos
  · intro i j o i' j' o' ho ho' hw hfile
    obtain ⟨a, ha, ham, haf, -⟩ := hback ho
    obtain ⟨c, hc, -, hcf, -⟩ := hback ho'
    exact h.sole ha hc (ham.trans hw) (by rw [hcf, haf, hfile])

theorem State.Descriptors.open {s s' : State} (h : s.Descriptors)
    (he : s'.procs = (s.setFile p k ⟨mode, file, 0⟩).procs)
    (hmode : mode = oRead ∨ mode = oWrite) (hm : s.io.fs.mounted = true)
    (hu : inUse s.io.fs file = true) (ho : s.mayOpen file mode = true)
    (hmt : s'.io.fs.mounted = s.io.fs.mounted)
    (hd : ∀ f, inUse s'.io.fs f = inUse s.io.fs f)
    (hs : ∀ f, (f ≠ file ∨ mode = oRead) → fsSize s'.io f = fsSize s.io f) : s'.Descriptors := by
  have hfree := State.mayOpen_iff.1 ho
  have hcases : ∀ {i j o}, s'.Opens i j o →
      (i = p ∧ j = k ∧ o = ⟨mode, file, 0⟩) ∨ s.Opens i j o := by
    intro i j o hi
    rw [Opens, he] at hi
    rcases opens_setFile hi with ⟨rfl, rfl, rfl, -, -⟩ | ⟨hi, -⟩
    · exact .inl ⟨rfl, rfl, rfl⟩
    · exact .inr hi
  constructor
  · intro i j o hi
    rcases hcases hi with ⟨rfl, rfl, rfl⟩ | hi
    · exact hmode
    · exact h.kind hi
  · intro i j o hi
    rw [hd, hmt]
    rcases hcases hi with ⟨rfl, rfl, rfl⟩ | hi
    · exact ⟨hm, hu⟩
    · exact h.used hi
  · intro i j o hi
    rcases hcases hi with ⟨rfl, rfl, rfl⟩ | hi
    · exact Nat.zero_le _
    · rw [hs o.file]
      · exact h.bound hi
      · by_cases hf : o.file = file
        · exact .inr (hmode.resolve_right (hfree i j o hi hf).1)
        · exact .inl hf
  · intro i j o i' j' o' hi hi' hw hfile
    rcases hcases hi with ⟨rfl, rfl, rfl⟩ | hi
    · rcases hcases hi' with ⟨rfl, rfl, -⟩ | hi'
      · exact ⟨rfl, rfl⟩
      · exact absurd hw (hfree _ _ _ hi' hfile).1
    · rcases hcases hi' with ⟨rfl, rfl, rfl⟩ | hi'
      · exact absurd hw (hfree _ _ _ hi hfile.symm).2
      · exact h.sole hi hi' hw hfile

theorem Act.descriptors (ha : Act b s s') (h : s.Descriptors) : s'.Descriptors := by
  cases ha with
  | calm hd hv | settle hi | engage | idle x | rest hc => exact h.keep rfl rfl rfl rfl
  | protect hi hc | window hi hc => exact h.keep rfl rfl rfl rfl
  | mount hf hm =>
    have hnone : ∀ {i k o}, ¬ State.Opens { s with
        io := (fsMount s.io.clean s.io.disk.capacity).2 } i k o :=
      fun ho => absurd (hf _) ho.1
    exact ⟨fun ho => (hnone ho).elim, fun ho => (hnone ho).elim, fun ho => (hnone ho).elim,
      fun ho => (hnone ho).elim⟩
  | files hs => exact h.keep rfl hs.mounted hs.corrupt hs.directory
  | flush =>
    have hf := fsFlush_any s.io.clean
    exact h.keep rfl (by rw [hf.fs]; rfl) (by rw [hf.fs]; rfl) (by rw [hf.fs]; rfl)
  | create hm hfree hn h0 hb =>
    rename_i name first i
    have hf := fsFlush_any (s.io.clean.setEntry i (newEntry name first))
    refine h.shrink id (by rw [hf.fs]; rfl) fun f hu => ?_
    have hfi : f ≠ i := by
      rintro rfl
      exact (inUse_iff.1 hu).1 hfree
    rw [inUse, hf.fs, setEntry_directory, Function.update_of_ne hfi]
    exact ⟨hu, Nat.le_refl _⟩
  | write hp hm =>
    rename_i p k src length
    have hw := (fsWrite_any s.io.clean ((s.procs p).files k).file ((s.procs p).files k).position
      src length).1
    refine h.shrink id hw.mounted fun f hu => ?_
    obtain ⟨size, hd, hle, -⟩ := hw.directory
    rw [inUse, hd, hw.corrupt]
    by_cases hf : f = ((s.procs p).files k).file
    · subst hf
      rw [Function.update_self]
      exact ⟨hu, hle⟩
    · rw [Function.update_of_ne hf]
      exact ⟨hu, Nat.le_refl _⟩
  | move hp hm hle => exact h.move hp hm hle
  | openRead hp hk hm hu ho =>
    exact h.open rfl (.inl rfl) hm hu ho rfl (fun _ => rfl) fun _ _ => rfl
  | openWrite hp hk hm hu ho =>
    rename_i file p k
    refine h.open rfl (.inr rfl) hm hu ho rfl (fun f => ?_) fun f hf => ?_
    · rw [inUse, inUse]
      change (decide (((fsTruncate s.io file).fs.directory f).name 0 ≠ 0) && _) = _
      rw [fsTruncate, setEntry_directory]
      by_cases hff : f = file
      · subst hff
        rw [Function.update_self]
        rfl
      · rw [Function.update_of_ne hff]
        rfl
    · have hne : f ≠ file := hf.resolve_right (by decide)
      change ((fsTruncate s.io file).fs.directory f).size = _
      rw [fsTruncate, setEntry_directory, Function.update_of_ne hne]
      rfl
  | closeRead hp hm => exact h.close rfl rfl
  | closeWrite hp hm => exact h.close rfl (by rw [(fsFlush_any s.io.clean).fs]; rfl)
  | sbrk hp hle => exact h.running rfl rfl hp rfl
  | complete hp hw =>
    refine h.update rfl (fun k hf _ => ⟨hf, rfl⟩) rfl
  | skip hp => exact h.update rfl (fun k hf _ => ⟨hf, rfl⟩) rfl
  | park hp hst hf =>
    refine h.running rfl ?_ hp rfl
    rw [hf]
  | wait hp hc hpid hpar => exact h.running rfl rfl hp rfl
  | reap hp hz hpid hpar => exact h.update rfl (fun k hf _ => absurd rfl hf) rfl
  | reapAll hp =>
    rename_i p code
    have hreap : (s.reapChildren p).Descriptors := by
      refine h.shrink ?_ rfl fun f hu => ⟨hu, Nat.le_refl _⟩
      rintro i k o ⟨hf, hk, hm⟩
      unfold State.reapChildren at hf hk
      dsimp only at hf hk
      split at hf
      next => exact absurd rfl hf
      next hn =>
        rw [if_neg hn] at hk
        exact ⟨hf, hk, hm⟩
    exact hreap.update rfl (fun k hf _ => ⟨hf, rfl⟩) rfl
  | vanish hp hf hz hn h1 => exact h.update rfl (fun k hfree _ => absurd rfl hfree) rfl
  | bury hp hf hz hs =>
    rename_i parent p
    have hzombie : ((s.release p).setState p .zombie).Descriptors :=
      h.update rfl (fun k _ hm => absurd (hf k) hm) rfl
    unfold State.bury
    dsimp only
    split
    next hw =>
      refine hzombie.update rfl (fun k _ _ => ⟨?_, rfl⟩) rfl
      rw [hw.1]
      rintro ⟨⟩
    next => exact hzombie
  | wake hw =>
    refine h.update rfl (fun k _ _ => ⟨?_, rfl⟩) rfl
    rcases hw with hw | hw <;> rw [hw] <;> rintro ⟨⟩
  | spawned hv hf ho hm hp => exact h.update rfl (fun k _ hm => absurd rfl hm) rfl
  | claim hp hc hf =>
    rename_i p
    refine h.shrink ?_ (by rw [s.claim_eq]) fun f hu => ?_
    · rintro i k o ⟨hfree, hk, hm⟩
      obtain ⟨m, hproc⟩ := s.claim_procs p i
      rw [hproc] at hfree hk
      exact ⟨hfree, hk, hm⟩
    · rw [s.claim_eq]
      exact ⟨hu, Nat.le_refl _⟩
  | run hi hc =>
    refine h.update rfl (fun k _ _ => ⟨?_, rfl⟩) rfl
    rw [hi]
    rintro ⟨⟩

theorem State.Descriptors.enter {s : State} (h : s.Descriptors) : s.enter.Descriptors := by
  refine h.shrink ?_ (by rw [s.enter_eq]) fun f hu => ?_
  · rintro i k o ⟨hfree, hk, hm⟩
    obtain ⟨f, hf⟩ := s.enter_proc i
    rw [hf] at hfree hk
    exact ⟨hfree, hk, hm⟩
  · rw [s.enter_eq]
    exact ⟨hu, Nat.le_refl _⟩

theorem State.UserSame.descriptors {s s' : State} (hs : s.UserSame s') (h : s.Descriptors) :
    s'.Descriptors :=
  h.keep hs.procs (by rw [hs.fs]) (by rw [hs.fs]) (by rw [hs.fs])

theorem State.descriptors_stable (b : Board) : Stable b State.Descriptors State.Descriptors where
  act h ha := ha.descriptors h
  enter h := h.enter
  resume h _ := h.keep rfl rfl rfl rfl
  execute h _ := (State.execute_same b _ _ _).descriptors h
  elapse h _ := (State.elapse_same _).descriptors h

theorem Reached.descriptors (hr : Reached b m events s) : s.Descriptors := by
  refine hr.stable (State.descriptors_stable b) fun s₀ hb => ?_
  have hreset : (State.reset b m).Descriptors := by
    have hnone : ∀ {i k o}, ¬ (State.reset b m).Opens i k o := fun ho => absurd rfl ho.1
    exact ⟨fun ho => (hnone ho).elim, fun ho => (hnone ho).elim, fun ho => (hnone ho).elim,
      fun ho => (hnone ho).elim⟩
  exact ((State.descriptors_stable b).booted hreset hb).2

def Scope.all : Scope := ⟨fun _ => True, fun _ => True, fun _ => True⟩

theorem diskProgram_unwritten (hd : diskProgram b name s = .ok (some (file, e)) s₁)
    (hl : s₂ = s₁ ∨ ∃ r, loadImage b e (some file) s₁ = .ok r s₂) (ho : s₂.Opens p k o)
    (hf : o.file = file) : o.mode ≠ oWrite := by
  obtain ⟨-, -, hq⟩ := (diskProgram_acting (S := .all) s name fun _ _ => trivial).ok hd
  obtain ⟨hv, hmay⟩ := hq _ rfl
  have hprocs : s₂.procs = s₁.procs := by
    rcases hl with rfl | ⟨r, hl⟩
    · rfl
    · exact ((loadImage_acting (S := .all) hv (fun _ _ => trivial) s₁ _).ok hl).2.same.procs
  rw [State.Opens, hprocs] at ho
  exact (State.mayOpen_iff.1 hmay p k o ho hf).2

end TinyProcessors
