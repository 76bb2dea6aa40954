import TinyProcessors.Os.Reachable
import TinyProcessors.Lib.Bits

namespace TinyProcessors

theorem State.setProc_forall {R : Proc → Proc → Prop} (s : State) (f : Proc → Proc)
    (hr : ∀ q, R q q) (hp : R (s.procs p) (f (s.procs p))) (i : Fin 8) :
    R (s.procs i) ((s.setProc p f).procs i) := by
  by_cases hi : i = p
  · rw [hi, State.setProc_self]
    exact hp
  · rw [State.setProc_of_ne _ _ hi]
    exact hr _

structure Proc.Keeps (q q' : Proc) : Prop where
  used : q'.state ≠ .free → q.state ≠ .free
  alive : q'.alive = true → q.alive = true
  base : q'.base = q.base
  span : q'.span = q.span
  brk : q'.brk = q.brk

theorem Proc.Keeps.refl (q : Proc) : q.Keeps q := ⟨id, id, rfl, rfl, rfl⟩

theorem Proc.Keeps.trans {q q₁ q₂ : Proc} (h₁ : q.Keeps q₁) (h₂ : q₁.Keeps q₂) : q.Keeps q₂ :=
  ⟨h₁.used ∘ h₂.used, h₁.alive ∘ h₂.alive, h₂.base.trans h₁.base, h₂.span.trans h₁.span,
    h₂.brk.trans h₁.brk⟩

theorem Proc.keeps_of_alive {q q' : Proc} (h : q.alive = true) (hb : q'.base = q.base)
    (hs : q'.span = q.span) (hk : q'.brk = q.brk) : q.Keeps q' := by
  refine ⟨fun _ hf => ?_, fun _ => h, hb, hs, hk⟩
  rw [Proc.alive, hf] at h
  cases h

theorem Proc.keeps_free {q q' : Proc} (h : q'.state = .free) (hb : q'.base = q.base)
    (hs : q'.span = q.span) (hk : q'.brk = q.brk) : q.Keeps q' := by
  refine ⟨fun hn => absurd h hn, fun ha => ?_, hb, hs, hk⟩
  rw [Proc.alive, h] at ha
  cases ha

structure State.Layout (s : State) : Prop where
  fits : ∀ p, (s.procs p).state ≠ .free → s.Fits p
  apart : ∀ i j, i ≠ j → (s.procs i).alive = true → (s.procs j).alive = true →
    (s.procs i).base.toNat + (s.procs i).span.toNat ≤ (s.procs j).base.toNat ∨
      (s.procs j).base.toNat + (s.procs j).span.toNat ≤ (s.procs i).base.toNat

theorem State.Layout.keeps {s s' : State} (h : s.Layout)
    (hk : ∀ i, (s.procs i).Keeps (s'.procs i)) (hg : ∀ i, s'.guardOf i = s.guardOf i)
    (hi : s'.image = s.image) : s'.Layout := by
  constructor
  · intro p hp
    have hf := h.fits p ((hk p).used hp)
    constructor
    · rw [(hk p).base]
      exact hf.base
    · rw [(hk p).base, (hk p).span]
      exact hf.stop
    · rw [(hk p).base, (hk p).span, hg]
      exact hf.guard
    · rw [(hk p).base, (hk p).brk, hi]
      exact hf.image
    · rw [(hk p).brk, hg]
      exact hf.brk
  · intro i j hij ha hb
    rw [(hk i).base, (hk i).span, (hk j).base, (hk j).span]
    exact h.apart i j hij ((hk i).alive ha) ((hk j).alive hb)

theorem State.Layout.of_same {s s' : State} (h : s.Layout) (hp : s'.procs = s.procs)
    (hs : s'.spaces = s.spaces) (hi : s'.image = s.image) : s'.Layout :=
  h.keeps (fun _ => hp ▸ .refl _) (fun i => congrArg Space.guard (congrFun hs i)) hi

theorem State.Layout.update {s s' : State} (h : s.Layout)
    (he : s'.procs = Function.update s.procs p q) (hk : (s.procs p).Keeps q)
    (hs : s'.spaces = s.spaces) (hi : s'.image = s.image) : s'.Layout := by
  refine h.keeps (fun i => ?_) (fun i => congrArg Space.guard (congrFun hs i)) hi
  rw [he]
  by_cases hp : i = p
  · rw [hp, Function.update_self]
    exact hk
  · rw [Function.update_of_ne hp]
    exact .refl _

theorem State.Layout.sbrk {s : State} (h : s.Layout) (hp : (s.procs p).state = .running)
    (hle : size ≤ s.guardOf p - (s.procs p).brk) :
    (s.setProc p fun q => { q with brk := q.brk + size }).Layout := by
  have hf := h.fits p (by rw [hp]; rintro ⟨⟩)
  have hbrk := hf.brk
  have hlt := (s.guardOf p).isLt
  rw [BitVec.le_def, BitVec.toNat_sub_of_le (BitVec.le_def.2 hbrk)] at hle
  have hsum : ((s.procs p).brk + size).toNat = (s.procs p).brk.toNat + size.toNat := by
    rw [BitVec.toNat_add]
    exact Nat.mod_eq_of_lt (by omega)
  constructor
  · intro i hi
    by_cases hip : i = p
    · subst hip
      constructor <;> rw [State.setProc_self]
      · exact hf.base
      · exact hf.stop
      · exact hf.guard
      · change _ ≤ ((s.procs i).brk + size).toNat
        have himage := hf.image
        rw [hsum]
        exact Nat.le_trans himage (Nat.le_add_right _ _)
      · change ((s.procs i).brk + size).toNat ≤ _
        rw [hsum]
        change _ ≤ (s.guardOf i).toNat
        omega
    · rw [State.setProc_of_ne _ _ hip] at hi
      have hfi := h.fits i hi
      constructor <;> rw [State.setProc_of_ne _ _ hip]
      · exact hfi.base
      · exact hfi.stop
      · exact hfi.guard
      · exact hfi.image
      · exact hfi.brk
  · have hsame := s.setProc_forall (p := p) (R := fun q q' => q'.state = q.state ∧
      q'.base = q.base ∧ q'.span = q.span) (fun q => { q with brk := q.brk + size })
      (fun _ => ⟨rfl, rfl, rfl⟩) ⟨rfl, rfl, rfl⟩
    intro i j hij ha hb
    rw [Proc.alive, (hsame i).1] at ha
    rw [Proc.alive, (hsame j).1] at hb
    rw [(hsame i).2.1, (hsame i).2.2, (hsame j).2.1, (hsame j).2.2]
    exact h.apart i j hij ha hb

theorem mapProcess_space (h : mapProcess b i e old words = .ok (space, tables)) :
    space.base = e.load ∧ space.span = e.span ∧ space.guard = e.load + e.span - e.stack ∧
      space.drivesEngines = (e.flags &&& programAccelerators ≠ 0 : Bool) ∧ space.fp = old.fp := by
  obtain ⟨t, -, h⟩ := except_bind_ok h
  obtain ⟨t', -, h⟩ := except_bind_ok h
  cases h
  exact ⟨rfl, rfl, rfl, rfl, rfl⟩

theorem Program.Sized.guard {e : Program} (h : e.Sized) :
    (e.load + e.span - e.stack).toNat = e.load.toNat + e.span.toNat - e.stack.toNat := by
  have hstop := h.stop
  have hmem := h.memory
  have he : slotsEnd = 0x81000000 := rfl
  have htop : (e.load + e.span).toNat = e.load.toNat + e.span.toNat := by
    rw [BitVec.toNat_add]
    exact Nat.mod_eq_of_lt (by omega)
  rw [BitVec.toNat_sub_of_le (BitVec.le_def.2 (by omega)), htop]

theorem Program.Sized.brk {e : Program} (h : e.Sized) :
    e.load.toNat + e.memorySize.toNat ≤ ((e.load + e.memorySize + 15) &&& ~~~15).toNat ∧
      ((e.load + e.memorySize + 15) &&& ~~~15).toNat ≤
        e.load.toNat + e.span.toNat - e.stack.toNat := by
  have hstop := h.stop
  have hmem := h.memory
  have hload := h.loadAligned
  have hspan := h.spanAligned
  have hstack := h.stackAligned
  have he : slotsEnd = 0x81000000 := rfl
  change e.load.toNat % 0x20000 = 0 at hload
  change e.span.toNat % 0x20000 = 0 at hspan
  have hsum : (e.load + e.memorySize + 15).toNat = e.load.toNat + e.memorySize.toNat + 15 := by
    rw [BitVec.toNat_add, BitVec.toNat_add]
    change ((_ + _) % 2 ^ 32 + 15) % 2 ^ 32 = _
    omega
  have hround := toNat_and_not_low (e.load + e.memorySize + 15) 4 (by decide)
  change ((e.load + e.memorySize + 15) &&& ~~~15).toNat = _ at hround
  rw [hround, hsum]
  omega

theorem State.Layout.start {s : State} (h : s.Layout) (hv : e.Valid)
    (ho : s.overlaps e = false) (hm : mapProcess b i e (s.spaces i) s.tables = .ok (space, words))
    (parent : Word) : (s.start i e parent space words).Layout := by
  have hz := hv.sized
  have hstop := hz.stop
  have hbase := hz.base
  have hmem := hz.memory
  have hroom := hz.stackRoom
  have hend : slotsEnd = 0x81000000 := rfl
  have hguard : ((s.start i e parent space words).guardOf i).toNat =
      e.load.toNat + e.span.toNat - e.stack.toNat := by
    have hspace : (s.start i e parent space words).guardOf i = space.guard := by
      unfold State.guardOf State.start
      dsimp only
      rw [Function.update_self]
    rw [hspace, (mapProcess_space hm).2.2.1, hz.guard]
  have hself : (s.start i e parent space words).procs i = e.proc s.nextPid parent :=
    Function.update_self _ _ _
  have hother : ∀ j, j ≠ i → (s.start i e parent space words).procs j = s.procs j :=
    fun j hj => Function.update_of_ne hj _ _
  -- an alive process lies before or behind the slots of the new one
  have hclear : ∀ j, (s.procs j).alive = true →
      (s.procs j).base.toNat + (s.procs j).span.toNat ≤ e.load.toNat ∨
        e.load.toNat + e.span.toNat ≤ (s.procs j).base.toNat := by
    intro j hj
    have hused : (s.procs j).state ≠ .free := by
      intro hf
      rw [Proc.alive, hf] at hj
      cases hj
    have hfj := (h.fits j hused).stop
    rw [State.overlaps, List.any_eq_false] at ho
    have hoj := ho j (List.mem_finRange j)
    simp only [hj, Bool.true_and, Bool.and_eq_true, decide_eq_true_eq, not_and,
      BitVec.not_lt] at hoj
    rw [BitVec.lt_def, BitVec.le_def, BitVec.toNat_add, BitVec.toNat_add,
      Nat.mod_eq_of_lt (by omega), Nat.mod_eq_of_lt (by omega)] at hoj
    omega
  constructor
  · intro j hj
    by_cases hji : j = i
    · subst hji
      constructor
      · rw [hself]
        exact hbase
      · rw [hself]
        exact hstop
      · rw [hguard, hself]
        change _ ≤ e.load.toNat + e.span.toNat
        omega
      · have himage : (s.start j e parent space words).image j = e := Function.update_self _ _ _
        rw [hself, himage]
        exact hz.brk.1
      · rw [hguard, hself]
        exact hz.brk.2
    · rw [hother j hji] at hj
      have hfj := h.fits j hj
      have hspace : (s.start i e parent space words).guardOf j = s.guardOf j :=
        congrArg Space.guard (Function.update_of_ne hji _ _)
      have himage : (s.start i e parent space words).image j = s.image j :=
        Function.update_of_ne hji _ _
      constructor
      · rw [hother j hji]
        exact hfj.base
      · rw [hother j hji]
        exact hfj.stop
      · rw [hother j hji, hspace]
        exact hfj.guard
      · rw [hother j hji, himage]
        exact hfj.image
      · rw [hother j hji, hspace]
        exact hfj.brk
  · intro j k hjk hj hk
    by_cases hji : j = i
    · subst hji
      rw [hother k hjk.symm] at hk ⊢
      rw [hself]
      exact (hclear k hk).symm
    · rw [hother j hji] at hj ⊢
      by_cases hki : k = i
      · subst hki
        rw [hself]
        exact hclear j hj
      · rw [hother k hki] at hk ⊢
        exact h.apart j k hjk hj hk

theorem State.claim_guardOf (s : State) (p i : Fin 8) : (s.claim p).guardOf i = s.guardOf i := by
  have hsave : ∀ o, (s.fpuSave o).guardOf i = s.guardOf i := by
    intro o
    by_cases ho : i = o
    · subst ho
      unfold State.guardOf State.fpuSave
      dsimp only
      rw [Function.update_self]
      rfl
    · exact congrArg Space.guard (Function.update_of_ne ho _ _)
  change s.giveUp.guardOf i = _
  unfold State.giveUp
  split
  · rfl
  · dsimp only
    split
    · exact hsave _
    · rfl

theorem State.bury_keeps (s : State) (p parent : Fin 8) (hp : (s.procs p).alive = true)
    (i : Fin 8) : (s.procs i).Keeps ((s.bury p parent).procs i) := by
  have hz : ∀ j, (s.procs j).Keeps (((s.release p).setState p .zombie).procs j) :=
    (s.release p).setProc_forall _ .refl (Proc.keeps_of_alive hp rfl rfl rfl)
  unfold State.bury
  dsimp only
  split
  next hw =>
    refine (hz i).trans (State.setProc_forall _ _ .refl (Proc.keeps_of_alive ?_ rfl rfl rfl) i)
    rw [Proc.alive, hw.1]
    rfl
  next => exact hz i

theorem State.reapChildren_keeps (s : State) (p i : Fin 8) :
    (s.procs i).Keeps ((s.reapChildren p).procs i) := by
  unfold State.reapChildren
  dsimp only
  split
  · exact Proc.keeps_free rfl rfl rfl rfl
  · exact .refl _

theorem Act.layout (ha : Act b s s') (h : s.Layout) : s'.Layout := by
  cases ha with
  | calm hd hv | settle hi | engage | mount hf hm | idle x | files hf => exact h.of_same rfl rfl rfl
  | flush | create | write => exact h.of_same rfl rfl rfl
  | move | openRead | openWrite | closeRead => exact h.update rfl ⟨id, id, rfl, rfl, rfl⟩ rfl rfl
  | closeWrite => exact h.update rfl ⟨id, id, rfl, rfl, rfl⟩ rfl rfl
  | sbrk hp hle => exact h.sbrk hp hle
  | complete hp hw | skip hp => exact h.update rfl ⟨id, id, rfl, rfl, rfl⟩ rfl rfl
  | park hp hst hf =>
    refine h.update rfl ?_ rfl rfl
    rw [hf]
    exact Proc.keeps_of_alive (Proc.alive_of_running hp) rfl rfl rfl
  | wait hp =>
    exact h.update rfl (Proc.keeps_of_alive (Proc.alive_of_running hp) rfl rfl rfl) rfl rfl
  | reap hp hz => exact h.update rfl (Proc.keeps_free rfl rfl rfl rfl) rfl rfl
  | reapAll hp =>
    rename_i p code
    have hreap : (s.reapChildren p).Layout :=
      h.keeps (s.reapChildren_keeps p) (fun _ => rfl) rfl
    exact hreap.update rfl ⟨id, id, rfl, rfl, rfl⟩ rfl rfl
  | vanish hp => exact h.update rfl (Proc.keeps_free rfl rfl rfl rfl) rfl rfl
  | bury hp hf hz hs =>
    refine h.keeps (s.bury_keeps _ _ (Proc.alive_of_running hp)) (fun i => ?_) ?_
    · rw [s.bury_eq]
      rfl
    · rw [s.bury_eq]
  | wake hw =>
    refine h.update rfl (Proc.keeps_of_alive ?_ rfl rfl rfl) rfl rfl
    rw [Proc.alive]
    rcases hw with hw | hw <;> rw [hw] <;> rfl
  | spawned hv hf ho hm hp => exact h.start hv ho hm _
  | claim hp hc hf =>
    rename_i p
    refine h.keeps (fun i => ?_) (s.claim_guardOf p) ?_
    · obtain ⟨m, hm⟩ := s.claim_procs p i
      rw [hm]
      exact ⟨id, id, rfl, rfl, rfl⟩
    · rw [s.claim_eq]
  | run hi hc =>
    refine h.update rfl (Proc.keeps_of_alive ?_ rfl rfl rfl) rfl rfl
    rw [Proc.alive, hi]
    rfl
  | rest hc | protect hi hc | window hi hc => exact h.of_same rfl rfl rfl

end TinyProcessors
