import TinyProcessors.Lib.Bits
import TinyProcessors.Lib.Lazy
import TinyProcessors.Os.Sanity
import TinyProcessors.Os.Machine

namespace TinyProcessors

def fsUse (mstatus : Word) : Use :=
  if mstatus &&& mstatusFs = 0 then .off
  else if mstatus &&& mstatusFs = mstatusFs then .dirty
  else .clean

theorem fsUse_congr (h : m &&& mstatusFs = m' &&& mstatusFs) : fsUse m = fsUse m' := by
  rw [fsUse, fsUse, h]

theorem fsUse_off : fsUse m = .off ↔ m &&& mstatusFs = 0 := by
  unfold fsUse
  split
  next h => exact ⟨fun _ => h, fun _ => rfl⟩
  next h => split <;> exact ⟨by rintro ⟨⟩, fun he => absurd he h⟩

theorem fsUse_dirty : fsUse m = .dirty ↔ m &&& mstatusFs = mstatusFs := by
  unfold fsUse
  split
  next h =>
    rw [h]
    exact ⟨by rintro ⟨⟩, fun he => absurd he (by decide)⟩
  next h =>
    split
    next hd => exact ⟨fun _ => hd, fun _ => rfl⟩
    next hd => exact ⟨by rintro ⟨⟩, fun he => absurd he hd⟩

theorem fsUse_clear (m : Word) : fsUse (m &&& ~~~mstatusFs) = .off := by
  rw [fsUse_off, BitVec.and_assoc]
  exact (congrArg (m &&& ·) (by decide : ~~~mstatusFs &&& mstatusFs = 0#32)).trans BitVec.and_zero

theorem fsUse_clean (h : m &&& mstatusFs = 0) : fsUse (m ||| mstatusFsClean) = .clean := by
  have hc : (m ||| mstatusFsClean) &&& mstatusFs = mstatusFsClean := by
    rw [or_and_distrib, h]
    decide
  rw [fsUse, hc]
  decide

theorem fsUse_set (m : Word) : fsUse (m ||| mstatusFs) = .dirty := by
  rw [fsUse_dirty, or_and_distrib, BitVec.and_self]
  ext k hk
  simp only [BitVec.getElem_or, BitVec.getElem_and]
  cases m[k] <;> cases mstatusFs[k] <;> rfl

def State.fpuWith (s : State) (mstatus : Fin 8 → Word) : Lazy (Fin 8) FState where
  held := s.hart.fp
  owner := s.fpuOwner
  saved i := (s.spaces i).fp
  use i := if (s.procs i).alive then fsUse (mstatus i) else .off

def State.fpu (s : State) : Lazy (Fin 8) FState := s.fpuWith fun i => (s.procs i).f.mstatus

def State.fpuRunning (s : State) : Lazy (Fin 8) FState :=
  s.fpuWith fun i => if s.current = some i then s.hart.mstatus else (s.procs i).f.mstatus

theorem State.fpuWith_congr {s s' : State} (hf : s'.hart.fp = s.hart.fp)
    (ho : s'.fpuOwner = s.fpuOwner) (hs : ∀ i, (s'.spaces i).fp = (s.spaces i).fp)
    (ha : ∀ i, (s'.procs i).alive = (s.procs i).alive)
    (hm : ∀ i, (s.procs i).alive = true → fsUse (m' i) = fsUse (m i)) :
    s'.fpuWith m' = s.fpuWith m := by
  refine Lazy.ext hf ho (funext hs) (funext fun i => ?_)
  change (if (s'.procs i).alive = true then _ else _) = if (s.procs i).alive = true then _ else _
  rw [ha i]
  split
  next h => exact hm i h
  next => rfl

theorem State.fpu_update {s s' : State} (he : s'.procs = Function.update s.procs p q)
    (ha : q.alive = (s.procs p).alive) (hm : q.f.mstatus = (s.procs p).f.mstatus)
    (hf : s'.hart = s.hart) (ho : s'.fpuOwner = s.fpuOwner) (hs : s'.spaces = s.spaces) :
    s'.fpu = s.fpu := by
  have hproc : ∀ i, (s'.procs i).alive = (s.procs i).alive ∧
      (s'.procs i).f.mstatus = (s.procs i).f.mstatus := by
    intro i
    rw [he]
    by_cases hi : i = p
    · rw [hi, Function.update_self]
      exact ⟨ha, hm⟩
    · rw [Function.update_of_ne hi]
      exact ⟨rfl, rfl⟩
  refine State.fpuWith_congr (by rw [hf]) ho (fun i => by rw [hs]) (fun i => (hproc i).1) ?_
  exact fun i _ => congrArg fsUse (hproc i).2

theorem State.fpu_same {s s' : State} (hp : s'.procs = s.procs) (hf : s'.hart.fp = s.hart.fp)
    (ho : s'.fpuOwner = s.fpuOwner) (hs : s'.spaces = s.spaces) : s'.fpu = s.fpu :=
  State.fpuWith_congr hf ho (fun i => by rw [hs]) (fun i => by rw [hp]) fun i _ => by rw [hp]

theorem State.fpu_use {s : State} (h : (s.procs i).alive = true) :
    s.fpu.use i = fsUse (s.procs i).f.mstatus := if_pos h

theorem State.alive_of_owner {s : State} (h : s.fpu.Sound) (ho : s.fpuOwner = some o) :
    (s.procs o).alive = true := by
  by_contra hn
  exact h.on.2 ho (if_neg hn)

theorem State.fpu_giveUp {s : State} (h : s.fpu.Sound) : s.giveUp.fpu = s.fpu.giveUp := by
  have hown : s.fpu.owner = s.fpuOwner := rfl
  unfold State.giveUp Lazy.giveUp
  rw [hown]
  cases ho : s.fpuOwner with
  | none => rfl
  | some o =>
    have halive := s.alive_of_owner h ho
    have hdirty : s.fpu.use o = .dirty ↔ (s.procs o).f.mstatus &&& mstatusFs = mstatusFs := by
      rw [s.fpu_use halive, fsUse_dirty]
    -- saved or not, the frames and the registers are as before
    have hsaved : ∀ t : State, t.procs = s.procs → t.hart.fp = s.hart.fp → t.fpuOwner = some o →
        (t.setProc o fun q => { q with f := { q.f with
          mstatus := q.f.mstatus &&& ~~~mstatusFs } }).fpu =
          ⟨s.hart.fp, some o, fun i => (t.spaces i).fp, Function.update s.fpu.use o .off⟩ := by
      intro t hp hf hto
      refine Lazy.ext hf hto rfl (funext fun i => ?_)
      change (if ((t.setProc o _).procs i).alive = true then
        fsUse ((t.setProc o _).procs i).f.mstatus else .off) = Function.update s.fpu.use o .off i
      by_cases hi : i = o
      · rw [hi, State.setProc_self, Function.update_self, fsUse_clear]
        split <;> rfl
      · rw [State.setProc_of_ne _ _ hi, Function.update_of_ne hi, hp]
        rfl
    dsimp only
    by_cases hd : (s.procs o).f.mstatus &&& mstatusFs = mstatusFs
    · rw [if_pos hd, if_pos (hdirty.2 hd)]
      refine (hsaved (s.fpuSave o) rfl rfl ho).trans (Lazy.ext rfl rfl (funext fun i => ?_) rfl)
      change (Function.update s.spaces o { s.spaces o with fp := s.hart.fp } i).fp =
        Function.update s.fpu.saved o s.hart.fp i
      by_cases hi : i = o
      · rw [hi, Function.update_self, Function.update_self]
      · rw [Function.update_of_ne hi, Function.update_of_ne hi]
        rfl
    · rw [if_neg hd, if_neg fun hu => hd (hdirty.1 hu)]
      exact hsaved s rfl rfl ho

theorem State.fpu_claim {s : State} (h : s.fpu.Sound) (hp : (s.procs p).state = .running)
    (hoff : (s.procs p).f.mstatus &&& mstatusFs = 0) : (s.claim p).fpu = s.fpu.claim p := by
  have hgive := s.fpu_giveUp h
  have hload : (s.giveUp.fpuLoad p).procs = s.giveUp.procs := rfl
  -- FS of `p` is still Off once the owner has given the FPU up
  have hkeep : ∃ m, s.giveUp.procs p = { s.procs p with f := { (s.procs p).f with mstatus := m } } ∧
      m &&& mstatusFs = 0 := by
    unfold State.giveUp
    cases ho : s.fpuOwner with
    | none => exact ⟨_, rfl, hoff⟩
    | some o =>
      have hpo : p ≠ o := by
        rintro rfl
        refine h.on.2 ho ?_
        rw [s.fpu_use (Proc.alive_of_running hp), fsUse_off, hoff]
      dsimp only
      rw [State.setProc_of_ne _ _ hpo]
      split <;> exact ⟨_, rfl, hoff⟩
  obtain ⟨m, hm, hm0⟩ := hkeep
  have halive : (s.giveUp.procs p).alive = true := by
    rw [hm]
    exact Proc.alive_of_running hp
  rw [Lazy.claim, ← hgive]
  refine Lazy.ext rfl rfl rfl (funext fun i => ?_)
  have hprocs : (s.claim p).procs = ((s.giveUp.fpuLoad p).setProc p fun q => { q with
      f := { q.f with mstatus := q.f.mstatus ||| mstatusFsClean } }).procs := rfl
  change (if ((s.claim p).procs i).alive = true then fsUse ((s.claim p).procs i).f.mstatus
    else .off) = Function.update s.giveUp.fpu.use p .clean i
  rw [hprocs]
  by_cases hi : i = p
  · rw [hi, State.setProc_self, Function.update_self, hload, hm]
    exact (if_pos (Proc.alive_of_running hp)).trans (fsUse_clean hm0)
  · rw [State.setProc_of_ne _ _ hi, Function.update_of_ne hi, hload]
    rfl

theorem State.fpu_release {s s' : State} (he : s'.procs = Function.update s.procs p q)
    (ha : q.alive = false) (hf : s'.hart = s.hart) (ho : s'.fpuOwner = (s.release p).fpuOwner)
    (hs : s'.spaces = s.spaces) : s'.fpu = s.fpu.release p := by
  refine Lazy.ext (congrArg Hart.fp hf) ho (funext fun i => by rw [State.fpu, fpuWith, hs]; rfl)
    (funext fun i => ?_)
  change (if (s'.procs i).alive = true then fsUse (s'.procs i).f.mstatus else .off) =
    Function.update s.fpu.use p .off i
  rw [he]
  by_cases hi : i = p
  · rw [hi, Function.update_self, Function.update_self, ha]
    rfl
  · rw [Function.update_of_ne hi, Function.update_of_ne hi]
    rfl

theorem State.fpu_start {s : State} (hf : (s.procs i).state = .free) (e : Program) (parent : Word)
    (space : Space) (words : Nat → Word) :
    (s.start i e parent space words).fpu = s.fpu.start i FState.zero := by
  refine Lazy.ext rfl rfl (funext fun j => ?_) (funext fun j => ?_)
  · change (Function.update s.spaces i { space with fp := FState.zero } j).fp =
      Function.update s.fpu.saved i FState.zero j
    by_cases hj : j = i
    · rw [hj, Function.update_self, Function.update_self]
    · rw [Function.update_of_ne hj, Function.update_of_ne hj]
      rfl
  · change (if (Function.update s.procs i (e.proc s.nextPid parent) j).alive = true then
      fsUse (Function.update s.procs i (e.proc s.nextPid parent) j).f.mstatus else .off) =
      if (s.procs j).alive = true then fsUse (s.procs j).f.mstatus else .off
    by_cases hj : j = i
    · have hdead : ¬ (s.procs i).alive = true := by
        rw [Proc.alive, hf]
        decide
      rw [hj, Function.update_self, if_neg hdead]
      exact (if_pos rfl).trans (by decide : fsUse mstatusMpie = .off)
    · rw [Function.update_of_ne hj]

structure State.SameBorn (s s' : State) : Prop where
  spawned : s'.spawned = s.spawned
  born : s'.born = s.born
  used : ∀ i, (s'.procs i).state ≠ .free → (s.procs i).state ≠ .free
  alive : ∀ i, (s'.procs i).alive = true → (s.procs i).alive = true

theorem State.SameBorn.update {s s' : State} (he : s'.procs = Function.update s.procs p q)
    (hu : q.state ≠ .free → (s.procs p).state ≠ .free)
    (ha : q.alive = true → (s.procs p).alive = true) (hs : s'.spawned = s.spawned)
    (hb : s'.born = s.born) : s.SameBorn s' := by
  refine ⟨hs, hb, fun i hi => ?_, fun i hi => ?_⟩
  · rw [he] at hi
    by_cases hip : i = p
    · rw [hip, Function.update_self] at hi
      exact hip ▸ hu hi
    · rwa [Function.update_of_ne hip] at hi
  · rw [he] at hi
    by_cases hip : i = p
    · rw [hip, Function.update_self] at hi
      exact hip ▸ ha hi
    · rwa [Function.update_of_ne hip] at hi

inductive State.FpuStep (s s' : State) : Prop
  | same (he : s'.fpu = s.fpu) (hb : s.SameBorn s')
  | claim (he : s'.fpu = s.fpu.claim p) (hb : s.SameBorn s')
  | release (he : s'.fpu = s.fpu.release p) (hd : (s'.procs p).alive = false) (hb : s.SameBorn s')
  | start (hf : (s.procs i).state = .free) (he : s'.fpu = s.fpu.start i FState.zero)
      (hs : s'.spawned = s.spawned + 1) (hb : s'.born = Function.update s.born i (s.spawned + 1))
      (ho : ∀ j, j ≠ i → s'.procs j = s.procs j)

theorem State.FpuStep.update {s s' : State} (he : s'.procs = Function.update s.procs p q)
    (ha : q.alive = (s.procs p).alive) (hm : q.f.mstatus = (s.procs p).f.mstatus)
    (hu : q.state ≠ .free → (s.procs p).state ≠ .free)
    (hf : s'.hart = s.hart) (ho : s'.fpuOwner = s.fpuOwner) (hs : s'.spaces = s.spaces)
    (hn : s'.spawned = s.spawned) (hb : s'.born = s.born) : s.FpuStep s' :=
  .same (State.fpu_update he ha hm hf ho hs) (.update he hu (fun h => ha ▸ h) hn hb)

theorem State.FpuStep.of_same {s s' : State} (hp : s'.procs = s.procs) (hf : s'.hart.fp = s.hart.fp)
    (ho : s'.fpuOwner = s.fpuOwner) (hs : s'.spaces = s.spaces) (hn : s'.spawned = s.spawned)
    (hb : s'.born = s.born) : s.FpuStep s' :=
  .same (State.fpu_same hp hf ho hs) ⟨hn, hb, fun i => by rw [hp]; exact id,
    fun i => by rw [hp]; exact id⟩

theorem Hart.writePmpaddr_fp (h : Hart) (i : Fin 8) (v : Word) :
    (h.writePmpaddr i v).fp = h.fp := by
  unfold Hart.writePmpaddr
  split <;> rfl

theorem Hart.protect_fp (h : Hart) (b : Board) (i : Fin 8) (q : Proc) :
    (h.protect b i q).fp = h.fp := by
  unfold Hart.protect
  dsimp only [Hart.writeSatp, Hart.writePmpcfg]
  simp only [Hart.writePmpaddr_fp]

theorem Act.fpuStep (ha : Act b s s') (h : s.fpu.Sound) : s.FpuStep s' := by
  have hrun {q : Proc} (hq : q.state = .running) : q.state ≠ .free := by
    rw [hq]
    rintro ⟨⟩
  cases ha with
  | move hp hm hle | openRead hp | openWrite hp => exact .update rfl rfl rfl id rfl rfl rfl rfl rfl
  | closeRead hp | closeWrite hp | sbrk hp => exact .update rfl rfl rfl id rfl rfl rfl rfl rfl
  | skip hp | complete hp hw => exact .update rfl rfl rfl id rfl rfl rfl rfl rfl
  | wake hw =>
    refine .update rfl ?_ rfl (fun _ => ?_) rfl rfl rfl rfl rfl
    · rcases hw with hw | hw <;> rw [Proc.alive, Proc.alive, hw] <;> rfl
    · rcases hw with hw | hw <;> rw [hw] <;> rintro ⟨⟩
  | run hi hc =>
    refine .update rfl ?_ rfl (fun _ => ?_) rfl rfl rfl rfl rfl
    · rw [Proc.alive, Proc.alive, hi]
      rfl
    · rw [hi]
      rintro ⟨⟩
  | park hp hst hf =>
    rename_i state f p
    refine .update rfl ?_ (by rw [hf]) (fun _ => hrun hp) rfl rfl rfl rfl rfl
    rw [Proc.alive_of_running hp, hf, Proc.alive]
    rcases hst with rfl | rfl | rfl <;> rfl
  | wait hp hc hpid hpar hx =>
    refine .update rfl ?_ rfl (fun _ => hrun hp) rfl rfl rfl rfl rfl
    rw [Proc.alive_of_running hp]
    rfl
  | reap hp hz hpid hpar =>
    refine .update rfl ?_ rfl (by rintro hn; exact absurd rfl hn) rfl rfl rfl rfl rfl
    rw [Proc.alive, Proc.alive, hz]
    rfl
  | reapAll hp =>
    rename_i p code
    have hreap : ∀ i, ((s.reapChildren p).procs i).alive = (s.procs i).alive ∧
        ((s.reapChildren p).procs i).f = (s.procs i).f ∧
        (((s.reapChildren p).procs i).state ≠ .free → (s.procs i).state ≠ .free) := by
      intro i
      unfold State.reapChildren
      dsimp only
      split
      next hc =>
        rw [Proc.alive, Proc.alive, hc.1]
        exact ⟨rfl, rfl, fun hn => absurd rfl hn⟩
      next => exact ⟨rfl, rfl, id⟩
    have hfpu : (s.reapChildren p).fpu = s.fpu :=
      State.fpuWith_congr rfl rfl (fun _ => rfl) (fun i => (hreap i).1)
        fun i _ => by rw [(hreap i).2.1]
    have hborn : s.SameBorn (s.reapChildren p) :=
      ⟨rfl, rfl, fun i => (hreap i).2.2, fun i hi => (hreap i).1 ▸ hi⟩
    have hcode : (s.reapChildren p).SameBorn ({ (s.reapChildren p).setProc p
        (fun q => { q with exitCode := code }) with
      waiting := Function.update s.waiting p none }) := .update rfl id id rfl rfl
    refine .same ?_ ⟨rfl, rfl, fun i hi => hborn.used i (hcode.used i hi),
      fun i hi => hborn.alive i (hcode.alive i hi)⟩
    refine Eq.trans ?_ hfpu
    exact State.fpu_update rfl rfl rfl rfl rfl rfl
  | vanish hp hf hz hn h1 =>
    rename_i p
    refine .release (p := p) (State.fpu_release rfl rfl rfl rfl rfl) ?_
      (.update rfl (fun _ => hrun hp) (fun _ => Proc.alive_of_running hp) rfl rfl)
    rw [State.setState, State.setProc_self]
    rfl
  | bury hp hf hz hs =>
    rename_i parent p
    have hfpu : ((s.release p).setState p .zombie).fpu = s.fpu.release p :=
      State.fpu_release rfl rfl rfl rfl rfl
    have hborn : s.SameBorn ((s.release p).setState p .zombie) :=
      .update rfl (fun _ => hrun hp) (fun _ => Proc.alive_of_running hp) rfl rfl
    have hdead : ((s.bury p parent).procs p).alive = false := by
      rw [Proc.alive, s.bury_self]
      rfl
    refine .release (p := p) ?_ hdead ?_
    · unfold State.bury
      dsimp only
      split
      next hc =>
        refine Eq.trans ?_ hfpu
        refine State.fpu_update rfl ?_ rfl rfl rfl rfl
        rw [Proc.alive, Proc.alive, hc.1]
        rfl
      next => exact hfpu
    · unfold State.bury
      dsimp only
      split
      next hc =>
        have hwake : ((s.release p).setState p .zombie).SameBorn
            (((s.release p).setState p .zombie).setState parent .ready) := by
          refine .update rfl (fun _ => ?_) (fun _ => ?_) rfl rfl
          · rw [hc.1]
            rintro ⟨⟩
          · rw [Proc.alive, hc.1]
            rfl
        exact ⟨rfl, rfl, fun i hi => hborn.used i (hwake.used i hi),
          fun i hi => hborn.alive i (hwake.alive i hi)⟩
      next => exact hborn
  | spawned hv hf ho hm hp =>
    rename_i i e space words parent
    exact .start hf (State.fpu_start hf e parent space words) rfl rfl
      fun j hj => Function.update_of_ne hj _ _
  | claim hp hc hf =>
    rename_i p
    refine .claim (p := p) (State.fpu_claim h hp hf) ⟨?_, ?_, fun i hi => ?_, fun i hi => ?_⟩
    · rw [s.claim_eq]
    · rw [s.claim_eq]
    · obtain ⟨m, hm⟩ := s.claim_procs p i
      rw [hm] at hi
      exact hi
    · obtain ⟨m, hm⟩ := s.claim_procs p i
      rw [hm] at hi
      exact hi
  | protect hi hc => exact .of_same rfl (Hart.protect_fp _ _ _ _) rfl rfl rfl rfl
  | _ => exact .of_same rfl rfl rfl rfl rfl rfl

structure State.Floats (s : State) (l : Lazy (Fin 8) FState) (eager : Nat → FState) : Prop where
  sound : l.Sound
  view : (s.procs p).alive = true → l.view p = eager (s.born p)
  fresh : s.spawned < n → eager n = FState.zero
  le : s.born p ≤ s.spawned
  inj : (s.procs p).state ≠ .free → (s.procs q).state ≠ .free → s.born p = s.born q → p = q

theorem State.SameBorn.floats {s s' : State} (hb : s.SameBorn s') (h : s.Floats l eager)
    (hs : l'.Sound) (hv : ∀ p, (s'.procs p).alive = true → l'.view p = l.view p) :
    s'.Floats l' eager where
  sound := hs
  view {p} hp := by rw [hv p hp, hb.born, h.view (hb.alive p hp)]
  fresh hn := h.fresh (hb.spawned ▸ hn)
  le := by
    rw [hb.born, hb.spawned]
    exact h.le
  inj {p q} hp hq he := by
    rw [hb.born] at he
    exact h.inj (hb.used p hp) (hb.used q hq) he

theorem Act.floats (ha : Act b s s') (h : s.Floats s.fpu eager) : s'.Floats s'.fpu eager := by
  cases ha.fpuStep h.sound with
  | same he hb => exact he ▸ hb.floats h h.sound fun _ _ => rfl
  | claim he hb =>
    rename_i p
    exact he ▸ hb.floats h (h.sound.claim p) fun i _ => h.sound.claim_view p i
  | release he hd hb =>
    rename_i p
    refine he ▸ hb.floats h (h.sound.release p) fun i hi => Lazy.release_view _ ?_
    rintro rfl
    rw [hd] at hi
    cases hi
  | start hf he hs hb ho =>
    rename_i i
    have hoff : s.fpu.use i = .off := by
      refine if_neg ?_
      rw [Proc.alive, hf]
      decide
    rw [he]
    refine ⟨h.sound.start hoff _, fun {p} hp => ?_, fun hn => h.fresh (by omega), fun {p} => ?_,
      fun {p q} hp hq hpq => ?_⟩
    · rw [h.sound.start_view hoff, hb]
      by_cases hpi : p = i
      · rw [if_pos hpi, hpi, Function.update_self, h.fresh (Nat.lt_succ_self _)]
      · rw [if_neg hpi, Function.update_of_ne hpi]
        exact h.view (ho p hpi ▸ hp)
    · rw [hb, hs]
      by_cases hpi : p = i
      · rw [hpi, Function.update_self]
      · rw [Function.update_of_ne hpi]
        exact Nat.le_succ_of_le h.le
    · rw [hb] at hpq
      by_cases hpi : p = i <;> by_cases hqi : q = i
      · rw [hpi, hqi]
      · rw [hpi, Function.update_self, Function.update_of_ne hqi] at hpq
        exact absurd (hpq ▸ h.le (p := q)) (Nat.not_succ_le_self _)
      · rw [hqi, Function.update_self, Function.update_of_ne hpi] at hpq
        exact absurd (hpq ▸ h.le (p := p)) (Nat.not_succ_le_self _)
      · rw [Function.update_of_ne hpi, Function.update_of_ne hqi] at hpq
        rw [ho p hpi] at hp
        rw [ho q hqi] at hq
        exact h.inj hp hq hpq

theorem Hart.enterHandler_fs (h : Hart) :
    h.enterHandler.mstatusValue &&& mstatusFs = h.mstatus &&& mstatusFs := by
  have hmpp : ∀ p : Priv, p.bits <<< 11 &&& mstatusFs = 0#32 := by
    intro p
    cases p <;> decide
  have hheld : h.enterHandler.mstatus &&& mstatusFs = h.mstatus &&& mstatusFs := by
    have hbits : ∀ c : Bool, (if c then mstatusMpie else 0) &&& mstatusFs = 0#32 := by decide
    change (_ ||| (if h.mstatus &&& mstatusMie ≠ 0 then mstatusMpie else 0)) &&& mstatusFs = _
    have hif := hbits (decide (h.mstatus &&& mstatusMie ≠ 0))
    simp only [decide_eq_true_eq] at hif
    rw [or_and_of_disjoint hif, and_and_of_covers (by decide)]
  have hvalue : (h.enterHandler.mstatus ||| h.enterHandler.mpp.bits <<< 11) &&& mstatusFs =
      h.mstatus &&& mstatusFs := by
    rw [or_and_of_disjoint (hmpp _), hheld]
  unfold Hart.mstatusValue
  dsimp only
  split
  · rw [or_and_of_disjoint (by decide), hvalue]
  · exact hvalue

theorem Hart.mret_fs (h : Hart) : h.mret.mstatus &&& mstatusFs = h.mstatus &&& mstatusFs := by
  have hbits : ∀ c : Bool, (if c then mstatusMie else 0) &&& mstatusFs = 0#32 := by decide
  have hif := hbits (decide (h.mstatus &&& mstatusMpie ≠ 0))
  simp only [decide_eq_true_eq] at hif
  have hkept : (h.mstatus &&& ~~~mstatusMie ||| mstatusMpie |||
      (if h.mstatus &&& mstatusMpie ≠ 0 then mstatusMie else 0)) &&& mstatusFs =
      h.mstatus &&& mstatusFs := by
    rw [or_and_of_disjoint hif, or_and_of_disjoint (by decide), and_and_of_covers (by decide)]
  unfold Hart.mret
  dsimp only
  split
  · exact hkept
  · rw [and_and_of_covers (by decide), hkept]

theorem State.resume_fs (s : State) :
    s.resume.hart.mstatus &&& mstatusFs = s.frame.mstatus &&& mstatusFs := by
  unfold State.resume
  dsimp only
  rw [Hart.mret_fs]
  exact and_and_of_covers (by decide) _

theorem State.fpu_enter (s : State) : s.enter.fpu = s.fpuRunning := by
  refine State.fpuWith_congr ?_ ?_ ?_ ?_ ?_
  · rw [s.enter_eq]
    rfl
  · rw [s.enter_eq]
  · rw [s.enter_eq]
    exact fun _ => rfl
  · intro i
    obtain ⟨f, hf⟩ := s.enter_proc i
    rw [hf]
    rfl
  · intro i _
    split
    next hc =>
      rw [s.enter_self hc]
      exact fsUse_congr s.hart.enterHandler_fs
    next hc =>
      rcases s.enter_procs i with he | ⟨hcur, -⟩
      · rw [he]
      · exact absurd hcur hc

theorem State.fpuRunning_resume (s : State) : s.resume.fpuRunning = s.fpu := by
  refine State.fpuWith_congr rfl rfl (fun _ => rfl) (fun _ => rfl) fun i _ => ?_
  split
  next hc =>
    refine fsUse_congr (s.resume_fs.trans ?_)
    have hcur : s.current = some i := hc
    rw [State.frame, hcur]
  next => rfl

theorem arithmetic_clean (h : (arithmetic unit s op rm fa fb fc rd).dirty = false) :
    (arithmetic unit s op rm fa fb fc rd).fp = s := by
  unfold arithmetic at h ⊢
  dsimp only at h ⊢
  split at h
  · cases h
  · simp only [ne_eq, decide_not, Bool.not_eq_false', decide_eq_true_eq] at h
    have hor : s.fcsr ||| 0 = s.fcsr := BitVec.or_zero
    rw [h, hor]

theorem executeOpFp_clean (h : executeOpFp unit s word a = some r) (hd : r.dirty = false) :
    r.fp = s := by
  have hround : ∀ {op fa fb fc rd}, ((roundingMode s (field word 12 3)).map fun rm =>
      arithmetic unit s op rm fa fb fc rd) = some r → r.fp = s := by
    intro op fa fb fc rd hr
    obtain ⟨rm, -, rfl⟩ := Option.map_eq_some_iff.1 hr
    exact arithmetic_clean hd
  unfold executeOpFp at h
  dsimp only at h
  split at h
  all_goals first
    | exact hround h
    | skip
  all_goals first
    | (split at h
       · cases h
       · first
         | exact hround h
         | (cases h; first | exact arithmetic_clean hd | rfl | cases hd))
    | cases h

theorem executeCsr_clean (h : executeCsr s word a = some r) (hd : r.dirty = false) :
    r.fp = s := by
  unfold executeCsr at h
  dsimp only at h
  split at h
  · cases h
    cases hd
  · split at h <;> cases h
    · rfl
    · cases hd
  · split at h <;> cases h
    · rfl
    · cases hd
  · cases h

theorem executeFloating_clean (h : executeFloating unit s word a loaded = some r)
    (hd : r.dirty = false) : r.fp = s := by
  unfold executeFloating at h
  dsimp only at h
  split at h
  · split at h
    · cases h
    · cases h
      cases hd
  · split at h
    · cases h
    · cases h
      rfl
  · exact executeOpFp_clean h hd
  · exact executeCsr_clean h hd
  · split at h
    · cases h
    · obtain ⟨rm, -, rfl⟩ := Option.map_eq_some_iff.1 h
      exact arithmetic_clean hd

theorem State.float_hart (h : State.float b s word loaded = some s') :
    s.hart.mstatus &&& mstatusFs ≠ 0 ∧ ∃ r, executeFloating b.fpUnit s.hart.fp word
      (s.hart.x (Fin.ofNat 32 (field word 15 5))) loaded = some r ∧ s'.hart.fp = r.fp ∧
      s'.hart.mstatus = if r.dirty then s.hart.mstatus ||| mstatusFs else s.hart.mstatus := by
  unfold State.float at h
  split at h
  · cases h
  next hon =>
    dsimp only at h
    split at h
    · cases h
    next r hr =>
      obtain ⟨s₁, hs₁, rfl⟩ := Option.map_eq_some_iff.1 h
      have hhart : s₁.hart = s.hart := by
        split at hs₁
        · cases hs₁
          rfl
        · rw [State.userStore_eq hs₁]
      refine ⟨fun h => hon (.inl h), r, hr, rfl, ?_⟩
      dsimp only
      rw [hhart]

/-- The floating states under an eager switch. -/
def eagerStep (b : Board) (s : State) (e : Event) (eager : Nat → FState) : Nat → FState :=
  match e, s.current with
  | .float word loaded, some p =>
    match s.float b word loaded, executeFloating b.fpUnit (eager (s.born p)) word
        (s.hart.x (Fin.ofNat 32 (field word 15 5))) loaded with
    | some _, some r => Function.update eager (s.born p) r.fp
    | _, _ => eager
  | _, _ => eager

theorem eagerStep_idle (hc : s.current = none) : eagerStep b s e eager = eager := by
  unfold eagerStep
  rw [hc]
  cases e <;> rfl

inductive Eager (b : Board) (m : Machine) : List Event → State → (Nat → FState) → Prop
  | boot (h : Reached b m [] s) : Eager b m [] s fun _ => FState.zero
  | step (h : Eager b m events s eager) (hs : step b e s = .ok () s') :
      Eager b m (events ++ [e]) s' (eagerStep b s e eager)

theorem Eager.reached (h : Eager b m events s eager) : Reached b m events s := by
  induction h with
  | boot h => exact h
  | step _ hs ih => exact reached_step ih hs

theorem Reached.eager (h : Reached b m events s) : ∃ eager, Eager b m events s eager := by
  induction events using List.reverseRecOn generalizing s with
  | nil => exact ⟨_, .boot h⟩
  | append_singleton events e ih =>
    obtain ⟨s₀, h₀, hs⟩ := reached_snoc h
    obtain ⟨eager, he⟩ := ih h₀
    exact ⟨_, .step he hs⟩

theorem State.Floats.acts (ha : Relation.ReflTransGen (Act b) s s')
    (h : s.Floats s.fpu eager) : s'.Floats s'.fpu eager := by
  induction ha with
  | refl => exact h
  | tail _ hs ih => exact hs.floats ih

theorem State.Floats.enter {s : State} (h : s.Floats s.fpuRunning eager) :
    s.enter.Floats s.enter.fpu eager := by
  have hproc : ∀ i, (s.enter.procs i).state = (s.procs i).state := by
    intro i
    obtain ⟨f, hf⟩ := s.enter_proc i
    rw [hf]
  have hborn : s.enter.born = s.born := by rw [s.enter_eq]
  have hspawned : s.enter.spawned = s.spawned := by rw [s.enter_eq]
  rw [s.fpu_enter]
  refine ⟨h.sound, fun {p} hp => ?_, fun hn => h.fresh (hspawned ▸ hn), ?_, fun {p q} hp hq => ?_⟩
  · rw [hborn]
    rw [Proc.alive, hproc] at hp
    exact h.view hp
  · rw [hborn, hspawned]
    exact h.le
  · rw [hborn]
    rw [hproc] at hp hq
    exact h.inj hp hq

theorem State.Floats.resume {s : State} (h : s.Floats s.fpu eager) :
    s.resume.Floats s.resume.fpuRunning eager := by
  rw [s.fpuRunning_resume]
  exact ⟨h.sound, h.view, h.fresh, h.le, h.inj⟩

theorem State.UserSame.floats {s s' : State} (hu : s.UserSame s')
    (hf : s'.hart.fp = s.hart.fp) (hm : s'.hart.mstatus = s.hart.mstatus)
    (h : s.Floats s.fpuRunning eager) : s'.Floats s'.fpuRunning eager := by
  have he : s'.fpuRunning = s.fpuRunning := by
    refine State.fpuWith_congr hf hu.fpuOwner ?_ ?_ ?_
    · intro i
      rw [hu.spaces]
    · intro i
      rw [hu.procs]
    · intro i _
      rw [hu.current, hu.procs, hm]
  rw [he]
  refine ⟨h.sound, ?_, ?_, ?_, ?_⟩
  · rw [hu.procs, hu.born]
    exact h.view
  · rw [hu.spawned]
    exact h.fresh
  · rw [hu.born, hu.spawned]
    exact h.le
  · rw [hu.procs, hu.born]
    exact h.inj

theorem State.Floats.owner {s : State} (h : s.Floats s.fpuRunning eager)
    (hp : (s.procs p).state = .running) (hc : s.current = some p)
    (hm : s.hart.mstatus &&& mstatusFs ≠ 0) :
    s.fpuOwner = some p ∧ s.hart.fp = eager (s.born p) := by
  have halive : (s.procs p).alive = true := by
    rw [Proc.alive, hp]
    rfl
  have huse : s.fpuRunning.use p = fsUse s.hart.mstatus := by
    change (if (s.procs p).alive = true then fsUse (if s.current = some p then _ else _) else _) = _
    rw [if_pos halive, if_pos hc]
  have ho : s.fpuOwner = some p := by
    refine h.sound.on.1 ?_
    rw [huse]
    exact fun he => hm (fsUse_off.1 he)
  refine ⟨ho, ?_⟩
  rw [← h.view halive]
  exact (if_pos ho).symm

theorem Proc.used_of_alive {q : Proc} (h : q.alive = true) : q.state ≠ .free := by
  intro hf
  rw [Proc.alive, hf] at h
  cases h

theorem State.Floats.write {s s' : State} (h : s.Floats s.fpuRunning eager)
    (hp : (s.procs p).state = .running) (hc : s.current = some p) (ho : s.fpuOwner = some p)
    (hu : s.UserSame s') (hm : s'.hart.mstatus = s.hart.mstatus ||| mstatusFs) :
    s'.Floats s'.fpuRunning (Function.update eager (s.born p) s'.hart.fp) := by
  have halive : (s.procs p).alive = true := by
    rw [Proc.alive, hp]
    rfl
  have he : s'.fpuRunning = s.fpuRunning.write p s'.hart.fp := by
    refine Lazy.ext rfl hu.fpuOwner (funext fun i => ?_) (funext fun i => ?_)
    · change (s'.spaces i).fp = (s.spaces i).fp
      rw [hu.spaces]
    · change (if (s'.procs i).alive = true then fsUse (if s'.current = some i then _ else _)
        else _) = Function.update s.fpuRunning.use p .dirty i
      rw [hu.procs, hu.current, hm]
      by_cases hi : i = p
      · rw [hi, Function.update_self, if_pos halive, if_pos hc, fsUse_set]
      · have hne : s.current ≠ some i := fun hci => hi (Option.some.inj (hci.symm.trans hc))
        rw [Function.update_of_ne hi, if_neg hne]
        change _ = if (s.procs i).alive = true then fsUse (if s.current = some i then _ else _)
          else _
        rw [if_neg hne]
  have hown : s.fpuRunning.owner = some p := ho
  rw [he]
  refine ⟨h.sound.write hown _, fun {i} hi => ?_, fun {n} hn => ?_, ?_, ?_⟩
  · rw [hu.procs] at hi
    rw [Lazy.write_view hown, hu.born]
    by_cases hip : i = p
    · rw [if_pos hip, hip, Function.update_self]
    · have hborn : s.born i ≠ s.born p := fun heq =>
        hip (h.inj (Proc.used_of_alive hi) (Proc.used_of_alive halive) heq)
      rw [if_neg hip, Function.update_of_ne hborn, h.view hi]
  · rw [hu.spawned] at hn
    have hlt := Nat.lt_of_le_of_lt (h.le (p := p)) hn
    rw [Function.update_of_ne (Nat.ne_of_gt hlt), h.fresh hn]
  · rw [hu.born, hu.spawned]
    exact h.le
  · rw [hu.procs, hu.born]
    exact h.inj

theorem State.Floats.execute {s : State} (h : s.Floats s.fpuRunning eager)
    (hp : (s.procs p).state = .running) (hc : s.current = some p) :
    (s.execute b p e).Floats (s.execute b p e).fpuRunning (eagerStep b s e eager) := by
  have hu := s.execute_same b p e
  cases e with
  | compute x pc => exact hu.floats rfl rfl h
  | store va width value =>
    have hhart : (s.execute b p (.store va width value)).hart.fp = s.hart.fp ∧
        (s.execute b p (.store va width value)).hart.mstatus = s.hart.mstatus := by
      unfold State.execute
      dsimp only
      split
      · split
        · exact ⟨rfl, rfl⟩
        next s₁ hs =>
          have hh := congrArg State.hart (State.userStore_eq hs)
          have hfp : s₁.hart.fp = s.hart.fp := congrArg Hart.fp hh
          have hm : s₁.hart.mstatus = s.hart.mstatus := congrArg Hart.mstatus hh
          exact ⟨hfp, hm⟩
      · exact ⟨rfl, rfl⟩
    exact hu.floats hhart.1 hhart.2 h
  | trap cause tval => exact hu.floats rfl rfl h
  | float word loaded =>
    cases hf : s.float b word loaded with
    | none =>
      have hexec : s.execute b p (.float word loaded) = s := by
        unfold State.execute
        dsimp only
        rw [hf]
      have heager : eagerStep b s (.float word loaded) eager = eager := by
        unfold eagerStep
        rw [hc]
        dsimp only
        rw [hf]
      rw [hexec, heager]
      exact h
    | some s₁ =>
      obtain ⟨hon, r, hr, hfp, hm⟩ := State.float_hart hf
      obtain ⟨ho, hview⟩ := h.owner hp hc hon
      have hexec : s.execute b p (.float word loaded) = (s₁.goOn p (s.hart.pc + 4)).elapse := by
        unfold State.execute
        dsimp only
        rw [hf]
      have heager : eagerStep b s (.float word loaded) eager =
          Function.update eager (s.born p) r.fp := by
        unfold eagerStep
        rw [hc]
        dsimp only
        rw [hf, ← hview, hr]
      rw [heager]
      rw [hexec] at hu ⊢
      cases hd : r.dirty with
      | true =>
        rw [hd, if_pos rfl] at hm
        have hw := h.write hp hc ho hu hm
        exact hfp ▸ hw
      | false =>
        rw [hd, if_neg Bool.false_ne_true] at hm
        have hclean := executeFloating_clean hr hd
        rw [hclean, hview, Function.update_eq_self]
        exact hu.floats (hfp.trans hclean) hm h

theorem State.reset_floats (b : Board) (m : Machine) :
    (State.reset b m).Floats (State.reset b m).fpu fun _ => FState.zero := by
  refine ⟨⟨?_, ?_⟩, ?_, fun _ => rfl, Nat.le_refl 0, ?_⟩
  · intro i
    exact ⟨fun h => absurd rfl h, by rintro ⟨⟩⟩
  · rintro i ⟨⟩
  · intro p hp
    cases hp
  · intro p q hp
    exact absurd rfl hp

theorem Eager.floats (h : Eager b m events s eager) : s.Floats s.fpuRunning eager := by
  induction h with
  | boot h =>
    obtain ⟨s₀, hs₀, rfl⟩ := reached_nil.1 h
    exact ((State.reset_floats b m).acts (kernelMain_ok hs₀).reach.acts).resume
  | step h hs ih =>
    obtain ⟨hc, -, hset⟩ := h.reached.settled
    cases step_moves (hset.sane hc) hs with
    | elapse hcur =>
      rw [eagerStep_idle hcur]
      exact (State.elapse_same _).floats rfl rfl ih
    | execute hcur => exact ih.execute (hset.running _ hcur) hcur
    | trap hr _ => exact (ih.enter.acts hr.acts).resume

def Unmapped (x : Except String α) : Prop :=
  ∀ why, x = .error why → why = "page tables full" ∨ why = "map before the root"

theorem Unmapped.ok (a : α) : Unmapped (.ok a) := by rintro why ⟨⟩

theorem Unmapped.bind {x : Except String α} {f : α → Except String β} (h : Unmapped x)
    (hf : ∀ a, Unmapped (f a)) : Unmapped (x >>= f) := by
  cases x with
  | ok a => exact hf a
  | error why =>
    rintro _ ⟨⟩
    exact h why rfl

theorem Unmapped.foldlM {f : β → α → Except String β} (hf : ∀ t a, Unmapped (f t a))
    (l : List α) (t : β) : Unmapped (l.foldlM f t) := by
  induction l generalizing t with
  | nil => exact .ok t
  | cons a l ih =>
    rw [List.foldlM_cons]
    exact (hf t a).bind ih

theorem map_unmapped (b : Board) (entry : Fin 8) (start stop rights : Word) (t : Paging) :
    Unmapped (map b entry start stop rights t) := by
  unfold map
  split
  · rintro why ⟨⟩
    exact .inr rfl
  · refine .foldlM (fun t page => ?_) _ t
    unfold mapPage
    dsimp only
    split
    · split
      · exact .ok _
      · split
        · rintro why ⟨⟩
          exact .inl rfl
        · exact .ok _
    · exact .ok _

theorem layOut_unmapped (b : Board) (entry : Fin 8) (space : Space) (rights : Word) (t : Paging) :
    Unmapped (layOut b entry space rights t) := by
  refine (map_unmapped _ _ _ _ _ _).bind fun t => (map_unmapped _ _ _ _ _ _).bind fun t =>
    Unmapped.bind ?_ fun t => ?_
  · unfold mapDisplay
    split
    · exact .ok t
    · exact map_unmapped _ _ _ _ _ _
  · unfold mapEngines
    split
    · exact .foldlM (fun t w => map_unmapped _ _ _ _ _ _) _ t
    · exact .ok t

theorem mapProcess_unmapped (b : Board) (entry : Fin 8) (program : Program) (old : Space)
    (words : Nat → Word) : Unmapped (mapProcess b entry program old words) := by
  refine Unmapped.bind ?_ fun t => (layOut_unmapped _ _ _ _ _).bind fun t => .ok _
  unfold vacate
  split
  · exact .ok _
  · exact layOut_unmapped _ _ _ _ _

theorem State.Floats.second {s : State} (h : s.Floats s.fpu eager) (ho : s.fpuOwner = some p) :
    s.secondFs p = false := by
  refine List.any_eq_false.2 fun i _ => ?_
  simp only [Bool.and_eq_true, decide_eq_true_eq]
  rintro ⟨⟨ha, hi⟩, hfs⟩
  have huse : s.fpu.use i ≠ .off := by
    rw [State.fpu_use ha]
    exact fun he => hfs (fsUse_off.1 he)
  exact hi (Option.some.inj ((h.sound.on.1 huse).symm.trans ho))

theorem State.Floats.no_second {s : State} (h : s.Floats s.fpu eager) :
    ¬ PanicCause b "fpu: a second process with FS on" s := by
  intro hc
  generalize hw : "fpu: a second process with FS on" = why at hc
  cases hc with
  | paging _ _ hm =>
    rcases mapProcess_unmapped _ _ _ _ _ _ hm with he | he
    · exact absurd (hw.trans he) (by decide)
    · exact absurd (hw.trans he) (by decide)
  | fpu _ ho hs =>
    rw [h.second ho] at hs
    cases hs
  | other ho =>
    rw [← hw] at ho
    exact absurd ho (by decide)

theorem no_second_fs : ¬ Stopped b m events (.panic "fpu: a second process with FS on") s := by
  intro h
  rcases h.cases with ⟨s₁, hr, he⟩ | ⟨before, cause, tval, rest, s₀, s₁, -, hr, hreach, he⟩
  · cases he with
    | panic hc => exact ((State.reset_floats b m).acts hr.acts).no_second hc
  · obtain ⟨eager, hrun⟩ := hr.eager
    cases he with
    | panic hc => exact (hrun.floats.enter.acts hreach.acts).no_second hc

/-- Under the lazy switch every process has the floating state of an eager one. -/
theorem fpu_switch_eager (b : Board) (m : Machine) (events : List Event) :
    (∀ s, Reached b m events s → ∃ eager, Eager b m events s eager) ∧
    (∀ s eager, Eager b m events s eager →
      (∀ p, (s.procs p).alive = true → s.fpuRunning.view p = eager (s.born p)) ∧
      (∀ p, s.current = some p → s.hart.mstatus &&& mstatusFs ≠ 0 →
        s.hart.fp = eager (s.born p)) ∧
      (∀ p q, (s.procs p).state ≠ .free → (s.procs q).state ≠ .free → s.born p = s.born q →
        p = q) ∧
      (∀ p, s.born p ≤ s.spawned) ∧ (∀ n, s.spawned < n → eager n = FState.zero) ∧
      ∀ p, (s.procs p).alive = true →
        (if s.current = some p then s.hart.mstatus else (s.procs p).f.mstatus) &&& mstatusFs ≠ 0 →
        s.fpuOwner = some p) ∧
    ∀ s, ¬ Stopped b m events (.panic "fpu: a second process with FS on") s := by
  refine ⟨fun s hr => hr.eager, fun s eager he => ?_, fun s => no_second_fs⟩
  have h := he.floats
  obtain ⟨-, -, hset⟩ := he.reached.settled
  refine ⟨fun p => h.view, fun p hc hm => (h.owner (hset.running p hc) hc hm).2,
    fun p q => h.inj, fun p => h.le, fun n => h.fresh, fun p hp hm => h.sound.on.1 ?_⟩
  intro hoff
  refine hm (fsUse_off.1 ?_)
  have huse : s.fpuRunning.use p = fsUse _ := if_pos hp
  rw [← huse]
  exact hoff

theorem fpu_switch_eager_shell : ∃ s eager,
    Eager (boardOf [⟨"sh", 0, 0⟩]) quiet
      [.trap 2 0xf00080d3, .compute (registers [(1, 5)]) 0x80100000, .float 0xf00080d3 0] s eager ∧
    s.fpuOwner = some 0 ∧ s.hart.fp.f 1 = 5 ∧ eager (s.born 0) = s.hart.fp := by
  have h : reaches (boardOf [⟨"sh", 0, 0⟩]) quiet
      [.trap 2 0xf00080d3, .compute (registers [(1, 5)]) 0x80100000, .float 0xf00080d3 0]
      (fun s => (s.fpuOwner = some 0 && s.hart.fp.f 1 = 5) && (s.current = some 0 &&
        s.hart.mstatus &&& mstatusFs ≠ 0)) = true := by
    decide +kernel
  obtain ⟨s, hs, ht⟩ := reaches_iff.1 h
  simp only [Bool.and_eq_true, decide_eq_true_eq] at ht
  obtain ⟨hrun, heager, -⟩ := fpu_switch_eager (boardOf [⟨"sh", 0, 0⟩]) quiet
    [.trap 2 0xf00080d3, .compute (registers [(1, 5)]) 0x80100000, .float 0xf00080d3 0]
  obtain ⟨eager, he⟩ := hrun s hs
  obtain ⟨-, hview, -⟩ := heager s eager he
  exact ⟨s, eager, he, ht.1.1, ht.1.2, (hview 0 ht.2.1 ht.2.2).symm⟩

end TinyProcessors
