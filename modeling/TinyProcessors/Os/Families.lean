import TinyProcessors.Lib.Wait
import TinyProcessors.Os.Sanity
import TinyProcessors.Os.Machine

namespace TinyProcessors

def Proc.life (q : Proc) : Life Word :=
  match q.state with
  | .free => .free
  | .zombie => .zombie q.exitCode
  | .blockedWait => .alive (some q.waitPid.toNat)
  | _ => .alive none

def Proc.member (q : Proc) : Member Word := ⟨q.life, q.pid.toNat, q.parent.toNat⟩

def State.families (s : State) : Families (Fin 8) Word where
  member i := (s.procs i).member
  pending i := (s.waiting i).map BitVec.toNat
  returned := s.returned.map fun r => (r.1.toNat, r.2)
  born := s.spawned

theorem Proc.life_running {q : Proc} (h : q.state = .running) : q.life = .alive none := by
  rw [Proc.life, h]

theorem Proc.life_lives (q : Proc) : q.life.lives = q.alive := by
  unfold Proc.life Proc.alive
  split <;> simp_all [Life.lives]

theorem Proc.life_free (q : Proc) : q.life = .free ↔ q.state = .free := by
  unfold Proc.life
  split <;> simp_all

theorem Proc.life_zombie (q : Proc) (code : Word) :
    q.life = .zombie code ↔ q.state = .zombie ∧ q.exitCode = code := by
  unfold Proc.life
  split <;> simp_all

theorem Proc.life_waits (q : Proc) (c : Nat) :
    q.life = .alive (some c) ↔ q.state = .blockedWait ∧ q.waitPid.toNat = c := by
  unfold Proc.life
  split <;> simp_all

theorem Function.map_update {ι α β : Type} [DecidableEq ι] (g : α → β) (f : ι → α) (i : ι) (a : α) :
    (fun j => g (Function.update f i a j)) = Function.update (fun j => g (f j)) i (g a) := by
  funext j
  by_cases h : j = i
  · rw [h, Function.update_self, Function.update_self]
  · rw [Function.update_of_ne h, Function.update_of_ne h]

theorem State.families_life {s t : State} (he : t.procs = Function.update s.procs i q)
    (hid : q.pid = (s.procs i).pid) (hpar : q.parent = (s.procs i).parent)
    (hw : t.waiting = s.waiting) (hr : t.returned = s.returned)
    (hb : t.spawned = s.spawned) : t.families = s.families.set i q.life := by
  have hq : q.member = { (s.procs i).member with life := q.life } := by
    rw [Proc.member, Proc.member, hid, hpar]
  have hm : (fun j => (t.procs j).member) = Function.update s.families.member i
      { (s.procs i).member with life := q.life } := by
    rw [he, Function.map_update Proc.member, hq]
    rfl
  rw [families, hm, hw, hr, hb]
  rfl

theorem State.families_alike {s t : State} (he : t.procs = Function.update s.procs p q)
    (hq : q.member = (s.procs p).member) (hw : t.waiting = s.waiting)
    (hr : t.returned = s.returned) (hb : t.spawned = s.spawned) : t.families = s.families := by
  have hm : (fun j => (t.procs j).member) = fun j => (s.procs j).member := by
    rw [he, Function.map_update Proc.member, hq]
    exact Function.update_eq_self p _
  rw [families, families, hm, hw, hr, hb]

theorem State.families_same {s s' : State} (hp : s'.procs = s.procs) (hw : s'.waiting = s.waiting)
    (hr : s'.returned = s.returned) (hb : s'.spawned = s.spawned) : s'.families = s.families := by
  rw [families, families, hp, hw, hr, hb]

theorem State.families_settle (s : State) (p : Fin 8) (c : Option Word) :
    { s with waiting := Function.update s.waiting p c }.families =
      s.families.settle p (c.map BitVec.toNat) := by
  apply Families.ext
  · rfl
  · exact Function.map_update (Option.map BitVec.toNat) s.waiting p c
  · rfl
  · rfl

def State.Numbered (s : State) : Prop := s.nextPid = BitVec.ofNat 32 (s.spawned + 1)

theorem Act.numbered (ha : Act b s s') (h : s.Numbered) : s'.Numbered := by
  cases ha with
  | spawned hv hf ho hm hp =>
    change s.nextPid + 1 = BitVec.ofNat 32 (s.spawned + 1 + 1)
    rw [h]
    simp [BitVec.ofNat_add]
  | claim hp hc hf =>
    rw [s.claim_eq]
    exact h
  | bury hp hf hz hs =>
    rw [s.bury_eq]
    exact h
  | _ => exact h

theorem Act.spawned_le (ha : Act b s s') : s.spawned ≤ s'.spawned := by
  cases ha with
  | spawned hv hf ho hm hp => exact Nat.le_succ _
  | claim hp hc hf => rw [s.claim_eq]
  | bury hp hf hz hs => rw [s.bury_eq]
  | _ => exact Nat.le_refl _

theorem State.families_reapChildren (s : State) (p : Fin 8) :
    (s.reapChildren p).families = s.families.disown p := by
  refine Families.ext (funext fun i => ?_) rfl rfl rfl
  unfold State.families State.reapChildren Families.disown
  dsimp only
  split
  next hc =>
    have hz : (s.procs i).member.life = .zombie (s.procs i).exitCode :=
      ((s.procs i).life_zombie _).2 ⟨hc.1, rfl⟩
    have hpar : (s.procs i).member.parent = (s.procs p).member.id := congrArg BitVec.toNat hc.2
    rw [hz]
    dsimp only
    rw [if_pos hpar]
    rfl
  next hc =>
    split
    next code hz =>
      rw [if_neg]
      intro he
      exact hc ⟨((s.procs i).life_zombie _).1 hz |>.1, BitVec.eq_of_toNat_eq he⟩
    next => rfl

theorem State.families_start {s : State} (hn : s.Numbered) (hb : s.spawned + 1 < 2 ^ 32)
    (i : Fin 8) (e : Program) (parent : Word) (space : Space) (words : Nat → Word) :
    (s.start i e parent space words).families = s.families.add i parent.toNat := by
  have hpid : s.nextPid.toNat = s.spawned + 1 := by
    rw [hn, BitVec.toNat_ofNat]
    exact Nat.mod_eq_of_lt hb
  have hmember : (e.proc s.nextPid parent).member =
      ⟨.alive none, s.spawned + 1, parent.toNat⟩ := by
    rw [← hpid]
    rfl
  apply Families.ext
  · change (fun j => (Function.update s.procs i (e.proc s.nextPid parent) j).member) = _
    rw [Function.map_update Proc.member, hmember]
    rfl
  · exact Function.map_update (Option.map BitVec.toNat) s.waiting i none
  · rfl
  · rfl

theorem State.parentOf_none {s : State} (h : s.parentOf p = none)
    (hi : (s.procs i).alive = true) : (s.procs i).pid ≠ (s.procs p).parent := by
  have hall := List.find?_eq_none.1 h i (by simp)
  simpa [hi] using hall

theorem State.parentOf_some {s : State} (h : s.parentOf p = some q) :
    (s.procs q).alive = true ∧ (s.procs q).pid = (s.procs p).parent := by
  simpa using List.find?_some h

theorem Act.families (ha : Act b s s') (hn : s.Numbered) (hb : s'.spawned < 2 ^ 32) :
    s'.families = s.families ∨ s.families.Step s'.families := by
  cases ha with
  | move hp hm hle | openRead hp => exact .inl (State.families_alike rfl rfl rfl rfl rfl)
  | openWrite hp | closeRead hp => exact .inl (State.families_alike rfl rfl rfl rfl rfl)
  | closeWrite hp | sbrk hp | skip hp => exact .inl (State.families_alike rfl rfl rfl rfl rfl)
  | complete hp hw =>
    rename_i p r
    right
    have he : (s.complete p r).families = s.families.settle p none := by
      refine Eq.trans ?_ (State.families_settle s p none)
      exact State.families_alike rfl rfl rfl rfl rfl
    exact he ▸ .answer
  | park hp hst hf =>
    rename_i state f p
    refine .inl (State.families_alike rfl ?_ rfl rfl rfl)
    have hlife : (f (s.procs p)).life = (s.procs p).life := by
      rw [Proc.life_running hp, hf, Proc.life]
      rcases hst with rfl | rfl | rfl <;> rfl
    rw [Proc.member, hlife, hf]
    rfl
  | wait hp hc hpid hpar hx =>
    rename_i c p i
    right
    have hlife := State.families_life (s := s) (t := s.setProc p fun q => { q with
      state := .blockedWait, waitPid := c }) rfl rfl rfl rfl rfl rfl
    have he := State.families_settle (s.setProc p fun q => { q with
      state := .blockedWait, waitPid := c }) p (some c)
    rw [hlife] at he
    exact he ▸ .wait (i := i) (Proc.life_running hp) ((Proc.life_lives _).trans hc)
      (congrArg BitVec.toNat hpid) (congrArg BitVec.toNat hpar)
  | reap hp hz hpid hpar =>
    rename_i c i p
    right
    have hlife := State.families_life (s := { s with waiting := Function.update s.waiting p none })
      (t := { s.setState i .free with waiting := Function.update s.waiting p none })
      (i := i) rfl rfl rfl rfl rfl rfl
    rw [State.families_settle] at hlife
    have hgive : { s.setState i .free with
        returned := s.returned ++ [(c, (s.procs i).exitCode)]
        waiting := Function.update s.waiting p none : State }.families =
        Families.give { s.setState i .free with
          waiting := Function.update s.waiting p none : State }.families c.toNat
          (s.procs i).exitCode := by
      refine Families.ext rfl rfl ?_ rfl
      change List.map _ (s.returned ++ [(c, (s.procs i).exitCode)]) = _
      rw [List.map_append]
      rfl
    rw [hgive, hlife]
    exact .collect (Proc.life_running hp) (((s.procs i).life_zombie _).2 ⟨hz, rfl⟩)
      (congrArg BitVec.toNat hpid) (congrArg BitVec.toNat hpar)
  | reapAll hp =>
    rename_i p code
    right
    have hmember : { (s.reapChildren p).procs p with exitCode := code : Proc }.member =
        ((s.reapChildren p).procs p).member := by
      rw [s.reapChildren_running hp, Proc.member, Proc.member, Proc.life_running hp,
        Proc.life_running (q := { s.procs p with exitCode := code }) hp]
    have hcode := State.families_alike (s := s.reapChildren p) (t := (s.reapChildren p).setProc p
      fun q => { q with exitCode := code }) rfl hmember rfl rfl rfl
    have he := State.families_settle ((s.reapChildren p).setProc p
      fun q => { q with exitCode := code }) p none
    rw [hcode, State.families_reapChildren] at he
    exact he ▸ .disown (Proc.life_running hp)
  | vanish hp hf hz hno h1 =>
    rename_i p
    right
    have he := State.families_life (s := s) (t := (s.release p).setState p .free)
      (i := p) rfl rfl rfl rfl rfl rfl
    refine he ▸ .leave (Proc.life_running hp) (fun i code hi hpar => ?_) fun i hi hid => ?_
    · exact hz i (((s.procs i).life_zombie _).1 hi).1 (BitVec.eq_of_toNat_eq hpar)
    · exact s.parentOf_none hno ((Proc.life_lives _).symm.trans hi) (BitVec.eq_of_toNat_eq hid)
  | bury hp hf hz hs =>
    rename_i parent p
    right
    obtain ⟨halive, hpid⟩ := s.parentOf_some hs
    have hz' : ∀ i code, (s.families.member i).life = .zombie code →
        (s.families.member i).parent ≠ (s.families.member p).id := fun i code hi hpar =>
      hz i (((s.procs i).life_zombie _).1 hi).1 (BitVec.eq_of_toNat_eq hpar)
    have hzombie := State.families_life (s := s) (t := (s.release p).setState p .zombie)
      (i := p) rfl rfl rfl rfl rfl rfl
    obtain ⟨w, hw⟩ : ∃ w, (s.procs parent).life = .alive w := by
      have hlives := (Proc.life_lives _).trans halive
      cases hl : (s.procs parent).life with
      | free | zombie code => rw [hl] at hlives; cases hlives
      | alive w => exact ⟨w, rfl⟩
    have hdie : s.families.Step (if w = some (s.families.member p).id then
        (s.families.set parent (.alive none)).set p (.zombie (s.procs p).exitCode)
        else s.families.set p (.zombie (s.procs p).exitCode)) :=
      .die (Proc.life_running hp) hz' hw (congrArg BitVec.toNat hpid)
    have hne : (((s.release p).setState p .zombie).procs parent).state = .blockedWait →
        parent ≠ p := by
      rintro hb rfl
      rw [State.setState, State.setProc_self] at hb
      cases hb
    have hself : ((s.release p).setState p .zombie).procs p = { s.procs p with state := .zombie } :=
      State.setProc_self _ _ _
    unfold State.bury
    dsimp only
    split
    next hc =>
      have hpp := hne hc.1
      have hother : ((s.release p).setState p .zombie).procs parent = s.procs parent :=
        State.setProc_of_ne _ _ hpp
      rw [hother, hself] at hc
      have hwp : w = some (s.families.member p).id := by
        rw [Proc.life, hc.1] at hw
        rw [← Life.alive.inj hw, hc.2]
        rfl
      rw [if_pos hwp, Families.set_comm _ _ _ hpp] at hdie
      have hready := State.families_life (s := (s.release p).setState p .zombie)
        (t := ((s.release p).setState p .zombie).setState parent .ready)
        (i := parent) rfl rfl rfl rfl rfl rfl
      rw [hready, hzombie]
      exact hdie
    next hc =>
      have hwp : w ≠ some (s.families.member p).id := by
        rintro rfl
        have hb := ((s.procs parent).life_waits _).1 hw
        have hpp : parent ≠ p := by
          rintro rfl
          rw [hp] at hb
          cases hb.1
        have hother : ((s.release p).setState p .zombie).procs parent = s.procs parent :=
          State.setProc_of_ne _ _ hpp
        rw [hother, hself] at hc
        exact hc ⟨hb.1, BitVec.eq_of_toNat_eq hb.2⟩
      rw [if_neg hwp] at hdie
      rw [hzombie]
      exact hdie
  | wake hw =>
    rename_i i
    refine .inl (State.families_alike rfl ?_ rfl rfl rfl)
    rw [Proc.member, Proc.member, Proc.life, Proc.life]
    rcases hw with hw | hw <;> rw [hw]
  | spawned hv hf ho hm hp =>
    rename_i i e space words parent
    right
    rw [State.families_start hn hb]
    refine .birth ((Proc.life_free _).2 hf) ?_
    rcases hp with ⟨p, hr, rfl⟩ | ⟨-, rfl⟩
    · exact .inr ⟨p, (Proc.life_lives _).trans (Proc.alive_of_running hr), rfl⟩
    · exact .inl rfl
  | claim hp hc hf =>
    rename_i p
    left
    have hm : (fun i => ((s.claim p).procs i).member) = fun i => (s.procs i).member := by
      funext i
      obtain ⟨m, hm⟩ := s.claim_procs p i
      rw [hm]
      rfl
    rw [State.families, hm, s.claim_eq]
    rfl
  | run hi hc =>
    refine .inl (State.families_alike rfl ?_ rfl rfl rfl)
    rw [Proc.member, Proc.member, Proc.life, Proc.life, hi]
  | _ => exact .inl (State.families_same rfl rfl rfl rfl)

def State.Asking (s : State) (x : Fin 32 → Word) (p : Fin 8) : Prop :=
  ∀ c, s.waiting p = some c → Sys.ofNumber (x 17) = some .wait ∧ x 10 = c

def State.Asks (s : State) : Prop := ∀ p, (s.procs p).alive = true → s.Asking (s.procs p).f.x p

theorem State.Asks.update {s s' : State} (h : s.Asks)
    (he : s'.procs = Function.update s.procs p q) (hq : q.f.x = (s.procs p).f.x)
    (ha : q.alive = true → (s.procs p).alive = true) (hw : s'.waiting = s.waiting) : s'.Asks := by
  intro i hi c hc
  rw [hw] at hc
  rw [he] at hi ⊢
  by_cases hip : i = p
  · rw [hip, Function.update_self] at hi ⊢
    rw [hq]
    exact h p (ha hi) c (hip ▸ hc)
  · rw [Function.update_of_ne hip] at hi ⊢
    exact h i hi c hc

theorem State.Asks.clear {s s' : State} (h : s.Asks)
    (he : ∀ i, i ≠ p → (s'.procs i).f.x = (s.procs i).f.x ∧
      ((s'.procs i).alive = true → (s.procs i).alive = true))
    (hw : s'.waiting = Function.update s.waiting p none) : s'.Asks := by
  intro i hi c hc
  rw [hw] at hc
  by_cases hip : i = p
  · rw [hip, Function.update_self] at hc
    cases hc
  · rw [Function.update_of_ne hip] at hc
    rw [(he i hip).1]
    exact h i ((he i hip).2 hi) c hc

theorem Act.asks (ha : Act b s s') (h : s.Asks) : s'.Asks := by
  cases ha with
  | move hp hm hle | openRead hp | openWrite hp | closeRead hp => exact h.update rfl rfl id rfl
  | closeWrite hp | sbrk hp | skip hp => exact h.update rfl rfl id rfl
  | wake hw =>
    refine h.update rfl rfl (fun _ => ?_) rfl
    rcases hw with hw | hw <;> rw [Proc.alive, hw] <;> rfl
  | run hi hc =>
    refine h.update rfl rfl (fun _ => ?_) rfl
    rw [Proc.alive, hi]
    rfl
  | park hp hst hf =>
    refine h.update rfl ?_ (fun _ => Proc.alive_of_running hp) rfl
    rw [hf]
  | vanish hp hf hz hn h1 => exact h.update rfl rfl (fun _ => Proc.alive_of_running hp) rfl
  | complete hp hw =>
    refine h.clear (fun i hi => ?_) rfl
    rw [State.complete, State.setProc_of_ne _ _ hi]
    exact ⟨rfl, id⟩
  | wait hp hc hpid hpar hx =>
    rename_i c p i
    intro j hj d hd
    by_cases hjp : j = p
    · subst hjp
      change Function.update s.waiting j (some c) j = some d at hd
      rw [Function.update_self] at hd
      cases hd
      rw [State.setProc_self]
      exact hx
    · change Function.update s.waiting p (some c) j = some d at hd
      rw [Function.update_of_ne hjp] at hd
      rw [State.setProc_of_ne _ _ hjp] at hj ⊢
      exact h j hj d hd
  | reap hp hz hpid hpar =>
    rename_i c i p
    refine h.clear (fun j hj => ?_) rfl
    by_cases hji : j = i
    · subst hji
      rw [State.setState, State.setProc_self]
      exact ⟨rfl, by rintro ⟨⟩⟩
    · rw [State.setState, State.setProc_of_ne _ _ hji]
      exact ⟨rfl, id⟩
  | reapAll hp =>
    refine h.clear (fun j hj => ?_) rfl
    rw [State.setProc_of_ne _ _ hj]
    unfold State.reapChildren
    dsimp only
    split
    · exact ⟨rfl, by rintro ⟨⟩⟩
    · exact ⟨rfl, id⟩
  | bury hp hf hz hs =>
    rename_i parent p
    have hzombie : ((s.release p).setState p .zombie).Asks :=
      h.update rfl rfl (by rintro ⟨⟩) rfl
    unfold State.bury
    dsimp only
    split
    next hc =>
      refine hzombie.update rfl rfl (fun _ => ?_) rfl
      rw [Proc.alive, hc.1]
      rfl
    next => exact hzombie
  | spawned hv hf ho hm hp =>
    rename_i i e space words parent
    refine h.clear (fun j hj => ?_) rfl
    have hother : (s.start i e parent space words).procs j = s.procs j :=
      Function.update_of_ne hj _ _
    rw [hother]
    exact ⟨rfl, id⟩
  | claim hp hc hf =>
    rename_i p
    intro i hi c hc
    obtain ⟨m, hm⟩ := s.claim_procs p i
    rw [s.claim_eq] at hc
    rw [hm] at hi ⊢
    exact h i hi c hc
  | _ => exact h

structure State.Related (s : State) : Prop where
  numbered : s.Numbered
  asks : s.Asks
  sound : s.spawned < 2 ^ 32 → s.families.Sound

theorem Act.related (ha : Act b s s') (h : s.Related) : s'.Related := by
  refine ⟨ha.numbered h.numbered, ha.asks h.asks, fun hb => ?_⟩
  have hs := h.sound (ha.spawned_le.trans_lt hb)
  rcases ha.families h.numbered hb with he | hstep
  · rw [he]
    exact hs
  · exact hstep.sound hs

structure State.Awaiting (s : State) : Prop extends s.Related where
  current : ∀ p, s.current = some p → s.Asking s.hart.x p

theorem State.families_enter (s : State) : s.enter.families = s.families := by
  have hm : (fun i => (s.enter.procs i).member) = fun i => (s.procs i).member := by
    funext i
    obtain ⟨f, hf⟩ := s.enter_proc i
    rw [hf]
    rfl
  rw [families, hm, s.enter_eq]
  rfl

theorem State.Awaiting.enter {s : State} (h : s.Awaiting) : s.enter.Related := by
  refine ⟨?_, ?_, ?_⟩
  · rw [s.enter_eq]
    exact h.numbered
  · intro i hi c hc
    have hw : s.enter.waiting = s.waiting := by rw [s.enter_eq]
    rw [hw] at hc
    rcases s.enter_procs i with he | ⟨hcur, he⟩
    · rw [he] at hi ⊢
      exact h.asks i hi c hc
    · rw [he]
      exact h.current i hcur c hc
  · rw [s.families_enter, s.enter_eq]
    exact h.sound

theorem State.Related.resume {s : State} (h : s.Related) (hy : s.Ready b before) :
    s.resume.Awaiting := by
  refine ⟨⟨h.numbered, h.asks, h.sound⟩, fun p hp c hc => ?_⟩
  have hframe : s.resume.hart.x = s.frame.x := rfl
  have hcur : s.current = some p := hp
  rw [hframe, State.frame, hcur]
  exact h.asks p (Proc.alive_of_running (hy p hcur).1) c hc

theorem State.Awaiting.goOn {s s' : State} (h : s.Awaiting) (hs : s.UserSame s')
    (hc : s.current = some i) (hw : s'.waiting = Function.update s.waiting i none) :
    s'.Awaiting := by
  have hnone : ∀ {j c}, s'.waiting j = some c → j ≠ i ∧ s.waiting j = some c := by
    intro j c hj
    rw [hw] at hj
    by_cases hji : j = i
    · rw [hji, Function.update_self] at hj
      cases hj
    · rw [Function.update_of_ne hji] at hj
      exact ⟨hji, hj⟩
  refine ⟨⟨?_, fun j hj c hjc => ?_, fun hb => ?_⟩, fun p hp c hpc => ?_⟩
  · rw [Numbered, hs.nextPid, hs.spawned]
    exact h.numbered
  · rw [hs.procs] at hj ⊢
    exact h.asks j hj c (hnone hjc).2
  · have hf : s'.families = s.families.settle i none := by
      refine Eq.trans ?_ (State.families_settle s i none)
      exact State.families_same hs.procs hw hs.returned hs.spawned
    rw [hf]
    exact (h.sound (hs.spawned ▸ hb)).answer i
  · rw [hs.current, hc] at hp
    exact absurd (Option.some.inj hp).symm (hnone hpc).1

theorem State.execute_waiting (b : Board) (s : State) (i : Fin 8) (e : Event) :
    s.execute b i e = s ∨ (s.execute b i e).waiting = Function.update s.waiting i none := by
  unfold State.execute
  split
  · exact .inr rfl
  · split
    · split
      · exact .inl rfl
      next s' hs =>
        right
        rw [State.userStore_eq hs]
        rfl
    · exact .inl rfl
  · split
    · exact .inl rfl
    next s' hs =>
      right
      rw [State.float_eq hs]
      rfl
  · exact .inl rfl

theorem State.awaiting_stable (b : Board) : Stable b State.Related State.Awaiting where
  act h ha := ha.related h
  enter h := h.enter
  resume h hy := h.resume hy
  execute {s i e} h hc := by
    rcases State.execute_waiting b s i e with he | hw
    · rw [he]
      exact h
    · exact h.goOn (State.execute_same b s i e) hc hw
  elapse {s} h hc := by
    refine ⟨⟨h.numbered, h.asks, h.sound⟩, fun p hp => ?_⟩
    cases hc.symm.trans hp

theorem State.reset_related (b : Board) (m : Machine) : (State.reset b m).Related := by
  have hfree : ∀ i, ((State.reset b m).families.member i).life = .free := fun _ => rfl
  refine ⟨rfl, by rintro p ⟨⟩, fun _ => ⟨?_, ?_, ?_, ?_, ?_, ?_, List.nodup_nil⟩⟩
  · exact fun {i} h => absurd (hfree i) h
  · exact fun {i _} h => absurd (hfree i) h
  · rintro i code ⟨⟩
  · rintro i c ⟨⟩
  · rintro i c ⟨⟩
  · rintro r ⟨⟩

theorem Reached.awaiting (hr : Reached b m events s) : s.Awaiting :=
  hr.stable (State.awaiting_stable b) fun _ hb =>
    ((State.awaiting_stable b).booted (State.reset_related b m) hb).2

def State.Child (s : State) (p i : Fin 8) (c : Word) : Prop :=
  (s.procs i).state ≠ .free ∧ (s.procs i).pid = c ∧ (s.procs i).parent = (s.procs p).pid

theorem sysWait_skip {s : State} (h : ∀ j ∈ l, ¬ s.Child p j c) :
    sysWait p c (l ++ rest) result s = sysWait p c rest result s := by
  induction l with
  | nil => rfl
  | cons j l ih =>
    rw [List.forall_mem_cons] at h
    rw [List.cons_append, sysWait, get_bind_apply, if_pos, ih h.2]
    by_contra hn
    simp only [not_or, not_not] at hn
    exact h.1 hn

theorem sysWait_none {s : State} (h : ∀ j ∈ l, ¬ s.Child p j c) :
    sysWait p c l result s = .ok (.result result) s := by
  have hskip : sysWait p c (l ++ []) result s = sysWait p c [] result s := sysWait_skip h
  rw [List.append_nil] at hskip
  rw [hskip]
  rfl

theorem sysWait_child {s : State} (hc : s.Child p i c) (hu : ∀ j, s.Child p j c → j = i) :
    ∃ rest, (∀ j ∈ rest, j ≠ i) ∧
      sysWait p c (List.finRange 8) sysError s = sysWait p c (i :: rest) sysError s := by
  obtain ⟨l, rest, hl⟩ := List.append_of_mem (List.mem_finRange i)
  have hnodup : (l ++ i :: rest).Nodup := hl ▸ List.nodup_finRange 8
  rw [List.nodup_append, List.nodup_cons] at hnodup
  refine ⟨rest, ?_, ?_⟩
  · rintro j hj rfl
    exact hnodup.2.1.1 hj
  · rw [hl, sysWait_skip]
    intro j hj hchild
    exact hnodup.2.2 j hj i (List.mem_cons_self ..) (hu j hchild)

theorem sysWait_alive {s : State} (hc : s.Child p i c) (hu : ∀ j, s.Child p j c → j = i)
    (hz : (s.procs i).state ≠ .zombie) : sysWait p c (List.finRange 8) sysError s = .ok .again
      { s.setProc p (fun q => { q with state := .blockedWait, waitPid := c }) with
        waiting := Function.update s.waiting p (some c) } := by
  obtain ⟨rest, -, he⟩ := sysWait_child hc hu
  rw [he, sysWait, get_bind_apply, if_neg, if_pos hz]
  · rfl
  · simp only [not_or, not_not]
    exact hc

theorem sysWait_zombie {s : State} (hc : s.Child p i c) (hu : ∀ j, s.Child p j c → j = i)
    (hz : (s.procs i).state = .zombie) (hp : (s.procs p).state ≠ .zombie) :
    sysWait p c (List.finRange 8) sysError s = .ok (.result (s.procs i).exitCode)
      { s.setState i .free with
        returned := s.returned ++ [(c, (s.procs i).exitCode)]
        waiting := Function.update s.waiting p none } := by
  obtain ⟨rest, hrest, he⟩ := sysWait_child hc hu
  rw [he, sysWait, get_bind_apply, if_neg, if_neg (not_not_intro hz)]
  · refine sysWait_none fun j hj hchild => ?_
    have hji := hrest j hj
    have hpi : p ≠ i := by
      rintro rfl
      exact hp hz
    unfold State.Child at hchild
    rw [State.setState, State.setProc_of_ne _ _ hji, State.setProc_of_ne _ _ hpi] at hchild
    exact hji (hu j hchild)
  · simp only [not_or, not_not]
    exact hc

theorem serve_wait {s : State} (h : Sys.ofNumber ((s.procs p).f.x 17) = some .wait) :
    serve b p s = sysWait p ((s.procs p).f.x 10) (List.finRange 8) sysError s := by
  rw [serve, get_bind_apply, h]

theorem syscall_again {s : State} (h : serve b p s = .ok .again s') :
    syscall b p s = .ok () s' := by
  change EStateM.bind (serve b p) _ s = _
  unfold EStateM.bind
  rw [h]
  rfl

theorem syscall_result {s : State} (h : serve b p s = .ok (.result r) s') :
    syscall b p s = .ok () (s'.complete p r) := by
  change EStateM.bind (serve b p) _ s = _
  unfold EStateM.bind
  rw [h]
  rfl

theorem State.Awaiting.child_unique {s : State} (h : s.Awaiting) (hn : s.spawned < 2 ^ 32)
    (hi : s.Child p i c) (hj : s.Child p j c) : j = i := by
  have hfree {k : Fin 8} (hk : (s.procs k).state ≠ .free) :
      (s.families.member k).life ≠ .free := fun he => hk ((Proc.life_free _).1 he)
  exact (h.sound hn).unique (hfree hj.1) (hfree hi.1) (congrArg BitVec.toNat (hj.2.1.trans hi.2.1.symm))

theorem State.child_enter {s : State} : s.enter.Child p i c ↔ s.Child p i c := by
  obtain ⟨f, hf⟩ := s.enter_proc i
  obtain ⟨f', hf'⟩ := s.enter_proc p
  unfold State.Child
  rw [hf, hf']

theorem State.complete_result (s : State) (p : Fin 8) (r : Word) :
    ((s.complete p r).procs p).f.x 10 = r := by
  simp only [State.complete, State.setProc, Function.update_self]

theorem State.complete_of_ne (s : State) (r : Word) (h : i ≠ p) :
    (s.complete p r).procs i = s.procs i := Function.update_of_ne h _ _

theorem syscall_wait_zombie {s : State} (h : s.Awaiting) (hn : s.spawned < 2 ^ 32)
    (hp : (s.procs p).state = .running) (hcur : s.current = some p)
    (hcall : Sys.ofNumber (s.hart.x 17) = some .wait) (hc : s.Child p i (s.hart.x 10))
    (hz : (s.procs i).state = .zombie) :
    ∃ s', syscall b p s.enter = .ok () s' ∧ (s'.procs p).f.x 10 = (s.procs i).exitCode ∧
      (s'.procs i).state = .free ∧
      s'.returned = s.returned ++ [(s.hart.x 10, (s.procs i).exitCode)] := by
  have hself := State.enter_self hcur
  have hpi : i ≠ p := by
    rintro rfl
    rw [hp] at hz
    cases hz
  obtain ⟨f, hi⟩ := s.enter_proc i
  have hret : s.enter.returned = s.returned := by rw [s.enter_eq]
  have hserve : serve b p s.enter = _ := serve_wait (by rw [hself]; exact hcall)
  have hx : (s.enter.procs p).f.x 10 = s.hart.x 10 := by rw [hself]
  rw [hx, sysWait_zombie (State.child_enter.2 hc)
    (fun j hj => h.child_unique hn hc (State.child_enter.1 hj)) (by rw [hi]; exact hz)
    (by rw [hself, hp]; rintro ⟨⟩)] at hserve
  refine ⟨_, syscall_result hserve, ?_, ?_, ?_⟩
  · rw [State.complete_result, hi]
  · rw [State.complete_of_ne _ _ hpi]
    simp only [State.setState, State.setProc, Function.update_self]
  · change s.enter.returned ++ [(s.hart.x 10, (s.enter.procs i).exitCode)] = _
    rw [hret, hi]

theorem syscall_wait_alive {s : State} (h : s.Awaiting) (hn : s.spawned < 2 ^ 32)
    (hcur : s.current = some p)
    (hcall : Sys.ofNumber (s.hart.x 17) = some .wait) (hc : s.Child p i (s.hart.x 10))
    (hz : (s.procs i).state ≠ .zombie) :
    ∃ s', syscall b p s.enter = .ok () s' ∧ (s'.procs p).state = .blockedWait ∧
      (s'.procs p).f = (s.enter.procs p).f ∧ s'.waiting p = some (s.hart.x 10) ∧
      s'.returned = s.returned := by
  have hself := State.enter_self hcur
  obtain ⟨f, hi⟩ := s.enter_proc i
  have hserve : serve b p s.enter = _ := serve_wait (by rw [hself]; exact hcall)
  have hx : (s.enter.procs p).f.x 10 = s.hart.x 10 := by rw [hself]
  rw [hx, sysWait_alive (State.child_enter.2 hc)
    (fun j hj => h.child_unique hn hc (State.child_enter.1 hj)) (by rw [hi]; exact hz)] at hserve
  refine ⟨_, syscall_again hserve, ?_, ?_, Function.update_self _ _ _, ?_⟩
  · simp only [State.setProc, Function.update_self]
  · simp only [State.setProc, Function.update_self]
  · change s.enter.returned = _
    rw [s.enter_eq]

end TinyProcessors
