import TinyProcessors.Os.Scheduling

namespace TinyProcessors

theorem State.openFileOf_some (h : State.openFileOf s p fd mode = some k) :
    ((s.procs p).files k).mode ≠ 0 ∧ (mode ≠ 0 → ((s.procs p).files k).mode = mode) := by
  unfold State.openFileOf at h
  split at h
  · cases h
  · dsimp only at h
    split at h
    · cases h
    next hm =>
      cases h
      simp only [Bool.or_eq_true, decide_eq_true_eq, Bool.and_eq_true, not_or, not_and,
        not_not] at hm
      exact hm

def State.call (s : State) (p : Fin 8) : Option Sys := Sys.ofNumber ((s.procs p).f.x 17)

def State.Fills (s : State) (p : Fin 8) (x : Nat) : Prop :=
  let a0 := (s.procs p).f.x 10
  let a1 := (s.procs p).f.x 11
  let a2 := (s.procs p).f.x 12
  match s.call p with
  | some .read | some .list | some .ps | some .files =>
    s.userRange p a1 a2 = true ∧ a1.toNat ≤ x ∧ x < a1.toNat + a2.toNat
  | some .palette => s.userRange p a0 1024 = true ∧ a1 = 0 ∧ a0.toNat ≤ x ∧ x < a0.toNat + 1024
  | _ => False

def Answered (p : Fin 8) (a : Answer) (s : State) : Prop :=
  match a with
  | .result _ => (s.procs p).alive = true ∧ (s.procs p).state ≠ .blockedWait
  | .finished => (s.procs p).alive = false
  | .again => True

theorem replies (h : (s.procs p).state = .running) :
    Acting b S (pure (.result r)) s (Answered p) := by
  refine .pure ?_
  rw [Answered, Proc.alive, h]
  exact ⟨rfl, by rintro ⟨⟩⟩

theorem Calmly.replies {m : Kernel α} (hm : Calmly b S m s) (h : (s.procs p).state = .running)
    (f : α → Word) : Acting b S (m >>= fun a => pure (.result (f a))) s (Answered p) :=
  .bind hm.acting fun _ _ _ ⟨h₁, _⟩ => TinyProcessors.replies (by rw [h₁.procs, h])

theorem advance_acting (s : State) (p : Fin 8) (k : Fin 4) (r : Option Nat)
    (hp : (s.procs p).state = .running) (hm : ((s.procs p).files k).mode ≠ 0)
    (hr : ∀ n, r = some n → n = 0 ∨ ((s.procs p).files k).position.toNat + n ≤
      (fsSize s.io ((s.procs p).files k).file).toNat) :
    Acting b S (advance p k r) s fun _ s' => (s'.procs p).state = .running := by
  cases r with
  | none => exact .pure hp
  | some n =>
    refine .bind (Acting.modify (R := fun _ s' => (s'.procs p).state = .running)
      (.move hp hm ?_) rfl rfl ?_) fun _ s₁ _ h₁ => .pure h₁
    · rcases hr n rfl with h | h
      · left
        rw [h]
        exact BitVec.add_zero _
      · right
        have hlt := (fsSize s.io ((s.procs p).files k).file).isLt
        rw [BitVec.le_def, BitVec.toNat_add, BitVec.toNat_ofNat]
        rw [Nat.mod_eq_of_lt (by omega : n < 2 ^ 32), Nat.mod_eq_of_lt (by omega)]
        exact h
    · rw [State.setFile, State.setProc_self]
      exact hp

theorem writeConsole_calm (n address : Nat) (s : State) (h : ∀ k < n, S.reads (address + k)) :
    Calmly b S (writeConsole b address n) s := by
  induction n generalizing address s with
  | zero => exact .pure trivial
  | succ n ih =>
    refine .seq (loadByte_calm (h 0 (Nat.succ_pos _))) fun c s₁ _ => ?_
    exact .seq (kputc_calm c) fun _ s₂ _ => ih _ _ (from_next h)

theorem readConsole_calm (n address : Nat) (s : State) (h : ∀ k < n, S.writes (address + k)) :
    Calmly b S (readConsole b address n) s := by
  induction n generalizing address s with
  | zero => exact .pure trivial
  | succ n ih =>
    refine .seq (consoleReady_calm s) fun ready s₁ _ => ?_
    split
    next =>
      refine .seq (consoleByte_calm s₁) fun c s₂ _ => ?_
      refine .seq (storeByte_calm (h 0 (Nat.succ_pos _))) fun _ s₃ _ => ?_
      exact .seq (ih (address + 1) s₃ (from_next h)) fun _ _ _ => .pure trivial
    next => exact .pure trivial

theorem readPaletteTo_calm (address : Nat) (l : List (Fin 256)) (s : State)
    (h : ∀ k < 1024, S.writes (address + k)) :
    Calmly b S (readPaletteTo b address l) s := by
  induction l generalizing s with
  | nil => exact .pure trivial
  | cons i rest ih =>
    have hi : 4 * i.val < 0x400 := by omega
    refine .seq (register_calm (Nat.mul_mod_right 4 _)
      fun _ => by simp [Devices.handles, hi]) fun _ s₁ _ => .read ?_
    refine .seq (storeBytes_calm _ _ s₁ ?_) fun _ s₂ _ => ih s₂
    intro k hk
    rw [List.length_map, List.length_range] at hk
    rw [Nat.add_assoc]
    exact h _ (by omega)

theorem sysEvent_acting (hp : (s.procs p).state = .running) :
    Acting b S sysEvent s (Answered p) :=
  .read ((modifyVars_calm rfl).replies hp _)

theorem sysKeys_acting (hp : (s.procs p).state = .running) :
    Acting b S (sysKeys b) s (Answered p) := by
  unfold sysKeys
  split
  · refine .bind (register_calm rfl fun _ => rfl).acting fun _ s₁ _ ⟨h₁, _⟩ => ?_
    exact .read (replies (by rw [h₁.procs, hp]))
  · exact replies hp

theorem sysTime_acting (hp : (s.procs p).state = .running) :
    Acting b S (sysTime b) s (Answered p) :=
  (mtime_calm s).replies hp _

theorem sysPresent_acting (hp : (s.procs p).state = .running) :
    Acting b S (sysPresent b) s (Answered p) := by
  unfold sysPresent
  split
  · refine .bind (enginesBusy_acting s) fun busy s₁ _ ⟨h₁, hb₁⟩ => ?_
    split
    · exact .pure trivial
    next hbusy =>
      refine .bind (bus_calm .present fun _ _ => hb₁ (by simpa using hbusy)).acting
        fun _ s₂ _ ⟨h₂, _⟩ => ?_
      refine .bind (modifyDev_calm ⟨.refl _ _, .refl _ _, rfl⟩ rfl).acting fun _ s₃ _ ⟨h₃, _⟩ => ?_
      refine .bind (register_calm rfl fun _ => rfl).acting
        fun _ s₄ _ ⟨h₄, _⟩ => ?_
      exact .read (replies (by rw [h₄.procs, h₃.procs, h₂.procs, h₁.procs, hp]))
  · exact replies hp

theorem sysSbrk_acting (hp : (s.procs p).state = .running) (a0 : Word) :
    Acting b S (sysSbrk p a0) s (Answered p) := by
  refine .read ?_
  split
  next hle =>
    refine .bind (Acting.modify (R := fun _ s' => (s'.procs p).state = .running)
      (.sbrk hp hle) rfl rfl ?_) fun _ s₁ _ h₁ => replies h₁
    rw [State.setProc_self]
    exact hp
  next => exact replies hp

theorem sysYield_acting (hp : (s.procs p).state = .running) :
    Acting b S (sysYield p) s (Answered p) := by
  refine .bind (Acting.modify (R := fun _ s' => (s'.procs p).state = .ready)
    (.park hp (.inl rfl) fun _ => rfl) rfl rfl ?_) fun _ s₁ _ h₁ => .pure ?_
  · rw [State.setState, State.setProc_self]
  · rw [Answered, Proc.alive, h₁]
    exact ⟨rfl, by rintro ⟨⟩⟩

theorem sysSleep_acting (hp : (s.procs p).state = .running) (a0 : Word) :
    Acting b S (sysSleep b p a0) s (Answered p) := by
  refine .bind (mtime_calm s).acting fun now s₁ _ ⟨h₁, _⟩ => ?_
  refine .bind (Acting.modify (R := fun _ s' => (s'.procs p).state = .blockedSleep)
    (.park (by rw [h₁.procs, hp]) (.inr (.inr rfl)) fun _ => rfl) rfl rfl ?_)
    fun _ s₂ _ h₂ => .pure ?_
  · rw [State.setProc_self]
  · rw [Answered, Proc.alive, h₂]
    exact ⟨rfl, by rintro ⟨⟩⟩

theorem sysWait_acting (a0 : Word) (l : List (Fin 8)) (result : Word) (s : State)
    (hp : (s.procs p).state = .running)
    (hx : Sys.ofNumber ((s.procs p).f.x 17) = some .wait ∧ (s.procs p).f.x 10 = a0) :
    Acting b S (sysWait p a0 l result) s (Answered p) := by
  induction l generalizing result s with
  | nil => exact replies hp
  | cons i rest ih =>
    refine .read ?_
    split
    next => exact ih result s hp hx
    next hc =>
      simp only [not_or, not_not] at hc
      obtain ⟨hfree, hpid, hpar⟩ := hc
      split
      next hz =>
        have halive : (s.procs i).alive = true := by
          rw [Proc.alive]
          simp [hfree, hz]
        exact Acting.update (.wait hp halive hpid hpar hx) rfl rfl (.pure trivial)
      next hz =>
        rw [not_not] at hz
        have hne : p ≠ i := by
          rintro rfl
          rw [hp] at hz
          cases hz
        have hkeep : (s.setState i .free).procs p = s.procs p := State.setProc_of_ne _ _ hne
        refine Acting.update (.reap hp hz hpid hpar) rfl rfl (ih _ _ ?_ ?_)
        · exact hkeep ▸ hp
        · exact hkeep ▸ hx

theorem sysSeek_acting (hp : (s.procs p).state = .running) (a0 a1 a2 : Word) :
    Acting b S (sysSeek p a0 a1 a2) s (Answered p) := by
  refine .read ?_
  split
  next => exact replies hp
  next k hk =>
    dsimp only
    split
    next => exact replies hp
    next target ht =>
      split
      next => exact replies hp
      next hin =>
        refine Acting.update (.move hp (State.openFileOf_some hk).1 (.inr ?_)) rfl rfl
          (replies ?_)
        · have hlt := (fsSize s.io ((s.procs p).files k).file).isLt
          rw [BitVec.le_def, BitVec.toNat_ofInt]
          omega
        · rw [State.setFile, State.setProc_self]
          exact hp

theorem sysClose_acting (hp : (s.procs p).state = .running) (a0 : Word) :
    Acting b S (sysClose b p a0) s (Answered p) := by
  refine .read ?_
  split
  next => exact replies hp
  next k hk =>
    refine .bind (closeFile_acting s k hp) fun _ s₁ _ h₁ => replies ?_
    rw [h₁, State.setFile, State.setProc_self]
    exact hp

theorem Io.Mounted.clean {io : Io} (h : io.Mounted) : io.clean.Mounted :=
  ⟨h.mounted, h.data, h.fits, h.valid, h.free⟩

theorem fsOpen_acting (s : State) (hm : s.io.fs.mounted = true → s.io.Mounted) (name : List UInt8)
    (h0 : 0 ∉ name) (create : Bool) :
    Acting b S (fsCall b fun io => fsOpen io name create) s fun r s' => s.Same s' ∧
      ∀ file, r = some file → s'.io.fs.mounted = true ∧ inUse s'.io.fs file = true := by
  by_cases hmounted : s.io.fs.mounted = true
  · rcases fsOpen_any s.io.clean (hm hmounted).clean name create with ⟨he, hu⟩ |
      ⟨i, first, hfree, hn, hb, he, hi⟩
    · refine Does.mono (fsCall_idle s he) fun r s' _ ⟨hr, hc⟩ =>
        ⟨(s.same_io _).trans hc.same, fun file hfile => ?_⟩
      rw [hc.fs]
      exact ⟨hmounted, hu file (hr ▸ hfile)⟩
    · have hflush := fsFlush_any (s.io.clean.setEntry i (newEntry name first))
      have hact := Act.create (b := b) hmounted hfree hn h0 hb
      rw [← he] at hact hflush
      refine Does.mono (fsCall_acting s hact ?_ ?_ ?_) fun r s' _ ⟨hr, hc⟩ => ?_
      · intro x _
        rw [hflush.mem]
        rfl
      · rw [hflush.loads]
        rintro r ⟨⟩
      · rw [hflush.stores]
        rintro r ⟨⟩
      · refine ⟨(s.same_io _).trans hc.same, fun file hfile => ?_⟩
        rw [hc.fs, hi file (hr ▸ hfile), hflush.fs]
        refine ⟨hmounted, inUse_iff.2 ⟨?_, (hm hmounted).free i hfree⟩⟩
        rw [setEntry_directory, Function.update_self]
        cases name with
        | nil => exact absurd rfl hn
        | cons x l => exact fun h => h0 (h ▸ List.mem_cons_self)
  · have he : fsOpen s.io.clean name create = (none, s.io.clean) := by
      have hf : s.io.clean.fs.mounted = false := Bool.eq_false_iff.2 hmounted
      simp only [fsOpen, hf, Bool.not_false, Bool.true_or, if_true]
    refine Does.mono (fsCall_idle s (by rw [he])) fun r s' _ ⟨hr, hc⟩ =>
      ⟨(s.same_io _).trans hc.same, fun file hfile => ?_⟩
    rw [hr, he] at hfile
    cases hfile

theorem takeFile_acting (s : State) (k : Fin 4) (mode : Word) (file : Fin 16)
    (hp : (s.procs p).state = .running) (hk : ((s.procs p).files k).mode = 0)
    (hmode : mode = oRead ∨ mode = oWrite) (hm : s.io.fs.mounted = true)
    (hu : inUse s.io.fs file = true) :
    Acting b S (takeFile p k mode file) s (Answered p) := by
  have hrun : ((s.setFile p k ⟨mode, file, 0⟩).procs p).state = .running := by
    rw [State.setFile, State.setProc_self]
    exact hp
  refine .read ?_
  split
  next ho =>
    dsimp only
    rcases hmode with rfl | rfl
    · exact Acting.update (.openRead hp hk hm hu ho) rfl rfl (replies hrun)
    · exact Acting.update (.openWrite hp hk hm hu ho) rfl rfl (replies hrun)
  next => exact replies hp

section Calls

variable {b : Board} {S : Scope} {s : State} {p : Fin 8} (hp : (s.procs p).state = .running)
  (hf : s.Fits p) (ho : ∀ x, s.Own p x → S.reads x)
include hp hf ho

theorem sysWrite_acting (a0 a1 a2 : Word) :
    Acting b S (sysWrite b p a0 a1 a2) s (Answered p) := by
  refine .read ?_
  split
  next k hk hin =>
    obtain ⟨hne, hmode⟩ := State.openFileOf_some hk
    obtain ⟨hw, hn⟩ := fsWrite_any s.io.clean ((s.procs p).files k).file
      ((s.procs p).files k).position a1.toNat a2
    refine .bind (fsCall_acting s (.write hp (hmode (by decide))) ?_ ?_ ?_)
      fun r s₁ _ ⟨hr, h₁⟩ => ?_
    · intro x _
      rw [hw.mem]
      rfl
    · intro q hq j hj
      rcases hw.loads q hq with h | ⟨hl, hu⟩
      · cases h
      · have hown := hf.own hin (q.1 + j - a1.toNat) (by omega)
        rw [Nat.add_sub_cancel' (by omega)] at hown
        exact ho _ hown
    · rw [hw.stores]
      rintro q ⟨⟩
    · refine .bind (advance_acting s₁ p k r (by rw [h₁.procs, hp]) (by rw [h₁.procs]; exact hne) ?_)
        fun _ s₂ _ h₂ => replies h₂
      intro n hrn
      rw [h₁.procs, fsSize, h₁.fs]
      exact (hn n (hr ▸ hrn)).2
  next inside hnot =>
    split
    next hc =>
      exact (writeConsole_calm _ _ s fun k hk => ho _ (hf.own hc.2 k hk)).replies hp _
    next => exact replies hp

omit hf ho in
theorem sysRead_acting (a0 a1 a2 : Word)
    (hw : s.userRange p a1 a2 = true → ∀ k < a2.toNat, S.writes (a1.toNat + k)) :
    Acting b S (sysRead b p a0 a1 a2) s (Answered p) := by
  refine .read ?_
  split
  next k hk hin =>
    obtain ⟨hne, -⟩ := State.openFileOf_some hk
    refine .bind (fsRead_acting s _ _ a1.toNat a2 (hw hin))
      fun r s₁ _ ⟨⟨io, hsame, h₁⟩, hn⟩ => ?_
    refine .bind (advance_acting s₁ p k r (by rw [h₁.procs, hp]) (by rw [h₁.procs]; exact hne) ?_)
      fun _ s₂ _ h₂ => replies h₂
    intro n hrn
    rw [h₁.procs, fsSize, h₁.fs]
    change n = 0 ∨ _ ≤ (io.fs.directory _).size.toNat
    rw [hsame.directory]
    exact (hn n hrn).2
  next inside hnot =>
    split
    next hc =>
      refine .bind (consoleReady_calm s).acting fun ready s₁ _ ⟨h₁, _⟩ => ?_
      have hp₁ : (s₁.procs p).state = .running := by rw [h₁.procs, hp]
      split
      next =>
        exact (readConsole_calm _ _ s₁ (hw hc.2.2)).replies hp₁ _
      next =>
        refine .bind (Acting.modify (R := fun _ _ => True)
          (.park hp₁ (.inr (.inl rfl)) fun _ => rfl) rfl rfl trivial) fun _ _ _ _ => .pure trivial
    next => exact replies hp

omit hf ho in
theorem sysList_acting (hb : b.Checked) (a0 a1 a2 : Word)
    (hw : s.userRange p a1 a2 = true → ∀ k < a2.toNat, S.writes (a1.toNat + k)) :
    Acting b S (sysList b p a0 a1 a2) s (Answered p) := by
  rw [sysList, programs_checked hb, pure_bind]
  refine .read ?_
  dsimp only
  split
  next hc =>
    refine (storeBytes_calm _ _ s ?_).replies hp _
    intro k hk
    rw [List.length_append, List.length_singleton] at hk
    exact hw hc.2.1 k (by omega)
  next => exact replies hp

omit hf ho in
theorem sysPs_acting (a0 a1 a2 : Word)
    (hw : s.userRange p a1 a2 = true → ∀ k < a2.toNat, S.writes (a1.toNat + k)) :
    Acting b S (sysPs b p a0 a1 a2) s (Answered p) := by
  refine .read ?_
  dsimp only
  split
  next hc =>
    obtain ⟨-, -, hin, hlen⟩ := hc
    refine (storeBytes_calm _ _ s ?_).replies hp _
    intro k hk
    rw [BitVec.le_def] at hlen
    change 48 ≤ a2.toNat at hlen
    rw [List.length_append, List.length_singleton, psLine, List.length_take] at hk
    exact hw hin k (by omega)
  next => exact replies hp

omit hf ho in
theorem sysFiles_acting (a0 a1 a2 : Word)
    (hw : s.userRange p a1 a2 = true → ∀ k < a2.toNat, S.writes (a1.toNat + k)) :
    Acting b S (sysFiles b p a0 a1 a2) s (Answered p) := by
  refine .read ?_
  split
  next => exact replies hp
  next name size _ =>
    dsimp only
    split
    next hc =>
      refine (storeBytes_calm _ _ s ?_).replies hp _
      intro k hk
      rw [List.length_append, List.length_singleton] at hk
      exact hw hc.1 k (by omega)
    next => exact replies hp

omit hp in
theorem userString_acting (h₁ : s.Same s₁) (address : Word) (max : Nat) :
    Acting b S (userString b p address max) s₁ fun r s₂ =>
      Calm S s₁ s₂ ∧ ∀ l, r = some l → 0 ∉ l := by
  refine (userString_calm p max address s₁ ?_).acting
  intro a ha
  rw [h₁.userRange] at ha
  exact ho _ (hf.own ha 0 (by decide))

omit ho in
theorem sysSpawn_acting {S : Program → Scope} (ho : ∀ e x, s.Own p x → (S e).reads x)
    (hb : b.Checked)
    (hs : ∀ e : Program, e.Valid → s.overlaps e = false → ∀ x, e.Spans x → (S e).writes x)
    (hw : ∀ e x, b.Buffers x → (S e).writes x) (a0 a1 : Word) :
    ∃ e, Acting b (S e) (sysSpawn b p a0 a1) s (Answered p) := by
  have hstring {s₁ : State} (h₁ : s.Same s₁) (address : Word) (max : Nat) (e : Program) :
      Acting b (S e) (userString b p address max) s₁ fun _ s₂ => s.Same s₂ :=
    Does.mono (userString_acting hf (ho e) h₁ address max) fun _ _ _ h₂ => h₁.trans h₂.1.same
  refine Does.choose (hstring (.refl s) a0 24) fun name s₁ _ h₁ => ?_
  cases name with
  | none => exact ⟨default, replies (by rw [h₁.procs, hp])⟩
  | some name =>
    refine Does.choose (hstring h₁ a1 64) fun args s₂ _ h₂ => ?_
    cases args with
    | none => exact ⟨default, replies (by rw [h₂.procs, hp])⟩
    | some args =>
      have hp₂ : (s₂.procs p).state = .running := by rw [h₂.procs, hp]
      have hs₂ (e : Program) (he : e.Valid) (ho : s₂.overlaps e = false) :=
        hs e he (h₂.overlaps e ▸ ho)
      obtain ⟨e, he⟩ := spawn_acting hb s₂ name args _ hs₂ hw (.inl ⟨p, hp₂, rfl⟩)
      refine ⟨e, .read (.bind he fun child s₃ _ h₃ => .read ?_)⟩
      have hp₃ : (s₃.procs p).state = .running := by
        rw [h₃.procs p (by rw [hp₂]; rintro ⟨⟩), hp₂]
      split
      · exact replies hp₃
      · exact replies hp₃

theorem sysOpen_acting (hm : s.io.fs.mounted = true → s.io.Mounted) (a0 a1 : Word) :
    Acting b S (sysOpen b p a0 a1) s (Answered p) := by
  unfold sysOpen
  dsimp only
  split
  next hmode =>
    refine .bind (userString_acting hf ho (.refl s) a0 20) fun name s₁ _ ⟨h₁, h0⟩ => ?_
    have hp₁ : (s₁.procs p).state = .running := by rw [h₁.procs, hp]
    cases name with
    | none => exact replies hp₁
    | some name =>
      refine .read ?_
      split
      next => exact replies hp₁
      next k hk =>
        have hk₁ : ((s₁.procs p).files k).mode = 0 := by simpa using List.find?_some hk
        have hm₁ : s₁.io.fs.mounted = true → s₁.io.Mounted := by
          rw [h₁.fs]
          intro h
          obtain ⟨hmt, hd, hfit, hv, hfr⟩ := hm h
          exact ⟨h₁.fs ▸ hmt, h₁.fs ▸ hd, h₁.fs ▸ h₁.disk ▸ hfit, h₁.fs ▸ hv, h₁.fs ▸ hfr⟩
        refine .bind (fsOpen_acting s₁ hm₁ name (h0 name rfl) _) fun file s₂ _ ⟨h₂, hfile⟩ => ?_
        have hp₂ : (s₂.procs p).state = .running := by rw [h₂.procs, hp₁]
        cases file with
        | none => exact replies hp₂
        | some file =>
          obtain ⟨hmt, hu⟩ := hfile file rfl
          exact takeFile_acting s₂ k _ file hp₂ (by rw [h₂.procs]; exact hk₁) hmode.1 hmt hu
  next => exact replies hp

theorem sysPalette_acting (a0 a1 : Word)
    (hw : s.userRange p a0 1024 = true → a1 = 0 → ∀ k < 1024, S.writes (a0.toNat + k)) :
    Acting b S (sysPalette b p a0 a1) s (Answered p) := by
  refine .read ?_
  split
  next hc =>
    have hown := hf.own hc.2.2
    change ∀ k < 1024, _ at hown
    split
    next h0 =>
      exact (readPaletteTo_calm _ _ s (hw hc.2.2 h0)).replies hp _
    next =>
      split
      next =>
        refine .bind (P := fun _ s₁ => s₁.procs = s.procs) ?_ fun colours s₁ _ h₁ => ?_
        · refine .bind (busRange_calm _ _ s fun k hk => .load (ho _ (hown k hk))).acting
            fun _ s₁ _ ⟨h₁, _⟩ => .read (.pure h₁.procs)
        · refine .bind (writePaletteFrom_calm _ _ s₁).acting fun _ s₂ _ ⟨h₂, _⟩ => ?_
          refine .bind (modifyVars_calm rfl).acting fun _ s₃ _ ⟨h₃, _⟩ => ?_
          exact replies (by rw [h₃.procs, h₂.procs, h₁, hp])
      next => exact replies hp
  next => exact replies hp

/-- What the scope of a system call has to have. -/
structure Covers (b : Board) (S : Scope) (s : State) (p : Fin 8) (e : Program) : Prop where
  own : ∀ x, s.Own p x → S.reads x
  fills : ∀ x, s.Fills p x → S.writes x
  buffers : s.call p = some .spawn → ∀ x, b.Buffers x → S.writes x
  spans : s.call p = some .spawn → e.Valid → s.overlaps e = false → ∀ x, e.Spans x → S.writes x

omit ho in
theorem serve_acting (hb : b.Checked) (hm : s.io.fs.mounted = true → s.io.Mounted)
    (hc : Covers b S s p e) (hn : s.call p ≠ some .spawn) :
    Acting b S (serve b p) s (Answered p) := by
  have hfill (hcall : s.call p = some .read ∨ s.call p = some .list ∨ s.call p = some .ps ∨
      s.call p = some .files)
      (hin : s.userRange p ((s.procs p).f.x 11) ((s.procs p).f.x 12) = true) :
      ∀ k < ((s.procs p).f.x 12).toNat, S.writes (((s.procs p).f.x 11).toNat + k) := by
    intro k hk
    apply hc.fills
    rcases hcall with h | h | h | h <;> rw [State.Fills, h] <;>
      exact ⟨hin, Nat.le_add_right _ _, Nat.add_lt_add_left hk _⟩
  refine .read ?_
  dsimp only
  split
  next => exact .bind (finish_acting s _ hp) fun _ s₁ _ h₁ => .pure h₁
  next => exact sysWrite_acting hp hf hc.own _ _ _
  next hcall => exact sysRead_acting hp _ _ _ (hfill (.inl hcall))
  next => exact sysEvent_acting hp
  next => exact sysKeys_acting hp
  next => exact sysPresent_acting hp
  next => exact sysSbrk_acting hp _
  next hcall => exact absurd hcall hn
  next hcall => exact sysWait_acting _ _ _ s hp ⟨hcall, rfl⟩
  next hcall => exact sysList_acting hp hb _ _ _ (hfill (.inr (.inl hcall)))
  next => exact sysYield_acting hp
  next => exact sysSleep_acting hp _
  next => exact halt_acting _ s
  next => exact sysTime_acting hp
  next => exact replies hp
  next => exact replies hp
  next hcall =>
    refine sysPalette_acting hp hf hc.own _ _ fun hin h0 k hk => hc.fills _ ?_
    rw [State.Fills, State.call, hcall]
    exact ⟨hin, h0, Nat.le_add_right _ _, Nat.add_lt_add_left hk _⟩
  next => exact replies hp
  next hcall => exact sysPs_acting hp _ _ _ (hfill (.inr (.inr (.inl hcall))))
  next => exact sysOpen_acting hp hf hc.own hm _ _
  next => exact sysSeek_acting hp _ _ _
  next => exact sysClose_acting hp _
  next hcall => exact sysFiles_acting hp _ _ _ (hfill (.inr (.inr (.inr hcall))))
  next => exact replies hp

omit hp hf ho in
theorem serve_spawn (hcall : s.call p = some .spawn) :
    serve b p s = sysSpawn b p ((s.procs p).f.x 10) ((s.procs p).f.x 11) s := by
  rw [State.call] at hcall
  rw [serve, get_bind_apply, hcall]

omit ho in
theorem syscall_acting {S : Program → Scope} (hb : b.Checked)
    (hm : s.io.fs.mounted = true → s.io.Mounted) (hc : ∀ e, Covers b (S e) s p e) :
    ∃ e, Acting b (S e) (syscall b p) s := by
  have hserve : ∃ e, Acting b (S e) (serve b p) s (Answered p) := by
    by_cases hcall : s.call p = some .spawn
    · obtain ⟨e, he⟩ := sysSpawn_acting hp hf (fun e => (hc e).own) hb
        (fun e => (hc e).spans hcall) (fun e => (hc e).buffers hcall) _ _
      exact ⟨e, Does.jump (serve_spawn hcall) (refl_of (Reach b (S e)) s) he⟩
    · exact ⟨default, serve_acting hp hf hb hm (hc default) hcall⟩
  obtain ⟨e, he⟩ := hserve
  refine ⟨e, .bind he fun reply s₁ _ h₁ => ?_⟩
  cases reply with
  | again => exact .pure trivial
  | finished => exact Acting.modify (.skip h₁) rfl rfl trivial
  | result r => exact Acting.modify (.complete h₁.1 h₁.2) rfl rfl trivial

end Calls

end TinyProcessors
