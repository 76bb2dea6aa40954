import TinyProcessors.Os.Acts
import TinyProcessors.Lib.Logic

namespace TinyProcessors

inductive Refused (b : Board) (S : Scope) : Stop → State → State → Prop
  | fault (ha : S.Access a) (hn : s.accepts b a = false)
      (hp : a.device = .display → a.kind = .store →
        s.vars.enginesUsed = false ∨ s.dev.Idle b) : Refused b S (.fault a) s s

theorem Refused.ends (h : Refused b S stop s s') : Ends b S stop s s' := by
  cases h with
  | fault ha hn hp => exact .fault ha hn hp

abbrev Calmly (b : Board) (S : Scope) (m : Kernel α) (s : State)
    (R : α → State → Prop := fun _ _ => True) : Prop :=
  Does (Calm S) (Refused b S) m s R

section Kept

variable (h : Calm S s s')
include h

theorem Calm.procs : s'.procs = s.procs := by cases h; rfl

theorem Calm.current : s'.current = s.current := by cases h; rfl

theorem Calm.fs : s'.io.fs = s.io.fs := by cases h; rfl

theorem Calm.disk : s'.io.disk = s.io.disk := by cases h; rfl

theorem Calm.advances : s.dev.Advances s'.dev := by
  cases h with
  | intro d v m hd hv hw => exact hd

theorem Calm.userRange (p : Fin 8) (address len : Word) :
    s'.userRange p address len = s.userRange p address len := by
  cases h
  rfl

theorem Calm.writing : s'.writing = s.writing := by cases h; rfl

end Kept

theorem State.touch_calm (ha : S.Access a) (s : State) : Calm S s (s.touch a) := by
  refine .intro _ s.vars s.io.mem ⟨G1.tick_advances _ _ _, G2.tick_advances _ _ _, rfl⟩ rfl ?_
  refine ⟨⟨[a], rfl, ?_⟩, fun _ _ => rfl⟩
  rintro _ (_ | ⟨_, ⟨⟩⟩)
  exact ha

theorem bus_calm (ha : S.Access a) (hp : a.device = .display → a.kind = .store →
    s.vars.enginesUsed = false ∨ s.dev.Idle b) : Calmly b S (bus b a) s := by
  have ht := s.touch_calm ha
  unfold Calmly Does Ensures bus
  split
  next h =>
    split at h
    · cases h
      exact ⟨ht, trivial⟩
    · cases h
  next h =>
    split at h
    · cases h
    next hn =>
      cases h
      refine ⟨_, ht, .fault ha (by simpa using hn) ?_⟩
      intro hd hk
      exact (hp hd hk).imp id fun hi => hi.advances ht.advances

/-- Any register that is always there, the present register apart. -/
theorem register_calm (hw : offset % width = 0) (h : ∀ d : Devices,
    (d.handles ⟨device, offset, width, kind, value⟩ && device != .ram &&
      (device != .display || kind != .store)) = true) :
    Calmly b S (bus b ⟨device, offset, width, kind, value⟩) s := by
  simp only [Bool.and_eq_true, Bool.or_eq_true, bne_iff_ne] at h
  obtain ⟨⟨-, hd⟩, hs⟩ := h s.dev
  have hstore (he : device = .display) : kind ≠ .store := hs.resolve_left fun hn => hn he
  exact bus_calm (.device hd hw hstore fun d => (h d).1.1) fun he hk => absurd hk (hstore he)

theorem when_calm {m : Kernel Unit} [Decidable c] (h : c → Calmly b S m s) :
    Calmly b S (when c m) s := by
  unfold when
  split
  next hc => exact h hc
  next => exact .pure trivial

theorem modifyDev_calm (h : s.dev.Advances (f s.dev)) (hl : (f s.dev).log = s.dev.log) :
    Calmly b S (modifyDev f) s :=
  .modify (.intro (f s.dev) s.vars s.io.mem h rfl (.of_eq hl rfl)) trivial

theorem modifyVars_calm (h : (f s.vars).enginesUsed = s.vars.enginesUsed) :
    Calmly b S (modifyVars f) s :=
  .modify (.intro s.dev (f s.vars) s.io.mem (.refl _) h (.of_eq rfl rfl)) trivial

theorem loadByte_calm (h : S.reads address) :
    Calmly b S (loadByte b address) s := by
  refine .seq (bus_calm (.load h) (by rintro ⟨⟩)) fun _ s₁ _ => ?_
  exact .read (.pure trivial)

theorem storeByte_calm (h : S.writes address) :
    Calmly b S (storeByte b address value) s := by
  refine .seq (bus_calm (.store h) (by rintro ⟨⟩)) fun _ s₁ _ => ?_
  refine .modify (.intro s₁.dev s₁.vars _ (.refl _) rfl ⟨⟨[], by simp, by simp⟩, ?_⟩) trivial
  intro x hx
  have hne : x ≠ address := fun he => hx (he.symm ▸ h)
  exact Function.update_of_ne hne _ _

theorem from_next {P : Nat → Prop} (h : ∀ k < n + 1, P (a + k)) : ∀ k < n, P (a + 1 + k) := by
  intro k hk
  rw [Nat.add_assoc, Nat.add_comm 1 k]
  exact h (k + 1) (Nat.succ_lt_succ hk)

theorem storeBytes_calm (l : List UInt8) (address : Nat) (s : State)
    (h : ∀ k < l.length, S.writes (address + k)) :
    Calmly b S (storeBytes b address l) s := by
  induction l generalizing address s with
  | nil => exact .pure trivial
  | cons v rest ih =>
    exact .seq (storeByte_calm (h 0 (Nat.succ_pos _))) fun _ s₁ _ => ih _ _ (from_next h)

theorem kputc_calm (c : UInt8) : Calmly b S (kputc b c) s := by
  refine .seq (register_calm rfl fun _ => rfl) fun _ s₁ _ => ?_
  refine .seq (register_calm rfl fun _ => rfl) fun _ s₂ _ => ?_
  exact modifyDev_calm ⟨.refl _ _, .refl _ _, rfl⟩ rfl

theorem kputBytes_calm (l : List UInt8) (s : State) :
    Calmly b S (kputBytes b l) s := by
  induction l generalizing s with
  | nil => exact .pure trivial
  | cons c rest ih => exact .seq (kputc_calm c) fun _ s₁ _ => ih s₁

theorem kputs_calm (t : String) : Calmly b S (kputs b t) s := kputBytes_calm _ s

theorem kputdec_calm (v : Word) : Calmly b S (kputdec b v) s := kputBytes_calm _ s

theorem kputhex_calm (v : Word) : Calmly b S (kputhex b v) s := kputBytes_calm _ s

theorem kputhexShort_calm (v : Word) : Calmly b S (kputhexShort b v) s :=
  kputBytes_calm _ s

theorem consoleReady_calm (s : State) : Calmly b S (consoleReady b) s := by
  refine .seq (register_calm rfl fun _ => rfl) fun _ s₁ _ => ?_
  refine .seq (modifyDev_calm ⟨.refl _ _, .refl _ _, rfl⟩ rfl) fun _ s₂ _ => ?_
  exact .read (.pure trivial)

theorem consoleByte_calm (s : State) : Calmly b S (consoleByte b) s := by
  refine .seq (register_calm rfl fun _ => rfl) fun _ s₁ _ => ?_
  exact .read (.seq (modifyDev_calm ⟨.refl _ _, .refl _ _, rfl⟩ rfl) fun _ _ _ => .pure trivial)

theorem mtime_calm (s : State) : Calmly b S (mtime b) s := by
  refine .seq (register_calm rfl fun _ => rfl) fun _ s₁ _ => ?_
  refine .seq (register_calm rfl fun _ => rfl) fun _ s₂ _ => ?_
  refine .seq (register_calm rfl fun _ => rfl) fun _ s₃ _ => ?_
  exact .read (.pure trivial)

theorem setTimer_calm (time : BitVec 64) : Calmly b S (setTimer b time) s := by
  refine .seq (register_calm rfl fun _ => rfl) fun _ s₁ _ => ?_
  refine .seq (register_calm rfl fun _ => rfl) fun _ s₂ _ => ?_
  refine .seq (register_calm rfl fun _ => rfl) fun _ s₃ _ => ?_
  exact modifyDev_calm ⟨.refl _ _, .refl _ _, rfl⟩ rfl

theorem busRange_calm (n address : Nat) (s : State)
    (h : ∀ k < n, S.Access ⟨.ram, address + k, 1, kind, 0⟩) :
    Calmly b S (busRange b kind address n) s := by
  induction n generalizing address s with
  | zero => exact .pure trivial
  | succ n ih =>
    refine .seq (bus_calm (h 0 (Nat.succ_pos _)) (by rintro ⟨⟩)) fun _ s₁ _ => ih _ _ ?_
    exact from_next (P := fun x => S.Access ⟨.ram, x, 1, kind, 0⟩) h

theorem busRanges_calm (l : List (Nat × Nat)) (s : State)
    (h : ∀ r ∈ l, ∀ k < r.2, S.Access ⟨.ram, r.1 + k, 1, kind, 0⟩) :
    Calmly b S (busRanges b kind l) s := by
  induction l generalizing s with
  | nil => exact .pure trivial
  | cons r rest ih =>
    refine .seq (busRange_calm _ _ s (h r List.mem_cons_self)) fun _ s₁ _ => ih s₁ ?_
    exact fun q hq => h q (List.mem_cons_of_mem _ hq)

theorem virtioRequests_calm (n : Nat) (s : State) :
    Calmly b S (virtioRequests b n) s := by
  induction n generalizing s with
  | zero => exact .pure trivial
  | succ n ih =>
    refine .seq (P := fun _ _ => True) ?_ fun _ s₁ _ => ih s₁
    refine .seq (register_calm rfl fun _ => rfl) fun _ s₁ _ => ?_
    refine .seq (register_calm rfl fun _ => rfl) fun _ s₂ _ => ?_
    refine .seq (register_calm rfl fun _ => rfl) fun _ s₃ _ => ?_
    exact register_calm rfl fun _ => rfl

theorem fsAccesses_calm (served : Nat) (io : Io) (s : State)
    (hl : ∀ r ∈ io.loads, ∀ k < r.2, S.reads (r.1 + k))
    (hs : ∀ r ∈ io.stores, ∀ k < r.2, S.writes (r.1 + k)) :
    Calmly b S (fsAccesses b served io) s := by
  refine .seq (virtioRequests_calm _ s) fun _ s₁ _ => ?_
  refine .seq (busRanges_calm _ s₁ fun r hr k hk => .load (hl r hr k hk)) fun _ s₂ _ => ?_
  exact busRanges_calm _ s₂ fun r hr k hk => .store (hs r hr k hk)

theorem reportDropped_calm (s : State) : Calmly b S (reportDropped b) s := by
  refine .read (when_calm fun _ => ?_)
  exact .seq (kputs_calm _) fun _ s₁ _ => .seq (kputdec_calm _) fun _ s₂ _ => kputs_calm _

theorem reportHalt_calm (code : Word) (s : State) :
    Calmly b S (reportHalt b code) s := by
  refine .read ?_
  split
  · refine .seq (kputs_calm _) fun _ s₂ _ => .seq (kputdec_calm _) fun _ s₃ _ => ?_
    refine .seq (kputs_calm _) fun _ s₄ _ => .seq (kputhex_calm _) fun _ s₅ _ => ?_
    refine .seq (kputs_calm _) fun _ s₆ _ => ?_
    exact register_calm rfl fun _ => rfl
  · refine .seq (kputs_calm _) fun _ s₂ _ => .seq (kputdec_calm _) fun _ s₃ _ => ?_
    refine .seq (kputs_calm _) fun _ s₄ _ => ?_
    exact register_calm rfl fun _ => rfl

theorem userString_calm (p : Fin 8) (max : Nat) (address : Word) (s : State)
    (h : ∀ address, s.userRange p address 1 = true → S.reads address.toNat) :
    Calmly b S (userString b p address max) s fun r _ => ∀ l, r = some l → 0 ∉ l := by
  induction max generalizing address s with
  | zero => exact .pure (by rintro l ⟨⟩)
  | succ max ih =>
    refine .read ?_
    split
    next hin =>
      refine .seq (loadByte_calm (h address hin)) fun c s₁ h₁ => ?_
      split
      next => exact .pure (by rintro l ⟨⟩; exact List.not_mem_nil)
      next hc =>
        refine .bind (ih (address + 1) s₁ fun a ha => h a (h₁.userRange p a 1 ▸ ha)) ?_
        intro r s₂ _ hr
        refine .pure ?_
        intro l hl
        obtain ⟨rest, hrest, rfl⟩ := Option.map_eq_some_iff.1 hl
        rw [List.mem_cons, not_or]
        exact ⟨Ne.symm hc, hr rest hrest⟩
    next => exact .pure (by rintro l ⟨⟩)

theorem resetG1_calm (s : State) : Calmly b S (resetG1 b) s := by
  refine .seq (register_calm rfl fun _ => rfl) fun _ s₁ _ => .read ?_
  refine when_calm fun _ => ?_
  refine .seq (register_calm rfl fun _ => rfl) fun _ s₂ _ => ?_
  exact modifyDev_calm ⟨by rintro ⟨⟩, .refl _ _, rfl⟩ rfl

theorem resetG2_calm (s : State) : Calmly b S (resetG2 b) s := by
  refine .seq (register_calm rfl fun _ => rfl) fun _ s₁ _ => .read ?_
  refine when_calm fun _ => ?_
  refine .seq (register_calm rfl fun _ => rfl) fun _ s₂ _ => ?_
  exact modifyDev_calm ⟨.refl _ _, by rintro ⟨⟩, rfl⟩ rfl

theorem stopOrphanedEngines_calm (p : Fin 8) (s : State) :
    Calmly b S (stopOrphanedEngines b p) s := by
  refine .read (when_calm fun _ => ?_)
  exact .seq (when_calm fun _ => resetG1_calm s) fun _ s₁ _ => when_calm fun _ => resetG2_calm s₁

theorem writePaletteFrom_calm (colours : Fin 256 → Word) (l : List (Fin 256)) (s : State) :
    Calmly b S (writePaletteFrom b colours l) s := by
  induction l generalizing s with
  | nil => exact .pure trivial
  | cons i rest ih =>
    have hi : 4 * i.val < 0x400 := by omega
    refine .seq (register_calm (Nat.mul_mod_right 4 _)
      fun _ => by simp [Devices.handles, hi]) fun _ s₁ _ => ?_
    exact .seq (modifyDev_calm ⟨.refl _ _, .refl _ _, rfl⟩ rfl) fun _ s₂ _ => ih s₂

theorem restorePalette_calm (p : Fin 8) (s : State) :
    Calmly b S (restorePalette b p) s := by
  refine .read (when_calm fun _ => ?_)
  exact .seq (writePaletteFrom_calm _ _ s) fun _ s₁ _ => modifyVars_calm rfl

theorem refuseDiskProgram_calm (name : List UInt8) (why : String) (s : State) :
    Calmly b S (refuseDiskProgram b name why : Kernel (Option α)) s fun r _ => r = none := by
  refine .seq (kputs_calm _) fun _ s₁ _ => .seq (kputBytes_calm _ s₁) fun _ s₂ _ => ?_
  refine .seq (kputs_calm _) fun _ s₃ _ => .seq (kputs_calm _) fun _ s₄ _ => ?_
  exact .seq (kputs_calm _) fun _ s₅ _ => .pure rfl

theorem drainInput_calm (l : List Word) (s : State) :
    Calmly b S (drainInput b l) s := by
  induction l generalizing s with
  | nil => exact register_calm rfl fun _ => rfl
  | cons event rest ih =>
    refine .seq (register_calm rfl fun _ => rfl) fun _ s₁ _ => ?_
    refine .seq (modifyDev_calm ⟨.refl _ _, .refl _ _, rfl⟩ rfl) fun _ s₂ _ => ?_
    refine when_calm fun _ => .seq (modifyVars_calm ?_) fun _ s₃ _ => ih s₃
    split <;> rfl

theorem externalInterrupt_calm (s : State) :
    Calmly b S (externalInterrupt b) s := by
  refine .seq (register_calm rfl fun _ => rfl) fun _ s₁ _ => .read ?_
  refine .seq (when_calm fun _ => drainInput_calm _ s₁) fun _ s₂ _ => ?_
  exact when_calm fun _ => register_calm rfl fun _ => rfl

theorem g1Busy_calm (s : State) :
    Calmly b S (g1Busy b) s fun r s' => r = false → b.gpu = true → s'.dev.g1.busy = false := by
  unfold g1Busy
  split
  · refine .seq (register_calm rfl fun _ => rfl) fun _ s₁ _ => .read ?_
    exact .pure fun hr _ => hr
  next hn => exact .pure fun _ hg => absurd hg hn

theorem g2Busy_calm (s : State) :
    Calmly b S (g2Busy b) s fun r s' => r = false → b.g3d = true → s'.dev.g2.busy = false := by
  unfold g2Busy
  split
  · refine .seq (register_calm rfl fun _ => rfl) fun _ s₁ _ => .read ?_
    exact .pure fun hr _ => hr
  next hn => exact .pure fun _ hg => absurd hg hn

end TinyProcessors
