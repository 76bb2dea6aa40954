import TinyProcessors.Os.Sanity
import TinyProcessors.Os.Machine

namespace TinyProcessors

def State.slots (s : State) (p : Fin 8) : Set Nat :=
  {x | (s.procs p).base.toNat ≤ x ∧ x < (s.procs p).base.toNat + (s.procs p).span.toNat}

/-- What the system call of `p` may touch of memory. -/
def State.callScope (b : Board) (s : State) (p : Fin 8) (e : Program) : Scope where
  reads := s.Own p
  words _ := False
  writes x :=
    if s.call p = some .spawn then b.Buffers x ∨ (e.Valid ∧ s.overlaps e = false ∧ e.Spans x)
    else s.Own p x

theorem State.Fits.fills (hf : State.Fits s p) (hx : s.Fills p x) :
    s.call p ≠ some .spawn ∧ s.Own p x := by
  unfold State.Fills at hx
  dsimp only at hx
  have hin {a len : Word} (hr : s.userRange p a len = true) (hl : a.toNat ≤ x)
      (hu : x < a.toNat + len.toNat) : s.Own p x := by
    have h := hf.own hr (x - a.toNat) (by omega)
    rwa [Nat.add_sub_cancel' hl] at h
  cases hcall : s.call p with
  | none =>
    rw [hcall] at hx
    exact hx.elim
  | some c =>
    rw [hcall] at hx
    cases c
    case palette => exact ⟨by rintro ⟨⟩, hin hx.1 hx.2.2.1 hx.2.2.2⟩
    case read | list | ps | files => exact ⟨by rintro ⟨⟩, hin hx.1 hx.2.1 hx.2.2⟩
    all_goals exact hx.elim

theorem State.callScope_covers (hf : State.Fits s p) (e : Program) :
    Covers b (s.callScope b p e) s p e where
  own _ hx := hx
  fills x hx := by
    obtain ⟨hn, hown⟩ := hf.fills hx
    change if s.call p = some .spawn then _ else _
    rw [if_neg hn]
    exact hown
  buffers hs x hx := by
    change if s.call p = some .spawn then _ else _
    rw [if_pos hs]
    exact .inl hx
  spans hs hv ho x hx := by
    change if s.call p = some .spawn then _ else _
    rw [if_pos hs]
    exact .inr ⟨hv, ho, hx⟩

theorem Acting.within {m : Kernel α} (h : Acting b S m s R)
    (he : (∃ a, m s = .ok a s') ∨ ∃ stop, m s = .error stop s') : Within S s s' := by
  rcases he with ⟨a, he⟩ | ⟨stop, he⟩
  · exact (Does.ok h he).1.within
  · obtain ⟨s₁, hr, hends⟩ := Does.error h he
    cases hends <;> exact hr.within

theorem State.Layout.disjoint {s : State} (h : s.Layout) (hij : i ≠ j)
    (hi : (s.procs i).alive = true) (hj : (s.procs j).alive = true) :
    Disjoint (s.slots i) (s.slots j) := by
  rw [Set.disjoint_left]
  rintro x ⟨hil, hiu⟩ ⟨hjl, hju⟩
  rcases h.apart i j hij hi hj with h | h <;> omega

/-- Processes keep to their own memory, whatever is in their registers when they call. -/
theorem memory_isolated (hr : Reached b m events s) (x : Fin 32 → Word) :
    (∀ p, (s.procs p).alive = true → s.slots p ⊆ Set.Ico slotBase slotsEnd) ∧
    (∀ i j, i ≠ j → (s.procs i).alive = true → (s.procs j).alive = true →
      Disjoint (s.slots i) (s.slots j)) ∧
    (∀ p, (s.procs p).state ≠ .free →
      (s.procs p).base.toNat + (s.image p).memorySize.toNat ≤ (s.procs p).brk.toNat ∧
        (s.procs p).brk.toNat ≤ (s.guardOf p).toNat) ∧
    ∀ p, s.current = some p →
      let s₀ := { s with hart := { s.hart with x } }.enter
      ∃ e : Program, ∀ s',
        (syscall b p s₀ = .ok () s' ∨ ∃ stop, syscall b p s₀ = .error stop s') →
          Within (s₀.callScope b p e) s₀ s' := by
  obtain ⟨hb, -, hs⟩ := hr.settled
  have hl := hs.layout
  refine ⟨fun p hp x hx => ?_, fun i j => hl.disjoint, fun p hp => ?_, fun p hp => ?_⟩
  · have hf := hl.fits p fun hn => by rw [Proc.alive, hn] at hp; cases hp
    exact ⟨hf.base.trans hx.1, hx.2.trans_le hf.stop⟩
  · exact ⟨(hl.fits p hp).image, (hl.fits p hp).brk⟩
  · have hsame : s.UserSame { s with hart := { s.hart with x } } :=
      ⟨rfl, rfl, rfl, rfl, rfl, rfl, rfl, rfl, rfl, rfl, rfl, rfl, rfl, rfl⟩
    have hsane := (hsame.settled hs).sane hb
    have hcur := State.enter_eq { s with hart := { s.hart with x } }
    have hrun := hsane.running p (by rw [hcur]; exact hp)
    have hfit := hsane.fits p (Proc.alive_of_running hrun)
    obtain ⟨e, he⟩ := syscall_acting hrun hfit hb hsane.mounted (State.callScope_covers hfit)
    refine ⟨e, fun s' h => he.within ?_⟩
    rcases h with h | h
    · exact .inl ⟨(), h⟩
    · exact .inr h

theorem memory_isolated_shell : ∃ s, Reached (boardOf [⟨"sh", 0, 0⟩]) quiet [] s ∧
    s.slots 0 ⊆ Set.Ico slotBase slotsEnd := by
  have h : reaches (boardOf [⟨"sh", 0, 0⟩]) quiet [] (fun s => (s.procs 0).alive) = true := by
    decide +kernel
  obtain ⟨s, hs, ha⟩ := reaches_iff.1 h
  exact ⟨s, hs, (memory_isolated hs fun _ => 0).1 0 ha⟩

end TinyProcessors
