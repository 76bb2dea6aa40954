import Mathlib

namespace TinyProcessors

theorem except_bind_ok {x : Except ε α} {f : α → Except ε β} (h : x >>= f = .ok b) :
    ∃ a, x = .ok a ∧ f a = .ok b := by
  cases x with
  | error e => cases h
  | ok a => exact ⟨a, rfl, h⟩

theorem except_bind_error {x : Except ε α} {f : α → Except ε β} (h : x >>= f = .error e) :
    x = .error e ∨ ∃ a, x = .ok a ∧ f a = .error e := by
  cases x with
  | error e' =>
    cases h
    exact .inl rfl
  | ok a => exact .inr ⟨a, rfl, h⟩

/-- Every end of a computation: `Q` of what it returns, `E` of what it stops with. -/
def Ensures (m : EStateM ε σ α) (s : σ) (Q : α → σ → Prop) (E : ε → σ → Prop) : Prop :=
  match m s with
  | .ok a s' => Q a s'
  | .error e s' => E e s'

theorem Ensures.mono (h : Ensures m s Q E) (hQ : ∀ a s', Q a s' → Q' a s')
    (hE : ∀ e s', E e s' → E' e s') : Ensures m s Q' E' := by
  unfold Ensures at h ⊢
  split
  next h' =>
    rw [h'] at h
    exact hQ _ _ h
  next h' =>
    rw [h'] at h
    exact hE _ _ h

theorem Ensures.bind {m : EStateM ε σ α} {k : α → EStateM ε σ β}
    (h : Ensures m s (fun a s' => Ensures (k a) s' Q E) E) : Ensures (m >>= k) s Q E := by
  unfold Ensures at h
  change Ensures (EStateM.bind m k) s Q E
  unfold Ensures EStateM.bind
  split at h
  next h' =>
    rw [h']
    exact h
  next h' =>
    rw [h']
    exact h

theorem Ensures.any {m : EStateM ε σ α} {k : α → EStateM ε σ β}
    (hk : ∀ a s', Ensures (k a) s' Q fun _ _ => True) :
    Ensures (m >>= k) s Q fun _ _ => True := by
  apply Ensures.bind
  unfold Ensures
  split
  next a s' _ => exact hk a s'
  next => trivial

theorem Ensures.read {k : σ → EStateM ε σ β} (h : Ensures (k s) s Q E) :
    Ensures (get >>= k) s Q E := h

theorem get_bind_apply (k : σ → EStateM ε σ β) (s : σ) : (get >>= k : EStateM ε σ β) s = k s s := rfl

theorem Ensures.ok {m : EStateM ε σ α} (h : Ensures m s Q E) (he : m s = .ok a s') : Q a s' := by
  unfold Ensures at h
  rw [he] at h
  exact h

/-- From `s` to a state where `R` holds, or to a `Stop`, by steps of a preorder. -/
def Does (Step : σ → σ → Prop) (Stop : ε → σ → σ → Prop) (m : EStateM ε σ α) (s : σ)
    (R : α → σ → Prop) : Prop :=
  Ensures m s (fun a s' => Step s s' ∧ R a s') (fun e s' => ∃ s₁, Step s s₁ ∧ Stop e s₁ s')

variable {Step : σ → σ → Prop} {Stop : ε → σ → σ → Prop}

theorem Does.mono (h : Does Step Stop m s P) (hr : ∀ a s', Step s s' → P a s' → R a s') :
    Does Step Stop m s R :=
  Ensures.mono h (fun a s' ⟨hs, hp⟩ => ⟨hs, hr a s' hs hp⟩) fun _ _ he => he

theorem Does.ok {m : EStateM ε σ α} (h : Does Step Stop m s R) (he : m s = .ok a s') :
    Step s s' ∧ R a s' := by
  unfold Does Ensures at h
  rw [he] at h
  exact h

theorem Does.error {m : EStateM ε σ α} (h : Does Step Stop m s R) (he : m s = .error e s') :
    ∃ s₁, Step s s₁ ∧ Stop e s₁ s' := by
  unfold Does Ensures at h
  rw [he] at h
  exact h

theorem Does.read {k : σ → EStateM ε σ β} (h : Does Step Stop (k s) s R) :
    Does Step Stop (get >>= k) s R := h

theorem Does.set {R : PUnit → σ → Prop} (hs : Step s s') (h : R () s') :
    Does Step Stop (set s' : EStateM ε σ PUnit) s R :=
  ⟨hs, h⟩

theorem Does.modify {f : σ → σ} {R : PUnit → σ → Prop} (hs : Step s (f s)) (h : R () (f s)) :
    Does Step Stop (modify f : EStateM ε σ PUnit) s R :=
  ⟨hs, h⟩

section Preorder

variable [IsPreorder σ Step]

theorem Does.pure {R : α → σ → Prop} (h : R a s) :
    Does Step Stop (pure a : EStateM ε σ α) s R :=
  ⟨refl s, h⟩

theorem Does.bind {m : EStateM ε σ α} {k : α → EStateM ε σ β} (hm : Does Step Stop m s P)
    (hk : ∀ a s', Step s s' → P a s' → Does Step Stop (k a) s' R) :
    Does Step Stop (m >>= k) s R := by
  apply Ensures.bind
  refine Ensures.mono hm ?_ ?_
  · intro a s' ⟨hs, hp⟩
    refine Ensures.mono (hk a s' hs hp) ?_ ?_
    · intro b s₂ ⟨hs₂, hr⟩
      exact ⟨trans_of Step hs hs₂, hr⟩
    · intro e s₂ ⟨s₁, hs₁, hstop⟩
      exact ⟨s₁, trans_of Step hs hs₁, hstop⟩
  · intro e s' he
    exact he

theorem Does.seq {m : EStateM ε σ α} {k : α → EStateM ε σ β} (hm : Does Step Stop m s P)
    (hk : ∀ a s', Step s s' → Does Step Stop (k a) s' R) : Does Step Stop (m >>= k) s R :=
  hm.bind fun a s' hs _ => hk a s' hs

theorem Does.jump {m m' : EStateM ε σ α} (he : m s = m' s') (hs : Step s s')
    (h : Does Step Stop m' s' R) : Does Step Stop m s R := by
  have h' : Ensures m' s' (fun a s₂ => Step s s₂ ∧ R a s₂)
      (fun e s₂ => ∃ s₁, Step s s₁ ∧ Stop e s₁ s₂) := by
    refine Ensures.mono h ?_ ?_
    · intro a s₂ ⟨hs₂, hr⟩
      exact ⟨trans_of Step hs hs₂, hr⟩
    · intro e s₂ ⟨s₁, hs₁, hstop⟩
      exact ⟨s₁, trans_of Step hs hs₁, hstop⟩
  unfold Does Ensures
  rw [he]
  exact h'

theorem Does.throw {R : α → σ → Prop} (h : Stop e s s) :
    Does Step Stop (throw e : EStateM ε σ α) s R :=
  ⟨s, refl s, h⟩

theorem Does.forM {f : β → EStateM ε σ PUnit} (l : List β)
    (hf : ∀ i ∈ l, ∀ s, Does Step Stop (f i) s fun _ _ => True) (s : σ) :
    Does Step Stop (l.forM f) s fun _ _ => True := by
  induction l generalizing s with
  | nil => exact .pure trivial
  | cons i l ih =>
    change Does Step Stop (f i >>= fun _ => l.forM f) s _
    exact (hf i List.mem_cons_self s).seq fun _ s' _ =>
      ih (fun j hj => hf j (List.mem_cons_of_mem i hj)) s'

end Preorder

def Runs (m : EStateM ε σ α) (s : σ) (Q : α → σ → Prop) : Prop := ∃ a s', m s = .ok a s' ∧ Q a s'

theorem Runs.mono (h : Runs m s P) (hq : ∀ a s', P a s' → Q a s') : Runs m s Q := by
  obtain ⟨a, s', he, hp⟩ := h
  exact ⟨a, s', he, hq a s' hp⟩

theorem Runs.pure {Q : α → σ → Prop} (h : Q a s) : Runs (pure a : EStateM ε σ α) s Q :=
  ⟨a, s, rfl, h⟩

theorem Runs.read {k : σ → EStateM ε σ β} (h : Runs (k s) s Q) : Runs (get >>= k) s Q := h

theorem Runs.set {Q : PUnit → σ → Prop} (h : Q () s') : Runs (set s' : EStateM ε σ PUnit) s Q :=
  ⟨(), s', rfl, h⟩

theorem Runs.modify {f : σ → σ} {Q : PUnit → σ → Prop} (h : Q () (f s)) :
    Runs (modify f : EStateM ε σ PUnit) s Q :=
  ⟨(), f s, rfl, h⟩

theorem Runs.bind {m : EStateM ε σ α} {k : α → EStateM ε σ β} (hm : Runs m s P)
    (hk : ∀ a s', P a s' → Runs (k a) s' Q) : Runs (m >>= k) s Q := by
  obtain ⟨a, s₁, he, hp⟩ := hm
  obtain ⟨b, s₂, he₂, hq⟩ := hk a s₁ hp
  refine ⟨b, s₂, ?_, hq⟩
  change EStateM.bind m k s = .ok b s₂
  unfold EStateM.bind
  rw [he]
  exact he₂

def endsIn (m : EStateM ε σ α) (s : σ) (p : σ → Bool) : Bool :=
  match m s with
  | .ok _ s' => p s'
  | .error _ _ => false

theorem Runs.of_endsIn {p : σ → Bool} (h : endsIn m s p = true) :
    Runs m s fun _ s' => p s' = true := by
  unfold endsIn at h
  split at h
  next a s' he => exact ⟨a, s', he, h⟩
  next => cases h

theorem Runs.of_check {m : EStateM ε σ α} {p : α → σ → Prop} [∀ a s, Decidable (p a s)]
    (h : (match m s with
      | .ok a s' => decide (p a s')
      | .error _ _ => false) = true) : Runs m s p := by
  split at h
  next a s' he => exact ⟨a, s', he, of_decide_eq_true h⟩
  next => cases h

theorem Runs.forM_range' {f : Nat → EStateM ε σ PUnit} {P : Nat → σ → Prop} (n start : Nat)
    (h : P start s)
    (hf : ∀ i s, i < start + n → P i s → Runs (f i) s fun _ s' => P (i + 1) s') :
    Runs ((List.range' start n).forM f) s fun _ s' => P (start + n) s' := by
  induction n generalizing start s with
  | zero => exact .pure h
  | succ n ih =>
    change Runs (f start >>= fun _ => (List.range' (start + 1) n).forM f) s _
    refine .bind (hf start s (by omega) h) fun _ s₁ h₁ => ?_
    have h₂ := ih (start + 1) h₁ fun i s₂ hi => hf i s₂ (by omega)
    rwa [Nat.add_right_comm] at h₂

/-- A loop over `0, …, n - 1` with an invariant that counts its rounds. -/
theorem Runs.forM_range {f : Nat → EStateM ε σ PUnit} {P : Nat → σ → Prop} (n : Nat) (h : P 0 s)
    (hf : ∀ i s, i < n → P i s → Runs (f i) s fun _ s' => P (i + 1) s') :
    Runs ((List.range n).forM f) s fun _ s' => P n s' := by
  rw [List.range_eq_range']
  have h' := Runs.forM_range' n 0 h fun i s hi => hf i s (by omega)
  rwa [Nat.zero_add] at h'

theorem Does.choose [Nonempty ι] {Step : ι → σ → σ → Prop} {Stop : ι → ε → σ → σ → Prop}
    [∀ i, IsPreorder σ (Step i)] {m : EStateM ε σ α} {k : α → EStateM ε σ β}
    (hm : ∀ i, Does (Step i) (Stop i) m s P)
    (hk : ∀ a s', (∀ i, Step i s s') → P a s' → ∃ i, Does (Step i) (Stop i) (k a) s' R) :
    ∃ i, Does (Step i) (Stop i) (m >>= k) s R := by
  cases he : m s with
  | error e s' =>
    obtain ⟨i⟩ := ‹Nonempty ι›
    refine ⟨i, Ensures.bind ?_⟩
    have h := hm i
    unfold Does Ensures at h
    rw [he] at h
    unfold Ensures
    rw [he]
    exact h
  | ok a s' =>
    obtain ⟨j⟩ := ‹Nonempty ι›
    obtain ⟨i, hi⟩ := hk a s' (fun i => ((hm i).ok he).1) ((hm j).ok he).2
    refine ⟨i, Does.jump ?_ ((hm i).ok he).1 hi⟩
    change EStateM.bind m k s = k a s'
    unfold EStateM.bind
    rw [he]

/-- Two computations side by side, ending alike in states that `R` relates. -/
def Agree (R : σ → τ → Prop) (m : EStateM ε σ α) (m' : EStateM ε τ α) (s : σ) (t : τ) : Prop :=
  match m s, m' t with
  | .ok a s', .ok b t' => a = b ∧ R s' t'
  | .error e s', .error e' t' => e = e' ∧ R s' t'
  | _, _ => False

section Agree

variable {R : σ → τ → Prop}

/-- The first parts may be related more closely, by `R'`, than what follows. -/
theorem Agree.seq {R' : σ → τ → Prop} {m : EStateM ε σ α} {m' : EStateM ε τ α}
    {k : α → EStateM ε σ β} {k' : α → EStateM ε τ β} (hm : Agree R' m m' s t)
    (hr : ∀ s' t', R' s' t' → R s' t') (hk : ∀ a s' t', R' s' t' → Agree R (k a) (k' a) s' t') :
    Agree R (m >>= k) (m' >>= k') s t := by
  unfold Agree at hm
  change Agree R (EStateM.bind m k) (EStateM.bind m' k') s t
  unfold Agree EStateM.bind
  cases hs : m s with
  | ok a s' =>
    cases ht : m' t with
    | ok b t' =>
      rw [hs, ht] at hm
      obtain ⟨rfl, h⟩ := hm
      exact hk a s' t' h
    | error e t' =>
      rw [hs, ht] at hm
      exact hm.elim
  | error e s' =>
    cases ht : m' t with
    | ok b t' =>
      rw [hs, ht] at hm
      exact hm.elim
    | error e t' =>
      rw [hs, ht] at hm
      exact ⟨hm.1, hr _ _ hm.2⟩

theorem Agree.bind {m : EStateM ε σ α} {m' : EStateM ε τ α} {k : α → EStateM ε σ β}
    {k' : α → EStateM ε τ β} (hm : Agree R m m' s t)
    (hk : ∀ a s' t', R s' t' → Agree R (k a) (k' a) s' t') :
    Agree R (m >>= k) (m' >>= k') s t := hm.seq (fun _ _ h => h) hk

theorem Agree.pure {a : α} (h : R s t) :
    Agree R (pure a : EStateM ε σ α) (pure a : EStateM ε τ α) s t := ⟨rfl, h⟩

theorem Agree.throw {e : ε} (h : R s t) :
    Agree R (throw e : EStateM ε σ α) (throw e : EStateM ε τ α) s t := ⟨rfl, h⟩

theorem Agree.read {k : σ → EStateM ε σ α} {m' : EStateM ε τ α} (h : Agree R (k s) m' s t) :
    Agree R (get >>= k) m' s t := h

theorem Agree.read_right {m : EStateM ε σ α} {k : τ → EStateM ε τ α}
    (h : Agree R m (k t) s t) : Agree R m (get >>= k) s t := h

theorem Agree.ite {p q : Prop} [Decidable p] [Decidable q] {m₁ m₂ : EStateM ε σ α}
    {m₁' m₂' : EStateM ε τ α} (hpq : p ↔ q) (h₁ : p → Agree R m₁ m₁' s t)
    (h₂ : ¬p → Agree R m₂ m₂' s t) :
    Agree R (if p then m₁ else m₂) (if q then m₁' else m₂') s t := by
  by_cases h : p
  · rw [if_pos h, if_pos (hpq.mp h)]
    exact h₁ h
  · rw [if_neg h, if_neg (fun hq => h (hpq.mpr hq))]
    exact h₂ h

theorem Agree.forM {f : β → EStateM ε σ PUnit} {f' : β → EStateM ε τ PUnit} (l : List β)
    (hf : ∀ i ∈ l, ∀ s t, R s t → Agree R (f i) (f' i) s t) (s : σ) (t : τ) (h : R s t) :
    Agree R (l.forM f) (l.forM f') s t := by
  induction l generalizing s t with
  | nil => exact .pure h
  | cons i l ih =>
    exact .bind (hf i List.mem_cons_self s t h) fun _ s' t' h' =>
      ih (fun j hj => hf j (List.mem_cons_of_mem i hj)) s' t' h'

end Agree

theorem foldl_first (p : α → Bool) (f : α → β) (l : List α) (d : β) :
    (l.foldl (fun (s : β × Bool) e => if p e && !s.2 then (f e, true) else s) (d, false)).1 =
      match l.find? p with
      | some e => f e
      | none => d := by
  have hdone : ∀ (l : List α) (b : β),
      l.foldl (fun (s : β × Bool) e => if p e && !s.2 then (f e, true) else s) (b, true) =
        (b, true) := by
    intro l b
    induction l with
    | nil => rfl
    | cons e l ih => simpa using ih
  induction l with
  | nil => rfl
  | cons e l ih =>
    cases he : p e with
    | true =>
      simp only [List.foldl_cons, List.find?_cons, he, Bool.not_false, Bool.and_true, if_true, hdone]
    | false => simpa [he] using ih

/-- The greatest value above `t`, with ties to the least: `d` if there is none. -/
def Chosen [LinearOrder α] (p : α → Bool) (f : α → Nat) (l : List α) (d : α) (t : Nat) (b : α) :
    Prop :=
  (b = d ∧ ∀ a ∈ l, p a = true → f a ≤ t) ∨
  (b ∈ l ∧ p b = true ∧ t < f b ∧ ∀ a ∈ l, p a = true → f a < f b ∨ f a = f b ∧ b ≤ a)

theorem foldl_chosen [LinearOrder α] (p : α → Bool) (f : α → Nat) (l : List α)
    (hl : l.Pairwise (· < ·)) (d : α) (t : Nat) :
    Chosen p f l d t (l.foldl (fun (s : α × Nat) a =>
      if p a && decide (s.2 < f a) then (a, f a) else s) (d, t)).1 := by
  induction l generalizing d t with
  | nil => exact .inl ⟨rfl, fun a ha => absurd ha List.not_mem_nil⟩
  | cons a l ih =>
    obtain ⟨hlt, hl⟩ := List.pairwise_cons.mp hl
    rw [List.foldl_cons]
    by_cases ha : p a = true ∧ t < f a
    · rw [if_pos (by simpa using ha)]
      refine .inr ?_
      rcases ih hl a (f a) with ⟨hb, hle⟩ | ⟨hb, hp, hgt, hmax⟩
      · rw [hb]
        refine ⟨List.mem_cons_self, ha.1, ha.2, fun c hc hpc => ?_⟩
        rcases List.mem_cons.mp hc with rfl | hc
        · exact .inr ⟨rfl, le_refl _⟩
        · rcases Nat.lt_or_eq_of_le (hle c hc hpc) with h | h
          · exact .inl h
          · exact .inr ⟨h, (hlt c hc).le⟩
      · refine ⟨List.mem_cons_of_mem _ hb, hp, ha.2.trans hgt, fun c hc hpc => ?_⟩
        rcases List.mem_cons.mp hc with rfl | hc
        · exact .inl hgt
        · exact hmax c hc hpc
    · rw [if_neg (by simpa using ha)]
      have hle : p a = true → f a ≤ t := fun h => Nat.le_of_not_lt fun hlt => ha ⟨h, hlt⟩
      rcases ih hl d t with ⟨hb, hnone⟩ | ⟨hb, hp, hgt, hmax⟩
      · refine .inl ⟨hb, fun c hc hpc => ?_⟩
        rcases List.mem_cons.mp hc with rfl | hc
        · exact hle hpc
        · exact hnone c hc hpc
      · refine .inr ⟨List.mem_cons_of_mem _ hb, hp, hgt, fun c hc hpc => ?_⟩
        rcases List.mem_cons.mp hc with rfl | hc
        · exact .inl ((hle hpc).trans_lt hgt)
        · exact hmax c hc hpc

end TinyProcessors
