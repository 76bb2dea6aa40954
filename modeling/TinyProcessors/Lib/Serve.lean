import Mathlib.Logic.Relation

namespace TinyProcessors

/-- A server of one request at a time: it waits, works, or has its response out. -/
inductive Serving
  | free
  | busy (left : Nat)
  | done

def states (step : σ → ι → σ) (s : σ) (ins : Nat → ι) : Nat → σ
  | 0 => s
  | n + 1 => step (states step s ins n) (ins n)

structure Server (step : σ → ι → σ) (kind : σ → Serving) (reset ask take : ι → Prop)
    (bound : Nat) : Prop where
  cut : reset i → kind (step s i) = .free
  start : kind s = .free → ¬reset i → ask i → ∃ k, k ≤ bound ∧ kind (step s i) = .busy k
  rest : kind s = .free → ¬reset i → ¬ask i → kind (step s i) = .free
  work : kind s = .busy k → ¬reset i →
    kind (step s i) = .done ∨ ∃ k', k' < k ∧ kind (step s i) = .busy k'
  hold : kind s = .done → ¬reset i → ¬take i → step s i = s
  yield : kind s = .done → ¬reset i → take i → kind (step s i) = .free

section Server

variable {step : σ → ι → σ} {kind : σ → Serving} {reset ask take : ι → Prop} {bound : Nat}
  {s : σ} {ins : Nat → ι}

def Accepts (step : σ → ι → σ) (kind : σ → Serving) (reset ask : ι → Prop) (s : σ)
    (ins : Nat → ι) (n : Nat) : Prop :=
  kind (states step s ins n) = .free ∧ ¬reset (ins n) ∧ ask (ins n)

def Responds (step : σ → ι → σ) (kind : σ → Serving) (reset : ι → Prop) (s : σ)
    (ins : Nat → ι) (n : Nat) : Prop :=
  kind (states step s ins n) = .done ∧ ¬reset (ins n)

theorem Server.ends (h : Server step kind reset ask take bound)
    (hk : kind (states step s ins n) = .busy k) :
    ∃ j, j ≤ k + 1 ∧ (reset (ins (n + j)) ∨ Responds step kind reset s ins (n + j)) ∧
      ∀ i, i < j → ¬reset (ins (n + i)) ∧ ¬Responds step kind reset s ins (n + i) := by
  induction k using Nat.strongRecOn generalizing n with
  | _ k ih =>
    have hnow : ¬Responds step kind reset s ins n := by
      rintro ⟨hd, _⟩
      rw [hk] at hd
      cases hd
    by_cases hr : reset (ins n)
    · exact ⟨0, by omega, .inl hr, fun i hi => by omega⟩
    · rcases h.work hk hr with hdone | ⟨k', hlt, hk'⟩
      · refine ⟨1, by omega, ?_, fun i hi => ?_⟩
        · by_cases hr' : reset (ins (n + 1))
          · exact .inl hr'
          · exact .inr ⟨hdone, hr'⟩
        · obtain rfl : i = 0 := by omega
          exact ⟨hr, hnow⟩
      · obtain ⟨j, hj, hend, hbefore⟩ := ih k' hlt (n := n + 1) hk'
        refine ⟨j + 1, by omega, ?_, fun i hi => ?_⟩
        · rw [Nat.add_comm j 1, ← Nat.add_assoc]
          exact hend
        · cases i with
          | zero => exact ⟨hr, hnow⟩
          | succ i =>
            rw [Nat.add_comm i 1, ← Nat.add_assoc]
            exact hbefore i (by omega)

theorem Server.answers (h : Server step kind reset ask take bound)
    (ha : Accepts step kind reset ask s ins n) :
    ∃ k, 1 ≤ k ∧ k ≤ bound + 2 ∧
      (reset (ins (n + k)) ∨ Responds step kind reset s ins (n + k)) ∧
      ∀ j, 1 ≤ j → j < k → ¬reset (ins (n + j)) ∧ ¬Responds step kind reset s ins (n + j) := by
  obtain ⟨hfree, hreset, hask⟩ := ha
  obtain ⟨k, hk, hbusy⟩ := h.start hfree hreset hask
  obtain ⟨j, hj, hend, hbefore⟩ := h.ends (n := n + 1) hbusy
  refine ⟨j + 1, by omega, by omega, ?_, fun i hi hij => ?_⟩
  · rw [Nat.add_comm j 1, ← Nat.add_assoc]
    exact hend
  · obtain ⟨i, rfl⟩ : ∃ i', i = i' + 1 := ⟨i - 1, by omega⟩
    rw [Nat.add_comm i 1, ← Nat.add_assoc]
    exact hbefore i (by omega)

theorem Server.holds (h : Server step kind reset ask take bound)
    (hresp : Responds step kind reset s ins n) (ht : ¬take (ins n)) :
    states step s ins (n + 1) = states step s ins n :=
  h.hold hresp.1 hresp.2 ht

theorem Server.pending (h : Server step kind reset ask take bound) (hs : kind s = .free)
    (hm : kind (states step s ins m) ≠ .free) :
    ∃ n, n < m ∧ Accepts step kind reset ask s ins n ∧ ∀ j, n < j → j < m →
      ¬(Responds step kind reset s ins j ∧ take (ins j)) ∧ ¬reset (ins j) := by
  induction m with
  | zero => exact absurd hs hm
  | succ m ih =>
    have hr : ¬reset (ins m) := fun hr => hm (h.cut hr)
    cases hk : kind (states step s ins m) with
    | free =>
      by_cases hask : ask (ins m)
      · exact ⟨m, by omega, ⟨hk, hr, hask⟩, fun j hj hj' => by omega⟩
      · exact absurd (h.rest hk hr hask) hm
    | busy k =>
      obtain ⟨n, hn, ha, hbetween⟩ := ih (by rw [hk]; rintro ⟨⟩)
      refine ⟨n, by omega, ha, fun j hj hj' => ?_⟩
      by_cases hjm : j = m
      · subst hjm
        refine ⟨?_, hr⟩
        rintro ⟨⟨hd, _⟩, _⟩
        rw [hk] at hd
        cases hd
      · exact hbetween j hj (by omega)
    | done =>
      obtain ⟨n, hn, ha, hbetween⟩ := ih (by rw [hk]; rintro ⟨⟩)
      refine ⟨n, by omega, ha, fun j hj hj' => ?_⟩
      by_cases hjm : j = m
      · subst hjm
        exact ⟨fun ht => hm (h.yield hk hr ht.2), hr⟩
      · exact hbetween j hj (by omega)

theorem Server.occupied (h : Server step kind reset ask take bound)
    (ha : Accepts step kind reset ask s ins n) (hm : n < m)
    (hno : ∀ j, n < j → j < m →
      ¬(Responds step kind reset s ins j ∧ take (ins j)) ∧ ¬reset (ins j)) :
    kind (states step s ins m) ≠ .free := by
  induction m with
  | zero => omega
  | succ m ih =>
    by_cases hnm : n = m
    · subst hnm
      obtain ⟨k, _, hbusy⟩ := h.start ha.1 ha.2.1 ha.2.2
      change kind (step (states step s ins n) (ins n)) ≠ _
      rw [hbusy]
      rintro ⟨⟩
    · have hprev := ih (by omega) fun j hj hj' => hno j hj (by omega)
      obtain ⟨htake, hr⟩ := hno m (by omega) (by omega)
      change kind (step (states step s ins m) (ins m)) ≠ _
      cases hk : kind (states step s ins m) with
      | free => exact absurd hk hprev
      | busy k =>
        rcases h.work hk hr with hd | ⟨k', _, hb⟩
        · rw [hd]
          rintro ⟨⟩
        · rw [hb]
          rintro ⟨⟩
      | done =>
        rw [h.hold hk hr fun ht => htake ⟨⟨hk, hr⟩, ht⟩, hk]
        rintro ⟨⟩

end Server

end TinyProcessors
