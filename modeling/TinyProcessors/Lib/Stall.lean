import Mathlib.Logic.Relation

namespace TinyProcessors

/-- A clocked machine from time `t` on; `cycle` is told whether a request is granted. -/
def clock (cycle : Bool → σ → σ) (grants : Nat → Bool) (t : Nat) : (n : Nat) → σ → σ
  | 0, d => d
  | n + 1, d => clock cycle grants (t + 1) n (cycle (grants t) d)

def Fair (grants : Nat → Bool) : Prop := ∀ t, ∃ k, grants (t + k) = true

def Stalls (cycle : Bool → σ → σ) (d : σ) : Prop :=
  cycle false d = d ∨ cycle false d = cycle true d

/-- From `d` to `d'` when every request is granted, with stalls where one is refused. -/
inductive Leads (cycle : Bool → σ → σ) (ended : σ → Bool) : σ → σ → Prop
  | refl : Leads cycle ended d d
  | head (hs : Stalls cycle d) (he : ended d = false) (h : Leads cycle ended (cycle true d) d') :
      Leads cycle ended d d'

section Schedule

variable {cycle : Bool → σ → σ} {ended : σ → Bool} {grants : Nat → Bool}

theorem Leads.trans (h : Leads cycle ended d d') (h' : Leads cycle ended d' d'') :
    Leads cycle ended d d'' := by
  induction h with
  | refl => exact h'
  | head hs he _ ih => exact .head hs he (ih h')

theorem Stalls.waits (h : Stalls cycle d) (k : Nat) (t : Nat) (hk : grants (t + k) = true) :
    ∃ n, clock cycle grants t (n + 1) d = cycle true d ∧
      ∀ j, j ≤ n → clock cycle grants t j d = d := by
  induction k generalizing t with
  | zero =>
    refine ⟨0, ?_, fun j hj => ?_⟩
    · have ht : grants t = true := hk
      change cycle (grants t) d = cycle true d
      rw [ht]
    · obtain rfl : j = 0 := by omega
      rfl
  | succ k ih =>
    by_cases hw : cycle (grants t) d = cycle true d
    · refine ⟨0, hw, fun j hj => ?_⟩
      obtain rfl : j = 0 := by omega
      rfl
    · have hstay : cycle (grants t) d = d := by
        cases hg : grants t with
        | true =>
          rw [hg] at hw
          exact absurd rfl hw
        | false =>
          rw [hg] at hw
          exact h.resolve_right hw
      obtain ⟨n, hn, hj⟩ := ih (t + 1) (by rwa [Nat.add_assoc, Nat.add_comm 1 k])
      refine ⟨n + 1, ?_, fun j hjn => ?_⟩
      · change clock cycle grants (t + 1) (n + 1) (cycle (grants t) d) = _
        rw [hstay, hn]
      · cases j with
        | zero => rfl
        | succ j =>
          change clock cycle grants (t + 1) j (cycle (grants t) d) = _
          rw [hstay]
          exact hj j (by omega)

theorem clock_add (t m n : Nat) (d : σ) :
    clock cycle grants t (m + n) d = clock cycle grants (t + m) n (clock cycle grants t m d) := by
  induction m generalizing t d with
  | zero => rw [Nat.zero_add]; rfl
  | succ m ih =>
    rw [Nat.succ_add]
    change clock cycle grants (t + 1) (m + n) (cycle (grants t) d) = _
    rw [ih, Nat.add_right_comm]
    rfl

theorem clock_rest (h : ∀ granted, cycle granted d = d) (t n : Nat) :
    clock cycle grants t n d = d := by
  induction n generalizing t with
  | zero => rfl
  | succ n ih =>
    change clock cycle grants (t + 1) n (cycle (grants t) d) = d
    rw [h, ih]

theorem clock_view {cycle' : Bool → τ → τ} {view : σ → τ}
    (h : ∀ granted d, view (cycle granted d) = cycle' granted (view d)) (t n : Nat) (d : σ) :
    view (clock cycle grants t n d) = clock cycle' grants t n (view d) := by
  induction n generalizing t d with
  | zero => rfl
  | succ n ih =>
    change view (clock cycle grants (t + 1) n (cycle (grants t) d)) = _
    rw [ih, h]
    rfl

theorem Leads.runs (h : Leads cycle ended d d') (hg : Fair grants) (t : Nat) :
    ∃ n, clock cycle grants t n d = d' ∧
      ∀ j, j < n → ended (clock cycle grants t j d) = false := by
  induction h generalizing t with
  | refl => exact ⟨0, rfl, fun j hj => by omega⟩
  | @head d d' hs he _ ih =>
    obtain ⟨k, hk⟩ := hg t
    obtain ⟨m, hm, hstay⟩ := hs.waits k t hk
    obtain ⟨n, hn, hj⟩ := ih (t + (m + 1))
    refine ⟨m + 1 + n, ?_, fun j hjn => ?_⟩
    · rw [clock_add, hm, hn]
    · by_cases hle : j ≤ m
      · rw [hstay j hle]
        exact he
      · obtain ⟨i, rfl⟩ : ∃ i, j = m + 1 + i := ⟨j - (m + 1), by omega⟩
        rw [clock_add, hm]
        exact hj i (by omega)

/-- A machine with a log, to which each of its states adds what `mark` says. -/
def logging (cycle : Bool → σ → σ) (mark : σ → List α) (granted : Bool) (s : σ × List α) :
    σ × List α :=
  (cycle granted s.1, s.2 ++ mark s.1)

theorem logging_fst {mark : σ → List α} (t n : Nat) (s : σ × List α) :
    (clock (logging cycle mark) grants t n s).1 = clock cycle grants t n s.1 := by
  have hfst (granted : Bool) (s : σ × List α) :
      Prod.fst (logging cycle mark granted s) = cycle granted s.1 := rfl
  exact clock_view hfst t n s

theorem logging_view {cycle' : Bool → τ → τ} {view : σ → τ} {mark : σ → List α}
    {mark' : τ → List α} (h : ∀ granted d, view (cycle granted d) = cycle' granted (view d))
    (hm : ∀ d, mark d = mark' (view d)) (t n : Nat) (s : σ × List α) :
    Prod.map view id (clock (logging cycle mark) grants t n s) =
      clock (logging cycle' mark') grants t n (Prod.map view id s) := by
  refine clock_view (fun granted s => Prod.ext (h granted s.1) ?_) t n s
  exact congrArg (s.2 ++ ·) (hm s.1)

/-- `Leads`, with what the states on the way add to a log. -/
inductive Traces (cycle : Bool → σ → σ) (ended : σ → Bool) (mark : σ → List α) :
    σ → List α → σ → Prop
  | refl : Traces cycle ended mark d [] d
  | head (hs : cycle false d = d ∧ mark d = [] ∨ cycle false d = cycle true d)
      (he : ended d = false) (h : Traces cycle ended mark (cycle true d) l d') :
      Traces cycle ended mark d (mark d ++ l) d'

variable {mark : σ → List α}

theorem Traces.trans (h : Traces cycle ended mark d l d') (h' : Traces cycle ended mark d' l' d'') :
    Traces cycle ended mark d (l ++ l') d'' := by
  induction h with
  | refl => exact h'
  | head hs he _ ih =>
    rw [List.append_assoc]
    exact .head hs he (ih h')

theorem Traces.logging (h : Traces cycle ended mark d l d') (log : List α) :
    Leads (logging cycle mark) (fun s => ended s.1) (d, log) (d', log ++ l) := by
  induction h generalizing log with
  | @refl d =>
    rw [List.append_nil]
    exact .refl
  | @head d l d' hs he _ ih =>
    rw [← List.append_assoc]
    refine .head ?_ he (ih (log ++ mark d))
    rcases hs with ⟨hstay, hmark⟩ | hsame
    · left
      unfold TinyProcessors.logging
      rw [hstay, hmark, List.append_nil]
    · right
      unfold TinyProcessors.logging
      rw [hsame]

end Schedule

end TinyProcessors
