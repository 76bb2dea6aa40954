import TinyProcessors.Lib.Rounding

namespace TinyProcessors

/-- Among the multiples of `g`, `m` is where `t` is. -/
def Stands (g m t : ℝ) : Prop := ∀ k : ℤ, (t < k * g ↔ m < k * g) ∧ (k * g < t ↔ k * g < m)

section Stands

variable {g m m' t c : ℝ}

theorem Stands.refl (g m : ℝ) : Stands g m m := fun _ => ⟨Iff.rfl, Iff.rfl⟩

theorem Stands.trans (h : Stands g m t) (h' : Stands g m' m) : Stands g m' t :=
  fun k => ⟨(h k).1.trans (h' k).1, (h k).2.trans (h' k).2⟩

theorem Stands.coarser (h : Stands g m t) (c : ℤ) : Stands (c * g) m t := by
  intro k
  have hk := h (k * c)
  push_cast at hk
  rw [mul_assoc] at hk
  exact hk

theorem Stands.scale (h : Stands g m t) (hc : 0 < c) : Stands (c * g) (c * m) (c * t) := by
  intro k
  have hk : (k : ℝ) * (c * g) = c * (k * g) := by ring
  rw [hk, mul_lt_mul_iff_right₀ hc, mul_lt_mul_iff_right₀ hc, mul_lt_mul_iff_right₀ hc,
    mul_lt_mul_iff_right₀ hc]
  exact h k

theorem Stands.add (h : Stands g m t) (a : ℤ) : Stands g (a * g + m) (a * g + t) := by
  intro k
  have hk := h (k - a)
  push_cast at hk
  rw [sub_mul] at hk
  constructor
  · rw [← lt_sub_iff_add_lt', hk.1, lt_sub_iff_add_lt']
  · rw [← sub_lt_iff_lt_add', hk.2, sub_lt_iff_lt_add']

theorem Stands.neg (h : Stands g m t) : Stands g (-m) (-t) := by
  intro k
  have hk := h (-k)
  push_cast at hk
  rw [neg_mul] at hk
  exact ⟨by rw [neg_lt, hk.2, neg_lt], by rw [lt_neg, hk.1, lt_neg]⟩

theorem stands_of_between {q : ℤ} (hg : 0 < g) (hm : q * g ≤ m ∧ m < (q + 1) * g)
    (ht : q * g ≤ t ∧ t < (q + 1) * g) (heq : m = q * g ↔ t = q * g) : Stands g m t := by
  have hside {u v : ℝ} (hu : q * g ≤ u ∧ u < (q + 1) * g) (hv : q * g ≤ v ∧ v < (q + 1) * g)
      (huv : u = q * g → v = q * g) (k : ℤ) :
      (v < k * g → u < k * g) ∧ (k * g < v → k * g < u) := by
    rcases lt_or_ge q k with hk | hk
    · have hle : ((q : ℝ) + 1) * g ≤ k * g :=
        mul_le_mul_of_nonneg_right (by exact_mod_cast hk) hg.le
      exact ⟨fun _ => hu.2.trans_le hle, fun h => absurd (hv.2.trans_le hle) h.not_gt⟩
    · have hle : (k : ℝ) * g ≤ q * g := mul_le_mul_of_nonneg_right (by exact_mod_cast hk) hg.le
      refine ⟨fun h => absurd (h.trans_le hle) hv.1.not_gt, fun h => ?_⟩
      apply lt_of_le_of_ne (hle.trans hu.1)
      intro hku
      have huq : u = q * g := le_antisymm (hku ▸ hle) hu.1
      rw [huv huq, ← huq, ← hku] at h
      exact lt_irrefl _ h
  intro k
  have h1 := hside hm ht heq.mp k
  have h2 := hside ht hm heq.mpr k
  exact ⟨⟨h1.1, h2.1⟩, h1.2, h2.2⟩

theorem Stands.eq_iff (h : Stands g m t) (k : ℤ) : t = k * g ↔ m = k * g := by
  obtain ⟨hlt, hgt⟩ := h k
  constructor
  · intro he
    rcases lt_trichotomy m (k * g) with hm | hm | hm
    · exact absurd (hlt.mpr hm) (by rw [he]; exact lt_irrefl _)
    · exact hm
    · exact absurd (hgt.mpr hm) (by rw [he]; exact lt_irrefl _)
  · intro he
    rcases lt_trichotomy t (k * g) with hm | hm | hm
    · exact absurd (hlt.mp hm) (by rw [he]; exact lt_irrefl _)
    · exact hm
    · exact absurd (hgt.mp hm) (by rw [he]; exact lt_irrefl _)

theorem Stands.le_iff (h : Stands g m t) (k : ℤ) : k * g ≤ t ↔ k * g ≤ m := by
  rw [← not_lt, (h k).1, not_lt]

end Stands

/-- The quotient by a power of two, made odd where there is a remainder. -/
def jam (m k : ℕ) : ℕ := m / 2 ^ k ||| (if m % 2 ^ k = 0 then 0 else 1)

section Jam

theorem or_one (q : ℕ) : q ||| 1 = 2 * (q / 2) + 1 := by
  have hhigh : (q ||| 1) / 2 = q / 2 := by
    rw [Nat.or_div_two]
    exact Nat.or_zero _
  have hlow : (q ||| 1) % 2 = 1 := Nat.or_mod_two_eq_one.mpr (.inr rfl)
  omega

theorem jam_stands (m k : ℕ) : Stands 2 (jam m k) (m / 2 ^ k) := by
  have hpos : (0 : ℝ) < 2 ^ k := by positivity
  have hdiv : (m : ℝ) = 2 ^ k * (m / 2 ^ k : ℕ) + (m % 2 ^ k : ℕ) := by
    exact_mod_cast (Nat.div_add_mod m (2 ^ k)).symm
  unfold jam
  by_cases hr : m % 2 ^ k = 0
  · have heq : (m : ℝ) / 2 ^ k = (m / 2 ^ k : ℕ) := by
      rw [hdiv, hr, Nat.cast_zero, add_zero, mul_div_cancel_left₀ _ hpos.ne']
    rw [if_pos hr, Nat.or_zero, heq]
    exact .refl _ _
  · rw [if_neg hr, or_one]
    generalize m / 2 ^ k = q at *
    have hrest : (0 : ℝ) < (m % 2 ^ k : ℕ) := by exact_mod_cast Nat.pos_of_ne_zero hr
    have hless : ((m % 2 ^ k : ℕ) : ℝ) < 2 ^ k := by
      exact_mod_cast Nat.mod_lt m (Nat.two_pow_pos k)
    have hlow : (q : ℝ) < m / 2 ^ k := by
      rw [lt_div_iff₀ hpos]
      linarith
    have hhigh : (m : ℝ) / 2 ^ k < q + 1 := by
      rw [div_lt_iff₀ hpos]
      linarith
    intro c
    constructor
    · have hl : (m : ℝ) / 2 ^ k < c * 2 ↔ (q : ℤ) < c * 2 := by
        constructor
        · intro h
          have : (q : ℝ) < c * 2 := hlow.trans h
          exact_mod_cast this
        · intro h
          have : (q : ℝ) + 1 ≤ c * 2 := by exact_mod_cast h
          linarith
      have hj (n : ℕ) : (n : ℝ) < c * 2 ↔ (n : ℤ) < c * 2 :=
        ⟨fun h => by exact_mod_cast h, fun h => by exact_mod_cast h⟩
      rw [hl, hj]
      omega
    · have hl : (c : ℝ) * 2 < m / 2 ^ k ↔ c * 2 ≤ (q : ℤ) := by
        constructor
        · intro h
          have : (c : ℝ) * 2 < q + 1 := h.trans hhigh
          have : c * 2 < (q : ℤ) + 1 := by exact_mod_cast this
          omega
        · intro h
          have : (c : ℝ) * 2 ≤ q := by exact_mod_cast h
          linarith
      have hj (n : ℕ) : (c : ℝ) * 2 < n ↔ c * 2 < (n : ℤ) :=
        ⟨fun h => by exact_mod_cast h, fun h => by exact_mod_cast h⟩
      rw [hl, hj]
      omega

theorem jam_of_lt (h : m < 2 ^ k) : jam m k = if m = 0 then 0 else 1 := by
  unfold jam
  rw [Nat.div_eq_of_lt h, Nat.mod_eq_of_lt h, Nat.zero_or]

theorem jam_exact (h : m % 2 ^ k = 0) : (jam m k : ℝ) = m / 2 ^ k := by
  have hpos : (2 : ℝ) ^ k ≠ 0 := by positivity
  unfold jam
  rw [if_pos h, Nat.or_zero, eq_div_iff hpos]
  exact_mod_cast Nat.div_mul_cancel (Nat.dvd_of_mod_eq_zero h)

theorem jam_lt_of_div (h : m < 2 ^ j * 2 ^ k) (hj : 1 ≤ j) : jam m k < 2 ^ j := by
  unfold jam
  apply Nat.or_lt_two_pow
  · exact Nat.div_lt_of_lt_mul (Nat.mul_comm _ _ ▸ h)
  · have hpow : 2 ^ 1 ≤ 2 ^ j := Nat.pow_le_pow_right two_pos hj
    split_ifs <;> omega

theorem jam_lt (h : m < 2 ^ j) (hj : 1 ≤ j) : jam m k < 2 ^ j :=
  jam_lt_of_div (lt_of_lt_of_le h (Nat.le_mul_of_pos_right _ (Nat.two_pow_pos k))) hj

end Jam

theorem Stands.lies {m k : ℕ} (h : Stands (2 ^ k) m t) :
    Lies (t / 2 ^ (k + 1)) (m / 2 ^ (k + 1)) (m.testBit k) (m % 2 ^ k ≠ 0) := by
  have hpos : (0 : ℝ) < 2 ^ k := by positivity
  have hm : (m : ℝ) = (m / 2 ^ k : ℕ) * 2 ^ k + (m % 2 ^ k : ℕ) := by
    exact_mod_cast (Nat.div_add_mod' m (2 ^ k)).symm
  have hless : ((m % 2 ^ k : ℕ) : ℝ) < 2 ^ k := by
    exact_mod_cast Nat.mod_lt m (Nat.two_pow_pos k)
  have hsplit : m / 2 ^ k = 2 * (m / 2 ^ (k + 1)) + m / 2 ^ k % 2 := by
    rw [pow_succ, ← Nat.div_div_eq_div_mul]
    omega
  have hbit : m.testBit k = decide (m / 2 ^ k % 2 = 1) := Nat.testBit_eq_decide_div_mod_eq
  -- `q` half units are at or below the window
  generalize m / 2 ^ (k + 1) = n at *
  generalize m / 2 ^ k = q at *
  generalize m % 2 ^ k = r at *
  have hplace : (q : ℝ) = 2 * (n + if m.testBit k then 1 / 2 else 0) := by
    rw [hbit]
    by_cases hb : q % 2 = 1
    · rw [hb] at hsplit
      rw [decide_eq_true hb, if_pos rfl, hsplit]
      push_cast
      ring
    · have hq : q = 2 * n := by omega
      rw [decide_eq_false hb, if_neg (by decide), hq]
      push_cast
      ring
  refine ⟨(t - q * 2 ^ k) / 2 ^ (k + 1), ?_, ?_⟩
  · have hn : (n : ℝ) + (if m.testBit k then 1 / 2 else 0) = q / 2 := by linarith
    rw [hn, pow_succ]
    field_simp
    ring
  · by_cases hr : r = 0
    · have heq : t = q * 2 ^ k := by
        have he := (h.eq_iff q).mpr (by rw [hm, hr]; push_cast; ring)
        exact_mod_cast he
      rw [decide_eq_false (not_not.mpr hr), if_neg (by decide), heq, sub_self, zero_div]
    · have hlow : q * 2 ^ k < t := by
        have hpos' : (0 : ℝ) < r := by exact_mod_cast Nat.pos_of_ne_zero hr
        have hl := (h q).2.mpr (by rw [hm]; push_cast; linarith)
        exact_mod_cast hl
      have hhigh : t < (q + 1) * 2 ^ k := by
        have hl := (h (q + 1)).1.mpr (by rw [hm]; push_cast; linarith)
        exact_mod_cast hl
      rw [decide_eq_true hr, if_pos rfl, pow_succ]
      constructor
      · apply div_pos
        · linarith
        · positivity
      · rw [div_lt_iff₀ (by positivity)]
        linarith

end TinyProcessors
