import TinyProcessors.Lib.Raster

namespace TinyProcessors

/-- Twice the signed area: on which side of the line the point `s` is. -/
def cross (a b s : Point) : Int := (b.x - a.x) * (s.y - a.y) - (b.y - a.y) * (s.x - a.x)

/-- Of the samples on an edge it has those that a small step takes inside. -/
def Owns (a b s : Point) : Prop :=
  0 < cross a b s ∨ cross a b s = 0 ∧ (b.y < a.y ∨ b.y = a.y ∧ a.x < b.x)

def Encloses (a b c s : Point) : Prop := Owns a b s ∧ Owns b c s ∧ Owns c a s

def Drawn (a b c s : Point) : Prop := Encloses a b c s ∨ Encloses a c b s

/-- The edge function of a sample moved right and a little down, times `m ^ 2`. -/
def shifted (m : Int) (s a b : Point) : Int :=
  m ^ 2 * cross a b s - m * (b.y - a.y) + (b.x - a.x)

/-- Two points are closer than `m` in both coordinates. -/
def Near (m : Int) (a b : Point) : Prop := |b.x - a.x| < m ∧ |b.y - a.y| < m

theorem exists_near (l : List Point) : ∃ m, ∀ a ∈ l, ∀ b ∈ l, Near m a b := by
  have hsize {a : Point} (ha : a ∈ l) : |a.x| + |a.y| ≤ (l.map fun a => |a.x| + |a.y|).sum :=
    List.single_le_sum (by simp; intros; positivity) _ (List.mem_map_of_mem ha)
  refine ⟨2 * (l.map fun a => |a.x| + |a.y|).sum + 1, fun a ha b hb => ?_⟩
  have hale := hsize ha
  have hble := hsize hb
  have := abs_nonneg a.x
  have := abs_nonneg a.y
  have := abs_nonneg b.x
  have := abs_nonneg b.y
  have := abs_sub b.x a.x
  have := abs_sub b.y a.y
  exact ⟨by omega, by omega⟩

section Shift

variable {m : Int} {a b c d s : Point}

theorem shifted_swap (m : Int) (s a b : Point) : shifted m s b a = -shifted m s a b := by
  unfold shifted cross
  ring

theorem shifted_sum (m : Int) (s a b c : Point) :
    shifted m s a b + shifted m s b c + shifted m s c a = m ^ 2 * cross a b c := by
  unfold shifted cross
  ring

theorem shifted_pos (h : Near m a b) (hs : Owns a b s) : 0 < shifted m s a b := by
  obtain ⟨hx, hy⟩ := h
  rw [abs_lt] at hx hy
  unfold shifted
  rcases hs with hpos | ⟨hzero, hy' | ⟨hy', hx'⟩⟩
  · nlinarith
  · rw [hzero]
    nlinarith
  · rw [hzero, hy']
    nlinarith

theorem shifted_neg (h : Near m a b) (hs : ¬Owns a b s) : shifted m s a b ≤ 0 := by
  obtain ⟨hx, hy⟩ := h
  rw [abs_lt] at hx hy
  unfold Owns at hs
  unfold shifted
  rcases lt_trichotomy (cross a b s) 0 with hc | hc | hc
  · nlinarith
  · rw [hc]
    rcases lt_trichotomy a.y b.y with hlt | heq | hgt
    · nlinarith
    · rw [heq]
      have : ¬a.x < b.x := fun hlt => hs (.inr ⟨hc, .inr ⟨heq.symm, hlt⟩⟩)
      nlinarith
    · exact absurd (.inr ⟨hc, .inl hgt⟩) hs
  · exact absurd (.inl hc) hs

theorem owns_iff (h : Near m a b) : Owns a b s ↔ 0 < shifted m s a b :=
  ⟨shifted_pos h, fun hpos => by_contra fun hs => absurd (shifted_neg h hs) (not_le.mpr hpos)⟩

theorem shifted_ne_zero (h : Near m a b) (hne : a ≠ b) : shifted m s a b ≠ 0 := by
  intro hzero
  obtain ⟨hx, hy⟩ := h
  rw [abs_lt] at hx hy
  unfold shifted at hzero
  have hcross : cross a b s = 0 := by
    rcases lt_trichotomy (cross a b s) 0 with hc | hc | hc
    · nlinarith
    · exact hc
    · nlinarith
  rw [hcross] at hzero
  have hrow : b.y = a.y := by
    rcases lt_trichotomy a.y b.y with hlt | heq | hgt
    · nlinarith
    · exact heq.symm
    · nlinarith
  rw [hrow] at hzero
  exact hne (Point.ext (by linarith) hrow.symm)

theorem Owns.not_swap (h : Owns a b s) : ¬Owns b a s := by
  have hcross : cross b a s = -cross a b s := by
    unfold cross
    ring
  unfold Owns at h ⊢
  rw [hcross]
  omega

end Shift

section Area

variable {a b c d s : Point}

theorem cross_cycle (a b c : Point) : cross b c a = cross a b c := by
  unfold cross
  ring

theorem cross_swap (a b c : Point) : cross a c b = -cross a b c := by
  unfold cross
  ring

theorem Encloses.area_pos (h : Encloses a b c s) : 0 < cross a b c := by
  obtain ⟨m, hm⟩ := exists_near [a, b, c]
  simp only [List.forall_mem_cons, List.not_mem_nil, IsEmpty.forall_iff, implies_true,
    and_true] at hm
  obtain ⟨⟨_, hab, _⟩, ⟨_, _, hbc⟩, hca, _, _⟩ := hm
  have hsum := shifted_sum m s a b c
  have h₁ := shifted_pos hab h.1
  have h₂ := shifted_pos hbc h.2.1
  have h₃ := shifted_pos hca h.2.2
  have hpos : 0 < m ^ 2 * cross a b c := by omega
  exact pos_of_mul_pos_right hpos (sq_nonneg m)

theorem Encloses.cycle (h : Encloses a b c s) : Encloses b c a s := ⟨h.2.1, h.2.2, h.1⟩

theorem Drawn.cycle (h : Drawn a b c s) : Drawn b c a s := by
  rcases h with h | h
  · exact .inl h.cycle
  · exact .inr h.cycle.cycle

theorem Drawn.swap (h : Drawn a b c s) : Drawn a c b s := Or.symm h

theorem drawn_cycle : Drawn b c a s ↔ Drawn a b c s :=
  ⟨fun h => h.cycle.cycle, Drawn.cycle⟩

theorem drawn_swap : Drawn a c b s ↔ Drawn a b c s := ⟨Drawn.swap, Drawn.swap⟩

theorem drawn_of_nonneg (h : 0 ≤ cross a b c) : Drawn a b c s ↔ Encloses a b c s := by
  refine ⟨fun hd => hd.resolve_right fun hc => ?_, .inl⟩
  have := hc.area_pos
  rw [cross_swap] at this
  omega

theorem not_drawn_of_zero (h : cross a b c = 0) : ¬Drawn a b c s := by
  rintro (hc | hc)
  · have := hc.area_pos
    omega
  · have := hc.area_pos
    rw [cross_swap] at this
    omega

theorem Drawn.not_opposite (h : Drawn a b c s) (hc : 0 ≤ cross a b c) (hd : cross a b d ≤ 0) :
    ¬Drawn a b d s := by
  intro h'
  have hab : Owns a b s := by
    rcases h with h | h
    · exact h.1
    · have := h.area_pos
      rw [cross_swap] at this
      omega
  rcases h' with h' | h'
  · have := h'.area_pos
    omega
  · exact hab.not_swap h'.2.2

theorem cross_mean_x (a b c s : Point) :
    cross a b c * s.x = cross b c s * a.x + cross c a s * b.x + cross a b s * c.x := by
  unfold cross
  ring

theorem cross_mean_y (a b c s : Point) :
    cross a b c * s.y = cross b c s * a.y + cross c a s * b.y + cross a b s * c.y := by
  unfold cross
  ring

theorem cross_sum (a b c s : Point) : cross b c s + cross c a s + cross a b s = cross a b c := by
  unfold cross
  ring

theorem Owns.nonneg (h : Owns a b s) : 0 ≤ cross a b s := by
  unfold Owns at h
  omega

/-- A weighted mean of numbers that are at most `k`. -/
theorem mean_le {u v w x y z t k : Int} (hu : 0 ≤ u) (hv : 0 ≤ v) (hw : 0 ≤ w)
    (hpos : 0 < u + v + w) (ht : (u + v + w) * t = u * x + v * y + w * z)
    (hx : x ≤ k) (hy : y ≤ k) (hz : z ≤ k) : t ≤ k := by
  refine le_of_mul_le_mul_left ?_ hpos
  have h₁ := mul_le_mul_of_nonneg_left hx hu
  have h₂ := mul_le_mul_of_nonneg_left hy hv
  have h₃ := mul_le_mul_of_nonneg_left hz hw
  rw [ht, add_mul, add_mul]
  omega

theorem le_mean {u v w x y z t k : Int} (hu : 0 ≤ u) (hv : 0 ≤ v) (hw : 0 ≤ w)
    (hpos : 0 < u + v + w) (ht : (u + v + w) * t = u * x + v * y + w * z)
    (hx : k ≤ x) (hy : k ≤ y) (hz : k ≤ z) : k ≤ t := by
  refine neg_le_neg_iff.mp (mean_le hu hv hw hpos ?_ (neg_le_neg hx) (neg_le_neg hy)
    (neg_le_neg hz))
  linear_combination -ht

theorem Encloses.in_box (h : Encloses a b c s) :
    (min a.x (min b.x c.x) ≤ s.x ∧ s.x ≤ max a.x (max b.x c.x)) ∧
      min a.y (min b.y c.y) ≤ s.y ∧ s.y ≤ max a.y (max b.y c.y) := by
  have hpos := h.area_pos
  have hx := cross_mean_x a b c s
  have hy := cross_mean_y a b c s
  rw [← cross_sum a b c s] at hpos hx hy
  have h₁ := h.1.nonneg
  have h₂ := h.2.1.nonneg
  have h₃ := h.2.2.nonneg
  exact ⟨⟨le_mean h₂ h₃ h₁ hpos hx (by omega) (by omega) (by omega),
      mean_le h₂ h₃ h₁ hpos hx (by omega) (by omega) (by omega)⟩,
    le_mean h₂ h₃ h₁ hpos hy (by omega) (by omega) (by omega),
    mean_le h₂ h₃ h₁ hpos hy (by omega) (by omega) (by omega)⟩

end Area

section Split

variable {m : Int} {a b c d s : Point}

structure Splits (a b c d : Point) : Prop where
  area : 0 < cross a b c
  ab : 0 ≤ cross a b d
  bc : 0 ≤ cross b c d
  ca : 0 ≤ cross c a d

theorem Splits.cycle (h : Splits a b c d) : Splits b c a d where
  area := (cross_cycle a b c).symm ▸ h.area
  ab := h.bc
  bc := h.ca
  ca := h.ab

theorem shifted_inner (m : Int) (s a b c d : Point) :
    cross a b c * shifted m s b d =
      cross a b d * shifted m s b c - cross b c d * shifted m s a b := by
  unfold shifted cross
  ring

theorem shifted_inner_back (m : Int) (s a b c d : Point) :
    cross a b c * shifted m s d a =
      cross a b d * shifted m s c a - cross c a d * shifted m s a b := by
  unfold shifted cross
  ring

theorem shifted_balance (m : Int) (s a b c d : Point) :
    cross b c d * shifted m s a d + cross c a d * shifted m s b d +
      cross a b d * shifted m s c d = 0 := by
  unfold shifted cross
  ring

theorem Splits.covers (h : Splits a b c d) (hs : Encloses a b d s) : Encloses a b c s := by
  obtain ⟨m, hm⟩ := exists_near [a, b, c, d]
  have hnear {p q : Point} (hp : p ∈ [a, b, c, d]) (hq : q ∈ [a, b, c, d]) : Near m p q :=
    hm p hp q hq
  have hd := hs.area_pos
  obtain ⟨hab, hbd, hda⟩ := hs
  have h₁ := shifted_pos (hnear (by simp) (by simp)) hab
  have h₂ := shifted_pos (hnear (by simp) (by simp)) hbd
  have h₃ := shifted_pos (hnear (by simp) (by simp)) hda
  have hbc : 0 < cross a b d * shifted m s b c := by
    have := shifted_inner m s a b c d
    have := mul_pos h.area h₂
    have := mul_nonneg h.bc h₁.le
    omega
  have hca : 0 < cross a b d * shifted m s c a := by
    have := shifted_inner_back m s a b c d
    have := mul_pos h.area h₃
    have := mul_nonneg h.ca h₁.le
    omega
  exact ⟨hab, (owns_iff (hnear (by simp) (by simp))).mpr (pos_of_mul_pos_right hbc hd.le),
    (owns_iff (hnear (by simp) (by simp))).mpr (pos_of_mul_pos_right hca hd.le)⟩

theorem not_balanced {u v w x y z : Int} (hu : 0 ≤ u) (hv : 0 ≤ v) (hw : 0 ≤ w)
    (hpos : 0 < u + v + w) (hx : 0 < x) (hy : 0 < y) (hz : 0 < z) :
    u * x + v * y + w * z ≠ 0 := by
  intro h
  have h₁ := mul_le_mul_of_nonneg_left (show 1 ≤ x from hx) hu
  have h₂ := mul_le_mul_of_nonneg_left (show 1 ≤ y from hy) hv
  have h₃ := mul_le_mul_of_nonneg_left (show 1 ≤ z from hz) hw
  omega

theorem Splits.some_covers (h : Splits a b c d) (hs : Encloses a b c s) :
    Encloses a b d s ∨ Encloses b c d s ∨ Encloses c a d s := by
  obtain ⟨m, hm⟩ := exists_near [a, b, c, d]
  have hnear {p q : Point} (hp : p ∈ [a, b, c, d]) (hq : q ∈ [a, b, c, d]) : Near m p q :=
    hm p hp q hq
  obtain ⟨hab, hbc, hca⟩ := hs
  -- a corner has no edge to itself
  by_cases ha : a = d
  · exact .inr (.inl ⟨hbc, ha ▸ hca, ha ▸ hab⟩)
  by_cases hb : b = d
  · exact .inr (.inr ⟨hca, hb ▸ hab, hb ▸ hbc⟩)
  by_cases hc : c = d
  · exact .inl ⟨hab, hc ▸ hbc, hc ▸ hca⟩
  have hto {p : Point} (hp : p ∈ [a, b, c, d]) (h : 0 < shifted m s p d) : Owns p d s :=
    (owns_iff (hnear hp (by simp))).mpr h
  have hfrom {p : Point} (hp : p ∈ [a, b, c, d]) (h : shifted m s p d < 0) : Owns d p s := by
    refine (owns_iff (hnear (by simp) hp)).mpr ?_
    rw [shifted_swap]
    omega
  have hbalance := shifted_balance m s a b c d
  have hsum : 0 < cross b c d + cross c a d + cross a b d := by
    rw [cross_sum]
    exact h.area
  rcases (shifted_ne_zero (s := s) (hnear (by simp) (by simp)) ha).lt_or_gt with hp | hp
  · rcases (shifted_ne_zero (s := s) (hnear (by simp) (by simp)) hb).lt_or_gt with hq | hq
    · rcases (shifted_ne_zero (s := s) (hnear (by simp) (by simp)) hc).lt_or_gt with hr | hr
      · exact absurd (by linarith) (not_balanced h.bc h.ca h.ab hsum (neg_pos.mpr hp)
          (neg_pos.mpr hq) (neg_pos.mpr hr))
      · exact .inr (.inl ⟨hbc, hto (by simp) hr, hfrom (by simp) hq⟩)
    · exact .inl ⟨hab, hto (by simp) hq, hfrom (by simp) hp⟩
  · rcases (shifted_ne_zero (s := s) (hnear (by simp) (by simp)) hc).lt_or_gt with hr | hr
    · exact .inr (.inr ⟨hca, hto (by simp) hp, hfrom (by simp) hr⟩)
    · rcases (shifted_ne_zero (s := s) (hnear (by simp) (by simp)) hb).lt_or_gt with hq | hq
      · exact .inr (.inl ⟨hbc, hto (by simp) hr, hfrom (by simp) hq⟩)
      · exact absurd hbalance (not_balanced h.bc h.ca h.ab hsum hp hq hr)

theorem Splits.covers_iff (h : Splits a b c d) :
    Encloses a b c s ↔ Encloses a b d s ∨ Encloses b c d s ∨ Encloses c a d s := by
  refine ⟨h.some_covers, ?_⟩
  rintro (hs | hs | hs)
  · exact h.covers hs
  · exact (h.cycle.covers hs).cycle.cycle
  · exact (h.cycle.cycle.covers hs).cycle

def InTriangle (a b c d : Point) : Prop :=
  ∃ u v w : ℚ, (0 ≤ u ∧ 0 ≤ v ∧ 0 ≤ w) ∧ u + v + w = 1 ∧
    (d.x : ℚ) = u * a.x + v * b.x + w * c.x ∧ (d.y : ℚ) = u * a.y + v * b.y + w * c.y

theorem InTriangle.cycle (h : InTriangle a b c d) : InTriangle b c a d := by
  obtain ⟨u, v, w, ⟨hu, hv, hw⟩, hsum, hx, hy⟩ := h
  exact ⟨v, w, u, ⟨hv, hw, hu⟩, by linarith, by linarith, by linarith⟩

theorem InTriangle.swap (h : InTriangle a b c d) : InTriangle a c b d := by
  obtain ⟨u, v, w, ⟨hu, hv, hw⟩, hsum, hx, hy⟩ := h
  exact ⟨u, w, v, ⟨hu, hw, hv⟩, by linarith, by linarith, by linarith⟩

theorem mean_mem {u v w : ℚ} {x y z t lo hi : Int} (h : 0 ≤ u ∧ 0 ≤ v ∧ 0 ≤ w)
    (hsum : u + v + w = 1) (ht : (t : ℚ) = u * x + v * y + w * z) (hx : lo ≤ x ∧ x ≤ hi)
    (hy : lo ≤ y ∧ y ≤ hi) (hz : lo ≤ z ∧ z ≤ hi) : lo ≤ t ∧ t ≤ hi := by
  obtain ⟨hu, hv, hw⟩ := h
  have hle {x : Int} (h : x ≤ hi) : (x : ℚ) ≤ hi := by exact_mod_cast h
  have hge {x : Int} (h : lo ≤ x) : (lo : ℚ) ≤ x := by exact_mod_cast h
  have hlow : (lo : ℚ) ≤ t := by
    have h₁ := mul_le_mul_of_nonneg_left (hge hx.1) hu
    have h₂ := mul_le_mul_of_nonneg_left (hge hy.1) hv
    have h₃ := mul_le_mul_of_nonneg_left (hge hz.1) hw
    calc (lo : ℚ) = u * lo + v * lo + w * lo := by rw [← add_mul, ← add_mul, hsum, one_mul]
      _ ≤ t := by linarith
  have hhigh : (t : ℚ) ≤ hi := by
    have h₁ := mul_le_mul_of_nonneg_left (hle hx.2) hu
    have h₂ := mul_le_mul_of_nonneg_left (hle hy.2) hv
    have h₃ := mul_le_mul_of_nonneg_left (hle hz.2) hw
    calc (t : ℚ) ≤ u * hi + v * hi + w * hi := by linarith
      _ = hi := by rw [← add_mul, ← add_mul, hsum, one_mul]
  exact ⟨by exact_mod_cast hlow, by exact_mod_cast hhigh⟩

theorem InTriangle.exists_part (h : InTriangle a b c d) :
    ∃ w : ℚ, 0 ≤ w ∧ (cross a b d : ℚ) = w * cross a b c := by
  obtain ⟨u, v, w, ⟨_, _, hw⟩, hsum, hx, hy⟩ := h
  obtain rfl : u = 1 - v - w := by linarith
  refine ⟨w, hw, ?_⟩
  unfold cross
  push_cast
  rw [hx, hy]
  ring

theorem InTriangle.cross_nonneg (h : InTriangle a b c d) (hpos : 0 ≤ cross a b c) :
    0 ≤ cross a b d := by
  obtain ⟨w, hw, heq⟩ := h.exists_part
  have hq : (0 : ℚ) ≤ cross a b c := by exact_mod_cast hpos
  have hd : (0 : ℚ) ≤ cross a b d := heq ▸ mul_nonneg hw hq
  exact_mod_cast hd

theorem InTriangle.cross_nonpos (h : InTriangle a b c d) (hneg : cross a b c ≤ 0) :
    cross a b d ≤ 0 := by
  obtain ⟨w, hw, heq⟩ := h.exists_part
  have hq : (cross a b c : ℚ) ≤ 0 := by exact_mod_cast hneg
  have hd : (cross a b d : ℚ) ≤ 0 := heq ▸ mul_nonpos_of_nonneg_of_nonpos hw hq
  exact_mod_cast hd

theorem InTriangle.splits (h : InTriangle a b c d) (hpos : 0 < cross a b c) : Splits a b c d where
  area := hpos
  ab := h.cross_nonneg hpos.le
  bc := h.cycle.cross_nonneg ((cross_cycle a b c).symm ▸ hpos.le)
  ca := h.cycle.cycle.cross_nonneg ((cross_cycle b c a).symm ▸ (cross_cycle a b c).symm ▸ hpos.le)

theorem drawn_flip : Drawn b a c s ↔ Drawn a b c s :=
  drawn_swap.symm.trans drawn_cycle.symm |>.trans drawn_cycle.symm

theorem InTriangle.drawn_iff (h : InTriangle a b c d) :
    Drawn a b c s ↔ Drawn a b d s ∨ Drawn b c d s ∨ Drawn c a d s := by
  have hpos {a b c : Point} (h : InTriangle a b c d) (hpos : 0 < cross a b c) :
      Drawn a b c s ↔ Drawn a b d s ∨ Drawn b c d s ∨ Drawn c a d s := by
    have hs := h.splits hpos
    rw [drawn_of_nonneg hpos.le, drawn_of_nonneg hs.ab, drawn_of_nonneg hs.bc,
      drawn_of_nonneg hs.ca, hs.covers_iff]
  rcases lt_trichotomy (cross a b c) 0 with hneg | hzero | harea
  · have hback := hpos h.swap (by rw [cross_swap]; omega)
    rw [drawn_swap, drawn_flip (a := c) (b := a), drawn_flip (a := b) (b := c),
      drawn_flip (a := a) (b := b)] at hback
    rw [hback]
    tauto
  · have hpart {a b c : Point} (h : InTriangle a b c d) (hzero : cross a b c = 0) :
        ¬Drawn a b d s := by
      obtain ⟨w, _, heq⟩ := h.exists_part
      rw [hzero, Int.cast_zero, mul_zero] at heq
      exact not_drawn_of_zero (by exact_mod_cast heq)
    have hbc : cross b c a = 0 := (cross_cycle a b c).trans hzero
    have hca : cross c a b = 0 := (cross_cycle b c a).trans hbc
    exact iff_of_false (not_drawn_of_zero hzero)
      (not_or.mpr ⟨hpart h hzero, not_or.mpr ⟨hpart h.cycle hbc, hpart h.cycle.cycle hca⟩⟩)
  · exact hpos h harea

theorem InTriangle.drawn_apart (h : InTriangle a b c d) (hs : Drawn a b d s) : ¬Drawn b c d s := by
  rw [← drawn_cycle] at hs
  rw [← drawn_swap]
  have hab := cross_cycle a b d
  have hbc := cross_swap b c d
  have hcycle := cross_cycle a b c
  rcases le_total 0 (cross a b c) with hpos | hneg
  · have h₁ := h.cross_nonneg hpos
    have h₂ := h.cycle.cross_nonneg (hcycle.symm ▸ hpos)
    exact hs.not_opposite (by omega) (by omega)
  · have h₁ := h.cross_nonpos hneg
    have h₂ := h.cycle.cross_nonpos (hcycle.symm ▸ hneg)
    exact fun hs' => hs'.not_opposite (by omega) (by omega) hs

end Split

section Edge

variable {a b c d s : Point}

theorem Owns.or_swap (hne : a ≠ b) (s : Point) : Owns a b s ∨ Owns b a s := by
  have hcross : cross b a s = -cross a b s := by
    unfold cross
    ring
  have hxy : a.x ≠ b.x ∨ a.y ≠ b.y := by
    by_contra h
    rw [not_or, not_not, not_not] at h
    exact hne (Point.ext h.1 h.2)
  unfold Owns
  rw [hcross]
  omega

def Between (a b s : Point) : Prop :=
  ∃ u : ℚ, (0 < u ∧ u < 1) ∧ (s.x : ℚ) = (1 - u) * a.x + u * b.x ∧
    (s.y : ℚ) = (1 - u) * a.y + u * b.y

theorem Between.symm (h : Between a b s) : Between b a s := by
  obtain ⟨u, ⟨hu, hu'⟩, hx, hy⟩ := h
  exact ⟨1 - u, ⟨by linarith, by linarith⟩, by linarith, by linarith⟩

theorem Between.cross_pos (h : Between a b s) (hpos : 0 < cross a b c) :
    0 < cross b c s ∧ 0 < cross c a s := by
  obtain ⟨u, ⟨hu, hu'⟩, hx, hy⟩ := h
  have hq : (0 : ℚ) < cross a b c := by exact_mod_cast hpos
  have hbc : (cross b c s : ℚ) = (1 - u) * cross a b c := by
    unfold cross
    push_cast
    rw [hx, hy]
    ring
  have hca : (cross c a s : ℚ) = u * cross a b c := by
    unfold cross
    push_cast
    rw [hx, hy]
    ring
  have h₁ : (0 : ℚ) < cross b c s := hbc ▸ mul_pos (by linarith) hq
  have h₂ : (0 : ℚ) < cross c a s := hca ▸ mul_pos hu hq
  exact ⟨by exact_mod_cast h₁, by exact_mod_cast h₂⟩

end Edge

end TinyProcessors
