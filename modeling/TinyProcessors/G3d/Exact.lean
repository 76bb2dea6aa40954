import TinyProcessors.G3d.Reference

namespace TinyProcessors.G3d

theorem i32_eq (h : -2 ^ 31 ≤ n ∧ n < 2 ^ 31) : i32 n = n := by
  unfold i32
  exact Int.bmod_eq_of_le (by norm_num; omega) (by norm_num; omega)

theorem i64_eq (h : -2 ^ 63 ≤ n ∧ n < 2 ^ 63) : i64 n = n := by
  unfold i64
  exact Int.bmod_eq_of_le (by norm_num; omega) (by norm_num; omega)

theorem i32_of_abs (h : |n| ≤ k) (hk : k < 2 ^ 31) : i32 n = n := by
  rw [abs_le] at h
  exact i32_eq (by omega)

theorem i64_of_abs (h : |n| ≤ k) (hk : k < 2 ^ 63) : i64 n = n := by
  rw [abs_le] at h
  exact i64_eq (by omega)

theorem shiftRight_eq (n : Int) (k : Nat) : n >>> (k : Int) = n / 2 ^ k := by
  rw [Int.shiftRight_natCast_right, Int.shiftRight_eq_div_pow]
  norm_cast

section Product

theorem magnitude32 {a : Int} (h : |a| ≤ 2 ^ 31) :
    (if a < 0 then asU32 (0 - a) else asU32 a) = a.natAbs := by
  rw [abs_le] at h
  unfold asU32
  split
  · omega
  · omega

theorem halves_mul {m n : Nat} (hm : m < 2 ^ 32) (hn : n < 2 ^ 32) :
    ((m % 2 ^ 16) * (n % 2 ^ 16) % 2 ^ 32 + (m % 2 ^ 16) * (n / 2 ^ 16) % 2 ^ 32 * 2 ^ 16 +
      (m / 2 ^ 16) * (n % 2 ^ 16) % 2 ^ 32 * 2 ^ 16 +
      (m / 2 ^ 16) * (n / 2 ^ 16) % 2 ^ 32 * 2 ^ 32) % 2 ^ 64 = m * n := by
  have hsmall {x y : Nat} (hx : x < 2 ^ 16) (hy : y < 2 ^ 16) : x * y % 2 ^ 32 = x * y :=
    Nat.mod_eq_of_lt (by
      calc x * y < 2 ^ 16 * 2 ^ 16 := Nat.mul_lt_mul'' hx hy
        _ = 2 ^ 32 := by norm_num)
  have hl (x : Nat) : x % 2 ^ 16 < 2 ^ 16 := Nat.mod_lt _ (by norm_num)
  have hh {x : Nat} (hx : x < 2 ^ 32) : x / 2 ^ 16 < 2 ^ 16 := by omega
  rw [hsmall (hl m) (hl n), hsmall (hl m) (hh hn), hsmall (hh hm) (hl n), hsmall (hh hm) (hh hn)]
  have hsum : m % 2 ^ 16 * (n % 2 ^ 16) + m % 2 ^ 16 * (n / 2 ^ 16) * 2 ^ 16 +
      m / 2 ^ 16 * (n % 2 ^ 16) * 2 ^ 16 + m / 2 ^ 16 * (n / 2 ^ 16) * 2 ^ 32 = m * n := by
    conv_rhs => rw [← Nat.mod_add_div m (2 ^ 16), ← Nat.mod_add_div n (2 ^ 16)]
    ring
  rw [hsum]
  apply Nat.mod_eq_of_lt
  calc m * n < 2 ^ 32 * 2 ^ 32 := Nat.mul_lt_mul'' hm hn
    _ = 2 ^ 64 := by norm_num

theorem smul64_eq {a b : Int} (ha : |a| ≤ 2 ^ 31) (hb : |b| ≤ 2 ^ 31) : smul64 a b = a * b := by
  have hab : |a * b| ≤ 2 ^ 62 := by
    rw [abs_mul]
    calc |a| * |b| ≤ 2 ^ 31 * 2 ^ 31 := mul_le_mul ha hb (abs_nonneg b) (by norm_num)
      _ = 2 ^ 62 := by norm_num
  have hna : a.natAbs < 2 ^ 32 := by
    rw [abs_le] at ha
    omega
  have hnb : b.natAbs < 2 ^ 32 := by
    rw [abs_le] at hb
    omega
  have hexact := i64_of_abs hab (by norm_num)
  have hmul : ((a.natAbs * b.natAbs : Nat) : Int) = |a * b| := by
    rw [abs_mul, Int.abs_eq_natAbs, Int.abs_eq_natAbs]
    push_cast
    rfl
  unfold smul64
  simp only [magnitude32 ha, magnitude32 hb, halves_mul hna hnb, hmul]
  split
  next hsign =>
    have hneg : a * b ≤ 0 := by
      rcases lt_or_ge a 0 with ha' | ha'
      · have hb' : 0 ≤ b := by
          by_contra hb'
          simp [ha', not_le.mp hb'] at hsign
        exact mul_nonpos_of_nonpos_of_nonneg ha'.le hb'
      · have hb' : b < 0 := by
          by_contra hb'
          simp [not_lt.mpr ha', hb'] at hsign
        exact mul_nonpos_of_nonneg_of_nonpos ha' hb'.le
    rw [abs_of_nonpos hneg, zero_sub, neg_neg, hexact]
  next hsign =>
    have hpos : 0 ≤ a * b := by
      rcases lt_or_ge a 0 with ha' | ha'
      · have hb' : b < 0 := by
          by_contra hb'
          simp [ha', hb'] at hsign
        exact (mul_pos_of_neg_of_neg ha' hb').le
      · have hb' : 0 ≤ b := by
          by_contra hb'
          simp [not_lt.mpr ha', not_le.mp hb'] at hsign
        exact mul_nonneg ha' hb'
    rw [abs_of_nonneg hpos, hexact]

theorem shl64_eq {v : Int} (h : |v * 2 ^ s| ≤ 2 ^ 62) : shl64 v s = v * 2 ^ s :=
  i64_of_abs h (by norm_num)

end Product

section Quotient

theorem divLoop_eq (hd : d ≤ 2 ^ 32) (bits rem q : Nat) (hrem : rem < d)
    (hq : (q + 1) * 2 ^ bits ≤ 2 ^ 32) :
    divLoop mag d bits rem q = q * 2 ^ bits + (rem * 2 ^ bits + mag % 2 ^ bits) / d := by
  induction bits generalizing rem q with
  | zero => simp [divLoop, Nat.mod_one, Nat.div_eq_of_lt hrem]
  | succ bits ih =>
    have hbit : mag / 2 ^ bits % 2 < 2 := Nat.mod_lt _ (by norm_num)
    have hwide : (2 * rem + mag / 2 ^ bits % 2) % 2 ^ 64 = 2 * rem + mag / 2 ^ bits % 2 :=
      Nat.mod_eq_of_lt (by omega)
    have hq' : (2 * q + 1 + 1) * 2 ^ bits ≤ 2 ^ 32 := by
      rw [pow_succ] at hq
      calc (2 * q + 1 + 1) * 2 ^ bits = (q + 1) * (2 ^ bits * 2) := by ring
        _ ≤ 2 ^ 32 := hq
    have hpos : 1 ≤ 2 ^ bits := Nat.one_le_two_pow
    have hsmall : 2 * q + 1 + 1 ≤ 2 ^ 32 := (Nat.le_mul_of_pos_right _ hpos).trans hq'
    have hdouble : 2 * q % 2 ^ 32 = 2 * q := Nat.mod_eq_of_lt (by omega)
    have hsplit : rem * 2 ^ (bits + 1) + mag % 2 ^ (bits + 1) =
        (2 * rem + mag / 2 ^ bits % 2) * 2 ^ bits + mag % 2 ^ bits := by
      rw [Nat.mod_pow_succ]
      ring
    unfold divLoop
    rw [hwide, hdouble, hsplit]
    have hr : 2 * rem + mag / 2 ^ bits % 2 < 2 * d := by omega
    generalize 2 * rem + mag / 2 ^ bits % 2 = r at *
    dsimp only
    split
    next hle =>
      obtain ⟨k, rfl⟩ := Nat.exists_eq_add_of_le hle
      have hsum : (d + k) * 2 ^ bits + mag % 2 ^ bits =
          k * 2 ^ bits + mag % 2 ^ bits + 2 ^ bits * d := by ring
      rw [Nat.add_sub_cancel_left, ih k (2 * q + 1) (by omega) hq', hsum,
        Nat.add_mul_div_right _ _ (by omega)]
      ring
    next hlt =>
      rw [ih r (2 * q) (by omega) (by nlinarith)]
      ring

theorem magnitude64 {n : Int} (h : -2 ^ 63 ≤ n ∧ n < 2 ^ 63) :
    (if n < 0 then asU64 (0 - n) else asU64 n) = n.natAbs := by
  unfold asU64
  split
  · omega
  · omega

theorem sat_eq (n : Int) {e : Nat} (he : 0 < e) : sat n e =
    if e ≤ n.natAbs / 2 ^ 31 then if n < 0 then -2 ^ 31 else 2 ^ 31 - 1
    else if n < 0 then -((n.natAbs / e : Nat) : Int) else (n.natAbs / e : Nat) := by
  have hq : n.tdiv e = if n < 0 then -((n.natAbs / e : Nat) : Int) else (n.natAbs / e : Nat) := by
    split
    next hneg =>
      obtain ⟨k, rfl⟩ := Int.eq_negSucc_of_lt_zero hneg
      rfl
    next hpos =>
      obtain ⟨k, rfl⟩ := Int.eq_ofNat_of_zero_le (not_lt.mp hpos)
      rfl
  have hbig : e ≤ n.natAbs / 2 ^ 31 ↔ 2 ^ 31 ≤ n.natAbs / e := by
    rw [Nat.le_div_iff_mul_le (by norm_num), Nat.le_div_iff_mul_le he, Nat.mul_comm]
  unfold sat
  simp only [hq, hbig]
  generalize n.natAbs / e = q
  split_ifs <;> omega

theorem divSat_eq {n d : Int} (hn : -2 ^ 63 ≤ n ∧ n < 2 ^ 63) (hd : 0 < d) (hd' : d < 2 ^ 31) :
    divSat n d = sat n d := by
  obtain ⟨e, rfl⟩ := Int.eq_ofNat_of_zero_le hd.le
  have he : asU32 (e : Int) = e := by
    unfold asU32
    omega
  rw [sat_eq n (by omega)]
  unfold divSat
  simp only [magnitude64 hn, he]
  split
  next => rfl
  next hlt =>
    have hsmall : n.natAbs / e < 2 ^ 31 := by
      rw [Nat.div_lt_iff_lt_mul (by omega), Nat.mul_comm]
      exact (Nat.div_lt_iff_lt_mul (by norm_num)).mp (not_le.mp hlt)
    have hloop : divLoop n.natAbs e 32 (n.natAbs / 2 ^ 32) 0 = n.natAbs / e := by
      rw [divLoop_eq (by omega) 32 _ 0 (by omega) (by norm_num), Nat.zero_mul, Nat.zero_add,
        Nat.div_add_mod']
    rw [hloop, i32_eq (by omega), i32_eq (by omega), zero_sub]

end Quotient

section Project

theorem abs_toInt_le (w : Word) : |w.toInt| ≤ 2 ^ 31 := by
  rw [abs_le]
  have := w.toInt_lt
  have := w.le_toInt
  omega

theorem abs_tdiv_le {n d k : Int} (hd : 0 < d) (h : |n| ≤ k * d) : |n.tdiv d| ≤ k := by
  have hk : 0 ≤ k := by
    by_contra hk
    have := mul_neg_of_neg_of_pos (not_le.mp hk) hd
    have := abs_nonneg n
    omega
  obtain ⟨k, rfl⟩ := Int.eq_ofNat_of_zero_le hk
  obtain ⟨e, rfl⟩ := Int.eq_ofNat_of_zero_le hd.le
  rw [Int.abs_eq_natAbs] at h ⊢
  rw [Int.natAbs_tdiv, Int.natAbs_natCast]
  have hle : n.natAbs ≤ k * e := by exact_mod_cast h
  exact_mod_cast Nat.div_le_of_le_mul (by rwa [Nat.mul_comm])

theorem sat_of_le {n d k : Int} (hd : 0 < d) (h : |n| ≤ k * d) (hk : k < 2 ^ 31) :
    sat n d = n.tdiv d := by
  have hq := abs_tdiv_le hd h
  rw [abs_le] at hq
  unfold sat
  dsimp only
  split
  · omega
  · split
    · omega
    · rfl

theorem abs_sat_le_max (n d : Int) : |sat n d| ≤ 2 ^ 31 := by
  rw [abs_le]
  unfold sat
  dsimp only
  split
  · omega
  · split
    · omega
    · omega

structure InGuard (x y z w : Int) : Prop where
  near : 4096 ≤ w
  x : |x| ≤ 4 * w
  y : |y| ≤ 4 * w
  z : 0 ≤ z ∧ z ≤ w

theorem inGuard_iff : inGuard x y z w = true ↔ InGuard x y z w := by
  unfold inGuard wNear
  simp only [Bool.and_eq_true, decide_eq_true_eq]
  constructor
  · rintro ⟨⟨⟨⟨⟨⟨hw, hx⟩, hx'⟩, hy⟩, hy'⟩, hz⟩, hz'⟩
    exact ⟨hw, abs_le.mpr (by omega), abs_le.mpr (by omega), hz, hz'⟩
  · rintro ⟨hw, hx, hy, hz⟩
    rw [abs_le] at hx hy
    omega

def projection (o : BitVec 3 → Word) : Vertex where
  sx := 2560 + ((o 0).toInt * 2560).tdiv (o 3).toInt
  sy := 1920 - ((o 1).toInt * 1920).tdiv (o 3).toInt
  z := ((o 2).toInt * 65535).tdiv (o 3).toInt
  r := colorOut (o 4)
  g := colorOut (o 5)
  b := colorOut (o 6)
  valid := true

theorem InGuard.quotients {x y z w : Int} (h : InGuard x y z w) :
    |x * 2560| ≤ 10240 * w ∧ |y * 1920| ≤ 7680 * w ∧ |z * 65535| ≤ 65535 * w := by
  obtain ⟨hw, hx, hy, hz⟩ := h
  rw [abs_le] at hx hy ⊢
  rw [abs_le, abs_le]
  omega

theorem divSat_smul64 {x c w k : Int} (hx : |x| ≤ 2 ^ 31) (hc : |c| ≤ 2 ^ 31) (hw : 0 < w)
    (hw' : w < 2 ^ 31) (h : |x * c| ≤ k * w) (hk : k < 2 ^ 31) :
    divSat (smul64 x c) w = (x * c).tdiv w := by
  have hxc : |x * c| < 2 ^ 63 := by
    rw [abs_mul]
    calc |x| * |c| ≤ 2 ^ 31 * 2 ^ 31 := mul_le_mul hx hc (abs_nonneg c) (by norm_num)
      _ < 2 ^ 63 := by norm_num
  obtain ⟨hlow, hhigh⟩ := abs_lt.mp hxc
  rw [smul64_eq hx hc, divSat_eq ⟨hlow.le, hhigh⟩ hw hw', sat_of_le hw h hk]

theorem project_eq (o : BitVec 3 → Word) (v : Vertex) : project o v =
    if inGuard (o 0).toInt (o 1).toInt (o 2).toInt (o 3).toInt then projection o
    else { v with valid := false } := by
  have hguard : shl64 (o 3).toInt 2 = 4 * (o 3).toInt := by
    have hw := abs_toInt_le (o 3)
    rw [abs_le] at hw
    rw [shl64_eq (abs_le.mpr (by omega))]
    ring
  unfold project
  dsimp only
  rw [hguard]
  by_cases h : inGuard (o 0).toInt (o 1).toInt (o 2).toInt (o 3).toInt = true
  · rw [if_pos h]
    have hvalid := h
    unfold inGuard at hvalid
    rw [hvalid]
    obtain ⟨hqx, hqy, hqz⟩ := (inGuard_iff.mp h).quotients
    have hw : 0 < (o 3).toInt := lt_of_lt_of_le (by norm_num) (inGuard_iff.mp h).near
    have hw' := (o 3).toInt_lt
    have hx := abs_tdiv_le hw hqx
    have hy := abs_tdiv_le hw hqy
    rw [abs_le] at hx hy
    have hdx := divSat_smul64 (abs_toInt_le (o 0)) (by norm_num) hw hw' hqx (by norm_num)
    have hdy := divSat_smul64 (abs_toInt_le (o 1)) (by norm_num) hw hw' hqy (by norm_num)
    have hdz := divSat_smul64 (abs_toInt_le (o 2)) (by norm_num) hw hw' hqz (by norm_num)
    rw [hdx, hdy, hdz, i32_eq (by omega), i32_eq (by omega)]
    rfl
  · have hvalid := eq_false_of_ne_true h
    rw [if_neg h]
    unfold inGuard at hvalid
    rw [hvalid]
    rfl

structure Vertex.InBand (v : Vertex) : Prop where
  sx : -7680 ≤ v.sx ∧ v.sx ≤ 12800
  sy : -5760 ≤ v.sy ∧ v.sy ≤ 9600
  values : ∀ k, 0 ≤ v.attribute k ∧ v.attribute k ≤ attributeMax k

theorem colorOut_le (o : Word) : 0 ≤ colorOut o ∧ colorOut o ≤ 255 := by
  unfold colorOut
  dsimp only
  split
  · omega
  · split
    · omega
    · omega

theorem projection_inBand {o : BitVec 3 → Word}
    (h : inGuard (o 0).toInt (o 1).toInt (o 2).toInt (o 3).toInt = true) :
    (projection o).InBand := by
  have hg := inGuard_iff.mp h
  obtain ⟨hqx, hqy, hqz⟩ := hg.quotients
  have hw : 0 < (o 3).toInt := lt_of_lt_of_le (by norm_num) hg.near
  have hx := abs_tdiv_le hw hqx
  have hy := abs_tdiv_le hw hqy
  have hz := abs_tdiv_le hw hqz
  have hz' : 0 ≤ ((o 2).toInt * 65535).tdiv (o 3).toInt :=
    Int.tdiv_nonneg (by have := hg.z.1; omega) hw.le
  rw [abs_le] at hx hy hz
  refine ⟨?_, ?_, fun k => ?_⟩
  · unfold projection
    dsimp only
    omega
  · unfold projection
    dsimp only
    omega
  · have hr := colorOut_le (o 4)
    have hg := colorOut_le (o 5)
    have hb := colorOut_le (o 6)
    unfold Vertex.attribute attributeMax projection
    dsimp only
    split
    · omega
    · split
      · omega
      · split
        · omega
        · omega

def Vertex.Guarded (v : Vertex) : Prop := ∃ o u, project o u = v ∧ v.valid = true

theorem Vertex.Guarded.inBand {v : Vertex} (h : v.Guarded) : v.InBand := by
  obtain ⟨o, u, rfl, hvalid⟩ := h
  rw [project_eq] at hvalid ⊢
  by_cases hg : inGuard (o 0).toInt (o 1).toInt (o 2).toInt (o 3).toInt = true
  · rw [if_pos hg]
    exact projection_inBand hg
  · rw [if_neg hg] at hvalid
    cases hvalid

end Project

end TinyProcessors.G3d
