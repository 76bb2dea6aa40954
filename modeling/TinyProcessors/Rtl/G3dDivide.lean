import TinyProcessors.G3d.Exact
import TinyProcessors.Lib.Bits
import TinyProcessors.Lib.Division

namespace TinyProcessors.G3d

structure DividerRtl where
  left : BitVec 6
  num : BitVec 64
  den : Word
  neg : Bool
  sat : Bool
  rem : Word
  bits : Word
  q : Word
  out : Word

/-- What the sequencer feeds the divider. -/
structure DividerIn where
  loadNum : BitVec 64
  loadDen : Word
  again : Bool

namespace DividerRtl

abbrev divLoad : BitVec 6 := 35
abbrev divPrep : BitVec 6 := 34
abbrev divLast : BitVec 6 := 2
abbrev divFinish : BitVec 6 := 1

def mag (r : DividerRtl) : BitVec 64 := if r.num.msb then 0 - r.num else r.num
def trial (r : DividerRtl) : BitVec 33 := r.rem ++ r.bits.extractLsb' 31 1
def take (r : DividerRtl) : Bool := (0#1 ++ r.den : BitVec 33) ≤ r.trial
def nextQ (r : DividerRtl) : Word := r.q.extractLsb' 0 31 ++ BitVec.ofBool r.take

def result (r : DividerRtl) : Word :=
  if r.sat then if r.neg then 0x80000000 else 0x7fffffff
  else if r.neg then 0 - r.nextQ else r.nextQ

def clock (r : DividerRtl) (i : DividerIn) : DividerRtl :=
  let left := r.left - 1
  if r.left = divLoad then { r with left, num := i.loadNum, den := i.loadDen }
  else if r.left = divPrep then
    { r with
      left
      neg := r.num.msb
      sat := (0#32 ++ r.den : BitVec 64) ≤ 0#31 ++ r.mag.extractLsb' 31 33
      rem := r.mag.extractLsb' 32 32
      bits := r.mag.extractLsb' 0 32
      q := 0 }
  else if r.left ≠ divFinish then
    { r with
      left
      rem := if r.take then r.trial.extractLsb' 0 32 - r.den else r.trial.extractLsb' 0 32
      bits := r.bits.extractLsb' 0 31 ++ 0#1
      q := r.nextQ
      out := if r.left = divLast then r.result else r.out }
  else { r with left := if i.again then divLoad else left }

def after (r : DividerRtl) (ins : Nat → DividerIn) : Nat → DividerRtl
  | 0 => r
  | k + 1 => (r.after ins k).clock (ins k)

structure Steps (m d : Nat) (neg : Bool) (bits : Nat) (r : DividerRtl) : Prop where
  le : bits ≤ 32
  left : r.left.toNat = bits + 1
  den : r.den.toNat = d
  neg : r.neg = neg
  sat : r.sat = decide (d ≤ m / 2 ^ 31)
  fed : Shifting 32 m bits 0 r.bits.toNat
  divided : m / 2 ^ 31 < d → Divided m d bits r.rem.toNat r.q.toNat

theorem mag_toNat (r : DividerRtl) : r.mag.toNat = r.num.toInt.natAbs := by
  unfold mag
  rw [BitVec.toInt_eq_msb_cond]
  have hlt := r.num.isLt
  split
  next hneg =>
    rw [BitVec.toNat_sub]
    have hbig := BitVec.msb_eq_true_iff_two_mul_ge.mp hneg
    change (2 ^ 64 - r.num.toNat + 0) % 2 ^ 64 = _
    omega
  next => rw [Int.natAbs_natCast]

theorem Steps.start (r : DividerRtl) (hl : r.left = divPrep) (i : DividerIn) :
    Steps r.num.toInt.natAbs r.den.toNat r.num.msb 32 (r.clock i) := by
  have hm := r.mag_toNat
  have hlt := r.mag.isLt
  have hhigh : (r.mag.extractLsb' 32 32).toNat = r.mag.toNat / 2 ^ 32 := by
    rw [extractLsb'_toNat_div]
    omega
  have hlow : (r.mag.extractLsb' 0 32).toNat = r.mag.toNat % 2 ^ 32 := by
    rw [extractLsb'_toNat_div, pow_zero, Nat.div_one]
  rw [← hm]
  unfold clock
  rw [hl, if_neg (by decide), if_pos rfl]
  refine ⟨Nat.le_refl _, rfl, rfl, rfl, ?_, ?_, fun h => ?_⟩
  · rw [decide_eq_decide, BitVec.le_def, append_toNat, append_toNat, extractLsb'_toNat_div]
    simp only [BitVec.toNat_ofNat, Nat.zero_mod, Nat.zero_mul, Nat.zero_add]
    rw [Nat.mod_eq_of_lt (by omega)]
  · dsimp only
    rw [hlow]
    exact ⟨Nat.le_refl _, by omega, by norm_num⟩
  · dsimp only
    rw [hhigh]
    exact .of_high (by omega)

section Step

variable {r : DividerRtl} {m d k : Nat} {negative : Bool}

theorem Steps.trial_toNat (h : Steps m d negative (k + 1) r) :
    r.trial.toNat = 2 * r.rem.toNat + m / 2 ^ k % 2 := by
  have hlt := r.bits.isLt
  have hb := h.fed.top
  unfold trial
  rw [append_toNat, extractLsb'_toNat_div]
  omega

theorem Steps.take_eq (h : Steps m d negative (k + 1) r) :
    r.take = decide (d ≤ 2 * r.rem.toNat + m / 2 ^ k % 2) := by
  unfold take
  rw [decide_eq_decide, BitVec.le_def, append_toNat, h.trial_toNat, h.den]
  simp

theorem Steps.quotient_lt (h : Steps m d negative k r) (hm : m / 2 ^ 31 < d) :
    r.q.toNat < 2 ^ 31 := by
  have hm' : m < d * 2 ^ 31 := (Nat.div_lt_iff_lt_mul (by norm_num)).mp hm
  have htaken := (h.divided hm).taken
  have hle := Nat.div_le_self m (2 ^ k)
  by_contra hq
  have := Nat.mul_le_mul_right d (not_lt.mp hq)
  rw [Nat.mul_comm] at hm'
  omega

theorem Steps.nextQ_toNat (h : Steps m d negative (k + 1) r) (hm : m / 2 ^ 31 < d) :
    r.nextQ.toNat = 2 * r.q.toNat + r.take.toNat := by
  have hq := h.quotient_lt hm
  unfold nextQ
  rw [append_toNat, extractLsb'_toNat_div, BitVec.toNat_ofBool]
  omega

theorem Steps.round (h : Steps m d negative (k + 1) r) (hm : m / 2 ^ 31 < d) :
    Divided m d k
      (if r.take then r.trial.extractLsb' 0 32 - r.den else r.trial.extractLsb' 0 32).toNat
      r.nextQ.toNat := by
  have hdiv := h.divided hm
  have hsmall := hdiv.small
  have hlow : (r.trial.extractLsb' 0 32).toNat = r.trial.toNat % 2 ^ 32 := by
    rw [extractLsb'_toNat_div, pow_zero, Nat.div_one]
  have hd := h.den ▸ r.den.isLt
  have ht := h.trial_toNat
  have htake := h.take_eq
  rw [h.nextQ_toNat hm]
  cases hf : r.take with
  | true =>
    rw [hf, eq_comm, decide_eq_true_eq] at htake
    rw [if_pos rfl, BitVec.toNat_sub, hlow, h.den, ht]
    have hrem := hdiv.take htake
    have hbit := Nat.mod_lt (m / 2 ^ k) two_pos
    have htwice : 2 * r.rem.toNat + m / 2 ^ k % 2 < 2 * d := by omega
    generalize 2 * r.rem.toNat + m / 2 ^ k % 2 = t at *
    rwa [show (2 ^ 32 - d + t % 2 ^ 32) % 2 ^ 32 = t - d by omega]
  | false =>
    rw [hf, eq_comm, decide_eq_false_iff_not, not_le] at htake
    rw [if_neg Bool.false_ne_true, hlow, ht, Nat.mod_eq_of_lt (by omega)]
    exact hdiv.keep htake

theorem Steps.clock_eq (h : Steps m d negative (k + 1) r) (i : DividerIn) : r.clock i =
    { r with
      left := r.left - 1
      rem := if r.take then r.trial.extractLsb' 0 32 - r.den else r.trial.extractLsb' 0 32
      bits := r.bits.extractLsb' 0 31 ++ 0#1
      q := r.nextQ
      out := if r.left = divLast then r.result else r.out } := by
  have hle := h.le
  have hne (x : BitVec 6) (hx : x.toNat = 1 ∨ 33 < x.toNat) : r.left ≠ x := by
    rintro rfl
    have hl := h.left
    omega
  unfold clock
  dsimp only
  rw [if_neg (hne divLoad (by decide)), if_neg (hne divPrep (by decide)),
    if_pos (hne divFinish (by decide))]

theorem Steps.step (h : Steps m d negative (k + 1) r) (i : DividerIn) :
    Steps m d negative k (r.clock i) := by
  have hle := h.le
  have hfed := h.fed.round 0 (by omega)
  rw [h.clock_eq i]
  refine ⟨by omega, ?_, h.den, h.neg, h.sat, ?_, h.round⟩
  · dsimp only
    rw [BitVec.toNat_sub, h.left]
    change (2 ^ 6 - 1 + (k + 1 + 1)) % 2 ^ 6 = k + 1
    omega
  · have hbits : (r.bits.extractLsb' 0 31 ++ 0#1 : Word).toNat = 2 * r.bits.toNat % 2 ^ 32 := by
      rw [append_toNat, extractLsb'_toNat_div, BitVec.toNat_ofNat]
      omega
    dsimp only
    rw [hbits]
    exact hfed

theorem Steps.result_toInt {n : Int} {d : Nat} (h : Steps n.natAbs d (decide (n < 0)) 1 r)
    (hd : 0 < d) : r.result.toInt = G3d.sat n d := by
  rw [sat_eq n hd]
  unfold result
  rw [h.sat, h.neg]
  simp only [decide_eq_true_eq]
  split
  next =>
    split
    · decide
    · decide
  next hlt =>
    have hm : n.natAbs / 2 ^ 31 < d := not_le.mp hlt
    have hq : r.nextQ.toNat = n.natAbs / d := congrArg Prod.snd (h.round hm).restoring_eq
    have hsmall : n.natAbs / d < 2 ^ 31 := by
      rw [Nat.div_lt_iff_lt_mul hd, Nat.mul_comm]
      exact (Nat.div_lt_iff_lt_mul (by norm_num)).mp hm
    have hint : r.nextQ.toInt = (n.natAbs / d : Nat) := by
      rw [BitVec.toInt_eq_toNat_of_lt (by omega), hq]
    split
    · rw [zero_sub, BitVec.toInt_neg, hint]
      exact i32_eq (by omega)
    · exact hint

end Step

theorem steps_after (r : DividerRtl) (hr : r.left = divLoad) (ins : Nat → DividerIn) {k : Nat}
    (hk : k ≤ 32) : Steps (ins 0).loadNum.toInt.natAbs (ins 0).loadDen.toNat (ins 0).loadNum.msb
      (32 - k) (r.after ins (k + 2)) := by
  induction k with
  | zero =>
    have hload : r.after ins 1 =
        { r with left := divPrep, num := (ins 0).loadNum, den := (ins 0).loadDen } := by
      change r.clock (ins 0) = _
      unfold clock
      rw [if_pos hr, hr]
      rfl
    have hstart := Steps.start (r.after ins 1) (by rw [hload]) (ins 1)
    rw [hload] at hstart
    change Steps _ _ _ 32 ((r.after ins 1).clock (ins 1))
    rw [hload]
    exact hstart
  | succ k ih =>
    have h := ih (by omega)
    rw [show 32 - k = 32 - (k + 1) + 1 by omega] at h
    exact h.step _

end DividerRtl

/-- The reference's divider, the emulator's and the serial one agree. -/
theorem dividers_saturate (n : BitVec 64) (d : Word) (hd : 0 < d.toInt) (r : DividerRtl)
    (hr : r.left = DividerRtl.divLoad) (ins : Nat → DividerIn) (hn : (ins 0).loadNum = n)
    (hden : (ins 0).loadDen = d) :
    let quotient := max (-2 ^ 31) (min (2 ^ 31 - 1) (n.toInt.tdiv d.toInt))
    divSat n.toInt d.toInt = quotient ∧ sat n.toInt d.toInt = quotient ∧
      (r.after ins 34).left = DividerRtl.divFinish ∧ (r.after ins 34).out.toInt = quotient := by
  have hsat : sat n.toInt d.toInt =
      max (-2 ^ 31) (min (2 ^ 31 - 1) (n.toInt.tdiv d.toInt)) := by
    unfold sat
    dsimp only
    split_ifs <;> omega
  have hrange := n.toInt_lt
  have hlow := n.le_toInt
  have hd' := d.toInt_lt
  have hnat : (d.toNat : Int) = d.toInt := by
    rw [BitVec.toInt_eq_toNat_cond] at hd ⊢
    split at hd
    · rw [if_pos ‹_›]
    · have := d.isLt
      omega
  have hsteps (k : Nat) (hk : k ≤ 32) := DividerRtl.steps_after r hr ins hk
  rw [hn, hden, BitVec.msb_eq_toInt] at hsteps
  have hlast : DividerRtl.Steps _ _ _ 1 (r.after ins 33) := hsteps 31 (by norm_num)
  have hdone : DividerRtl.Steps _ _ _ 0 (r.after ins 34) := hsteps 32 (by norm_num)
  have hout : (r.after ins 34).out = (r.after ins 33).result := by
    change ((r.after ins 33).clock (ins 33)).out = _
    rw [hlast.clock_eq]
    dsimp only
    rw [if_pos (BitVec.eq_of_toNat_eq hlast.left)]
  refine ⟨?_, hsat, BitVec.eq_of_toNat_eq hdone.left, ?_⟩
  · rw [divSat_eq ⟨hlow, hrange⟩ hd hd', hsat]
  · rw [hout, hlast.result_toInt (by omega), hnat, hsat]

theorem dividers_saturate_least : 0 < (1 : Word).toInt ∧
    divSat (BitVec.intMin 64).toInt (1 : Word).toInt = max (-2 ^ 31)
      (min (2 ^ 31 - 1) ((BitVec.intMin 64).toInt.tdiv (1 : Word).toInt)) := by
  have h := dividers_saturate (BitVec.intMin 64) 1 (by decide)
    ⟨35, 0, 0, false, false, 0, 0, 0, 0⟩ rfl (fun _ => ⟨BitVec.intMin 64, 1, false⟩) rfl rfl
  exact ⟨by decide, h.1⟩

end TinyProcessors.G3d
