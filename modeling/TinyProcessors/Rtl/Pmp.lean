import TinyProcessors.Emu.Hart
import TinyProcessors.Lib.Bits
import TinyProcessors.Lib.Logic

namespace TinyProcessors

/-- The bytes `[start, stop)`. -/
structure ByteRange where
  start : Nat
  stop : Nat

/-- Every byte of an access of `width` bytes is in the range. -/
def ByteRange.Covers (r : ByteRange) (address width : Nat) : Prop :=
  ∀ b, address ≤ b → b < address + width → r.start ≤ b ∧ b < r.stop

/-- The bytes of entry `i`, by its addressing mode. -/
def pmpRange (h : Hart) (i : Fin 8) : Option ByteRange :=
  let address := (h.pmpaddr i).toNat
  match (h.pmpcfg i &&& 0x18).toNat with
  | 0x08 => some ⟨if i.val = 0 then 0 else 4 * (h.pmpaddr (i - 1)).toNat, 4 * address⟩
  | 0x10 => some ⟨4 * address, 4 * address + 4⟩
  | 0x18 =>
    let size := 2 ^ (trailingOnes 32 address + 3)
    some ⟨4 * address / size * size, 4 * address / size * size + size⟩
  | _ => none

/-- Entry `i` covers an access. -/
def PmpCovers (h : Hart) (address width : Nat) (i : Fin 8) : Prop :=
  ∃ r, pmpRange h i = some r ∧ r.Covers address width

/-- An access that PMP grants, by the first entry that covers it. -/
def PmpGrants (priv : Priv) (h : Hart) (address width : Nat) (need : BitVec 3) : Prop :=
  (∃ i, PmpCovers h address width i ∧ (∀ j < i, ¬PmpCovers h address width j) ∧
    (priv = .machine ∧ (h.pmpcfg i).getLsbD 7 = false ∨
      (h.pmpcfg i).setWidth 3 &&& need = need)) ∨
  (∀ i, ¬PmpCovers h address width i) ∧ priv = .machine

def rtlPmpMatch (pmpcfg : Fin 8 → BitVec 8) (pmpaddr : Fin 8 → Word) (pmpWord : Word)
    (entry : Fin 8) : Bool :=
  let pmpLow := if entry = 0 then 0 else pmpaddr (entry - 1)
  let pmpOnes := pmpaddr entry ^^^ (pmpaddr entry + 1)
  match ((pmpcfg entry).extractLsb' 3 2).toNat with
  | 1 => pmpLow ≤ pmpWord && pmpWord < pmpaddr entry
  | 2 => pmpWord = pmpaddr entry
  | 3 => (pmpWord ^^^ pmpaddr entry) &&& ~~~pmpOnes = 0
  | _ => false

/-- The RTL's check, `pmp_ok`: a loop over the entries that keeps the first match. -/
def rtlPmpOk (pmpPriv : BitVec 2) (pmpcfg : Fin 8 → BitVec 8) (pmpaddr : Fin 8 → Word)
    (pmpAddr : Word) (pmpNeed : BitVec 3) : Bool :=
  let pmpWord : Word := (pmpAddr.extractLsb' 2 30).setWidth 32
  let final := (List.finRange 8).foldl (fun (s : Bool × Bool) entry =>
    if rtlPmpMatch pmpcfg pmpaddr pmpWord entry && !s.2 then
      ((pmpPriv = 3 && !(pmpcfg entry).getLsbD 7) ||
        (pmpcfg entry).setWidth 3 &&& pmpNeed = pmpNeed, true)
    else s) (pmpPriv = 3, false)
  final.1

section Ranges

theorem ByteRange.covers_words (hw : width = 1 ∨ width = 2 ∨ width = 4) (ha : address % width = 0) :
    (ByteRange.mk (4 * s) (4 * e)).Covers address width ↔ s ≤ address / 4 ∧ address / 4 < e := by
  constructor
  · intro h
    have hb := h address (by omega) (by omega)
    dsimp only at hb
    omega
  · intro h b hb hb'
    dsimp only
    rcases hw with rfl | rfl | rfl
    · omega
    · omega
    · omega

theorem napot_match (word address : Word) :
    (word ^^^ address) &&& ~~~(address ^^^ (address + 1)) = 0 ↔
      word.toNat / 2 ^ (trailingOnes 32 address.toNat + 1) =
        address.toNat / 2 ^ (trailingOnes 32 address.toNat + 1) := by
  have hones : address ^^^ (address + 1) =
      BitVec.ofNat 32 (2 ^ min (trailingOnes 32 address.toNat + 1) 32 - 1) := by
    apply BitVec.eq_of_toNat_eq
    have hlt : 2 ^ min (trailingOnes 32 address.toNat + 1) 32 - 1 < 2 ^ 32 := by
      have := Nat.pow_le_pow_right (show 0 < 2 by omega)
        (Nat.min_le_right (trailingOnes 32 address.toNat + 1) 32)
      omega
    rw [BitVec.toNat_xor, BitVec.toNat_add, BitVec.toNat_ofNat, Nat.mod_eq_of_lt hlt]
    exact xor_succ 32 _ address.isLt
  rw [hones]
  refine (xor_and_not_low word address _).trans ?_
  have hle := trailingOnes_le 32 address.toNat
  by_cases hk : trailingOnes 32 address.toNat + 1 ≤ 32
  · rw [Nat.min_eq_left hk]
  · -- all ones: every word of 32 bits is in the block, with either exponent
    rw [Nat.min_eq_right (by omega), show trailingOnes 32 address.toNat + 1 = 33 by omega]
    have hw := word.isLt
    have ha := address.isLt
    omega

theorem napot_covers (hw : width = 1 ∨ width = 2 ∨ width = 4) (ha : at_ % width = 0)
    (address k : Nat) :
    (ByteRange.mk (4 * address / 2 ^ (k + 3) * 2 ^ (k + 3))
      (4 * address / 2 ^ (k + 3) * 2 ^ (k + 3) + 2 ^ (k + 3))).Covers at_ width ↔
      at_ / 4 / 2 ^ (k + 1) = address / 2 ^ (k + 1) := by
  have hpow : 2 ^ (k + 3) = 4 * 2 ^ (k + 1) := by
    rw [show k + 3 = (k + 1) + 2 by omega, pow_add]
    ring
  have hdiv : 4 * address / 2 ^ (k + 3) = address / 2 ^ (k + 1) := by
    rw [hpow, Nat.mul_div_mul_left _ _ (by omega)]
  have hpos : 0 < 2 ^ (k + 1) := Nat.two_pow_pos _
  rw [hdiv, hpow]
  generalize 2 ^ (k + 1) = n at hpos
  generalize address / n = q
  have hstart : q * (4 * n) = 4 * (q * n) := by ring
  have hstop : q * (4 * n) + 4 * n = 4 * ((q + 1) * n) := by ring
  rw [hstop, hstart, ByteRange.covers_words hw ha]
  rw [Nat.div_eq_iff hpos]
  have hmul : (q + 1) * n = q * n + n := by ring
  omega

theorem pmpMode_cases (cfg : BitVec 8) :
    cfg &&& 0x18 = 0 ∨ cfg &&& 0x18 = 8 ∨ cfg &&& 0x18 = 16 ∨ cfg &&& 0x18 = 24 := by
  revert cfg
  decide

theorem pmpMatches_iff (hw : width = 1 ∨ width = 2 ∨ width = 4) (h : Hart) (address : Word)
    (ha : address.toNat % width = 0) (i : Fin 8) :
    pmpMatches h (address >>> 2) i = true ↔ PmpCovers h address.toNat width i := by
  have hword : (address >>> 2).toNat = address.toNat / 4 := by
    rw [BitVec.toNat_ushiftRight, Nat.shiftRight_eq_div_pow]
  unfold PmpCovers pmpRange pmpMatches
  rcases pmpMode_cases (h.pmpcfg i) with hm | hm | hm | hm
  · simp only [hm]
    simp
  · simp only [hm, BitVec.reduceToNat, Option.some.injEq, exists_eq_left']
    by_cases hi : i.val = 0
    · rw [if_pos hi, ByteRange.covers_words (s := 0) hw ha]
      simp [hi, BitVec.lt_def, hword]
    · rw [if_neg hi, ByteRange.covers_words hw ha]
      simp [hi, BitVec.lt_def, BitVec.le_def, hword]
  · simp only [hm, BitVec.reduceToNat, Option.some.injEq, exists_eq_left']
    rw [show 4 * (h.pmpaddr i).toNat + 4 = 4 * ((h.pmpaddr i).toNat + 1) by ring,
      ByteRange.covers_words hw ha]
    simp [BitVec.toNat_eq, hword]
    omega
  · simp only [hm, BitVec.reduceToNat, Option.some.injEq, exists_eq_left']
    rw [napot_covers hw ha, ← hword, ← napot_match]
    simp

end Ranges

def Priv.code : Priv → BitVec 2
  | .user => 0
  | .supervisor => 1
  | .machine => 3

theorem Priv.code_eq_three (priv : Priv) : priv.code = 3 ↔ priv = .machine := by
  cases priv <;> decide

theorem rtlPmpMatch_eq (h : Hart) (word : Word) (i : Fin 8) :
    rtlPmpMatch h.pmpcfg h.pmpaddr word i = pmpMatches h word i := by
  have hmode : ∀ cfg : BitVec 8, cfg.extractLsb' 3 2 = ((cfg &&& 0x18) >>> 3).setWidth 2 := by
    decide
  have hlow : (if i = 0 then (0 : Word) else h.pmpaddr (i - 1)) ≤ word ↔
      i.val = 0 ∨ h.pmpaddr (i - 1) ≤ word := by
    by_cases hi : i = 0
    · simp [hi, BitVec.le_def]
    · simp [hi]
  unfold rtlPmpMatch pmpMatches
  rw [hmode]
  rcases pmpMode_cases (h.pmpcfg i) with hm | hm | hm | hm
  · simp only [hm]
    rfl
  · simp only [hm, hlow]
    simp
  · simp only [hm]
    rfl
  · simp only [hm]
    rfl

theorem pmp_locked (cfg : BitVec 8) : cfg &&& 0x80 = 0 ↔ cfg.getLsbD 7 = false := by
  revert cfg
  decide

theorem pmp_granted (cfg : BitVec 8) (need : BitVec 3) :
    cfg &&& need.setWidth 8 = need.setWidth 8 ↔ cfg.setWidth 3 &&& need = need := by
  revert cfg need
  decide

theorem rtlPmpOk_eq (priv : Priv) (h : Hart) (address : Word) (need : BitVec 3) :
    rtlPmpOk priv.code h.pmpcfg h.pmpaddr address need =
      pmpAllows priv h address (need.setWidth 8) := by
  have hword : (address.extractLsb' 2 30).setWidth 32 = address >>> 2 := by
    apply BitVec.eq_of_toNat_eq
    have := address.isLt
    simp only [BitVec.toNat_setWidth, BitVec.extractLsb'_toNat, BitVec.toNat_ushiftRight,
      Nat.shiftRight_eq_div_pow]
    omega
  unfold rtlPmpOk pmpAllows
  simp only [hword]
  rw [foldl_first]
  rw [show rtlPmpMatch h.pmpcfg h.pmpaddr (address >>> 2) = pmpMatches h (address >>> 2) from
    funext (rtlPmpMatch_eq h _)]
  cases (List.finRange 8).find? (pmpMatches h (address >>> 2)) with
  | none => simp only [Priv.code_eq_three]
  | some i => simp only [Priv.code_eq_three, pmp_locked, pmp_granted, Bool.decide_eq_false]

/-- Both checks grant what the ranges of bytes say. -/
theorem pmp_byte_ranges (priv : Priv) (h : Hart) (need : BitVec 3) (address : Word) (width : Nat)
    (hw : width = 1 ∨ width = 2 ∨ width = 4) (ha : address.toNat % width = 0) :
    (pmpAllows priv h address (need.setWidth 8) = true ↔
      PmpGrants priv h address.toNat width need) ∧
    rtlPmpOk priv.code h.pmpcfg h.pmpaddr address need =
      pmpAllows priv h address (need.setWidth 8) := by
  refine ⟨?_, rtlPmpOk_eq priv h address need⟩
  have hiff := pmpMatches_iff hw h address ha
  unfold pmpAllows PmpGrants
  rw [← Fin.find?_eq_find?_finRange]
  cases hf : Fin.find? (pmpMatches h (address >>> 2)) with
  | none =>
    have hnone : ∀ i, ¬PmpCovers h address.toNat width i := by
      intro i hi
      have := Fin.eq_false_of_find?_eq_none hf i
      rw [(hiff i).mpr hi] at this
      cases this
    constructor
    · intro hp
      exact .inr ⟨hnone, of_decide_eq_true hp⟩
    · rintro (⟨i, hi, -⟩ | ⟨-, hp⟩)
      · exact absurd hi (hnone i)
      · exact decide_eq_true hp
  | some i =>
    obtain ⟨hi, hmin⟩ := Fin.find?_eq_some_iff.mp hf
    have hfirst : ∀ j < i, ¬PmpCovers h address.toNat width j := by
      intro j hj hc
      have := hmin j hj
      rw [(hiff j).mpr hc] at this
      cases this
    constructor
    · intro hp
      exact .inl ⟨i, (hiff i).mp hi, hfirst, by
        simpa only [pmp_locked, pmp_granted, Bool.or_eq_true, Bool.and_eq_true,
          decide_eq_true_eq] using hp⟩
    · rintro (⟨j, hj, hjmin, hp⟩ | ⟨hno, -⟩)
      · obtain hlt | rfl | hlt := lt_trichotomy i j
        · exact absurd ((hiff i).mp hi) (hjmin i hlt)
        · simpa only [pmp_locked, pmp_granted, Bool.or_eq_true, Bool.and_eq_true,
            decide_eq_true_eq] using hp
        · exact absurd hj (hfirst j hlt)
      · exact absurd ((hiff i).mp hi) (hno i)

/-- Everything open to user mode through an entry that is all ones. -/
def napotHart : Hart where
  x := fun _ => 0
  pc := 0
  fp := FState.zero
  mstatus := 0
  mpp := .user
  priv := .user
  mepc := 0
  satp := 0
  pmpcfg := fun i => if i = 7 then 0x1f else 0
  pmpaddr := fun _ => 0xffffffff

theorem pmp_byte_ranges_napot : PmpGrants .user napotHart 0x80001002 2 3 :=
  (pmp_byte_ranges .user napotHart 3 0x80001002 2 (by decide) (by decide)).1.mp
    (by decide)

end TinyProcessors
