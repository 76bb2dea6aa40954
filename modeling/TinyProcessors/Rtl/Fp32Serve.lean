import TinyProcessors.Lib.Serve
import TinyProcessors.Rtl.Fp32Wires

namespace TinyProcessors

namespace Fp32

def left (s : Fp32) : Nat :=
  match s.state with
  | .decode => 32
  | .divide | .sqrt => 4 + (if s.iteration = 0 then 64 else s.iteration.toNat)
  | .align => 6
  | .combine => 5
  | .normalize => if s.magnitude = 0 then 0 else if s.magnitude.getLsbD 79 then 3 else 4
  | .denormalize => if s.exponent.slt (-126) then 2 else 1
  | .intShift => 1
  | _ => 0

def kind (s : Fp32) : Serving :=
  match s.state with
  | .idle => .free
  | .response => .done
  | _ => .busy s.left

theorem kind_free_iff (s : Fp32) : s.kind = .free ↔ s.state = .idle := by
  unfold kind
  cases s.state <;> simp

theorem kind_done_iff (s : Fp32) : s.kind = .done ↔ s.state = .response := by
  unfold kind
  cases s.state <;> simp

def Sooner (k : Nat) (s : Fp32) : Prop := s.kind = .done ∨ ∃ k', k' < k ∧ s.kind = .busy k'

section Work

variable {s s' : Fp32}

theorem Sooner.finish (s : Fp32) (value : Word) (exceptions : BitVec 5) (badRequest : Bool) :
    Sooner k (s.finish value exceptions badRequest) := .inl rfl

theorem Sooner.normalize (hs : s.state = .normalize) (hk : 4 < k) : Sooner k s := by
  refine .inr ⟨s.left, ?_, ?_⟩
  · unfold left
    rw [hs]
    dsimp only
    split_ifs
    · omega
    · omega
    · omega
  · unfold kind
    rw [hs]

theorem sooner_denormalize (hs : s.state = .denormalize) (hk : 2 < k) : Sooner k s := by
  refine .inr ⟨s.left, ?_, ?_⟩
  · unfold left
    rw [hs]
    dsimp only
    split_ifs
    · omega
    · omega
  · unfold kind
    rw [hs]

theorem sooner_loop (hs : s.state = .divide ∨ s.state = .sqrt)
    (hk : 4 + (if s.iteration = 0 then 64 else s.iteration.toNat) < k) : Sooner k s := by
  refine .inr ⟨s.left, ?_, ?_⟩
  · unfold left
    rcases hs with hs | hs
    · rw [hs]
      exact hk
    · rw [hs]
      exact hk
  · unfold kind
    rcases hs with hs | hs
    · rw [hs]
    · rw [hs]

theorem Sooner.ite {c : Prop} [Decidable c] (h : Sooner k s) (h' : Sooner k s') :
    Sooner k (if c then s else s') := by
  split_ifs
  · exact h
  · exact h'

theorem sooner_load (s : Fp32) (lhsSign rhsSign : Bool) :
    Sooner 32 (s.loadOperands lhsSign rhsSign) := .inr ⟨6, by omega, rfl⟩

theorem decodeDiv_sooner (s : Fp32) : Sooner 32 s.decodeDiv :=
  .ite (.finish _ _ _ _) (.ite (.finish _ _ _ _) (.ite (.finish _ _ _ _) (.ite (.finish _ _ _ _)
    (.ite (.finish _ _ _ _) (sooner_loop (.inl rfl) (Nat.lt_succ_self 31))))))

theorem decodeSqrt_sooner (s : Fp32) : Sooner 32 s.decodeSqrt :=
  .ite (.finish _ _ _ _) (.ite (.finish _ _ _ _) (.ite (.finish _ _ _ _) (.ite (.finish _ _ _ _)
    (sooner_loop (.inr rfl) (Nat.lt_succ_self 31)))))

theorem decode_sooner (s : Fp32) : Sooner 32 s.decode := by
  have hadd : Sooner 32 s.decodeAdd :=
    .ite (.finish _ _ _ _) (.ite (.finish _ _ _ _) (.ite (.finish _ _ _ _) (sooner_load _ _ _)))
  have hmul : Sooner 32 s.decodeMul :=
    .ite (.finish _ _ _ _) (.ite (.finish _ _ _ _) (.ite (.finish _ _ _ _) (.ite (.finish _ _ _ _)
      (sooner_load _ _ _))))
  have hfrom : Sooner 32 s.decodeFromInt := .normalize rfl (by omega)
  have hto : Sooner 32 s.decodeToInt :=
    .ite (.finish _ _ _ _) (.ite (.finish _ _ _ _) (.inr ⟨1, by omega, rfl⟩))
  have hcompare : Sooner 32 s.decodeCompare := .ite (.finish _ _ _ _) (.finish _ _ _ _)
  have hminmax : Sooner 32 s.decodeMinMax :=
    .ite (.finish _ _ _ _) (.ite (.finish _ _ _ _) (.ite (.finish _ _ _ _) (.finish _ _ _ _)))
  exact .ite (.finish _ _ _ _) (.ite hadd (.ite hmul (.ite (decodeDiv_sooner s)
    (.ite (decodeSqrt_sooner s) (.ite hfrom (.ite hto (.ite hcompare hminmax)))))))

theorem iteration_sub_one (n : BitVec 6) (h : n ≠ 1) :
    (if n - 1 = 0 then 64 else (n - 1).toNat) < if n = 0 then 64 else n.toNat := by
  have hlt := n.isLt
  have hne : n - 1 ≠ 0 := fun hz => h (sub_eq_zero.mp hz)
  have hsub : (n - 1).toNat = (63 + n.toNat) % 64 := by
    rw [BitVec.toNat_sub]
    rfl
  rw [if_neg hne, hsub]
  split_ifs with hz
  · omega
  · have hpos : n.toNat ≠ 0 := fun hz' => hz (BitVec.eq_of_toNat_eq hz')
    omega

theorem work_sooner (hk : s.kind = .busy k) : Sooner k s.work := by
  unfold work
  have hleft : s.state ≠ .idle → s.state ≠ .response → k = s.left := by
    intro hi hr
    unfold kind at hk
    split at hk
    next h => exact absurd h hi
    next h => exact absurd h hr
    next => exact (Serving.busy.inj hk).symm
  unfold left at hleft
  cases hs : s.state with
  | idle =>
    unfold kind at hk
    rw [hs] at hk
    cases hk
  | response => exact .inl (by unfold kind; rw [hs])
  | decode =>
    rw [hs] at hleft
    obtain rfl : k = 32 := hleft (by rintro ⟨⟩) (by rintro ⟨⟩)
    exact decode_sooner s
  | align =>
    rw [hs] at hleft
    obtain rfl : k = 6 := hleft (by rintro ⟨⟩) (by rintro ⟨⟩)
    exact .inr ⟨5, by omega, rfl⟩
  | combine =>
    rw [hs] at hleft
    obtain rfl : k = 5 := hleft (by rintro ⟨⟩) (by rintro ⟨⟩)
    dsimp only
    exact .ite (.normalize rfl (by omega))
      (.ite (.normalize rfl (by omega)) (.normalize rfl (by omega)))
  | normalize =>
    rw [hs] at hleft
    obtain rfl : k = if s.magnitude = 0 then 0 else if s.magnitude.getLsbD 79 then 3 else 4 :=
      hleft (by rintro ⟨⟩) (by rintro ⟨⟩)
    dsimp only
    unfold Fp32.normalize
    by_cases hz : s.magnitude = 0
    · rw [if_pos hz, if_pos hz]
      exact .finish _ _ _ _
    · rw [if_neg hz, if_neg hz]
      cases htop : s.magnitude.getLsbD 79 with
      | true =>
        rw [if_pos rfl, if_neg (by decide)]
        exact sooner_denormalize rfl (by omega)
      | false =>
        rw [if_neg (by decide), if_pos (by decide)]
        refine .inr ⟨3, by omega, ?_⟩
        -- the shift has put a bit at the top
        obtain ⟨hshift, hle⟩ := normalized_toNat s.magnitude hz
        have htop' : (s.magnitude <<< s.normalizeShift).getLsbD 79 = true := by
          rw [top_iff]
          exact hle.trans_eq hshift.symm
        have hne : s.magnitude <<< s.normalizeShift ≠ 0 := by
          intro h0
          rw [h0] at htop'
          exact absurd htop' (by decide)
        unfold kind left
        dsimp only
        rw [hs]
        dsimp only
        rw [if_neg hne, if_pos htop']
  | denormalize =>
    rw [hs] at hleft
    obtain rfl : k = if s.exponent.slt (-126) then 2 else 1 :=
      hleft (by rintro ⟨⟩) (by rintro ⟨⟩)
    dsimp only
    unfold denormalize
    cases hlow : s.exponent.slt (-126) with
    | true =>
      rw [if_pos rfl, if_pos rfl]
      refine .inr ⟨1, by omega, ?_⟩
      unfold kind left
      dsimp only
      rw [hs]
      rfl
    | false =>
      rw [if_neg (by decide), if_neg (by decide)]
      exact .inr ⟨0, by omega, rfl⟩
  | round => exact .ite (.finish _ _ _ _) (.finish _ _ _ _)
  | divide =>
    rw [hs] at hleft
    obtain rfl : k = 4 + (if s.iteration = 0 then 64 else s.iteration.toNat) :=
      hleft (by rintro ⟨⟩) (by rintro ⟨⟩)
    dsimp only
    unfold divide
    dsimp only
    by_cases hone : s.iteration = 1
    · rw [if_pos hone, hone]
      exact .normalize rfl (by decide)
    · rw [if_neg hone]
      exact sooner_loop (.inl hs) (Nat.add_lt_add_left (iteration_sub_one _ hone) 4)
  | sqrt =>
    rw [hs] at hleft
    obtain rfl : k = 4 + (if s.iteration = 0 then 64 else s.iteration.toNat) :=
      hleft (by rintro ⟨⟩) (by rintro ⟨⟩)
    dsimp only
    unfold sqrt
    dsimp only
    by_cases hone : s.iteration = 1
    · rw [if_pos hone, hone]
      exact .normalize rfl (by decide)
    · rw [if_neg hone]
      exact sooner_loop (.inr hs) (Nat.add_lt_add_left (iteration_sub_one _ hone) 4)
  | intShift =>
    rw [hs] at hleft
    obtain rfl : k = 1 := hleft (by rintro ⟨⟩) (by rintro ⟨⟩)
    exact .inr ⟨0, by omega, rfl⟩
  | intRound => exact .ite (.finish _ _ _ _) (.finish _ _ _ _)

theorem clock_work (hi : s.state ≠ .idle) (hr : s.state ≠ .response) (h : i.reset = false) :
    s.clock i = s.work := by
  unfold clock
  rw [h, if_neg (by decide)]
  split
  next hs => exact absurd hs hi
  next hs => exact absurd hs hr
  next => rfl

theorem server : Server clock kind (fun i => i.reset = true) (fun i => i.reqValid = true)
    (fun i => i.respReady = true) 32 := by
  refine ⟨fun {i s} hr => ?_, fun {s i} hs hr ha => ?_, fun {s i} hs hr ha => ?_,
    fun {s k i} hs hr => ?_, fun {s i} hs hr ht => ?_, fun {s i} hs hr ht => ?_⟩
  · unfold clock
    rw [if_pos hr]
    rfl
  · refine ⟨32, le_refl 32, ?_⟩
    unfold clock
    rw [if_neg hr, (kind_free_iff s).mp hs]
    dsimp only
    rw [if_pos ha]
    rfl
  · have hstay : s.clock i = s := by
      unfold clock
      rw [if_neg hr, (kind_free_iff s).mp hs]
      exact if_neg ha
    rw [hstay]
    exact hs
  · have hi : s.state ≠ .idle := by
      rw [ne_eq, ← kind_free_iff, hs]
      rintro ⟨⟩
    have hresp : s.state ≠ .response := by
      rw [ne_eq, ← kind_done_iff, hs]
      rintro ⟨⟩
    rw [clock_work hi hresp (Bool.not_eq_true _ ▸ hr)]
    exact work_sooner hs
  · unfold clock
    rw [if_neg hr, (kind_done_iff s).mp hs]
    exact if_neg ht
  · unfold clock
    rw [if_neg hr, (kind_done_iff s).mp hs]
    dsimp only
    rw [if_pos ht]
    rfl

end Work

section Runs

variable (ins : Nat → FpPort)

def after (n : Nat) : Fp32 := states clock reset ins n

def accepts (n : Nat) : Prop := (ins n).reqValid = true ∧ (after ins n).reqReady (ins n) = true

def responds (n : Nat) : Prop := (after ins n).respValid (ins n) = true

def takes (n : Nat) : Prop := responds ins n ∧ (ins n).respReady = true

theorem accepts_iff (n : Nat) : accepts ins n ↔
    Accepts clock kind (fun i => i.reset = true) (fun i => i.reqValid = true) reset ins n := by
  unfold accepts Accepts reqReady after
  rw [kind_free_iff, Bool.and_eq_true, decide_eq_true_eq, Bool.not_eq_true', ← Bool.not_eq_true]
  tauto

theorem responds_iff (n : Nat) :
    responds ins n ↔ Responds clock kind (fun i => i.reset = true) reset ins n := by
  unfold responds Responds respValid after
  rw [kind_done_iff, Bool.and_eq_true, decide_eq_true_eq, Bool.not_eq_true', ← Bool.not_eq_true]

/-- The handshake of the unit, whatever is asked, stalled and reset. -/
theorem fp32_handshake :
    (∀ n, accepts ins n → ∃ k, 1 ≤ k ∧ k ≤ 34 ∧
      ((ins (n + k)).reset = true ∨ responds ins (n + k)) ∧
      ∀ j, 1 ≤ j → j < k → (ins (n + j)).reset = false ∧ ¬responds ins (n + j)) ∧
    (∀ n, responds ins n → ¬takes ins n → (ins (n + 1)).reset = false →
      responds ins (n + 1) ∧ (after ins (n + 1)).result = (after ins n).result ∧
        (after ins (n + 1)).flags = (after ins n).flags ∧
        (after ins (n + 1)).error = (after ins n).error) ∧
    (∀ n m, accepts ins n → n < m → accepts ins m →
      ∃ j, (n < j ∧ j < m) ∧ (takes ins j ∨ (ins j).reset = true)) ∧
    (∀ m, responds ins m → ∃ n, n < m ∧ accepts ins n ∧
      ∀ j, n < j → j < m → ¬takes ins j ∧ (ins j).reset = false) ∧
    (∀ m m', takes ins m → m < m' → responds ins m' → ∃ n, (m < n ∧ n < m') ∧ accepts ins n) := by
  have hfree : reset.kind = .free := rfl
  have hpending (m : Nat) (hm : responds ins m) : ∃ n, n < m ∧ accepts ins n ∧
      ∀ j, n < j → j < m → ¬takes ins j ∧ (ins j).reset = false := by
    have hd := ((responds_iff ins m).mp hm).1
    have hbusy : kind (states clock reset ins m) ≠ .free := by
      rw [hd]
      rintro ⟨⟩
    obtain ⟨n, hn, ha, hbetween⟩ := server.pending hfree hbusy
    refine ⟨n, hn, (accepts_iff ins n).mpr ha, fun j hj hj' => ?_⟩
    obtain ⟨ht, hr⟩ := hbetween j hj hj'
    exact ⟨fun h => ht ⟨(responds_iff ins j).mp h.1, h.2⟩, Bool.not_eq_true _ ▸ hr⟩
  refine ⟨fun n ha => ?_, fun n hresp ht hr => ?_, fun n m ha hm hb => ?_, hpending,
    fun m m' ht hm hresp => ?_⟩
  · obtain ⟨k, hk, hk', hend, hbefore⟩ := server.answers ((accepts_iff ins n).mp ha)
    refine ⟨k, hk, hk', hend.imp id (responds_iff ins _).mpr, fun j hj hj' => ?_⟩
    obtain ⟨hr, hno⟩ := hbefore j hj hj'
    exact ⟨Bool.not_eq_true _ ▸ hr, mt (responds_iff ins _).mp hno⟩
  · have hresp' := (responds_iff ins n).mp hresp
    have hsame := server.holds hresp' fun h => ht ⟨hresp, h⟩
    refine ⟨(responds_iff ins (n + 1)).mpr ⟨?_, ?_⟩, congrArg result hsame, congrArg flags hsame,
      congrArg error hsame⟩
    · rw [hsame]
      exact hresp'.1
    · exact Bool.eq_false_iff.mp hr
  · by_contra hno
    push Not at hno
    refine server.occupied ((accepts_iff ins n).mp ha) hm (fun j hj hj' => ?_)
      ((accepts_iff ins m).mp hb).1
    obtain ⟨ht, hr⟩ := hno j ⟨hj, hj'⟩
    exact ⟨fun h => ht ⟨(responds_iff ins j).mpr h.1, h.2⟩, hr⟩
  · obtain ⟨n, hn, ha, hbetween⟩ := hpending m' hresp
    have hidle := ((accepts_iff ins n).mp ha).1
    have hdone := ((responds_iff ins m).mp ht.1).1
    refine ⟨n, ⟨?_, hn⟩, ha⟩
    by_contra hle
    rcases lt_or_eq_of_le (not_lt.mp hle) with hlt | heq
    · exact (hbetween m hlt hm).1 ht
    · rw [heq, hdone] at hidle
      cases hidle

end Runs

end Fp32

end TinyProcessors
