import TinyProcessors.Lib.Logic
import TinyProcessors.G3d.Assembler

namespace TinyProcessors.G3d

inductive Nest (pc : Nat) : Op → List OpenBlock → List OpenBlock → List (Nat × Nat) → Prop
  | ifThen : Nest pc .ifThen bs (⟨false, pc, none⟩ :: bs) []
  | otherwise : Nest pc .otherwise (⟨false, p, none⟩ :: bs) (⟨false, p, some pc⟩ :: bs) [(p, pc)]
  | endIf : Nest pc .endIf (⟨false, p, e⟩ :: bs) bs [(e.getD p, pc)]
  | loop : Nest pc .loop bs (⟨true, pc, none⟩ :: bs) []
  | endLoop : Nest pc .endLoop (⟨true, p, e⟩ :: bs) bs [(pc, p + 1)]
  | leave (h : bs.any (·.loop) = true) : Nest pc .leave bs bs []
  | stop : Nest pc .stop bs bs []
  | lane : Nest pc (.lane o) bs bs []

theorem Nest.of_ok (h : nest pc o bs = .ok (bs', ps)) : Nest pc o bs bs' ps := by
  cases o with
  | ifThen =>
    cases h
    exact .ifThen
  | loop =>
    cases h
    exact .loop
  | stop =>
    cases h
    exact .stop
  | lane o =>
    cases h
    exact .lane
  | otherwise =>
    simp only [nest] at h
    split at h
    · cases h
      exact .otherwise
    · cases h
  | endIf =>
    simp only [nest] at h
    split at h
    · cases h
      exact .endIf
    · cases h
  | endLoop =>
    simp only [nest] at h
    split at h
    · cases h
      exact .endLoop
    · cases h
  | leave =>
    simp only [nest] at h
    split at h
    next hl =>
      cases h
      exact .leave hl
    · cases h

structure Listing where
  os : List Op
  blocks : Nat → List OpenBlock
  start : blocks 0 = []
  step : ∀ pc o, os[pc]? = some o → ∃ ps, Nest pc o (blocks pc) (blocks (pc + 1)) ps
  depth : ∀ pc, pc ≤ os.length → (blocks pc).length ≤ 8
  closed : blocks os.length = []

def OpenBlock.first (b : OpenBlock) : Nat := b.elsePc.getD b.pc + 1

namespace Listing

variable (L : Listing)

def Settles (pc p t : Nat) : Prop :=
  ∃ o ps, L.os[pc]? = some o ∧ Nest pc o (L.blocks pc) (L.blocks (pc + 1)) ps ∧ (p, t) ∈ ps

structure Region (lo hi : Nat) : Prop where
  le : lo ≤ hi
  same : L.blocks lo = L.blocks hi
  stays : ∀ j, lo ≤ j → j ≤ hi → L.blocks hi <:+ L.blocks j

structure Opened (b : OpenBlock) (bs : List OpenBlock) (k : Nat) : Prop where
  below : L.blocks b.pc = bs
  first_le : b.first ≤ k
  first_eq : L.blocks b.first = b :: bs
  stays : ∀ j, b.first ≤ j → j ≤ k → b :: bs <:+ L.blocks j
  opener : L.os[b.pc]? = some (if b.loop then .loop else .ifThen)
  no_else : b.loop = true → b.elsePc = none
  else_line : ∀ q, b.elsePc = some q →
    L.os[q]? = some .otherwise ∧ L.blocks q = ⟨false, b.pc, none⟩ :: bs

variable {L}

theorem Opened.extend (h : L.Opened b bs k) (hs : b :: bs <:+ L.blocks (k + 1)) :
    L.Opened b bs (k + 1) := by
  refine { h with first_le := ?_, stays := ?_ }
  · exact le_trans h.first_le (Nat.le_succ k)
  · intro j hj hk
    rcases Nat.lt_or_ge k j with hlt | hle
    · have he : j = k + 1 := by omega
      rwa [he]
    · exact h.stays j hj hle

theorem opened (k : Nat) (hk : k ≤ L.os.length) (h : b :: bs <:+ L.blocks k) :
    L.Opened b bs k := by
  induction k generalizing b bs with
  | zero =>
    rw [L.start] at h
    cases List.suffix_nil.mp h
  | succ k ih =>
    obtain ⟨o, ho⟩ : ∃ o, L.os[k]? = some o := ⟨_, List.getElem?_eq_getElem (by omega)⟩
    obtain ⟨ps, hn⟩ := L.step k o ho
    -- a block that was there before stays as it was; a new one starts here
    have old (h' : b :: bs <:+ L.blocks k) : L.Opened b bs (k + 1) :=
      (ih (by omega) h').extend h
    generalize hb : L.blocks k = before at hn old
    generalize ha : L.blocks (k + 1) = after at hn h
    cases hn with
    | ifThen | loop =>
      rcases List.suffix_cons_iff.mp h with he | hs
      · cases he
        refine ⟨hb, le_refl _, ha, ?_, ho, fun _ => rfl, fun q hq => by cases hq⟩
        intro j hj hjk
        have he : j = k + 1 := Nat.le_antisymm hjk hj
        rw [he, ha]
      · exact old hs
    | otherwise =>
      rcases List.suffix_cons_iff.mp h with he | hs
      · cases he
        have ht := ih (by omega) (by rw [hb])
        refine ⟨ht.below, le_refl _, ha, ?_, ht.opener, ?_, ?_⟩
        · intro j hj hjk
          have he : j = k + 1 := Nat.le_antisymm hjk hj
          rw [he, ha]
        · intro hl
          cases hl
        · rintro q ⟨⟩
          exact ⟨ho, hb⟩
      · exact old (hs.trans (List.suffix_cons _ _))
    | endIf | endLoop => exact old (h.trans (List.suffix_cons _ _))
    | leave | stop | lane => exact old h

theorem lt_length (h : L.os[pc]? = some o) : pc < L.os.length := by
  obtain ⟨hlt, _⟩ := List.getElem?_eq_some_iff.mp h
  exact hlt

theorem top_opened (h : L.os[pc]? = some o) (hb : L.blocks pc = b :: bs) : L.Opened b bs pc := by
  apply opened pc (le_of_lt (lt_length h))
  rw [hb]

theorem Opened.region (h : L.Opened b bs k) (hb : L.blocks k = b :: bs) : L.Region b.first k := by
  refine ⟨h.first_le, h.first_eq.trans hb.symm, ?_⟩
  rw [hb]
  exact h.stays

theorem closes (hs : b :: bs <:+ L.blocks j) (hj : j ≤ L.os.length) :
    ∃ k o ps, j ≤ k ∧ L.os[k]? = some o ∧ L.blocks k = b :: bs ∧
      Nest k o (L.blocks k) (L.blocks (k + 1)) ps ∧ ¬b :: bs <:+ L.blocks (k + 1) := by
  obtain ⟨d, hd⟩ := Nat.exists_eq_add_of_le hj
  induction d generalizing j with
  | zero =>
    have he : j = L.os.length := hd.symm
    rw [he, L.closed] at hs
    cases List.suffix_nil.mp hs
  | succ d ih =>
    by_cases hnext : b :: bs <:+ L.blocks (j + 1)
    · obtain ⟨k, o, ps, hk, h⟩ := ih hnext (by omega) (by omega)
      exact ⟨k, o, ps, by omega, h⟩
    · obtain ⟨o, ho⟩ : ∃ o, L.os[j]? = some o := ⟨_, List.getElem?_eq_getElem (by omega)⟩
      obtain ⟨ps, hn⟩ := L.step j o ho
      refine ⟨j, o, ps, le_refl j, ho, ?_, hn, hnext⟩
      generalize L.blocks j = before at hn hs ⊢
      generalize L.blocks (j + 1) = after at hn hnext
      cases hn with
      | ifThen | loop => exact absurd (hs.trans (List.suffix_cons _ _)) hnext
      | otherwise =>
        rcases List.suffix_cons_iff.mp hs with he | hs'
        · exact he.symm
        · exact absurd (hs'.trans (List.suffix_cons _ _)) hnext
      | endIf | endLoop =>
        rcases List.suffix_cons_iff.mp hs with he | hs'
        · exact he.symm
        · exact absurd hs' hnext
      | leave | stop | lane => exact absurd hs hnext

theorem step_ifThen (h : L.os[pc]? = some .ifThen) :
    L.blocks (pc + 1) = ⟨false, pc, none⟩ :: L.blocks pc := by
  obtain ⟨ps, hn⟩ := L.step pc _ h
  generalize L.blocks (pc + 1) = after at hn ⊢
  cases hn
  rfl

theorem step_loop (h : L.os[pc]? = some .loop) :
    L.blocks (pc + 1) = ⟨true, pc, none⟩ :: L.blocks pc := by
  obtain ⟨ps, hn⟩ := L.step pc _ h
  generalize L.blocks (pc + 1) = after at hn ⊢
  cases hn
  rfl

theorem step_otherwise (h : L.os[pc]? = some .otherwise) :
    ∃ p bs, L.blocks pc = ⟨false, p, none⟩ :: bs ∧ L.blocks (pc + 1) = ⟨false, p, some pc⟩ :: bs ∧
      L.Settles pc p pc := by
  obtain ⟨ps, hn⟩ := L.step pc _ h
  have hn' := hn
  generalize hb : L.blocks pc = before at hn
  generalize ha : L.blocks (pc + 1) = after at hn
  cases hn with
  | otherwise => exact ⟨_, _, rfl, rfl, _, _, h, hn', List.mem_singleton_self _⟩

theorem step_endIf (h : L.os[pc]? = some .endIf) :
    ∃ b bs, L.blocks pc = b :: bs ∧ b.loop = false ∧ L.blocks (pc + 1) = bs := by
  obtain ⟨ps, hn⟩ := L.step pc _ h
  generalize hb : L.blocks pc = before at hn
  generalize ha : L.blocks (pc + 1) = after at hn
  cases hn with
  | endIf => exact ⟨_, _, rfl, rfl, rfl⟩

theorem step_endLoop (h : L.os[pc]? = some .endLoop) :
    ∃ p bs, L.blocks pc = ⟨true, p, none⟩ :: bs ∧ L.blocks (pc + 1) = bs ∧
      L.Settles pc pc (p + 1) := by
  obtain ⟨ps, hn⟩ := L.step pc _ h
  have hn' := hn
  generalize hb : L.blocks pc = before at hn
  generalize ha : L.blocks (pc + 1) = after at hn
  cases hn with
  | @endLoop p e =>
    have he : e = none := (top_opened h hb).no_else rfl
    rw [he]
    exact ⟨p, after, rfl, rfl, _, _, h, hn', List.mem_singleton_self _⟩

theorem step_leave (h : L.os[pc]? = some .leave) :
    (L.blocks pc).any (·.loop) = true ∧ L.blocks (pc + 1) = L.blocks pc := by
  obtain ⟨ps, hn⟩ := L.step pc _ h
  generalize hb : L.blocks pc = before at hn ⊢
  generalize ha : L.blocks (pc + 1) = after at hn ⊢
  cases hn with
  | leave hl => exact ⟨hl, rfl⟩

theorem step_lane (h : L.os[pc]? = some (.lane o)) : L.blocks (pc + 1) = L.blocks pc := by
  obtain ⟨ps, hn⟩ := L.step pc _ h
  generalize L.blocks pc = before at hn ⊢
  generalize L.blocks (pc + 1) = after at hn ⊢
  cases hn
  rfl

theorem not_suffix_tail (b : OpenBlock) (bs : List OpenBlock) : ¬b :: bs <:+ bs := by
  intro h
  have hl := h.length_le
  rw [List.length_cons] at hl
  omega

theorem not_suffix_changed {b b' : OpenBlock} (h : b ≠ b') : ¬b :: bs <:+ b' :: bs := by
  intro hs
  rcases List.suffix_cons_iff.mp hs with he | hs
  · exact h (List.cons.inj he).1
  · exact not_suffix_tail b bs hs

theorem part_settled (hb : L.blocks b.first = b :: bs) (hl : b.loop = false)
    (hf : b.first ≤ L.os.length) :
    ∃ t, L.Settles t (b.elsePc.getD b.pc) t ∧ L.blocks t = b :: bs ∧
      ((L.os[t]? = some .otherwise ∧ b.elsePc = none) ∨ L.os[t]? = some .endIf) := by
  obtain ⟨t, o, ps, _, ho, hbt, hn, hgone⟩ := closes (j := b.first) (by rw [hb]) hf
  refine ⟨t, ?_⟩
  have hn' := hn
  rw [hbt] at hn
  generalize ha : L.blocks (t + 1) = after at hn hgone
  obtain ⟨bl, bp, be⟩ := b
  cases hn with
  | ifThen | loop => exact absurd (List.suffix_cons _ _) hgone
  | otherwise => exact ⟨⟨_, _, ho, hn', List.mem_singleton_self _⟩, hbt, .inl ⟨ho, rfl⟩⟩
  | endIf => exact ⟨⟨_, _, ho, hn', List.mem_singleton_self _⟩, hbt, .inr ho⟩
  | endLoop => cases hl
  | leave | stop | lane => exact absurd List.suffix_rfl hgone

inductive Settled (L : Listing) (k p t : Nat) : Prop
  | part (b : OpenBlock) (bs : List OpenBlock) (hb : L.blocks k = b :: bs) (hl : b.loop = false)
    (hf : b.elsePc.getD b.pc = p) (ht : t = k) (hgone : ¬b :: bs <:+ L.blocks (k + 1))
    (hk : k < L.os.length)
  | back (hk : k = p) (ho : L.os[p]? = some .endLoop) (q : Nat) (bs : List OpenBlock)
    (hb : L.blocks p = ⟨true, q, none⟩ :: bs) (ht : t = q + 1)

theorem Settles.settled (h : L.Settles k p t) : L.Settled k p t := by
  obtain ⟨o, ps, ho, hn, hm⟩ := h
  have hk := lt_length ho
  generalize hb : L.blocks k = before at hn
  generalize ha : L.blocks (k + 1) = after at hn
  cases hn with
  | otherwise =>
    cases List.mem_singleton.mp hm
    refine .part _ _ hb rfl rfl rfl ?_ hk
    rw [ha]
    exact not_suffix_changed (by simp)
  | endIf =>
    cases List.mem_singleton.mp hm
    refine .part _ _ hb rfl rfl rfl ?_ hk
    rw [ha]
    exact not_suffix_tail _ _
  | @endLoop q e =>
    cases List.mem_singleton.mp hm
    have he : e = none := (top_opened ho hb).no_else rfl
    exact .back rfl ho q after (he ▸ hb) rfl
  | ifThen => cases hm
  | loop => cases hm
  | leave => cases hm
  | stop => cases hm
  | lane => cases hm

theorem Opened.part_line (h : L.Opened b bs k) (hl : b.loop = false) :
    L.os[b.elsePc.getD b.pc]? = some .ifThen ∨ L.os[b.elsePc.getD b.pc]? = some .otherwise := by
  obtain ⟨bl, bp, be⟩ := b
  cases hl
  cases be with
  | none => exact .inl h.opener
  | some q => exact .inr (h.else_line q rfl).1

theorem Settles.line (h : L.Settles k p t) : L.os[p]? = some .ifThen ∨
    L.os[p]? = some .otherwise ∨ L.os[p]? = some .endLoop := by
  cases h.settled with
  | part b bs hb hl hf ht hgone hk =>
    have hopen := opened k (le_of_lt hk) (by rw [hb])
    have hline := hopen.part_line hl
    rw [hf] at hline
    rcases hline with hi | ho
    · exact .inl hi
    · exact .inr (.inl ho)
  | back hk ho => exact .inr (.inr ho)

theorem Settles.unique (h : L.Settles k p t) (h' : L.Settles k' p t') : t = t' := by
  have hline := h.line
  cases h.settled with
  | part b bs hb hl hf ht hgone hk =>
    have hopen := opened k (le_of_lt hk) (by rw [hb])
    cases h'.settled with
    | part b' bs' hb' hl' hf' ht' hgone' hk' =>
      have hopen' := opened k' (le_of_lt hk') (by rw [hb'])
      have hfirst : b.first = b'.first := congrArg (· + 1) (hf.trans hf'.symm)
      have he : b :: bs = b' :: bs' := by
        rw [← hopen.first_eq, ← hopen'.first_eq, hfirst]
      have hle := hopen.first_le
      have hle' := hopen'.first_le
      rcases Nat.lt_trichotomy k k' with hlt | heq | hlt
      · exact absurd (he ▸ hopen'.stays (k + 1) (by omega) hlt) hgone
      · rw [ht, ht', heq]
      · exact absurd (he ▸ hopen.stays (k' + 1) (by omega) hlt) hgone'
    | back hk' ho' =>
      have hpart := hopen.part_line hl
      rw [hf, ho'] at hpart
      rcases hpart with hp | hp <;> cases hp
  | back hk ho q bs hb ht =>
    cases h'.settled with
    | part b' bs' hb' hl' hf' ht' hgone' hk' =>
      have hopen' := opened k' (le_of_lt hk') (by rw [hb'])
      have hpart := hopen'.part_line hl'
      rw [hf', ho] at hpart
      rcases hpart with hp | hp <;> cases hp
    | back hk' ho' q' bs' hb' ht' =>
      rw [hb] at hb'
      cases hb'
      rw [ht, ht']

theorem ifThen_settled (h : L.os[pc]? = some .ifThen) :
    ∃ t, L.Settles t pc t ∧ L.Region (pc + 1) t ∧ L.blocks t = ⟨false, pc, none⟩ :: L.blocks pc ∧
      (L.os[t]? = some .otherwise ∨ L.os[t]? = some .endIf) := by
  have hlt := lt_length h
  obtain ⟨t, hs, hb, ho⟩ := part_settled (b := ⟨false, pc, none⟩) (step_ifThen h) rfl hlt
  have hline : ∃ o, L.os[t]? = some o := by
    rcases ho with ho | ho
    · exact ⟨_, ho.1⟩
    · exact ⟨_, ho⟩
  obtain ⟨o, hline⟩ := hline
  refine ⟨t, hs, (top_opened hline hb).region hb, hb, ?_⟩
  rcases ho with ho | ho
  · exact .inl ho.1
  · exact .inr ho

theorem otherwise_settled (h : L.os[pc]? = some .otherwise) :
    ∃ t, L.Settles t pc t ∧ L.Region (pc + 1) t ∧ L.blocks t = L.blocks (pc + 1) ∧
      L.os[t]? = some .endIf := by
  have hlt := lt_length h
  obtain ⟨p, bs, _, ha, _⟩ := step_otherwise h
  obtain ⟨t, hs, hb, ho⟩ := part_settled (b := ⟨false, p, some pc⟩) ha rfl hlt
  rcases ho with ho | ho
  · cases ho.2
  · exact ⟨t, hs, (top_opened ho hb).region hb, hb.trans ha.symm, ho⟩

theorem endLoop_settled (h : L.os[pc]? = some .endLoop) :
    ∃ p bs, L.blocks pc = ⟨true, p, none⟩ :: bs ∧ L.blocks (pc + 1) = bs ∧
      L.Settles pc pc (p + 1) ∧ L.Region (p + 1) pc := by
  obtain ⟨p, bs, hb, ha, hs⟩ := step_endLoop h
  exact ⟨p, bs, hb, ha, hs, (top_opened h hb).region hb⟩

end Listing

end TinyProcessors.G3d
