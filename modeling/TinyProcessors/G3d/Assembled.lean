import TinyProcessors.G3d.Nesting

namespace TinyProcessors.G3d

theorem opCode_or (x y : Word) : opCode (x ||| y) = opCode x ||| opCode y := by
  unfold opCode
  rw [BitVec.ushiftRight_or_distrib, BitVec.toNat_or]

theorem opCode_low {x : Word} (h : x.toNat < 2 ^ 26) : opCode x = 0 := by
  unfold opCode
  rw [BitVec.toNat_ushiftRight, Nat.shiftRight_eq_div_pow]
  exact Nat.div_eq_of_lt h

theorem opCode_field (v : BitVec w) (h : w + k ≤ 26) : opCode (v.setWidth 32 <<< k) = 0 := by
  apply opCode_low
  have hv : v.toNat < 2 ^ w := v.isLt
  rw [BitVec.toNat_shiftLeft, Nat.shiftLeft_eq]
  have hs : (v.setWidth 32).toNat ≤ v.toNat := by
    rw [BitVec.toNat_setWidth]
    exact Nat.mod_le _ _
  calc (v.setWidth 32).toNat * 2 ^ k % 2 ^ 32
      ≤ (v.setWidth 32).toNat * 2 ^ k := Nat.mod_le _ _
    _ ≤ v.toNat * 2 ^ k := Nat.mul_le_mul_right _ hs
    _ < 2 ^ w * 2 ^ k := Nat.mul_lt_mul_of_pos_right hv (Nat.two_pow_pos k)
    _ = 2 ^ (w + k) := (Nat.pow_add 2 w k).symm
    _ ≤ 2 ^ 26 := Nat.pow_le_pow_right (by decide) h

theorem opCode_imm (v : BitVec w) (h : w ≤ 26) : opCode (v.setWidth 32) = 0 := by
  have hf := opCode_field v (k := 0) h
  rwa [BitVec.shiftLeft_zero] at hf

theorem Op.code_lt (o : Op) : o.code < 28 := by
  cases o with
  | lane o => cases o <;> decide
  | _ => decide

theorem Op.ops_code (o : Op) : ops[o.code]? = some o := by
  cases o with
  | lane o => cases o <;> decide
  | _ => decide

theorem opCode_encode (o : Op) (rd ra rb rc imm : Int) :
    opCode (encode o rd ra rb rc imm) = o.code := by
  have ho : opCode (BitVec.ofNat 32 o.code <<< 26) = o.code := by
    have hlt := o.code_lt
    unfold opCode
    rw [BitVec.toNat_ushiftRight, BitVec.toNat_shiftLeft, BitVec.toNat_ofNat,
      Nat.shiftLeft_eq, Nat.shiftRight_eq_div_pow]
    omega
  unfold encode
  simp only [opCode_or, ho, opCode_field _ (show 4 + 22 ≤ 26 by decide),
    opCode_field _ (show 4 + 18 ≤ 26 by decide), opCode_field _ (show 4 + 14 ≤ 26 by decide),
    opCode_field _ (show 4 + 10 ≤ 26 by decide), opCode_imm _ (show 14 ≤ 26 by decide),
    Nat.or_zero]

def WordOf (o : Op) (w : Word) : Prop :=
  opCode w = o.code ∧ ((∀ l, o ≠ .lane l) → w = encode o 0 0 0 0 0)

theorem asm_bind {m : Asm α} {k : α → Asm β} {P : β → Prop} (h : ∀ a b, k a = .ok b → P b) :
    ∀ b, m >>= k = .ok b → P b := by
  intro b hb
  obtain ⟨a, _, hk⟩ := except_bind_ok hb
  exact h a b hk

theorem encodeLane_opCode (py : Python) (o : LaneOp) (args : List Text) :
    ∀ w, encodeLane py o args = .ok w → opCode w = Op.code (.lane o) := by
  unfold encodeLane
  split
  · refine asm_bind fun _ => asm_bind fun _ => ?_
    rintro w ⟨⟩
    rw [opCode_or, opCode_encode, opCode_imm _ (by decide), Nat.or_zero]
  all_goals
    first
      | (refine asm_bind fun _ => asm_bind fun _ => asm_bind fun _ => asm_bind fun _ => ?_
         rintro w ⟨⟩
         exact opCode_encode ..)
      | (refine asm_bind fun _ => asm_bind fun _ => asm_bind fun _ => ?_
         rintro w ⟨⟩
         exact opCode_encode ..)
      | (refine asm_bind fun _ => asm_bind fun _ => ?_
         rintro w ⟨⟩
         exact opCode_encode ..)
      | (rintro w ⟨⟩)

theorem encodeOp_wordOf (h : encodeOp py o args = .ok w) : WordOf o w := by
  cases o with
  | lane o => exact ⟨encodeLane_opCode py o args w h, fun hl => absurd rfl (hl o)⟩
  | stop | ifThen | otherwise | endIf | loop | endLoop | leave =>
    cases h
    exact ⟨opCode_encode .., fun _ => rfl⟩

structure History (os : List Op) (st : AsmState) (blocks : Nat → List OpenBlock) : Prop where
  start : blocks 0 = []
  last : blocks os.length = st.blocks
  step : ∀ (pc : Nat) (o : Op), os[pc]? = some o →
    ∃ ps, Nest pc o (blocks pc) (blocks (pc + 1)) ps ∧ ps ⊆ st.patches
  patches : ∀ p ∈ st.patches, ∃ (pc : Nat) (o : Op) (ps : List (Nat × Nat)), os[pc]? = some o ∧
    Nest pc o (blocks pc) (blocks (pc + 1)) ps ∧ p ∈ ps
  depth : ∀ pc, pc ≤ os.length → (blocks pc).length ≤ 8
  length : st.words.length = os.length
  words : ∀ (pc : Nat) (o : Op), os[pc]? = some o → ∃ w, st.words[pc]? = some w ∧ WordOf o w

theorem History.nil : History [] ⟨[], [], []⟩ fun _ => [] where
  start := rfl
  last := rfl
  step pc o h := by simp at h
  patches p h := by simp at h
  depth pc h := Nat.zero_le 8
  length := rfl
  words pc o h := by simp at h

theorem getElem?_snoc_cases {l : List α} {i : Nat} (h : (l ++ [a])[i]? = some b) :
    l[i]? = some b ∧ i < l.length ∨ i = l.length ∧ a = b := by
  rcases Nat.lt_trichotomy i l.length with hi | hi | hi
  · rw [List.getElem?_append_left hi] at h
    exact .inl ⟨h, hi⟩
  · rw [hi, List.getElem?_append_right (le_refl _), Nat.sub_self] at h
    cases h
    exact .inr ⟨hi, rfl⟩
  · rw [List.getElem?_eq_none (by simp; omega)] at h
    cases h

theorem getElem?_snoc_left {l : List α} {i : Nat} (h : l[i]? = some b) : (l ++ [a])[i]? = some b := by
  obtain ⟨hlt, _⟩ := List.getElem?_eq_some_iff.mp h
  rw [List.getElem?_append_left hlt, h]

theorem History.snoc (h : History os st blocks) (hw : WordOf o w)
    (hn : Nest os.length o st.blocks bs ps) (hd : bs.length ≤ 8) :
    History (os ++ [o]) ⟨st.words ++ [w], bs, st.patches ++ ps⟩
      (Function.update blocks (os.length + 1) bs) := by
  have hold {j} (hj : j ≤ os.length) : Function.update blocks (os.length + 1) bs j = blocks j :=
    Function.update_of_ne (by omega) _ _
  have hnew : Function.update blocks (os.length + 1) bs (os.length + 1) = bs :=
    Function.update_self _ _ _
  have hlast : (os ++ [o]).length = os.length + 1 := List.length_append
  refine ⟨?_, ?_, ?_, ?_, ?_, ?_, ?_⟩
  · rw [hold (Nat.zero_le _), h.start]
  · rw [hlast, hnew]
  · intro pc o' ho
    rcases getElem?_snoc_cases ho with ⟨ho, hlt⟩ | ⟨rfl, rfl⟩
    · obtain ⟨ps', hn', hs⟩ := h.step pc o' ho
      rw [hold (by omega), hold (by omega)]
      exact ⟨ps', hn', fun p hp => List.mem_append_left _ (hs hp)⟩
    · rw [hold (le_refl _), hnew, h.last]
      exact ⟨ps, hn, fun p hp => List.mem_append_right _ hp⟩
  · intro p hp
    rcases List.mem_append.mp hp with hp | hp
    · obtain ⟨pc, o', ps', ho, hn', hm⟩ := h.patches p hp
      obtain ⟨hlt, _⟩ := List.getElem?_eq_some_iff.mp ho
      refine ⟨pc, o', ps', getElem?_snoc_left ho, ?_, hm⟩
      rwa [hold (by omega), hold (by omega)]
    · refine ⟨os.length, o, ps, List.getElem?_concat_length, ?_, hp⟩
      rwa [hold (le_refl _), hnew, h.last]
  · intro pc hpc
    rcases Nat.lt_or_ge os.length pc with hlt | hle
    · have he : pc = os.length + 1 := by omega
      rwa [he, hnew]
    · rw [hold hle]
      exact h.depth pc hle
  · rw [hlast]
    simp [h.length]
  · intro pc o' ho
    rcases getElem?_snoc_cases ho with ⟨ho, hlt⟩ | ⟨rfl, rfl⟩
    · obtain ⟨w', hw', hof⟩ := h.words pc o' ho
      exact ⟨w', getElem?_snoc_left hw', hof⟩
    · refine ⟨w, ?_, hw⟩
      rw [← h.length]
      exact List.getElem?_concat_length

def lineOp (line : Line) : Option Op := ops.find? fun o => mnemonic o = line.1

theorem assembleLine_history (h : History os st blocks) (ha : assembleLine py st line = .ok st') :
    ∃ o blocks', lineOp line = some o ∧ History (os ++ [o]) st' blocks' := by
  dsimp only [assembleLine] at ha
  split at ha
  next => cases ha
  next o ho =>
    split at ha
    next => cases ha
    next =>
      obtain ⟨w, hw, ha⟩ := except_bind_ok ha
      obtain ⟨⟨bs, ps⟩, hn, ha⟩ := except_bind_ok ha
      dsimp only at ha
      split at ha
      next => cases ha
      next hd =>
        cases ha
        rw [h.length] at hn
        exact ⟨o, _, ho, h.snoc (encodeOp_wordOf hw) (.of_ok hn) (by omega)⟩

theorem lines_history (lines : List Line) (h : History os st blocks)
    (ha : lines.foldlM (assembleLine py) st = .ok st') :
    ∃ blocks', History (os ++ lines.filterMap lineOp) st' blocks' := by
  induction lines generalizing os st blocks with
  | nil =>
    cases ha
    rw [List.filterMap_nil, List.append_nil]
    exact ⟨blocks, h⟩
  | cons line lines ih =>
    rw [List.foldlM_cons] at ha
    obtain ⟨st₁, h₁, ha⟩ := except_bind_ok ha
    obtain ⟨o, blocks₁, ho, hist⟩ := assembleLine_history h h₁
    obtain ⟨blocks₂, h₂⟩ := ih hist ha
    rw [List.append_assoc, List.singleton_append] at h₂
    rw [List.filterMap_cons_some ho]
    exact ⟨blocks₂, h₂⟩

def putIn (i : Nat) (ps : List (Nat × Nat)) (w : Word) : Word :=
  ps.foldl (fun w p => if p.1 = i then w ||| BitVec.ofNat 32 p.2 else w) w

theorem patch_getElem? (ps : List (Nat × Nat)) (words : List Word) (i : Nat) :
    (ps.foldl patch words)[i]? = words[i]?.map (putIn i ps) := by
  induction ps generalizing words with
  | nil =>
    cases h : words[i]? with
    | none => simpa using h
    | some w => simpa [putIn] using h
  | cons p ps ih =>
    rw [List.foldl_cons, ih]
    unfold patch
    rw [List.getElem?_modify]
    cases words[i]? with
    | none => rfl
    | some w => rfl

theorem putIn_none (h : ∀ p ∈ ps, p.1 ≠ i) (w : Word) : putIn i ps w = w := by
  induction ps with
  | nil => rfl
  | cons p ps ih =>
    have hp := h p List.mem_cons_self
    unfold putIn
    rw [List.foldl_cons, if_neg hp]
    exact ih fun p hp => h p (List.mem_cons_of_mem _ hp)

theorem putIn_again (h : ∀ p ∈ ps, p.1 = i → p.2 = t) (w : Word) :
    putIn i ps (w ||| BitVec.ofNat 32 t) = w ||| BitVec.ofNat 32 t := by
  induction ps with
  | nil => rfl
  | cons p ps ih =>
    have hrest := ih fun p hp => h p (List.mem_cons_of_mem _ hp)
    unfold putIn
    rw [List.foldl_cons]
    split
    next hp =>
      rw [h p List.mem_cons_self hp, BitVec.or_assoc, BitVec.or_self]
      exact hrest
    next => exact hrest

theorem putIn_target (h : ∀ p ∈ ps, p.1 = i → p.2 = t) (hm : (i, t) ∈ ps) (w : Word) :
    putIn i ps w = w ||| BitVec.ofNat 32 t := by
  induction ps with
  | nil => cases hm
  | cons p ps ih =>
    have hrest := fun p hp => h p (List.mem_cons_of_mem _ hp)
    unfold putIn
    rw [List.foldl_cons]
    by_cases hp : p.1 = i
    · rw [if_pos hp, h p List.mem_cons_self hp]
      exact putIn_again hrest w
    · rw [if_neg hp]
      rcases List.mem_cons.mp hm with he | hm
      · exact absurd (congrArg Prod.fst he).symm hp
      · exact ih hrest hm

theorem opCode_target (h : t < 128) : opCode (encode o 0 0 0 0 0 ||| BitVec.ofNat 32 t) = o.code := by
  rw [opCode_or, opCode_encode]
  rw [opCode_low (x := BitVec.ofNat 32 t), Nat.or_zero]
  rw [BitVec.toNat_ofNat]
  omega

theorem encode_zero (o : Op) : encode o 0 0 0 0 0 = BitVec.ofNat 32 o.code <<< 26 := by
  simp [encode]

theorem target_word (h : t < 128) : target (encode o 0 0 0 0 0 ||| BitVec.ofNat 32 t) = t := by
  have ht : t % 2 ^ 32 = t := Nat.mod_eq_of_lt (by omega)
  have ho : (BitVec.ofNat 32 o.code <<< 26).toNat % 2 ^ 7 = 0 := by
    have hlt := o.code_lt
    rw [BitVec.toNat_shiftLeft, BitVec.toNat_ofNat, Nat.shiftLeft_eq]
    omega
  unfold target
  rw [encode_zero, BitVec.extractLsb'_toNat, Nat.shiftRight_zero, BitVec.toNat_or,
    Nat.or_mod_two_pow, ho, Nat.zero_or, BitVec.toNat_ofNat, ht]
  exact Nat.mod_eq_of_lt h

def Listing.Assembles (L : Listing) (words : List Word) : Prop :=
  ∀ (pc : Nat) (o : Op), L.os[pc]? = some o → ∃ w, words[pc]? = some w ∧ opCode w = o.code ∧
    ∀ k t, L.Settles k pc t → target w = t

def History.listing (h : History os st blocks) (hb : st.blocks = []) : Listing where
  os := os
  blocks := blocks
  start := h.start
  step pc o ho := by
    obtain ⟨ps, hn, _⟩ := h.step pc o ho
    exact ⟨ps, hn⟩
  depth := h.depth
  closed := h.last.trans hb

theorem Nest.functional (h : Nest pc o bs bs' ps) (h' : Nest pc o bs bs'' ps') : ps = ps' := by
  cases h <;> cases h' <;> rfl

theorem History.settles_iff (h : History os st blocks) (hb : st.blocks = []) :
    (p, t) ∈ st.patches ↔ ∃ k, (h.listing hb).Settles k p t := by
  constructor
  · intro hm
    obtain ⟨pc, o, ps, ho, hn, hps⟩ := h.patches _ hm
    exact ⟨pc, o, ps, ho, hn, hps⟩
  · rintro ⟨k, o, ps, ho, hn, hps⟩
    obtain ⟨ps', hn', hs⟩ := h.step k o ho
    rw [hn.functional hn'] at hps
    exact hs hps

theorem Listing.Settles.lt {L : Listing} (h : L.Settles k p t) (hl : L.os.length ≤ 128) : t < 128 := by
  cases h.settled with
  | part b bs hb hf hl' ht hgone hk => omega
  | back hk ho q bs hb ht =>
    have hp := Listing.lt_length ho
    have hle := (Listing.top_opened ho hb).first_le
    change q + 1 ≤ p at hle
    omega

theorem History.assembles (h : History os st blocks) (hb : st.blocks = [])
    (hl : os.length ≤ 128) : (h.listing hb).Assembles (st.patches.foldl patch st.words) := by
  intro pc o ho
  obtain ⟨w, hw, hcode, henc⟩ := h.words pc o ho
  refine ⟨putIn pc st.patches w, ?_, ?_⟩
  · rw [patch_getElem?, hw]
    rfl
  · by_cases hex : ∃ k t, (h.listing hb).Settles k pc t
    · obtain ⟨k, t, hs⟩ := hex
      have hall : ∀ p ∈ st.patches, p.1 = pc → p.2 = t := by
        rintro ⟨p, t'⟩ hm rfl
        obtain ⟨k', hs'⟩ := (h.settles_iff hb).mp hm
        exact hs'.unique hs
      have hlt := hs.lt hl
      have hline := hs.line
      have hcontrol : ∀ l, o ≠ .lane l := by
        rintro l rfl
        rw [ho] at hline
        rcases hline with hi | hi | hi <;> cases hi
      rw [putIn_target hall ((h.settles_iff hb).mpr ⟨k, hs⟩), henc hcontrol]
      refine ⟨opCode_target hlt, fun k' t' hs' => ?_⟩
      rw [target_word hlt]
      exact hs.unique hs'
    · rw [putIn_none]
      · exact ⟨hcode, fun k t hs => absurd ⟨k, t, hs⟩ hex⟩
      · rintro ⟨p, t⟩ hm rfl
        exact hex ⟨_, t, ((h.settles_iff hb).mp hm).choose_spec⟩

def textOps (py : Python) (text : Text) : List Op := (parseLines py text).filterMap lineOp

theorem lineOp_stop (h : line.1 = mnemonic .stop) : lineOp line = some .stop := by
  unfold lineOp
  rw [h]
  decide

theorem assemble_listing (h : assemble py text = .ok words) :
    ∃ L : Listing, L.os = textOps py text ∧ L.Assembles words ∧ L.os.length ≤ 128 ∧
      L.os.getLast? = some .stop := by
  dsimp only [assemble] at h
  obtain ⟨st, hst, h⟩ := except_bind_ok h
  obtain ⟨blocks, hist⟩ := lines_history _ History.nil hst
  rw [List.nil_append] at hist
  unfold finish at h
  split at h
  next => cases h
  next hb =>
    split at h
    next => cases h
    next hlast =>
      split at h
      next => cases h
      next hlen =>
        cases h
        have hl : (textOps py text).length ≤ 128 := by
          have hlength := hist.length
          change st.words.length = (textOps py text).length at hlength
          omega
        refine ⟨hist.listing hb, rfl, hist.assembles hb hl, hl, ?_⟩
        change (textOps py text).getLast? = some .stop
        obtain ⟨line, hline, hname⟩ := Option.map_eq_some_iff.mp (not_not.mp hlast)
        obtain ⟨init, hinit⟩ := List.getLast?_eq_some_iff.mp hline
        unfold textOps
        rw [hinit, List.filterMap_append, List.filterMap_cons_some (lineOp_stop hname)]
        exact List.getLast?_concat

end TinyProcessors.G3d
