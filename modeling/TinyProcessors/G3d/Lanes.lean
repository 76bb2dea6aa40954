import TinyProcessors.G3d.Faults

namespace TinyProcessors.G3d

@[ext] structure View where
  regs : BitVec 4 → Word
  out : BitVec 3 → Word
  pred : Bool

def Shader.view (s : Shader) (l : Lane) : View := ⟨s.regs l, s.out l, s.pred.getLsbD l.val⟩

def View.step (alu : Alu) (b : Batch) (w : Word) (o : LaneOp) (l : Lane) (v : View) : View :=
  match o with
  | .slt => { v with pred := (v.regs (ra w)).slt (v.regs (rb w)) }
  | .seq => { v with pred := v.regs (ra w) = v.regs (rb w) }
  | .output => { v with out := Function.update v.out ((imm w).setWidth 3) (v.regs (ra w)) }
  | o => { v with regs := Function.update v.regs (rd w) (alu b w o l v.regs) }

theorem setPred_self (s : Shader) (l : Lane) (hit : Bool) :
    (s.setPred l hit).pred.getLsbD l.val = hit := by
  have h : ∀ (p : Mask) (l : Lane) (hit : Bool),
      (p &&& ~~~laneBit l ||| (if hit then laneBit l else 0)).getLsbD l.val = hit := by decide
  exact h s.pred l hit

theorem setPred_other (s : Shader) (hit : Bool) (h : l ≠ l') :
    (s.setPred l hit).pred.getLsbD l'.val = s.pred.getLsbD l'.val := by
  have h' : ∀ (p : Mask) (l l' : Lane) (hit : Bool), l ≠ l' →
      (p &&& ~~~laneBit l ||| (if hit then laneBit l else 0)).getLsbD l'.val =
        p.getLsbD l'.val := by decide
  exact h' s.pred l l' hit h

theorem setReg_view (s : Shader) (l : Lane) (r : BitVec 4) (v : Word) :
    (s.setReg l r v).view l = { s.view l with regs := Function.update (s.regs l) r v } := by
  unfold Shader.view Shader.setReg
  simp only [Function.update_self]

theorem setReg_other (s : Shader) (r : BitVec 4) (v : Word) (h : l ≠ l') :
    (s.setReg l r v).view l' = s.view l' := by
  unfold Shader.view Shader.setReg
  simp only [Function.update_of_ne h.symm]

theorem laneStep_self (alu : Alu) (b : Batch) (w : Word) (o : LaneOp) (s : Shader) (l : Lane) :
    (s.laneStep alu b w o l).view l = (s.view l).step alu b w o l := by
  cases o with
  | slt | seq => exact View.ext rfl rfl (setPred_self s l _)
  | output =>
    refine View.ext rfl ?_ rfl
    exact Function.update_self ..
  | _ => exact setReg_view ..

theorem laneStep_other (alu : Alu) (b : Batch) (w : Word) (o : LaneOp) (s : Shader) (h : l ≠ l') :
    (s.laneStep alu b w o l).view l' = s.view l' := by
  cases o with
  | slt | seq => exact View.ext rfl rfl (setPred_other s _ h)
  | output =>
    refine View.ext rfl ?_ rfl
    exact Function.update_of_ne h.symm ..
  | _ => exact setReg_other s _ _ h

theorem foldl_lanes_view (alu : Alu) (b : Batch) (w : Word) (o : LaneOp) (ls : List Lane)
    (hn : ls.Nodup) (s : Shader) (l : Lane) :
    (ls.foldl (fun s l => if s.mask.getLsbD l.val then s.laneStep alu b w o l else s) s).view l =
      if l ∈ ls ∧ s.mask.getLsbD l.val then (s.view l).step alu b w o l else s.view l := by
  induction ls generalizing s with
  | nil => rw [if_neg (by simp), List.foldl_nil]
  | cons l₀ ls ih =>
    obtain ⟨hnotin, hn⟩ := List.nodup_cons.mp hn
    have hstep : ∀ s' : Shader, s'.mask = s.mask → (l ≠ l₀ → s'.view l = s.view l) →
        (l = l₀ → s'.view l = if s.mask.getLsbD l.val then (s.view l).step alu b w o l
          else s.view l) →
        (ls.foldl (fun s l => if s.mask.getLsbD l.val then s.laneStep alu b w o l else s) s').view l =
          if l ∈ l₀ :: ls ∧ s.mask.getLsbD l.val then (s.view l).step alu b w o l else s.view l := by
      intro s' hm hother hself
      rw [ih hn s', hm]
      by_cases hl : l = l₀
      · have hmem : ¬(l ∈ ls ∧ s.mask.getLsbD l.val = true) := fun h => hnotin (hl ▸ h.1)
        rw [if_neg hmem, hself hl]
        simp only [hl, List.mem_cons_self, true_and]
      · rw [hother hl]
        simp only [List.mem_cons, hl, false_or]
    rw [List.foldl_cons]
    split
    next hm =>
      apply hstep _ (laneStep_frame alu b w o s l₀).1
      · intro hl
        exact laneStep_other alu b w o s (Ne.symm hl)
      · rintro rfl
        rw [if_pos hm, laneStep_self]
    next hm =>
      apply hstep s rfl
      · exact fun _ => rfl
      · rintro rfl
        rw [if_neg hm]

theorem lanes_view (alu : Alu) (b : Batch) (w : Word) (o : LaneOp) (s : Shader) (l : Lane) :
    (s.lanes alu b w o).view l =
      if s.mask.getLsbD l.val then (s.view l).step alu b w o l else s.view l := by
  have hmem : ∀ l : Lane, l ∈ ([0, 1, 2, 3] : List Lane) := by decide
  have h := foldl_lanes_view alu b w o [0, 1, 2, 3] (by decide) s l
  simp only [hmem l, true_and] at h
  exact h

def Idle (l : Lane) (m : Mask) : Prop := m &&& laneBit l = 0

theorem idle_iff : Idle l m ↔ m.getLsbD l.val = false := by
  have h : ∀ (m : Mask) (l : Lane), m &&& laneBit l = 0 ↔ m.getLsbD l.val = false := by decide
  exact h m l

theorem Idle.and_left (h : Idle l m) (m' : Mask) : Idle l (m &&& m') := by
  unfold Idle at h ⊢
  rw [BitVec.and_assoc, BitVec.and_comm m', ← BitVec.and_assoc, h]
  exact BitVec.zero_and

theorem Idle.zero (l : Lane) : Idle l 0 := BitVec.zero_and

def Entry.only (l : Lane) (e : Entry) : Entry :=
  ⟨e.loop, e.parent &&& laneBit l, e.taken &&& laneBit l⟩

theorem breakLanes_only (h : Shader.breakLanes mask stack = some stack')
    (hm : Idle l mask) : stack'.map (Entry.only l) = stack.map (Entry.only l) := by
  have hkeep : ∀ (p m : Mask) (l : Lane), m &&& laneBit l = 0 →
      p &&& ~~~m &&& laneBit l = p &&& laneBit l := by decide
  induction stack generalizing stack' with
  | nil => cases h
  | cons e stack ih =>
    unfold Shader.breakLanes at h
    split at h
    next =>
      cases h
      rfl
    next =>
      obtain ⟨rest, hr, rfl⟩ := Option.map_eq_some_iff.mp h
      rw [List.map_cons, List.map_cons, ih hr]
      refine congrArg (· :: _) ?_
      unfold Entry.only
      rw [hkeep e.parent mask l hm]

namespace Listing.Region

theorem deeper {L : Listing} (hr : L.Region lo hi) (hlo : lo ≤ j) (hhi : j < hi)
    (hb : ¬L.blocks j <:+ L.blocks (j + 1)) : (L.blocks hi).length < (L.blocks j).length := by
  have hs := hr.stays j hlo (le_of_lt hhi)
  have hs' := hr.stays (j + 1) (by omega) hhi
  rcases Nat.lt_or_ge (L.blocks hi).length (L.blocks j).length with h | h
  · exact h
  · rw [hs.eq_of_length (Nat.le_antisymm hs.length_le h)] at hs'
    exact absurd hs' hb

theorem deeper_otherwise {L : Listing} (hr : L.Region lo hi) (hlo : lo ≤ j) (hhi : j < hi)
    (ho : L.os[j]? = some .otherwise) : (L.blocks hi).length < (L.blocks j).length := by
  obtain ⟨p, bs, hb, hb', _⟩ := Listing.step_otherwise ho
  apply hr.deeper hlo hhi
  rw [hb, hb']
  exact Listing.not_suffix_changed (by simp)

theorem deeper_endIf {L : Listing} (hr : L.Region lo hi) (hlo : lo ≤ j) (hhi : j < hi)
    (ho : L.os[j]? = some .endIf) : (L.blocks hi).length < (L.blocks j).length := by
  obtain ⟨b, bs, hb, _, hb'⟩ := Listing.step_endIf ho
  apply hr.deeper hlo hhi
  rw [hb, hb']
  exact Listing.not_suffix_tail b bs

theorem deeper_endLoop {L : Listing} (hr : L.Region lo hi) (hlo : lo ≤ j) (hhi : j < hi)
    (ho : L.os[j]? = some .endLoop) : (L.blocks hi).length < (L.blocks j).length := by
  obtain ⟨p, bs, hb, hb', _⟩ := Listing.step_endLoop ho
  apply hr.deeper hlo hhi
  rw [hb, hb']
  exact Listing.not_suffix_tail _ bs

theorem jump_le {L : Listing} (hhi : j < hi) (ht : L.Region (j + 1) t)
    (hd : (L.blocks hi).length < (L.blocks t).length) : t ≤ hi := by
  by_contra hlt
  have hs := (ht.stays hi hhi (by omega)).length_le
  omega

theorem jump_ge {L : Listing} (hr : L.Region lo hi) (hlo : lo ≤ j) (ht : L.Region t j)
    (hd : (L.blocks hi).length < (L.blocks j).length) : lo ≤ t := by
  by_contra hlt
  have hs := (ht.stays lo (by omega) hlo).length_le
  rw [hr.same] at hs
  omega

end Listing.Region

/-- The batch is in a region that the lane has nothing to do with. -/
structure Outside (L : Listing) (l : Lane) (lo hi : Nat) (base : List Entry) (g : Shader) : Prop where
  region : L.Region lo hi
  lo_le : lo ≤ g.pc
  pc_le : g.pc ≤ hi
  entries : ∃ above, g.stack = above ++ base ∧ ∀ e ∈ above, Idle l e.parent
  size : base.length = (L.blocks hi).length
  idle : Idle l g.mask

theorem Outside.top (h : Outside L l lo hi base g) (hf : Fits L g)
    (hd : (L.blocks hi).length < (L.blocks g.pc).length) (hs : g.stack = e :: stack) :
    Idle l e.parent ∧ ∃ above, stack = above ++ base ∧ ∀ x ∈ above, Idle l x.parent := by
  obtain ⟨above, hab, hidle⟩ := h.entries
  have hl := hf.stack_length
  have hsize := h.size
  cases above with
  | nil =>
    rw [hab, List.nil_append] at hl
    omega
  | cons x above =>
    rw [hs] at hab
    cases hab
    exact ⟨hidle _ List.mem_cons_self, above, rfl,
      fun x hx => hidle x (List.mem_cons_of_mem _ hx)⟩

theorem Outside.next (h : Outside L l lo hi base g) (hf : Fits L g) (hlt : g.pc < hi)
    (hm : Moves L alu b g (.next g')) :
    ∃ base', Outside L l lo hi base' g' ∧ base'.map (Entry.only l) = base.map (Entry.only l) ∧
      g'.view l = g.view l ∧ g'.count = g.count + 1 := by
  obtain ⟨hr, hlo, hhi, ⟨above, hab, habove⟩, hsize, hidle⟩ := id h
  generalize ho : Outcome.next g' = outcome at hm
  cases hm with
  | done => cases ho
  | trapped => cases ho
  | lane o hline =>
    cases ho
    obtain ⟨hmask, hstack, hpc, hcount⟩ := lanes_frame alu b (b.program g.pc) o g.counted
    refine ⟨base, ⟨hr, Nat.le_succ_of_le hlo, hlt, ⟨above, hstack.trans hab, habove⟩, hsize, ?_⟩,
      rfl, ?_, hcount⟩
    · change Idle l (g.counted.lanes alu b (b.program g.pc) o).mask
      rw [hmask]
      exact hidle
    · change (g.counted.lanes alu b (b.program g.pc) o).view l = g.view l
      rw [lanes_view, if_neg]
      · rfl
      · intro hact
        cases hact.symm.trans (idle_iff.mp hidle)
  | ifThen hline t _ hrt hbt _ _ =>
    cases ho
    have hle : t ≤ hi := by
      apply Listing.Region.jump_le hlt hrt
      rw [hbt, List.length_cons]
      exact Nat.lt_succ_of_le (hr.stays g.pc hlo hhi).length_le
    refine ⟨base, ⟨hr, ?_, ?_, ⟨_ :: above, congrArg _ hab, ?_⟩, hsize, hidle.and_left _⟩, rfl, rfl,
      rfl⟩
    · have hgt := hrt.le
      dsimp only
      split <;> omega
    · dsimp only
      split <;> omega
    · intro e he
      rcases List.mem_cons.mp he with rfl | he
      · exact hidle
      · exact habove e he
  | otherwise hline t _ hrt hbt _ hs =>
    cases ho
    have hd := hr.deeper_otherwise hlo hlt hline
    have hle : t ≤ hi := by
      apply Listing.Region.jump_le hlt hrt
      obtain ⟨p, bs, hb, hb', _⟩ := Listing.step_otherwise hline
      rw [hb, List.length_cons] at hd
      rwa [hbt, hb', List.length_cons]
    refine ⟨base, ⟨hr, ?_, ?_, ⟨above, hab, habove⟩, hsize, ?_⟩, rfl, rfl, rfl⟩
    · have hgt := hrt.le
      dsimp only
      split <;> omega
    · dsimp only
      split <;> omega
    · exact (h.top hf hd hs).1.and_left _
  | endIf hline hs =>
    cases ho
    obtain ⟨hparent, above', hab', habove'⟩ := h.top hf (hr.deeper_endIf hlo hlt hline) hs
    exact ⟨base, ⟨hr, Nat.le_succ_of_le hlo, hlt, ⟨above', hab', habove'⟩, hsize, hparent⟩, rfl, rfl,
      rfl⟩
  | loop hline _ =>
    cases ho
    refine ⟨base, ⟨hr, Nat.le_succ_of_le hlo, hlt, ⟨_ :: above, congrArg _ hab, ?_⟩, hsize, hidle⟩,
      rfl, rfl, rfl⟩
    intro e he
    rcases List.mem_cons.mp he with rfl | he
    · exact hidle
    · exact habove e he
  | again hline _ p _ hrp hs =>
    cases ho
    have hge := hr.jump_ge hlo hrp (hr.deeper_endLoop hlo hlt hline)
    have hle := hrp.le
    exact ⟨base, ⟨hr, hge, show p + 1 ≤ hi by omega, ⟨above, hab, habove⟩, hsize, hidle⟩, rfl, rfl,
      rfl⟩
  | endLoop hline _ hs =>
    cases ho
    obtain ⟨hparent, above', hab', habove'⟩ := h.top hf (hr.deeper_endLoop hlo hlt hline) hs
    exact ⟨base, ⟨hr, Nat.le_succ_of_le hlo, hlt, ⟨above', hab', habove'⟩, hsize, hparent⟩, rfl, rfl,
      rfl⟩
  | @leave stack hline hs =>
    cases ho
    have honly := breakLanes_only hs hidle
    rw [hab, List.map_append] at honly
    obtain ⟨above', base', rfl, habove', hbase'⟩ := List.map_eq_append_iff.mp honly
    have hlen : base'.length = base.length := by
      have hl := congrArg List.length hbase'
      rwa [List.length_map, List.length_map] at hl
    refine ⟨base', ⟨hr, Nat.le_succ_of_le hlo, hlt, ⟨above', rfl, ?_⟩, hlen.trans hsize, .zero l⟩,
      hbase', rfl, rfl⟩
    intro e he
    obtain ⟨e₀, he₀, heq⟩ := List.mem_map.mp (habove' ▸ List.mem_map_of_mem he)
    have hp : e₀.parent &&& laneBit l = e.parent &&& laneBit l := congrArg Entry.parent heq
    unfold Idle
    rw [← hp]
    exact habove e₀ he₀

/-- How the batch `g` and the same program with only lane `l` active, `a`, go together. -/
inductive Tracks (L : Listing) (l : Lane) (g a : Shader) : Prop
  | together (hpc : a.pc = g.pc) (hm : a.mask = g.mask &&& laneBit l)
    (hs : a.stack = g.stack.map (Entry.only l))
  /-- `a` has skipped the part of an IF that `g` is in, and waits at its end. -/
  | skipped (lo hi : Nat) (base : List Entry) (hout : Outside L l lo hi base g) (hlt : g.pc < hi)
    (hopen : L.blocks hi ≠ []) (hpc : a.pc = hi) (hm : a.mask = 0)
    (hs : a.stack = base.map (Entry.only l))
  /-- `a` has left the loop that `g` is in, and waits after its end. -/
  | left (lo hi : Nat) (e : Entry) (base : List Entry) (hout : Outside L l lo hi (e :: base) g)
    (hend : L.os[hi]? = some .endLoop) (hpc : a.pc = hi + 1)
    (hm : a.mask = e.parent &&& laneBit l) (hs : a.stack = base.map (Entry.only l))

def Advances (L : Listing) (l : Lane) (alu : Alu) (b : Batch) (g' a : Shader) : Prop :=
  ∃ a', (a' = a ∨ a.step alu b = .next a') ∧ Tracks L l g' a' ∧ a'.view l = g'.view l ∧
    a'.count ≤ g'.count

theorem Outside.arrive (h : Outside L l lo hi base g) (hf : Fits L g) (hpc : g.pc = hi) :
    g.stack = base := by
  obtain ⟨above, hab, _⟩ := h.entries
  have hl := hf.stack_length
  have hsize := h.size
  rw [hab, hpc, List.length_append] at hl
  have h0 : above = [] := List.length_eq_zero_iff.mp (by omega)
  rw [hab, h0, List.nil_append]

theorem skipped_step (hf : Fits L g) (hf' : Fits L g')
    (hm : Moves L alu b g (.next g')) (hout : Outside L l lo hi base g) (hlt : g.pc < hi)
    (hopen : L.blocks hi ≠ []) (hpc : a.pc = hi) (hmask : a.mask = 0)
    (hs : a.stack = base.map (Entry.only l)) (hv : a.view l = g.view l) (hc : a.count ≤ g.count) :
    Advances L l alu b g' a := by
  obtain ⟨base', hout', hbase', hview, hcount⟩ := hout.next hf hlt hm
  refine ⟨a, .inl rfl, ?_, hv.trans hview.symm, by omega⟩
  rcases Nat.lt_or_ge g'.pc hi with hlt' | hge
  · exact .skipped lo hi base' hout' hlt' hopen hpc hmask (hs.trans hbase'.symm)
  · have he : g'.pc = hi := Nat.le_antisymm hout'.pc_le hge
    refine .together (hpc.trans he.symm) ?_ ?_
    · rw [hmask, hout'.idle]
    · rw [hs, ← hbase', hout'.arrive hf' he]

theorem left_step (hf : Fits L g) (hm : Moves L alu b g (.next g'))
    (hout : Outside L l lo hi (e :: base) g) (hend : L.os[hi]? = some .endLoop)
    (hpc : a.pc = hi + 1)
    (hmask : a.mask = e.parent &&& laneBit l) (hs : a.stack = base.map (Entry.only l))
    (hv : a.view l = g.view l) (hc : a.count ≤ g.count) : Advances L l alu b g' a := by
  rcases Nat.lt_or_ge g.pc hi with hlt | hge
  · obtain ⟨base', hout', hbase', hview, hcount⟩ := hout.next hf hlt hm
    refine ⟨a, .inl rfl, ?_, hv.trans hview.symm, by omega⟩
    obtain ⟨e', base'', rfl⟩ : ∃ e' base'', base' = e' :: base'' := by
      cases base' with
      | nil => cases hbase'
      | cons e' base'' => exact ⟨e', base'', rfl⟩
    obtain ⟨he, hbase⟩ := List.cons.inj hbase'
    have hp : e'.parent &&& laneBit l = e.parent &&& laneBit l := congrArg Entry.parent he
    exact .left lo hi e' base'' hout' hend hpc (hmask.trans hp.symm) (hs.trans hbase.symm)
  · have he : g.pc = hi := Nat.le_antisymm hout.pc_le hge
    have hstack := hout.arrive hf he
    have hend' := hend
    rw [← he] at hend'
    generalize ho : Outcome.next g' = outcome at hm
    cases hm with
    | again hline hmg p _ hrp hs' =>
      cases ho
      rw [he] at hrp
      have hout' : Outside L l (p + 1) hi (e :: base) { g.counted with pc := p + 1 } :=
        ⟨hrp, le_refl _, hrp.le, hout.entries, hout.size, hout.idle⟩
      exact ⟨a, .inl rfl, .left (p + 1) hi e base hout' hend hpc hmask hs, hv,
        Nat.le_succ_of_le hc⟩
    | @endLoop parent taken stack hline hmg hs' =>
      cases ho
      rw [hs'] at hstack
      cases hstack
      refine ⟨a, .inl rfl, .together ?_ hmask hs, hv, Nat.le_succ_of_le hc⟩
      rw [hpc, ← he]
    | done hline | trapped hline | lane o hline | ifThen hline => cases hline.symm.trans hend'
    | otherwise hline | endIf hline | loop hline | leave hline => cases hline.symm.trans hend'

section Bits

theorem only_getLsbD (m : Mask) (l : Lane) :
    (m &&& laneBit l).getLsbD l.val = m.getLsbD l.val := by
  have h : ∀ (m : Mask) (l : Lane), (m &&& laneBit l).getLsbD l.val = m.getLsbD l.val := by decide
  exact h m l

theorem and_only_of_pred {p q : Mask} (m : Mask) (h : p.getLsbD l.val = q.getLsbD l.val) :
    m &&& laneBit l &&& p = m &&& q &&& laneBit l := by
  have h' : ∀ (p q : Mask) (l : Lane), p.getLsbD l.val = q.getLsbD l.val →
      laneBit l &&& p = q &&& laneBit l := by decide
  rw [BitVec.and_assoc, h' p q l h, BitVec.and_assoc]

theorem andNot_only (p t : Mask) (l : Lane) :
    p &&& laneBit l &&& ~~~(t &&& laneBit l) = p &&& ~~~t &&& laneBit l := by
  have h : ∀ (p t : Mask) (l : Lane),
      p &&& laneBit l &&& ~~~(t &&& laneBit l) = p &&& ~~~t &&& laneBit l := by decide
  exact h p t l

theorem only_loopEntry (m : Mask) (l : Lane) :
    Entry.only l ⟨true, m, 0⟩ = ⟨true, m &&& laneBit l, 0⟩ := by
  have h : (0 : Mask) &&& laneBit l = 0 := BitVec.zero_and
  unfold Entry.only
  rw [h]

theorem breakLanes_alone (h : Shader.breakLanes mask stack = some stack') (l : Lane) :
    Shader.breakLanes (mask &&& laneBit l) (stack.map (Entry.only l)) =
      some (stack'.map (Entry.only l)) := by
  induction stack generalizing stack' with
  | nil => cases h
  | cons e stack ih =>
    unfold Shader.breakLanes at h
    rw [List.map_cons]
    unfold Shader.breakLanes
    split at h
    next hl =>
      cases h
      exact if_pos hl
    next hl =>
      obtain ⟨rest, hr, rfl⟩ := Option.map_eq_some_iff.mp h
      rw [if_neg (show ¬(e.only l).loop = true from hl), ih hr]
      unfold Entry.only
      simp only [Option.map_some, List.map_cons, andNot_only]

end Bits

theorem together_branch {g' a' : Shader} (hf' : Fits L g') (hr : L.Region lo t) (hpc : g'.pc = lo)
    (hopen : L.blocks t ≠ []) (ha : a'.mask = 0) (ht : a'.pc = t)
    (hm : a'.mask = g'.mask &&& laneBit l) (hs : a'.stack = g'.stack.map (Entry.only l)) :
    Tracks L l g' a' := by
  rcases Nat.lt_or_ge g'.pc t with hlt | hge
  · refine .skipped lo t g'.stack ⟨hr, ?_, le_of_lt hlt, ⟨[], rfl, by simp⟩, ?_, ?_⟩ hlt hopen ht ha hs
    · rw [hpc]
    · rw [hf'.stack_length, hpc, hr.same]
    · exact hm.symm.trans ha
  · have he : g'.pc = t := Nat.le_antisymm (hpc ▸ hr.le) hge
    exact .together (ht.trans he.symm) hm hs

theorem together_step (hL : Listing.Loaded L b) (hf : Fits L g) (hf' : Fits L g')
    (hm : Moves L alu b g (.next g')) (hca : a.count ≠ b.limit) (hpc : a.pc = g.pc)
    (hmask : a.mask = g.mask &&& laneBit l) (hs : a.stack = g.stack.map (Entry.only l))
    (hv : a.view l = g.view l) (hc : a.count ≤ g.count) : Advances L l alu b g' a := by
  have hlen : a.stack.length = g.stack.length := by rw [hs, List.length_map]
  have hpred : a.pred.getLsbD l.val = g.pred.getLsbD l.val := congrArg View.pred hv
  have hstep {o : Op} (ho : L.os[g.pc]? = some o) :
      a.step alu b = a.counted.perform alu b (b.program g.pc) o := by
    rw [← hpc] at ho ⊢
    exact step_eq_perform hL ho hca
  have hcount : a.count + 1 ≤ g.count + 1 := Nat.succ_le_succ hc
  generalize ho : Outcome.next g' = outcome at hm
  cases hm with
  | done => cases ho
  | trapped => cases ho
  | lane o hline =>
    cases ho
    obtain ⟨hgm, hgs, _, hgc⟩ := lanes_frame alu b (b.program g.pc) o g.counted
    obtain ⟨ham, has, _, hac⟩ := lanes_frame alu b (b.program g.pc) o a.counted
    refine ⟨_, .inr (hstep hline), .together ?_ ?_ ?_, ?_, ?_⟩
    · exact congrArg (· + 1) hpc
    · change (a.counted.lanes alu b (b.program g.pc) o).mask =
        (g.counted.lanes alu b (b.program g.pc) o).mask &&& laneBit l
      rw [ham, hgm]
      exact hmask
    · change (a.counted.lanes alu b (b.program g.pc) o).stack =
        (g.counted.lanes alu b (b.program g.pc) o).stack.map _
      rw [has, hgs]
      exact hs
    · change (a.counted.lanes alu b (b.program g.pc) o).view l =
        (g.counted.lanes alu b (b.program g.pc) o).view l
      have hbit : a.counted.mask.getLsbD l.val = g.counted.mask.getLsbD l.val := by
        change a.mask.getLsbD l.val = g.mask.getLsbD l.val
        rw [hmask, only_getLsbD]
      have hview : a.counted.view l = g.counted.view l := hv
      rw [lanes_view, lanes_view, hbit, hview]
    · change (a.counted.lanes alu b (b.program g.pc) o).count ≤
        (g.counted.lanes alu b (b.program g.pc) o).count
      rw [hac, hgc]
      exact hcount
  | ifThen hline t ht hr hb _ hroom =>
    cases ho
    have hmask' : a.mask &&& a.pred = g.mask &&& g.pred &&& laneBit l := by
      rw [hmask]
      exact and_only_of_pred g.mask hpred
    have hs' : ⟨false, a.mask, a.mask &&& a.pred⟩ :: a.stack =
        Entry.only l ⟨false, g.mask, g.mask &&& g.pred⟩ :: g.stack.map (Entry.only l) := by
      rw [hmask', hmask, hs]
      rfl
    have hroom' : a.counted.stack.length ≠ 8 := fun h => hroom (hlen.symm.trans h)
    refine ⟨_, .inr ((hstep hline).trans (perform_ifThen alu b _ hroom')), ?_, hv, hcount⟩
    by_cases h0 : a.counted.mask &&& a.counted.pred = 0
    · by_cases hg : g.mask &&& g.pred = 0
      · refine .together ?_ hmask' hs'
        dsimp only
        rw [if_pos h0, if_pos hg, ht]
      · refine together_branch hf' hr (if_neg hg) ?_ h0 ((if_pos h0).trans ht) hmask' hs'
        rw [hb]
        exact List.cons_ne_nil _ _
    · have hg : g.mask &&& g.pred ≠ 0 := by
        intro hg
        apply h0
        change a.mask &&& a.pred = 0
        rw [hmask', hg]
        exact BitVec.zero_and
      refine .together ?_ hmask' hs'
      dsimp only
      rw [if_neg h0, if_neg hg]
      exact congrArg (· + 1) hpc
  | @otherwise stack parent taken hline t ht hr hb _ hs' =>
    cases ho
    have hs'' := hs
    rw [hs', List.map_cons] at hs''
    have hopen : L.blocks t ≠ [] := by
      obtain ⟨p, bs, _, hb', _⟩ := Listing.step_otherwise hline
      rw [hb, hb']
      exact List.cons_ne_nil _ _
    have hmask' := andNot_only parent taken l
    refine ⟨_, .inr ((hstep hline).trans (perform_otherwise alu b _ (s := a.counted) hs'')), ?_, hv,
      hcount⟩
    by_cases h0 : parent &&& laneBit l &&& ~~~(taken &&& laneBit l) = 0
    · by_cases hg : parent &&& ~~~taken = 0
      · refine .together ?_ hmask' hs
        dsimp only
        rw [if_pos h0, if_pos hg, ht]
      · exact together_branch hf' hr (if_neg hg) hopen h0 ((if_pos h0).trans ht) hmask' hs
    · have hg : parent &&& ~~~taken ≠ 0 := by
        intro hg
        apply h0
        rw [hmask', hg]
        exact BitVec.zero_and
      refine .together ?_ hmask' hs
      dsimp only
      rw [if_neg h0, if_neg hg]
      exact congrArg (· + 1) hpc
  | endIf hline hs' =>
    cases ho
    rw [hs', List.map_cons] at hs
    refine ⟨_, .inr ((hstep hline).trans (perform_endIf alu b _ (s := a.counted) hs)),
      .together ?_ rfl rfl, hv, hcount⟩
    exact congrArg (· + 1) hpc
  | loop hline hroom =>
    cases ho
    refine ⟨_, .inr ((hstep hline).trans (perform_loop alu b _ (s := a.counted) ?_)),
      .together ?_ hmask ?_, hv, hcount⟩
    · exact fun h => hroom (hlen.symm.trans h)
    · exact congrArg (· + 1) hpc
    · change ⟨true, a.mask, 0⟩ :: a.stack = Entry.only l ⟨true, g.mask, 0⟩ :: g.stack.map _
      rw [hmask, hs, only_loopEntry]
  | @again stack parent taken hline hmg p ht hr hs' =>
    cases ho
    have hs'' := hs
    rw [hs', List.map_cons] at hs''
    have hp := perform_endLoop alu b (b.program g.pc) (s := a.counted) hs''
    by_cases h0 : a.counted.mask = 0
    · rw [if_neg (not_not.mpr h0)] at hp
      refine ⟨_, .inr ((hstep hline).trans hp), ?_, hv, hcount⟩
      refine .left (p + 1) g.pc ⟨true, parent, taken⟩ stack ⟨hr, le_refl _, hr.le, ⟨[], hs', by simp⟩,
        ?_, ?_⟩ hline ?_ rfl rfl
      · rw [← hs']
        exact hf.stack_length
      · exact hmask.symm.trans h0
      · exact congrArg (· + 1) hpc
    · rw [if_pos h0] at hp
      exact ⟨_, .inr ((hstep hline).trans hp), .together ht hmask hs, hv, hcount⟩
  | endLoop hline hmg hs' =>
    cases ho
    rw [hs', List.map_cons] at hs
    have hzero : a.counted.mask = 0 := by
      change a.mask = 0
      rw [hmask, hmg]
      exact BitVec.zero_and
    have hp := perform_endLoop alu b (b.program g.pc) (s := a.counted) hs
    rw [if_neg (not_not.mpr hzero)] at hp
    refine ⟨_, .inr ((hstep hline).trans hp), .together ?_ rfl rfl, hv, hcount⟩
    exact congrArg (· + 1) hpc
  | @leave stack hline hs' =>
    cases ho
    have hbreak := breakLanes_alone hs' l
    rw [← hmask, ← hs] at hbreak
    refine ⟨_, .inr ((hstep hline).trans (perform_leave alu b _ (s := a.counted) hbreak)),
      .together ?_ ?_ rfl, hv, hcount⟩
    · exact congrArg (· + 1) hpc
    · exact BitVec.zero_and.symm

theorem tracks_step (hL : Listing.Loaded L b) (hf : Fits L g) (hf' : Fits L g')
    (hm : Moves L alu b g (.next g')) (hca : a.count ≠ b.limit) (ht : Tracks L l g a)
    (hv : a.view l = g.view l) (hc : a.count ≤ g.count) : Advances L l alu b g' a := by
  cases ht with
  | together hpc hmask hs => exact together_step hL hf hf' hm hca hpc hmask hs hv hc
  | skipped lo hi base hout hlt hopen hpc hmask hs =>
    exact skipped_step hf hf' hm hout hlt hopen hpc hmask hs hv hc
  | left lo hi e base hout hend hpc hmask hs =>
    exact left_step hf hm hout hend hpc hmask hs hv hc

theorem tracks_done (hL : Listing.Loaded L b) (ho : L.os[g.pc]? = some .stop)
    (hb : L.blocks g.pc = []) (hca : a.count ≠ b.limit) (hf : Fits L g) (ht : Tracks L l g a) :
    a.step alu b = .done a.counted := by
  have hout {lo hi base} (h : Outside L l lo hi base g) : L.blocks hi = [] := by
    have hs := h.region.stays g.pc h.lo_le h.pc_le
    rw [hb] at hs
    exact List.suffix_nil.mp hs
  cases ht with
  | together hpc hmask hs =>
    have hstack : a.stack = [] := by
      rw [hs, hf.stack_nil_iff.mpr hb, List.map_nil]
    rw [← hpc] at ho
    rw [step_eq_perform hL ho hca]
    exact if_neg (not_not.mpr hstack)
  | skipped lo hi base h hlt hopen => exact absurd (hout h) hopen
  | left lo hi e base h hend =>
    obtain ⟨p, bs, hb', _⟩ := Listing.step_endLoop hend
    cases hb'.symm.trans (hout h)

theorem Moves.count (hm : Moves L alu b s (.next s')) : s'.count = s.count + 1 := by
  generalize ho : Outcome.next s' = outcome at hm
  cases hm with
  | done => cases ho
  | trapped => cases ho
  | lane o =>
    cases ho
    exact (lanes_frame alu b (b.program s.pc) o s.counted).2.2.2
  | _ =>
    cases ho
    rfl

theorem reached_count {L : Listing} (hL : L.Loaded b)
    (h : Shader.Reaches alu b (.start mask) s) : s.count ≤ b.limit := by
  induction h with
  | refl => exact Nat.zero_le _
  | next h hs ih =>
    have hc := step_next_count hs
    have hm := next_moves hL (Fits.reached hL h) hs
    have hcount := hm.count
    omega

theorem tracks_reached {L : Listing} (hL : L.Loaded b) (hl : mask.getLsbD l.val = true)
    (h : Shader.Reaches alu b (.start mask) g) :
    ∃ a, Shader.Reaches alu b (.start (laneBit l)) a ∧ Tracks L l g a ∧ a.view l = g.view l ∧
      a.count ≤ g.count := by
  induction h with
  | refl =>
    have hbit : ∀ (m : Mask) (l : Lane), m.getLsbD l.val = true → laneBit l = m &&& laneBit l := by
      decide
    exact ⟨_, .refl _, .together rfl (hbit mask l hl) rfl, rfl, le_refl _⟩
  | @next g g' h hs ih =>
    obtain ⟨a, ha, ht, hv, hc⟩ := ih
    have hf := Fits.reached hL h
    have hne := step_next_count hs
    have hle := reached_count hL h
    have hm := next_moves hL hf hs
    obtain ⟨a', hstep, ht', hv', hc'⟩ :=
      tracks_step hL hf (hf.next hL hm) hm (by omega) ht hv hc
    refine ⟨a', ?_, ht', hv', hc'⟩
    rcases hstep with rfl | hstep
    · exact ha
    · exact .next ha hstep

theorem runFor_reached {L : Listing} (hL : L.Loaded b)
    (h : Shader.Reaches alu b (.start mask) s) (n : Nat) :
    (Shader.start mask).runFor alu b (s.count + n) = s.runFor alu b n := by
  induction h generalizing n with
  | refl =>
    change (Shader.start mask).runFor alu b (0 + n) = _
    rw [Nat.zero_add]
  | @next s s' h hs ih =>
    have hm := next_moves hL (Fits.reached hL h) hs
    rw [hm.count, Nat.add_assoc, ih, Nat.add_comm 1 n]
    unfold Shader.runFor
    rw [hs]
    cases n <;> rfl

theorem run_of_reached {L : Listing} (hL : L.Loaded b)
    (h : Shader.Reaches alu b (.start mask) s) (hd : s.step alu b = .done s') :
    Shader.run alu b mask = .done s' := by
  have hle := reached_count hL h
  have he : b.limit + 1 = s.count + (b.limit - s.count + 1) := by omega
  unfold Shader.run
  rw [he, runFor_reached hL h]
  unfold Shader.runFor
  rw [hd]

theorem reached_of_runFor (n : Nat) (hr : Shader.Reaches alu b s₀ s)
    (h : s.runFor alu b n = .done s') :
    ∃ s₁, Shader.Reaches alu b s₀ s₁ ∧ s₁.step alu b = .done s' := by
  induction n generalizing s with
  | zero => cases h
  | succ n ih =>
    unfold Shader.runFor at h
    split at h
    next s₁ hs => exact ih (.next hr hs) h
    next => exact ⟨s, hr, h⟩

inductive Within (alu : Alu) (b : Batch) (d : Nat) : Shader → Shader → Prop
  | refl (s : Shader) : Within alu b d s s
  | next (h : Within alu b d s s₁) (hs : s₁.step alu b = .next s₂) (hd : d ≤ s₂.stack.length) :
    Within alu b d s s₂

structure Broken (l : Lane) (base : List Entry) (s : Shader) : Prop where
  entries : ∃ above, s.stack = above ++ base ∧ ∀ e ∈ above, Idle l e.parent
  idle : Idle l s.mask

theorem breakLanes_shape (h : Shader.breakLanes mask stack = some stack') :
    ∃ above e below, stack' = above ++ e :: below ∧ e.loop = true ∧
      ∀ x ∈ above, x.loop = false ∧ ∀ l : Lane, mask.getLsbD l.val = true → Idle l x.parent := by
  have hout : ∀ (p m : Mask) (l : Lane), m.getLsbD l.val = true →
      p &&& ~~~m &&& laneBit l = 0 := by decide
  induction stack generalizing stack' with
  | nil => cases h
  | cons e stack ih =>
    unfold Shader.breakLanes at h
    split at h
    next hl =>
      cases h
      exact ⟨[], e, stack, rfl, hl, by simp⟩
    next hl =>
      obtain ⟨rest, hr, rfl⟩ := Option.map_eq_some_iff.mp h
      obtain ⟨above, e', below, rfl, hl', habove⟩ := ih hr
      refine ⟨_ :: above, e', below, rfl, hl', ?_⟩
      intro x hx
      rcases List.mem_cons.mp hx with rfl | hx
      · exact ⟨Bool.not_eq_true _ ▸ hl, fun l hm => hout e.parent mask l hm⟩
      · exact habove x hx

theorem breakLanes_above (he : e.loop = true) (habove : ∀ x ∈ above, Idle l x.parent)
    (h : Shader.breakLanes mask (above ++ e :: below) = some stack) :
    ∃ above', stack = above' ++ e :: below ∧ ∀ x ∈ above', Idle l x.parent := by
  induction above generalizing stack with
  | nil =>
    have hb : Shader.breakLanes mask (e :: below) = some (e :: below) := if_pos he
    cases h.symm.trans hb
    exact ⟨[], rfl, by simp⟩
  | cons x above ih =>
    have hrest := fun x hx => habove x (List.mem_cons_of_mem _ hx)
    rw [List.cons_append] at h
    unfold Shader.breakLanes at h
    split at h
    next =>
      cases h
      exact ⟨x :: above, rfl, habove⟩
    next =>
      obtain ⟨rest, hr, rfl⟩ := Option.map_eq_some_iff.mp h
      obtain ⟨above', rfl, habove'⟩ := ih hrest hr
      refine ⟨_ :: above', rfl, ?_⟩
      intro y hy
      rcases List.mem_cons.mp hy with rfl | hy
      · exact (habove x List.mem_cons_self).and_left _
      · exact habove' y hy

theorem Broken.next (h : Broken l (e :: below) s) (he : e.loop = true)
    (hm : Moves L alu b s (.next s')) (hd : below.length + 1 ≤ s'.stack.length) :
    Broken l (e :: below) s' := by
  obtain ⟨⟨above, hab, habove⟩, hidle⟩ := h
  have hpush {x : Entry} (hx : Idle l x.parent) : ∀ y ∈ x :: above, Idle l y.parent := by
    intro y hy
    rcases List.mem_cons.mp hy with rfl | hy
    · exact hx
    · exact habove y hy
  generalize ho : Outcome.next s' = outcome at hm
  cases hm with
  | done => cases ho
  | trapped => cases ho
  | lane o =>
    cases ho
    obtain ⟨hmask, hstack, _⟩ := lanes_frame alu b (b.program s.pc) o s.counted
    refine ⟨⟨above, hstack.trans hab, habove⟩, ?_⟩
    change Idle l (s.counted.lanes alu b (b.program s.pc) o).mask
    rw [hmask]
    exact hidle
  | ifThen =>
    cases ho
    exact ⟨⟨_ :: above, congrArg _ hab, hpush hidle⟩, hidle.and_left _⟩
  | otherwise _ _ _ _ _ _ hs =>
    cases ho
    refine ⟨⟨above, hab, habove⟩, ?_⟩
    rw [hs] at hab
    cases above with
    | nil =>
      cases hab
      cases he
    | cons x above =>
      cases hab
      exact (habove _ List.mem_cons_self).and_left _
  | endIf _ hs =>
    cases ho
    rw [hs] at hab
    cases above with
    | nil =>
      cases hab
      cases he
    | cons x above =>
      cases hab
      exact ⟨⟨above, rfl, fun y hy => habove y (List.mem_cons_of_mem _ hy)⟩,
        habove _ List.mem_cons_self⟩
  | loop =>
    cases ho
    exact ⟨⟨_ :: above, congrArg _ hab, hpush hidle⟩, hidle⟩
  | again =>
    cases ho
    exact ⟨⟨above, hab, habove⟩, hidle⟩
  | endLoop _ _ hs =>
    cases ho
    rw [hs] at hab
    cases above with
    | nil =>
      cases hab
      exact absurd hd (Nat.not_succ_le_self _)
    | cons x above =>
      cases hab
      exact ⟨⟨above, rfl, fun y hy => habove y (List.mem_cons_of_mem _ hy)⟩,
        habove _ List.mem_cons_self⟩
  | leave _ hs =>
    cases ho
    rw [hab] at hs
    exact ⟨breakLanes_above he habove hs, .zero l⟩

theorem Broken.within {L : Listing} (hL : L.Loaded b) (hf : Fits L s)
    (h : Broken l (e :: below) s) (he : e.loop = true)
    (hw : Within alu b (below.length + 1) s s') : Fits L s' ∧ Broken l (e :: below) s' := by
  induction hw with
  | refl => exact ⟨hf, h⟩
  | @next s₁ s₂ hw hs hd ih =>
    have hm := next_moves hL ih.1 hs
    exact ⟨ih.1.next hL hm, ih.2.next he hm hd⟩

theorem leave_broken {L : Listing} (hL : L.Loaded b) (hf : Fits L s)
    (ho : ops[opCode (b.program s.pc)]? = some .leave) (hs : s.step alu b = .next s₁) :
    ∃ above e below, s₁.stack = above ++ e :: below ∧ e.loop = true ∧
      (∀ x ∈ above, x.loop = false) ∧
      ∀ l : Lane, s.mask.getLsbD l.val = true → Broken l (e :: below) s₁ := by
  have hline : L.os[s.pc]? = some .leave := by
    obtain ⟨o, hline⟩ : ∃ o, L.os[s.pc]? = some o := ⟨_, List.getElem?_eq_getElem hf.line⟩
    rw [hL.code s.pc o hline, Op.ops_code] at ho
    rw [hline, ho]
  have hm := next_moves hL hf hs
  generalize hout : Outcome.next s₁ = outcome at hm
  cases hm with
  | leave _ hb =>
    cases hout
    obtain ⟨above, e, below, rfl, he, habove⟩ := breakLanes_shape hb
    refine ⟨above, e, below, rfl, he, fun x hx => (habove x hx).1, ?_⟩
    intro l hl
    exact ⟨⟨above, rfl, fun x hx => (habove x hx).2 l hl⟩, .zero l⟩
  | done h | trapped h | lane o h | ifThen h | otherwise h | endIf h => cases h.symm.trans hline
  | loop h | again h | endLoop h => cases h.symm.trans hline

/-- Each active lane of a batch that ends without a fault does as it does alone. -/
theorem lane_runs_alone (ha : assemble py text = .ok words) (hb : b.program = load words)
    (hl : mask.getLsbD l.val = true) (hrun : Shader.run alu b mask = .done s) :
    (∃ s', Shader.run alu b (laneBit l) = .done s' ∧ s'.count ≤ s.count ∧
      s'.regs l = s.regs l ∧ s'.pred.getLsbD l.val = s.pred.getLsbD l.val ∧ s'.out l = s.out l) ∧
    ∀ s₀ s₁, Shader.Reaches alu b (.start mask) s₀ →
      ops[opCode (b.program s₀.pc)]? = some .leave → s₀.mask.getLsbD l.val = true →
      s₀.step alu b = .next s₁ →
      ∃ above e below, s₁.stack = above ++ e :: below ∧ e.loop = true ∧
        (∀ x ∈ above, x.loop = false) ∧
        ∀ s₂, Within alu b (below.length + 1) s₁ s₂ → s₂.mask.getLsbD l.val = false := by
  obtain ⟨L, _, hL⟩ := assemble_loaded ha hb
  constructor
  · obtain ⟨g, hg, hdone⟩ := reached_of_runFor (b.limit + 1) (.refl _) hrun
    obtain ⟨a, hreach, ht, hv, hc⟩ := tracks_reached hL hl hg
    have hf := Fits.reached hL hg
    have hle := reached_count hL hg
    have hne : g.count ≠ b.limit := by
      intro hlim
      unfold Shader.step at hdone
      rw [if_pos hlim] at hdone
      cases hdone
    have hm : Moves L alu b g (g.step alu b) := step_moves hL hf hne
    rw [hdone] at hm
    generalize ho : Outcome.done s = outcome at hm
    cases hm with
    | done hline hblocks =>
      cases ho
      have hstep : a.step alu b = .done a.counted :=
        tracks_done hL hline hblocks (by omega) hf ht
      refine ⟨a.counted, run_of_reached hL hreach hstep, Nat.succ_le_succ hc, ?_, ?_, ?_⟩
      · exact congrArg View.regs hv
      · exact congrArg View.pred hv
      · exact congrArg View.out hv
    | _ => cases ho
  · intro s₀ s₁ hr ho hact hs
    have hf := Fits.reached hL hr
    obtain ⟨above, e, below, hstack, he, hifs, hbroken⟩ := leave_broken hL hf ho hs
    refine ⟨above, e, below, hstack, he, hifs, ?_⟩
    intro s₂ hw
    have hm := next_moves hL hf hs
    exact idle_iff.mp ((hbroken l hact).within hL (hf.next hL hm) he hw).2.idle

def breakOut : Text :=
  "SPC r0, lane\nLOOP\nADDI r0, r0, 1\nLDI r1, 4\nSEQ r0, r1\nIF\nBREAK\nENDIF\nENDLOOP\nEND".toList

def breakOutWords : List Word :=
  [0x14000000, 0x64000000, 0x4c000001, 0x04400004, 0x54004000, 0x58000007, 0x6c000000, 0x60000000,
    0x68000002, 0x00000000]

def breakOutBatch : Batch where
  program := load breakOutWords
  consts := fun _ => 0
  inputs := fun _ _ => 0
  vcount := 4
  limit := 100
  batch := 0

theorem breakOut_assembles : assemble plainPython breakOut = .ok breakOutWords := by
  rfl

theorem lane_runs_alone_breakOut : ∃ s, Shader.run emulatorAlu breakOutBatch 15 = .done s ∧
    ∃ s', Shader.run emulatorAlu breakOutBatch (laneBit 2) = .done s' ∧ s'.count ≤ s.count ∧
      s'.regs 2 = s.regs 2 ∧ s'.pred.getLsbD 2 = s.pred.getLsbD 2 ∧ s'.out 2 = s.out 2 := by
  obtain ⟨s, hs⟩ : ∃ s, Shader.run emulatorAlu breakOutBatch 15 = .done s := by
    cases hrun : Shader.run emulatorAlu breakOutBatch 15 with
    | done s => exact ⟨s, rfl⟩
    | _ =>
      have hd : (match Shader.run emulatorAlu breakOutBatch 15 with
        | .done _ => true
        | _ => false) = true := by decide +kernel
      rw [hrun] at hd
      cases hd
  exact ⟨s, hs, (lane_runs_alone breakOut_assembles rfl (by decide) hs).1⟩

end TinyProcessors.G3d
