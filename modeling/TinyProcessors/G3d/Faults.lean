import TinyProcessors.G3d.Assembled

namespace TinyProcessors.G3d

def depthBefore (os : List Op) (pc : Nat) : Nat :=
  (os.take pc).foldl (fun depth o =>
    match o with
    | .ifThen | .loop => depth + 1
    | .endIf | .endLoop => depth - 1
    | _ => depth) 0

def EndInBlock (py : Python) (text : Text) (pc : Nat) : Prop :=
  (textOps py text)[pc]? = some .stop ∧ depthBefore (textOps py text) pc ≠ 0

theorem Listing.depthBefore_eq (L : Listing) (pc : Nat) (h : pc ≤ L.os.length) :
    depthBefore L.os pc = (L.blocks pc).length := by
  induction pc with
  | zero =>
    rw [L.start]
    rfl
  | succ pc ih =>
    obtain ⟨o, ho⟩ : ∃ o, L.os[pc]? = some o := ⟨_, List.getElem?_eq_getElem (by omega)⟩
    have ih := ih (by omega)
    obtain ⟨ps, hn⟩ := L.step pc o ho
    unfold depthBefore at ih ⊢
    rw [List.take_add_one, ho, Option.toList_some, List.foldl_append, ih]
    generalize L.blocks pc = before at hn ⊢
    generalize L.blocks (pc + 1) = after at hn ⊢
    cases hn <;> rfl

structure Listing.Loaded (L : Listing) (b : Batch) : Prop where
  short : L.os.length ≤ 128
  ends : L.os.getLast? = some .stop
  code : ∀ (pc : Nat) (o : Op), L.os[pc]? = some o → opCode (b.program pc) = o.code
  goes : ∀ (pc k t : Nat), L.Settles k pc t → target (b.program pc) = t

theorem Listing.Assembles.loaded {L : Listing} (h : L.Assembles words) (hl : L.os.length ≤ 128)
    (he : L.os.getLast? = some .stop) (hb : b.program = load words) : L.Loaded b := by
  have hword {pc : Nat} {w : Word} (hw : words[pc]? = some w) : b.program pc = w := by
    rw [hb]
    unfold load
    rw [List.getD_eq_getElem?_getD, hw]
    rfl
  refine ⟨hl, he, ?_, ?_⟩
  · intro pc o ho
    obtain ⟨w, hw, hc, _⟩ := h pc o ho
    rw [hword hw, hc]
  · intro pc k t hs
    obtain ⟨o, ho⟩ : ∃ o, L.os[pc]? = some o := by
      rcases hs.line with ho | ho | ho
      · exact ⟨_, ho⟩
      · exact ⟨_, ho⟩
      · exact ⟨_, ho⟩
    obtain ⟨w, hw, _, ht⟩ := h pc o ho
    rw [hword hw]
    exact ht k t hs

theorem assemble_loaded (h : assemble py text = .ok words) (hb : b.program = load words) :
    ∃ L : Listing, L.os = textOps py text ∧ L.Loaded b := by
  obtain ⟨L, hos, ha, hl, he⟩ := assemble_listing h
  exact ⟨L, hos, ha.loaded hl he hb⟩

structure Fits (L : Listing) (s : Shader) : Prop where
  line : s.pc < L.os.length
  kinds : s.stack.map (·.loop) = (L.blocks s.pc).map (·.loop)

theorem Fits.stack_length (h : Fits L s) : s.stack.length = (L.blocks s.pc).length := by
  have hl := congrArg List.length h.kinds
  rwa [List.length_map, List.length_map] at hl

theorem after_lt {L : Listing} {pc : Nat} (he : L.os.getLast? = some .stop) (ho : L.os[pc]? = some o)
    (hne : o ≠ .stop) : pc + 1 < L.os.length := by
  have hlt := Listing.lt_length ho
  rcases Nat.lt_or_ge (pc + 1) L.os.length with h | h
  · exact h
  · have hlast : pc = L.os.length - 1 := by omega
    rw [List.getLast?_eq_getElem?, ← hlast, ho] at he
    cases he
    exact absurd rfl hne

theorem Fits.top (h : Fits L s) (hb : L.blocks s.pc = b :: bs) :
    ∃ e stack, s.stack = e :: stack ∧ e.loop = b.loop ∧
      stack.map (·.loop) = bs.map (·.loop) := by
  have hk := h.kinds
  rw [hb] at hk
  cases hs : s.stack with
  | nil =>
    rw [hs] at hk
    cases hk
  | cons e stack =>
    rw [hs] at hk
    obtain ⟨he, hrest⟩ := List.cons.inj hk
    exact ⟨e, stack, rfl, he, hrest⟩

theorem breakLanes_some (mask : Mask) (h : stack.any (·.loop) = true) :
    ∃ stack', Shader.breakLanes mask stack = some stack' := by
  induction stack with
  | nil => cases h
  | cons e stack ih =>
    unfold Shader.breakLanes
    split
    next => exact ⟨_, rfl⟩
    next hl =>
      obtain ⟨stack', hs⟩ := ih (by simpa [hl] using h)
      rw [hs]
      exact ⟨_, rfl⟩

theorem breakLanes_kinds (h : Shader.breakLanes mask stack = some stack') :
    stack'.map (·.loop) = stack.map (·.loop) := by
  induction stack generalizing stack' with
  | nil => cases h
  | cons e stack ih =>
    unfold Shader.breakLanes at h
    split at h
    next =>
      cases h
      rfl
    next =>
      obtain ⟨rest, hr, rfl⟩ := Option.map_eq_some_iff.mp h
      rw [List.map_cons, List.map_cons, ih hr]

theorem laneStep_frame (alu : Alu) (b : Batch) (w : Word) (o : LaneOp) (s : Shader) (l : Lane) :
    (s.laneStep alu b w o l).mask = s.mask ∧ (s.laneStep alu b w o l).stack = s.stack ∧
      (s.laneStep alu b w o l).pc = s.pc ∧ (s.laneStep alu b w o l).count = s.count := by
  cases o <;> exact ⟨rfl, rfl, rfl, rfl⟩

theorem lanes_frame (alu : Alu) (b : Batch) (w : Word) (o : LaneOp) (s : Shader) :
    (s.lanes alu b w o).mask = s.mask ∧ (s.lanes alu b w o).stack = s.stack ∧
      (s.lanes alu b w o).pc = s.pc ∧ (s.lanes alu b w o).count = s.count := by
  unfold Shader.lanes
  generalize ([0, 1, 2, 3] : List Lane) = ls
  induction ls generalizing s with
  | nil => exact ⟨rfl, rfl, rfl, rfl⟩
  | cons l ls ih =>
    rw [List.foldl_cons]
    split
    next =>
      obtain ⟨hm, hs, hp, hc⟩ := ih (s.laneStep alu b w o l)
      obtain ⟨hm', hs', hp', hc'⟩ := laneStep_frame alu b w o s l
      exact ⟨hm.trans hm', hs.trans hs', hp.trans hp', hc.trans hc'⟩
    next => exact ih s

def Shader.counted (s : Shader) : Shader := { s with count := s.count + 1 }

section Perform

variable (alu : Alu) (b : Batch) (w : Word) {s : Shader}

theorem perform_ifThen (h : s.stack.length ≠ 8) :
    s.perform alu b w .ifThen = .next { s with
      stack := ⟨false, s.mask, s.mask &&& s.pred⟩ :: s.stack
      mask := s.mask &&& s.pred
      pc := if s.mask &&& s.pred = 0 then target w else s.pc + 1 } :=
  if_neg h

theorem perform_loop (h : s.stack.length ≠ 8) :
    s.perform alu b w .loop =
      .next { s with stack := ⟨true, s.mask, 0⟩ :: s.stack, pc := s.pc + 1 } :=
  if_neg h

theorem perform_otherwise (hs : s.stack = ⟨false, parent, taken⟩ :: stack) :
    s.perform alu b w .otherwise = .next { s with
      mask := parent &&& ~~~taken
      pc := if parent &&& ~~~taken = 0 then target w else s.pc + 1 } := by
  obtain ⟨regs, out, pred, mask, stack', pc, count⟩ := s
  cases hs
  rfl

theorem perform_endIf (hs : s.stack = ⟨false, parent, taken⟩ :: stack) :
    s.perform alu b w .endIf =
      .next { s with mask := parent, stack := stack, pc := s.pc + 1 } := by
  obtain ⟨regs, out, pred, mask, stack', pc, count⟩ := s
  cases hs
  rfl

theorem perform_endLoop (hs : s.stack = ⟨true, parent, taken⟩ :: stack) :
    s.perform alu b w .endLoop =
      if s.mask ≠ 0 then .next { s with pc := target w }
      else .next { s with mask := parent, stack := stack, pc := s.pc + 1 } := by
  obtain ⟨regs, out, pred, mask, stack', pc, count⟩ := s
  cases hs
  rfl

theorem perform_leave (hs : Shader.breakLanes s.mask s.stack = some stack) :
    s.perform alu b w .leave =
      .next { s with stack := stack, mask := 0, pc := s.pc + 1 } := by
  unfold Shader.perform
  rw [hs]

end Perform

/-- What can come of an instruction of a loaded program within the limit. -/
inductive Moves (L : Listing) (alu : Alu) (b : Batch) (s : Shader) : Outcome → Prop
  | done (ho : L.os[s.pc]? = some .stop) (hb : L.blocks s.pc = []) : Moves L alu b s (.done s.counted)
  | trapped (ho : L.os[s.pc]? = some .stop) (hb : L.blocks s.pc ≠ []) :
    Moves L alu b s (.fault .mismatch s.counted)
  | lane (o : LaneOp) (ho : L.os[s.pc]? = some (.lane o)) :
    Moves L alu b s
      (.next { s.counted.lanes alu b (b.program s.pc) o with pc := s.pc + 1 })
  | ifThen (ho : L.os[s.pc]? = some .ifThen) (t : Nat) (ht : target (b.program s.pc) = t)
    (hr : L.Region (s.pc + 1) t) (hb : L.blocks t = ⟨false, s.pc, none⟩ :: L.blocks s.pc)
    (hlt : t < L.os.length) (hroom : s.stack.length ≠ 8) :
    Moves L alu b s
      (.next { s.counted with
        stack := ⟨false, s.mask, s.mask &&& s.pred⟩ :: s.stack
        mask := s.mask &&& s.pred
        pc := if s.mask &&& s.pred = 0 then t else s.pc + 1 })
  | otherwise (ho : L.os[s.pc]? = some .otherwise) (t : Nat) (ht : target (b.program s.pc) = t)
    (hr : L.Region (s.pc + 1) t) (hb : L.blocks t = L.blocks (s.pc + 1)) (hlt : t < L.os.length)
    (hs : s.stack = ⟨false, parent, taken⟩ :: stack) :
    Moves L alu b s
      (.next { s.counted with
        mask := parent &&& ~~~taken
        pc := if parent &&& ~~~taken = 0 then t else s.pc + 1 })
  | endIf (ho : L.os[s.pc]? = some .endIf) (hs : s.stack = ⟨false, parent, taken⟩ :: stack) :
    Moves L alu b s
      (.next { s.counted with mask := parent, stack := stack, pc := s.pc + 1 })
  | loop (ho : L.os[s.pc]? = some .loop) (hroom : s.stack.length ≠ 8) :
    Moves L alu b s
      (.next { s.counted with stack := ⟨true, s.mask, 0⟩ :: s.stack, pc := s.pc + 1 })
  | again (ho : L.os[s.pc]? = some .endLoop) (hm : s.mask ≠ 0) (p : Nat)
    (ht : target (b.program s.pc) = p + 1) (hr : L.Region (p + 1) s.pc)
    (hs : s.stack = ⟨true, parent, taken⟩ :: stack) :
    Moves L alu b s (.next { s.counted with pc := p + 1 })
  | endLoop (ho : L.os[s.pc]? = some .endLoop) (hm : s.mask = 0)
    (hs : s.stack = ⟨true, parent, taken⟩ :: stack) :
    Moves L alu b s
      (.next { s.counted with mask := parent, stack := stack, pc := s.pc + 1 })
  | leave (ho : L.os[s.pc]? = some .leave) (hs : Shader.breakLanes s.mask s.stack = some stack) :
    Moves L alu b s (.next { s.counted with stack := stack, mask := 0, pc := s.pc + 1 })

theorem step_eq_perform {s : Shader} (hL : Listing.Loaded L b) (ho : L.os[s.pc]? = some o)
    (hc : s.count ≠ b.limit) :
    s.step alu b = s.counted.perform alu b (b.program s.pc) o := by
  have hlt := Listing.lt_length ho
  have hshort := hL.short
  unfold Shader.step
  rw [if_neg hc, if_neg (by omega), hL.code s.pc o ho, Op.ops_code]
  rfl

theorem Fits.room (h : Fits L s) (ho : L.os[s.pc]? = some o)
    (hb : L.blocks (s.pc + 1) = x :: L.blocks s.pc) : s.stack.length ≠ 8 := by
  have hd := L.depth (s.pc + 1) (Listing.lt_length ho)
  rw [hb, List.length_cons] at hd
  have hl := h.stack_length
  omega

theorem Fits.stack_nil_iff (h : Fits L s) : s.stack = [] ↔ L.blocks s.pc = [] := by
  rw [← List.length_eq_zero_iff, ← List.length_eq_zero_iff, h.stack_length]

theorem step_moves (hL : Listing.Loaded L b) (hf : Fits L s) (hc : s.count ≠ b.limit) :
    Moves L alu b s (s.step alu b) := by
  obtain ⟨o, ho⟩ : ∃ o, L.os[s.pc]? = some o := ⟨_, List.getElem?_eq_getElem hf.line⟩
  rw [step_eq_perform hL ho hc]
  cases o with
  | stop =>
    by_cases hb : L.blocks s.pc = []
    · have he : s.counted.perform alu b (b.program s.pc) .stop = .done s.counted :=
        if_neg (not_not.mpr (hf.stack_nil_iff.mpr hb))
      rw [he]
      exact .done ho hb
    · have he : s.counted.perform alu b (b.program s.pc) .stop = .fault .mismatch s.counted :=
        if_pos fun hs => hb (hf.stack_nil_iff.mp hs)
      rw [he]
      exact .trapped ho hb
  | lane o => exact .lane o ho
  | ifThen =>
    obtain ⟨t, hs, hr, hb, hline⟩ := Listing.ifThen_settled ho
    have hroom := hf.room ho (Listing.step_ifThen ho)
    have ht := hL.goes s.pc t t hs
    have hlt : t < L.os.length := by
      rcases hline with hline | hline
      · exact Listing.lt_length hline
      · exact Listing.lt_length hline
    rw [perform_ifThen alu b (b.program s.pc) (s := s.counted) hroom, ht]
    exact .ifThen ho t ht hr hb hlt hroom
  | otherwise =>
    obtain ⟨t, hset, hr, hb, hline⟩ := Listing.otherwise_settled ho
    obtain ⟨p, bs, hb', _, _⟩ := Listing.step_otherwise ho
    obtain ⟨⟨loop, parent, taken⟩, stack, hs, hl, _⟩ := hf.top hb'
    cases hl
    have ht := hL.goes s.pc t t hset
    rw [perform_otherwise alu b (b.program s.pc) (s := s.counted) hs, ht]
    exact .otherwise ho t ht hr hb (Listing.lt_length hline) hs
  | endIf =>
    obtain ⟨b', bs, hb', hloop, _⟩ := Listing.step_endIf ho
    obtain ⟨⟨loop, parent, taken⟩, stack, hs, hl, _⟩ := hf.top hb'
    cases hl.trans hloop
    rw [perform_endIf alu b (b.program s.pc) (s := s.counted) hs]
    exact .endIf ho hs
  | loop =>
    have hroom := hf.room ho (Listing.step_loop ho)
    rw [perform_loop alu b (b.program s.pc) (s := s.counted) hroom]
    exact .loop ho hroom
  | endLoop =>
    obtain ⟨p, bs, hb', _, hset, hr⟩ := Listing.endLoop_settled ho
    obtain ⟨⟨loop, parent, taken⟩, stack, hs, hl, _⟩ := hf.top hb'
    cases hl
    have ht := hL.goes s.pc s.pc (p + 1) hset
    rw [perform_endLoop alu b (b.program s.pc) (s := s.counted) hs, ht]
    by_cases hm : s.counted.mask = 0
    · rw [if_neg (not_not.mpr hm)]
      exact .endLoop ho hm hs
    · rw [if_pos hm]
      exact .again ho hm p ht hr hs
  | leave =>
    have hany : s.stack.any (·.loop) = true := by
      have hb := (Listing.step_leave ho).1
      have hmap := congrArg (List.any · id) hf.kinds
      simpa only [List.any_map, Function.comp_def, id_eq, hb] using hmap
    obtain ⟨stack, hs⟩ := breakLanes_some s.mask hany
    rw [perform_leave alu b (b.program s.pc) (s := s.counted) hs]
    exact .leave ho hs

theorem Fits.next (hf : Fits L s) (hL : Listing.Loaded L b) (hm : Moves L alu b s (.next s')) :
    Fits L s' := by
  have hk := hf.kinds
  generalize ho : Outcome.next s' = outcome at hm
  cases hm with
  | done => cases ho
  | trapped => cases ho
  | lane o hline =>
    cases ho
    refine ⟨after_lt hL.ends hline (by simp), ?_⟩
    change (s.counted.lanes alu b (b.program s.pc) o).stack.map _ = _
    rw [(lanes_frame alu b (b.program s.pc) o s.counted).2.1, Listing.step_lane hline]
    exact hk
  | ifThen hline t _ hr hb ht =>
    cases ho
    constructor
    · change (if s.mask &&& s.pred = 0 then t else s.pc + 1) < L.os.length
      split
      next => exact ht
      next => exact after_lt hL.ends hline (by simp)
    · change false :: s.stack.map (·.loop) = (L.blocks (if _ then t else s.pc + 1)).map _
      rw [hk]
      split
      next => rw [hb, List.map_cons]
      next => rw [Listing.step_ifThen hline, List.map_cons]
  | otherwise hline t _ hr hb ht hs =>
    cases ho
    have hnext : s.stack.map (·.loop) = (L.blocks (s.pc + 1)).map (·.loop) := by
      obtain ⟨p, bs, hb₁, hb₂, _⟩ := Listing.step_otherwise hline
      rw [hk, hb₁, hb₂, List.map_cons, List.map_cons]
    constructor
    · dsimp only
      split
      next => exact ht
      next => exact after_lt hL.ends hline (by simp)
    · change s.stack.map (·.loop) = (L.blocks (if _ then t else s.pc + 1)).map _
      split
      next => rw [hb, hnext]
      next => exact hnext
  | endIf hline hs =>
    cases ho
    obtain ⟨b', bs, hb, _, hb'⟩ := Listing.step_endIf hline
    refine ⟨after_lt hL.ends hline (by simp), ?_⟩
    rw [hs, hb] at hk
    change _ = (L.blocks (s.pc + 1)).map _
    rw [hb']
    exact (List.cons.inj hk).2
  | loop hline =>
    cases ho
    refine ⟨after_lt hL.ends hline (by simp), ?_⟩
    change true :: s.stack.map (·.loop) = (L.blocks (s.pc + 1)).map _
    rw [hk, Listing.step_loop hline, List.map_cons]
  | again hline hmask p _ hr hs =>
    cases ho
    have hle := hr.le
    have hlt := hf.line
    constructor
    · change p + 1 < L.os.length
      omega
    · change s.stack.map (·.loop) = (L.blocks (p + 1)).map _
      rw [hr.same, hk]
  | endLoop hline hmask hs =>
    cases ho
    obtain ⟨p, bs, hb, hb', _⟩ := Listing.step_endLoop hline
    refine ⟨after_lt hL.ends hline (by simp), ?_⟩
    rw [hs, hb] at hk
    change _ = (L.blocks (s.pc + 1)).map _
    rw [hb']
    exact (List.cons.inj hk).2
  | leave hline hs =>
    cases ho
    refine ⟨after_lt hL.ends hline (by simp), ?_⟩
    change _ = (L.blocks (s.pc + 1)).map _
    rw [(Listing.step_leave hline).2, breakLanes_kinds hs]
    exact hk

theorem step_next_count {s : Shader} (h : s.step alu b = .next s') : s.count ≠ b.limit := by
  intro hc
  unfold Shader.step at h
  rw [if_pos hc] at h
  cases h

theorem next_moves {s : Shader} (hL : Listing.Loaded L b) (hf : Fits L s)
    (h : s.step alu b = .next s') : Moves L alu b s (.next s') := by
  rw [← h]
  exact step_moves hL hf (step_next_count h)

theorem Fits.step (hf : Fits L s) (hL : Listing.Loaded L b) (h : s.step alu b = .next s') :
    Fits L s' := hf.next hL (next_moves hL hf h)

theorem Fits.start {L : Listing} (hL : L.Loaded b) (mask : Mask) : Fits L (.start mask) := by
  constructor
  · change 0 < L.os.length
    apply List.length_pos_iff.mpr
    intro he
    have hends := hL.ends
    rw [he] at hends
    cases hends
  · change [] = (L.blocks 0).map _
    rw [L.start]
    rfl

theorem Fits.reached {L : Listing} (hL : L.Loaded b) (h : Shader.Reaches alu b (.start mask) s) :
    Fits L s := by
  induction h with
  | refl => exact .start hL mask
  | next h hs ih => exact ih.step hL hs

theorem reaches_head {s : Shader} (h : s.step alu b = .next s₁)
    (hr : Shader.Reaches alu b s₁ s₂) : Shader.Reaches alu b s s₂ := by
  induction hr with
  | refl => exact .next (.refl _) h
  | next _ hs ih => exact .next ih hs

theorem reaches_of_runFor (n : Nat) {s : Shader} (h : s.runFor alu b n = .next s') :
    Shader.Reaches alu b s s' := by
  induction n generalizing s with
  | zero =>
    cases h
    exact .refl _
  | succ n ih =>
    unfold Shader.runFor at h
    split at h
    next s₁ hs => exact reaches_head hs (ih h)
    next hne => exact absurd h (hne s')

/-- An accepted program faults within the limit exactly at an END in an open block. -/
theorem faults_at_nested_end (ha : assemble py text = .ok words) (hb : b.program = load words)
    (hr : Shader.Reaches alu b (.start mask) s) :
    (∃ e s', s.step alu b = .fault e s' ∧ e ≠ .limit) ↔
      s.count ≠ b.limit ∧ EndInBlock py text s.pc := by
  obtain ⟨L, hos, hL⟩ := assemble_loaded ha hb
  have hf := Fits.reached hL hr
  have hdepth := L.depthBefore_eq s.pc (le_of_lt hf.line)
  unfold EndInBlock
  rw [← hos, hdepth]
  constructor
  · rintro ⟨e, s', hs, he⟩
    have hc : s.count ≠ b.limit := by
      intro hc
      unfold Shader.step at hs
      rw [if_pos hc] at hs
      cases hs
      exact he rfl
    have hm : Moves L alu b s (s.step alu b) := step_moves hL hf hc
    rw [hs] at hm
    generalize ho : Outcome.fault e s' = outcome at hm
    cases hm with
    | trapped hline hb => exact ⟨hc, hline, fun h0 => hb (List.length_eq_zero_iff.mp h0)⟩
    | _ => cases ho
  · rintro ⟨hc, hline, hd⟩
    rw [step_eq_perform hL hline hc]
    have hs : s.stack ≠ [] := by
      rw [← hf.stack_length] at hd
      exact fun hs => hd (List.length_eq_zero_iff.mpr hs)
    exact ⟨.mismatch, s.counted, if_pos hs, by simp⟩

def plainPython : Python where
  splitlines := List.splitOn '\n'
  strip t := ((t.dropWhile (· = ' ')).reverse.dropWhile (· = ' ')).reverse
  upper := List.map Char.toUpper
  lower := List.map Char.toLower
  isdigit t := !t.isEmpty && t.all Char.isDigit
  int t := some (t.foldl (fun n c => 10 * n + (c.toNat - 48)) 0 : Nat)
  intLiteral t := some (t.foldl (fun n c => 10 * n + (c.toNat - 48)) 0 : Nat)
  fixed _ := none

def nestedEnd : Text := "SEQ r0, r0\nIF\nEND\nENDIF\nEND".toList

def nestedEndWords : List Word := [0x54000000, 0x58000003, 0x00000000, 0x60000000, 0x00000000]

def nestedEndBatch : Batch where
  program := load nestedEndWords
  consts := fun _ => 0
  inputs := fun _ _ => 0
  vcount := 4
  limit := 100
  batch := 0

theorem nestedEnd_assembles : assemble plainPython nestedEnd = .ok nestedEndWords := by
  rfl

theorem faults_at_nested_end_third : ∃ s,
    (Shader.start 15).runFor modelAlu nestedEndBatch 2 = .next s ∧
      ((∃ e s', s.step modelAlu nestedEndBatch = .fault e s' ∧ e ≠ .limit) ↔
        s.count ≠ nestedEndBatch.limit ∧ EndInBlock plainPython nestedEnd s.pc) := by
  obtain ⟨s, hs⟩ : ∃ s, (Shader.start 15).runFor modelAlu nestedEndBatch 2 = .next s := ⟨_, rfl⟩
  exact ⟨s, hs, faults_at_nested_end nestedEnd_assembles rfl (reaches_of_runFor 2 hs)⟩

theorem nested_end_mismatches : ∃ s, assemble plainPython nestedEnd = .ok nestedEndWords ∧
    nestedEndBatch.program = load nestedEndWords ∧
    Shader.run modelAlu nestedEndBatch 15 = .fault .mismatch s :=
  ⟨_, nestedEnd_assembles, rfl, rfl⟩

end TinyProcessors.G3d
