import TinyProcessors.G3d.Device

namespace TinyProcessors.G3d

structure Triangle.OnScreen (t : Triangle) : Prop where
  left : 0 ≤ t.left
  right : t.right ≤ 319
  top : 0 ≤ t.top
  bottom : t.bottom ≤ 239

structure Pixel.InBox (p : Pixel) (t : Triangle) : Prop where
  left : t.left ≤ p.x
  right : p.x ≤ t.right
  top : t.top ≤ p.y
  bottom : p.y ≤ t.bottom

def Device.Drawing (d : Device) : Prop :=
  match d.phase with
  | .clear => d.index < zBytes / 4
  | .divide => d.div.setup = true → d.tri.OnScreen
  | .test | .zread | .zwrite | .pwrite => d.tri.OnScreen ∧ d.pixel.InBox d.tri
  | _ => True

structure Device.Working (d : Device) : Prop where
  drawing : d.Drawing
  valid : d.phase ≠ .validate → ∃ window, d.toG2.valid window = true

section Phases

variable {d d' : Device}

structure Device.SameJob (d d' : Device) : Prop where
  job : d'.job = d.job
  clearing : d'.clearing = d.clearing

theorem Device.SameJob.valid (h : d.SameJob d') (window : Window) :
    d'.toG2.valid window = d.toG2.valid window := by
  unfold G2.valid toG2
  rw [h.job, h.clearing]

structure Device.Went (d d' : Device) : Prop where
  same : d.SameJob d'
  drawing : d'.Drawing

theorem Device.Went.after {d'' : Device} (h' : d'.Went d'') (h : d.SameJob d') : d.Went d'' :=
  ⟨⟨h'.same.job.trans h.job, h'.same.clearing.trans h.clearing⟩, h'.drawing⟩

theorem Device.drawing_of_phase (h : d.phase ∉ [.clear, .divide, .test, .zread, .zwrite, .pwrite]) :
    d.Drawing := by
  unfold Device.Drawing
  cases hp : d.phase with
  | clear | divide | test | zread | zwrite | pwrite =>
    rw [hp] at h
    exact absurd (by decide) h
  | _ => trivial

theorem Device.nextTriangle_went (d : Device) : d.Went d.nextTriangle := by
  refine ⟨⟨rfl, rfl⟩, drawing_of_phase ?_⟩
  change (if _ then Phase.fetch else Phase.finish) ∉ _
  split
  · decide
  · decide

theorem Device.nextVertex_went (d : Device) : d.Went d.nextVertex := by
  unfold nextVertex
  split
  next => exact ⟨⟨rfl, rfl⟩, trivial⟩
  next =>
    split
    next => exact ⟨⟨rfl, rfl⟩, trivial⟩
    next =>
      refine ⟨⟨rfl, rfl⟩, drawing_of_phase ?_⟩
      change (if _ then Phase.fetch else Phase.finish) ∉ _
      split
      · decide
      · decide

theorem Device.nextPixel_went (ht : d.tri.OnScreen) (hp : d.pixel.InBox d.tri) :
    d.Went d.nextPixel := by
  unfold nextPixel
  split
  next hx =>
    refine ⟨⟨rfl, rfl⟩, ht, ⟨?_, ?_, hp.top, hp.bottom⟩⟩
    · exact hp.left.trans (Int.le_add_one le_rfl)
    · exact hx
  next =>
    split
    next hy =>
      refine ⟨⟨rfl, rfl⟩, ht, ⟨le_rfl, hp.left.trans hp.right, ?_, ?_⟩⟩
      · exact hp.top.trans (Int.le_add_one le_rfl)
      · exact hy
    next => exact d.nextTriangle_went

theorem Device.execute_went (hd : d.phase = .exec) : d.Went d.execute := by
  unfold execute
  split
  next => exact ⟨⟨rfl, rfl⟩, trivial⟩
  next => exact ⟨⟨rfl, rfl⟩, trivial⟩
  next s hs =>
    refine ⟨⟨rfl, rfl⟩, drawing_of_phase ?_⟩
    change d.phase ∉ _
    rw [hd]
    decide

theorem Device.vertexCheck_went (d : Device) : d.Went d.vertexCheck := by
  unfold vertexCheck
  dsimp only
  split
  next =>
    refine ⟨⟨rfl, rfl⟩, fun hs => ?_⟩
    cases hs
  next =>
    exact Went.after (nextVertex_went _) ⟨rfl, rfl⟩

theorem Device.boxed_onScreen (v0 v1 v2 : Vertex) (area : Int) :
    (boxed v0 v1 v2 area).OnScreen := by
  have hlow (a : Int) : 0 ≤ if a < 0 then 0 else a := by split <;> omega
  have hhigh (a b : Int) : (if b < a then b else a) ≤ b := by split <;> omega
  exact ⟨hlow _, hhigh _ 319, hlow _, hhigh _ 239⟩

theorem Device.divideDone_went (hd : d.phase = .divide) (ht : d.div.setup = true → d.tri.OnScreen) :
    d.Went d.divideDone := by
  have hnext (d₁ : Device) (hp : d₁.phase = .divide) (hs : d₁.div.setup = d.div.setup)
      (htri : d₁.tri = d.tri) (hj : d.SameJob d₁) : d.Went d₁.nextDivide := by
    refine ⟨⟨hj.job, hj.clearing⟩, ?_⟩
    unfold Drawing
    rw [show d₁.nextDivide.phase = .divide from hp]
    intro hset
    have hset' : d.div.setup = true := hs.symm.trans hset
    exact (show d₁.nextDivide.tri = d.tri from htri) ▸ ht hset'
  unfold divideDone
  dsimp only
  split
  next =>
    split
    next => exact hnext _ hd rfl rfl ⟨rfl, rfl⟩
    next => exact Went.after (nextVertex_went _) ⟨rfl, rfl⟩
  next hset =>
    split
    next => exact hnext _ hd rfl rfl ⟨rfl, rfl⟩
    next =>
      split
      next => exact Went.after (nextTriangle_went _) ⟨rfl, rfl⟩
      next hbox =>
        rw [not_or, not_lt, not_lt] at hbox
        refine ⟨⟨rfl, rfl⟩, ht (by simpa using hset), ?_⟩
        exact ⟨le_rfl, hbox.1, le_rfl, hbox.2⟩

theorem Device.cull_went (d : Device) : d.Went d.cull := Went.after (nextTriangle_went _) ⟨rfl, rfl⟩

theorem Device.fetch_went (d : Device) : d.Went d.fetch := by
  unfold fetch
  dsimp only
  split
  next => exact Went.after (cull_went _) ⟨rfl, rfl⟩
  next => exact ⟨⟨rfl, rfl⟩, trivial⟩

theorem Device.area_went (d : Device) : d.Went d.area := by
  unfold area
  dsimp only
  split
  next => exact d.cull_went
  next => exact ⟨⟨rfl, rfl⟩, fun _ => boxed_onScreen _ _ _ _⟩

theorem Device.test_went (ht : d.tri.OnScreen) (hp : d.pixel.InBox d.tri) : d.Went d.test := by
  unfold test
  dsimp only
  split
  next => exact nextPixel_went ht hp
  next => exact ⟨⟨rfl, rfl⟩, ht, ⟨hp.left, hp.right, hp.top, hp.bottom⟩⟩

theorem Device.checkIndex_went (d : Device) : d.Went d.checkIndex := by
  unfold checkIndex
  split
  next => exact ⟨⟨rfl, rfl⟩, trivial⟩
  next =>
    refine ⟨⟨rfl, rfl⟩, drawing_of_phase ?_⟩
    change (if _ then Phase.batch else Phase.index) ∉ _
    split
    · decide
    · decide

theorem Board.clear_went {s : Board} (hi : s.dev.index < zBytes / 4) :
    s.dev.Went s.clear.dev := by
  have hphase : s.clear.dev.phase =
      if s.dev.index + 1 = zBytes / 4 then .finish else .clear := rfl
  refine ⟨⟨rfl, rfl⟩, ?_⟩
  unfold Device.Drawing
  rw [hphase]
  split_ifs with h
  · trivial
  · change s.dev.index + 1 < zBytes / 4
    omega

theorem Board.zread_went {s : Board} (ht : s.dev.tri.OnScreen) (hp : s.dev.pixel.InBox s.dev.tri) :
    s.dev.Went s.zread.dev := by
  unfold zread
  dsimp only
  split
  next => exact ⟨⟨rfl, rfl⟩, ht, hp⟩
  next => exact Device.Went.after (Device.nextPixel_went ht hp) ⟨rfl, rfl⟩

theorem Board.pwrite_went {s : Board} (ht : s.dev.tri.OnScreen)
    (hp : s.dev.pixel.InBox s.dev.tri) : s.dev.Went s.pwrite.dev :=
  Device.Went.after (Device.nextPixel_went ht hp) ⟨rfl, rfl⟩

theorem Board.phase_went {s : Board} (hd : s.dev.Drawing) (hp : s.dev.phase ≠ .validate)
    (window : Window) (hold : Bool) : s.dev.Went (s.phase window hold).dev := by
  have hstall : s.dev.Went s.dev.stall := ⟨⟨rfl, rfl⟩, hd⟩
  unfold Board.phase
  unfold Device.Drawing at hd
  dsimp only
  cases hphase : s.dev.phase with
  | validate => exact absurd hphase hp
  | index => exact s.dev.checkIndex_went
  | batch => exact ⟨⟨rfl, rfl⟩, trivial⟩
  | exec => exact Device.execute_went hphase
  | vcheck => exact s.dev.vertexCheck_went
  | divide =>
    rw [hphase] at hd
    dsimp only
    split
    next => exact Device.Went.after (Device.divideDone_went rfl hd) ⟨rfl, rfl⟩
    next => exact ⟨⟨rfl, rfl⟩, hd⟩
  | fetch => exact s.dev.fetch_went
  | area => exact s.dev.area_went
  | test =>
    rw [hphase] at hd
    exact Device.test_went hd.1 hd.2
  | zread =>
    rw [hphase] at hd
    dsimp only
    split
    next => exact hstall
    next => exact zread_went hd.1 hd.2
  | zwrite =>
    rw [hphase] at hd
    dsimp only
    split
    next => exact hstall
    next => exact ⟨⟨rfl, rfl⟩, hd⟩
  | pwrite =>
    rw [hphase] at hd
    dsimp only
    split
    next => exact hstall
    next => exact pwrite_went hd.1 hd.2
  | clear =>
    rw [hphase] at hd
    dsimp only
    split
    next => exact hstall
    next => exact clear_went hd
  | finish | idle => exact ⟨⟨rfl, rfl⟩, trivial⟩

structure Device.InBounds (w : Window) (d : Device) : Prop where
  drawing : d.Drawing
  valid : d.phase ≠ .validate → d.toG2.valid w = true

theorem Device.InBounds.working (h : d.InBounds w) : d.Working :=
  ⟨h.drawing, fun hp => ⟨w, h.valid hp⟩⟩

theorem Device.Working.inBounds (h : d.Working) : ∃ w, d.InBounds w := by
  by_cases hp : d.phase = .validate
  · exact ⟨⟨0, 0⟩, h.drawing, fun hne => absurd hp hne⟩
  · obtain ⟨w, hw⟩ := h.valid hp
    exact ⟨w, h.drawing, fun _ => hw⟩

theorem Device.validate_inBounds (d : Device) (window : Window)
    (hb : (d.validate window).status = .busy) : (d.validate window).InBounds window := by
  unfold validate at hb ⊢
  split at hb
  next => cases hb
  next hv =>
    have hvalid : d.toG2.valid window = true := by simpa using hv
    rw [if_neg hv]
    split
    next =>
      refine ⟨by change 0 < zBytes / 4; decide, fun _ => ?_⟩
      exact (SameJob.valid ⟨rfl, rfl⟩ window).trans hvalid
    next =>
      refine ⟨drawing_of_phase ?_, fun _ => ?_⟩
      · change (if _ then Phase.index else Phase.batch) ∉ _
        split
        · decide
        · decide
      · exact (SameJob.valid ⟨rfl, rfl⟩ window).trans hvalid

def Device.runs (d : Device) : Bool := !d.commandTick && d.status = .busy

def Device.checkedWith (d : Device) (w window : Window) : Window :=
  if d.runs && d.phase = .validate then window else w

theorem Board.tick_inBounds {s : Board} (h : s.dev.status = .busy → s.dev.InBounds w)
    (window : Window) (hold : Bool) (hb : (s.tick window hold).dev.status = .busy) :
    (s.tick window hold).dev.InBounds (s.dev.checkedWith w window) := by
  unfold Device.checkedWith Device.runs
  unfold tick at hb ⊢
  split at hb
  next hc =>
    rw [if_pos hc, hc]
    have hw := h hb
    exact ⟨hw.drawing, hw.valid⟩
  next hc =>
    rw [if_neg hc]
    split at hb
    next hn => exact absurd hb hn
    next hn =>
      rw [if_neg hn]
      have hbusy : s.dev.status = .busy := not_not.mp hn
      have hw := h hbusy
      by_cases hp : s.dev.phase = .validate
      · unfold phase at hb ⊢
        dsimp only at hb ⊢
        rw [hp] at hb ⊢
        rw [if_pos (by simp [hc, hbusy])]
        exact Device.validate_inBounds _ window hb
      · have hwent := phase_went (s := { s with dev := { s.dev with cycles := s.dev.cycles + 1 } })
          hw.drawing hp window hold
        rw [if_neg (by simp [hp])]
        exact ⟨hwent.drawing, fun _ => (hwent.same.valid w).trans (hw.valid hp)⟩

theorem Board.tick_working {s : Board} (h : s.dev.status = .busy → s.dev.Working)
    (window : Window) (hold : Bool) (hb : (s.tick window hold).dev.status = .busy) :
    (s.tick window hold).dev.Working := by
  obtain ⟨w, hw⟩ : ∃ w, s.dev.status = .busy → s.dev.InBounds w := by
    by_cases hs : s.dev.status = .busy
    · obtain ⟨w, hw⟩ := (h hs).inBounds
      exact ⟨w, fun _ => hw⟩
    · exact ⟨⟨0, 0⟩, fun hs' => absurd hs' hs⟩
  exact (tick_inBounds hw window hold hb).working

theorem Device.store_inBounds (hs : d.store offset value otherBusy = some d')
    (hb : d'.status = .busy) (w : Window) : d'.InBounds w := by
  unfold store at hs
  split at hs
  next => cases hs
  next =>
    split at hs
    next =>
      split at hs
      next => cases hs
      next hn =>
        cases hs
        exact absurd hb hn
    next =>
      split at hs
      next => cases hs
      next =>
        split at hs
        next =>
          cases hs
          cases hb
        next =>
          split at hs
          next => cases hs
          next =>
            cases hs
            exact ⟨trivial, fun hp => absurd rfl hp⟩

theorem Device.store_working (hs : d.store offset value otherBusy = some d')
    (hb : d'.status = .busy) : d'.Working := (store_inBounds hs hb ⟨0, 0⟩).working

end Phases

def Device.ramTouched (d : Device) (hold : Bool) : List Int :=
  if d.runs && !hold then
    match d.phase with
    | .zread | .zwrite => [d.zoff, d.zoff + 1]
    | .clear => [0, 1, 2, 3].map ((wrap32 (d.job.zbase.toNat - 0x80000000 + 4 * d.index) : Int) + ·)
    | _ => []
  else []

def Device.fbTouched (d : Device) (hold : Bool) : List Int :=
  if d.runs && !hold && d.phase = .pwrite then [wrap32 (d.pixel.y * 320 + d.pixel.x)] else []

structure Device.Reach (w : Window) (hold : Bool) (d : Device) : Prop where
  ram : ∀ i ∈ d.ramTouched hold, (0 ≤ i ∧ i < 0x1000000) ∧
    (w.start.toNat ≤ 0x80000000 + i ∧ 0x80000000 + i < w.stop.toNat) ∧
    d.toG2.zLocked (0x80000000 + i.toNat) 1 = true
  fb : ∀ i ∈ d.fbTouched hold, 0 ≤ i ∧ i < 320 * 240

section Touched

variable {d : Device} {w : Window} {hold : Bool}

theorem G2.valid_depth {d : G2} (h : d.valid w = true) :
    (0x80000000 ≤ d.zbase.toNat ∧ d.zbase.toNat + zBytes ≤ 0x81000000) ∧
      w.start.toNat ≤ d.zbase.toNat ∧ d.zbase.toNat + zBytes ≤ w.stop.toNat := by
  unfold G2.valid at h
  simp only [Bool.and_eq_true, decide_eq_true_eq, BitVec.le_def] at h
  obtain ⟨⟨⟨⟨⟨_, hstart⟩, hstop⟩, hlow⟩, hhigh⟩, _⟩ := h
  have hbase : (0x80000000 : Word).toNat = 0x80000000 := rfl
  rw [hbase] at hstart
  unfold zBytes at hstop hhigh ⊢
  omega

theorem Device.depth_reach (hb : d.status = .busy) (hv : d.toG2.valid w = true) {k : Nat}
    (hk : k < zBytes) (hi : i = (d.job.zbase.toNat : Int) - 0x80000000 + k) :
    (0 ≤ i ∧ i < 0x1000000) ∧
      (w.start.toNat ≤ 0x80000000 + i ∧ 0x80000000 + i < w.stop.toNat) ∧
      d.toG2.zLocked (0x80000000 + i.toNat) 1 = true := by
  obtain ⟨⟨hlow, hend⟩, hstart, hstop⟩ := G2.valid_depth hv
  have hzbase : d.toG2.zbase = d.job.zbase := rfl
  rw [hzbase] at hlow hend hstart hstop
  have hbusy : d.toG2.status = .busy := hb
  unfold zBytes at *
  refine ⟨by omega, by omega, ?_⟩
  unfold G2.zLocked
  rw [hzbase]
  unfold zBytes
  simp only [Bool.and_eq_true, decide_eq_true_eq]
  exact ⟨⟨hbusy, by omega⟩, by omega⟩

theorem Device.runs_busy (h : d.runs = true) : d.status = .busy := by
  unfold runs at h
  simp only [Bool.and_eq_true, decide_eq_true_eq] at h
  exact h.2

theorem Device.zoff_eq (ht : d.tri.OnScreen) (hp : d.pixel.InBox d.tri)
    (hv : d.toG2.valid w = true) :
    ∃ k : Nat, k + 1 < zBytes ∧ (d.zoff : Int) = (d.job.zbase.toNat : Int) - 0x80000000 + k := by
  obtain ⟨⟨hlow, hend⟩, _⟩ := G2.valid_depth hv
  have hzbase : d.toG2.zbase = d.job.zbase := rfl
  rw [hzbase] at hlow hend
  have := ht.left
  have := ht.right
  have := ht.top
  have := ht.bottom
  have := hp.left
  have := hp.right
  have := hp.top
  have := hp.bottom
  refine ⟨(2 * (d.pixel.y * 320 + d.pixel.x)).toNat, ?_, ?_⟩
  · unfold zBytes
    omega
  · unfold zoff wrap32
    unfold zBytes at hend
    omega

theorem Device.InBounds.ram_reach (h : d.InBounds w) (hi : i ∈ d.ramTouched hold) :
    (0 ≤ i ∧ i < 0x1000000) ∧
      (w.start.toNat ≤ 0x80000000 + i ∧ 0x80000000 + i < w.stop.toNat) ∧
      d.toG2.zLocked (0x80000000 + i.toNat) 1 = true := by
  have hd := h.drawing
  unfold Drawing at hd
  unfold ramTouched at hi
  split at hi
  next hr =>
    have hb := runs_busy (Bool.and_eq_true_iff.mp hr).1
    have hdepth (hp : d.phase ≠ .validate) (hd : d.tri.OnScreen ∧ d.pixel.InBox d.tri)
        (hi : i ∈ [(d.zoff : Int), d.zoff + 1]) :
        (0 ≤ i ∧ i < 0x1000000) ∧
          (w.start.toNat ≤ 0x80000000 + i ∧ 0x80000000 + i < w.stop.toNat) ∧
          d.toG2.zLocked (0x80000000 + i.toNat) 1 = true := by
      obtain ⟨k, hk, hz⟩ := zoff_eq hd.1 hd.2 (h.valid hp)
      rcases List.mem_pair.mp hi with rfl | rfl
      · exact depth_reach hb (h.valid hp) (by omega) hz
      · exact depth_reach hb (h.valid hp) hk (by push_cast; omega)
    cases hp : d.phase with
    | zread | zwrite =>
      rw [hp] at hd hi
      exact hdepth (by rw [hp]; rintro ⟨⟩) hd hi
    | clear =>
      rw [hp] at hd hi
      have hv := h.valid (by rw [hp]; rintro ⟨⟩)
      obtain ⟨⟨hlow, hend⟩, _⟩ := G2.valid_depth hv
      have hzbase : d.toG2.zbase = d.job.zbase := rfl
      rw [hzbase] at hlow hend
      have hindex : d.index < zBytes / 4 := hd
      obtain ⟨k, hk, rfl⟩ := List.mem_map.mp hi
      have hk' : 0 ≤ k ∧ k < 4 := by
        simp only [List.mem_cons, List.not_mem_nil, or_false] at hk
        omega
      unfold zBytes at hindex hend
      refine depth_reach hb hv (k := 4 * d.index + k.toNat) (by unfold zBytes; omega) ?_
      unfold wrap32
      push_cast
      omega
    | _ =>
      rw [hp] at hi
      cases hi
  next => cases hi

theorem Device.fbAt_eq (ht : d.tri.OnScreen) (hp : d.pixel.InBox d.tri) :
    wrap32 (d.pixel.y * 320 + d.pixel.x) = d.fbAt ∧ d.fbAt < 320 * 240 := by
  have := ht.left
  have := ht.right
  have := ht.top
  have := ht.bottom
  have := hp.left
  have := hp.right
  have := hp.top
  have := hp.bottom
  have hat : 0 ≤ d.pixel.y * 320 + d.pixel.x ∧ d.pixel.y * 320 + d.pixel.x < 320 * 240 := by omega
  obtain ⟨n, hn⟩ := Int.eq_ofNat_of_zero_le hat.1
  unfold fbAt
  rw [hn] at hat ⊢
  rw [wrap32_of_lt (by omega)]
  exact ⟨rfl, by omega⟩

theorem Device.InBounds.fb_reach (h : d.InBounds w) (hi : i ∈ d.fbTouched hold) :
    0 ≤ i ∧ i < 320 * 240 := by
  have hd := h.drawing
  unfold Drawing at hd
  unfold fbTouched at hi
  split at hi
  next hr =>
    simp only [Bool.and_eq_true, decide_eq_true_eq] at hr
    rw [hr.2] at hd
    obtain ⟨hat, hlt⟩ := fbAt_eq hd.1 hd.2
    obtain rfl := List.mem_singleton.mp hi
    rw [hat]
    omega
  next => cases hi

theorem Device.reach (h : d.status = .busy → d.InBounds w) (hold : Bool) : d.Reach w hold := by
  have htouch {i : Int} (hi : i ∈ d.ramTouched hold ∨ i ∈ d.fbTouched hold) : d.InBounds w := by
    apply h
    apply runs_busy
    unfold ramTouched fbTouched at hi
    cases hr : d.runs with
    | true => rfl
    | false =>
      rw [hr] at hi
      simp at hi
  exact ⟨fun i hi => (htouch (.inl hi)).ram_reach hi, fun i hi => (htouch (.inr hi)).fb_reach hi⟩

def Device.Confined (hold : Bool) (d : Device) : Prop :=
  ∀ (ram ram' fb fb' : Bytes) (window : Window),
    (∀ i ∈ d.ramTouched hold, ram i.toNat = ram' i.toNat) →
    (Board.tick window hold ⟨d, ram, fb⟩).dev = (Board.tick window hold ⟨d, ram', fb'⟩).dev ∧
      (∀ i : Nat, (i : Int) ∉ d.ramTouched hold →
        (Board.tick window hold ⟨d, ram, fb⟩).ram i = ram i) ∧
      ∀ i : Nat, (i : Int) ∉ d.fbTouched hold →
        (Board.tick window hold ⟨d, ram, fb⟩).fb i = fb i

theorem setDepth_of_ne {ram : Bytes} (h : i ≠ j) (h' : i ≠ j + 1) : setDepth ram j z i = ram i := by
  unfold setDepth
  rw [Function.update_of_ne h', Function.update_of_ne h]

theorem Board.zread_memory (s : Board) : s.zread.ram = s.ram ∧ s.zread.fb = s.fb := by
  unfold zread
  dsimp only
  split
  · exact ⟨rfl, rfl⟩
  · exact ⟨rfl, rfl⟩

theorem Board.zread_dev {s s' : Board} (hd : s.dev = s'.dev)
    (h : depthAt s.ram s.dev.zoff = depthAt s'.ram s'.dev.zoff) : s.zread.dev = s'.zread.dev := by
  have hz : depthAt s.ram s.dev.transfer.zoff = depthAt s'.ram s'.dev.transfer.zoff := h
  unfold zread
  dsimp only
  rw [hz, hd]
  split
  · rfl
  · rfl

theorem Board.clear_frame {s : Board}
    (h : i < s.dev.job.zbase.toNat - 0x80000000 + 4 * s.dev.index ∨
      s.dev.job.zbase.toNat - 0x80000000 + 4 * s.dev.index + 4 ≤ i) : s.clear.ram i = s.ram i := by
  simp only [clear, Device.transfer]
  exact overwrite_of_not_mem h

theorem Board.clear_dev {s s' : Board} (h : s.dev = s'.dev) : s.clear.dev = s'.clear.dev := by
  unfold clear
  dsimp only
  rw [h]

theorem Device.InBounds.clear_frame (h : d.InBounds w) (hp : d.phase = .clear) (s : Board)
    (hj : s.dev.job = d.job) (hi : s.dev.index = d.index) {i : Nat}
    (hn : (i : Int) ∉ [0, 1, 2, 3].map
      ((wrap32 (d.job.zbase.toNat - 0x80000000 + 4 * d.index) : Int) + ·)) :
    s.clear.ram i = s.ram i := by
  have hd := h.drawing
  unfold Drawing at hd
  rw [hp] at hd
  have hindex : d.index < zBytes / 4 := hd
  obtain ⟨⟨hlow, hend⟩, _⟩ := G2.valid_depth (h.valid (by rw [hp]; rintro ⟨⟩))
  have hzbase : d.toG2.zbase = d.job.zbase := rfl
  rw [hzbase] at hlow hend
  simp only [List.map_cons, List.map_nil, List.mem_cons, List.not_mem_nil, or_false, not_or] at hn
  unfold zBytes at hindex hend
  unfold wrap32 at hn
  apply Board.clear_frame
  rw [hj, hi]
  omega

theorem Device.confined (h : d.status = .busy → d.InBounds w) (hold : Bool) : d.Confined hold := by
  intro ram ram' fb fb' window hram
  unfold Board.tick
  dsimp only
  split
  next => exact ⟨rfl, fun _ _ => rfl, fun _ _ => rfl⟩
  next hc =>
    split
    next => exact ⟨rfl, fun _ _ => rfl, fun _ _ => rfl⟩
    next hn =>
      have hin := h (not_not.mp hn)
      have hruns : d.runs = true := by
        unfold runs
        simp only [Bool.and_eq_true, decide_eq_true_eq]
        exact ⟨by simpa using hc, not_not.mp hn⟩
      unfold ramTouched at hram ⊢
      unfold fbTouched
      rw [hruns] at hram ⊢
      unfold Board.phase
      dsimp only
      cases hp : d.phase with
      | zread =>
        rw [hp] at hram
        cases hold with
        | true => exact ⟨rfl, fun _ _ => rfl, fun _ _ => rfl⟩
        | false =>
          have hdepth : depthAt ram d.zoff = depthAt ram' d.zoff := by
            unfold depthAt
            have h₀ := hram (d.zoff : Nat) (by simp)
            have h₁ := hram (d.zoff + 1 : Nat) (by simp)
            rw [Int.toNat_natCast] at h₀ h₁
            rw [h₀, h₁]
          refine ⟨Board.zread_dev rfl hdepth, fun i _ => ?_, fun i _ => ?_⟩
          · exact congrFun (Board.zread_memory _).1 i
          · exact congrFun (Board.zread_memory _).2 i
      | zwrite =>
        cases hold with
        | true => exact ⟨rfl, fun _ _ => rfl, fun _ _ => rfl⟩
        | false =>
          refine ⟨rfl, fun i hi => ?_, fun _ _ => rfl⟩
          simp only [Bool.not_false, Bool.and_self, if_true, List.mem_cons, List.not_mem_nil, or_false,
            not_or] at hi
          exact setDepth_of_ne (fun he => hi.1 (congrArg Nat.cast he))
            (fun he => hi.2 (by rw [he]; rfl))
      | clear =>
        cases hold with
        | true =>
          simp only [if_true]
          exact ⟨trivial, fun _ _ => trivial, fun _ _ => trivial⟩
        | false =>
          refine ⟨Board.clear_dev rfl, fun i hi => ?_, fun _ _ => rfl⟩
          simp only [Bool.not_false, Bool.and_self, if_true] at hi
          exact hin.clear_frame hp
            ⟨{ d with cycles := d.cycles + 1, phase := .clear }, ram, fb⟩ rfl rfl hi
      | pwrite =>
        cases hold with
        | true => exact ⟨rfl, fun _ _ => rfl, fun _ _ => rfl⟩
        | false =>
          refine ⟨rfl, fun _ _ => rfl, fun i hi => Function.update_of_ne (fun he => hi ?_) _ _⟩
          have hd := hin.drawing
          unfold Drawing at hd
          rw [hp] at hd
          have hat : i = d.fbAt := he
          simp [hat, (fbAt_eq hd.1 hd.2).1]
      | _ => exact ⟨rfl, fun _ _ => rfl, fun _ _ => rfl⟩

end Touched

end TinyProcessors.G3d
