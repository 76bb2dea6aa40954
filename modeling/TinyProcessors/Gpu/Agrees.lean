import TinyProcessors.Gpu.Shapes

namespace TinyProcessors

section Valid

variable {g : G1} {window : Window}

theorem coord_bounds (h : coord a = true) : -1024 ≤ a.toInt ∧ a.toInt ≤ 1023 := by
  unfold coord at h
  simpa using h

theorem small_toInt {a : Word} (h : a ≤ 2048) : a.toInt = a.toNat := by
  apply BitVec.toInt_eq_toNat_of_lt
  have hle : a.toNat ≤ 2048 := h
  omega

theorem G1.valid_op (h : g.valid window = true) :
    g.p .op = gpuFill ∨ g.p .op = gpuBlit ∨ g.p .op = gpuLine ∨ g.p .op = gpuTriangle := by
  unfold valid at h
  simp only [Bool.and_eq_true, decide_eq_true_eq] at h
  obtain ⟨⟨⟨⟨⟨⟨⟨⟨h1, h4⟩, _⟩, _⟩, _⟩, _⟩, _⟩, _⟩, _⟩ := h
  have hlo : 1 ≤ (g.p .op).toNat := h1
  have hhi : (g.p .op).toNat ≤ 4 := h4
  have hcase : (g.p .op).toNat = 1 ∨ (g.p .op).toNat = 2 ∨ (g.p .op).toNat = 3 ∨
    (g.p .op).toNat = 4 := by omega
  rcases hcase with hn | hn | hn | hn
  · exact .inl (BitVec.eq_of_toNat_eq hn)
  · exact .inr (.inl (BitVec.eq_of_toNat_eq hn))
  · exact .inr (.inr (.inl (BitVec.eq_of_toNat_eq hn)))
  · exact .inr (.inr (.inr (BitVec.eq_of_toNat_eq hn)))

theorem G1.valid_line (h : g.valid window = true) (hop : g.p .op = gpuLine) :
    |Gp.x1.int g.p - Gp.x0.int g.p| < 4096 ∧ |Gp.y1.int g.p - Gp.y0.int g.p| < 4096 := by
  unfold valid at h
  simp only [hop, Bool.and_eq_true, Bool.or_eq_true] at h
  obtain ⟨⟨⟨⟨⟨⟨⟨⟨_, _⟩, _⟩, hx0⟩, hy0⟩, hend⟩, _⟩, _⟩, _⟩ := h
  obtain ⟨hx1, hy1⟩ := hend.resolve_left (by decide)
  have := coord_bounds hx0
  have := coord_bounds hy0
  have := coord_bounds hx1
  have := coord_bounds hy1
  rw [abs_lt, abs_lt]
  unfold Gp.int
  omega

theorem G1.valid_blit (h : g.valid window = true) (hop : g.p .op = gpuBlit) :
    ((g.p .sw).toInt = (g.p .sw).toNat ∧ (g.p .sh).toInt = (g.p .sh).toNat) ∧
      (g.p .src = fbAddress ∨ 0x80000000 ≤ (g.p .src).toNat ∧ g.sourceEnd ≤ 0x81000000) := by
  unfold valid at h
  simp only [hop, Bool.and_eq_true, Bool.or_eq_true] at h
  obtain ⟨_, hblit⟩ := h
  obtain ⟨⟨⟨⟨⟨⟨⟨⟨_, _⟩, _⟩, hsw⟩, _⟩, hsh⟩, _⟩, _⟩, hsource⟩ := hblit.resolve_left (by simp)
  refine ⟨⟨small_toInt (of_decide_eq_true hsw), small_toInt (of_decide_eq_true hsh)⟩, ?_⟩
  by_cases hfb : g.p .src = fbAddress
  · exact .inl hfb
  · rw [if_neg hfb] at hsource
    simp only [Bool.and_eq_true, decide_eq_true_eq] at hsource
    exact .inr ⟨hsource.1.1.1, hsource.1.1.2⟩

theorem G1.valid_framebuffer (h : g.valid window = true) (hop : g.p .op = gpuBlit)
    (hsrc : g.p .src = fbAddress) : g.p .sw = 320 ∧ g.p .sh = 240 ∧ g.p .stride = 320 := by
  unfold valid at h
  simp only [hop, Bool.and_eq_true, Bool.or_eq_true] at h
  obtain ⟨_, hblit⟩ := h
  obtain ⟨_, hsource⟩ := hblit.resolve_left (by simp)
  rw [if_pos hsrc] at hsource
  simp only [Bool.and_eq_true, decide_eq_true_eq] at hsource
  exact ⟨hsource.1.1, hsource.1.2, hsource.2⟩

end Valid

section Blit

variable {g : G1} {window : Window}

theorem G1.sourceEnd_lt (h : g.valid window = true) (hop : g.p .op = gpuBlit) :
    g.sourceEnd < 2 ^ 32 := by
  by_cases hfb : g.p .src = fbAddress
  · obtain ⟨hsw, hsh, hstride⟩ := valid_framebuffer h hop hfb
    unfold sourceEnd
    rw [hfb, hsw, hsh, hstride]
    decide
  · have := ((g.valid_blit h hop).2.resolve_left hfb).2
    omega

theorem G1.blit_offset (h : g.valid window = true) (hop : g.p .op = gpuBlit)
    (hq : inBlit g.p q = true) :
    ∃ i : Nat, wrap32 ((Gp.sy.int g.p + q.y - Gp.y0.int g.p) * (g.p .stride).toNat +
      (Gp.sx.int g.p + q.x - Gp.x0.int g.p)) = i ∧ (g.p .src).toNat + i < g.sourceEnd := by
  obtain ⟨hsw, hsh⟩ := (g.valid_blit h hop).1
  have hend := g.sourceEnd_lt h hop
  have hrange : (0 ≤ Gp.sx.int g.p + q.x - Gp.x0.int g.p ∧
      Gp.sx.int g.p + q.x - Gp.x0.int g.p < (g.p .sw).toNat) ∧
      0 ≤ Gp.sy.int g.p + q.y - Gp.y0.int g.p ∧
      Gp.sy.int g.p + q.y - Gp.y0.int g.p < (g.p .sh).toNat := by
    unfold inBlit blitRange at hq
    simp only [Bool.and_eq_true, decide_eq_true_eq] at hq
    unfold Gp.int at *
    omega
  generalize Gp.sx.int g.p + q.x - Gp.x0.int g.p = u at hrange ⊢
  generalize Gp.sy.int g.p + q.y - Gp.y0.int g.p = v at hrange ⊢
  obtain ⟨⟨hu0, hu1⟩, hv0, hv1⟩ := hrange
  obtain ⟨u, rfl⟩ := Int.eq_ofNat_of_zero_le hu0
  obtain ⟨v, rfl⟩ := Int.eq_ofNat_of_zero_le hv0
  have hmul : v * (g.p .stride).toNat ≤ ((g.p .sh).toNat - 1) * (g.p .stride).toNat :=
    Nat.mul_le_mul_right _ (by omega)
  unfold sourceEnd at hend ⊢
  refine ⟨v * (g.p .stride).toNat + u, ?_, by omega⟩
  rw [← Nat.cast_mul, ← Nat.cast_add]
  apply wrap32_of_lt
  omega

theorem blit_color (h : g.valid window = true) (hop : g.p .op = gpuBlit) (ram : Bytes) (d : Plot)
    (hq : inBlit g.p q = true) :
    (d.blitBox g.p).color g.p ram q = blitColor (gpuSource ram g.p) g.p q := by
  funext fb
  unfold Plot.color
  rw [if_pos hop]
  unfold Plot.sourcePixel blitColor gpuSource
  have hat : (d.blitBox g.p).sourceAt g.p q = wrap32 ((Gp.sy.int g.p + q.y - Gp.y0.int g.p) *
    (g.p .stride).toNat + (Gp.sx.int g.p + q.x - Gp.x0.int g.p)) := rfl
  obtain ⟨i, hi, hlt⟩ := g.blit_offset h hop hq
  rw [hat, hi]
  by_cases hfb : g.p .src = fbAddress
  · rw [if_pos hfb, if_pos hfb]
    rfl
  · rw [if_neg hfb, if_neg hfb]
    obtain ⟨hlow, hend⟩ := (g.valid_blit h hop).2.resolve_left hfb
    have hram : wrap32 (((g.p .src).toNat : Int) - 0x80000000 + i) =
        (g.p .src).toNat - 0x80000000 + i := by
      unfold wrap32
      omega
    rw [hram]
    rfl

theorem blit_draws (h : g.valid window = true) (hop : g.p .op = gpuBlit) (ram : Bytes) (d : Plot)
    (color : UInt8) (c : Canvas) :
    Plot.Draws g.p ram d c (c.blit (gpuSource ram g.p) g.p color) := by
  let d' := d.blitBox g.p
  have hsetup : d.setup g.p = if d'.empty then (d', false)
      else (d'.goto ⟨d'.firstX, d'.firstY⟩, true) := by
    unfold Plot.setup
    dsimp only
    rw [hop]
    exact (if_neg (by decide)).trans (if_neg fun h => absurd h.1 (by decide))
  have hstep : d'.step = 1 ∨ d'.step = -1 := by
    change (if _ then -1 else 1 : Int) = 1 ∨ (if _ then -1 else 1 : Int) = -1
    split_ifs
    · exact .inr rfl
    · exact .inl rfl
  have hclip : d'.Clipped := by
    constructor
    · exact le_max_of_le_left (le_max_left _ _)
    · exact min_le_of_left_le (min_le_left _ _)
    · exact le_max_of_le_left (le_max_left _ _)
    · exact min_le_of_left_le (min_le_left _ _)
  have hdraw := Plot.draws_box ram (by rw [hop]; decide) hstep hclip hsetup c
  have hcovers : d'.box.filter (d'.covers g.p) = d'.box := by
    apply List.filter_eq_self.mpr
    intro q hq
    unfold Plot.covers
    rw [hclip.onScreen_box hq, hop]
    rfl
  rw [hcovers, d.blitBox_box] at hdraw
  have hcolor : c.draw (d'.color g.p ram) ((blitPoints g.p).filter (inBlit g.p)) =
      c.draw (blitColor (gpuSource ram g.p) g.p) ((blitPoints g.p).filter (inBlit g.p)) :=
    Canvas.draw_congr (fun q hq => blit_color h hop ram d (List.mem_filter.mp hq).2) c
  rw [Canvas.blit_eq hop, ← hcolor]
  exact hdraw

end Blit

theorem valid_draws {g : G1} (h : g.valid window = true) (base : Nat) (ram : Bytes) (d : Plot)
    (fb : Bytes) :
    ∃ c, gpuReference base (gpuSource ram g.p) g.p fb = some c ∧
      Plot.Draws g.p ram d ⟨fb, []⟩ c := by
  unfold gpuReference
  dsimp only
  rcases g.valid_op h with hop | hop | hop | hop
  · exact ⟨_, if_pos hop, Plot.fill_draws hop base ram d _⟩
  · refine ⟨_, ?_, blit_draws h hop ram d (UInt8.ofNat (g.p .color).toNat) _⟩
    rw [hop]
    rfl
  · obtain ⟨hx, hy⟩ := g.valid_line h hop
    obtain ⟨c, hc, hd⟩ := Plot.line_draws hop hx hy ram d ⟨fb, []⟩
    refine ⟨c, ?_, hd⟩
    rw [← hc, hop]
    rfl
  · refine ⟨_, ?_, Plot.triangle_draws hop ram d _⟩
    rw [hop]
    rfl

def Screen.run (ram : Bytes) (window : Window) (hold : Nat → Bool) (n : Nat) (s : Screen) : Screen :=
  clock (fun granted s => s.tick ram window !granted) (fun t => !hold t) 0 n s

def Screen.visited (ram : Bytes) (window : Window) (hold : Nat → Bool) (n : Nat) (s : Screen) :
    List Point :=
  (clock (logging (fun granted s => s.tick ram window !granted) Screen.scans) (fun t => !hold t) 0 n
    (s, [])).2

section Run

variable {ram : Bytes} {window : Window} {hold : Nat → Bool}

theorem Screen.tick_rest {s : Screen} (hs : s.gpu.status ≠ .busy) (hc : s.gpu.commandTick = false)
    (hold : Bool) : s.tick ram window hold = s := by
  unfold tick
  rw [hc, if_neg (by simp), if_pos hs]

theorem Screen.scans_rest {s : Screen} (hs : s.gpu.status ≠ .busy) : s.scans = [] := by
  unfold scans
  rw [if_neg (by simp [hs])]

theorem Screen.run_scans (hhold : ∀ t, ∃ k, hold (t + k) = false) {s s' : Screen}
    (h : Scans ram window s.forget qs s')
    (hs : s'.gpu.status ≠ .busy) (hc : s'.gpu.commandTick = false) :
    ∃ n, ∀ m, n ≤ m →
      (s.run ram window hold m).forget = s' ∧ s.visited ram window hold m = qs := by
  have hfair : Fair fun t => !hold t := by
    intro t
    obtain ⟨k, hk⟩ := hhold t
    exact ⟨k, congrArg not hk⟩
  obtain ⟨n, hn, _⟩ := (h.logging []).runs hfair 0
  let cycle : Bool → Screen → Screen := fun granted s => s.tick ram window !granted
  let logged (m : Nat) := clock (logging cycle Screen.scans) (fun t => !hold t) 0 m (s, [])
  have hmark (s : Screen) : s.scans = s.forget.scans := rfl
  have hview : Prod.map Screen.forget id (logged n) = _ :=
    logging_view (tick_forget ram window) hmark 0 n (s, [])
  obtain ⟨hend, hlog⟩ := Prod.mk.inj (hview.trans hn)
  refine ⟨n, fun m hm => ?_⟩
  obtain ⟨k, rfl⟩ := Nat.exists_eq_add_of_le hm
  rw [← hend] at hs hc
  have hstatus : (logged n).1.gpu.status ≠ .busy := hs
  have hrest : logged (n + k) = logged n := by
    refine (clock_add 0 n k (s, [])).trans (clock_rest (fun granted => ?_) _ k)
    refine Prod.ext (tick_rest hstatus hc _) ?_
    change (logged n).2 ++ (logged n).1.scans = (logged n).2
    rw [scans_rest hstatus, List.append_nil]
  have hrun : (logged (n + k)).1 = s.run ram window hold (n + k) := logging_fst 0 (n + k) (s, [])
  refine ⟨?_, ?_⟩
  · rw [← hrun, hrest]
    exact hend
  · change (logged (n + k)).2 = qs
    rw [hrest]
    exact hlog

theorem Gpu.store_start {g g' : Gpu} (h : g.store 0 gpuStart = some g') : g.command = g' := by
  have hstore : g.store 0 gpuStart = if gpuStart ≠ gpuStart ∨ g.status = .busy then none
    else some g.command := rfl
  rw [hstore] at h
  split_ifs at h
  exact Option.some.inj h

theorem command_scans (ram : Bytes) (window : Window) (g : Gpu) (fb : Bytes) :
    Scans ram window (Screen.forget ⟨g.command, fb⟩) []
      ⟨.working g.p g.plot g.pixel 0 0 .busy .setup, fb⟩ := traces_tick rfl fun _ => rfl

theorem Gpu.setup_of_valid {g : Gpu} (hv : g.toG1.valid window = true)
    (hs : g.plot.setup g.p = (d, more)) :
    g.setup window = if more then { g with plot := d, phase := .scan }
      else { g with plot := d, phase := .idle, status := .done } := by
  unfold setup
  rw [if_pos hv, hs]
  cases more with
  | true => rfl
  | false => rfl

theorem setup_scans {g : Gpu} (hv : g.toG1.valid window = true)
    (hs : g.plot.setup g.p = (d, more)) (fb : Bytes) :
    Scans ram window ⟨.working g.p g.plot g.pixel 0 0 .busy .setup, fb⟩ []
      ⟨.working g.p d g.pixel 0 0 (if more then .busy else .done) (if more then .scan else .idle),
        fb⟩ := by
  let g₁ : Gpu := { Gpu.working g.p g.plot g.pixel 0 0 .busy .setup with cycles := 1 }
  have hvalid : g₁.toG1.valid window = true := hv
  have hsetup := Gpu.setup_of_valid hvalid hs
  refine traces_tick rfl fun granted => ?_
  refine (congrArg (fun g => Screen.forget ⟨g, fb⟩) hsetup).trans ?_
  cases more with
  | true => rfl
  | false => rfl

theorem draws_scans {g : Gpu} {c : Canvas} (hv : g.toG1.valid window = true)
    (hd : Plot.Draws g.p ram g.plot ⟨fb, []⟩ c) :
    ∃ d pixel reads writes qs, Scans ram window
      ⟨.working g.p g.plot g.pixel 0 0 .busy .setup, fb⟩ qs
      ⟨.working g.p d pixel reads writes .done .idle, c.fb⟩ ∧
      writes.toNat = c.drawn.length := by
  rcases hd with ⟨d', hs, rfl⟩ | ⟨d', qs, hs, hvisits, _, hlen, rfl⟩
  · exact ⟨d', g.pixel, 0, 0, [], setup_scans hv hs fb, rfl⟩
  · obtain ⟨d'', pixel, reads, hscan⟩ := hvisits.traces g.pixel 0 0 ⟨fb, []⟩
    refine ⟨d'', pixel, reads, _, qs, (setup_scans hv hs fb).trans hscan, ?_⟩
    rw [Canvas.draw_drawn, List.nil_append, List.length_map]
    change (0#32 + _).toNat = _
    rw [BitVec.zero_add, BitVec.toNat_ofNat]
    exact Nat.mod_eq_of_lt (lt_of_le_of_lt (List.length_filter_le _ _) hlen)

theorem fault_scans {g : Gpu} (hv : ¬g.toG1.valid window = true) (fb : Bytes) :
    Scans ram window ⟨.working g.p g.plot g.pixel 0 0 .busy .setup, fb⟩ []
      ⟨(Gpu.working g.p g.plot g.pixel 0 0 .busy .setup).stop .fault .invalid, fb⟩ := by
  refine traces_tick rfl fun granted => ?_
  have hs : Gpu.setup { Gpu.working g.p g.plot g.pixel 0 0 .busy .setup with cycles := 1 } window =
      Gpu.stop _ .fault .invalid := if_neg hv
  exact congrArg (fun g => Screen.forget ⟨g, fb⟩) hs

end Run

theorem pixelAt_inj (hq : onScreen q = true) (hq' : onScreen q' = true)
    (h : pixelAt q = pixelAt q') : q = q' := by
  unfold onScreen at hq hq'
  unfold pixelAt at h
  simp only [Bool.and_eq_true, decide_eq_true_eq] at hq hq'
  ext
  · omega
  · omega

theorem Plot.Draws.nodup {c : Canvas} (h : Plot.Draws p ram d ⟨fb, []⟩ c) : c.drawn.Nodup := by
  rcases h with ⟨d', _, rfl⟩ | ⟨d', qs, _, _, hnodup, _, rfl⟩
  · exact List.nodup_nil
  · rw [Canvas.draw_drawn]
    refine List.Nodup.map_on ?_ (hnodup.filter _)
    intro q hq q' hq' he
    have hon {q : Point} (hq : q ∈ qs.filter (d'.covers p)) : onScreen q = true :=
      (Bool.and_eq_true_iff.mp (List.mem_filter.mp hq).2).1
    exact pixelAt_inj (hon hq) (hon hq') he

/-- A job ends in DONE with the reference's picture, or in FAULT with none. -/
theorem gpu_draws_reference (ram : Bytes) (window : Window) (base : Nat) (hold : Nat → Bool)
    (hhold : ∀ t, ∃ k, hold (t + k) = false) (g g' : Gpu) (fb : Bytes)
    (hstart : g.store 0 gpuStart = some g') :
    if g.toG1.valid window then
      ∃ c, gpuReference base (gpuSource ram g.p) g.p fb = some c ∧ c.drawn.Nodup ∧
        ∃ n, ∀ m, n ≤ m →
          let s := Screen.run ram window hold m ⟨g', fb⟩
          s.gpu.status = .done ∧ s.gpu.error = .none ∧ s.fb = c.fb ∧
            s.gpu.writes.toNat = c.drawn.length
    else
      ∃ n, ∀ m, n ≤ m →
        let s := Screen.run ram window hold m ⟨g', fb⟩
        s.gpu.status = .fault ∧ s.gpu.error = .invalid ∧ s.fb = fb := by
  obtain rfl := Gpu.store_start hstart
  have hcommand := command_scans ram window g fb
  split_ifs with hv
  · obtain ⟨c, hc, hd⟩ := valid_draws hv base ram g.plot fb
    obtain ⟨d, pixel, reads, writes, qs, hscans, hwrites⟩ := draws_scans hv hd
    obtain ⟨n, hn⟩ := Screen.run_scans hhold (hcommand.trans hscans) (by simp [Gpu.working]) rfl
    refine ⟨c, hc, hd.nodup, n, fun m hm => ?_⟩
    have hend := (hn m hm).1
    refine ⟨congrArg (·.gpu.status) hend, congrArg (·.gpu.error) hend, congrArg (·.fb) hend, ?_⟩
    have hw : (Screen.run ram window hold m ⟨g.command, fb⟩).gpu.writes = writes :=
      congrArg (·.gpu.writes) hend
    rw [← hwrites, ← hw]
  · obtain ⟨n, hn⟩ := Screen.run_scans hhold (hcommand.trans (fault_scans hv fb))
      (by simp [Gpu.stop]) rfl
    refine ⟨n, fun m hm => ?_⟩
    have hend := (hn m hm).1
    exact ⟨congrArg (·.gpu.status) hend, congrArg (·.gpu.error) hend, congrArg (·.fb) hend⟩

def redTriangle : Gpu :=
  { Gpu.reset with
    p := fun
      | .op => gpuTriangle
      | .color => 0xe0
      | .x0 => -3
      | .x1 => 5
      | .y2 => 7
      | _ => 0 }

theorem gpu_draws_reference_triangle :
    (∀ t, ∃ k, (fun t => decide (t % 3 ≠ 0)) (t + k) = false) ∧
      redTriangle.store 0 gpuStart = some redTriangle.command ∧
      redTriangle.toG1.valid ⟨0, 0⟩ = true ∧
      ∃ c, gpuReference 0 (gpuSource (fun _ => 0) redTriangle.p) redTriangle.p (fun _ => 0) = some c ∧
        c.drawn.Nodup ∧ ∃ n, ∀ m, n ≤ m →
          let s := Screen.run (fun _ => 0) ⟨0, 0⟩ (fun t => decide (t % 3 ≠ 0)) m
            ⟨redTriangle.command, fun _ => 0⟩
          s.gpu.status = .done ∧ s.gpu.error = .none ∧ s.fb = c.fb ∧
            s.gpu.writes.toNat = c.drawn.length := by
  have hhold : ∀ t, ∃ k, (fun t => decide (t % 3 ≠ 0)) (t + k) = false := by
    intro t
    refine ⟨2 * t, ?_⟩
    simp only [decide_eq_false_iff_not, not_not]
    omega
  have hvalid : redTriangle.toG1.valid ⟨0, 0⟩ = true := by decide
  have hdraw := gpu_draws_reference (fun _ => 0) ⟨0, 0⟩ 0 (fun t => decide (t % 3 ≠ 0)) hhold
    redTriangle redTriangle.command (fun _ => 0) rfl
  rw [if_pos hvalid] at hdraw
  exact ⟨hhold, rfl, hvalid, hdraw⟩

end TinyProcessors
