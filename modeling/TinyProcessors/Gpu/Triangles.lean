import TinyProcessors.Gpu.Lines
import TinyProcessors.Gpu.Copies
import TinyProcessors.Lib.Checked
import TinyProcessors.Lib.Cover

namespace TinyProcessors

def edgeTests (a b c q : Point) : Bool := inside a b q && inside b c q && inside c a q

/-- The pixels of a triangle, whatever the order of its corners. -/
def trianglePixels (a b c : Point) : Set Point :=
  {q | onScreen q = true ∧ (edgeTests a b c q = true ∨ edgeTests a c b q = true)}

section Samples

variable {a b c d q : Point}

def Point.twice (q : Point) : Point := ⟨2 * q.x, 2 * q.y⟩

def Point.center (q : Point) : Point := ⟨2 * q.x + 1, 2 * q.y + 1⟩

theorem cross_twice (a b c : Point) : cross a.twice b.twice c.twice = 4 * cross a b c := by
  unfold cross Point.twice
  ring

theorem inside_iff : inside a b q = true ↔ Owns a.twice b.twice q.center := by
  have hcross : cross a.twice b.twice q.center = 2 * edge a b q := by
    unfold cross edge Point.twice Point.center
    ring
  unfold inside Owns
  rw [hcross]
  simp only [Bool.or_eq_true, Bool.and_eq_true, decide_eq_true_eq]
  unfold Point.twice
  dsimp only
  omega

theorem edgeTests_iff : edgeTests a b c q = true ↔ Encloses a.twice b.twice c.twice q.center := by
  unfold edgeTests Encloses
  rw [Bool.and_eq_true, Bool.and_eq_true, inside_iff, inside_iff, inside_iff, and_assoc]

theorem mem_trianglePixels :
    q ∈ trianglePixels a b c ↔ onScreen q = true ∧ Drawn a.twice b.twice c.twice q.center := by
  unfold trianglePixels Drawn
  rw [Set.mem_ofPred_eq, edgeTests_iff, edgeTests_iff]

theorem InTriangle.twice (h : InTriangle a b c d) : InTriangle a.twice b.twice c.twice d.twice := by
  obtain ⟨u, v, w, hw, hsum, hx, hy⟩ := h
  refine ⟨u, v, w, hw, hsum, ?_, ?_⟩
  · unfold Point.twice
    push_cast
    linarith
  · unfold Point.twice
    push_cast
    linarith

theorem edgeTests_box (h : edgeTests a b c q = true) :
    (min a.x (min b.x c.x) ≤ q.x ∧ q.x < max a.x (max b.x c.x)) ∧
      min a.y (min b.y c.y) ≤ q.y ∧ q.y < max a.y (max b.y c.y) := by
  have hbox := (edgeTests_iff.mp h).in_box
  unfold Point.twice Point.center at hbox
  dsimp only at hbox
  omega

theorem edgeTests_area (h : edgeTests a b c q = true) : 0 < cross a b c := by
  have := (edgeTests_iff.mp h).area_pos
  rw [cross_twice] at this
  omega

end Samples

section Paint

def Painted (color : UInt8) (pixels : Set Point) (fb fb' : Bytes) : Prop :=
  ∀ i, (i ∈ pixelAt '' pixels → fb' i = color) ∧ (i ∉ pixelAt '' pixels → fb' i = fb i)

theorem Canvas.draw_painted (color : UInt8) (qs : List Point) (c : Canvas) :
    Painted color {q | q ∈ qs} c.fb (c.draw (fun _ _ => color) qs).fb := by
  induction qs generalizing c with
  | nil => exact fun i => ⟨by simp, fun _ => rfl⟩
  | cons q qs ih =>
    intro i
    obtain ⟨hin, hout⟩ := ih (c.store (pixelAt q) color) i
    have himage : i ∈ pixelAt '' {q' | q' ∈ q :: qs} ↔
        i = pixelAt q ∨ i ∈ pixelAt '' {q' | q' ∈ qs} := by
      simp [eq_comm]
    rw [himage]
    by_cases hi : i ∈ pixelAt '' {q' | q' ∈ qs}
    · exact ⟨fun _ => hin hi, fun h => absurd (.inr hi) h⟩
    · refine ⟨fun h => ?_, fun h => ?_⟩
      · obtain rfl := h.resolve_right hi
        exact (hout hi).trans (Function.update_self _ _ _)
      · exact (hout hi).trans (Function.update_of_ne (fun he => h (.inl he)) _ _)

theorem Canvas.triangle_of_pos (hpos : 0 < cross a b c) :
    ∃ qs : List Point, qs.Nodup ∧ (∀ q, q ∈ qs ↔ q ∈ trianglePixels a b c) ∧
      ∀ color (canvas : Canvas), canvas.triangle a b c color = canvas.draw (fun _ _ => color) qs := by
  refine ⟨_, ?_, fun q => ?_, fun color canvas => Canvas.triangle_eq a b c color canvas hpos⟩
  · exact (raster_nodup (interval_nodup _ _) (interval_nodup _ _)).filter _
  · rw [List.mem_filter, mem_raster, mem_interval, mem_interval, Bool.and_eq_true]
    constructor
    · exact fun h => ⟨h.2.1, .inl h.2.2⟩
    · rintro ⟨hon, htests | htests⟩
      · have hbox := edgeTests_box htests
        have hscreen := onScreen_iff.mp hon
        exact ⟨by omega, hon, htests⟩
      · have := edgeTests_area htests
        rw [cross_swap] at this
        omega

theorem trianglePixels_swap (a b c : Point) : trianglePixels a c b = trianglePixels a b c := by
  ext q
  rw [mem_trianglePixels, mem_trianglePixels, drawn_swap]

theorem trianglePixels_cycle (a b c : Point) : trianglePixels b c a = trianglePixels a b c := by
  ext q
  rw [mem_trianglePixels, mem_trianglePixels, drawn_cycle]

theorem Canvas.triangle_pixels (a b c : Point) :
    ∃ qs : List Point, qs.Nodup ∧ (∀ q, q ∈ qs ↔ q ∈ trianglePixels a b c) ∧
      ∀ color (canvas : Canvas), canvas.triangle a b c color = canvas.draw (fun _ _ => color) qs := by
  rcases lt_trichotomy (cross a b c) 0 with hneg | hzero | hpos
  · obtain ⟨qs, hnodup, hmem, hdraw⟩ := triangle_of_pos (a := a) (b := c) (c := b)
      (by rw [cross_swap]; omega)
    rw [trianglePixels_swap] at hmem
    exact ⟨qs, hnodup, hmem, fun color canvas =>
      (triangle_swap a b c color canvas hneg).trans (hdraw color canvas)⟩
  · refine ⟨[], List.nodup_nil, fun q => ?_, fun color canvas => if_pos hzero⟩
    refine iff_of_false List.not_mem_nil fun hq => ?_
    refine not_drawn_of_zero ?_ (mem_trianglePixels.mp hq).2
    rw [cross_twice, hzero, mul_zero]
  · exact triangle_of_pos hpos

structure Gpu.TriangleJob (g : Gpu) (a b c : Point) : Prop where
  op : g.p .op = gpuTriangle
  color : g.p .color ≤ 255
  corner0 : (⟨Gp.x0.int g.p, Gp.y0.int g.p⟩ : Point) = a
  corner1 : (⟨Gp.x1.int g.p, Gp.y1.int g.p⟩ : Point) = b
  corner2 : (⟨Gp.x2.int g.p, Gp.y2.int g.p⟩ : Point) = c

/-- The job ends and writes each of its pixels once, as the reference does. -/
def Gpu.Paints (g : Gpu) (pixels : Set Point) : Prop :=
  ∀ (ram : Bytes) (window : Window) (hold : Nat → Bool) (g' : Gpu) (fb : Bytes) (base : Nat)
    (source : Source), (∀ t, ∃ k, hold (t + k) = false) → g.store 0 gpuStart = some g' →
    (∃ n, ∀ m, n ≤ m →
      let s := Screen.run ram window hold m ⟨g', fb⟩
      s.gpu.status = .done ∧ s.gpu.writes.toNat = pixels.ncard ∧
        Painted (UInt8.ofNat (g.p .color).toNat) pixels fb s.fb) ∧
    ∃ c, gpuReference base source g.p fb = some c ∧ c.drawn.length = pixels.ncard ∧
      Painted (UInt8.ofNat (g.p .color).toNat) pixels fb c.fb

theorem Gpu.TriangleJob.valid (h : TriangleJob g a b c) (ha : a.InRange) (hb : b.InRange)
    (hc : c.InRange) (window : Window) : g.toG1.valid window = true := by
  obtain ⟨hop, hcolor, rfl, rfl, rfl⟩ := h
  obtain ⟨⟨_, _⟩, _, _⟩ := ha
  obtain ⟨⟨_, _⟩, _, _⟩ := hb
  obtain ⟨⟨_, _⟩, _, _⟩ := hc
  unfold G1.valid coord
  simp_all [Gpu.toG1]

theorem Gpu.TriangleJob.paints (h : TriangleJob g a b c) (ha : a.InRange) (hb : b.InRange)
    (hc : c.InRange) : g.Paints (trianglePixels a b c) := by
  intro ram window hold g' fb base source hhold hstart
  obtain rfl := Gpu.store_start hstart
  have hvalid := h.valid ha hb hc window
  obtain ⟨hop, _, rfl, rfl, rfl⟩ := h
  obtain ⟨qs, hnodup, hmem, hdraw⟩ := Canvas.triangle_pixels ⟨Gp.x0.int g.p, Gp.y0.int g.p⟩
    ⟨Gp.x1.int g.p, Gp.y1.int g.p⟩ ⟨Gp.x2.int g.p, Gp.y2.int g.p⟩
  have hset : {q | q ∈ qs} = trianglePixels ⟨Gp.x0.int g.p, Gp.y0.int g.p⟩
      ⟨Gp.x1.int g.p, Gp.y1.int g.p⟩ ⟨Gp.x2.int g.p, Gp.y2.int g.p⟩ := Set.ext hmem
  rw [← hset]
  let color := UInt8.ofNat (g.p .color).toNat
  let c : Canvas := Canvas.draw (fun _ _ => color) qs ⟨fb, []⟩
  have hpaint : Painted color {q | q ∈ qs} fb c.fb := Canvas.draw_painted color qs ⟨fb, []⟩
  have hcard : c.drawn.length = {q | q ∈ qs}.ncard := by
    have hfinset : {q | q ∈ qs} = (qs.toFinset : Set Point) := by
      ext q
      simp
    rw [hfinset, Set.ncard_coe_finset, List.toFinset_card_of_nodup hnodup, Canvas.draw_drawn,
      List.nil_append, List.length_map]
  have hd := Plot.triangle_draws hop ram g.plot ⟨fb, []⟩
  rw [hdraw] at hd
  obtain ⟨d, pixel, reads, writes, _, hscans, hwrites⟩ := draws_scans hvalid hd
  obtain ⟨n, hn⟩ := Screen.run_scans hhold ((command_scans ram window g fb).trans hscans)
    (by simp [Gpu.working]) rfl
  refine ⟨⟨n, fun m hm => ?_⟩, c, ?_, hcard, hpaint⟩
  · have hend := (hn m hm).1
    have hw : (Screen.run ram window hold m ⟨g.command, fb⟩).gpu.writes = writes :=
      congrArg (·.gpu.writes) hend
    have hfb : (Screen.run ram window hold m ⟨g.command, fb⟩).fb = c.fb := congrArg (·.fb) hend
    refine ⟨congrArg (·.gpu.status) hend, ?_, ?_⟩
    · rw [hw, ← hcard]
      exact hwrites
    · rw [hfb]
      exact hpaint
  · unfold gpuReference
    rw [hop]
    exact congrArg some (hdraw color ⟨fb, []⟩)

end Paint

section Overflow

variable {a b c q : Point}

def area32 (a b c : Point) : Option Int := do
  let x₁ ← checked 32 (b.x - a.x)
  let y₂ ← checked 32 (c.y - a.y)
  let left ← checked 32 (x₁ * y₂)
  let y₁ ← checked 32 (b.y - a.y)
  let x₂ ← checked 32 (c.x - a.x)
  let right ← checked 32 (y₁ * x₂)
  checked 32 (left - right)

def centerFrom32 (q a : Int) : Option Int := do
  let twice ← checked 32 (2 * q)
  let center ← checked 32 (twice + 1)
  let corner ← checked 32 (2 * a)
  checked 32 (center - corner)

def edge32 (a b q : Point) : Option Int := do
  let x ← checked 32 (b.x - a.x)
  let down ← centerFrom32 q.y a.y
  let left ← checked 32 (x * down)
  let y ← checked 32 (b.y - a.y)
  let across ← centerFrom32 q.x a.x
  let right ← checked 32 (y * across)
  checked 32 (left - right)

def pixelAt32 (q : Point) : Option Int := do
  let row ← checked 32 (q.y * 320)
  checked 32 (row + q.x)

theorem Point.InRange.sub_le (ha : a.InRange) (hb : b.InRange) :
    |b.x - a.x| ≤ 2047 ∧ |b.y - a.y| ≤ 2047 := by
  unfold Point.InRange at ha hb
  rw [abs_le, abs_le]
  omega

theorem area32_eq (ha : a.InRange) (hb : b.InRange) (hc : c.InRange) :
    area32 a b c = some (cross a b c) := by
  obtain ⟨hx₁, hy₁⟩ := ha.sub_le hb
  obtain ⟨hx₂, hy₂⟩ := ha.sub_le hc
  have hl := abs_mul_le hx₁ hy₂
  have hr := abs_mul_le hy₁ hx₂
  have hsub := (abs_sub _ _).trans (add_le_add hl hr)
  unfold area32
  rw [checked_bind hx₁ (by norm_num), checked_bind hy₂ (by norm_num),
    checked_bind hl (by norm_num), checked_bind hy₁ (by norm_num),
    checked_bind hx₂ (by norm_num), checked_bind hr (by norm_num)]
  exact checked_of_abs hsub (by norm_num)

theorem centerFrom32_eq (hq : 0 ≤ x ∧ x < 320) (ha : -1024 ≤ y ∧ y ≤ 1023) :
    centerFrom32 x y = some (2 * x + 1 - 2 * y) ∧ |2 * x + 1 - 2 * y| ≤ 2687 := by
  have hbound : |2 * x + 1 - 2 * y| ≤ 2687 := abs_le.mpr (by omega)
  have hx : |2 * x| ≤ 638 := abs_le.mpr (by omega)
  have hx' : |2 * x + 1| ≤ 639 := abs_le.mpr (by omega)
  have hy : |2 * y| ≤ 2048 := abs_le.mpr (by omega)
  refine ⟨?_, hbound⟩
  unfold centerFrom32
  rw [checked_bind hx (by norm_num), checked_bind hx' (by norm_num), checked_bind hy (by norm_num)]
  exact checked_of_abs hbound (by norm_num)

theorem edge32_eq (ha : a.InRange) (hb : b.InRange) (hq : onScreen q = true) :
    edge32 a b q = some (edge a b q) := by
  obtain ⟨hx, hy⟩ := ha.sub_le hb
  obtain ⟨hqx, hqy⟩ := onScreen_iff.mp hq
  obtain ⟨hdown, hdown'⟩ := centerFrom32_eq (show 0 ≤ q.y ∧ q.y < 320 by omega) ha.2
  obtain ⟨hacross, hacross'⟩ := centerFrom32_eq hqx ha.1
  have hl := abs_mul_le hx hdown'
  have hr := abs_mul_le hy hacross'
  have hsub := (abs_sub _ _).trans (add_le_add hl hr)
  unfold edge32
  rw [checked_bind hx (by norm_num), hdown]
  refine (checked_bind hl (by norm_num) _).trans ?_
  rw [checked_bind hy (by norm_num), hacross]
  refine (checked_bind hr (by norm_num) _).trans ?_
  exact checked_of_abs hsub (by norm_num)

theorem pixelAt32_eq (hq : onScreen q = true) : pixelAt32 q = some (pixelAt q : Int) := by
  obtain ⟨⟨hx, hx'⟩, hy, hy'⟩ := onScreen_iff.mp hq
  have hrow : |q.y * 320| ≤ 76480 := abs_le.mpr (by omega)
  have hat : |q.y * 320 + q.x| ≤ 76799 := abs_le.mpr (by omega)
  unfold pixelAt32
  rw [checked_bind hrow (by norm_num), checked_of_abs hat (by norm_num)]
  unfold pixelAt
  rw [Int.toNat_of_nonneg (by omega)]

end Overflow

theorem InTriangle.inRange (h : InTriangle a b c d) (ha : a.InRange) (hb : b.InRange)
    (hc : c.InRange) : d.InRange := by
  obtain ⟨u, v, w, hw, hsum, hx, hy⟩ := h
  exact ⟨mean_mem hw hsum hx ha.1 hb.1 hc.1, mean_mem hw hsum hy ha.2 hb.2 hc.2⟩

theorem InTriangle.disjoint (h : InTriangle a b c d) :
    Disjoint (trianglePixels a b d) (trianglePixels b c d) := by
  rw [Set.disjoint_left]
  intro q hq hq'
  exact h.twice.drawn_apart (mem_trianglePixels.mp hq).2 (mem_trianglePixels.mp hq').2

/-- Triangles are split without a gap or an overlap, and nothing overflows. -/
theorem gpu_triangles (a b c : Point) (ha : a.InRange) (hb : b.InRange) (hc : c.InRange) :
    (∀ g : Gpu, g.TriangleJob a b c → g.Paints (trianglePixels a b c)) ∧
      (trianglePixels b c a = trianglePixels a b c ∧
        trianglePixels a c b = trianglePixels a b c) ∧
      (∀ d, InTriangle a b c d → d.InRange ∧
        trianglePixels a b c =
          trianglePixels a b d ∪ trianglePixels b c d ∪ trianglePixels c a d ∧
        Disjoint (trianglePixels a b d) (trianglePixels b c d) ∧
        Disjoint (trianglePixels b c d) (trianglePixels c a d) ∧
        Disjoint (trianglePixels c a d) (trianglePixels a b d)) ∧
      (∀ d, 0 ≤ cross a b c → cross a b d ≤ 0 →
        Disjoint (trianglePixels a b c) (trianglePixels a b d)) ∧
      area32 a b c = some (cross a b c) ∧
      ∀ q, onScreen q = true →
        (∀ u ∈ [a, b, c], ∀ v ∈ [a, b, c], edge32 u v q = some (edge u v q)) ∧
        pixelAt32 q = some (pixelAt q : Int) ∧
        checked 32 (q.x + 1) = some (q.x + 1) ∧ checked 32 (q.y + 1) = some (q.y + 1) := by
  refine ⟨fun g hg => hg.paints ha hb hc, ⟨trianglePixels_cycle a b c, trianglePixels_swap a b c⟩,
    fun d hd => ⟨hd.inRange ha hb hc, ?_, hd.disjoint, hd.cycle.disjoint, hd.cycle.cycle.disjoint⟩,
    fun d hc hd => ?_, area32_eq ha hb hc, fun q hq => ⟨?_, pixelAt32_eq hq, ?_⟩⟩
  · ext q
    rw [Set.mem_union, Set.mem_union, mem_trianglePixels, mem_trianglePixels, mem_trianglePixels,
      mem_trianglePixels, hd.twice.drawn_iff]
    tauto
  · rw [Set.disjoint_left]
    intro q hq hq'
    have hc' := cross_twice a b c
    have hd' := cross_twice a b d
    exact (mem_trianglePixels.mp hq).2.not_opposite (by omega) (by omega)
      (mem_trianglePixels.mp hq').2
  · have hrange : ∀ u ∈ [a, b, c], u.InRange := by
      simp only [List.forall_mem_cons, List.not_mem_nil, IsEmpty.forall_iff, implies_true, and_true]
      exact ⟨ha, hb, hc⟩
    exact fun u hu v hv => edge32_eq (hrange u hu) (hrange v hv) hq
  · obtain ⟨⟨_, _⟩, _, _⟩ := onScreen_iff.mp hq
    exact ⟨checked_of_abs (k := 320) (abs_le.mpr (by omega)) (by norm_num),
      checked_of_abs (k := 320) (abs_le.mpr (by omega)) (by norm_num)⟩

theorem gpu_triangles_quarter :
    (⟨-3, 0⟩ : Point).InRange ∧ InTriangle ⟨-3, 0⟩ ⟨5, 0⟩ ⟨1, 8⟩ ⟨1, 4⟩ ∧
      trianglePixels ⟨-3, 0⟩ ⟨5, 0⟩ ⟨1, 8⟩ =
        trianglePixels ⟨-3, 0⟩ ⟨5, 0⟩ ⟨1, 4⟩ ∪ trianglePixels ⟨5, 0⟩ ⟨1, 8⟩ ⟨1, 4⟩ ∪
          trianglePixels ⟨1, 8⟩ ⟨-3, 0⟩ ⟨1, 4⟩ := by
  have hd : InTriangle ⟨-3, 0⟩ ⟨5, 0⟩ ⟨1, 8⟩ ⟨1, 4⟩ :=
    ⟨1 / 4, 1 / 4, 1 / 2, by norm_num, by norm_num, by norm_num, by norm_num⟩
  obtain ⟨_, _, hsplit, _⟩ :=
    gpu_triangles ⟨-3, 0⟩ ⟨5, 0⟩ ⟨1, 8⟩ (by decide) (by decide) (by decide)
  exact ⟨by decide, hd, (hsplit ⟨1, 4⟩ hd).2.1⟩

end TinyProcessors
