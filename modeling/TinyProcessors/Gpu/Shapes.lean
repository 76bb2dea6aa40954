import TinyProcessors.Gpu.Scan

namespace TinyProcessors

def Plot.Draws (p : Gp → Word) (ram : Bytes) (d : Plot) (c c' : Canvas) : Prop :=
  (∃ d', d.setup p = (d', false) ∧ c' = c) ∨
    ∃ d' qs, d.setup p = (d', true) ∧ Plot.Visits p d' qs ∧ qs.Nodup ∧ qs.length < 2 ^ 32 ∧
      c' = c.draw (d'.color p ram) (qs.filter (d'.covers p))

section Box

variable {p : Gp → Word} {d : Plot}

def Plot.goto (d : Plot) (q : Point) : Plot := { d with cursor := q }

theorem Plot.row_visits (hop : p .op ≠ gpuLine) (hs : d.step ≠ 0) (n : Nat) {x y : Int}
    (hx : x + d.step * n = d.lastX)
    (hrest : Plot.Visits p (d.goto ⟨d.lastX, y⟩) (⟨d.lastX, y⟩ :: rest)) :
    Plot.Visits p (d.goto ⟨x, y⟩) (((sweep x d.step (n + 1)).map fun x => ⟨x, y⟩) ++ rest) := by
  induction n generalizing x with
  | zero =>
    obtain rfl : x = d.lastX := by simpa using hx
    exact hrest
  | succ n ih =>
    have hne : x ≠ d.lastX := by
      intro h
      have h0 : d.step * ((n : Int) + 1) = 0 := by push_cast at hx; omega
      rcases Int.mul_eq_zero.mp h0 with h0 | h0
      · exact hs h0
      · omega
    refine .next (d := d.goto ⟨x, y⟩) ?_ ?_
    · unfold last
      rw [if_neg hop]
      exact Bool.and_eq_false_iff.mpr (.inl (decide_eq_false hne))
    · have hnext : (d.goto ⟨x, y⟩).next p = d.goto ⟨x + d.step, y⟩ :=
        (if_neg hop).trans (if_neg hne)
      rw [hnext]
      apply ih
      rw [← hx]
      push_cast
      ring

theorem Plot.rows_visit (hop : p .op ≠ gpuLine) (hs : d.step ≠ 0) (w m : Nat) {y : Int}
    (hx : d.firstX + d.step * w = d.lastX) (hy : y + d.step * m = d.lastY) :
    Plot.Visits p (d.goto ⟨d.firstX, y⟩)
      (raster (sweep d.firstX d.step (w + 1)) (sweep y d.step (m + 1))) := by
  induction m generalizing y with
  | zero =>
    obtain rfl : y = d.lastY := by simpa using hy
    apply row_visits hop hs w hx
    refine .last (d := d.goto ⟨d.lastX, d.lastY⟩) ?_
    unfold last
    rw [if_neg hop]
    exact Bool.and_eq_true_iff.mpr ⟨decide_eq_true rfl, decide_eq_true rfl⟩
  | succ m ih =>
    apply row_visits hop hs w hx
    have hne : y ≠ d.lastY := by
      intro h
      have h0 : d.step * ((m : Int) + 1) = 0 := by push_cast at hy; omega
      rcases Int.mul_eq_zero.mp h0 with h0 | h0
      · exact hs h0
      · omega
    refine .next (d := d.goto ⟨d.lastX, y⟩) ?_ ?_
    · unfold last
      rw [if_neg hop]
      exact Bool.and_eq_false_iff.mpr (.inr (decide_eq_false hne))
    · have hnext : (d.goto ⟨d.lastX, y⟩).next p = d.goto ⟨d.firstX, y + d.step⟩ :=
        (if_neg hop).trans (if_pos rfl)
      rw [hnext]
      apply ih
      rw [← hy]
      push_cast
      ring

def Plot.box (d : Plot) : List Point :=
  if d.step = -1 then (raster (interval d.lo d.hi) (interval d.top d.bottom)).reverse
  else raster (interval d.lo d.hi) (interval d.top d.bottom)

theorem Plot.mem_box : q ∈ d.box ↔ (d.lo ≤ q.x ∧ q.x < d.hi) ∧ d.top ≤ q.y ∧ q.y < d.bottom := by
  unfold box
  split
  · rw [List.mem_reverse, mem_raster, mem_interval, mem_interval]
  · rw [mem_raster, mem_interval, mem_interval]

theorem Plot.box_length (d : Plot) :
    d.box.length = (d.hi - d.lo).toNat * (d.bottom - d.top).toNat := by
  unfold box
  split
  · rw [List.length_reverse, raster_length, interval_length, interval_length]
  · rw [raster_length, interval_length, interval_length]

theorem Plot.box_nodup (d : Plot) : d.box.Nodup := by
  have hnodup := raster_nodup (interval_nodup d.lo d.hi) (interval_nodup d.top d.bottom)
  unfold box
  split
  · exact List.nodup_reverse.mpr hnodup
  · exact hnodup

theorem Plot.box_visits (hop : p .op ≠ gpuLine) (he : d.empty = false)
    (hs : d.step = 1 ∨ d.step = -1) :
    Plot.Visits p (d.goto ⟨d.firstX, d.firstY⟩) d.box := by
  have hbox : d.lo < d.hi ∧ d.top < d.bottom := by
    unfold empty at he
    simpa using he
  obtain ⟨w, hw, hxs⟩ := sweep_interval hbox.1 hs
  obtain ⟨m, hm, hys⟩ := sweep_interval hbox.2 hs
  have hv : Plot.Visits p (d.goto ⟨d.firstX, d.firstY⟩) (raster _ _) :=
    rows_visit hop (by omega) w m hw hm
  unfold firstX firstY at hv ⊢
  unfold box
  rw [hxs, hys] at hv
  by_cases hback : d.step = -1
  · rw [if_pos hback, if_pos hback] at hv
    rw [if_pos hback, reverse_raster]
    exact hv
  · rw [if_neg hback, if_neg hback] at hv
    rw [if_neg hback]
    exact hv

structure Plot.Clipped (d : Plot) : Prop where
  lo : 0 ≤ d.lo
  hi : d.hi ≤ 320
  top : 0 ≤ d.top
  bottom : d.bottom ≤ 240

theorem Plot.Clipped.box_length_lt (h : d.Clipped) : d.box.length < 2 ^ 32 := by
  have hw : (d.hi - d.lo).toNat ≤ 320 := by have := h.lo; have := h.hi; omega
  have hh : (d.bottom - d.top).toNat ≤ 240 := by have := h.top; have := h.bottom; omega
  rw [box_length]
  exact lt_of_le_of_lt (Nat.mul_le_mul hw hh) (by norm_num)

theorem Plot.Clipped.onScreen_box (h : d.Clipped) (hq : q ∈ d.box) : onScreen q = true := by
  obtain ⟨⟨hl, hr⟩, ht, hb⟩ := Plot.mem_box.mp hq
  have := h.lo
  have := h.hi
  have := h.top
  have := h.bottom
  unfold onScreen
  simp only [Bool.and_eq_true, decide_eq_true_eq]
  omega

theorem Plot.draws_box (ram : Bytes) (hop : p .op ≠ gpuLine) (hs : d.step = 1 ∨ d.step = -1)
    (hc : d.Clipped) (hsetup : d₀.setup p = if d.empty then (d, false)
      else (d.goto ⟨d.firstX, d.firstY⟩, true)) (c : Canvas) :
    Plot.Draws p ram d₀ c (c.draw (d.color p ram) (d.box.filter (d.covers p))) := by
  cases he : d.empty with
  | true =>
    rw [he] at hsetup
    refine .inl ⟨d, hsetup, ?_⟩
    have hnil : d.box = [] := by
      have hbox : d.hi ≤ d.lo ∨ d.bottom ≤ d.top := by
        unfold empty at he
        simpa using he
      rw [List.eq_nil_iff_forall_not_mem]
      intro q hq
      have := mem_box.mp hq
      omega
    rw [hnil]
    rfl
  | false =>
    rw [he] at hsetup
    exact .inr ⟨_, _, hsetup, box_visits hop he hs, d.box_nodup, hc.box_length_lt, rfl⟩

end Box

section Fill

theorem wordByte_colorWord (color : UInt8) (hk : k < 4) :
    wordByte (Canvas.colorWord color) k = color := by
  have hall : ∀ n : Fin 256, ∀ k : Fin 4,
      wordByte (Canvas.colorWord (UInt8.ofNat n)) k = UInt8.ofNat n := by decide +kernel
  have hcolor := hall ⟨color.toNat, color.toNat_lt⟩ ⟨k, hk⟩
  rwa [UInt8.ofNat_toNat] at hcolor

theorem Canvas.storeWord_color (c : Canvas) (i : Nat) (color : UInt8) :
    c.storeWord i (colorWord color) = fillTail color 4 i c := by
  unfold storeWord
  rw [wordByte_colorWord _ (by omega), wordByte_colorWord _ (by omega),
    wordByte_colorWord _ (by omega), wordByte_colorWord _ (by omega)]
  rfl

theorem Canvas.fillTail_add (color : UInt8) (m n i : Nat) (c : Canvas) :
    fillTail color (m + n) i c = fillTail color n (i + m) (fillTail color m i c) := by
  induction m generalizing i c with
  | zero => rw [Nat.zero_add]; rfl
  | succ m ih =>
    rw [Nat.succ_add]
    refine (ih (i + 1) _).trans ?_
    rw [Nat.add_right_comm]
    rfl

theorem Canvas.fillHead_tail (base : Nat) (color : UInt8) (n i : Nat) (c : Canvas) :
    let (c', i', n') := fillHead base color n i c
    fillTail color n' i' c' = fillTail color n i c := by
  induction n generalizing i c with
  | zero => rfl
  | succ n ih =>
    unfold fillHead
    split_ifs
    · exact ih (i + 1) (c.store i color)
    · rfl

theorem Canvas.fillWords_tail (color : UInt8) (n i : Nat) (c : Canvas) :
    let (c', i', n') := fillWords (colorWord color) n i c
    fillTail color n' i' c' = fillTail color n i c := by
  induction n using Nat.strong_induction_on generalizing i c with
  | _ n ih =>
    match n with
    | n + 4 =>
      have h := ih n (by omega) (i + 4) (c.storeWord i (colorWord color))
      rw [storeWord_color, ← fillTail_add, Nat.add_comm 4 n] at h
      rw [← storeWord_color] at h
      exact h
    | 0 => rfl
    | 1 => rfl
    | 2 => rfl
    | 3 => rfl

theorem Canvas.fillSpan_eq (base i n : Nat) (color : UInt8) (c : Canvas) :
    c.fillSpan base i n color = fillTail color n i c := by
  have hh := fillHead_tail base color n i c
  unfold fillSpan
  rcases hhead : fillHead base color n i c with ⟨c₁, i₁, n₁⟩
  rw [hhead] at hh
  have hw := fillWords_tail color n₁ i₁ c₁
  rcases hwords : fillWords (colorWord color) n₁ i₁ c₁ with ⟨c₂, i₂, n₂⟩
  rw [hwords] at hw
  simp only [hwords]
  exact hw.trans hh

theorem pixelAt_right {x y : Int} (hx : 0 ≤ x) (hy : 0 ≤ y) :
    pixelAt ⟨x + 1, y⟩ = pixelAt ⟨x, y⟩ + 1 := by
  unfold pixelAt
  dsimp only
  omega

theorem pixelAt_down {x y : Int} (hx : 0 ≤ x) (hy : 0 ≤ y) (i : Nat) :
    pixelAt ⟨x, y + i⟩ = y.toNat * 320 + x.toNat + 320 * i := by
  unfold pixelAt
  dsimp only
  omega

theorem Canvas.draw_row (color : UInt8) (n : Nat) {x y : Int} (hx : 0 ≤ x) (hy : 0 ≤ y)
    (c : Canvas) :
    c.draw (fun _ _ => color) ((sweep x 1 n).map fun x => ⟨x, y⟩) =
      fillTail color n (pixelAt ⟨x, y⟩) c := by
  induction n generalizing x c with
  | zero => rfl
  | succ n ih =>
    refine (ih (show 0 ≤ x + 1 by omega) _).trans ?_
    rw [pixelAt_right hx hy]
    rfl

theorem Canvas.draw_rows (base : Nat) (color : UInt8) (w n : Nat) {x y : Int} (hx : 0 ≤ x)
    (hy : 0 ≤ y) (c : Canvas) :
    (List.range n).foldl
        (fun c i => c.fillSpan base (y.toNat * 320 + x.toNat + 320 * i) w color) c =
      c.draw (fun _ _ => color) (raster (sweep x 1 w) (sweep y 1 n)) := by
  induction n with
  | zero => rfl
  | succ n ih =>
    rw [List.range_succ, List.foldl_append, ih, sweep_last, one_mul]
    unfold raster
    rw [List.flatMap_append, draw_append]
    refine (fillSpan_eq _ _ _ _ _).trans ?_
    rw [← pixelAt_down hx hy, ← draw_row color w hx (show 0 ≤ y + n by omega)]
    simp

theorem Canvas.fillRect_eq (base : Nat) (x y w h : Int) (color : UInt8) (c : Canvas) :
    c.fillRect base x y w h color = c.draw (fun _ _ => color)
      (raster (interval (max 0 x) (min 320 (x + w))) (interval (max 0 y) (min 240 (y + h)))) := by
  unfold fillRect
  dsimp only
  split_ifs with hempty
  · rcases hempty with hx | hy
    · rw [interval_of_le hx, raster_nil_left]
      rfl
    · rw [interval_of_le hy]
      rfl
  · exact draw_rows base color _ _ (by omega) (by omega) c

theorem Plot.fill_draws {p : Gp → Word} (hop : p .op = gpuFill) (base : Nat) (ram : Bytes)
    (d : Plot) (c : Canvas) :
    Plot.Draws p ram d c (c.fillRect base (Gp.x0.int p) (Gp.y0.int p) (Gp.w.int p) (Gp.h.int p)
      (UInt8.ofNat (p .color).toNat)) := by
  let d' : Plot := { (d.corners p).clipRect p with step := 1 }
  have hsetup : d.setup p = if d'.empty then (d', false)
      else (d'.goto ⟨d'.firstX, d'.firstY⟩, true) := by
    unfold setup
    dsimp only
    rw [hop]
    exact (if_neg (by decide)).trans (if_neg fun h => absurd h.1 (by decide))
  have hclip : d'.Clipped := ⟨le_max_left _ _, min_le_left _ _, le_max_left _ _, min_le_left _ _⟩
  have hdraw := draws_box ram (by rw [hop]; decide) (.inl rfl) hclip hsetup c
  have hcovers : d'.box.filter (d'.covers p) = d'.box := by
    apply List.filter_eq_self.mpr
    intro q hq
    unfold covers
    rw [hclip.onScreen_box hq, hop]
    rfl
  have hcolor : d'.color p ram = fun _ _ => UInt8.ofNat (p .color).toNat := by
    funext q fb
    unfold color
    rw [hop]
    rfl
  rw [hcovers, hcolor] at hdraw
  rw [Canvas.fillRect_eq]
  exact hdraw

end Fill

section Triangle

theorem Canvas.foldl_draw (color : Point → Bytes → UInt8) (covers : Point → Bool)
    (qs : List Point) (c : Canvas) :
    qs.foldl (fun c q => if covers q then c.store (pixelAt q) (color q c.fb) else c) c =
      c.draw color (qs.filter covers) := by
  unfold draw
  rw [List.foldl_filter]

theorem Canvas.triangle_eq (a b c : Point) (color : UInt8) (canvas : Canvas)
    (harea : 0 < (b.x - a.x) * (c.y - a.y) - (b.y - a.y) * (c.x - a.x)) :
    canvas.triangle a b c color = canvas.draw (fun _ _ => color)
      ((raster (interval (max 0 (min a.x (min b.x c.x))) (min 320 (max a.x (max b.x c.x))))
        (interval (max 0 (min a.y (min b.y c.y))) (min 240 (max a.y (max b.y c.y))))).filter
        fun q => onScreen q && (inside a b q && inside b c q && inside c a q)) := by
  unfold triangle
  dsimp only
  rw [if_neg (by omega), if_neg (by omega)]
  dsimp only
  rw [min_assoc, max_assoc, min_assoc, max_assoc, ← Canvas.foldl_draw]
  refine (foldl_raster (fun (canvas : Canvas) q => if inside a b q && inside b c q && inside c a q then
    canvas.pixel q color else canvas) _ _ _).trans ?_
  congr 1
  funext canvas q
  unfold pixel
  cases onScreen q with
  | true => simp
  | false => simp

theorem Canvas.triangle_swap (a b c : Point) (color : UInt8) (canvas : Canvas)
    (harea : (b.x - a.x) * (c.y - a.y) - (b.y - a.y) * (c.x - a.x) < 0) :
    canvas.triangle a b c color = canvas.triangle a c b color := by
  have hswap : 0 < (c.x - a.x) * (b.y - a.y) - (c.y - a.y) * (b.x - a.x) := by
    rw [mul_comm (c.x - a.x), mul_comm (c.y - a.y)]
    omega
  unfold triangle
  dsimp only
  rw [if_neg (by omega), if_pos harea, if_neg (by omega), if_neg (by omega)]

theorem Plot.oriented_triangle (d : Plot) (harea : d.area ≠ 0) (color : UInt8) (c : Canvas) :
    0 < d.oriented.area ∧
      c.triangle d.a d.b d.c color = c.triangle d.oriented.a d.oriented.b d.oriented.c color := by
  unfold oriented
  split_ifs with hneg
  · refine ⟨?_, Canvas.triangle_swap _ _ _ _ _ hneg⟩
    unfold area at hneg ⊢
    dsimp only
    rw [mul_comm (d.c.x - d.a.x), mul_comm (d.c.y - d.a.y)]
    omega
  · exact ⟨by omega, rfl⟩

theorem Plot.triangle_draws {p : Gp → Word} (hop : p .op = gpuTriangle) (ram : Bytes)
    (d : Plot) (c : Canvas) :
    Plot.Draws p ram d c (c.triangle ⟨Gp.x0.int p, Gp.y0.int p⟩ ⟨Gp.x1.int p, Gp.y1.int p⟩
      ⟨Gp.x2.int p, Gp.y2.int p⟩ (UInt8.ofNat (p .color).toNat)) := by
  let d₁ : Plot := { d.corners p with step := 1 }
  by_cases harea : d₁.area = 0
  · refine .inl ⟨d₁, ?_, if_pos harea⟩
    unfold setup
    dsimp only
    rw [hop]
    exact (if_neg (by decide)).trans (if_pos ⟨rfl, harea⟩)
  · let d' := d₁.oriented.clipTriangle
    have hsetup : d.setup p = if d'.empty then (d', false)
        else (d'.goto ⟨d'.firstX, d'.firstY⟩, true) := by
      unfold setup
      dsimp only
      rw [hop]
      exact (if_neg (by decide)).trans (if_neg fun h => harea h.2)
    have hstep : d'.step = 1 := by
      change d₁.oriented.step = 1
      unfold oriented
      split_ifs
      · rfl
      · rfl
    have hclip : d'.Clipped :=
      ⟨le_max_left _ _, min_le_left _ _, le_max_left _ _, min_le_left _ _⟩
    have hdraw := draws_box ram (by rw [hop]; decide) (.inl hstep) hclip hsetup c
    have hcovers : d'.covers p = fun q => onScreen q &&
        (inside d'.a d'.b q && inside d'.b d'.c q && inside d'.c d'.a q) := by
      funext q
      unfold covers
      rw [hop]
      rfl
    have hcolor : d'.color p ram = fun _ _ => UInt8.ofNat (p .color).toNat := by
      funext q fb
      unfold color
      rw [hop]
      rfl
    obtain ⟨hpos, horient⟩ := d₁.oriented_triangle harea (UInt8.ofNat (p .color).toNat) c
    rw [hcovers, hcolor] at hdraw
    refine (horient.trans (Canvas.triangle_eq _ _ _ _ _ hpos)) ▸ ?_
    have hbox : d'.box = raster (interval d'.lo d'.hi) (interval d'.top d'.bottom) :=
      if_neg (by rw [hstep]; decide)
    rw [hbox] at hdraw
    exact hdraw

end Triangle

section Line

/-- A line in progress: `i` columns of `dx` and `j` rows of `dy` have been made. -/
structure Plot.OnLine (d : Plot) (i j : Int) : Prop where
  side : d.sy = 1 ∨ d.sy = -1
  left : 0 ≤ i
  right : i ≤ d.dx
  above : 0 ≤ j
  below : j ≤ d.dy
  goalX : d.cursor.x + (d.dx - i) = d.b.x
  goalY : d.cursor.y + d.sy * (d.dy - j) = d.b.y
  err : d.err = (j + 1) * d.dx - (i + 1) * d.dy

variable {d : Plot} {i j : Int}

theorem Plot.OnLine.last_iff (h : d.OnLine i j) : d.cursor = d.b ↔ i = d.dx ∧ j = d.dy := by
  have hx := h.goalX
  have hy := h.goalY
  rw [Point.ext_iff]
  rcases h.side with hs | hs
  · rw [hs] at hy
    constructor
    · rintro ⟨h1, h2⟩
      omega
    · rintro ⟨h1, h2⟩
      omega
  · rw [hs] at hy
    constructor
    · rintro ⟨h1, h2⟩
      omega
    · rintro ⟨h1, h2⟩
      omega

theorem Plot.OnLine.right_lt (h : d.OnLine i j) (hne : ¬(i = d.dx ∧ j = d.dy))
    (hr : -d.dy ≤ 2 * d.err) : i < d.dx := by
  by_contra hi
  have hi : i = d.dx := by have := h.right; omega
  have hj : j < d.dy := by have := h.below; omega
  have herr := h.err
  have hl := h.left
  have ha := h.above
  rw [hi] at herr hl
  have hle : d.dx * (j + 1 - d.dy) ≤ 0 := mul_nonpos_of_nonneg_of_nonpos hl (by omega)
  have heq : d.err = d.dx * (j + 1 - d.dy) - d.dy := by rw [herr]; ring
  omega

theorem Plot.OnLine.below_lt (h : d.OnLine i j) (hne : ¬(i = d.dx ∧ j = d.dy))
    (hb : 2 * d.err ≤ d.dx) : j < d.dy := by
  by_contra hj
  have hj : j = d.dy := by have := h.below; omega
  have hi : i < d.dx := by have := h.right; omega
  have herr := h.err
  have ha := h.above
  have hl := h.left
  rw [hj] at herr ha
  have hle : 0 ≤ d.dy * (d.dx - i - 1) := mul_nonneg ha (by omega)
  have heq : d.err = d.dx + d.dy * (d.dx - i - 1) := by rw [herr]; ring
  omega

theorem Plot.OnLine.next (h : d.OnLine i j) (hne : ¬(i = d.dx ∧ j = d.dy)) :
    ∃ i' j', (i' = if -d.dy ≤ 2 * d.err then i + 1 else i) ∧
      (j' = if 2 * d.err ≤ d.dx then j + 1 else j) ∧ d.lineNext.OnLine i' j' ∧
      i + j < i' + j' := by
  have hx := h.goalX
  have hy := h.goalY
  have herr := h.err
  refine ⟨_, _, rfl, rfl, ⟨h.side, ?left, ?right, ?above, ?below, ?goalX, ?goalY, ?err⟩, ?nearer⟩
  case left =>
    have := h.left
    split_ifs
    · omega
    · omega
  case right =>
    change _ ≤ d.dx
    split_ifs with hr
    · exact h.right_lt hne hr
    · exact h.right
  case above =>
    have := h.above
    split_ifs
    · omega
    · omega
  case below =>
    change _ ≤ d.dy
    split_ifs with hb
    · exact h.below_lt hne hb
    · exact h.below
  case goalX =>
    change (if -d.dy ≤ 2 * d.err then d.cursor.x + 1 else d.cursor.x) + (d.dx - _) = d.b.x
    split_ifs
    · omega
    · exact hx
  case goalY =>
    change (if 2 * d.err ≤ d.dx then d.cursor.y + d.sy else d.cursor.y) + d.sy * (d.dy - _) = d.b.y
    split_ifs
    · rw [← hy]
      ring
    · exact hy
  case err =>
    change d.err - (if -d.dy ≤ 2 * d.err then d.dy else 0) + (if 2 * d.err ≤ d.dx then d.dx else 0) =
      (_ + 1) * d.dx - (_ + 1) * d.dy
    split_ifs
    all_goals rw [herr]; ring
  case nearer =>
    -- one of the two is due, or the error would be both below and above zero
    have := h.left
    have := h.right
    have := h.above
    have := h.below
    split_ifs
    all_goals omega

def Plot.along (d : Plot) (q : Point) : Int := q.x + d.sy * q.y

theorem Plot.OnLine.along_cursor (h : d.OnLine i j) :
    d.along d.cursor = d.along d.b - d.dx - d.dy + (i + j) := by
  have hx := h.goalX
  have hy := h.goalY
  unfold along
  rcases h.side with hs | hs
  all_goals
    rw [hs] at hy ⊢
    omega

theorem Plot.OnLine.visits {p : Gp → Word} (hop : p .op = gpuLine) (color : UInt8)
    (h : d.OnLine i j) (rounds : Nat) (hr : d.dx - i + (d.dy - j) < rounds) (c : Canvas) :
    ∃ qs, Plot.Visits p d qs ∧ qs.length ≤ rounds ∧
      (qs.Nodup ∧ ∀ q ∈ qs, d.along d.cursor ≤ d.along q) ∧
      Canvas.lineLoop color d.b d.dx d.dy d.sy rounds d.cursor d.err c =
        some (c.draw (fun _ _ => color) (qs.filter onScreen)) := by
  induction rounds generalizing d i j c with
  | zero =>
    have := h.right
    have := h.below
    omega
  | succ rounds ih =>
    have hlast : d.last p = decide (d.cursor = d.b) := if_pos hop
    have hpixel : c.pixel d.cursor color = c.draw (fun _ _ => color) ([d.cursor].filter onScreen) := by
      rw [← Canvas.foldl_draw]
      rfl
    by_cases hb : d.cursor = d.b
    · refine ⟨[d.cursor], .last (hlast.trans (decide_eq_true hb)), by simp, by simp, ?_⟩
      unfold Canvas.lineLoop
      dsimp only
      rw [if_pos hb, hpixel]
    · obtain ⟨i', j', _, _, hnext, hnear⟩ := h.next fun h' => hb (h.last_iff.mpr h')
      have hdx : d.lineNext.dx = d.dx := rfl
      have hdy : d.lineNext.dy = d.dy := rfl
      obtain ⟨qs, hv, hlen, ⟨hnodup, halong⟩, hloop⟩ :=
        ih hnext (by omega) (c.pixel d.cursor color)
      have hstep : d.next p = d.lineNext := if_pos hop
      have hfar : ∀ q ∈ qs, d.along d.cursor < d.along q := by
        intro q hq
        have hle : d.along d.lineNext.cursor ≤ d.along q := halong q hq
        have hcursor := h.along_cursor
        have hcursor' : d.along d.lineNext.cursor = d.along d.b - d.dx - d.dy + (i' + j') :=
          hnext.along_cursor
        omega
      refine ⟨d.cursor :: qs, .next (hlast.trans (decide_eq_false hb)) (hstep ▸ hv), ?_, ⟨?_, ?_⟩, ?_⟩
      · rw [List.length_cons]
        omega
      · exact List.nodup_cons.mpr ⟨fun hq => lt_irrefl _ (hfar _ hq), hnodup⟩
      · intro q hq
        rcases List.mem_cons.mp hq with rfl | hq
        · exact le_refl _
        · exact (hfar q hq).le
      · have hfilter : (d.cursor :: qs).filter onScreen =
            [d.cursor].filter onScreen ++ qs.filter onScreen := List.filter_append [d.cursor] qs
        rw [hfilter, Canvas.draw_append, ← hpixel, ← hloop]
        rw [Canvas.lineLoop]
        dsimp only
        rw [if_neg hb]
        unfold lineNext
        dsimp only
        split_ifs
        all_goals simp

theorem Plot.lineStart_onLine (h : d.a.x ≤ d.b.x) : d.lineStart.OnLine 0 0 := by
  unfold lineStart
  constructor
  case side =>
    dsimp only
    split_ifs
    · exact .inr rfl
    · exact .inl rfl
  case left => exact le_refl _
  case right =>
    dsimp only
    omega
  case above => exact le_refl _
  case below =>
    dsimp only
    split_ifs
    · omega
    · omega
  case goalX =>
    dsimp only
    omega
  case goalY =>
    dsimp only
    split_ifs
    · omega
    · omega
  case err =>
    dsimp only
    ring

theorem Plot.ordered_le (d : Plot) : d.ordered.a.x ≤ d.ordered.b.x := by
  unfold ordered
  split_ifs with h
  · dsimp only
    omega
  · omega

theorem Canvas.line_ordered (d : Plot) (color : UInt8) (c : Canvas) :
    c.line d.a d.b color =
      let d' := d.ordered.lineStart
      lineLoop color d'.b d'.dx d'.dy d'.sy (d'.dx + d'.dy + 1).toNat d'.cursor d'.err c := by
  unfold line Plot.ordered
  split_ifs
  · rfl
  · rfl

theorem Plot.ordered_near {d : Plot} (hx : |d.b.x - d.a.x| < 4096) (hy : |d.b.y - d.a.y| < 4096) :
    d.ordered.lineStart.dx < 4096 ∧ d.ordered.lineStart.dy < 4096 := by
  rw [abs_lt] at hx hy
  unfold ordered lineStart
  split_ifs
  all_goals dsimp only; omega

theorem Plot.line_draws {p : Gp → Word} (hop : p .op = gpuLine)
    (hx : |Gp.x1.int p - Gp.x0.int p| < 4096) (hy : |Gp.y1.int p - Gp.y0.int p| < 4096)
    (ram : Bytes) (d : Plot) (c : Canvas) :
    ∃ c', c.line ⟨Gp.x0.int p, Gp.y0.int p⟩ ⟨Gp.x1.int p, Gp.y1.int p⟩
        (UInt8.ofNat (p .color).toNat) = some c' ∧ Plot.Draws p ram d c c' := by
  let d' := (d.corners p).ordered.lineStart
  have hnear : d'.dx < 4096 ∧ d'.dy < 4096 := ordered_near hx hy
  have hline : d'.OnLine 0 0 := lineStart_onLine (ordered_le _)
  obtain ⟨qs, hv, hlen, hnodup, hloop⟩ := hline.visits hop (UInt8.ofNat (p .color).toNat)
    (d'.dx + d'.dy + 1).toNat (by have := hline.right; have := hline.below; omega) c
  have hcovers : d'.covers p = onScreen := by
    funext q
    unfold covers
    rw [hop]
    exact Bool.and_true _
  have hcolor : d'.color p ram = fun _ _ => UInt8.ofNat (p .color).toNat := by
    funext q fb
    unfold color
    rw [hop]
    rfl
  refine ⟨_, (Canvas.line_ordered (d.corners p) _ c).trans hloop, ?_⟩
  refine .inr ⟨d', qs, if_pos hop, hv, hnodup.1, by omega, ?_⟩
  rw [hcovers, hcolor]

end Line

section Blit

def Plot.blitBox (d : Plot) (p : Gp → Word) : Plot :=
  Plot.clipBlit { (d.corners p).clipRect p with step := 1 } p

def blitRange (a s size length x : Int) : Bool :=
  0 ≤ x && x < size && 0 ≤ s + x - a && s + x - a < length

def inBlit (p : Gp → Word) (q : Point) : Bool :=
  blitRange (Gp.x0.int p) (Gp.sx.int p) 320 (Gp.sw.int p) q.x &&
    blitRange (Gp.y0.int p) (Gp.sy.int p) 240 (Gp.sh.int p) q.y

def blitColor (source : Source) (p : Gp → Word) (q : Point) (fb : Bytes) : UInt8 :=
  source.read fb (wrap32 ((Gp.sy.int p + q.y - Gp.y0.int p) * (p .stride).toNat +
    (Gp.sx.int p + q.x - Gp.x0.int p)))

variable {p : Gp → Word}

theorem Canvas.blitPixel_eq (hop : p .op = gpuBlit) (source : Source) (color : UInt8)
    (reverse : Bool) (i j : Int) (c : Canvas) :
    c.blitPixel source p color reverse i j =
      let q : Point := ⟨Gp.x0.int p + (if reverse then Gp.w.int p - 1 - i else i),
        Gp.y0.int p + if reverse then Gp.h.int p - 1 - j else j⟩
      if inBlit p q then c.store (pixelAt q) (blitColor source p q c.fb) else c := by
  unfold blitPixel
  dsimp only
  generalize (if reverse then Gp.w.int p - 1 - i else i) = xx
  generalize (if reverse then Gp.h.int p - 1 - j else j) = yy
  have hu : Gp.sx.int p + (Gp.x0.int p + xx) - Gp.x0.int p = Gp.sx.int p + xx := by ring
  have hv : Gp.sy.int p + (Gp.y0.int p + yy) - Gp.y0.int p = Gp.sy.int p + yy := by ring
  unfold inBlit blitRange blitColor
  rw [if_pos hop, hu, hv]
  generalize hx : Gp.x0.int p + xx = x
  generalize hy : Gp.y0.int p + yy = y
  by_cases hscreen : 0 ≤ x ∧ x < 320 ∧ 0 ≤ y ∧ y < 240
  · obtain ⟨hx0, hx1, hy0, hy1⟩ := hscreen
    have hon : onScreen ⟨x, y⟩ = true := by simp [onScreen, hx0, hx1, hy0, hy1]
    rw [if_neg (by omega)]
    unfold pixel
    rw [if_pos hon]
    split_ifs with h1 h2 h2
    · simp only [Bool.and_eq_true, decide_eq_true_eq] at h2
      omega
    · rfl
    · rfl
    · simp only [Bool.and_eq_true, decide_eq_true_eq] at h2
      omega
  · rw [if_pos (by omega), if_neg]
    simp only [Bool.and_eq_true, decide_eq_true_eq]
    omega

def blitPoints (p : Gp → Word) : List Point :=
  let box := raster (interval (Gp.x0.int p) (Gp.x0.int p + Gp.w.int p))
    (interval (Gp.y0.int p) (Gp.y0.int p + Gp.h.int p))
  if p .src = fbAddress ∧ Gp.sy.int p * 320 + Gp.sx.int p < Gp.y0.int p * 320 + Gp.x0.int p then
    box.reverse
  else box

theorem Canvas.blit_eq (hop : p .op = gpuBlit) (source : Source) (color : UInt8) (c : Canvas) :
    c.blit source p color = c.draw (blitColor source p) ((blitPoints p).filter (inBlit p)) := by
  unfold blit blitPoints
  dsimp only
  rw [← foldl_draw]
  refine (foldl_raster (fun (c : Canvas) q => c.blitPixel source p color _ q.x q.y) _ _ c).trans ?_
  simp only [blitPixel_eq hop, hop, true_and]
  by_cases hback : p .src = fbAddress ∧
      Gp.sy.int p * 320 + Gp.sx.int p < Gp.y0.int p * 320 + Gp.x0.int p
  · simp only [hback, and_self, decide_true, if_true]
    rw [reverse_raster, ← map_interval_mirror, ← map_interval_mirror, ← map_raster, List.foldl_map]
  · simp only [hback, decide_false, Bool.false_eq_true, if_false]
    have hx := map_interval 0 (Gp.w.int p) (Gp.x0.int p)
    have hy := map_interval 0 (Gp.h.int p) (Gp.y0.int p)
    rw [Int.add_zero] at hx hy
    rw [← hx, ← hy, ← map_raster, List.foldl_map]

theorem filter_blitRange (a n s size length : Int) :
    (interval a (a + n)).filter (blitRange a s size length) =
      interval (max (max 0 a) (a - s)) (min (min size (a + n)) (a + length - s)) := by
  have hcond : blitRange a s size length =
      fun x => max 0 (a - s) ≤ x && x < min size (a + length - s) := by
    funext x
    unfold blitRange
    rw [Bool.eq_iff_iff]
    simp only [Bool.and_eq_true, decide_eq_true_eq]
    omega
  rw [hcond, filter_interval]
  congr 1
  · omega
  · omega

theorem Plot.blitBox_box (d : Plot) (p : Gp → Word) :
    (d.blitBox p).box = (blitPoints p).filter (inBlit p) := by
  have hfilter : (raster (interval (Gp.x0.int p) (Gp.x0.int p + Gp.w.int p))
      (interval (Gp.y0.int p) (Gp.y0.int p + Gp.h.int p))).filter (inBlit p) =
        raster (interval (d.blitBox p).lo (d.blitBox p).hi)
          (interval (d.blitBox p).top (d.blitBox p).bottom) := by
    refine (filter_raster (blitRange _ _ 320 _) (blitRange _ _ 240 _) _ _).trans ?_
    exact congrArg₂ raster (filter_blitRange _ _ _ _ _) (filter_blitRange _ _ _ _ _)
  unfold box blitPoints
  dsimp only
  rw [← hfilter]
  by_cases hback : p .src = fbAddress ∧
      Gp.sy.int p * 320 + Gp.sx.int p < Gp.y0.int p * 320 + Gp.x0.int p
  · have hstep : (d.blitBox p).step = -1 := if_pos hback
    rw [if_pos hstep, if_pos hback, List.filter_reverse]
  · have hstep : (d.blitBox p).step = 1 := if_neg hback
    rw [if_neg (by rw [hstep]; decide), if_neg hback]

end Blit

end TinyProcessors
