import TinyProcessors.Gpu.Agrees

namespace TinyProcessors

def idealRow (a b : Point) (x : Int) : ℚ := a.y + (b.y - a.y) * (x - a.x) / (b.x - a.x)

def idealColumn (a b : Point) (y : Int) : ℚ := a.x + (b.x - a.x) * (y - a.y) / (b.y - a.y)

/-- The points of a line, half a pixel from the ideal one at most. -/
structure Line (a b : Point) (qs : List Point) : Prop where
  length : qs.length = max (b.x - a.x).natAbs (b.y - a.y).natAbs + 1
  nodup : qs.Nodup
  first : qs.head? = some a
  last : qs.getLast? = some b
  flat (h : |b.y - a.y| ≤ |b.x - a.x|) (k : Nat) (q : Point) (hq : qs[k]? = some q) :
    q.x = a.x + (b.x - a.x).sign * k ∧ |q.y - idealRow a b q.x| ≤ 1 / 2
  steep (h : |b.x - a.x| ≤ |b.y - a.y|) (k : Nat) (q : Point) (hq : qs[k]? = some q) :
    q.y = a.y + (b.y - a.y).sign * k ∧ |q.x - idealColumn a b q.y| ≤ 1 / 2

section Pace

variable {d : Plot} {i j : Int}

def Plot.Close (d : Plot) (i j : Int) : Prop := |2 * (i * d.dy - j * d.dx)| ≤ max d.dx d.dy

theorem Plot.OnLine.next_flat (h : d.OnLine i j) (hc : d.Close i j) (hflat : d.dy ≤ d.dx) :
    -d.dy ≤ 2 * d.err ∧ d.lineNext.Close (i + 1) (if 2 * d.err ≤ d.dx then j + 1 else j) := by
  have herr := h.err
  have hdy : 0 ≤ d.dy := h.above.trans h.below
  unfold Close at hc
  rw [max_eq_left hflat, abs_le] at hc
  have hexpand : d.err = j * d.dx - i * d.dy + d.dx - d.dy := by rw [herr]; ring
  refine ⟨by omega, ?_⟩
  change |2 * ((i + 1) * d.dy - _ * d.dx)| ≤ max d.dx d.dy
  rw [max_eq_left hflat, abs_le, add_mul, one_mul]
  split_ifs
  · rw [add_mul, one_mul]
    omega
  · omega

theorem Plot.OnLine.next_steep (h : d.OnLine i j) (hc : d.Close i j) (hsteep : d.dx ≤ d.dy) :
    2 * d.err ≤ d.dx ∧ d.lineNext.Close (if -d.dy ≤ 2 * d.err then i + 1 else i) (j + 1) := by
  have herr := h.err
  have hdx : 0 ≤ d.dx := h.left.trans h.right
  unfold Close at hc
  rw [max_eq_right hsteep, abs_le] at hc
  have hexpand : d.err = j * d.dx - i * d.dy + d.dx - d.dy := by rw [herr]; ring
  refine ⟨by omega, ?_⟩
  change |2 * (_ * d.dy - (j + 1) * d.dx)| ≤ max d.dx d.dy
  rw [max_eq_right hsteep, abs_le, add_mul, one_mul]
  split_ifs
  · rw [add_mul, one_mul]
    omega
  · omega

/-- The place of a pixel on a line: `k` steps of the longer axis have been made. -/
structure Plot.Place (d : Plot) (i j : Int) (k : Nat) (q : Point) (i' j' : Int) : Prop where
  column : q.x = d.cursor.x + (i' - i)
  row : q.y = d.cursor.y + d.sy * (j' - j)
  close : d.Close i' j'
  flat : d.dy ≤ d.dx → i' = i + k
  steep : d.dx ≤ d.dy → j' = j + k

structure Plot.Rest (d : Plot) (i j : Int) (qs : List Point) : Prop where
  flat : d.dy ≤ d.dx → qs.length = d.dx - i + 1
  steep : d.dx ≤ d.dy → qs.length = d.dy - j + 1
  first : qs.head? = some d.cursor
  last : qs.getLast? = some d.b
  place (k : Nat) (q : Point) (hq : qs[k]? = some q) : ∃ i' j', d.Place i j k q i' j'

theorem Plot.Place.here (hc : d.Close i j) : d.Place i j 0 d.cursor i j where
  column := by omega
  row := by rw [sub_self, mul_zero, add_zero]
  close := hc
  flat _ := (add_zero i).symm
  steep _ := (add_zero j).symm

theorem Plot.Visits.rest {p : Gp → Word} (hop : p .op = gpuLine) (hv : Plot.Visits p d qs)
    (h : d.OnLine i j) (hc : d.Close i j) : d.Rest i j qs := by
  induction hv generalizing i j with
  | @last d hl =>
    have hb : d.cursor = d.b := of_decide_eq_true ((if_pos hop).symm.trans hl)
    obtain ⟨rfl, rfl⟩ := h.last_iff.mp hb
    refine ⟨fun _ => by simp, fun _ => by simp, rfl, congrArg some hb, fun k q hq => ?_⟩
    cases k with
    | zero =>
      obtain rfl : d.cursor = q := Option.some.inj hq
      exact ⟨_, _, .here hc⟩
    | succ k => cases hq
  | @next qs d hl hv ih =>
    have hb : d.cursor ≠ d.b := of_decide_eq_false ((if_pos hop).symm.trans hl)
    have hstep : d.next p = d.lineNext := if_pos hop
    rw [hstep] at hv ih
    obtain ⟨i', j', hi, hj, hnext, _⟩ := h.next fun h' => hb (h.last_iff.mpr h')
    have hflat (hf : d.dy ≤ d.dx) : i' = i + 1 ∧ d.lineNext.Close i' j' := by
      obtain ⟨hr, hclose⟩ := h.next_flat hc hf
      rw [if_pos hr] at hi
      exact ⟨hi, hi ▸ hj ▸ hclose⟩
    have hsteep (hs : d.dx ≤ d.dy) : j' = j + 1 ∧ d.lineNext.Close i' j' := by
      obtain ⟨hd, hclose⟩ := h.next_steep hc hs
      rw [if_pos hd] at hj
      exact ⟨hj, hi ▸ hj ▸ hclose⟩
    have hclose : d.lineNext.Close i' j' := by
      rcases le_total d.dy d.dx with hf | hs
      · exact (hflat hf).2
      · exact (hsteep hs).2
    obtain ⟨hlflat, hlsteep, hfirst, hlast, hplace⟩ := ih hnext hclose
    have hx : d.lineNext.cursor.x = d.cursor.x + (i' - i) := by
      have h₁ := h.goalX
      have h₂ : d.lineNext.cursor.x + (d.dx - i') = d.b.x := hnext.goalX
      omega
    have hy : d.lineNext.cursor.y = d.cursor.y + d.sy * (j' - j) := by
      have h₁ := h.goalY
      have h₂ : d.lineNext.cursor.y + d.sy * (d.dy - j') = d.b.y := hnext.goalY
      linarith
    refine ⟨fun hf => ?_, fun hs => ?_, rfl, ?_, fun k q hq => ?_⟩
    · have hlen : (qs.length : Int) = d.dx - i' + 1 := hlflat hf
      have := (hflat hf).1
      rw [List.length_cons]
      push_cast
      omega
    · have hlen : (qs.length : Int) = d.dy - j' + 1 := hlsteep hs
      have := (hsteep hs).1
      rw [List.length_cons]
      push_cast
      omega
    · rw [List.getLast?_cons, hlast]
      rfl
    · cases k with
      | zero =>
        obtain rfl : d.cursor = q := Option.some.inj hq
        exact ⟨_, _, .here hc⟩
      | succ k =>
        obtain ⟨i'', j'', hp⟩ := hplace k q hq
        have hcolumn : q.x = d.lineNext.cursor.x + (i'' - i') := hp.column
        have hrow : q.y = d.lineNext.cursor.y + d.sy * (j'' - j') := hp.row
        refine ⟨i'', j'', ⟨by omega, by rw [hrow, hy]; ring, hp.close, fun hf => ?_, fun hs => ?_⟩⟩
        · have h₁ : i'' = i' + k := hp.flat hf
          have h₂ := (hflat hf).1
          push_cast
          omega
        · have h₁ : j'' = j' + k := hp.steep hs
          have h₂ := (hsteep hs).1
          push_cast
          omega

end Pace

theorem half_pixel {i j m n : Int} (hn : 0 < n) (h : |2 * (i * m - j * n)| ≤ n) :
    |(j : ℚ) - m * i / n| ≤ 1 / 2 := by
  have hq : (0 : ℚ) < n := by exact_mod_cast hn
  have hle : |2 * ((i : ℚ) * m - j * n)| ≤ n := by exact_mod_cast h
  have hfrac : (j : ℚ) - m * i / n = -(2 * (i * m - j * n)) / (2 * n) := by
    field_simp
    ring
  rw [hfrac, abs_div, abs_neg, abs_of_pos (by linarith : (0 : ℚ) < 2 * n),
    div_le_div_iff₀ (by linarith) (by norm_num)]
  linarith

section Ends

variable {d : Plot} {qs : List Point} {k : Nat} {q : Point}

theorem Plot.lineStart_rows (d : Plot) : d.lineStart.sy * d.lineStart.dy = d.b.y - d.a.y := by
  unfold lineStart
  dsimp only
  split_ifs
  · ring
  · ring

theorem Plot.lineStart_sy (d : Plot) :
    d.lineStart.sy = 1 ∧ 0 ≤ d.b.y - d.a.y ∨ d.lineStart.sy = -1 ∧ d.b.y - d.a.y < 0 := by
  unfold lineStart
  dsimp only
  split_ifs with h
  · exact .inr ⟨rfl, h⟩
  · exact .inl ⟨rfl, by omega⟩

theorem Plot.lineStart_dy (d : Plot) : d.lineStart.dy = |d.b.y - d.a.y| := by
  have hrows := d.lineStart_rows
  rcases d.lineStart_sy with ⟨hs, hy⟩ | ⟨hs, hy⟩
  · rw [hs, one_mul] at hrows
    rw [hrows, abs_of_nonneg hy]
  · rw [hs, neg_one_mul] at hrows
    rw [← hrows, abs_of_neg (by omega), neg_neg]

theorem Plot.lineStart_dx (hab : d.a.x ≤ d.b.x) : d.lineStart.dx = |d.b.x - d.a.x| :=
  (abs_of_nonneg (sub_nonneg.mpr hab)).symm

theorem Plot.Place.x_eq (hp : d.lineStart.Place 0 0 k q i j) : q.x = d.a.x + i := by
  have hcolumn : q.x = d.a.x + (i - 0) := hp.column
  rwa [sub_zero] at hcolumn

theorem Plot.Place.y_eq (hp : d.lineStart.Place 0 0 k q i j) :
    q.y = d.a.y + d.lineStart.sy * j := by
  have hrow : q.y = d.a.y + d.lineStart.sy * (j - 0) := hp.row
  rwa [sub_zero] at hrow

theorem Plot.Rest.length (hab : d.a.x ≤ d.b.x) (h : d.lineStart.Rest 0 0 qs) :
    qs.length = max (d.b.x - d.a.x).natAbs (d.b.y - d.a.y).natAbs + 1 := by
  have hdx := lineStart_dx hab
  have hdy := d.lineStart_dy
  rw [Int.abs_eq_natAbs] at hdx hdy
  rcases le_total d.lineStart.dy d.lineStart.dx with hf | hs
  · have hlen := h.flat hf
    rw [max_eq_left (by omega)]
    omega
  · have hlen := h.steep hs
    rw [max_eq_right (by omega)]
    omega

theorem Plot.Rest.nodup (h : d.lineStart.Rest 0 0 qs) : qs.Nodup := by
  rw [List.nodup_iff_getElem?_ne_getElem?]
  intro k k' hlt hk' heq
  have hq : qs[k']? = some qs[k'] := List.getElem?_eq_getElem hk'
  obtain ⟨i, j, hp⟩ := h.place k _ (heq.trans hq)
  obtain ⟨i', j', hp'⟩ := h.place k' _ hq
  rcases le_total d.lineStart.dy d.lineStart.dx with hf | hs
  · have hx := hp.x_eq.symm.trans hp'.x_eq
    have := hp.flat hf
    have := hp'.flat hf
    omega
  · have hy := hp.y_eq.symm.trans hp'.y_eq
    have := hp.steep hs
    have := hp'.steep hs
    rcases d.lineStart_sy with ⟨hsy, _⟩ | ⟨hsy, _⟩
    · rw [hsy] at hy
      omega
    · rw [hsy] at hy
      omega

theorem Plot.Rest.only (h : d.lineStart.Rest 0 0 qs) (hx : d.lineStart.dx = 0)
    (hy : d.lineStart.dy = 0) (hq : qs[k]? = some q) : k = 0 ∧ q = d.a := by
  have hlen := h.flat (by omega)
  have hk : k < qs.length := (List.getElem?_eq_some_iff.mp hq).1
  obtain rfl : k = 0 := by omega
  have hfirst := h.first
  rw [List.head?_eq_getElem?, hq] at hfirst
  exact ⟨rfl, Option.some.inj hfirst⟩

theorem Plot.Rest.flat_line (hab : d.a.x ≤ d.b.x) (h : d.lineStart.Rest 0 0 qs)
    (hle : d.lineStart.dy ≤ d.lineStart.dx) (hq : qs[k]? = some q) :
    q.x = d.a.x + (d.b.x - d.a.x).sign * k ∧ |q.y - idealRow d.a d.b q.x| ≤ 1 / 2 := by
  have hdx : d.lineStart.dx = d.b.x - d.a.x := rfl
  have hrows := d.lineStart_rows
  have hnonneg : 0 ≤ d.lineStart.dy := d.lineStart_dy ▸ abs_nonneg _
  rcases hab.lt_or_eq with hlt | heq
  · obtain ⟨i, j, hp⟩ := h.place k q hq
    have hx := hp.x_eq
    have hi := hp.flat hle
    refine ⟨by rw [Int.sign_eq_one_of_pos (by omega)]; omega, ?_⟩
    have hclose := hp.close
    unfold Close at hclose
    rw [max_eq_left hle] at hclose
    have hhalf := half_pixel (by omega) hclose
    unfold idealRow
    rw [hp.y_eq, hx, ← Int.cast_sub d.b.y, ← hrows, ← Int.cast_sub d.b.x, ← hdx]
    push_cast
    rcases d.lineStart_sy with ⟨hsy, _⟩ | ⟨hsy, _⟩
    · rw [hsy]
      convert hhalf using 2
      push_cast
      ring
    · rw [hsy, ← abs_neg]
      convert hhalf using 2
      push_cast
      ring
  · obtain ⟨rfl, rfl⟩ := h.only (by omega) (by omega) hq
    unfold idealRow
    simp

theorem Plot.Rest.steep_line (hab : d.a.x ≤ d.b.x) (h : d.lineStart.Rest 0 0 qs)
    (hle : d.lineStart.dx ≤ d.lineStart.dy) (hq : qs[k]? = some q) :
    q.y = d.a.y + (d.b.y - d.a.y).sign * k ∧ |q.x - idealColumn d.a d.b q.y| ≤ 1 / 2 := by
  have hdx : d.lineStart.dx = d.b.x - d.a.x := rfl
  have hrows := d.lineStart_rows
  have hnonneg : 0 ≤ d.lineStart.dy := d.lineStart_dy ▸ abs_nonneg _
  rcases hnonneg.lt_or_eq with hlt | heq
  · obtain ⟨i, j, hp⟩ := h.place k q hq
    have hy := hp.y_eq
    have hj := hp.steep hle
    have hclose := hp.close
    unfold Close at hclose
    rw [max_eq_right hle, ← abs_neg, ← mul_neg, neg_sub] at hclose
    have hhalf := half_pixel hlt hclose
    have hne : (d.lineStart.dy : ℚ) ≠ 0 := by exact_mod_cast hlt.ne'
    unfold idealColumn
    rw [hp.x_eq, hy, ← Int.cast_sub d.b.y, ← hrows, ← Int.cast_sub d.b.x, ← hdx]
    rcases d.lineStart_sy with ⟨hsy, _⟩ | ⟨hsy, _⟩
    · rw [hsy, one_mul, one_mul, Int.sign_eq_one_of_pos hlt]
      refine ⟨by omega, ?_⟩
      convert hhalf using 2
      push_cast
      ring
    · rw [hsy, neg_one_mul, neg_one_mul, Int.sign_neg, Int.sign_eq_one_of_pos hlt]
      refine ⟨by omega, ?_⟩
      convert hhalf using 2
      push_cast
      field_simp
      ring
  · obtain ⟨rfl, rfl⟩ := h.only (by omega) heq.symm hq
    unfold idealColumn
    simp

theorem Plot.Rest.line (hab : d.a.x ≤ d.b.x) (h : d.lineStart.Rest 0 0 qs) :
    Line d.a d.b qs where
  length := h.length hab
  nodup := h.nodup
  first := h.first
  last := h.last
  flat hle _ _ hq := by
    rw [← d.lineStart_dy, ← lineStart_dx hab] at hle
    exact h.flat_line hab hle hq
  steep hle _ _ hq := by
    rw [← d.lineStart_dy, ← lineStart_dx hab] at hle
    exact h.steep_line hab hle hq

end Ends

def lineEnds (p : Gp → Word) : Point × Point :=
  (⟨Gp.x0.int p, Gp.y0.int p⟩, ⟨Gp.x1.int p, Gp.y1.int p⟩)

def Point.InRange (q : Point) : Prop := (-1024 ≤ q.x ∧ q.x ≤ 1023) ∧ -1024 ≤ q.y ∧ q.y ≤ 1023

instance (q : Point) : Decidable q.InRange := inferInstanceAs (Decidable (_ ∧ _))

theorem G1.line_valid {g : G1} (hop : g.p .op = gpuLine) (hcolor : g.p .color ≤ 255)
    (ha : (lineEnds g.p).1.InRange) (hb : (lineEnds g.p).2.InRange) (window : Window) :
    g.valid window = true := by
  obtain ⟨⟨_, _⟩, _, _⟩ := ha
  obtain ⟨⟨_, _⟩, _, _⟩ := hb
  unfold valid coord
  simp_all [lineEnds]

theorem Plot.ordered_swap (d d' : Plot) (ha : d'.a = d.b) (hb : d'.b = d.a) :
    d'.ordered.a = d.ordered.a ∧ d'.ordered.b = d.ordered.b := by
  unfold ordered
  rw [ha, hb]
  have hext := @Point.ext_iff d.a d.b
  split_ifs
  · omega
  · exact ⟨rfl, rfl⟩
  · exact ⟨ha, hb⟩
  · have heq : d.a = d.b := hext.mpr (by omega)
    exact ⟨ha.trans heq.symm, hb.trans heq⟩

theorem Plot.ordered_same (d d' : Plot) (ha : d'.a = d.a) (hb : d'.b = d.b) :
    d'.ordered.a = d.ordered.a ∧ d'.ordered.b = d.ordered.b := by
  unfold ordered
  rw [ha, hb]
  split_ifs
  · exact ⟨rfl, rfl⟩
  · exact ⟨ha, hb⟩

structure Plot.SameLine (d d' : Plot) : Prop where
  b : d'.b = d.b
  cursor : d'.cursor = d.cursor
  slope : d'.dx = d.dx ∧ d'.dy = d.dy ∧ d'.sy = d.sy
  err : d'.err = d.err

theorem Plot.lineStart_same {d d' : Plot} (ha : d'.a = d.a) (hb : d'.b = d.b) :
    Plot.SameLine d.lineStart d'.lineStart := by
  unfold lineStart
  rw [ha, hb]
  exact ⟨rfl, rfl, ⟨rfl, rfl, rfl⟩, rfl⟩

theorem Plot.SameLine.lineNext (h : Plot.SameLine d d') :
    Plot.SameLine d.lineNext d'.lineNext := by
  obtain ⟨hdx, hdy, hsy⟩ := h.slope
  unfold Plot.lineNext
  rw [h.cursor, hdx, hdy, hsy, h.err]
  exact ⟨h.b, rfl, ⟨rfl, rfl, rfl⟩, rfl⟩

theorem Plot.Visits.same {p p' : Gp → Word} {d d' : Plot} (hop : p .op = gpuLine)
    (hop' : p' .op = gpuLine) (hv : Plot.Visits p d qs) (h : Plot.SameLine d d') :
    Plot.Visits p' d' qs := by
  have hlast {d d' : Plot} (h : Plot.SameLine d d') : d'.last p' = d.last p := by
    unfold Plot.last
    rw [if_pos hop, if_pos hop', h.cursor, h.b]
  induction hv generalizing d' with
  | @last d hl =>
    rw [← h.cursor]
    exact .last ((hlast h).trans hl)
  | @next qs d hl hv ih =>
    rw [← h.cursor]
    refine .next ((hlast h).trans hl) ?_
    unfold Plot.next at ih ⊢
    rw [if_pos hop] at ih
    rw [if_pos hop']
    exact ih h.lineNext

theorem Plot.Visits.unique (hv : Plot.Visits p d qs) (hv' : Plot.Visits p d qs') : qs = qs' := by
  induction hv generalizing qs' with
  | last hl =>
    cases hv' with
    | last => rfl
    | next hl' => rw [hl] at hl'; cases hl'
  | next hl hv ih =>
    cases hv' with
    | last hl' => rw [hl] at hl'; cases hl'
    | next _ hv' => rw [ih hv']

theorem Plot.ordered_ends (d : Plot) :
    d.ordered.a = d.a ∧ d.ordered.b = d.b ∨ d.ordered.a = d.b ∧ d.ordered.b = d.a := by
  unfold ordered
  split_ifs
  · exact .inr ⟨rfl, rfl⟩
  · exact .inl ⟨rfl, rfl⟩

theorem Plot.line_visits {p : Gp → Word} (hop : p .op = gpuLine) (d : Plot) :
    ∃ qs, Plot.Visits p d.ordered.lineStart qs ∧ Line d.ordered.a d.ordered.b qs ∧
      ∀ (color : UInt8) (c : Canvas),
        c.line d.a d.b color = some (c.draw (fun _ _ => color) (qs.filter onScreen)) := by
  let d' := d.ordered.lineStart
  have hline : d'.OnLine 0 0 := lineStart_onLine d.ordered_le
  have hrounds : d'.dx - 0 + (d'.dy - 0) < ((d'.dx + d'.dy + 1).toNat : Int) := by
    have := hline.right
    have := hline.below
    omega
  have hclose : d'.Close 0 0 := by
    unfold Close
    rw [zero_mul, zero_mul, sub_zero, mul_zero, abs_zero]
    exact hline.right.trans (le_max_left _ _)
  obtain ⟨qs, hv, _⟩ := hline.visits hop 0 _ hrounds ⟨fun _ => 0, []⟩
  refine ⟨qs, hv, (hv.rest hop hline hclose).line d.ordered_le, fun color c => ?_⟩
  obtain ⟨qs', hv', _, _, hloop⟩ := hline.visits hop color _ hrounds c
  rw [hv'.unique hv] at hloop
  exact (Canvas.line_ordered d color c).trans hloop

def Plot.between (a b : Point) : Plot := { Gpu.reset.plot with a := a, b := b }

theorem Plot.Visits.either {a b : Point} (hop : p .op = gpuLine) (hop' : p' .op = gpuLine)
    (hv : Plot.Visits p (Plot.between a b).ordered.lineStart qs) {d : Plot}
    (hd : (d.a, d.b) = (a, b) ∨ (d.a, d.b) = (b, a)) :
    Plot.Visits p' d.ordered.lineStart qs := by
  refine hv.same hop hop' ?_
  rcases hd with hd | hd
  · obtain ⟨ha, hb⟩ := Prod.mk.inj hd
    obtain ⟨ha', hb'⟩ := Plot.ordered_same (Plot.between a b) d ha hb
    exact Plot.lineStart_same ha' hb'
  · obtain ⟨ha, hb⟩ := Prod.mk.inj hd
    obtain ⟨ha', hb'⟩ := Plot.ordered_swap (Plot.between a b) d ha hb
    exact Plot.lineStart_same ha' hb'

/-- The device comes to the pixels of the line, and the reference draws them. -/
theorem gpu_line_visits (a b : Point) (ha : a.InRange) (hb : b.InRange) :
    ∃ qs, (Line a b qs ∨ Line b a qs) ∧
      (∀ (ram : Bytes) (window : Window) (hold : Nat → Bool) (g g' : Gpu) (fb : Bytes),
        (∀ t, ∃ k, hold (t + k) = false) → g.p .op = gpuLine → g.p .color ≤ 255 →
        lineEnds g.p = (a, b) ∨ lineEnds g.p = (b, a) → g.store 0 gpuStart = some g' →
        ∃ n, ∀ m, n ≤ m → (Screen.run ram window hold m ⟨g', fb⟩).gpu.status = .done ∧
          Screen.visited ram window hold m ⟨g', fb⟩ = qs) ∧
      ∀ (color : UInt8) (c : Canvas),
        c.line a b color = some (c.draw (fun _ _ => color) (qs.filter onScreen)) ∧
        c.line b a color = some (c.draw (fun _ _ => color) (qs.filter onScreen)) := by
  obtain ⟨p, hop⟩ : ∃ p : Gp → Word, p .op = gpuLine := ⟨fun _ => gpuLine, rfl⟩
  obtain ⟨qs, hv, hline, hdraw⟩ := Plot.line_visits hop (Plot.between a b)
  refine ⟨qs, ?_, fun ram window hold g g' fb hhold hop' hcolor hends hstart => ?_,
    fun color c => ⟨hdraw color c, ?_⟩⟩
  · rcases (Plot.between a b).ordered_ends with ⟨ha', hb'⟩ | ⟨ha', hb'⟩
    · rw [ha', hb'] at hline
      exact .inl hline
    · rw [ha', hb'] at hline
      exact .inr hline
  · obtain rfl := Gpu.store_start hstart
    have hrange : (lineEnds g.p).1.InRange ∧ (lineEnds g.p).2.InRange := by
      rcases hends with he | he
      · rw [he]
        exact ⟨ha, hb⟩
      · rw [he]
        exact ⟨hb, ha⟩
    have hvalid : g.toG1.valid window = true :=
      G1.line_valid hop' hcolor hrange.1 hrange.2 window
    have hsetup : g.plot.setup g.p = ((g.plot.corners g.p).ordered.lineStart, true) := if_pos hop'
    have hvisits : Plot.Visits g.p (g.plot.corners g.p).ordered.lineStart qs :=
      hv.either hop hop' hends
    obtain ⟨d, pixel, reads, hscan⟩ := hvisits.traces g.pixel 0 0 ⟨fb, []⟩
    have hjob := (command_scans ram window g fb).trans ((setup_scans hvalid hsetup fb).trans hscan)
    obtain ⟨n, hn⟩ := Screen.run_scans hhold hjob (by simp [Gpu.working]) rfl
    refine ⟨n, fun m hm => ?_⟩
    obtain ⟨hend, hvisited⟩ := hn m hm
    exact ⟨congrArg (·.gpu.status) hend, hvisited⟩
  · obtain ⟨qs', hv', _, hdraw'⟩ := Plot.line_visits hop (Plot.between b a)
    rw [hv'.unique (hv.either hop hop (.inr rfl))] at hdraw'
    exact hdraw' color c

def risingLine : Gpu :=
  { Gpu.reset with
    p := fun
      | .op => gpuLine
      | .color => 0x1c
      | .y0 => 3
      | .x1 => 5
      | _ => 0 }

theorem gpu_line_visits_rising :
    lineEnds risingLine.p = (⟨0, 3⟩, ⟨5, 0⟩) ∧
      risingLine.store 0 gpuStart = some risingLine.command ∧
      ∃ qs, (Line ⟨0, 3⟩ ⟨5, 0⟩ qs ∨ Line ⟨5, 0⟩ ⟨0, 3⟩ qs) ∧ ∃ n, ∀ m, n ≤ m →
        Screen.visited (fun _ => 0) ⟨0, 0⟩ (fun _ => false) m
          ⟨risingLine.command, fun _ => 0⟩ = qs := by
  refine ⟨by decide, rfl, ?_⟩
  obtain ⟨qs, hline, hvisits, _⟩ := gpu_line_visits ⟨0, 3⟩ ⟨5, 0⟩ (by decide) (by decide)
  obtain ⟨n, hn⟩ := hvisits (fun _ => 0) ⟨0, 0⟩ (fun _ => false) risingLine risingLine.command
    (fun _ => 0) (fun _ => ⟨0, rfl⟩) rfl (by decide) (.inl (by decide)) rfl
  exact ⟨qs, hline, n, fun m hm => (hn m hm).2⟩

end TinyProcessors
