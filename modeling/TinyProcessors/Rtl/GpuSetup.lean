import TinyProcessors.Gpu.Agrees
import TinyProcessors.Gpu.Bounds
import TinyProcessors.Lib.Signed
import TinyProcessors.Rtl.Gpu

namespace TinyProcessors

section Ranges

variable {a b : Word} {m n k : Int}

theorem Reg.min2 (ha : Reg a m k) (hb : Reg b n k) : Reg (min2 a b) (min m n) k := by
  have hmin : min m n = if m < n then m else n := by
    split_ifs
    · omega
    · omega
  rw [hmin]
  exact .ite (by rw [ha.slt hb, decide_eq_true_eq]) ha hb

theorem Reg.max2 (ha : Reg a m k) (hb : Reg b n k) : Reg (max2 a b) (max m n) k := by
  have hmax : max m n = if n < m then m else n := by
    split_ifs
    · omega
    · omega
  rw [hmax]
  exact .ite (by rw [hb.slt ha, decide_eq_true_eq]) ha hb

theorem Reg.coord (h : coord a = true) : Reg a a.toInt 1024 := by
  have := coord_bounds h
  exact ⟨rfl, abs_le.mpr (by omega)⟩

theorem Reg.small (h : a ≤ 2048) : Reg a a.toInt 2048 := by
  have hle : a.toNat ≤ 2048 := h
  have := small_toInt h
  exact ⟨rfl, abs_le.mpr (by omega)⟩

end Ranges

theorem coordRtl_eq (w : Word) : coordRtl w = coord w := rfl

section Setup

variable {p : Gp → Word} {d : Plot}

theorem Plot.setup_line (hop : p .op = gpuLine) :
    d.setup p = ((d.corners p).ordered.lineStart, true) := by
  unfold Plot.setup
  exact if_pos hop

def Plot.enter (d : Plot) : Plot × Bool :=
  if d.empty then (d, false) else ({ d with cursor := ⟨d.firstX, d.firstY⟩ }, true)

def Plot.triangleOf (p : Gp → Word) (d : Plot) : Plot := { d.corners p with step := 1 }

theorem Plot.setup_fill (hop : p .op = gpuFill) :
    d.setup p = Plot.enter { (d.corners p).clipRect p with step := 1 } := by
  unfold Plot.setup
  dsimp only
  rw [hop]
  rfl

theorem Plot.setup_blit (hop : p .op = gpuBlit) : d.setup p = (d.blitBox p).enter := by
  unfold Plot.setup
  dsimp only
  rw [hop]
  rfl

theorem Plot.setup_triangle (hop : p .op = gpuTriangle) : d.setup p =
    if (d.triangleOf p).area = 0 then (d.triangleOf p, false)
    else (d.triangleOf p).oriented.clipTriangle.enter := by
  unfold Plot.setup
  dsimp only
  rw [hop]
  simp only [true_and]
  rfl

end Setup

section Good

variable {r : GpuRtl} {g : G1} {i : GpuPort} {window : Window}

theorem endAddress_eq (hp : ∀ k, r.param k = g.p k) (hsh : 0 < g.p .sh) :
    r.endAddress.toNat = g.sourceEnd := by
  have hsh' : 0 < (g.p .sh).toNat := hsh
  obtain ⟨rows, hrows⟩ : ∃ rows, (g.p .sh).toNat = rows + 1 := ⟨(g.p .sh).toNat - 1, by omega⟩
  have hlast : rows < 2 ^ 32 - 1 := by
    have := (g.p .sh).isLt
    omega
  have hstride := (g.p .stride).isLt
  have hsw := (g.p .sw).isLt
  have hsrc := (g.p .src).isLt
  have hsh64 : (g.p .sh).setWidth 64 = BitVec.ofNat 64 rows + 1 := by
    apply BitVec.eq_of_toNat_eq
    rw [BitVec.toNat_setWidth, hrows, BitVec.toNat_add, BitVec.toNat_ofNat]
    change _ = (_ + 1) % _
    omega
  have hextent : r.endAddress = (g.p .src).setWidth 64 +
      (BitVec.ofNat 64 rows * (g.p .stride).setWidth 64 + (g.p .sw).setWidth 64) := by
    unfold GpuRtl.endAddress GpuRtl.extent
    rw [hp, hp, hp, hp, hsh64]
    ring
  have hwide (a : Word) : (a.setWidth 64).toNat = a.toNat := by
    rw [BitVec.toNat_setWidth]
    have := a.isLt
    omega
  have hprod : rows * (g.p .stride).toNat ≤ (2 ^ 32 - 1) * (2 ^ 32 - 1) :=
    Nat.mul_le_mul (by omega) (by omega)
  have hrows64 : (BitVec.ofNat 64 rows).toNat = rows := by
    rw [BitVec.toNat_ofNat]
    omega
  unfold G1.sourceEnd
  rw [hextent, BitVec.toNat_add, BitVec.toNat_add, BitVec.toNat_mul, hwide, hwide, hwide, hrows64,
    hrows, Nat.add_sub_cancel]
  generalize rows * (g.p .stride).toNat = length at *
  omega

theorem ramSource_eq (hp : ∀ k, r.param k = g.p k) (hw : i.windowStart = window.start)
    (hw' : i.windowEnd = window.stop) (hsh : 0 < g.p .sh) :
    r.ramSource i = (decide (0x80000000 ≤ g.p .src) && decide (g.sourceEnd ≤ 0x81000000) &&
      decide (window.start ≤ g.p .src) && decide (g.sourceEnd ≤ window.stop.toNat)) := by
  have hend := endAddress_eq hp hsh
  have hram : r.endAddress ≤ (0x80000000 + 4194304 * 4 : BitVec 64) ↔
      g.sourceEnd ≤ 0x81000000 := by
    rw [BitVec.le_def, hend]
    rfl
  have hstop : r.endAddress ≤ window.stop.setWidth 64 ↔ g.sourceEnd ≤ window.stop.toNat := by
    rw [BitVec.le_def, hend, BitVec.toNat_setWidth, Nat.mod_eq_of_lt]
    have := window.stop.isLt
    omega
  unfold GpuRtl.ramSource
  rw [hp, hw, hw']
  simp only [hram, hstop]

theorem op_out {op : Word} (h : ¬(op = gpuFill ∨ op = gpuBlit ∨ op = gpuLine ∨ op = gpuTriangle)) :
    (decide (gpuFill ≤ op) && decide (op ≤ gpuTriangle)) = false := by
  rw [Bool.and_eq_false_iff, decide_eq_false_iff_not, decide_eq_false_iff_not]
  by_contra hin
  rw [not_or, not_not, not_not] at hin
  obtain ⟨hlo, hhi⟩ := hin
  have hlo : 1 ≤ op.toNat := hlo
  have hhi : op.toNat ≤ 4 := hhi
  have hcases : op.toNat = 1 ∨ op.toNat = 2 ∨ op.toNat = 3 ∨ op.toNat = 4 := by omega
  refine h (hcases.imp BitVec.eq_of_toNat_eq (Or.imp BitVec.eq_of_toNat_eq
    (Or.imp BitVec.eq_of_toNat_eq BitVec.eq_of_toNat_eq)))

theorem good_eq (hp : ∀ k, r.param k = g.p k) (hw : i.windowStart = window.start)
    (hw' : i.windowEnd = window.stop) : r.good i = g.valid window := by
  by_cases hop : g.p .op = gpuFill ∨ g.p .op = gpuBlit ∨ g.p .op = gpuLine ∨
    g.p .op = gpuTriangle
  · rcases hop with hop | hop | hop | hop
    · simp [GpuRtl.good, G1.valid, hp, coordRtl_eq, hop, Bool.and_assoc]
    · by_cases hsh : 0 < g.p .sh
      · have hsource := ramSource_eq hp hw hw' hsh
        by_cases hfb : g.p .src = fbAddress
        · have hlow : ¬(0x80000000 : Word) ≤ fbAddress := by decide
          rw [hfb, decide_eq_false hlow] at hsource
          simp only [Bool.false_and] at hsource
          simp [GpuRtl.good, G1.valid, GpuRtl.fbSource, hp, coordRtl_eq, hop, hsource, hfb,
            Bool.and_assoc]
        · have hfb' : ¬g.p .src = 0x12000000#32 := hfb
          simp [GpuRtl.good, G1.valid, GpuRtl.fbSource, hp, coordRtl_eq, hop, hsource, hfb',
            Bool.and_assoc]
      · have hsh' : ¬0#32 < g.p .sh := hsh
        simp [GpuRtl.good, G1.valid, hp, hop, hsh']
    · simp [GpuRtl.good, G1.valid, hp, coordRtl_eq, hop, Bool.and_assoc]
    · simp [GpuRtl.good, G1.valid, hp, coordRtl_eq, hop, Bool.and_assoc]
  · have hout := op_out hop
    have hgood : r.good i = false := by
      obtain ⟨h1, h2, h3, h4⟩ : g.p .op ≠ gpuFill ∧ g.p .op ≠ gpuBlit ∧ g.p .op ≠ gpuLine ∧
          g.p .op ≠ gpuTriangle := by tauto
      unfold GpuRtl.good
      simp only [hp, h1, h2, h3, h4, or_self, if_false, hout, Bool.false_and]
    rw [hgood]
    unfold G1.valid
    simp only [hout, Bool.false_and]

end Good

structure ScanRegs.Holds (s : ScanRegs) (p : Gp → Word) (d : Plot) : Prop where
  x : s.x.toInt = d.cursor.x
  y : s.y.toInt = d.cursor.y
  ax : s.ax.toInt = d.a.x
  ay : s.ay.toInt = d.a.y
  bx : s.bx.toInt = d.b.x
  byy : s.byy.toInt = d.b.y
  cx : s.cx.toInt = d.c.x
  cy : s.cy.toInt = d.c.y
  box : p .op ≠ gpuLine → (s.lo.toInt = d.lo ∧ s.top.toInt = d.top ∧ s.hi.toInt = d.hi ∧
    s.bottom.toInt = d.bottom) ∧ s.step.toInt = d.step
  line : p .op = gpuLine → s.dx.toInt = d.dx ∧ s.dy.toInt = d.dy ∧ s.sy.toInt = d.sy ∧
    s.err.toInt = d.err

def Point.Small (q : Point) : Prop := |q.x| ≤ 1024 ∧ |q.y| ≤ 1024

structure Plot.Tame (p : Gp → Word) (d : Plot) : Prop where
  a : d.a.Small
  b : p .op = gpuLine ∨ p .op = gpuTriangle → d.b.Small
  c : p .op = gpuTriangle → d.c.Small
  box : p .op ≠ gpuLine → ((0 ≤ d.lo ∧ d.hi ≤ 320) ∧ 0 ≤ d.top ∧ d.bottom ≤ 240) ∧
    (d.step = 1 ∨ d.step = -1) ∧ d.cursor ∈ d.box
  line : p .op = gpuLine → (d.dx ≤ 2048 ∧ d.dy ≤ 2048) ∧ ∃ i j, d.OnLine i j

section Setup

variable {r : GpuRtl} {g : G1} {i : GpuPort} {window : Window}

theorem G1.valid_corner (h : g.valid window = true) :
    Reg (g.p .x0) (Gp.x0.int g.p) 1024 ∧ Reg (g.p .y0) (Gp.y0.int g.p) 1024 := by
  unfold G1.valid at h
  simp only [Bool.and_eq_true] at h
  obtain ⟨⟨⟨⟨⟨⟨_, hx⟩, hy⟩, _⟩, _⟩, _⟩, _⟩ := h
  exact ⟨.coord hx, .coord hy⟩

theorem G1.valid_end (h : g.valid window = true)
    (hop : g.p .op = gpuLine ∨ g.p .op = gpuTriangle) :
    Reg (g.p .x1) (Gp.x1.int g.p) 1024 ∧ Reg (g.p .y1) (Gp.y1.int g.p) 1024 := by
  unfold G1.valid at h
  simp only [Bool.and_eq_true, Bool.or_eq_true] at h
  obtain ⟨⟨⟨⟨_, hend⟩, _⟩, _⟩, _⟩ := h
  have hnot : ¬decide (g.p .op < 3) = true := by
    rcases hop with hop | hop
    · rw [hop]
      decide
    · rw [hop]
      decide
  obtain ⟨hx, hy⟩ := hend.resolve_left hnot
  exact ⟨.coord hx, .coord hy⟩

theorem G1.valid_third (h : g.valid window = true) (hop : g.p .op = gpuTriangle) :
    Reg (g.p .x2) (Gp.x2.int g.p) 1024 ∧ Reg (g.p .y2) (Gp.y2.int g.p) 1024 := by
  unfold G1.valid at h
  simp only [Bool.and_eq_true, Bool.or_eq_true] at h
  obtain ⟨⟨⟨_, hthird⟩, _⟩, _⟩ := h
  obtain ⟨hx, hy⟩ := hthird.resolve_left (by rw [hop]; decide)
  exact ⟨.coord hx, .coord hy⟩

theorem G1.valid_size (h : g.valid window = true)
    (hop : g.p .op = gpuFill ∨ g.p .op = gpuBlit) :
    Reg (g.p .w) (Gp.w.int g.p) 2048 ∧ Reg (g.p .h) (Gp.h.int g.p) 2048 := by
  unfold G1.valid at h
  simp only [Bool.and_eq_true, Bool.or_eq_true] at h
  obtain ⟨⟨_, hsize⟩, _⟩ := h
  have hnot : ¬decide (2 < g.p .op) = true := by
    rcases hop with hop | hop
    · rw [hop]
      decide
    · rw [hop]
      decide
  obtain ⟨hw, hh⟩ := hsize.resolve_left hnot
  exact ⟨.small (of_decide_eq_true hw), .small (of_decide_eq_true hh)⟩

theorem G1.valid_source (h : g.valid window = true) (hop : g.p .op = gpuBlit) :
    (Reg (g.p .sx) (Gp.sx.int g.p) 1024 ∧ Reg (g.p .sy) (Gp.sy.int g.p) 1024) ∧
      Reg (g.p .sw) (Gp.sw.int g.p) 2048 ∧ Reg (g.p .sh) (Gp.sh.int g.p) 2048 := by
  unfold G1.valid at h
  simp only [Bool.and_eq_true, Bool.or_eq_true] at h
  obtain ⟨_, hblit⟩ := h
  obtain ⟨⟨⟨⟨⟨⟨⟨⟨hx, hy⟩, _⟩, hsw⟩, _⟩, hsh⟩, _⟩, _⟩, _⟩ := hblit.resolve_left (by rw [hop]; decide)
  exact ⟨⟨.coord hx, .coord hy⟩, .small (of_decide_eq_true hsw), .small (of_decide_eq_true hsh)⟩

structure GpuNext.Boxes (n : GpuNext) (d : Plot) : Prop where
  na : n.na.toInt = d.a.x
  nb : n.nb.toInt = d.a.y
  nc : n.nc.toInt = d.b.x
  nd : n.nd.toInt = d.b.y
  ne : n.ne.toInt = d.c.x
  nf : n.nf.toInt = d.c.y
  nlo : Reg n.nlo d.lo 8192
  ntop : Reg n.ntop d.top 8192
  nhi : Reg n.nhi d.hi 8192
  nbottom : Reg n.nbottom d.bottom 8192
  nstep : Reg n.nstep d.step 1

theorem reg_zero : Reg (0 : Word) 0 0 := ⟨rfl, by norm_num⟩

theorem reg_one : Reg (1 : Word) 1 1 := ⟨rfl, by norm_num⟩

section Box

variable {n : GpuNext} {d : Plot}

theorem GpuNext.Boxes.empty (h : n.Boxes d) :
    (n.nhi.sle n.nlo || n.nbottom.sle n.ntop) = d.empty := by
  rw [h.nhi.sle h.nlo, h.nbottom.sle h.ntop]
  rfl

theorem GpuNext.Boxes.latched (h : n.Boxes d) (hop : r.param .op ≠ gpuLine)
    (hop' : p .op ≠ gpuLine) :
    (r.latched n).Holds p { d with cursor := ⟨d.firstX, d.firstY⟩ } := by
  have hup : (0 : Word).slt n.nstep = true ↔ 0 < d.step := by
    rw [reg_zero.slt h.nstep, decide_eq_true_eq]
  have hx : Reg (if (0 : Word).slt n.nstep then n.nlo else n.nhi - 1) d.firstX 8193 :=
    .ite hup (h.nlo.mono (by norm_num)) (h.nhi.sub reg_one (by norm_num))
  have hy : Reg (if (0 : Word).slt n.nstep then n.ntop else n.nbottom - 1) d.firstY 8193 :=
    .ite hup (h.ntop.mono (by norm_num)) (h.nbottom.sub reg_one (by norm_num))
  unfold GpuRtl.latched
  dsimp only
  rw [if_neg hop]
  exact ⟨hx.value, hy.value, h.na, h.nb, h.nc, h.nd, h.ne, h.nf,
    fun _ => ⟨⟨h.nlo.value, h.ntop.value, h.nhi.value, h.nbottom.value⟩, h.nstep.value⟩,
    fun hline => absurd hline hop'⟩

theorem Plot.first_mem (h : d.empty = false) (hs : d.step = 1 ∨ d.step = -1) :
    (⟨d.firstX, d.firstY⟩ : Point) ∈ d.box := by
  unfold Plot.empty at h
  simp only [Bool.or_eq_false_iff, decide_eq_false_iff_not, not_le] at h
  rw [Plot.mem_box]
  unfold Plot.firstX Plot.firstY
  dsimp only
  rcases hs with hs | hs
  · rw [if_pos (by omega), if_pos (by omega)]
    omega
  · rw [if_neg (by omega), if_neg (by omega)]
    omega

end Box

def SetupFollows (r : GpuRtl) (i : GpuPort) (p : Gp → Word) (s : Plot × Bool) : Prop :=
  (r.next i).empty = !s.2 ∧
    (s.2 = true → (r.latched (r.next i)).Holds p s.1 ∧ s.1.Tame p)

theorem GpuNext.Boxes.follows {d : Plot} (h : (r.next i).Boxes d)
    (hempty : (r.next i).empty =
      ((r.next i).nhi.sle (r.next i).nlo || (r.next i).nbottom.sle (r.next i).ntop))
    (hop : r.param .op ≠ gpuLine) (hop' : p .op ≠ gpuLine) (ha : d.a.Small)
    (hb : p .op = gpuTriangle → d.b.Small ∧ d.c.Small)
    (hbox : (0 ≤ d.lo ∧ d.hi ≤ 320) ∧ 0 ≤ d.top ∧ d.bottom ≤ 240)
    (hstep : d.step = 1 ∨ d.step = -1) : SetupFollows r i p d.enter := by
  unfold Plot.enter
  have he := hempty.trans h.empty
  cases hd : d.empty with
  | true =>
    rw [hd] at he
    exact ⟨he, (by rintro ⟨⟩)⟩
  | false =>
    rw [hd] at he
    refine ⟨he, fun _ => ⟨h.latched hop hop', ha, ?_, fun ht => (hb ht).2, fun _ => ?_, ?_⟩⟩
    · rintro (hl | ht)
      · exact absurd hl hop'
      · exact (hb ht).1
    · exact ⟨hbox, hstep, Plot.first_mem hd hstep⟩
    · exact fun hl => absurd hl hop'

theorem next_fill (hop : r.param .op = gpuFill) : r.next i =
    let nlo := max2 0 (r.param .x0)
    let ntop := max2 0 (r.param .y0)
    let nhi := min2 320 (r.param .x0 + r.param .w)
    let nbottom := min2 240 (r.param .y0 + r.param .h)
    ⟨r.good i, nhi.sle nlo || nbottom.sle ntop, r.param .x0, r.param .y0, r.param .x1, r.param .y1,
      r.param .x2, r.param .y2, nlo, ntop, nhi, nbottom, 1⟩ := by
  unfold GpuRtl.next
  dsimp only
  rw [hop]
  rfl

theorem fill_follows (hp : ∀ k, r.param k = g.p k) (hv : g.valid window = true)
    (hop : g.p .op = gpuFill) (d : Plot) : SetupFollows r i g.p (d.setup g.p) := by
  obtain ⟨hx, hy⟩ := g.valid_corner hv
  obtain ⟨hw, hh⟩ := g.valid_size hv (.inl hop)
  have hnext := next_fill (i := i) ((hp .op).trans hop)
  simp only [hp] at hnext
  have h320 : Reg (320 : Word) 320 8192 := ⟨rfl, by norm_num⟩
  have h240 : Reg (240 : Word) 240 8192 := ⟨rfl, by norm_num⟩
  rw [Plot.setup_fill hop]
  refine GpuNext.Boxes.follows ?_ ?_ ?_ ?_ ⟨hx.bound, hy.bound⟩ ?_ ?_ (.inl rfl)
  · rw [hnext]
    exact ⟨rfl, rfl, rfl, rfl, rfl, rfl,
      (reg_zero.mono (by norm_num)).max2 (hx.mono (by norm_num)),
      (reg_zero.mono (by norm_num)).max2 (hy.mono (by norm_num)),
      h320.min2 ((hx.add hw (by norm_num)).mono (by norm_num)),
      h240.min2 ((hy.add hh (by norm_num)).mono (by norm_num)), reg_one⟩
  · rw [hnext]
  · rw [hp, hop]
    decide
  · rw [hop]
    decide
  · rw [hop]
    intro h
    exact absurd h (by decide)
  · exact ⟨⟨le_max_left _ _, min_le_left _ _⟩, le_max_left _ _, min_le_left _ _⟩

theorem next_blit (hop : r.param .op = gpuBlit) : r.next i =
    let nlo := max2 (max2 0 (r.param .x0)) (r.param .x0 - r.param .sx)
    let ntop := max2 (max2 0 (r.param .y0)) (r.param .y0 - r.param .sy)
    let nhi := min2 (min2 320 (r.param .x0 + r.param .w)) (r.param .x0 + r.param .sw - r.param .sx)
    let nbottom :=
      min2 (min2 240 (r.param .y0 + r.param .h)) (r.param .y0 + r.param .sh - r.param .sy)
    ⟨r.good i, nhi.sle nlo || nbottom.sle ntop, r.param .x0, r.param .y0, r.param .x1, r.param .y1,
      r.param .x2, r.param .y2, nlo, ntop, nhi, nbottom,
      if r.fbSource ∧ r.destAfterSource then -1 else 1⟩ := by
  unfold GpuRtl.next
  dsimp only
  rw [hop]
  rfl

theorem blit_follows (hp : ∀ k, r.param k = g.p k) (hv : g.valid window = true)
    (hop : g.p .op = gpuBlit) (d : Plot) : SetupFollows r i g.p (d.setup g.p) := by
  obtain ⟨hx, hy⟩ := g.valid_corner hv
  obtain ⟨hw, hh⟩ := g.valid_size hv (.inr hop)
  obtain ⟨⟨hsx, hsy⟩, hsw, hsh⟩ := g.valid_source hv hop
  have hnext := next_blit (i := i) ((hp .op).trans hop)
  simp only [hp] at hnext
  have h320 : Reg (320 : Word) 320 320 := ⟨rfl, by norm_num⟩
  have h240 : Reg (240 : Word) 240 8192 := ⟨rfl, by norm_num⟩
  have hlo : Reg (max2 0 (g.p .x0)) (max 0 (Gp.x0.int g.p)) 8192 :=
    (reg_zero.mono (by norm_num)).max2 (hx.mono (by norm_num))
  have htop : Reg (max2 0 (g.p .y0)) (max 0 (Gp.y0.int g.p)) 8192 :=
    (reg_zero.mono (by norm_num)).max2 (hy.mono (by norm_num))
  have hhi : Reg (min2 320 (g.p .x0 + g.p .w)) (min 320 (Gp.x0.int g.p + Gp.w.int g.p)) 8192 :=
    (h320.mono (by norm_num)).min2 ((hx.add hw (by norm_num)).mono (by norm_num))
  have hbottom :
      Reg (min2 240 (g.p .y0 + g.p .h)) (min 240 (Gp.y0.int g.p + Gp.h.int g.p)) 8192 :=
    h240.min2 ((hy.add hh (by norm_num)).mono (by norm_num))
  have hplace {a b : Gp} (ha : Reg (g.p a) (a.int g.p) 1024) (hb : Reg (g.p b) (b.int g.p) 1024) :
      Reg (g.p b * 320 + g.p a) (b.int g.p * 320 + a.int g.p) 328704 :=
    ((hb.mul h320 (by norm_num)).add ha (by norm_num)).mono (by norm_num)
  have hback : (r.fbSource = true ∧ r.destAfterSource = true) ↔ g.p .src = fbAddress ∧
      Gp.sy.int g.p * 320 + Gp.sx.int g.p < Gp.y0.int g.p * 320 + Gp.x0.int g.p := by
    unfold GpuRtl.fbSource GpuRtl.destAfterSource
    rw [hp, hp, hp, hp, hp, (hplace hsx hsy).slt (hplace hx hy), decide_eq_true_eq,
      decide_eq_true_eq]
  have hstep : Reg (if r.fbSource = true ∧ r.destAfterSource = true then (-1 : Word) else 1)
      (if g.p .src = fbAddress ∧ Gp.sy.int g.p * 320 + Gp.sx.int g.p <
        Gp.y0.int g.p * 320 + Gp.x0.int g.p then -1 else 1) 1 :=
    .ite hback ⟨rfl, by norm_num⟩ reg_one
  rw [Plot.setup_blit hop]
  refine GpuNext.Boxes.follows ?_ ?_ ?_ ?_ ⟨hx.bound, hy.bound⟩ ?_ ?_ ?_
  · rw [hnext]
    exact ⟨rfl, rfl, rfl, rfl, rfl, rfl,
      hlo.max2 ((hx.sub hsx (by norm_num)).mono (by norm_num)),
      htop.max2 ((hy.sub hsy (by norm_num)).mono (by norm_num)),
      hhi.min2 (((hx.add hsw (by norm_num)).sub hsx (by norm_num)).mono (by norm_num)),
      hbottom.min2 (((hy.add hsh (by norm_num)).sub hsy (by norm_num)).mono (by norm_num)), hstep⟩
  · rw [hnext]
  · rw [hp, hop]
    decide
  · rw [hop]
    decide
  · rw [hop]
    intro h
    exact absurd h (by decide)
  · exact ⟨⟨(le_max_left _ _).trans (le_max_left _ _), (min_le_left _ _).trans (min_le_left _ _)⟩,
      (le_max_left _ _).trans (le_max_left _ _), (min_le_left _ _).trans (min_le_left _ _)⟩
  · change (if _ then -1 else 1 : Int) = 1 ∨ (if _ then -1 else 1 : Int) = -1
    split_ifs
    · exact .inr rfl
    · exact .inl rfl

def areaRtl (r : GpuRtl) : Word :=
  (r.param .x1 - r.param .x0) * (r.param .y2 - r.param .y0) -
    (r.param .y1 - r.param .y0) * (r.param .x2 - r.param .x0)

theorem next_triangle (hop : r.param .op = gpuTriangle) : r.next i =
    let turn := (areaRtl r).slt 0
    let nc := if turn then r.param .x2 else r.param .x1
    let nd := if turn then r.param .y2 else r.param .y1
    let ne := if turn then r.param .x1 else r.param .x2
    let nf := if turn then r.param .y1 else r.param .y2
    let nlo := max2 0 (min2 (r.param .x0) (min2 nc ne))
    let ntop := max2 0 (min2 (r.param .y0) (min2 nd nf))
    let nhi := min2 320 (max2 (r.param .x0) (max2 nc ne))
    let nbottom := min2 240 (max2 (r.param .y0) (max2 nd nf))
    ⟨r.good i, areaRtl r = 0 || (nhi.sle nlo || nbottom.sle ntop), r.param .x0, r.param .y0, nc, nd,
      ne, nf, nlo, ntop, nhi, nbottom, 1⟩ := by
  unfold GpuRtl.next
  dsimp only
  rw [hop]
  have hline : gpuTriangle ≠ gpuLine := by decide
  have hblit : gpuTriangle ≠ gpuBlit := by decide
  simp only [hline, hblit, false_and, true_and, if_false, if_true, ne_eq, not_false_eq_true,
    decide_true, Bool.true_and]
  by_cases hturn : (areaRtl r).slt 0 = true
  · have hturn' : ((r.param .x1 - r.param .x0) * (r.param .y2 - r.param .y0) -
      (r.param .y1 - r.param .y0) * (r.param .x2 - r.param .x0)).slt 0 = true := hturn
    simp only [if_pos hturn, if_pos hturn']
    rfl
  · have hturn' : ¬((r.param .x1 - r.param .x0) * (r.param .y2 - r.param .y0) -
      (r.param .y1 - r.param .y0) * (r.param .x2 - r.param .x0)).slt 0 = true := hturn
    simp only [if_neg hturn, if_neg hturn']
    rfl

theorem lowest_reg {a b c : Word} {m n l : Int} (ha : Reg a m 1024) (hb : Reg b n 1024)
    (hc : Reg c l 1024) : Reg (max2 0 (min2 a (min2 b c))) (max 0 (min m (min n l))) 8192 :=
  ((reg_zero.mono (by norm_num)).max2 (ha.min2 (hb.min2 hc))).mono (by norm_num)

theorem highest_reg {a b c s : Word} {m n l z : Int} (hs : Reg s z 1024) (ha : Reg a m 1024)
    (hb : Reg b n 1024) (hc : Reg c l 1024) :
    Reg (min2 s (max2 a (max2 b c))) (min z (max m (max n l))) 8192 :=
  (hs.min2 (ha.max2 (hb.max2 hc))).mono (by norm_num)

theorem turned_corners {t : Plot} {turn : Bool} {bx byy cx cy : Word}
    (hturn : turn = true ↔ t.area < 0) (hbx : Reg bx t.b.x 1024) (hby : Reg byy t.b.y 1024)
    (hcx : Reg cx t.c.x 1024) (hcy : Reg cy t.c.y 1024) :
    (Reg (if turn then cx else bx) t.oriented.b.x 1024 ∧
      Reg (if turn then cy else byy) t.oriented.b.y 1024) ∧
      Reg (if turn then bx else cx) t.oriented.c.x 1024 ∧
      Reg (if turn then byy else cy) t.oriented.c.y 1024 := by
  unfold Plot.oriented
  by_cases hneg : t.area < 0
  · have ht := hturn.mpr hneg
    rw [if_pos ht, if_pos ht, if_pos ht, if_pos ht, if_pos hneg]
    exact ⟨⟨hcx, hcy⟩, hbx, hby⟩
  · have ht := mt hturn.mp hneg
    rw [if_neg ht, if_neg ht, if_neg ht, if_neg ht, if_neg hneg]
    exact ⟨⟨hbx, hby⟩, hcx, hcy⟩

theorem Plot.oriented_frame (t : Plot) : t.oriented.a = t.a ∧ t.oriented.step = t.step := by
  unfold Plot.oriented
  split
  · exact ⟨rfl, rfl⟩
  · exact ⟨rfl, rfl⟩

theorem triangle_follows (hp : ∀ k, r.param k = g.p k) (hv : g.valid window = true)
    (hop : g.p .op = gpuTriangle) (d : Plot) : SetupFollows r i g.p (d.setup g.p) := by
  obtain ⟨hx₀, hy₀⟩ := g.valid_corner hv
  obtain ⟨hx₁, hy₁⟩ := g.valid_end hv (.inr hop)
  obtain ⟨hx₂, hy₂⟩ := g.valid_third hv hop
  have hnext := next_triangle (i := i) ((hp .op).trans hop)
  have harea : Reg (areaRtl r) (d.triangleOf g.p).area 8388608 := by
    unfold areaRtl
    simp only [hp]
    exact (((hx₁.sub hx₀ (by norm_num)).mul (hy₂.sub hy₀ (by norm_num)) (by norm_num)).sub
      ((hy₁.sub hy₀ (by norm_num)).mul (hx₂.sub hx₀ (by norm_num)) (by norm_num))
      (by norm_num)).mono (by norm_num)
  have hzero : areaRtl r = 0 ↔ (d.triangleOf g.p).area = 0 := harea.eq_iff reg_zero
  have hturn : (areaRtl r).slt 0 = true ↔ (d.triangleOf g.p).area < 0 := by
    rw [harea.slt reg_zero, decide_eq_true_eq]
  rw [Plot.setup_triangle hop]
  by_cases hz : (d.triangleOf g.p).area = 0
  · rw [if_pos hz]
    refine ⟨?_, (by rintro ⟨⟩)⟩
    rw [hnext]
    simp [hzero.mpr hz]
  · rw [if_neg hz]
    have hne : ¬areaRtl r = 0 := mt hzero.mp hz
    simp only [hp, hne, decide_false, Bool.false_or] at hnext
    have h320 : Reg (320 : Word) 320 1024 := ⟨rfl, by norm_num⟩
    have h240 : Reg (240 : Word) 240 1024 := ⟨rfl, by norm_num⟩
    have hline : gpuTriangle ≠ gpuLine := by decide
    obtain ⟨⟨hbx, hby⟩, hcx, hcy⟩ := turned_corners hturn hx₁ hy₁ hx₂ hy₂
    obtain ⟨ha, hstep⟩ := (d.triangleOf g.p).oriented_frame
    generalize (d.triangleOf g.p).oriented = t at *
    have hax : Reg (g.p .x0) t.a.x 1024 := ha ▸ hx₀
    have hay : Reg (g.p .y0) t.a.y 1024 := ha ▸ hy₀
    have hboxes : (r.next i).Boxes t.clipTriangle := by
      have hlo := lowest_reg hax hbx hcx
      have htop := lowest_reg hay hby hcy
      have hhi := highest_reg h320 hax hbx hcx
      have hbottom := highest_reg h240 hay hby hcy
      have hone : Reg (1 : Word) t.step 1 := by
        rw [hstep]
        exact reg_one
      rw [hnext]
      refine ⟨hax.value, hay.value, hbx.value, hby.value, hcx.value, hcy.value, ?_, ?_, ?_, ?_,
        hone⟩
      · dsimp only
        exact hlo
      · dsimp only
        exact htop
      · dsimp only
        exact hhi
      · dsimp only
        exact hbottom
    refine hboxes.follows (by rw [hnext]) ?_ ?_ ⟨hax.bound, hay.bound⟩ ?_ ?_ (.inl hstep)
    · rw [hp, hop]
      exact hline
    · rw [hop]
      exact hline
    · exact fun _ => ⟨⟨hbx.bound, hby.bound⟩, hcx.bound, hcy.bound⟩
    · exact ⟨⟨le_max_left _ _, min_le_left _ _⟩, le_max_left _ _, min_le_left _ _⟩

theorem next_line (hop : r.param .op = gpuLine) :
    let swap := (r.param .x1).slt (r.param .x0) = true ∨
      (r.param .x0 = r.param .x1 ∧ (r.param .y1).slt (r.param .y0) = true)
    (r.next i).empty = false ∧
      (r.next i).na = (if swap then r.param .x1 else r.param .x0) ∧
      (r.next i).nb = (if swap then r.param .y1 else r.param .y0) ∧
      (r.next i).nc = (if swap then r.param .x0 else r.param .x1) ∧
      (r.next i).nd = (if swap then r.param .y0 else r.param .y1) ∧
      (r.next i).ne = r.param .x2 ∧ (r.next i).nf = r.param .y2 := by
  intro swap
  unfold GpuRtl.next
  dsimp only
  rw [hop]
  by_cases hs : swap
  · have hs' : gpuLine = gpuLine ∧ swap := ⟨rfl, hs⟩
    rw [if_pos hs', if_pos hs, if_pos hs, if_pos hs, if_pos hs]
    exact ⟨rfl, rfl, rfl, rfl, rfl, rfl, rfl⟩
  · have hs' : ¬(gpuLine = gpuLine ∧ swap) := fun h => hs h.2
    rw [if_neg hs', if_neg hs, if_neg hs, if_neg hs, if_neg hs]
    exact ⟨rfl, rfl, rfl, rfl, rfl, rfl, rfl⟩

theorem line_follows (hp : ∀ k, r.param k = g.p k) (hv : g.valid window = true)
    (hop : g.p .op = gpuLine) (d : Plot) : SetupFollows r i g.p (d.setup g.p) := by
  obtain ⟨hx₀, hy₀⟩ := g.valid_corner hv
  obtain ⟨hx₁, hy₁⟩ := g.valid_end hv (.inl hop)
  have hop' : r.param .op = gpuLine := (hp .op).trans hop
  obtain ⟨hempty, hna, hnb, hnc, hnd, hne, hnf⟩ := next_line (i := i) hop'
  simp only [hp] at hna hnb hnc hnd hne hnf
  have hswap : ((g.p .x1).slt (g.p .x0) = true ∨
      (g.p .x0 = g.p .x1 ∧ (g.p .y1).slt (g.p .y0) = true)) ↔
      (d.corners g.p).b.x < (d.corners g.p).a.x ∨
        ((d.corners g.p).a.x = (d.corners g.p).b.x ∧
          (d.corners g.p).b.y < (d.corners g.p).a.y) := by
    rw [hx₁.slt hx₀, hy₁.slt hy₀, hx₀.eq_iff hx₁, decide_eq_true_eq, decide_eq_true_eq]
    rfl
  rw [Plot.setup_line hop]
  -- the ends, in the order of a line
  have hends : Reg (r.next i).na (d.corners g.p).ordered.a.x 1024 ∧
      Reg (r.next i).nb (d.corners g.p).ordered.a.y 1024 ∧
      Reg (r.next i).nc (d.corners g.p).ordered.b.x 1024 ∧
      Reg (r.next i).nd (d.corners g.p).ordered.b.y 1024 ∧
      (r.next i).ne.toInt = (d.corners g.p).ordered.c.x ∧
      (r.next i).nf.toInt = (d.corners g.p).ordered.c.y := by
    rw [hna, hnb, hnc, hnd, hne, hnf]
    unfold Plot.ordered
    by_cases hs : (d.corners g.p).b.x < (d.corners g.p).a.x ∨
        ((d.corners g.p).a.x = (d.corners g.p).b.x ∧
          (d.corners g.p).b.y < (d.corners g.p).a.y)
    · have hs' := hswap.mpr hs
      rw [if_pos hs', if_pos hs', if_pos hs', if_pos hs', if_pos hs]
      exact ⟨hx₁, hy₁, hx₀, hy₀, rfl, rfl⟩
    · have hs' := mt hswap.mp hs
      rw [if_neg hs', if_neg hs', if_neg hs', if_neg hs', if_neg hs]
      exact ⟨hx₀, hy₀, hx₁, hy₁, rfl, rfl⟩
  have hle := (d.corners g.p).ordered_le
  generalize (d.corners g.p).ordered = t at *
  obtain ⟨ha, hb, hc, hd, he, hf⟩ := hends
  refine ⟨hempty, fun _ => ⟨?_, ?_⟩⟩
  · have hup : (r.next i).nd.slt (r.next i).nb = true ↔ t.b.y - t.a.y < 0 := by
      rw [hd.slt hb, decide_eq_true_eq]
      omega
    have hdx : Reg ((r.next i).nc - (r.next i).na) t.lineStart.dx 2048 := hc.sub ha (by norm_num)
    have hdown : Reg ((r.next i).nb - (r.next i).nd) (-(t.b.y - t.a.y)) 2048 := by
      rw [neg_sub]
      exact hb.sub hd (by norm_num)
    have hdy : Reg (if (r.next i).nd.slt (r.next i).nb then (r.next i).nb - (r.next i).nd
        else (r.next i).nd - (r.next i).nb) t.lineStart.dy 2048 :=
      .ite hup hdown (hd.sub hb (by norm_num))
    have hsy : Reg (if (r.next i).nd.slt (r.next i).nb then (-1 : Word) else 1) t.lineStart.sy 1 :=
      .ite hup ⟨rfl, by norm_num⟩ reg_one
    have herr := hdx.sub hdy (by norm_num)
    unfold GpuRtl.latched
    dsimp only
    rw [if_pos hop']
    exact ⟨ha.value, hb.value, ha.value, hb.value, hc.value, hd.value, he, hf,
      fun h => absurd hop h, fun _ => ⟨hdx.value, hdy.value, hsy.value, herr.value⟩⟩
  · have hbound := ha.bound
    have hbound' := hc.bound
    have hboundy := hb.bound
    have hboundy' := hd.bound
    rw [abs_le] at hbound hbound' hboundy hboundy'
    refine ⟨⟨ha.bound, hb.bound⟩, fun _ => ⟨hc.bound, hd.bound⟩, ?_, fun h => absurd hop h,
      fun _ => ⟨⟨?_, ?_⟩, 0, 0, Plot.lineStart_onLine hle⟩⟩
    · rw [hop]
      intro h
      exact absurd h (by decide)
    · change t.b.x - t.a.x ≤ 2048
      omega
    · change (if t.b.y - t.a.y < 0 then -(t.b.y - t.a.y) else t.b.y - t.a.y) ≤ 2048
      split_ifs
      · omega
      · omega

theorem setup_follows (hp : ∀ k, r.param k = g.p k) (hv : g.valid window = true) (d : Plot) :
    SetupFollows r i g.p (d.setup g.p) := by
  rcases g.valid_op hv with hop | hop | hop | hop
  · exact fill_follows hp hv hop d
  · exact blit_follows hp hv hop d
  · exact line_follows hp hv hop d
  · exact triangle_follows hp hv hop d

end Setup

end TinyProcessors
