import TinyProcessors.Emu.Devices
import TinyProcessors.Rtl.GpuSetup

namespace TinyProcessors

section Scan

variable {r : GpuRtl} {p : Gp → Word} {d : Plot} {s : ScanRegs}

theorem Plot.OnLine.err_abs (h : d.OnLine i j) (hx : d.dx ≤ 2048) (hy : d.dy ≤ 2048) :
    |d.err| ≤ 4196352 := by
  have hleft := h.left
  have hright := h.right
  have habove := h.above
  have hbelow := h.below
  have hj : (j + 1) * d.dx ≤ 2049 * 2048 := mul_le_mul (by omega) hx (by omega) (by norm_num)
  have hi : (i + 1) * d.dy ≤ 2049 * 2048 := mul_le_mul (by omega) hy (by omega) (by norm_num)
  have hj0 : 0 ≤ (j + 1) * d.dx := mul_nonneg (by omega) (by omega)
  have hi0 : 0 ≤ (i + 1) * d.dy := mul_nonneg (by omega) (by omega)
  rw [h.err, abs_le]
  omega

theorem Plot.OnLine.cursor_abs (h : d.OnLine i j) (hx : d.dx ≤ 2048) (hy : d.dy ≤ 2048)
    (hb : d.b.Small) : |d.cursor.x| ≤ 3072 ∧ |d.cursor.y| ≤ 3072 := by
  obtain ⟨hbx, hby⟩ := hb
  have hgx := h.goalX
  have hgy := h.goalY
  have hleft := h.left
  have hright := h.right
  have habove := h.above
  have hbelow := h.below
  rw [abs_le] at hbx hby ⊢
  rw [abs_le]
  rcases h.side with hs | hs
  · rw [hs] at hgy
    omega
  · rw [hs] at hgy
    omega

theorem Plot.Tame.box_abs (h : d.Tame p) (hop : p .op ≠ gpuLine) :
    |d.cursor.x| ≤ 320 ∧ |d.cursor.y| ≤ 320 := by
  obtain ⟨hbox, _, hc⟩ := h.box hop
  rw [mem_box] at hc
  rw [abs_le, abs_le]
  omega

theorem Plot.Tame.cursor_abs (h : d.Tame p) : |d.cursor.x| ≤ 3072 ∧ |d.cursor.y| ≤ 3072 := by
  by_cases hop : p .op = gpuLine
  · obtain ⟨⟨hx, hy⟩, i, j, hline⟩ := h.line hop
    exact hline.cursor_abs hx hy (h.b (.inl hop))
  · obtain ⟨hx, hy⟩ := h.box_abs hop
    exact ⟨hx.trans (by norm_num), hy.trans (by norm_num)⟩

theorem edgeIncluded_eq {ax ay bx byy px py : Word} {a b q : Point} (hax : Reg ax a.x 1024)
    (hay : Reg ay a.y 1024) (hbx : Reg bx b.x 1024) (hby : Reg byy b.y 1024)
    (hpx : Reg px q.x 320) (hpy : Reg py q.y 320) :
    edgeIncluded ax ay bx byy px py = inside a b q := by
  have htwo : Reg (2 : Word) 2 2 := ⟨rfl, by norm_num⟩
  have harm {v u : Word} {m n : Int} (hv : Reg v m 320) (hu : Reg u n 1024) :
      Reg (2 * v + 1 - 2 * u) (2 * m + 1 - 2 * n) 2689 :=
    (((htwo.mul hv (by norm_num)).add reg_one (by norm_num)).sub (htwo.mul hu (by norm_num))
      (by norm_num)).mono (by norm_num)
  have he : Reg ((bx - ax) * (2 * py + 1 - 2 * ay) - (byy - ay) * (2 * px + 1 - 2 * ax))
      (edge a b q) 11014144 :=
    (((hbx.sub hax (by norm_num)).mul (harm hpy hay) (by norm_num)).sub
      ((hby.sub hay (by norm_num)).mul (harm hpx hax) (by norm_num)) (by norm_num)).mono
      (by norm_num)
  unfold edgeIncluded inside
  dsimp only
  rw [reg_zero.slt he, hby.slt hay, hax.slt hbx]
  simp only [he.eq_iff reg_zero, hby.eq_iff hay]

theorem covered_eq (hp : ∀ k, r.param k = p k) (h : r.regs.Holds p d) (ht : d.Tame p) :
    r.covered = d.covers p d.cursor := by
  have hx : Reg r.regs.x d.cursor.x 3072 := ⟨h.x, ht.cursor_abs.1⟩
  have hy : Reg r.regs.y d.cursor.y 3072 := ⟨h.y, ht.cursor_abs.2⟩
  have h320 : Reg (320 : Word) 320 320 := ⟨rfl, by norm_num⟩
  have h240 : Reg (240 : Word) 240 240 := ⟨rfl, by norm_num⟩
  have hscreen : ((0 : Word).sle r.regs.x && r.regs.x.slt 320 && (0 : Word).sle r.regs.y &&
      r.regs.y.slt 240) = onScreen d.cursor := by
    rw [reg_zero.sle hx, hx.slt h320, reg_zero.sle hy, hy.slt h240]
    rfl
  unfold GpuRtl.covered Plot.covers
  dsimp only
  rw [hscreen, hp]
  by_cases hop : p .op = gpuTriangle
  · have hbox := ht.box_abs (by rw [hop]; decide)
    have hx : Reg r.regs.x d.cursor.x 320 := ⟨h.x, hbox.1⟩
    have hy : Reg r.regs.y d.cursor.y 320 := ⟨h.y, hbox.2⟩
    have hax : Reg r.regs.ax d.a.x 1024 := ⟨h.ax, ht.a.1⟩
    have hay : Reg r.regs.ay d.a.y 1024 := ⟨h.ay, ht.a.2⟩
    have hbx : Reg r.regs.bx d.b.x 1024 := ⟨h.bx, (ht.b (.inr hop)).1⟩
    have hby : Reg r.regs.byy d.b.y 1024 := ⟨h.byy, (ht.b (.inr hop)).2⟩
    have hcx : Reg r.regs.cx d.c.x 1024 := ⟨h.cx, (ht.c hop).1⟩
    have hcy : Reg r.regs.cy d.c.y 1024 := ⟨h.cy, (ht.c hop).2⟩
    rw [edgeIncluded_eq hax hay hbx hby hx hy, edgeIncluded_eq hbx hby hcx hcy hx hy,
      edgeIncluded_eq hcx hcy hax hay hx hy]
  · rw [decide_eq_true hop, Bool.true_or, Bool.true_or]

theorem sourceOffset_eq (hp : ∀ k, r.param k = p k) (h : r.regs.Holds p d) :
    r.sourceOffset.toNat = d.sourceAt p d.cursor := by
  have hword {a : Word} {n : Int} (ha : a.toInt = n) : a = BitVec.ofInt 32 n := by
    rw [← ha, BitVec.ofInt_toInt]
  have hstride : p .stride = BitVec.ofInt 32 ((p .stride).toNat : Int) := by
    rw [BitVec.ofInt_natCast, BitVec.ofNat_toNat, BitVec.setWidth_eq]
  have hoffset : r.sourceOffset = BitVec.ofInt 32 ((Gp.sy.int p + d.cursor.y - d.a.y) *
      (p .stride).toNat + (Gp.sx.int p + d.cursor.x - d.a.x)) := by
    unfold GpuRtl.sourceOffset
    rw [hp, hp, hp, hword h.x, hword h.y, hword h.ax, hword h.ay, hword (a := p .sx) rfl,
      hword (a := p .sy) rfl]
    nth_rewrite 1 [hstride]
    rw [sub_eq_add_neg, sub_eq_add_neg, ← BitVec.ofInt_neg, ← BitVec.ofInt_neg,
      ← BitVec.ofInt_add, ← BitVec.ofInt_add, ← BitVec.ofInt_mul, ← BitVec.ofInt_add,
      ← BitVec.ofInt_add, ← BitVec.ofInt_add]
    congr 1
    ring
  rw [hoffset, BitVec.toNat_ofInt]
  rfl

theorem advance_line (h : s.Holds p d) (ht : d.Tame p) (hop : p .op = gpuLine) :
    GpuRtl.lastLine s = d.last p ∧
      ScanRegs.Holds { s with
        x := if GpuRtl.stepX s then s.x + 1 else s.x
        y := if GpuRtl.stepY s then s.y + s.sy else s.y
        err := s.err - (if GpuRtl.stepX s then s.dy else 0) + (if GpuRtl.stepY s then s.dx else 0) }
        p (d.next p) := by
  obtain ⟨⟨hdx, hdy⟩, i, j, hline⟩ := ht.line hop
  obtain ⟨hcx, hcy⟩ := ht.cursor_abs
  obtain ⟨hsdx, hsdy, hssy, hserr⟩ := h.line hop
  obtain ⟨hbx, hby⟩ := ht.b (.inl hop)
  have hdx0 := hline.left.trans hline.right
  have hdy0 := hline.above.trans hline.below
  have hx : Reg s.x d.cursor.x 3072 := ⟨h.x, hcx⟩
  have hy : Reg s.y d.cursor.y 3072 := ⟨h.y, hcy⟩
  have hdx : Reg s.dx d.dx 2048 := ⟨hsdx, abs_le.mpr (by omega)⟩
  have hdy : Reg s.dy d.dy 2048 := ⟨hsdy, abs_le.mpr (by omega)⟩
  have hsy : Reg s.sy d.sy 1 := by
    refine ⟨hssy, abs_le.mpr ?_⟩
    rcases hline.side with hs | hs
    · omega
    · omega
  have herr : Reg s.err d.err 4196352 := ⟨hserr, hline.err_abs (by omega) (by omega)⟩
  have htwice : Reg (s.err * 2) (2 * d.err) 8392704 := by
    rw [mul_comm (2 : Int)]
    exact (herr.mul (b := 2) (n := 2) (k := 2) ⟨rfl, by norm_num⟩ (by norm_num)).mono (by norm_num)
  have hright : GpuRtl.stepX s = true ↔ -d.dy ≤ 2 * d.err := by
    unfold GpuRtl.stepX
    rw [(hdy.neg (by norm_num)).sle htwice, decide_eq_true_eq]
  have hdown : GpuRtl.stepY s = true ↔ 2 * d.err ≤ d.dx := by
    unfold GpuRtl.stepY
    rw [htwice.sle hdx, decide_eq_true_eq]
  have hnext : d.next p = d.lineNext := if_pos hop
  constructor
  · have hlast : d.last p = decide (d.cursor = d.b) := if_pos hop
    unfold GpuRtl.lastLine
    rw [hlast]
    simp only [hx.eq_iff (⟨h.bx, hbx⟩ : Reg s.bx d.b.x 1024),
      hy.eq_iff (⟨h.byy, hby⟩ : Reg s.byy d.b.y 1024), Point.ext_iff, Bool.decide_and]
  · have hx' := Reg.ite hright (hx.add reg_one (by norm_num)) (hx.mono (by norm_num))
    have hy' := Reg.ite hdown (hy.add hsy (by norm_num)) (hy.mono (by norm_num))
    have hzero : Reg (0 : Word) 0 2048 := reg_zero.mono (by norm_num)
    have herr' := (herr.sub (.ite hright hdy hzero) (by norm_num)).add (.ite hdown hdx hzero)
      (by norm_num)
    rw [hnext]
    exact ⟨hx'.value, hy'.value, h.ax, h.ay, h.bx, h.byy, h.cx, h.cy, fun hne => absurd hop hne,
      fun _ => ⟨hsdx, hsdy, hssy, herr'.value⟩⟩

theorem Plot.Tame.lineNext (ht : d.Tame p) (hop : p .op = gpuLine) (hl : d.last p = false) :
    (d.next p).Tame p := by
  obtain ⟨hd, i, j, hline⟩ := ht.line hop
  have hnext : d.next p = d.lineNext := if_pos hop
  have hne : ¬(i = d.dx ∧ j = d.dy) := by
    rw [← hline.last_iff]
    exact of_decide_eq_false ((if_pos hop).symm.trans hl)
  obtain ⟨i', j', _, _, hline', _⟩ := hline.next hne
  rw [hnext]
  exact ⟨ht.a, ht.b, ht.c, fun h => absurd hop h, fun _ => ⟨hd, i', j', hline'⟩⟩

theorem advance_box (h : s.Holds p d) (ht : d.Tame p) (hop : p .op ≠ gpuLine) :
    (GpuRtl.lastColumn s && GpuRtl.lastRow s) = d.last p ∧
      (if GpuRtl.lastColumn s then { s with
          x := if (0 : Word).slt s.step then s.lo else s.hi - 1
          y := s.y + s.step }
        else { s with x := s.x + s.step }).Holds p (d.next p) := by
  obtain ⟨⟨hslo, hstop, hshi, hsbottom⟩, hsstep⟩ := h.box hop
  obtain ⟨hbox, hstep, hc⟩ := ht.box hop
  obtain ⟨hcx, hcy⟩ := ht.box_abs hop
  rw [Plot.mem_box] at hc
  have hx : Reg s.x d.cursor.x 320 := ⟨h.x, hcx⟩
  have hy : Reg s.y d.cursor.y 320 := ⟨h.y, hcy⟩
  have hlo : Reg s.lo d.lo 321 := ⟨hslo, abs_le.mpr (by omega)⟩
  have htop : Reg s.top d.top 321 := ⟨hstop, abs_le.mpr (by omega)⟩
  have hhi : Reg s.hi d.hi 320 := ⟨hshi, abs_le.mpr (by omega)⟩
  have hbottom : Reg s.bottom d.bottom 320 := ⟨hsbottom, abs_le.mpr (by omega)⟩
  have hst : Reg s.step d.step 1 := by
    refine ⟨hsstep, abs_le.mpr ?_⟩
    rcases hstep with hs | hs
    · omega
    · omega
  have hup : (0 : Word).slt s.step = true ↔ 0 < d.step := by
    rw [reg_zero.slt hst, decide_eq_true_eq]
  have hfirst : Reg (if (0 : Word).slt s.step then s.lo else s.hi - 1) d.firstX 321 :=
    .ite hup hlo (hhi.sub reg_one (by norm_num))
  have hend : Reg (if (0 : Word).slt s.step then s.hi - 1 else s.lo) d.lastX 321 :=
    .ite hup (hhi.sub reg_one (by norm_num)) hlo
  have hendY : Reg (if (0 : Word).slt s.step then s.bottom - 1 else s.top) d.lastY 321 :=
    .ite hup (hbottom.sub reg_one (by norm_num)) htop
  have hcolumn : GpuRtl.lastColumn s = decide (d.cursor.x = d.lastX) := by
    unfold GpuRtl.lastColumn
    simp only [hx.eq_iff hend]
  have hrow : GpuRtl.lastRow s = decide (d.cursor.y = d.lastY) := by
    unfold GpuRtl.lastRow
    simp only [hy.eq_iff hendY]
  have hnext : d.next p = d.boxNext := if_neg hop
  have hlast : d.last p = (decide (d.cursor.x = d.lastX) && decide (d.cursor.y = d.lastY)) :=
    if_neg hop
  refine ⟨by rw [hcolumn, hrow, hlast], ?_⟩
  rw [hnext, hcolumn]
  unfold Plot.boxNext
  by_cases hcol : d.cursor.x = d.lastX
  · rw [if_pos hcol, if_pos (decide_eq_true hcol)]
    exact ⟨hfirst.value, (hy.add hst (by norm_num)).value, h.ax, h.ay, h.bx, h.byy, h.cx, h.cy,
      h.box, fun hline => absurd hline hop⟩
  · rw [if_neg hcol, if_neg (by simpa using hcol)]
    exact ⟨(hx.add hst (by norm_num)).value, h.y, h.ax, h.ay, h.bx, h.byy, h.cx, h.cy, h.box,
      fun hline => absurd hline hop⟩

theorem Plot.Tame.boxNext (ht : d.Tame p) (hop : p .op ≠ gpuLine) (hl : d.last p = false) :
    (d.next p).Tame p := by
  obtain ⟨hbox, hstep, hc⟩ := ht.box hop
  have hnext : d.next p = d.boxNext := if_neg hop
  have hlast : ¬(d.cursor.x = d.lastX ∧ d.cursor.y = d.lastY) := by
    have hend := (if_neg hop).symm.trans hl
    simpa using hend
  have hmem := Plot.boxNext_mem hstep hc hlast
  rw [hnext]
  unfold Plot.boxNext at hmem ⊢
  split_ifs at hmem ⊢
  · exact ⟨ht.a, ht.b, ht.c, fun _ => ⟨hbox, hstep, hmem⟩, fun h => absurd h hop⟩
  · exact ⟨ht.a, ht.b, ht.c, fun _ => ⟨hbox, hstep, hmem⟩, fun h => absurd h hop⟩

end Scan

def GpuPhase.code : GpuPhase → BitVec 3
  | .idle => 0
  | .setup => 1
  | .scan => 2
  | .read => 3
  | .write => 4
  | .advance => 5

structure GpuRtl.Shows (r : GpuRtl) (g : Gpu) : Prop where
  p : ∀ k, r.param k = g.p k
  status : r.status = g.status.code
  reason : r.reason = g.error.code
  state : r.state = g.phase.code
  cycles : r.cycles = g.cycles
  stalls : r.stalls = g.stalls
  reads : r.reads = g.reads
  writes : r.writes = g.writes
  pixel : r.pixel = g.pixel.toBitVec

structure Follows (r : GpuRtl) (g : Gpu) : Prop where
  shows : r.Shows g
  command : g.commandTick = false
  idle : g.status ≠ .busy → g.phase = .idle
  scan : g.status = .busy → g.phase ≠ .setup → r.regs.Holds g.p g.plot ∧ g.plot.Tame g.p

inductive PixelTransfer
  | read (address : Word) (byte : UInt8)
  | write (address : Word) (byte : UInt8)

def memoryByte (ram fb : Bytes) (a : Word) : UInt8 :=
  if a.msb then ram (a - 0x80000000).toNat else fb (a - 0x12000000).toNat

def GpuRtl.transferred (r : GpuRtl) (i : GpuPort) : Option PixelTransfer :=
  if r.memoryValid i && i.memoryReady then
    if r.memoryWe then some (.write r.memoryAddr ⟨r.pixel⟩)
    else some (.read r.memoryAddr ⟨i.memoryRdata⟩)
  else none

def Gpu.transferred (g : Gpu) (ram fb : Bytes) (hold : Bool) : Option PixelTransfer :=
  if g.runs && !hold then
    match g.phase with
    | .read =>
      let at' := g.plot.sourceAt g.p g.plot.cursor
      let address := if g.p .src = fbAddress then 0x12000000 + at'
        else 0x80000000 + wrap32 ((g.p .src).toNat - 0x80000000 + at')
      some (.read (BitVec.ofNat 32 address) (g.plot.sourcePixel g.p ram g.plot.cursor fb))
    | .write => some (.write (BitVec.ofNat 32 (0x12000000 + pixelAt g.plot.cursor)) g.pixel)
    | _ => none
  else none

def PixelTransfer.drawn (fb : Bytes) : Option PixelTransfer → Bytes
  | some (.write address byte) => Function.update fb (address - 0x12000000).toNat byte
  | _ => fb

section Transfers

variable {r : GpuRtl} {g : Gpu} {w : Window} {ram fb : Bytes} {i : GpuPort}

theorem read_address (hs : r.Shows g) (hr : g.phase = .read) (hh : r.regs.Holds g.p g.plot) :
    r.memoryAddr = BitVec.ofNat 32 (if g.p .src = fbAddress then
      0x12000000 + g.plot.sourceAt g.p g.plot.cursor
      else 0x80000000 + wrap32 ((g.p .src).toNat - 0x80000000 +
        g.plot.sourceAt g.p g.plot.cursor)) := by
  have hstate : r.state = 3 := hs.state.trans (congrArg GpuPhase.code hr)
  have hoffset := sourceOffset_eq hs.p hh
  unfold GpuRtl.memoryAddr
  rw [if_pos hstate, hs.p]
  apply BitVec.eq_of_toNat_eq
  rw [BitVec.toNat_add, hoffset, BitVec.toNat_ofNat]
  split_ifs with hsrc
  · rw [hsrc]
    rfl
  · unfold wrap32
    omega

theorem read_byte (hs : r.Shows g) (hr : g.phase = .read) (hh : r.regs.Holds g.p g.plot)
    (hin : g.InBounds w) :
    memoryByte ram fb r.memoryAddr = g.plot.sourcePixel g.p ram g.plot.cursor fb := by
  have hop := hin.read hr
  have hlt := hin.source hop
  rw [read_address hs hr hh]
  unfold memoryByte Plot.sourcePixel
  by_cases hsrc : g.p .src = fbAddress
  · obtain ⟨hsw, hsh, hstride⟩ := G1.valid_framebuffer hin.valid hop hsrc
    have hend : g.toG1.sourceEnd = 0x12000000 + 76800 := by
      unfold G1.sourceEnd
      rw [hsw, hsh, hstride, show g.toG1.p .src = fbAddress from hsrc]
      rfl
    have hstart : (g.p .src).toNat = 0x12000000 := by
      rw [hsrc]
      rfl
    rw [if_pos hsrc, if_pos hsrc]
    have hmsb : (BitVec.ofNat 32 (0x12000000 + g.plot.sourceAt g.p g.plot.cursor)).msb = false := by
      rw [BitVec.msb_eq_decide, BitVec.toNat_ofNat, decide_eq_false_iff_not]
      omega
    rw [hmsb]
    have hback : (BitVec.ofNat 32 (0x12000000 + g.plot.sourceAt g.p g.plot.cursor) -
        0x12000000 : Word).toNat = g.plot.sourceAt g.p g.plot.cursor := by
      rw [BitVec.toNat_sub, BitVec.toNat_ofNat]
      change (2 ^ 32 - 0x12000000 + _) % 2 ^ 32 = _
      omega
    rw [hback]
    rfl
  · obtain ⟨hlow, hend⟩ := (G1.valid_blit hin.valid hop).2.resolve_left hsrc
    have hlow : 0x80000000 ≤ (g.p .src).toNat := hlow
    have hplace : wrap32 ((g.p .src).toNat - 0x80000000 + g.plot.sourceAt g.p g.plot.cursor) =
        (g.p .src).toNat - 0x80000000 + g.plot.sourceAt g.p g.plot.cursor := by
      unfold wrap32
      omega
    rw [if_neg hsrc, if_neg hsrc, hplace]
    generalize hk : (g.p .src).toNat - 0x80000000 + g.plot.sourceAt g.p g.plot.cursor = k
    have hk' : k < 0x1000000 := by omega
    have hmsb : (BitVec.ofNat 32 (0x80000000 + k)).msb = true := by
      rw [BitVec.msb_eq_decide, BitVec.toNat_ofNat, decide_eq_true_eq]
      omega
    rw [hmsb]
    have hback : (BitVec.ofNat 32 (0x80000000 + k) - 0x80000000 : Word).toNat = k := by
      rw [BitVec.toNat_sub, BitVec.toNat_ofNat]
      change (2 ^ 32 - 0x80000000 + _) % 2 ^ 32 = _
      omega
    rw [hback]
    rfl

theorem write_address (hs : r.Shows g) (hw : g.phase = .write) (hh : r.regs.Holds g.p g.plot)
    (hin : g.InBounds w) :
    r.memoryAddr = BitVec.ofNat 32 (0x12000000 + pixelAt g.plot.cursor) ∧
      (r.memoryAddr - 0x12000000).toNat = pixelAt g.plot.cursor := by
  have hstate : r.state ≠ 3 := by
    rw [hs.state, hw]
    decide
  obtain ⟨⟨hx0, hx⟩, hy0, hy⟩ := onScreen_iff.mp (hin.drawn (.inr hw))
  have hnat {a : Word} {n : Int} (ha : a.toInt = n) (hn : 0 ≤ n) : a.toNat = n.toNat := by
    have := BitVec.toInt_eq_toNat_cond a
    split_ifs at this
    · omega
    · have := a.isLt
      omega
  have haddr : r.memoryAddr = BitVec.ofNat 32 (0x12000000 + pixelAt g.plot.cursor) := by
    unfold GpuRtl.memoryAddr
    rw [if_neg hstate]
    apply BitVec.eq_of_toNat_eq
    rw [BitVec.toNat_add, BitVec.toNat_add, BitVec.toNat_mul, BitVec.toNat_ofNat, hnat hh.x hx0,
      hnat hh.y hy0]
    change ((0x12000000 + _ * 320 % 2 ^ 32) % 2 ^ 32 + _) % 2 ^ 32 = _
    unfold pixelAt
    omega
  refine ⟨haddr, ?_⟩
  rw [haddr, BitVec.toNat_sub, BitVec.toNat_ofNat]
  change (2 ^ 32 - 0x12000000 + _) % 2 ^ 32 = _
  unfold pixelAt
  omega

end Transfers

section Phases

variable {r : GpuRtl} {g : Gpu} {w window : Window} {i : GpuPort}

theorem busy_iff (hs : r.Shows g) : r.busy = true ↔ g.status = .busy := by
  unfold GpuRtl.busy
  rw [hs.status, decide_eq_true_eq]
  cases g.status with
  | idle => decide
  | busy => decide
  | done => decide
  | fault => decide

theorem Follows.stopped (hs : r.Shows g) (hc : g.commandTick = false) (hi : g.phase = .idle)
    (hb : g.status ≠ .busy) : Follows r g :=
  ⟨hs, hc, fun _ => hi, fun h => absurd h hb⟩

theorem Follows.setup (h : Follows r g) (hb : g.status = .busy)
    (hw : i.windowStart = window.start) (hw' : i.windowEnd = window.stop) :
    Follows (r.setup i) (g.setup window) := by
  have hs := h.shows
  have hgood : (r.next i).good = g.toG1.valid window := good_eq (g := g.toG1) hs.p hw hw'
  unfold GpuRtl.setup Gpu.setup
  dsimp only
  rw [hgood]
  cases hv : g.toG1.valid window with
  | false =>
    exact .stopped ⟨hs.p, rfl, rfl, rfl, hs.cycles, hs.stalls, hs.reads, hs.writes, hs.pixel⟩
      h.command rfl (by rintro ⟨⟩)
  | true =>
    have hsetup : SetupFollows r i g.p (g.plot.setup g.p) :=
      setup_follows (g := g.toG1) hs.p hv g.plot
    generalize g.plot.setup g.p = start at hsetup ⊢
    obtain ⟨d, more⟩ := start
    obtain ⟨hempty, hscan⟩ := hsetup
    rw [hempty]
    cases more with
    | false =>
      exact .stopped ⟨hs.p, rfl, hs.reason, rfl, hs.cycles, hs.stalls, hs.reads, hs.writes,
        hs.pixel⟩ h.command rfl (by rintro ⟨⟩)
    | true =>
      exact ⟨⟨hs.p, hs.status, hs.reason, rfl, hs.cycles, hs.stalls, hs.reads, hs.writes,
        hs.pixel⟩, h.command, fun hn => absurd hb hn, fun _ _ => hscan rfl⟩

theorem Follows.scanned (h : Follows r g) (hb : g.status = .busy) (hp : g.phase = .scan) :
    Follows r.scan g.scan := by
  have hs := h.shows
  obtain ⟨hh, ht⟩ := h.scan hb (by rw [hp]; rintro ⟨⟩)
  have hcovered := covered_eq hs.p hh ht
  refine ⟨⟨hs.p, hs.status, hs.reason, ?_, hs.cycles, hs.stalls, hs.reads, hs.writes, ?_⟩,
    h.command, fun hn => absurd hb hn, fun _ _ => ⟨hh, ht⟩⟩
  · unfold GpuRtl.scan Gpu.scan
    dsimp only
    rw [hcovered, hs.p]
    split_ifs
    · rfl
    · rfl
    · rfl
  · unfold GpuRtl.scan Gpu.scan
    dsimp only
    rw [hs.p]
    apply BitVec.eq_of_toNat_eq
    rw [BitVec.extractLsb'_toNat, UInt8.toNat_toBitVec, UInt8.toNat_ofNat']
    rfl

theorem Follows.advanced (h : Follows r g) (hb : g.status = .busy) (hp : g.phase = .advance) :
    Follows r.advance g.advance := by
  have hs := h.shows
  obtain ⟨hh, ht⟩ := h.scan hb (by rw [hp]; rintro ⟨⟩)
  have hbusy : r.status = 1 := hs.status.trans (congrArg EngineStatus.code hb)
  have hdone (last : Bool) : (if last then 2 else r.status) =
      (if last then EngineStatus.done else .busy).code := by
    rw [hbusy]
    cases last with
    | false => rfl
    | true => rfl
  have hstate (last : Bool) : (if last then 0 else 2 : BitVec 3) =
      (if last then GpuPhase.idle else .scan).code := by
    cases last with
    | false => rfl
    | true => rfl
  have hidle (last : Bool) : (if last then EngineStatus.done else .busy) ≠ .busy →
      (if last then GpuPhase.idle else .scan) = .idle := by
    cases last with
    | false => exact fun hn => absurd rfl hn
    | true => exact fun _ => rfl
  have hmore {last : Bool} (hl : (if last then EngineStatus.done else .busy) = .busy) :
      last = false := by
    cases last with
    | false => rfl
    | true => cases hl
  unfold GpuRtl.advance Gpu.advance
  dsimp only
  rw [hs.p]
  by_cases hop : g.p .op = gpuLine
  · obtain ⟨hlast, hnext⟩ := advance_line hh ht hop
    rw [if_pos hop, hlast]
    exact ⟨⟨hs.p, hdone _, hs.reason, hstate _, hs.cycles, hs.stalls, hs.reads, hs.writes,
      hs.pixel⟩, h.command, hidle _, fun hl _ => ⟨hnext, ht.lineNext hop (hmore hl)⟩⟩
  · obtain ⟨hlast, hnext⟩ := advance_box hh ht hop
    rw [if_neg hop]
    rw [← hlast]
    cases hcol : GpuRtl.lastColumn r.regs with
    | true =>
      rw [hcol] at hlast hnext
      exact ⟨⟨hs.p, hdone _, hs.reason, hstate _, hs.cycles, hs.stalls, hs.reads, hs.writes,
        hs.pixel⟩, h.command, hidle _, fun hl _ => ⟨hnext, ht.boxNext hop (hlast.symm.trans (hmore hl))⟩⟩
    | false =>
      rw [hcol] at hlast hnext
      exact ⟨⟨hs.p, hbusy, hs.reason, rfl, hs.cycles, hs.stalls, hs.reads, hs.writes, hs.pixel⟩,
        h.command, fun hn => absurd rfl hn, fun _ _ => ⟨hnext, ht.boxNext hop hlast.symm⟩⟩

theorem Follows.phase (h : Follows r g) (hb : g.status = .busy)
    (hin : g.phase = .setup ∨ g.InBounds w) (hready : i.memoryReady = !hold)
    (hbyte : i.memoryRdata = (memoryByte ram fb r.memoryAddr).toBitVec)
    (hw : i.windowStart = window.start) (hw' : i.windowEnd = window.stop) :
    Follows (r.phase i) (Screen.phase ram window hold ⟨g, fb⟩).gpu := by
  have hs := h.shows
  unfold GpuRtl.phase Screen.phase
  dsimp only
  cases hp : g.phase with
  | setup =>
    have hstate : r.state = 1 := hs.state.trans (congrArg GpuPhase.code hp)
    rw [if_pos hstate]
    exact h.setup hb hw hw'
  | scan =>
    have hstate : r.state = 2 := hs.state.trans (congrArg GpuPhase.code hp)
    rw [if_neg (by rw [hstate]; decide), if_pos hstate]
    exact h.scanned hb hp
  | advance =>
    have hstate : r.state = 5 := hs.state.trans (congrArg GpuPhase.code hp)
    rw [if_neg (by rw [hstate]; decide), if_neg (by rw [hstate]; decide),
      if_neg (by rw [hstate]; decide), if_pos hstate]
    exact h.advanced hb hp
  | idle =>
    have hstate : r.state = 0 := hs.state.trans (congrArg GpuPhase.code hp)
    rw [if_neg (by rw [hstate]; decide), if_neg (by rw [hstate]; decide),
      if_neg (by rw [hstate]; decide), if_neg (by rw [hstate]; decide)]
    exact .stopped ⟨hs.p, rfl, rfl, rfl, hs.cycles, hs.stalls, hs.reads, hs.writes, hs.pixel⟩
      h.command rfl (by rintro ⟨⟩)
  | read =>
    have hstate : r.state = 3 := hs.state.trans (congrArg GpuPhase.code hp)
    have hin := hin.resolve_left (by rw [hp]; rintro ⟨⟩)
    have hscan := h.scan hb (by rw [hp]; rintro ⟨⟩)
    rw [if_neg (by rw [hstate]; decide), if_neg (by rw [hstate]; decide), if_pos (.inl hstate)]
    unfold GpuRtl.transfer
    rw [hready]
    cases hold with
    | true =>
      exact ⟨⟨hs.p, hs.status, hs.reason, hstate, hs.cycles, congrArg (· + 1) hs.stalls,
        hs.reads, hs.writes, hs.pixel⟩, h.command, fun hn => absurd hb hn, fun _ _ => hscan⟩
    | false =>
      have hpixel := hbyte.trans (congrArg UInt8.toBitVec (read_byte hs hp hscan.1 hin))
      rw [if_neg (by decide), if_pos hstate]
      exact ⟨⟨hs.p, hs.status, hs.reason, rfl, hs.cycles, hs.stalls, congrArg (· + 1) hs.reads,
        hs.writes, hpixel⟩, h.command, fun hn => absurd hb hn, fun _ _ => hscan⟩
  | write =>
    have hstate : r.state = 4 := hs.state.trans (congrArg GpuPhase.code hp)
    have hscan := h.scan hb (by rw [hp]; rintro ⟨⟩)
    rw [if_neg (by rw [hstate]; decide), if_neg (by rw [hstate]; decide), if_pos (.inr hstate)]
    unfold GpuRtl.transfer
    rw [hready]
    cases hold with
    | true =>
      exact ⟨⟨hs.p, hs.status, hs.reason, hstate, hs.cycles, congrArg (· + 1) hs.stalls,
        hs.reads, hs.writes, hs.pixel⟩, h.command, fun hn => absurd hb hn, fun _ _ => hscan⟩
    | false =>
      rw [if_neg (by decide), if_neg (by rw [hstate]; decide)]
      exact ⟨⟨hs.p, hs.status, hs.reason, rfl, hs.cycles, hs.stalls, hs.reads,
        congrArg (· + 1) hs.writes, hs.pixel⟩, h.command, fun hn => absurd hb hn, fun _ _ => hscan⟩

theorem transferred_none (h : r.state ≠ 3 ∧ r.state ≠ 4 ∨ i.cancel = true) :
    r.transferred i = none := by
  have hvalid : r.memoryValid i = false := by
    unfold GpuRtl.memoryValid
    rcases h with ⟨hr, hw⟩ | hc
    · rw [decide_eq_false hr, decide_eq_false hw]
      rfl
    · rw [hc, Bool.not_true, Bool.and_false]
  unfold GpuRtl.transferred
  rw [hvalid]
  rfl

theorem Follows.transferred (h : Follows r g) (hsafe : g.Safe w) (hc : i.cancel = false)
    (hready : i.memoryReady = !hold)
    (hbyte : i.memoryRdata = (memoryByte ram fb r.memoryAddr).toBitVec) :
    r.transferred i = g.transferred ram fb hold ∧
      (Screen.tick ram window hold ⟨g, fb⟩).fb =
        PixelTransfer.drawn fb (g.transferred ram fb hold) := by
  have hs := h.shows
  by_cases hb : g.status = .busy
  · have hruns : g.runs = true := by
      unfold Gpu.runs
      rw [h.command, hb]
      rfl
    have htick : Screen.tick ram window hold ⟨g, fb⟩ =
        Screen.phase ram window hold ⟨{ g with cycles := g.cycles + 1 }, fb⟩ := by
      unfold Screen.tick
      dsimp only
      rw [h.command, if_neg (by decide), if_neg (not_not.mpr hb)]
    rw [htick]
    unfold Gpu.transferred Screen.phase
    rw [hruns]
    dsimp only
    have hquiet (hq : g.phase.code ≠ 3 ∧ g.phase.code ≠ 4) : r.transferred i = none :=
      transferred_none (.inl (by rw [hs.state]; exact hq))
    have hheld (hh : hold = true) : r.transferred i = none := by
      unfold GpuRtl.transferred
      rw [hready, hh, Bool.not_true, Bool.and_false]
      rfl
    cases hold with
    | true =>
      rw [hheld rfl]
      refine ⟨rfl, ?_⟩
      cases hp : g.phase with
      | setup => rfl
      | scan => rfl
      | read => rfl
      | write => rfl
      | advance => rfl
      | idle => rfl
    | false =>
      have hin (hq : g.phase ≠ .setup) : g.InBounds w := (hsafe hb).resolve_left hq
      have hh (hq : g.phase ≠ .setup) := (h.scan hb hq).1
      have hwires : r.transferred i = if r.state = 3 ∨ r.state = 4 then
          if r.state = 4 then some (.write r.memoryAddr g.pixel)
          else some (.read r.memoryAddr (memoryByte ram fb r.memoryAddr)) else none := by
        unfold GpuRtl.transferred GpuRtl.memoryValid GpuRtl.memoryWe
        rw [hc, hready, hbyte, hs.pixel]
        simp
      cases hp : g.phase with
      | setup | scan | advance | idle =>
        rw [hquiet (by rw [hp]; decide)]
        exact ⟨rfl, rfl⟩
      | read =>
        have hstate : r.state = 3 := hs.state.trans (congrArg GpuPhase.code hp)
        have hq : g.phase ≠ .setup := by
          rw [hp]
          rintro ⟨⟩
        rw [hwires, if_pos (.inl hstate), if_neg (by rw [hstate]; decide),
          read_byte hs hp (hh hq) (hin hq), read_address hs hp (hh hq)]
        exact ⟨rfl, rfl⟩
      | write =>
        have hstate : r.state = 4 := hs.state.trans (congrArg GpuPhase.code hp)
        have hq : g.phase ≠ .setup := by
          rw [hp]
          rintro ⟨⟩
        obtain ⟨haddr, hplace⟩ := write_address hs hp (hh hq) (hin hq)
        rw [hwires, if_pos (.inr hstate), if_pos hstate, haddr]
        refine ⟨rfl, ?_⟩
        rw [haddr] at hplace
        change Function.update fb (pixelAt g.plot.cursor) g.pixel = Function.update fb _ g.pixel
        rw [hplace]
  · have hstate : r.state = 0 := hs.state.trans (congrArg GpuPhase.code (h.idle hb))
    have hruns : g.runs = false := by
      unfold Gpu.runs
      rw [decide_eq_false hb, Bool.and_false]
    have hnone : g.transferred ram fb hold = none := by
      unfold Gpu.transferred
      rw [hruns]
      rfl
    rw [hnone, transferred_none (.inl (by rw [hstate]; decide))]
    refine ⟨rfl, ?_⟩
    unfold Screen.tick
    dsimp only
    rw [h.command, if_neg (by decide), if_pos hb]
    rfl

end Phases

section Access

variable {r : GpuRtl} {g : Gpu} {i : GpuPort}

theorem GpuPort.offset_toNat (i : GpuPort) : i.offset.toNat = i.addr.toNat % 128 := by
  unfold offset
  rw [BitVec.toNat_setWidth, BitVec.extractLsb'_toNat, Nat.shiftRight_zero]
  omega

theorem GpuPort.offset_eq_iff (i : GpuPort) (a : Word) :
    i.offset = a ↔ i.addr.toNat % 128 = a.toNat := by
  rw [← BitVec.toNat_inj, i.offset_toNat]

theorem GpuPort.paramSel_iff (i : GpuPort) : i.paramSel = true ↔ 0x40 ≤ i.addr.toNat % 128 := by
  unfold paramSel
  rw [decide_eq_true_eq, BitVec.le_def, i.offset_toNat]
  rfl

theorem GpuPort.aligned_iff (i : GpuPort) :
    i.addr.extractLsb' 0 2 = 0 ↔ i.addr.toNat % 128 % 4 = 0 := by
  rw [← BitVec.toNat_inj, BitVec.extractLsb'_toNat, Nat.shiftRight_zero]
  change i.addr.toNat % 4 = 0 ↔ _
  omega

theorem Gp.registers_slot (j : BitVec 4) : Gp.registers[j.toNat]?.map Gp.slot = some j := by
  revert j
  decide

theorem Gp.slot_registers (k : Gp) : Gp.registers[k.slot.toNat]? = some k := by
  cases k <;> rfl

theorem Gp.slot_inj {k k' : Gp} (h : k.slot = k'.slot) : k = k' := by
  have hk := k.slot_registers
  rw [h, k'.slot_registers] at hk
  exact (Option.some.inj hk).symm

theorem GpuPort.index_register (i : GpuPort) (h : 0x40 ≤ i.addr.toNat % 128) :
    ∃ k : Gp, k.slot = i.index ∧
      Gp.registers[(i.addr.toNat % 128 - 0x40) / 4]? = some k := by
  obtain ⟨k, hget, hk⟩ := Option.map_eq_some_iff.mp (Gp.registers_slot i.index)
  refine ⟨k, hk, ?_⟩
  have hindex : i.index.toNat = (i.addr.toNat % 128 - 0x40) / 4 := by
    unfold index
    rw [BitVec.extractLsb'_toNat, Nat.shiftRight_eq_div_pow]
    omega
  rw [← hindex]
  exact hget

theorem store_ok_iff (hs : r.Shows g) (hwe : i.we = true) (hstrb : i.strb = 0xf) :
    r.error i = false ↔ i.addr.toNat % 128 % 4 = 0 ∧
      ((0x40 ≤ i.addr.toNat % 128 ∧ g.status ≠ .busy) ∨
        (i.addr.toNat % 128 = 0 ∧ (i.wdata = gpuReset ∨
          (i.wdata = gpuStart ∧ g.status ≠ .busy)))) := by
  have hbusy : r.busy = false ↔ g.status ≠ .busy := by
    rw [← Bool.not_eq_true, busy_iff hs]
  have hzero : i.offset = 0 ↔ i.addr.toNat % 128 = 0 := i.offset_eq_iff 0
  unfold GpuRtl.error GpuRtl.writeOk
  rw [hwe, if_pos rfl]
  simp only [Bool.or_eq_false_iff, decide_eq_false_iff_not, Bool.not_eq_false', Bool.or_eq_true,
    Bool.and_eq_true, Bool.not_eq_true', decide_eq_true_eq, not_not, i.paramSel_iff, hzero, hbusy,
    i.aligned_iff, hstrb, true_and, ne_eq]

theorem resetWrite_iff (hv : i.valid = true) (hwe : i.we = true) :
    i.resetWrite = true ↔
      i.strb = 0xf ∧ i.addr.toNat % 128 = 0 ∧ i.wdata = gpuReset := by
  have hzero : i.offset = 0 ↔ i.addr.toNat % 128 = 0 := i.offset_eq_iff 0
  unfold GpuPort.resetWrite
  simp only [hv, hwe, Bool.and_eq_true, decide_eq_true_eq, hzero, true_and, and_assoc]

theorem startWrite_iff (hs : r.Shows g) (hv : i.valid = true) (hwe : i.we = true) :
    r.startWrite i = true ↔
      i.strb = 0xf ∧ i.addr.toNat % 128 = 0 ∧ i.wdata = gpuStart ∧ g.status ≠ .busy := by
  have hbusy : r.busy = false ↔ g.status ≠ .busy := by
    rw [← Bool.not_eq_true, busy_iff hs]
  have hzero : i.offset = 0 ↔ i.addr.toNat % 128 = 0 := i.offset_eq_iff 0
  unfold GpuRtl.startWrite
  simp only [hv, hwe, Bool.and_eq_true, Bool.not_eq_true', decide_eq_true_eq, hzero, hbusy,
    true_and, and_assoc]

inductive Stored (r : GpuRtl) (g : Gpu) (i : GpuPort) : Option Gpu → Prop
  | refused (herr : r.error i = true) (hreset : i.resetWrite = false)
      (hstart : r.startWrite i = false) : Stored r g i none
  | param (k : Gp) (herr : r.error i = false) (hreset : i.resetWrite = false)
      (hstart : r.startWrite i = false) (hsel : i.paramSel = true) (hk : k.slot = i.index)
      (hidle : g.status ≠ .busy) :
      Stored r g i (some { g with p := Function.update g.p k i.wdata })
  | reset (herr : r.error i = false) (hreset : i.resetWrite = true) :
      Stored r g i (some { Gpu.reset with commandTick := true })
  | start (herr : r.error i = false) (hreset : i.resetWrite = false)
      (hstart : r.startWrite i = true) (hsel : i.paramSel = false) (hidle : g.status ≠ .busy) :
      Stored r g i (some g.command)

theorem store_cases (hs : r.Shows g) (hv : i.valid = true) (hwe : i.we = true)
    (hstrb : i.strb = 0xf) : Stored r g i (g.store (i.addr.toNat % 128) i.wdata) := by
  have hok := store_ok_iff hs hwe hstrb
  have hreset := resetWrite_iff hv hwe
  have hstart := startWrite_iff hs hv hwe
  have hlt : i.addr.toNat % 128 < 128 := Nat.mod_lt _ (by norm_num)
  have hdata : gpuStart ≠ gpuReset := by decide
  have hbad (h : ¬r.error i = false) (h' : ¬i.resetWrite = true) (h'' : ¬r.startWrite i = true) :
      Stored r g i none :=
    .refused (Bool.not_eq_false _ ▸ h) (Bool.not_eq_true _ ▸ h') (Bool.not_eq_true _ ▸ h'')
  unfold Gpu.store
  split_ifs with h1 h2 h3 h4 h5 h6
  · exact hbad (by rw [hok]; omega) (by rw [hreset]; omega) (by rw [hstart]; omega)
  · refine hbad ?_ ?_ ?_
    · rw [hok]
      rintro ⟨_, ⟨_, h⟩ | ⟨h, _⟩⟩
      · exact h h3
      · omega
    · rw [hreset]
      omega
    · rw [hstart]
      omega
  · obtain ⟨k, hk, hget⟩ := i.index_register h2.1
    rw [hget]
    refine .param k (hok.mpr ⟨not_not.mp h1, .inl ⟨h2.1, h3⟩⟩) ?_ ?_ (i.paramSel_iff.mpr h2.1) hk h3
    · rw [← Bool.not_eq_true, hreset]
      omega
    · rw [← Bool.not_eq_true, hstart]
      omega
  · exact hbad (by rw [hok]; omega) (by rw [hreset]; omega) (by rw [hstart]; omega)
  · exact .reset (hok.mpr ⟨not_not.mp h1, .inr ⟨not_not.mp h4, .inl h5⟩⟩)
      (hreset.mpr ⟨hstrb, not_not.mp h4, h5⟩)
  · refine hbad ?_ ?_ ?_
    · rw [hok]
      rintro ⟨_, ⟨h, _⟩ | ⟨_, h | ⟨h, hn⟩⟩⟩
      · omega
      · exact h5 h
      · exact h6.elim (fun hne => hne h) hn
    · rw [hreset]
      rintro ⟨_, _, h⟩
      exact h5 h
    · rw [hstart]
      rintro ⟨_, _, h, hn⟩
      exact h6.elim (fun hne => hne h) hn
  · rw [not_or, not_not] at h6
    obtain ⟨hs1, hidle⟩ := h6
    refine .start (hok.mpr ⟨not_not.mp h1, .inr ⟨not_not.mp h4, .inr ⟨hs1, hidle⟩⟩⟩) ?_
      (hstart.mpr ⟨hstrb, not_not.mp h4, hs1, hidle⟩) ?_ hidle
    · rw [← Bool.not_eq_true, hreset, hs1]
      exact fun h => hdata h.2.2
    · rw [← Bool.not_eq_true, i.paramSel_iff]
      omega

theorem load_ok_iff (hwe : i.we = false) (hstrb : i.strb = 0xf) :
    r.error i = false ↔ i.addr.toNat % 128 % 4 = 0 ∧
      (0x40 ≤ i.addr.toNat % 128 ∨ (0x4 ≤ i.addr.toNat % 128 ∧ i.addr.toNat % 128 ≤ 0x18)) := by
  have hlow : (0x4 : Word) ≤ i.offset ↔ 0x4 ≤ i.addr.toNat % 128 := by
    rw [BitVec.le_def, i.offset_toNat]
    rfl
  have hhigh : i.offset ≤ (0x18 : Word) ↔ i.addr.toNat % 128 ≤ 0x18 := by
    rw [BitVec.le_def, i.offset_toNat]
    rfl
  unfold GpuRtl.error GpuPort.readOk
  rw [hwe, if_neg (by decide)]
  simp only [Bool.or_eq_false_iff, decide_eq_false_iff_not, Bool.not_eq_false', Bool.or_eq_true,
    Bool.and_eq_true, decide_eq_true_eq, not_not, i.paramSel_iff, hlow, hhigh, i.aligned_iff, hstrb,
    true_and, ne_eq]

theorem load_answer (hs : r.Shows g) (hwe : i.we = false) (hwidth : width = 4 ↔ i.strb = 0xf) :
    g.load (i.addr.toNat % 128) width = if r.error i then none else some (r.rdata i) := by
  have hlt : i.addr.toNat % 128 < 128 := Nat.mod_lt _ (by norm_num)
  have hoff (a : Word) := i.offset_eq_iff a
  have hsel := i.paramSel_iff
  unfold Gpu.load
  by_cases hstrb : i.strb = 0xf
  · have hok := load_ok_iff (r := r) hwe hstrb
    have hread (h : r.error i = false) : (if r.error i then none else some (r.rdata i)) =
        some (r.rdata i) := by
      rw [h]
      rfl
    have hnone (h : ¬r.error i = false) : (if r.error i then none else some (r.rdata i)) = none :=
      if_pos (Bool.not_eq_false _ ▸ h)
    by_cases hal : i.addr.toNat % 128 % 4 = 0
    · rw [if_neg (by rw [not_or, not_not, not_not]; exact ⟨hwidth.mpr hstrb, hal⟩)]
      by_cases hp : 0x40 ≤ i.addr.toNat % 128
      · obtain ⟨k, hk, hget⟩ := i.index_register hp
        rw [if_pos ⟨hp, hlt⟩, hget, hread (hok.mpr ⟨hal, .inl hp⟩)]
        unfold GpuRtl.rdata
        rw [if_pos (hsel.mpr hp), ← hk]
        exact congrArg some (hs.p k).symm
      · rw [if_neg fun h => hp h.1]
        have hreg : r.rdata i =
            if i.addr.toNat % 128 = 0x4 then r.status
            else if i.addr.toNat % 128 = 0x8 then r.reason
            else if i.addr.toNat % 128 = 0xc then r.cycles
            else if i.addr.toNat % 128 = 0x10 then r.stalls
            else if i.addr.toNat % 128 = 0x14 then r.reads
            else if i.addr.toNat % 128 = 0x18 then r.writes
            else 0 := by
          unfold GpuRtl.rdata
          rw [if_neg (by rw [hsel]; exact hp)]
          simp only [hoff]
          rfl
        generalize i.addr.toNat % 128 = off at *
        split
        next =>
          rw [hread (hok.mpr (by omega)), hreg]
          exact congrArg some hs.status.symm
        next =>
          rw [hread (hok.mpr (by omega)), hreg]
          exact congrArg some hs.reason.symm
        next =>
          rw [hread (hok.mpr (by omega)), hreg]
          exact congrArg some hs.cycles.symm
        next =>
          rw [hread (hok.mpr (by omega)), hreg]
          exact congrArg some hs.stalls.symm
        next =>
          rw [hread (hok.mpr (by omega)), hreg]
          exact congrArg some hs.reads.symm
        next =>
          rw [hread (hok.mpr (by omega)), hreg]
          exact congrArg some hs.writes.symm
        next h₁ h₂ h₃ h₄ h₅ h₆ =>
          have hno : off ≠ 0x4 ∧ off ≠ 0x8 ∧ off ≠ 0xc ∧ off ≠ 0x10 ∧ off ≠ 0x14 ∧ off ≠ 0x18 :=
            ⟨h₁, h₂, h₃, h₄, h₅, h₆⟩
          rw [hnone (by rw [hok]; omega)]
    · rw [if_pos (.inr hal), hnone (by rw [hok]; exact fun h => hal h.1)]
  · have herr : r.error i = true := by
      unfold GpuRtl.error
      rw [decide_eq_true hstrb]
      rfl
    rw [if_pos (.inl (mt hwidth.mp hstrb)), herr]
    rfl

end Access

/-- A cycle as the rest of the machine makes it. -/
structure GpuCycle where
  reset : Bool
  valid : Bool
  we : Bool
  addr : Word
  wdata : Word
  strb : BitVec 4
  hold : Bool
  window : Window
  ram : Bytes
  others : Bytes → Bytes

namespace GpuCycle

def port (c : GpuCycle) (r : GpuRtl) (fb : Bytes) : GpuPort :=
  { reset := c.reset, valid := c.valid, we := c.we, addr := c.addr, wdata := c.wdata, strb := c.strb
    memoryReady := !c.hold
    memoryRdata := (memoryByte c.ram fb r.memoryAddr).toBitVec
    windowStart := c.window.start
    windowEnd := c.window.stop }

def engine (c : GpuCycle) (e : GpuRtl × Bytes) : GpuRtl × Bytes :=
  let fb := c.others e.2
  (e.1.clock (c.port e.1 fb), PixelTransfer.drawn fb (e.1.transferred (c.port e.1 fb)))

def engineAnswer (c : GpuCycle) (r : GpuRtl) (fb : Bytes) : Option Word :=
  if r.error (c.port r fb) then none else some (if c.we then 0 else r.rdata (c.port r fb))

def offset (c : GpuCycle) : Nat := c.addr.toNat % 128

def width (c : GpuCycle) : Nat := (List.range 4).countP fun k => c.strb.getLsbD k

def stored (c : GpuCycle) (g : Gpu) : Option Gpu :=
  if c.width = 4 then g.store c.offset c.wdata else none

def deviceAnswer (c : GpuCycle) (g : Gpu) : Option Word :=
  if c.we then (c.stored g).map fun _ => 0 else g.load c.offset c.width

def accessed (c : GpuCycle) (g : Gpu) : Gpu :=
  if c.reset then Gpu.reset else if c.valid && c.we then (c.stored g).getD g else g

def device (c : GpuCycle) (s : Screen) : Screen :=
  Screen.tick c.ram c.window c.hold ⟨c.accessed s.gpu, c.others s.fb⟩

end GpuCycle

section Cycle

variable {r : GpuRtl} {g : Gpu} {c : GpuCycle} {w : Window} {fb : Bytes}

theorem GpuCycle.width_iff (c : GpuCycle) : c.width = 4 ↔ c.strb = 0xf := by
  have hall : ∀ strb : BitVec 4,
      ((List.range 4).countP fun k => strb.getLsbD k) = 4 ↔ strb = 0xf := by decide
  exact hall c.strb

theorem GpuCycle.stored_cases (hs : r.Shows g) (hv : c.valid = true) (hwe : c.we = true) :
    Stored r g (c.port r fb) (c.stored g) := by
  unfold stored
  by_cases hstrb : c.strb = 0xf
  · rw [if_pos (c.width_iff.mpr hstrb)]
    exact store_cases hs hv hwe hstrb
  · rw [if_neg (mt c.width_iff.mp hstrb)]
    have herr : r.error (c.port r fb) = true := by
      unfold GpuRtl.error
      rw [decide_eq_true (show (c.port r fb).strb ≠ 0xf from hstrb)]
      rfl
    refine .refused herr ?_ ?_
    · rw [← Bool.not_eq_true, resetWrite_iff hv hwe]
      exact fun h => hstrb h.1
    · rw [← Bool.not_eq_true, startWrite_iff hs hv hwe]
      exact fun h => hstrb h.1

theorem GpuCycle.answers (hs : r.Shows g) (hv : c.valid = true) :
    c.engineAnswer r fb = c.deviceAnswer g := by
  unfold engineAnswer deviceAnswer
  cases hwe : c.we with
  | false =>
    have hload := load_answer (i := c.port r fb) hs hwe c.width_iff
    exact hload.symm
  | true =>
    have hstored : Stored r g (c.port r fb) (c.stored g) := stored_cases hs hv hwe
    rw [if_pos rfl, if_pos rfl]
    generalize c.stored g = result at hstored
    cases hstored with
    | refused herr | param k herr | reset herr | start herr => rw [herr]; rfl

theorem GpuRtl.phase_p (r : GpuRtl) (i : GpuPort) : (r.phase i).p = r.p := by
  unfold phase setup scan transfer advance
  dsimp only
  split_ifs <;> rfl

theorem Follows.reset : Follows GpuRtl.cleared Gpu.reset :=
  .stopped ⟨fun _ => rfl, rfl, rfl, rfl, rfl, rfl, rfl, rfl, rfl⟩ rfl rfl (by rintro ⟨⟩)

theorem Follows.start (h : Follows r g) : Follows
    { r with
      state := 1, status := 1, reason := 0, cycles := 0, stalls := 0, reads := 0, writes := 0 }
    { g.command with commandTick := false } :=
  ⟨⟨h.shows.p, rfl, rfl, rfl, rfl, rfl, rfl, rfl, h.shows.pixel⟩, rfl, fun hn => absurd rfl hn,
    fun _ hp => absurd rfl hp⟩

theorem Follows.param (h : Follows r g) (hidle : g.status ≠ .busy) (k : Gp) (value : Word) : Follows
    { r with p := Function.update r.p k.slot value }
    { g with p := Function.update g.p k value } := by
  have hs := h.shows
  refine .stopped ⟨fun k' => ?_, hs.status, hs.reason, hs.state, hs.cycles, hs.stalls, hs.reads,
    hs.writes, hs.pixel⟩ h.command (h.idle hidle) hidle
  change Function.update r.p k.slot value k'.slot = Function.update g.p k value k'
  by_cases hk : k' = k
  · rw [hk, Function.update_self, Function.update_self]
  · rw [Function.update_of_ne hk, Function.update_of_ne fun hslot => hk (Gp.slot_inj hslot)]
    exact hs.p k'

inductive Accessed (r : GpuRtl) (g : Gpu) (i : GpuPort) : Gpu → Prop
  | cancel (tick : Bool) (hc : i.cancel = true) :
      Accessed r g i { Gpu.reset with commandTick := tick }
  | start (hc : i.cancel = false) (hstart : r.startWrite i = true) (hparam : r.writeParam i = r)
      (hidle : g.status ≠ .busy) : Accessed r g i g.command
  | param (k : Gp) (hc : i.cancel = false) (hstart : r.startWrite i = false)
      (hparam : r.writeParam i = { r with p := Function.update r.p k.slot i.wdata })
      (hidle : g.status ≠ .busy) :
      Accessed r g i { g with p := Function.update g.p k i.wdata }
  | none (hc : i.cancel = false) (hstart : r.startWrite i = false) (hparam : r.writeParam i = r) :
      Accessed r g i g

theorem GpuCycle.accessed_cases (hs : r.Shows g) : Accessed r g (c.port r fb) (c.accessed g) := by
  unfold accessed
  cases hr : c.reset with
  | true =>
    refine .cancel false ?_
    unfold GpuPort.cancel
    exact Bool.or_eq_true_iff.mpr (.inl hr)
  | false =>
    have hcancel : (c.port r fb).cancel = (c.port r fb).resetWrite := by
      unfold GpuPort.cancel
      rw [show (c.port r fb).reset = false from hr, Bool.false_or]
    rw [if_neg (by decide)]
    by_cases hstore : c.valid = true ∧ c.we = true
    · obtain ⟨hv, hwe⟩ := hstore
      have hstored : Stored r g (c.port r fb) (c.stored g) := stored_cases hs hv hwe
      rw [hv, hwe]
      rw [Bool.and_self, if_pos rfl]
      generalize c.stored g = result at hstored
      cases hstored with
      | refused herr hreset hstart =>
        refine .none (hcancel.trans hreset) hstart (if_neg ?_)
        rintro ⟨_, _, h, _⟩
        exact h herr
      | param k herr hreset hstart hsel hk hidle =>
        refine .param k (hcancel.trans hreset) hstart ?_ hidle
        rw [hk]
        exact if_pos ⟨hv, hwe, by rw [herr]; decide, hsel⟩
      | reset herr hreset => exact .cancel true (hcancel.trans hreset)
      | start herr hreset hstart hsel hidle =>
        refine .start (hcancel.trans hreset) hstart (if_neg ?_) hidle
        rintro ⟨_, _, _, h⟩
        rw [hsel] at h
        cases h
    · have hno : (c.valid && c.we) = false := by
        rw [← Bool.not_eq_true, Bool.and_eq_true]
        exact hstore
      have hport : ((c.port r fb).valid && (c.port r fb).we) = false := hno
      rw [hno, if_neg (by decide)]
      refine .none ?_ ?_ (if_neg fun h => hstore ⟨h.1, h.2.1⟩)
      · rw [hcancel]
        unfold GpuPort.resetWrite
        rw [hport]
        rfl
      · unfold GpuRtl.startWrite
        rw [hport]
        rfl

theorem Follows.cycle (h : Follows r g) (hsafe : g.Safe w) (c : GpuCycle) (fb : Bytes) :
    let s := Screen.tick c.ram c.window c.hold ⟨c.accessed g, fb⟩
    Follows (r.clock (c.port r fb)) s.gpu ∧
      r.transferred (c.port r fb) = (c.accessed g).transferred c.ram fb c.hold ∧
      s.fb = PixelTransfer.drawn fb (r.transferred (c.port r fb)) := by
  have hs := h.shows
  have hquiet (hidle : g.status ≠ .busy) : r.transferred (c.port r fb) = none := by
    have hstate : r.state = 0 := hs.state.trans (congrArg GpuPhase.code (h.idle hidle))
    exact transferred_none (.inl (by rw [hstate]; decide))
  have haccessed : Accessed r g (c.port r fb) (c.accessed g) := c.accessed_cases hs
  generalize c.accessed g = g' at haccessed ⊢
  cases haccessed with
  | cancel tick hc =>
    have hclock : r.clock (c.port r fb) = GpuRtl.cleared := if_pos hc
    rw [hclock, transferred_none (.inr hc)]
    cases tick with
    | false | true => exact ⟨.reset, rfl, rfl⟩
  | start hc hstart hparam hidle =>
    rw [hquiet hidle]
    refine ⟨?_, rfl, rfl⟩
    unfold GpuRtl.clock
    rw [hc, hstart, hparam]
    exact h.start
  | param k hc hstart hparam hidle =>
    have hbusy : r.busy = false := by
      rw [← Bool.not_eq_true, busy_iff hs]
      exact hidle
    have hclock : r.clock (c.port r fb) = { r with p := Function.update r.p k.slot c.wdata } := by
      unfold GpuRtl.clock
      rw [hc, hstart, hbusy]
      exact hparam
    have hruns : Gpu.runs { g with p := Function.update g.p k c.wdata } = false := by
      unfold Gpu.runs
      rw [decide_eq_false hidle, Bool.and_false]
    rw [hquiet hidle, hclock]
    have htick : Screen.tick c.ram c.window c.hold
        ⟨{ g with p := Function.update g.p k c.wdata }, fb⟩ =
          ⟨{ g with p := Function.update g.p k c.wdata }, fb⟩ := by
      unfold Screen.tick
      dsimp only
      rw [h.command, if_neg (by decide), if_pos hidle]
    refine ⟨?_, ?_, ?_⟩
    · rw [show (c.port r fb).wdata = c.wdata from rfl, htick]
      exact h.param hidle k c.wdata
    · unfold Gpu.transferred
      rw [show (c.port r fb).wdata = c.wdata from rfl, hruns]
      rfl
    · rw [show (c.port r fb).wdata = c.wdata from rfl, htick]
      rfl
  | none hc hstart hparam =>
    have htransferred : r.transferred (c.port r fb) = g.transferred c.ram fb c.hold ∧
        (Screen.tick c.ram c.window c.hold ⟨g, fb⟩).fb =
          PixelTransfer.drawn fb (g.transferred c.ram fb c.hold) :=
      h.transferred hsafe hc rfl rfl
    obtain ⟨hsame, hfb⟩ := htransferred
    refine ⟨?_, hsame, hfb.trans (by rw [hsame])⟩
    have hnot : ¬g.commandTick = true := by
      rw [h.command]
      decide
    unfold GpuRtl.clock Screen.tick
    rw [hc, hstart, hparam]
    dsimp only
    by_cases hb : g.status = .busy
    · rw [if_neg (by decide), if_neg (by decide), if_pos ((busy_iff hs).mpr hb), if_neg hnot,
        if_neg (not_not.mpr hb)]
      have hcounted : Follows { r with cycles := r.cycles + 1 } { g with cycles := g.cycles + 1 } :=
        ⟨⟨hs.p, hs.status, hs.reason, hs.state, congrArg (· + 1) hs.cycles, hs.stalls, hs.reads,
          hs.writes, hs.pixel⟩, h.command, h.idle, h.scan⟩
      have hp := GpuRtl.phase_p { r with cycles := r.cycles + 1 } (c.port r fb)
      have hin : g.phase = .setup ∨ Gpu.InBounds w { g with cycles := g.cycles + 1 } :=
        (hsafe hb).imp id fun hin => ⟨hin.valid, hin.blitting, hin.drawn, hin.read⟩
      have hphase : Follows (GpuRtl.phase { r with cycles := r.cycles + 1 } (c.port r fb))
          (Screen.phase c.ram c.window c.hold ⟨{ g with cycles := g.cycles + 1 }, fb⟩).gpu :=
        hcounted.phase hb hin rfl rfl rfl rfl
      generalize GpuRtl.phase { r with cycles := r.cycles + 1 } (c.port r fb) = r' at hp hphase ⊢
      rw [← hp]
      exact hphase
    · rw [if_neg (by decide), if_neg (by decide), if_neg (by rw [busy_iff hs]; exact hb),
        if_neg hnot, if_pos hb]
      exact h

structure InStep (e : GpuRtl × Bytes) (s : Screen) : Prop where
  follows : Follows e.1 s.gpu
  safe : ∃ w, s.gpu.Safe w
  fb : e.2 = s.fb

theorem GpuCycle.accessed_safe (h : g.Safe w) (c : GpuCycle) : (c.accessed g).Safe w := by
  unfold accessed
  split_ifs
  · rintro ⟨⟩
  · unfold stored
    split_ifs
    · cases hs : g.store c.offset c.wdata with
      | none => exact h
      | some g' => exact Gpu.store_safe hs w
    · exact h
  · exact h

theorem InStep.cycle (h : InStep e s) (c : GpuCycle) : InStep (c.engine e) (c.device s) := by
  obtain ⟨w, hw⟩ := h.safe
  obtain ⟨hfollows, _, hfb⟩ := h.follows.cycle hw c (c.others s.fb)
  unfold GpuCycle.engine
  rw [h.fb]
  exact ⟨hfollows, ⟨_, Screen.tick_safe (s := ⟨c.accessed s.gpu, c.others s.fb⟩)
    (c.accessed_safe hw) c.ram c.window c.hold⟩, hfb.symm⟩

theorem InStep.run (h : InStep e s) (cs : List GpuCycle) :
    InStep (cs.foldl (fun e c => c.engine e) e) (cs.foldl (fun s c => c.device s) s) := by
  induction cs generalizing e s with
  | nil => exact h
  | cons c cs ih => exact ih (h.cycle c)

/-- After any cycles from reset, the RTL's engine and the emulator's device agree. -/
theorem gpu_engines_agree (cs : List GpuCycle) (screen : Bytes) (c : GpuCycle) :
    let e := cs.foldl (fun e c => c.engine e) (GpuRtl.cleared, screen)
    let s := cs.foldl (fun s c => c.device s) ⟨Gpu.reset, screen⟩
    (e.1.Shows s.gpu ∧ e.2 = s.fb) ∧
      (c.valid = true → c.engineAnswer e.1 (c.others e.2) = c.deviceAnswer s.gpu) ∧
      e.1.transferred (c.port e.1 (c.others e.2)) =
        (c.accessed s.gpu).transferred c.ram (c.others s.fb) c.hold := by
  have hstart : InStep (GpuRtl.cleared, screen) ⟨Gpu.reset, screen⟩ :=
    ⟨.reset, ⟨⟨0, 0⟩, by rintro ⟨⟩⟩, rfl⟩
  have hrun := hstart.run cs
  obtain ⟨w, hw⟩ := hrun.safe
  obtain ⟨_, hsame, _⟩ := hrun.follows.cycle hw c (c.others _)
  refine ⟨⟨hrun.follows.shows, hrun.fb⟩, GpuCycle.answers hrun.follows.shows, ?_⟩
  rw [hrun.fb]
  exact hsame

end Cycle

end TinyProcessors
