import TinyProcessors.Gpu.Device

namespace TinyProcessors

structure Canvas where
  fb : Bytes
  drawn : List Nat

/-- What `gpu_reference` is given to blit from. -/
inductive Source
  | framebuffer
  | memory (bytes : Bytes)

def Source.read (s : Source) (fb : Bytes) (i : Nat) : UInt8 :=
  match s with
  | .framebuffer => fb i
  | .memory bytes => bytes i

/-- The source that the checks give it: the framebuffer, or RAM from SRC on. -/
def gpuSource (ram : Bytes) (p : Gp → Word) : Source :=
  if p .src = fbAddress then .framebuffer
  else .memory (ram.window ((p .src).toNat - 0x80000000))

namespace Canvas

def store (c : Canvas) (i : Nat) (value : UInt8) : Canvas :=
  ⟨Function.update c.fb i value, c.drawn ++ [i]⟩

def storeWord (c : Canvas) (i : Nat) (word : Word) : Canvas :=
  (((c.store i (wordByte word 0)).store (i + 1) (wordByte word 1)).store (i + 2)
    (wordByte word 2)).store (i + 3) (wordByte word 3)

/-- Bytes up to the first word boundary, the framebuffer being at `base`. -/
def fillHead (base : Nat) (color : UInt8) : (count p : Nat) → Canvas → Canvas × Nat × Nat
  | 0, p, c => (c, p, 0)
  | count + 1, p, c =>
    if (base + p) % 4 ≠ 0 then fillHead base color count (p + 1) (c.store p color)
    else (c, p, count + 1)

def fillWords (word : Word) : (count p : Nat) → Canvas → Canvas × Nat × Nat
  | count + 4, p, c => fillWords word count (p + 4) (c.storeWord p word)
  | count, p, c => (c, p, count)

def fillTail (color : UInt8) : (count p : Nat) → Canvas → Canvas
  | 0, _, c => c
  | count + 1, p, c => fillTail color count (p + 1) (c.store p color)

def colorWord (color : UInt8) : Word :=
  let w := BitVec.ofNat 32 color.toNat
  w ||| (w <<< 8) ||| (w <<< 16) ||| (w <<< 24)

def fillSpan (base p count : Nat) (color : UInt8) (c : Canvas) : Canvas :=
  let (c, p, count) := fillHead base color count p c
  let (c, p, count) := fillWords (colorWord color) count p c
  fillTail color count p c

/-- `gfx_fill_rect` on a surface of the framebuffer's size. -/
def fillRect (base : Nat) (x y w h : Int) (color : UInt8) (c : Canvas) : Canvas :=
  let x1 := min 320 (x + w)
  let y1 := min 240 (y + h)
  let x := max 0 x
  let y := max 0 y
  if x1 ≤ x ∨ y1 ≤ y then c
  else
    let row := y.toNat * 320 + x.toNat
    (List.range (y1 - y).toNat).foldl
      (fun c i => c.fillSpan base (row + 320 * i) (x1 - x).toNat color) c

def pixel (c : Canvas) (q : Point) (color : UInt8) : Canvas :=
  if onScreen q then c.store (pixelAt q) color else c

/-- The loop of a line; `none` when it is cut off. -/
def lineLoop (color : UInt8) (goal : Point) (dx dy sy : Int) :
    (rounds : Nat) → Point → Int → Canvas → Option Canvas
  | 0, _, _, _ => none
  | rounds + 1, q, err, c =>
    let c := c.pixel q color
    if q = goal then some c
    else
      let e2 := 2 * err
      let (err, x) := if -dy ≤ e2 then (err - dy, q.x + 1) else (err, q.x)
      let (err, y) := if e2 ≤ dx then (err + dx, q.y + sy) else (err, q.y)
      lineLoop color goal dx dy sy rounds ⟨x, y⟩ err c

def line (a b : Point) (color : UInt8) (c : Canvas) : Option Canvas :=
  let (a, b) := if b.x < a.x ∨ (a.x = b.x ∧ b.y < a.y) then (b, a) else (a, b)
  let dx := b.x - a.x
  let dy := b.y - a.y
  let sy := if dy < 0 then -1 else 1
  let dy := if dy < 0 then -dy else dy
  lineLoop color b dx dy sy (dx + dy + 1).toNat a (dx - dy) c

def triangle (a b c : Point) (color : UInt8) (canvas : Canvas) : Canvas :=
  let area := (b.x - a.x) * (c.y - a.y) - (b.y - a.y) * (c.x - a.x)
  if area = 0 then canvas
  else
    let (b, c) := if area < 0 then (c, b) else (b, c)
    let left := max 0 (min (min a.x b.x) c.x)
    let right := min 320 (max (max a.x b.x) c.x)
    let top := max 0 (min (min a.y b.y) c.y)
    let bottom := min 240 (max (max a.y b.y) c.y)
    (interval top bottom).foldl (fun canvas y =>
      (interval left right).foldl (fun canvas x =>
        let q := ⟨x, y⟩
        if inside a b q && inside b c q && inside c a q then canvas.pixel q color else canvas)
        canvas) canvas

/-- The body of the loops of a blit, or of a command that is none. -/
def blitPixel (source : Source) (p : Gp → Word) (color : UInt8) (reverse : Bool) (i j : Int)
    (c : Canvas) : Canvas :=
  let xx := if reverse then Gp.w.int p - 1 - i else i
  let yy := if reverse then Gp.h.int p - 1 - j else j
  let q : Point := ⟨Gp.x0.int p + xx, Gp.y0.int p + yy⟩
  if q.x < 0 ∨ 320 ≤ q.x ∨ q.y < 0 ∨ 240 ≤ q.y then c
  else if p .op = gpuBlit then
    let u := Gp.sx.int p + xx
    let v := Gp.sy.int p + yy
    if u < 0 ∨ v < 0 ∨ Gp.sw.int p ≤ u ∨ Gp.sh.int p ≤ v then c
    else c.pixel q (source.read c.fb (wrap32 (v * (p .stride).toNat + u)))
  else c.pixel q color

def blit (source : Source) (p : Gp → Word) (color : UInt8) (c : Canvas) : Canvas :=
  let reverse := p .op = gpuBlit ∧ p .src = fbAddress ∧
    Gp.sy.int p * 320 + Gp.sx.int p < Gp.y0.int p * 320 + Gp.x0.int p
  (interval 0 (Gp.h.int p)).foldl (fun c j =>
    (interval 0 (Gp.w.int p)).foldl (fun c i => c.blitPixel source p color reverse i j) c) c

end Canvas

/-- `gpu_reference` on a framebuffer at `base`; `none` when its loop is cut off. -/
def gpuReference (base : Nat) (source : Source) (p : Gp → Word) (fb : Bytes) : Option Canvas :=
  let c : Canvas := ⟨fb, []⟩
  let color := UInt8.ofNat (p .color).toNat
  let corner0 : Point := ⟨Gp.x0.int p, Gp.y0.int p⟩
  let corner1 : Point := ⟨Gp.x1.int p, Gp.y1.int p⟩
  let corner2 : Point := ⟨Gp.x2.int p, Gp.y2.int p⟩
  if p .op = gpuFill then
    some (c.fillRect base corner0.x corner0.y (Gp.w.int p) (Gp.h.int p) color)
  else if p .op = gpuLine then c.line corner0 corner1 color
  else if p .op = gpuTriangle then some (c.triangle corner0 corner1 corner2 color)
  else some (c.blit source p color)

end TinyProcessors
