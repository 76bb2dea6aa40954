import TinyProcessors.G3d.Device
import TinyProcessors.Lib.Raster

namespace TinyProcessors.G3d

/-- A value as `int32_t`. -/
def i32 (n : Int) : Int := n.bmod (2 ^ 32)

/-- A value as `int64_t`. -/
def i64 (n : Int) : Int := n.bmod (2 ^ 64)

/-- A value as `uint32_t`. -/
def asU32 (n : Int) : Nat := (n % 2 ^ 32).toNat

/-- A value as `uint64_t`. -/
def asU64 (n : Int) : Nat := (n % 2 ^ 64).toNat

/-- `smul64`: a product from 16-bit halves. -/
def smul64 (a b : Int) : Int :=
  let ua := if a < 0 then asU32 (0 - a) else asU32 a
  let ub := if b < 0 then asU32 (0 - b) else asU32 b
  let al := ua % 2 ^ 16
  let ah := ua / 2 ^ 16
  let bl := ub % 2 ^ 16
  let bh := ub / 2 ^ 16
  let p : Nat := (al * bl % 2 ^ 32 + al * bh % 2 ^ 32 * 2 ^ 16 + ah * bl % 2 ^ 32 * 2 ^ 16 +
    ah * bh % 2 ^ 32 * 2 ^ 32) % 2 ^ 64
  if decide (a < 0) ≠ decide (b < 0) then i64 (0 - p) else i64 p

def shl64 (v : Int) (s : Nat) : Int := i64 (v * 2 ^ s)

/-- The loop of `g3d_div_sat`, from bit `bits - 1` of the magnitude down. -/
def divLoop (mag d : Nat) : (bits rem q : Nat) → Nat
  | 0, _, q => q
  | bits + 1, rem, q =>
    let rem := (2 * rem + mag / 2 ^ bits % 2) % 2 ^ 64
    let q := 2 * q % 2 ^ 32
    if d ≤ rem then divLoop mag d bits (rem - d) (q + 1) else divLoop mag d bits rem q

/-- `g3d_div_sat`. -/
def divSat (n d : Int) : Int :=
  let mag := if n < 0 then asU64 (0 - n) else asU64 n
  if asU32 d ≤ mag / 2 ^ 31 then if n < 0 then -2 ^ 31 else 2 ^ 31 - 1
  else
    let q := divLoop mag (asU32 d) 32 (mag / 2 ^ 32) 0
    if n < 0 then i32 (0 - q) else i32 q

def clamp (v lo hi : Int) : Int := if v < lo then lo else if hi < v then hi else v

/-- `project`: the vertex of some outputs, where an invalid one keeps what was there. -/
def project (o : BitVec 3 → Word) (v : Vertex) : Vertex :=
  let x := (o 0).toInt
  let y := (o 1).toInt
  let z := (o 2).toInt
  let w := (o 3).toInt
  let guard := shl64 w 2
  let valid := wNear ≤ w && x ≤ guard && -x ≤ guard && y ≤ guard && -y ≤ guard && 0 ≤ z && z ≤ w
  if !valid then { v with valid := false }
  else
    { sx := i32 (2560 + divSat (smul64 x 2560) w)
      sy := i32 (1920 - divSat (smul64 y 1920) w)
      z := divSat (smul64 z 65535) w
      r := clamp ((o 4).toInt >>> 16) 0 255
      g := clamp ((o 5).toInt >>> 16) 0 255
      b := clamp ((o 6).toInt >>> 16) 0 255
      valid := true }

/-- The reference's framebuffer and depth buffer, with the counters. -/
structure Canvas3d where
  fb : Bytes
  zbuf : Nat → UInt16
  counts : Counts
  cycles : Word

def covers (a b : Vertex) (px py : Int) : Bool :=
  let dx := i32 (b.sx - a.sx)
  let dy := i32 (b.sy - a.sy)
  let e := i32 (i32 (dx * i32 (py - a.sy)) - i32 (dy * i32 (px - a.sx)))
  0 < e || (e = 0 && (dy < 0 || (dy = 0 && 0 < dx)))

namespace Canvas3d

def tick (c : Canvas3d) : Canvas3d := { c with cycles := c.cycles + 1 }

def plot (c : Canvas3d) (x y : Int) (at_ : Nat → Int) : Canvas3d :=
  let i := (y * 320 + x).toNat
  if at_ 0 < (c.zbuf i).toNat then
    { c with
      zbuf := Function.update c.zbuf i (UInt16.ofNat (at_ 0).toNat)
      fb := Function.update c.fb i (dither x y (at_ 1) (at_ 2) (at_ 3))
      counts := { c.counts with
        pixels := c.counts.pixels + 1
        transfers := c.counts.transfers + 1 + 2 } }
  else
    { c with counts := { c.counts with
      zfail := c.counts.zfail + 1
      transfers := c.counts.transfers + 1 } }

/-- The body of the loops of `draw`. -/
def scan (v0 v1 v2 : Vertex) (gx gy : Nat → Int) (c : Canvas3d) (q : Point) : Canvas3d :=
  let px := i32 (q.x * 16 + 8)
  let py := i32 (q.y * 16 + 8)
  let c := c.tick
  if !covers v0 v1 px py || !covers v1 v2 px py || !covers v2 v0 px py then c
  else
    c.plot q.x q.y fun k =>
      let s := i64 (smul64 (gx k) (i32 (px - v0.sx)) + smul64 (gy k) (i32 (py - v0.sy)))
      clamp (i32 (v0.attribute k + i32 (s >>> 16))) 0 (attributeMax k)

def draw (v0 v1 v2 : Vertex) (c : Canvas3d) : Canvas3d :=
  let c := c.tick
  let area := i32 (i32 (i32 (v1.sx - v0.sx) * i32 (v2.sy - v0.sy)) -
    i32 (i32 (v1.sy - v0.sy) * i32 (v2.sx - v0.sx)))
  if 0 ≤ area then { c with counts := { c.counts with culled := c.counts.culled + 1 } }
  else
    let (v1, v2, area) := (v2, v1, i32 (-area))
    let ex1 := i32 (v1.sx - v0.sx)
    let ey1 := i32 (v1.sy - v0.sy)
    let ex2 := i32 (v2.sx - v0.sx)
    let ey2 := i32 (v2.sy - v0.sy)
    let d1 (k : Nat) := i32 (v1.attribute k - v0.attribute k)
    let d2 (k : Nat) := i32 (v2.attribute k - v0.attribute k)
    let gx (k : Nat) := divSat (shl64 (i64 (smul64 (d1 k) ey2 - smul64 (d2 k) ey1)) 16) area
    let gy (k : Nat) := divSat (shl64 (i64 (smul64 (d2 k) ex1 - smul64 (d1 k) ex2)) 16) area
    let c := { c with counts := { c.counts with divides := c.counts.divides + 8 } }
    let left := min (min v0.sx v1.sx) v2.sx >>> 4
    let right := max (max v0.sx v1.sx) v2.sx >>> 4
    let top := min (min v0.sy v1.sy) v2.sy >>> 4
    let bottom := max (max v0.sy v1.sy) v2.sy >>> 4
    let left := if left < 0 then 0 else left
    let top := if top < 0 then 0 else top
    let right := if 319 < right then 319 else right
    let bottom := if 239 < bottom then 239 else bottom
    (interval top (bottom + 1)).foldl (fun c y =>
      (interval left (right + 1)).foldl (fun c x => c.scan v0 v1 v2 gx gy ⟨x, y⟩) c) c

end Canvas3d

end TinyProcessors.G3d
