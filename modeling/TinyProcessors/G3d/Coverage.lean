import TinyProcessors.G3d.Exact
import TinyProcessors.Gpu.Copies
import TinyProcessors.Lib.Checked
import TinyProcessors.Lib.Cover

namespace TinyProcessors.G3d
open Device (gradients doubleArea interpolate boxed)

def Vertex.point (v : Vertex) : Point := ⟨v.sx, v.sy⟩

def sample (q : Point) : Point := ⟨q.x * 16 + 8, q.y * 16 + 8⟩

section Checked

def edge32 (a b : Vertex) (px py : Int) : Option (Int × Int × Int) := do
  let dx ← checked 32 (b.sx - a.sx)
  let dy ← checked 32 (b.sy - a.sy)
  let down ← checked 32 (py - a.sy)
  let left ← checked 32 (dx * down)
  let across ← checked 32 (px - a.sx)
  let right ← checked 32 (dy * across)
  let e ← checked 32 (left - right)
  return (dx, dy, e)

def covers32 (a b : Vertex) (px py : Int) : Option Bool := do
  let (dx, dy, e) ← edge32 a b px py
  return 0 < e || (e = 0 && (dy < 0 || (dy = 0 && 0 < dx)))

def slope64 (d e d' e' area : Int) : Option Int := do
  let left ← checked 64 (d * e)
  let right ← checked 64 (d' * e')
  let n ← checked 64 (left - right)
  let n ← checked 64 (n * 2 ^ 16)
  return divSat n area

def gradient32 (v0 v1 v2 : Vertex) (area : Int) (k : Nat) : Option (Int × Int) := do
  let ex1 ← checked 32 (v1.sx - v0.sx)
  let ey1 ← checked 32 (v1.sy - v0.sy)
  let ex2 ← checked 32 (v2.sx - v0.sx)
  let ey2 ← checked 32 (v2.sy - v0.sy)
  let d1 ← checked 32 (v1.attribute k - v0.attribute k)
  let d2 ← checked 32 (v2.attribute k - v0.attribute k)
  let gx ← slope64 d1 ey2 d2 ey1 area
  let gy ← slope64 d2 ex1 d1 ex2 area
  return (gx, gy)

def attribute32 (v0 : Vertex) (g : Int × Int) (px py : Int) (k : Nat) : Option Int := do
  let across ← checked 32 (px - v0.sx)
  let left ← checked 64 (g.1 * across)
  let down ← checked 32 (py - v0.sy)
  let right ← checked 64 (g.2 * down)
  let s ← checked 64 (left + right)
  let step ← checked 32 (s >>> 16)
  let a ← checked 32 (v0.attribute k + step)
  return clamp a 0 (attributeMax k)

def scan32 (v0 v1 v2 : Vertex) (g : List (Int × Int)) (q : Point) :
    Option (Point × Option (List Int)) := do
  let px ← checked 32 (q.x * 16)
  let px ← checked 32 (px + 8)
  let py ← checked 32 (q.y * 16)
  let py ← checked 32 (py + 8)
  let first ← covers32 v0 v1 px py
  if !first then return (q, none)
  else
    let second ← covers32 v1 v2 px py
    if !second then return (q, none)
    else
      let third ← covers32 v2 v0 px py
      if !third then return (q, none)
      else
        let values ← (List.range 4).mapM fun k => attribute32 v0 (g.getD k (0, 0)) px py k
        return (q, some values)

def scanBox (v0 v1 v2 : Vertex) : List Point :=
  let left := min (min v0.sx v1.sx) v2.sx >>> 4
  let right := max (max v0.sx v1.sx) v2.sx >>> 4
  let top := min (min v0.sy v1.sy) v2.sy >>> 4
  let bottom := max (max v0.sy v1.sy) v2.sy >>> 4
  let left := if left < 0 then 0 else left
  let top := if top < 0 then 0 else top
  let right := if 319 < right then 319 else right
  let bottom := if 239 < bottom then 239 else bottom
  raster (interval left (right + 1)) (interval top (bottom + 1))

/-- `draw`, without overflow: what it finds at the pixels of the scan box. -/
def draw32 (v0 v1 v2 : Vertex) : Option (Option (List (Point × Option (List Int)))) := do
  let (_, _, area) ← edge32 v0 v1 v2.sx v2.sy
  if 0 ≤ area then return none
  else
    let area ← checked 32 (-area)
    let g ← (List.range 4).mapM (gradient32 v0 v2 v1 area)
    let scanned ← (scanBox v0 v2 v1).mapM (scan32 v0 v2 v1 g)
    return some scanned

def Canvas3d.foundAt (c : Canvas3d) (s : Point × Option (List Int)) : Canvas3d :=
  match s.2 with
  | none => c.tick
  | some values => c.tick.plot s.1.x s.1.y fun k => values.getD k 0

def Canvas3d.found (c : Canvas3d) : Option (List (Point × Option (List Int))) → Canvas3d
  | none => { c.tick with counts := { c.counts with culled := c.counts.culled + 1 } }
  | some scanned => scanned.foldl Canvas3d.foundAt
      { c.tick with counts := { c.counts with divides := c.counts.divides + 8 } }

end Checked

section Exact

variable {a b c d v0 v1 v2 : Vertex} {p q : Point}

def Vertex.OnBand (v : Vertex) : Prop :=
  (-7680 ≤ v.sx ∧ v.sx ≤ 12800) ∧ -5760 ≤ v.sy ∧ v.sy ≤ 9600

theorem Vertex.InBand.onBand {v : Vertex} (h : v.InBand) : v.OnBand := ⟨h.sx, h.sy⟩

theorem Vertex.OnBand.sub_le (ha : a.OnBand) (hb : b.OnBand) :
    |b.sx - a.sx| ≤ 20480 ∧ |b.sy - a.sy| ≤ 15360 := by
  unfold Vertex.OnBand at ha hb
  rw [abs_le, abs_le]
  omega

theorem Vertex.OnBand.sample_sub_le (ha : a.OnBand) (hq : onScreen q = true) :
    |(sample q).x - a.sx| ≤ 20480 ∧ |(sample q).y - a.sy| ≤ 15360 := by
  have hscreen := onScreen_iff.mp hq
  unfold Vertex.OnBand at ha
  unfold sample
  rw [abs_le, abs_le]
  dsimp only
  omega

theorem edge_le {dx dy x y : Int} (hdx : |dx| ≤ 20480) (hdy : |dy| ≤ 15360) (hx : |x| ≤ 20480)
    (hy : |y| ≤ 15360) :
    |dx * y| ≤ 314572800 ∧ |dy * x| ≤ 314572800 ∧ |dx * y - dy * x| ≤ 629145600 := by
  have hl := abs_mul_le hdx hy
  have hr := abs_mul_le hdy hx
  refine ⟨hl.trans (by norm_num), hr.trans (by norm_num), ?_⟩
  exact (abs_sub _ _).trans ((add_le_add hl hr).trans (by norm_num))

theorem edge32_eq (ha : a.OnBand) (hb : b.OnBand) (hx : |px - a.sx| ≤ 20480)
    (hy : |py - a.sy| ≤ 15360) : edge32 a b px py =
      some (b.sx - a.sx, b.sy - a.sy, (b.sx - a.sx) * (py - a.sy) - (b.sy - a.sy) * (px - a.sx)) := by
  obtain ⟨hdx, hdy⟩ := ha.sub_le hb
  obtain ⟨hl, hr, he⟩ := edge_le hdx hdy hx hy
  unfold edge32
  rw [checked_bind hdx (by norm_num), checked_bind hdy (by norm_num), checked_bind hy (by norm_num),
    checked_bind hl (by norm_num), checked_bind hx (by norm_num), checked_bind hr (by norm_num),
    checked_bind he (by norm_num)]
  rfl

theorem covers32_eq (ha : a.OnBand) (hb : b.OnBand) (hx : |px - a.sx| ≤ 20480)
    (hy : |py - a.sy| ≤ 15360) : covers32 a b px py = some (inside a b px py) := by
  unfold covers32
  rw [edge32_eq ha hb hx hy]
  rfl

theorem covers_eq (ha : a.OnBand) (hb : b.OnBand) (hx : |px - a.sx| ≤ 20480)
    (hy : |py - a.sy| ≤ 15360) : covers a b px py = inside a b px py := by
  obtain ⟨hdx, hdy⟩ := ha.sub_le hb
  obtain ⟨hl, hr, he⟩ := edge_le hdx hdy hx hy
  unfold covers inside
  simp only [i32_of_abs hdx (by norm_num), i32_of_abs hdy (by norm_num),
    i32_of_abs hx (by norm_num), i32_of_abs hy (by norm_num), i32_of_abs hl (by norm_num),
    i32_of_abs hr (by norm_num), i32_of_abs he (by norm_num)]

theorem Vertex.InBand.attribute_sub_le (ha : a.InBand) (hb : b.InBand) (k : Nat) :
    |b.attribute k - a.attribute k| ≤ 65535 := by
  have h₁ := ha.values k
  have h₂ := hb.values k
  have hmax : attributeMax k ≤ 65535 := by
    unfold attributeMax
    split
    · omega
    · omega
  rw [abs_le]
  omega

theorem slope_le {d e d' e' : Int} (hd : |d| ≤ 65535) (he : |e| ≤ 20480) (hd' : |d'| ≤ 65535)
    (he' : |e'| ≤ 20480) :
    |d * e| ≤ 1342156800 ∧ |d' * e'| ≤ 1342156800 ∧ |d * e - d' * e'| ≤ 2684313600 ∧
      |(d * e - d' * e') * 2 ^ 16| ≤ 175919176089600 := by
  have hl := abs_mul_le hd he
  have hr := abs_mul_le hd' he'
  have hsub : |d * e - d' * e'| ≤ 2684313600 :=
    (abs_sub _ _).trans ((add_le_add hl hr).trans (by norm_num))
  refine ⟨hl.trans (by norm_num), hr.trans (by norm_num), hsub, ?_⟩
  exact (abs_mul_le hsub (by norm_num : |(2 : Int) ^ 16| ≤ 65536)).trans (by norm_num)

theorem slope64_eq {d e d' e' : Int} (hd : |d| ≤ 65535) (he : |e| ≤ 20480) (hd' : |d'| ≤ 65535)
    (he' : |e'| ≤ 20480) (harea : 0 < area ∧ area < 2 ^ 31) :
    slope64 d e d' e' area = some (sat ((d * e - d' * e') * 65536) area) ∧
      divSat (shl64 (i64 (smul64 d e - smul64 d' e')) 16) area =
        sat ((d * e - d' * e') * 65536) area := by
  obtain ⟨hl, hr, hsub, hshift⟩ := slope_le hd he hd' he'
  obtain ⟨hlow, hhigh⟩ := abs_lt.mp (lt_of_le_of_lt hshift (by norm_num : (_ : Int) < 2 ^ 63))
  have hdiv : divSat ((d * e - d' * e') * 2 ^ 16) area = sat ((d * e - d' * e') * 65536) area :=
    divSat_eq ⟨hlow.le, hhigh⟩ harea.1 harea.2
  constructor
  · unfold slope64
    rw [checked_bind hl (by norm_num), checked_bind hr (by norm_num), checked_bind hsub (by norm_num),
      checked_bind hshift (by norm_num)]
    exact congrArg some hdiv
  · rw [smul64_eq (hd.trans (by norm_num)) (he.trans (by norm_num)),
      smul64_eq (hd'.trans (by norm_num)) (he'.trans (by norm_num)),
      i64_of_abs hsub (by norm_num), shl64_eq (hshift.trans (by norm_num)), hdiv]

def quotients (v0 v1 v2 : Vertex) (area : Int) (i : Nat) : Int := sat (gradients v0 v1 v2 i) area

structure Banded (v0 v1 v2 : Vertex) : Prop where
  v0 : v0.InBand
  v1 : v1.InBand
  v2 : v2.InBand

theorem Banded.swap (h : Banded v0 v1 v2) : Banded v0 v2 v1 := ⟨h.v0, h.v2, h.v1⟩

theorem Banded.area_le (h : Banded v0 v1 v2) : |doubleArea v0 v1 v2| ≤ 629145600 := by
  obtain ⟨hx₁, hy₁⟩ := h.v0.onBand.sub_le h.v1.onBand
  obtain ⟨hx₂, hy₂⟩ := h.v0.onBand.sub_le h.v2.onBand
  exact (edge_le hx₁ hy₁ hx₂ hy₂).2.2

theorem Banded.gradient32 (h : Banded v0 v1 v2) (harea : 0 < area ∧ area < 2 ^ 31) (k : Nat) :
    gradient32 v0 v1 v2 area k =
      some (quotients v0 v1 v2 area (2 * k), quotients v0 v1 v2 area (2 * k + 1)) := by
  obtain ⟨hx₁, hy₁⟩ := h.v0.onBand.sub_le h.v1.onBand
  obtain ⟨hx₂, hy₂⟩ := h.v0.onBand.sub_le h.v2.onBand
  have hd₁ := h.v0.attribute_sub_le h.v1 k
  have hd₂ := h.v0.attribute_sub_le h.v2 k
  have heven : 2 * k / 2 = k := by omega
  have hodd : (2 * k + 1) / 2 = k := by omega
  unfold G3d.gradient32
  rw [checked_bind hx₁ (by norm_num), checked_bind hy₁ (by norm_num),
    checked_bind hx₂ (by norm_num), checked_bind hy₂ (by norm_num),
    checked_bind hd₁ (by norm_num), checked_bind hd₂ (by norm_num)]
  rw [(slope64_eq hd₁ (hy₂.trans (by norm_num)) hd₂ (hy₁.trans (by norm_num)) harea).1,
    (slope64_eq hd₂ hx₁ hd₁ hx₂ harea).1]
  unfold quotients gradients
  simp only [heven, hodd, Option.bind_some, Nat.mul_mod_right, if_true, Nat.mul_add_mod_self_left,
    Nat.one_mod, one_ne_zero, if_false]
  rfl

theorem interpolation_le {gx gy x y base : Int} (hgx : |gx| ≤ 2 ^ 31) (hgy : |gy| ≤ 2 ^ 31)
    (hx : |x| ≤ 20480) (hy : |y| ≤ 15360) (hbase : 0 ≤ base ∧ base ≤ 65535) :
    |gx * x| ≤ 43980465111040 ∧ |gy * y| ≤ 32985348833280 ∧
      |gx * x + gy * y| ≤ 76965813944320 ∧ |(gx * x + gy * y) >>> 16| ≤ 1174405120 ∧
      |base + (gx * x + gy * y) >>> 16| ≤ 1174470655 := by
  have hl : |gx * x| ≤ 43980465111040 := (abs_mul_le hgx hx).trans (by norm_num)
  have hr : |gy * y| ≤ 32985348833280 := (abs_mul_le hgy hy).trans (by norm_num)
  have hsum : |gx * x + gy * y| ≤ 76965813944320 :=
    (abs_add_le _ _).trans ((add_le_add hl hr).trans (by norm_num))
  have hshift := shiftRight_eq (gx * x + gy * y) 16
  refine ⟨hl, hr, hsum, ?_⟩
  rw [Nat.cast_ofNat] at hshift
  rw [hshift]
  rw [abs_le] at hsum ⊢
  rw [abs_le]
  omega

theorem clamp_eq_interpolate (v0 : Vertex) (quot : Nat → Int) (px py : Int) (k : Nat) :
    clamp (v0.attribute k + (quot (2 * k) * (px - v0.sx) + quot (2 * k + 1) * (py - v0.sy)) >>> 16)
      0 (attributeMax k) = interpolate v0 quot px py k := rfl

theorem Vertex.InBand.attribute_le (h : v0.InBand) (k : Nat) :
    0 ≤ v0.attribute k ∧ v0.attribute k ≤ 65535 := by
  have hv := h.values k
  unfold attributeMax at hv
  split at hv
  · omega
  · omega

theorem attribute32_eq (h : v0.InBand) (hx : |px - v0.sx| ≤ 20480) (hy : |py - v0.sy| ≤ 15360)
    {quot : Nat → Int} (hquot : ∀ i, |quot i| ≤ 2 ^ 31) (k : Nat) :
    attribute32 v0 (quot (2 * k), quot (2 * k + 1)) px py k = some (interpolate v0 quot px py k) := by
  obtain ⟨hl, hr, hsum, hstep, ha⟩ := interpolation_le (hquot (2 * k)) (hquot (2 * k + 1)) hx hy
    (h.attribute_le k)
  unfold attribute32
  rw [checked_bind hx (by norm_num), checked_bind hl (by norm_num), checked_bind hy (by norm_num),
    checked_bind hr (by norm_num), checked_bind hsum (by norm_num), checked_bind hstep (by norm_num),
    checked_bind ha (by norm_num)]
  exact congrArg some (clamp_eq_interpolate v0 quot px py k)

theorem attribute_eq (h : v0.InBand) (hx : |px - v0.sx| ≤ 20480) (hy : |py - v0.sy| ≤ 15360)
    {quot : Nat → Int} (hquot : ∀ i, |quot i| ≤ 2 ^ 31) (k : Nat) :
    clamp (i32 (v0.attribute k + i32 (i64 (smul64 (quot (2 * k)) (i32 (px - v0.sx)) +
      smul64 (quot (2 * k + 1)) (i32 (py - v0.sy))) >>> 16))) 0 (attributeMax k) =
        interpolate v0 quot px py k := by
  obtain ⟨hl, hr, hsum, hstep, ha⟩ := interpolation_le (hquot (2 * k)) (hquot (2 * k + 1)) hx hy
    (h.attribute_le k)
  rw [i32_of_abs hx (by norm_num), i32_of_abs hy (by norm_num),
    smul64_eq (hquot _) (hx.trans (by norm_num)), smul64_eq (hquot _) (hy.trans (by norm_num)),
    i64_of_abs hsum (by norm_num), i32_of_abs hstep (by norm_num), i32_of_abs ha (by norm_num)]
  exact clamp_eq_interpolate v0 quot px py k

end Exact

section Scan

variable {v0 v1 v2 : Vertex} {q : Point}

def edgeTests (v0 v1 v2 : Vertex) (q : Point) : Bool :=
  inside v0 v1 (sample q).x (sample q).y && inside v1 v2 (sample q).x (sample q).y &&
    inside v2 v0 (sample q).x (sample q).y

def scanned (v0 v1 v2 : Vertex) (quot : Nat → Int) (q : Point) : Point × Option (List Int) :=
  (q, if edgeTests v0 v1 v2 q then
    some ((List.range 4).map (interpolate v0 quot (sample q).x (sample q).y)) else none)

def gradientsOf (quot : Nat → Int) : List (Int × Int) :=
  (List.range 4).map fun k => (quot (2 * k), quot (2 * k + 1))

theorem sample32 (hq : onScreen q = true) :
    checked 32 (q.x * 16) = some (q.x * 16) ∧ checked 32 (q.x * 16 + 8) = some (sample q).x ∧
      checked 32 (q.y * 16) = some (q.y * 16) ∧ checked 32 (q.y * 16 + 8) = some (sample q).y := by
  have hscreen := onScreen_iff.mp hq
  exact ⟨if_pos (by omega), if_pos (by omega), if_pos (by omega), if_pos (by omega)⟩

theorem Banded.scan32 (h : Banded v0 v1 v2) (hq : onScreen q = true) {quot : Nat → Int}
    (hquot : ∀ i, |quot i| ≤ 2 ^ 31) :
    scan32 v0 v1 v2 (gradientsOf quot) q = some (scanned v0 v1 v2 quot q) := by
  obtain ⟨hx, hx', hy, hy'⟩ := sample32 hq
  obtain ⟨hx₀, hy₀⟩ := h.v0.onBand.sample_sub_le hq
  obtain ⟨hx₁, hy₁⟩ := h.v1.onBand.sample_sub_le hq
  obtain ⟨hx₂, hy₂⟩ := h.v2.onBand.sample_sub_le hq
  have hvalues : (List.range 4).mapM (fun k => attribute32 v0 ((gradientsOf quot).getD k (0, 0))
      (sample q).x (sample q).y k) =
        some ((List.range 4).map (interpolate v0 quot (sample q).x (sample q).y)) := by
    refine mapM_some fun k hk => ?_
    have hget : (gradientsOf quot).getD k (0, 0) = (quot (2 * k), quot (2 * k + 1)) := by
      have hk' := List.mem_range.mp hk
      simp [gradientsOf, hk']
    rw [hget]
    exact attribute32_eq h.v0 hx₀ hy₀ hquot k
  unfold G3d.scan32 scanned edgeTests
  rw [hx, hy]
  simp only [Option.bind_eq_bind, Option.bind_some]
  rw [hx', hy']
  simp only [Option.bind_some]
  rw [covers32_eq h.v0.onBand h.v1.onBand hx₀ hy₀, covers32_eq h.v1.onBand h.v2.onBand hx₁ hy₁,
    covers32_eq h.v2.onBand h.v0.onBand hx₂ hy₂, hvalues]
  simp only [Option.bind_some]
  cases inside v0 v1 (sample q).x (sample q).y with
  | false => rfl
  | true =>
    cases inside v1 v2 (sample q).x (sample q).y with
    | false => rfl
    | true =>
      cases inside v2 v0 (sample q).x (sample q).y with
      | false => rfl
      | true => rfl

theorem Banded.scan (h : Banded v0 v1 v2) (hq : onScreen q = true) {quot : Nat → Int}
    (hquot : ∀ i, |quot i| ≤ 2 ^ 31) (canvas : Canvas3d) :
    canvas.scan v0 v1 v2 (fun k => quot (2 * k)) (fun k => quot (2 * k + 1)) q =
      canvas.foundAt (scanned v0 v1 v2 quot q) := by
  have hscreen := onScreen_iff.mp hq
  have hpx : i32 (q.x * 16 + 8) = (sample q).x := i32_eq (by omega)
  have hpy : i32 (q.y * 16 + 8) = (sample q).y := i32_eq (by omega)
  obtain ⟨hx₀, hy₀⟩ := h.v0.onBand.sample_sub_le hq
  obtain ⟨hx₁, hy₁⟩ := h.v1.onBand.sample_sub_le hq
  obtain ⟨hx₂, hy₂⟩ := h.v2.onBand.sample_sub_le hq
  unfold Canvas3d.scan Canvas3d.foundAt scanned edgeTests
  simp only [hpx, hpy, covers_eq h.v0.onBand h.v1.onBand hx₀ hy₀,
    covers_eq h.v1.onBand h.v2.onBand hx₁ hy₁, covers_eq h.v2.onBand h.v0.onBand hx₂ hy₂,
    attribute_eq h.v0 hx₀ hy₀ hquot]
  cases inside v0 v1 (sample q).x (sample q).y with
  | false => rfl
  | true =>
    cases inside v1 v2 (sample q).x (sample q).y with
    | false => rfl
    | true =>
      cases inside v2 v0 (sample q).x (sample q).y with
      | false => rfl
      | true => rfl

def drawn (v0 v1 v2 : Vertex) : Option (List (Point × Option (List Int))) :=
  if 0 ≤ doubleArea v0 v1 v2 then none
  else some ((scanBox v0 v2 v1).map
    (scanned v0 v2 v1 (quotients v0 v2 v1 (-doubleArea v0 v1 v2))))

theorem mem_scanBox : q ∈ scanBox v0 v1 v2 ↔ onScreen q = true ∧
    ((min (min v0.sx v1.sx) v2.sx / 16 ≤ q.x ∧ q.x ≤ max (max v0.sx v1.sx) v2.sx / 16) ∧
      min (min v0.sy v1.sy) v2.sy / 16 ≤ q.y ∧ q.y ≤ max (max v0.sy v1.sy) v2.sy / 16) := by
  have hshift (n : Int) : n >>> (4 : Int) = n / 16 := shiftRight_eq n 4
  unfold scanBox
  dsimp only
  rw [mem_raster, mem_interval, mem_interval, onScreen_iff, hshift, hshift, hshift, hshift]
  generalize min (min v0.sx v1.sx) v2.sx / 16 = left
  generalize max (max v0.sx v1.sx) v2.sx / 16 = right
  generalize min (min v0.sy v1.sy) v2.sy / 16 = top
  generalize max (max v0.sy v1.sy) v2.sy / 16 = bottom
  split
  all_goals split
  all_goals split
  all_goals split
  all_goals omega

theorem abs_quotients_le (v0 v1 v2 : Vertex) (area : Int) (i : Nat) :
    |quotients v0 v1 v2 area i| ≤ 2 ^ 31 := abs_sat_le_max _ _

theorem Banded.draw32 (h : Banded v0 v1 v2) : draw32 v0 v1 v2 = some (drawn v0 v1 v2) := by
  obtain ⟨hx, hy⟩ := h.v0.onBand.sub_le h.v2.onBand
  have harea := h.area_le
  unfold G3d.draw32 drawn
  rw [edge32_eq h.v0.onBand h.v1.onBand hx hy]
  simp only [Option.bind_eq_bind, Option.bind_some]
  change (if 0 ≤ doubleArea v0 v1 v2 then _ else _) = _
  by_cases hback : 0 ≤ doubleArea v0 v1 v2
  · rw [if_pos hback, if_pos hback]
    rfl
  · rw [if_neg hback, if_neg hback]
    have hneg : |-doubleArea v0 v1 v2| ≤ 629145600 := by rwa [abs_neg]
    rw [abs_le] at harea
    have hpos : 0 < -doubleArea v0 v1 v2 ∧ -doubleArea v0 v1 v2 < 2 ^ 31 := by omega
    have hgradients := mapM_some fun k (_ : k ∈ List.range 4) => h.swap.gradient32 hpos k
    have hscan := mapM_some fun q (hq : q ∈ scanBox v0 v2 v1) =>
      h.swap.scan32 (mem_scanBox.mp hq).1 (abs_quotients_le v0 v2 v1 (-doubleArea v0 v1 v2))
    change ((checked 32 (-doubleArea v0 v1 v2)).bind _) = _
    rw [checked_of_abs hneg (by norm_num), Option.bind_some, hgradients]
    simp only [Option.bind_some]
    change ((scanBox v0 v2 v1).mapM (G3d.scan32 v0 v2 v1
      (gradientsOf (quotients v0 v2 v1 (-doubleArea v0 v1 v2))))).bind _ = _
    rw [hscan]
    rfl

theorem Banded.slopes (h : Banded v0 v1 v2) (harea : 0 < area ∧ area < 2 ^ 31) (k : Nat) :
    divSat (shl64 (i64 (smul64 (i32 (v1.attribute k - v0.attribute k)) (i32 (v2.sy - v0.sy)) -
      smul64 (i32 (v2.attribute k - v0.attribute k)) (i32 (v1.sy - v0.sy)))) 16) area =
        quotients v0 v1 v2 area (2 * k) ∧
    divSat (shl64 (i64 (smul64 (i32 (v2.attribute k - v0.attribute k)) (i32 (v1.sx - v0.sx)) -
      smul64 (i32 (v1.attribute k - v0.attribute k)) (i32 (v2.sx - v0.sx)))) 16) area =
        quotients v0 v1 v2 area (2 * k + 1) := by
  obtain ⟨hx₁, hy₁⟩ := h.v0.onBand.sub_le h.v1.onBand
  obtain ⟨hx₂, hy₂⟩ := h.v0.onBand.sub_le h.v2.onBand
  have hd₁ := h.v0.attribute_sub_le h.v1 k
  have hd₂ := h.v0.attribute_sub_le h.v2 k
  have heven : 2 * k / 2 = k := by omega
  have hodd : (2 * k + 1) / 2 = k := by omega
  rw [i32_of_abs hx₁ (by norm_num), i32_of_abs hy₁ (by norm_num), i32_of_abs hx₂ (by norm_num),
    i32_of_abs hy₂ (by norm_num), i32_of_abs hd₁ (by norm_num), i32_of_abs hd₂ (by norm_num),
    (slope64_eq hd₁ (hy₂.trans (by norm_num)) hd₂ (hy₁.trans (by norm_num)) harea).2,
    (slope64_eq hd₂ hx₁ hd₁ hx₂ harea).2]
  unfold quotients gradients
  simp only [heven, hodd, Nat.mul_mod_right, if_true, Nat.mul_add_mod_self_left, Nat.one_mod,
    one_ne_zero, if_false, and_self]

theorem Banded.draw (h : Banded v0 v1 v2) (canvas : Canvas3d) :
    canvas.draw v0 v1 v2 = canvas.found (drawn v0 v1 v2) := by
  obtain ⟨hx₁, hy₁⟩ := h.v0.onBand.sub_le h.v1.onBand
  obtain ⟨hx₂, hy₂⟩ := h.v0.onBand.sub_le h.v2.onBand
  obtain ⟨hl, hr, he⟩ := edge_le hx₁ hy₁ hx₂ hy₂
  have harea : i32 (i32 (i32 (v1.sx - v0.sx) * i32 (v2.sy - v0.sy)) -
      i32 (i32 (v1.sy - v0.sy) * i32 (v2.sx - v0.sx))) = doubleArea v0 v1 v2 := by
    rw [i32_of_abs hx₁ (by norm_num), i32_of_abs hy₁ (by norm_num), i32_of_abs hx₂ (by norm_num),
      i32_of_abs hy₂ (by norm_num), i32_of_abs hl (by norm_num), i32_of_abs hr (by norm_num),
      i32_of_abs he (by norm_num)]
    rfl
  have hbound := h.area_le
  rw [abs_le] at hbound
  have hneg : i32 (-doubleArea v0 v1 v2) = -doubleArea v0 v1 v2 := i32_eq (by omega)
  unfold Canvas3d.draw drawn
  dsimp only
  rw [harea]
  by_cases hback : 0 ≤ doubleArea v0 v1 v2
  · rw [if_pos hback, if_pos hback]
    rfl
  · rw [if_neg hback, if_neg hback, hneg]
    have hpos : 0 < -doubleArea v0 v1 v2 ∧ -doubleArea v0 v1 v2 < 2 ^ 31 := by omega
    simp only [(h.swap.slopes hpos _).1, (h.swap.slopes hpos _).2]
    refine (foldl_raster (fun (c : Canvas3d) q => c.scan v0 v2 v1 _ _ q) _ _ _).trans ?_
    change (scanBox v0 v2 v1).foldl _ _ = _
    dsimp only [Canvas3d.found]
    rw [List.foldl_map]
    exact List.foldl_ext _ _ _ fun c q hq => h.swap.scan (mem_scanBox.mp hq).1
      (abs_quotients_le v0 v2 v1 (-doubleArea v0 v1 v2)) c

end Scan

section Pixels

variable {a b c d : Vertex} {q : Point}

/-- The pixels of the screen whose centers pass the tests of a triangle. -/
def coveredPixels (a b c : Vertex) : Set Point :=
  {q | onScreen q = true ∧ covers a c (q.x * 16 + 8) (q.y * 16 + 8) = true ∧
    covers c b (q.x * 16 + 8) (q.y * 16 + 8) = true ∧
    covers b a (q.x * 16 + 8) (q.y * 16 + 8) = true}

theorem inside_iff {s : Point} : inside a b s.x s.y = true ↔ Owns a.point b.point s := by
  unfold inside Owns cross Vertex.point
  simp only [Bool.or_eq_true, Bool.and_eq_true, decide_eq_true_eq]
  omega

theorem edgeTests_iff :
    edgeTests a b c q = true ↔ Encloses a.point b.point c.point (sample q) := by
  unfold edgeTests Encloses
  rw [Bool.and_eq_true, Bool.and_eq_true, inside_iff, inside_iff, inside_iff, and_assoc]

theorem doubleArea_eq (a b c : Vertex) : doubleArea a b c = cross a.point b.point c.point := rfl

theorem mem_coveredPixels (ha : a.OnBand) (hb : b.OnBand) (hc : c.OnBand) :
    q ∈ coveredPixels a b c ↔
      onScreen q = true ∧ Encloses a.point c.point b.point (sample q) := by
  refine and_congr_right fun hq => ?_
  obtain ⟨hxa, hya⟩ := ha.sample_sub_le hq
  obtain ⟨hxb, hyb⟩ := hb.sample_sub_le hq
  obtain ⟨hxc, hyc⟩ := hc.sample_sub_le hq
  unfold Encloses
  rw [← inside_iff, ← inside_iff, ← inside_iff, ← covers_eq ha hc hxa hya,
    ← covers_eq hc hb hxc hyc, ← covers_eq hb ha hxb hyb]
  rfl

theorem scanBox_of_edgeTests (hq : onScreen q = true) (h : edgeTests a b c q = true) :
    q ∈ scanBox a b c := by
  have hbox := (edgeTests_iff.mp h).in_box
  unfold Vertex.point sample at hbox
  dsimp only at hbox
  refine mem_scanBox.mpr ⟨hq, ?_⟩
  omega

def found (r : Option (List (Point × Option (List Int)))) : Set Point :=
  {q | ∃ l values, r = some l ∧ (q, some values) ∈ l}

theorem mem_found_drawn : q ∈ found (drawn a b c) ↔
    onScreen q = true ∧ Encloses a.point c.point b.point (sample q) := by
  rw [← edgeTests_iff]
  unfold found drawn
  by_cases hback : 0 ≤ doubleArea a b c
  · rw [if_pos hback]
    refine iff_of_false (by rintro ⟨l, values, h, _⟩; cases h) fun h => ?_
    have hpos := (edgeTests_iff.mp h.2).area_pos
    rw [cross_swap, ← doubleArea_eq] at hpos
    omega
  · rw [if_neg hback]
    constructor
    · rintro ⟨l, values, hl, hm⟩
      obtain rfl := Option.some.inj hl
      obtain ⟨q', hq', heq⟩ := List.mem_map.mp hm
      unfold scanned at heq
      split at heq
      next htests =>
        cases heq
        exact ⟨(mem_scanBox.mp hq').1, htests⟩
      next => cases heq
    · rintro ⟨hq, htests⟩
      exact ⟨_, _, rfl, List.mem_map.mpr
        ⟨q, scanBox_of_edgeTests hq htests, congrArg (q, ·) (if_pos htests)⟩⟩

theorem onBand_of_inTriangle (h : InTriangle a.point b.point c.point d.point) (ha : a.OnBand)
    (hb : b.OnBand) (hc : c.OnBand) : d.OnBand := by
  obtain ⟨u, v, w, hw, hsum, hx, hy⟩ := h
  exact ⟨mean_mem hw hsum hx ha.1 hb.1 hc.1, mean_mem hw hsum hy ha.2 hb.2 hc.2⟩

theorem coveredPixels_cycle (ha : a.OnBand) (hb : b.OnBand) (hc : c.OnBand) :
    coveredPixels b c a = coveredPixels a b c := by
  ext q
  rw [mem_coveredPixels hb hc ha, mem_coveredPixels ha hb hc]
  exact and_congr_right fun _ => ⟨fun h => h.cycle, fun h => h.cycle.cycle⟩

theorem coveredPixels_back (ha : a.OnBand) (hb : b.OnBand) (hc : c.OnBand)
    (hback : 0 ≤ doubleArea a b c) : coveredPixels a b c = ∅ := by
  refine Set.eq_empty_of_forall_notMem fun q hq => ?_
  have hpos := ((mem_coveredPixels ha hb hc).mp hq).2.area_pos
  rw [cross_swap, ← doubleArea_eq] at hpos
  omega

theorem coveredPixels_apart (ha : a.OnBand) (hb : b.OnBand) (hc : c.OnBand) (hd : d.OnBand) :
    Disjoint (coveredPixels a b c) (coveredPixels b a d) := by
  rw [Set.disjoint_left]
  intro q hq hq'
  have h := ((mem_coveredPixels ha hb hc).mp hq).2
  have h' := ((mem_coveredPixels hb ha hd).mp hq').2
  exact h.2.2.not_swap h'.2.2

theorem coveredPixels_opposite (ha : a.OnBand) (hb : b.OnBand) (hc : c.OnBand) (hd : d.OnBand)
    (hside : doubleArea a b c ≤ 0 ∧ 0 ≤ doubleArea a b d ∨
      0 ≤ doubleArea a b c ∧ doubleArea a b d ≤ 0) :
    Disjoint (coveredPixels a b c) (coveredPixels a b d) := by
  rcases hside with ⟨-, hback⟩ | ⟨hback, -⟩
  · rw [coveredPixels_back ha hb hd hback]
    exact Set.disjoint_empty _
  · rw [coveredPixels_back ha hb hc hback]
    exact Set.empty_disjoint _

def outerTests (a b c : Vertex) (q : Point) : Prop :=
  covers a c (q.x * 16 + 8) (q.y * 16 + 8) = true ∧
    covers c b (q.x * 16 + 8) (q.y * 16 + 8) = true

theorem covers_iff (ha : a.OnBand) (hb : b.OnBand) (hq : onScreen q = true) :
    covers a b (q.x * 16 + 8) (q.y * 16 + 8) = true ↔ Owns a.point b.point (sample q) := by
  obtain ⟨hx, hy⟩ := ha.sample_sub_le hq
  rw [← inside_iff, ← covers_eq ha hb hx hy]
  rfl

theorem covered_or (ha : a.OnBand) (hb : b.OnBand) (hne : a.point ≠ b.point)
    (hq : onScreen q = true) (h : outerTests a b c q) (h' : outerTests b a d q) :
    q ∈ coveredPixels a b c ∪ coveredPixels b a d := by
  rcases Owns.or_swap hne (sample q) with hab | hba
  · exact .inr ⟨hq, h'.1, h'.2, (covers_iff ha hb hq).mpr hab⟩
  · exact .inl ⟨hq, h.1, h.2, (covers_iff hb ha hq).mpr hba⟩

theorem outerTests_of_between (ha : a.OnBand) (hb : b.OnBand) (hc : c.OnBand)
    (hfront : doubleArea a b c < 0) (hq : onScreen q = true)
    (hs : Between a.point b.point (sample q)) : outerTests a b c q := by
  have hpos : 0 < cross b.point a.point c.point := by
    have hflip : cross b.point a.point c.point = -cross a.point b.point c.point := by
      unfold cross
      ring
    rw [hflip, ← doubleArea_eq]
    omega
  obtain ⟨hac, hcb⟩ := hs.symm.cross_pos hpos
  exact ⟨(covers_iff ha hc hq).mpr (.inl hac), (covers_iff hc hb hq).mpr (.inl hcb)⟩

theorem coveredPixels_split (ha : a.OnBand) (hb : b.OnBand) (hc : c.OnBand)
    (hfront : doubleArea a b c < 0) (hd : InTriangle a.point b.point c.point d.point) :
    coveredPixels a b c = coveredPixels a b d ∪ coveredPixels b c d ∪ coveredPixels c a d ∧
      Disjoint (coveredPixels a b d) (coveredPixels b c d) ∧
      Disjoint (coveredPixels b c d) (coveredPixels c a d) ∧
      Disjoint (coveredPixels c a d) (coveredPixels a b d) := by
  have hd' := onBand_of_inTriangle hd ha hb hc
  have hsplits : Splits a.point c.point b.point d.point := by
    refine hd.swap.splits ?_
    rw [cross_swap, ← doubleArea_eq]
    omega
  -- two of the three have the edge from their common corner to the point in opposite directions
  have hapart {a b c : Vertex} (ha : a.OnBand) (hb : b.OnBand) (hc : c.OnBand) :
      Disjoint (coveredPixels a b d) (coveredPixels b c d) := by
    rw [← coveredPixels_cycle ha hb hd', coveredPixels_cycle hd' hb hc]
    exact coveredPixels_apart hb hd' ha hc
  refine ⟨?_, hapart ha hb hc, hapart hb hc ha, hapart hc ha hb⟩
  ext q
  rw [Set.mem_union, Set.mem_union, mem_coveredPixels ha hb hc, mem_coveredPixels ha hb hd',
    mem_coveredPixels hb hc hd', mem_coveredPixels hc ha hd', hsplits.covers_iff]
  have hcycle {a b c s : Point} : Encloses a b c s ↔ Encloses b c a s :=
    ⟨fun h => h.cycle, fun h => h.cycle.cycle⟩
  rw [hcycle (a := a.point) (b := c.point), hcycle (a := c.point) (b := b.point),
    hcycle (a := b.point) (b := a.point)]
  tauto

end Pixels

/-- Triangles are drawn without overflow and share out their edges' pixels. -/
theorem g3d_triangles (a b c : Vertex) (ha : a.Guarded) (hb : b.Guarded) (hc : c.Guarded) :
    (∃ r, draw32 a b c = some r ∧ (∀ canvas : Canvas3d, canvas.draw a b c = canvas.found r) ∧
      found r = coveredPixels a b c) ∧
    (∀ q area, onScreen q = true → edgeTests a c b q = true →
      ((boxed a c b area).left ≤ q.x ∧ q.x ≤ (boxed a c b area).right) ∧
        (boxed a c b area).top ≤ q.y ∧ q.y ≤ (boxed a c b area).bottom) ∧
    (∀ q, q ∈ coveredPixels a b c ↔ onScreen q = true ∧ edgeTests a c b q = true) ∧
    coveredPixels b c a = coveredPixels a b c ∧
    (∀ d : Vertex, d.Guarded →
      (doubleArea a b c ≤ 0 ∧ 0 ≤ doubleArea a b d ∨
        0 ≤ doubleArea a b c ∧ doubleArea a b d ≤ 0) →
      Disjoint (coveredPixels a b c) (coveredPixels a b d) ∧
      Disjoint (coveredPixels a b c) (coveredPixels b a d) ∧
      (doubleArea a b c < 0 → doubleArea b a d < 0 → ∀ q, onScreen q = true →
        (outerTests a b c q ∧ outerTests b a d q ∨ Between a.point b.point (sample q)) →
        q ∈ coveredPixels a b c ∪ coveredPixels b a d)) ∧
    (doubleArea a b c < 0 → ∀ d : Vertex, InTriangle a.point b.point c.point d.point →
      coveredPixels a b c = coveredPixels a b d ∪ coveredPixels b c d ∪ coveredPixels c a d ∧
        Disjoint (coveredPixels a b d) (coveredPixels b c d) ∧
        Disjoint (coveredPixels b c d) (coveredPixels c a d) ∧
        Disjoint (coveredPixels c a d) (coveredPixels a b d)) := by
  have hband : Banded a b c := ⟨ha.inBand, hb.inBand, hc.inBand⟩
  have ha := ha.inBand.onBand
  have hb := hb.inBand.onBand
  have hc := hc.inBand.onBand
  refine ⟨⟨drawn a b c, hband.draw32, hband.draw, ?_⟩, fun q area hq htests => ?_, fun q => ?_,
    coveredPixels_cycle ha hb hc, fun d hd hside => ?_,
    fun hfront d hd => coveredPixels_split ha hb hc hfront hd⟩
  · ext q
    rw [mem_found_drawn, mem_coveredPixels ha hb hc]
  · have hbox := scanBox_of_edgeTests hq htests
    change q ∈ raster (interval (boxed a c b area).left ((boxed a c b area).right + 1))
      (interval (boxed a c b area).top ((boxed a c b area).bottom + 1)) at hbox
    rw [mem_raster, mem_interval, mem_interval] at hbox
    omega
  · rw [mem_coveredPixels ha hb hc, edgeTests_iff]
  · have hd := hd.inBand.onBand
    refine ⟨coveredPixels_opposite ha hb hc hd hside, coveredPixels_apart ha hb hc hd,
      fun hfront hfront' q hq h => ?_⟩
    have hne : a.point ≠ b.point := by
      intro heq
      rw [doubleArea_eq, heq] at hfront
      unfold cross at hfront
      simp at hfront
    rcases h with ⟨h, h'⟩ | hs
    · exact covered_or ha hb hne hq h h'
    · exact covered_or ha hb hne hq (outerTests_of_between ha hb hc hfront hq hs)
        (outerTests_of_between hb ha hd hfront' hq hs.symm)

def nearOutputs (x y : Word) : BitVec 3 → Word :=
  fun i => if i = 0 then x else if i = 1 then y else if i = 3 then 4096 else 0

def nearVertex (x y : Word) : Vertex := project (nearOutputs x y) ⟨0, 0, 0, 0, 0, 0, false⟩

theorem g3d_triangles_split :
    let a := nearVertex 0 0
    let b := nearVertex 4096 0
    let c := nearVertex 0 4096
    let d := nearVertex 1024 1024
    doubleArea a b c < 0 ∧ InTriangle a.point b.point c.point d.point ∧
      coveredPixels a b c = coveredPixels a b d ∪ coveredPixels b c d ∪ coveredPixels c a d := by
  intro a b c d
  have hguarded {x y : Word} (h : (nearVertex x y).valid = true) : (nearVertex x y).Guarded :=
    ⟨_, _, rfl, h⟩
  have hfront : doubleArea a b c < 0 := by decide
  have ha : a.point = ⟨2560, 1920⟩ := by decide
  have hb : b.point = ⟨5120, 1920⟩ := by decide
  have hc : c.point = ⟨2560, 0⟩ := by decide
  have hd : d.point = ⟨3200, 1440⟩ := by decide
  have hin : InTriangle a.point b.point c.point d.point := by
    rw [ha, hb, hc, hd]
    exact ⟨1 / 2, 1 / 4, 1 / 4, by norm_num, by norm_num, by norm_num, by norm_num⟩
  have hall := g3d_triangles a b c (hguarded (by decide)) (hguarded (by decide +kernel))
    (hguarded (by decide))
  exact ⟨hfront, hin, (hall.2.2.2.2.2 hfront d hin).1⟩

end TinyProcessors.G3d
