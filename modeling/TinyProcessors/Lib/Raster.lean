import Mathlib

namespace TinyProcessors

@[ext] structure Point where
  x : Int
  y : Int
  deriving DecidableEq

/-- `n` coordinates from `first` on, `step` apart. -/
def sweep (first step : Int) : (n : Nat) → List Int
  | 0 => []
  | n + 1 => first :: sweep (first + step) step n

/-- The coordinates from `a` up to `b`, `b` not included. -/
def interval (a b : Int) : List Int := sweep a 1 (b - a).toNat

def raster (xs ys : List Int) : List Point := ys.flatMap fun y => xs.map fun x => ⟨x, y⟩

theorem sweep_last (first step : Int) (n : Nat) :
    sweep first step (n + 1) = sweep first step n ++ [first + step * n] := by
  induction n generalizing first with
  | zero => simp [sweep]
  | succ n ih =>
    change first :: sweep (first + step) step (n + 1) = first :: (sweep (first + step) step n ++ _)
    rw [ih]
    congr 3
    push_cast
    ring

theorem sweep_length (first step : Int) (n : Nat) : (sweep first step n).length = n := by
  induction n generalizing first with
  | zero => rfl
  | succ n ih => exact congrArg Nat.succ (ih _)

theorem reverse_sweep (first : Int) (n : Nat) :
    (sweep first 1 n).reverse = sweep (first + n - 1) (-1) n := by
  induction n with
  | zero => rfl
  | succ n ih =>
    rw [sweep_last, List.reverse_append, ih]
    change (first + 1 * n) :: sweep (first + n - 1) (-1) n = _ :: sweep _ (-1) n
    congr 1
    · push_cast
      ring
    · congr 1
      push_cast
      ring

theorem interval_of_le (h : b ≤ a) : interval a b = [] := by
  unfold interval
  rw [Int.toNat_of_nonpos (by omega)]
  rfl

theorem interval_cons (h : a < b) : interval a b = a :: interval (a + 1) b := by
  unfold interval
  obtain ⟨n, hn⟩ : ∃ n : Nat, b - a = n + 1 := ⟨(b - a - 1).toNat, by omega⟩
  rw [show (b - a).toNat = n + 1 by omega, show (b - (a + 1)).toNat = n by omega]
  rfl

theorem interval_length (a b : Int) : (interval a b).length = (b - a).toNat := sweep_length _ _ _

theorem interval_induction {motive : Int → Prop} (b : Int) (nil : ∀ a, b ≤ a → motive a)
    (cons : ∀ a, a < b → motive (a + 1) → motive a) (a : Int) : motive a := by
  generalize hn : (b - a).toNat = n
  induction n generalizing a with
  | zero => exact nil a (by omega)
  | succ n ih => exact cons a (by omega) (ih (a + 1) (by omega))

theorem mem_interval : x ∈ interval a b ↔ a ≤ x ∧ x < b := by
  induction a using interval_induction b with
  | nil a h =>
    rw [interval_of_le h]
    constructor
    · exact fun hx => absurd hx List.not_mem_nil
    · omega
  | cons a h ih =>
    rw [interval_cons h, List.mem_cons, ih]
    omega

theorem interval_nodup (a b : Int) : (interval a b).Nodup := by
  induction a using interval_induction b with
  | nil a h =>
    rw [interval_of_le h]
    exact List.nodup_nil
  | cons a h ih =>
    rw [interval_cons h, List.nodup_cons, mem_interval]
    exact ⟨by omega, ih⟩

theorem interval_pairwise (a b : Int) : (interval a b).Pairwise (· < ·) := by
  induction a using interval_induction b with
  | nil a h =>
    rw [interval_of_le h]
    exact .nil
  | cons a h ih =>
    rw [interval_cons h]
    exact .cons (fun x hx => by have := mem_interval.mp hx; omega) ih

theorem filter_interval (a b lo hi : Int) :
    (interval a b).filter (fun x => lo ≤ x && x < hi) = interval (max a lo) (min b hi) := by
  induction a using interval_induction b with
  | nil a h => rw [interval_of_le h, interval_of_le (by omega), List.filter_nil]
  | cons a h ih =>
    rw [interval_cons h, List.filter_cons, ih]
    by_cases hl : lo ≤ a
    · by_cases hh : a < hi
      · have hmax : max (a + 1) lo = a + 1 := by omega
        simp only [hl, hh, decide_true, Bool.and_self, if_true, hmax]
        rw [show max a lo = a by omega, interval_cons (show a < min b hi by omega)]
      · simp only [hl, hh, decide_true, decide_false, Bool.and_false, Bool.false_eq_true, if_false]
        rw [interval_of_le (by omega), interval_of_le (by omega)]
    · simp only [hl, decide_false, Bool.false_and, Bool.false_eq_true, if_false]
      rw [show max (a + 1) lo = max a lo by omega]

theorem map_interval (a b d : Int) : (interval a b).map (d + ·) = interval (d + a) (d + b) := by
  induction a using interval_induction b with
  | nil a h => rw [interval_of_le h, interval_of_le (by omega), List.map_nil]
  | cons a h ih =>
    rw [interval_cons h, interval_cons (show d + a < d + b by omega), List.map_cons, ih,
      Int.add_assoc]

theorem reverse_interval (a b : Int) :
    (interval a b).reverse = sweep (b - 1) (-1) (b - a).toNat := by
  by_cases h : a < b
  · unfold interval
    rw [reverse_sweep]
    congr 1
    omega
  · rw [interval_of_le (by omega), Int.toNat_of_nonpos (by omega)]
    rfl

theorem map_sweep_sub (e first step : Int) (n : Nat) :
    (sweep first step n).map (e - ·) = sweep (e - first) (-step) n := by
  induction n generalizing first with
  | zero => rfl
  | succ n ih =>
    refine congrArg (_ :: ·) ((ih (first + step)).trans ?_)
    congr 1
    ring

theorem map_interval_mirror (a n : Int) :
    (interval 0 n).map (fun i => a + (n - 1 - i)) = (interval a (a + n)).reverse := by
  rw [reverse_interval]
  have hsub : (fun i => a + (n - 1 - i)) = fun i => a + n - 1 - i := by
    funext i
    ring
  rw [hsub]
  unfold interval
  rw [map_sweep_sub]
  congr 1
  · ring
  · congr 1
    ring

theorem sweep_interval {lo hi step : Int} (h : lo < hi) (hs : step = 1 ∨ step = -1) :
    ∃ n : Nat, (if 0 < step then lo else hi - 1) + step * n = (if 0 < step then hi - 1 else lo) ∧
      sweep (if 0 < step then lo else hi - 1) step (n + 1) =
        if step = -1 then (interval lo hi).reverse else interval lo hi := by
  obtain ⟨n, hn⟩ : ∃ n : Nat, hi - lo = n + 1 := ⟨(hi - lo - 1).toNat, by omega⟩
  have hcount : (hi - lo).toNat = n + 1 := by omega
  refine ⟨n, ?_⟩
  rcases hs with rfl | rfl
  · rw [if_pos (by omega), if_pos (by omega), if_neg (by omega)]
    unfold interval
    rw [hcount]
    exact ⟨by omega, rfl⟩
  · rw [if_neg (by omega), if_neg (by omega), if_pos rfl, reverse_interval, hcount]
    exact ⟨by omega, rfl⟩

theorem raster_cons (xs ys : List Int) (y : Int) :
    raster xs (y :: ys) = (xs.map fun x => ⟨x, y⟩) ++ raster xs ys := rfl

theorem raster_nil_left (ys : List Int) : raster [] ys = [] := by
  induction ys with
  | nil => rfl
  | cons y ys ih => exact ih

theorem mem_raster : q ∈ raster xs ys ↔ q.x ∈ xs ∧ q.y ∈ ys := by
  unfold raster
  rw [List.mem_flatMap]
  constructor
  · rintro ⟨y, hy, hq⟩
    obtain ⟨x, hx, rfl⟩ := List.mem_map.mp hq
    exact ⟨hx, hy⟩
  · exact fun h => ⟨q.y, h.2, List.mem_map.mpr ⟨q.x, h.1, rfl⟩⟩

theorem raster_nodup (hx : xs.Nodup) (hy : ys.Nodup) : (raster xs ys).Nodup := by
  induction ys with
  | nil => exact List.nodup_nil
  | cons y ys ih =>
    rw [List.nodup_cons] at hy
    rw [raster_cons, List.nodup_append]
    refine ⟨hx.map fun a b h => congrArg Point.x h, ih hy.2, ?_⟩
    rintro q hq q' hq' rfl
    obtain ⟨x, _, rfl⟩ := List.mem_map.mp hq
    exact hy.1 (mem_raster.mp hq').2

theorem raster_length (xs ys : List Int) : (raster xs ys).length = xs.length * ys.length := by
  induction ys with
  | nil => rfl
  | cons y ys ih =>
    rw [raster_cons, List.length_append, List.length_map, ih, List.length_cons]
    ring

theorem filter_raster (f g : Int → Bool) (xs ys : List Int) :
    (raster xs ys).filter (fun q => f q.x && g q.y) = raster (xs.filter f) (ys.filter g) := by
  induction ys with
  | nil => rfl
  | cons y ys ih =>
    rw [raster_cons, List.filter_append, ih, List.filter_map, List.filter_cons]
    cases hy : g y with
    | true =>
      rw [if_pos rfl, raster_cons]
      congr 2
      apply List.filter_congr
      intro x _
      simp [hy]
    | false =>
      rw [if_neg (by simp)]
      have hnone : xs.filter ((fun q : Point => f q.x && g q.y) ∘ fun x => ⟨x, y⟩) = [] := by
        rw [List.filter_eq_nil_iff]
        intro x _
        simp [hy]
      rw [hnone]
      rfl

theorem reverse_raster (xs ys : List Int) :
    (raster xs ys).reverse = raster xs.reverse ys.reverse := by
  unfold raster
  rw [List.reverse_flatMap]
  congr 1
  funext y
  exact List.map_reverse.symm

theorem foldl_raster (f : σ → Point → σ) (xs ys : List Int) (s : σ) :
    ys.foldl (fun s y => xs.foldl (fun s x => f s ⟨x, y⟩) s) s = (raster xs ys).foldl f s := by
  unfold raster
  rw [List.foldl_flatMap]
  congr 1
  funext s y
  exact List.foldl_map.symm

theorem map_raster (f g : Int → Int) (xs ys : List Int) :
    (raster xs ys).map (fun q => (⟨f q.x, g q.y⟩ : Point)) = raster (xs.map f) (ys.map g) := by
  induction ys with
  | nil => rfl
  | cons y ys ih =>
    rw [raster_cons, List.map_append, ih, List.map_cons, raster_cons, List.map_map, List.map_map]
    rfl

/-- A point comes before another one when rows are read one after the other. -/
def Point.Before (q q' : Point) : Prop := q.y < q'.y ∨ q.y = q'.y ∧ q.x < q'.x

theorem raster_pairwise (hx : xs.Pairwise (· < ·)) (hy : ys.Pairwise (· < ·)) :
    (raster xs ys).Pairwise Point.Before := by
  induction hy with
  | nil => exact .nil
  | @cons y ys hlt _ ih =>
    rw [raster_cons, List.pairwise_append]
    refine ⟨List.pairwise_map.mpr (hx.imp fun h => .inr ⟨rfl, h⟩), ih, fun q hq q' hq' => ?_⟩
    obtain ⟨x, _, rfl⟩ := List.mem_map.mp hq
    exact .inl (hlt _ (mem_raster.mp hq').2)

section Copies

variable {ι α β : Type} [DecidableEq α] {target source : ι → α} {ks : List ι}

def copies (target source : ι → α) (ks : List ι) (f : α → β) : α → β :=
  ks.foldl (fun f k => Function.update f (target k) (f (source k))) f

theorem copies_of_ne (f : α → β) (h : ∀ k ∈ ks, target k ≠ i) : copies target source ks f i = f i := by
  induction ks generalizing f with
  | nil => rfl
  | cons k ks ih =>
    refine (ih _ fun k' hk' => h k' (List.mem_cons_of_mem _ hk')).trans ?_
    exact Function.update_of_ne (h k List.mem_cons_self).symm _ _

theorem copies_snapshot (f : α → β) (hs : ks.Pairwise fun k k' => target k ≠ source k')
    (ht : ks.Pairwise fun k k' => target k ≠ target k') (hk : k ∈ ks) :
    copies target source ks f (target k) = f (source k) := by
  induction ks generalizing f with
  | nil => cases hk
  | cons k₀ ks ih =>
    rw [List.pairwise_cons] at hs ht
    let f' := Function.update f (target k₀) (f (source k₀))
    change copies target source ks f' (target k) = f (source k)
    rcases List.mem_cons.mp hk with rfl | hk
    · rw [copies_of_ne f' fun k' hk' => (ht.1 k' hk').symm]
      exact Function.update_self _ _ _
    · rw [ih f' hs.2 ht.2 hk]
      exact Function.update_of_ne (hs.1 k hk).symm _ _

end Copies

end TinyProcessors
