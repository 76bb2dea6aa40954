import Mathlib

namespace TinyProcessors

/-- The value of a signed operation of `w` bits, unless it overflows. -/
def checked (w : Nat) (n : Int) : Option Int :=
  if -2 ^ (w - 1) ≤ n ∧ n < 2 ^ (w - 1) then some n else none

theorem checked_of_abs (h : |n| ≤ k) (hk : k < 2 ^ (w - 1)) : checked w n = some n := by
  rw [abs_le] at h
  exact if_pos ⟨by omega, by omega⟩

theorem checked_bind (h : |n| ≤ k) (hk : k < 2 ^ (w - 1)) (f : Int → Option α) :
    (checked w n >>= f) = f n := by
  rw [checked_of_abs h hk]
  rfl

theorem mapM_some {f : α → Option β} {g : α → β} {l : List α} (h : ∀ x ∈ l, f x = some (g x)) :
    l.mapM f = some (l.map g) := by
  induction l with
  | nil => rfl
  | cons x l ih =>
    obtain ⟨hx, hl⟩ := List.forall_mem_cons.mp h
    rw [List.mapM_cons, hx, ih hl]
    rfl

theorem abs_mul_le {x y m n : Int} (hx : |x| ≤ m) (hy : |y| ≤ n) : |x * y| ≤ m * n := by
  rw [abs_mul]
  exact mul_le_mul hx hy (abs_nonneg y) ((abs_nonneg x).trans hx)

end TinyProcessors
