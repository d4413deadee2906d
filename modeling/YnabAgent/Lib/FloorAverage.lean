import Mathlib.Tactic.Ring

/-!
# Floored averages

`floorAverage n w x y` is the average of two integers with the weights `w` and `n - w` out of `n`,
floored. It is monotone in what it averages (`floorAverage_mono`) and no steeper than the identity
(`floorAverage_add_le`); what it takes for it not to move is a matter of the remainder alone
(`floorAverage_add_le_iff`). A rate that is floored and multiplied back loses less than its divisor
(`mul_ediv_le`, `lt_mul_ediv`).
-/

namespace Lib

/-- The average of `x` and `y` with the weights `w` and `n - w` out of `n`, floored. -/
def floorAverage (n w x y : Int) : Int :=
  (w * x + (n - w) * y) / n

section average
variable {n w x y k m : Int}

theorem floorAverage_mono (hn : 0 < n) (hw : w ≤ n) {y' : Int} (h : y ≤ y') :
    floorAverage n w x y ≤ floorAverage n w x y' := by
  unfold floorAverage
  apply Int.ediv_le_ediv hn
  have hmul : (n - w) * y ≤ (n - w) * y' := Int.mul_le_mul_of_nonneg_left h (by omega)
  omega

/-- Raising one side lifts the average by no more. -/
theorem floorAverage_add_le (hn : 0 < n) (hw : 0 ≤ w) (hk : 0 ≤ k) :
    floorAverage n w x (y + k) ≤ floorAverage n w x y + k := by
  unfold floorAverage
  have hsplit : w * x + (n - w) * (y + k) ≤ w * x + (n - w) * y + k * n := by
    have hwk : 0 ≤ w * k := Int.mul_nonneg hw hk
    have hexpand : (n - w) * (y + k) = (n - w) * y + k * n - w * k := by ring
    omega
  calc (w * x + (n - w) * (y + k)) / n
      ≤ (w * x + (n - w) * y + k * n) / n := Int.ediv_le_ediv hn hsplit
    _ = (w * x + (n - w) * y) / n + k := Int.add_mul_ediv_right _ _ (by omega)

/-- The average is no less than what both sides are. -/
theorem le_floorAverage (hn : 0 < n) (hw : 0 ≤ w) (hwn : w ≤ n) (hx : m ≤ x) (hy : m ≤ y) :
    m ≤ floorAverage n w x y := by
  unfold floorAverage
  rw [Int.le_ediv_iff_mul_le hn]
  have hwx : w * m ≤ w * x := Int.mul_le_mul_of_nonneg_left hx hw
  have hwy : (n - w) * m ≤ (n - w) * y := Int.mul_le_mul_of_nonneg_left hy (by omega)
  have hexpand : m * n = w * m + (n - w) * m := by ring
  omega

/-- Raising one side does not lift the average exactly when the rise stays within the remainder. -/
theorem floorAverage_add_le_iff (hn : 0 < n) :
    floorAverage n w x (y + k) ≤ floorAverage n w x y ↔
      (w * x + (n - w) * y) % n + (n - w) * k < n := by
  unfold floorAverage
  have hexpand : w * x + (n - w) * (y + k) = w * x + (n - w) * y + (n - w) * k := by ring
  have hdiv := Int.mul_ediv_add_emod (w * x + (n - w) * y) n
  rw [hexpand, ← Int.lt_add_one_iff, Int.ediv_lt_iff_lt_mul hn, Int.add_mul, Int.one_mul,
    Int.mul_comm _ n]
  omega

end average

/-! ## A floored rate, multiplied back -/

section rate
variable {t d : Int}

theorem mul_ediv_le (hd : 0 < d) : d * (t / d) ≤ t := by
  have h := Int.mul_ediv_add_emod t d
  have hmod := Int.emod_nonneg t (by omega : d ≠ 0)
  omega

theorem lt_mul_ediv (hd : 0 < d) : t < d * (t / d) + d := by
  have h := Int.mul_ediv_add_emod t d
  have hmod := Int.emod_lt_of_pos t hd
  omega

end rate

end Lib
