import Mathlib.Algebra.BigOperators.Intervals
import Mathlib.Algebra.Order.BigOperators.Group.Finset
import Mathlib.Order.Monotone.Basic
import Mathlib.Tactic.Ring

/-!
# FloorMean — the rounded mean of a falling sequence

The mean of the first values of a sequence that does not rise does not rise either, and rounding it
down keeps that.
-/

namespace CleanWeb
namespace Lib

open Finset

/-- The mean of the first `n` values, rounded down. -/
def floorMean (f : Nat → Nat) (n : Nat) : Nat :=
  (∑ i ∈ range n, f i) / n

variable {f g : Nat → Nat} {n m : Nat}

/-- No earlier value is below the next one, so their sum is not below as many copies of it. -/
theorem mul_le_sum_range (hf : Antitone f) (n : Nat) : n * f n ≤ ∑ i ∈ range n, f i := by
  calc
    n * f n = ∑ _i ∈ range n, f n := by simp
    _ ≤ ∑ i ∈ range n, f i := by
        refine sum_le_sum ?_
        intro i hi
        exact hf (mem_range.1 hi).le

theorem floorMean_succ_le (hf : Antitone f) (hn : 0 < n) :
    floorMean f (n + 1) ≤ floorMean f n := by
  unfold floorMean
  rw [sum_range_succ, Nat.le_div_iff_mul_le hn]
  have hfloor := Nat.div_mul_le_self (∑ i ∈ range n, f i + f n) (n + 1)
  -- Both sides times `n + 1`: the next value is worth at most the mean.
  refine Nat.le_of_mul_le_mul_right ?_ (Nat.succ_pos n)
  calc
    (∑ i ∈ range n, f i + f n) / (n + 1) * n * (n + 1)
        = (∑ i ∈ range n, f i + f n) / (n + 1) * (n + 1) * n := by ring
    _ ≤ (∑ i ∈ range n, f i + f n) * n := Nat.mul_le_mul_right n hfloor
    _ = (∑ i ∈ range n, f i) * n + n * f n := by ring
    _ ≤ (∑ i ∈ range n, f i) * n + ∑ i ∈ range n, f i :=
        Nat.add_le_add_left (mul_le_sum_range hf n) _
    _ = (∑ i ∈ range n, f i) * (n + 1) := by ring

/-- More values, no higher mean. -/
theorem floorMean_antitone (hf : Antitone f) (hn : 0 < n) (hnm : n ≤ m) :
    floorMean f m ≤ floorMean f n := by
  induction m, hnm using Nat.le_induction with
  | base =>
      exact le_rfl
  | succ m hle ih =>
      exact (floorMean_succ_le hf (hn.trans_le hle)).trans ih

/-- Lower values, no higher mean. -/
theorem floorMean_mono (h : ∀ i, f i ≤ g i) (n : Nat) : floorMean f n ≤ floorMean g n :=
  Nat.div_le_div_right (sum_le_sum fun i _ => h i)

theorem floorMean_le {bound : Nat} (h : ∀ i, f i ≤ bound) (n : Nat) :
    floorMean f n ≤ bound := by
  refine Nat.div_le_of_le_mul ?_
  calc
    ∑ i ∈ range n, f i ≤ ∑ _i ∈ range n, bound := sum_le_sum fun i _ => h i
    _ = n * bound := by simp

/-- The first value alone contributes its part. -/
theorem div_le_floorMean (f : Nat → Nat) (hn : 0 < n) : f 0 / n ≤ floorMean f n :=
  Nat.div_le_div_right (single_le_sum_of_canonicallyOrdered (mem_range.2 hn))

end Lib
end CleanWeb
