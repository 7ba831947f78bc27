import Mathlib.Algebra.Order.BigOperators.Group.List
import Mathlib.Algebra.Order.Ring.Nat
import Mathlib.Data.List.Perm.Subperm
import Mathlib.Data.List.Range

/-!
# Window — fixed-size blocks of a list

The list cut into blocks of `n`, of which the last may be short and all later ones are empty.
Distinct blocks together are no longer than the list, and exactly as long when none is missing.
-/

namespace CleanWeb
namespace Lib

variable {α : Type}

/-- The `i`-th block of `n` elements. -/
def window (n : Nat) (l : List α) (i : Nat) : List α :=
  (l.drop (i * n)).take n

@[simp] theorem length_window (n : Nat) (l : List α) (i : Nat) :
    (window n l i).length = min n (l.length - i * n) := by
  simp [window]

/-- The first `k` blocks cover the list up to `k * n`. -/
theorem sum_length_window_range (n : Nat) (l : List α) (k : Nat) :
    ((List.range k).map fun i => (window n l i).length).sum = min l.length (k * n) := by
  induction k with
  | zero => simp
  | succ k ih =>
      rw [List.range_succ, List.map_append, List.sum_append, ih, Nat.succ_mul]
      simp only [List.map_cons, List.map_nil, List.sum_cons, List.sum_nil, length_window]
      omega

/-- Distinct indices that all occur in another list add up to no more. -/
theorem sum_map_le_of_subset {is js : List Nat} (hnodup : is.Nodup) (hsub : is ⊆ js)
    (f : Nat → Nat) : (is.map f).sum ≤ (js.map f).sum := by
  rcases hnodup.subperm hsub with ⟨ks, hperm, hsublist⟩
  calc
    (is.map f).sum = (ks.map f).sum := ((hperm.map f).sum_eq).symm
    _ ≤ (js.map f).sum := (hsublist.map f).sum_le_sum fun _ _ => Nat.zero_le _

theorem sum_length_window_le (n : Nat) (l : List α) {is : List Nat} (hnodup : is.Nodup) :
    (is.map fun i => (window n l i).length).sum ≤ l.length := by
  have hsub : is ⊆ List.range (is.sum + 1) := by
    intro i hi
    have hle : i ≤ is.sum := List.single_le_sum (fun _ _ => Nat.zero_le _) i hi
    exact List.mem_range.2 (by omega)
  have hrange := sum_length_window_range n l (is.sum + 1)
  have hle := sum_map_le_of_subset hnodup hsub fun i => (window n l i).length
  omega

/-- Indices that miss no block cover the list exactly. -/
theorem sum_length_window_eq {n : Nat} (hn : 0 < n) (l : List α) {is : List Nat}
    (hnodup : is.Nodup) (hall : ∀ i, i * n < l.length → i ∈ is) :
    (is.map fun i => (window n l i).length).sum = l.length := by
  refine Nat.le_antisymm (sum_length_window_le n l hnodup) ?_
  have hlen : l.length ≤ l.length * n := Nat.le_mul_of_pos_right _ hn
  -- Blocks past the end are empty, so the first `l.length` indices can be cut down to `is`.
  have hcut : ∀ js : List Nat, (js.map fun i => (window n l i).length).sum =
      ((js.filter fun i => i * n < l.length).map fun i => (window n l i).length).sum := by
    intro js
    induction js with
    | nil => rfl
    | cons j js ih =>
        by_cases hj : j * n < l.length
        · simp only [List.map_cons, List.sum_cons, ih, List.filter_cons, decide_true, if_true, hj]
        · have hempty : (window n l j).length = 0 := by
            rw [length_window]
            omega
          simp only [List.map_cons, List.sum_cons, ih, List.filter_cons, decide_false, hempty, hj]
          simp
  have hsub : (List.range l.length).filter (fun i => i * n < l.length) ⊆ is := by
    intro i hi
    exact hall i (by simpa using (List.mem_filter.1 hi).2)
  calc
    l.length = min l.length (l.length * n) := (Nat.min_eq_left hlen).symm
    _ = ((List.range l.length).map fun i => (window n l i).length).sum :=
        (sum_length_window_range n l l.length).symm
    _ = (((List.range l.length).filter fun i => i * n < l.length).map fun i =>
          (window n l i).length).sum := hcut _
    _ ≤ (is.map fun i => (window n l i).length).sum :=
        sum_map_le_of_subset (List.nodup_range.filter _) hsub _

/-- Indices below `k` that miss no block below it add up to what the first `k` blocks cover. -/
theorem sum_length_window_cover {n k : Nat} (l : List α) {is : List Nat} (hnodup : is.Nodup)
    (hin : ∀ i ∈ is, i < k) (hall : ∀ i < k, i * n < l.length → i ∈ is) :
    (is.map fun i => (window n l i).length).sum = min l.length (k * n) := by
  rw [← sum_length_window_range]
  refine Nat.le_antisymm (sum_map_le_of_subset hnodup ?_ _) ?_
  · intro i hi
    exact List.mem_range.2 (hin i hi)
  · -- Blocks that are missing are empty.
    have hcut : ∀ js : List Nat, (∀ j ∈ js, j < k) →
        (js.map fun i => (window n l i).length).sum =
          ((js.filter fun i => i ∈ is).map fun i => (window n l i).length).sum := by
      intro js hjs
      induction js with
      | nil => rfl
      | cons j js ih =>
          have hrest := ih fun j' hj' => hjs j' (List.mem_cons_of_mem _ hj')
          by_cases hj : j ∈ is
          · simp only [List.map_cons, List.sum_cons, hrest, List.filter_cons, hj, decide_true,
              if_true]
          · have hempty : (window n l j).length = 0 := by
              have hpast : ¬ j * n < l.length := fun hlt => hj (hall j (hjs j (by simp)) hlt)
              rw [length_window]
              omega
            simp only [List.map_cons, List.sum_cons, hempty, hrest, List.filter_cons, hj,
              decide_false]
            simp
    rw [hcut (List.range k) fun j hj => List.mem_range.1 hj]
    refine sum_map_le_of_subset (List.nodup_range.filter _) ?_ _
    intro i hi
    simpa using (List.mem_filter.1 hi).2

end Lib
end CleanWeb
