import Mathlib.Algebra.BigOperators.Finprod

/-!
# Totals — the sum of a mapping that is zero almost everywhere

A storage mapping has a value at every key, all but finitely many of them zero.  `Totals f n` says
that `f` has finite support and sums to `n`; writing one key moves the total by the difference.
-/

namespace CleanWeb
namespace Lib

variable {α : Type} {f g : α → Nat} {a : α} {n m v : Nat}

/-- `f` is zero outside a finite set and its values add up to `n`. -/
def Totals (f : α → Nat) (n : Nat) : Prop :=
  (Function.support f).Finite ∧ ∑ᶠ a, f a = n

namespace Totals

theorem zero : Totals (fun _ : α => 0) 0 :=
  ⟨by simp, finsum_zero⟩

theorem congr (h : Totals f n) (hfg : ∀ a, g a = f a) : Totals g n := by
  have heq : g = f := funext hfg
  rwa [heq]

/-- A total is a finite sum over any finite set that covers the support. -/
theorem sum_eq (h : Totals f n) {s : Finset α} (hs : Function.support f ⊆ s) :
    ∑ x ∈ s, f x = n := by
  rw [← h.2, finsum_eq_sum_of_support_subset f hs]

variable [DecidableEq α]

theorem exists_cover (h : Totals f n) (a : α) :
    ∃ s : Finset α, a ∈ s ∧ Function.support f ⊆ s := by
  refine ⟨insert a h.1.toFinset, by simp, ?_⟩
  intro x hx
  simpa using Or.inr hx

theorem le (h : Totals f n) (a : α) : f a ≤ n := by
  rcases h.exists_cover a with ⟨s, ha, hs⟩
  rw [← h.sum_eq hs]
  exact Finset.single_le_sum (fun x _ => Nat.zero_le (f x)) ha

/-- Writing `v` at `a` replaces what `a` contributed. -/
theorem update (h : Totals f n) (hm : m + f a = n + v) : Totals (Function.update f a v) m := by
  rcases h.exists_cover a with ⟨s, ha, hs⟩
  have hcover : Function.support (Function.update f a v) ⊆ s := by
    intro x hx
    by_cases hxa : x = a
    · simpa [hxa] using ha
    · refine hs ?_
      simpa [Function.update_of_ne hxa] using hx
  have hold : f a + ∑ x ∈ s \ {a}, f x = n := by
    rw [← h.sum_eq hs, Finset.sum_eq_add_sum_sdiff_singleton_of_mem ha]
  refine ⟨s.finite_toSet.subset hcover, ?_⟩
  rw [finsum_eq_sum_of_support_subset _ hcover, Finset.sum_update_of_mem ha]
  omega

end Totals
end Lib
end CleanWeb
