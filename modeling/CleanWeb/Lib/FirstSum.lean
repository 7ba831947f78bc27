import Mathlib.Algebra.BigOperators.Group.Finset.Basic
import Mathlib.Algebra.Order.BigOperators.Group.Finset
import Mathlib.Data.Finset.Dedup
import Mathlib.Tactic.Common

/-!
# FirstSum — one entry for each key

`firstSum key amount l` adds up the amounts of the entries of `l`, for each key the first entry that
has it.  Read from left to right, an entry adds its amount if its key is new and nothing otherwise.
-/

namespace CleanWeb
namespace Lib

open Finset

variable {α ι : Type} [DecidableEq ι] (key : α → ι) (amount : α → Nat)

/-- The amount of the first entry under `i`. -/
def firstAt (l : List α) (i : ι) : Nat :=
  ((l.find? fun a => key a = i).map amount).getD 0

def firstSum (l : List α) : Nat :=
  ∑ i ∈ (l.map key).toFinset, firstAt key amount l i

@[simp] theorem firstSum_nil : firstSum key amount [] = 0 := rfl

variable {key amount} {l : List α} {a : α} {i : ι}

theorem firstAt_append_of_mem (hi : i ∈ l.map key) (l' : List α) :
    firstAt key amount (l ++ l') i = firstAt key amount l i := by
  have hsome : (l.find? fun a => key a = i).isSome = true := by
    rcases List.mem_map.1 hi with ⟨a, ha, rfl⟩
    rw [List.find?_isSome]
    exact ⟨a, ha, by simp⟩
  rcases Option.isSome_iff_exists.1 hsome with ⟨a, ha⟩
  simp only [firstAt, List.find?_append, ha, Option.some_or]

theorem firstAt_append_self (ha : key a ∉ l.map key) :
    firstAt key amount (l ++ [a]) (key a) = amount a := by
  have hnone : (l.find? fun b => key b = key a) = none := by
    rw [List.find?_eq_none]
    intro b hb heq
    exact ha (List.mem_map.2 ⟨b, hb, by simpa using heq⟩)
  simp [firstAt, List.find?_append, hnone]

/-- Entries whose keys have occurred add nothing. -/
theorem firstSum_append_of_subset {l' : List α} (h : ∀ a ∈ l', key a ∈ l.map key) :
    firstSum key amount (l ++ l') = firstSum key amount l := by
  have hkeys : ((l ++ l').map key).toFinset = (l.map key).toFinset := by
    ext i
    rw [List.mem_toFinset, List.mem_toFinset, List.map_append, List.mem_append]
    constructor
    · rintro (hi | hi)
      · exact hi
      · rcases List.mem_map.1 hi with ⟨a, ha, rfl⟩
        exact h a ha
    · exact Or.inl
  unfold firstSum
  rw [hkeys]
  refine sum_congr rfl ?_
  intro i hi
  exact firstAt_append_of_mem (List.mem_toFinset.1 hi) l'

/-- An entry under a new key adds its amount. -/
theorem firstSum_append_singleton (ha : key a ∉ l.map key) :
    firstSum key amount (l ++ [a]) = firstSum key amount l + amount a := by
  have hkeys : ((l ++ [a]).map key).toFinset = insert (key a) (l.map key).toFinset := by
    ext i
    simp
  have hnew : key a ∉ (l.map key).toFinset := by
    rwa [List.mem_toFinset]
  calc
    firstSum key amount (l ++ [a])
        = ∑ i ∈ insert (key a) (l.map key).toFinset, firstAt key amount (l ++ [a]) i := by
          rw [firstSum, hkeys]
    _ = amount a + ∑ i ∈ (l.map key).toFinset, firstAt key amount (l ++ [a]) i := by
          rw [sum_insert hnew, firstAt_append_self ha]
    _ = amount a + firstSum key amount l := by
          refine congrArg (amount a + ·) (sum_congr rfl ?_)
          intro i hi
          exact firstAt_append_of_mem (List.mem_toFinset.1 hi) [a]
    _ = firstSum key amount l + amount a := Nat.add_comm _ _

theorem firstAt_le {bound : Nat} (h : ∀ a ∈ l, amount a ≤ bound) (i : ι) :
    firstAt key amount l i ≤ bound := by
  unfold firstAt
  cases hfind : l.find? fun a => key a = i with
  | none => exact Nat.zero_le _
  | some a => exact h a (List.mem_of_find?_eq_some hfind)

/-- With bounded amounts the sum is bounded by the number of keys. -/
theorem firstSum_le {bound : Nat} (h : ∀ a ∈ l, amount a ≤ bound) :
    firstSum key amount l ≤ bound * (l.map key).toFinset.card := by
  calc
    firstSum key amount l ≤ (l.map key).toFinset.card • bound :=
      sum_le_card_nsmul _ _ _ fun i _ => firstAt_le h i
    _ = bound * (l.map key).toFinset.card := by
      rw [Nat.nsmul_eq_mul, Nat.mul_comm]

end Lib
end CleanWeb
