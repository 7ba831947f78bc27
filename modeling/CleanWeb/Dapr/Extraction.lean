import CleanWeb.Dapr.Contribution

/-!
# No extraction beyond the fees paid in

Whatever the rows claim, the works of a set take out at most the fees of the users who have a row
on one of them.
-/

namespace CleanWeb
namespace Dapr

open Lib Lib.Exec Lib.BTreeMap

/-! ## Sets of works -/

/-- What the works of `S` receive. -/
def creditOf (p : Payouts) (S : Set WorkId) [DecidablePred (· ∈ S)] : Nat :=
  ((p.perWork.toList.filter fun e => e.1 ∈ S).map Prod.snd).sum

/-- The fees of the users with at least one row naming a work in `S`. -/
def feesBehind (tierFees : BTreeMap UserId Nat) (rows : List RawRow) (S : Set WorkId)
    [DecidablePred (· ∈ S)] : Nat :=
  ((tierFees.toList.filter fun u => ∃ r ∈ rows, r.user = u.1 ∧ r.work ∈ S).map Prod.snd).sum

variable {S : Set WorkId} [DecidablePred (· ∈ S)]

/-- One user pays the works of `S` at most the fee, and nothing without a row on one of them. -/
theorem payments_le {rows : List RawRow} {credibilityPpm : List Nat} {user : UserId} {fee : Nat}
    (h : rawSum (rowsOf rows credibilityPpm user) ≠ 0 →
      credSum (rowsOf rows credibilityPpm user) ≠ 0 →
        apportion (paidOf fee (rowsOf rows credibilityPpm user))
          ((rowsOf rows credibilityPpm user).map credOf)
          (credSum (rowsOf rows credibilityPpm user)) =
            .ok (sharesOf fee (rowsOf rows credibilityPpm user))) :
    (((paymentsOf fee (rowsOf rows credibilityPpm user)).filter fun e => e.1 ∈ S).map
        Prod.snd).sum ≤
      if ∃ r ∈ rows, r.user = user ∧ r.work ∈ S then fee else 0 := by
  rcases paymentsOf_spec h with ⟨hsum, hrow⟩
  split
  · calc
      (((paymentsOf fee (rowsOf rows credibilityPpm user)).filter fun e => e.1 ∈ S).map
          Prod.snd).sum
          ≤ ((paymentsOf fee (rowsOf rows credibilityPpm user)).map Prod.snd).sum :=
            ((List.filter_sublist).map Prod.snd).sum_le_sum fun _ _ => Nat.zero_le _
      _ ≤ paidOf fee (rowsOf rows credibilityPpm user) := hsum
      _ ≤ fee := paidOf_le (rowsOf_clamped _ _ _) fee
  · -- Every payment names the work of one of the user's rows.
    rename_i hnone
    have hnil : (paymentsOf fee (rowsOf rows credibilityPpm user)).filter (fun e => e.1 ∈ S) =
        [] := by
      rw [List.filter_eq_nil_iff]
      intro e he hin
      rcases hrow e he with ⟨entry, hentry, hwork, -⟩
      rcases mem_of_mem_rowsOf hentry with ⟨hmem, huser⟩
      refine hnone ⟨entry.1, hmem, huser, ?_⟩
      rw [hwork]
      simpa using hin
    rw [hnil]
    exact Nat.zero_le _

/-- For every returned allocation and every set of works. -/
theorem no_extraction (tierFees : BTreeMap UserId Nat) (rows : List RawRow)
    (credibilityPpm : List Nat) (p : Payouts) (S : Set WorkId) [DecidablePred (· ∈ S)]
    (h : allocateFromRawWithRowCredibility tierFees rows credibilityPpm = .ok p) :
    creditOf p S ≤ feesBehind tierFees rows S := by
  rcases allocate_ok h with ⟨st, hst, rfl⟩
  calc
    creditOf ⟨st.perWork, st.unallocated, _⟩ S
        = (((tierFees.toList.flatMap fun u =>
            paymentsOf u.2 (rowsOf rows credibilityPpm u.1)).filter fun e => e.1 ∈ S).map
              Prod.snd).sum := hst.perWork.sum_filter (· ∈ S)
    _ = (tierFees.toList.map fun u =>
          (((paymentsOf u.2 (rowsOf rows credibilityPpm u.1)).filter fun e => e.1 ∈ S).map
            Prod.snd).sum).sum := by
          rw [List.filter_flatMap, List.map_flatMap, List.flatMap_def, List.sum_flatten,
            List.map_map]
          rfl
    _ ≤ (tierFees.toList.map fun u =>
          if ∃ r ∈ rows, r.user = u.1 ∧ r.work ∈ S then u.2 else 0).sum :=
          List.sum_le_sum fun u hu => payments_le (hst.shares u hu)
    _ = feesBehind tierFees rows S := by
          rw [feesBehind, List.sum_map_ite]
          simp

/-- Two subscribers with a work in common. -/
theorem no_extraction_shared :
    ∃ p, allocateFromRawWithRowCredibility {("u1", 10), ("u2", 7)}
        [⟨"u1", "wA", 1⟩, ⟨"u1", "wB", 2⟩, ⟨"u2", "wB", 5⟩] [1000000, 500000, 1000000] = .ok p ∧
      creditOf p {"wA"} ≤ feesBehind {("u1", 10), ("u2", 7)}
        [⟨"u1", "wA", 1⟩, ⟨"u1", "wB", 2⟩, ⟨"u2", "wB", 5⟩] {"wA"} := by
  have hok : trap (allocateFromRawWithRowCredibility {("u1", 10), ("u2", 7)}
      [⟨"u1", "wA", 1⟩, ⟨"u1", "wB", 2⟩, ⟨"u2", "wB", 5⟩] [1000000, 500000, 1000000]) = none := by
    decide +kernel
  rcases exists_ok_of_trap hok with ⟨p, hp⟩
  exact ⟨p, hp, no_extraction _ _ _ p {"wA"} hp⟩

end Dapr
end CleanWeb
