import CleanWeb.Dapr.RowShare

/-!
# Less credibility, less paid

Two allocations of the same rows, of which one gives no row more credibility than the other: each
user's fee reaches works with no more of it, and no less of it stays unallocated.
-/

namespace CleanWeb
namespace Dapr

open Lib Lib.Exec Lib.BTreeMap

/-- The same rows, each with at most the credibility. -/
def LessCredited (rs rs' : List (RawRow × Nat)) : Prop :=
  List.Forall₂ (fun e e' => e.1 = e'.1 ∧ e.2 ≤ e'.2) rs rs'

namespace LessCredited

variable {rs rs' : List (RawRow × Nat)}

theorem rawSum_eq (h : LessCredited rs rs') : rawSum rs = rawSum rs' := by
  induction h with
  | nil => rfl
  | cons he _ ih =>
      simp only [rawSum, List.map_cons, List.sum_cons, he.1] at ih ⊢
      rw [ih]

theorem credSum_le (h : LessCredited rs rs') : credSum rs ≤ credSum rs' := by
  induction h with
  | nil => exact Nat.le_refl _
  | cons he _ ih =>
      have hcred : credOf _ ≤ credOf _ :=
        Nat.div_le_div_right (Nat.mul_le_mul (congrArg RawRow.raw he.1).le he.2)
      simp only [credSum, List.map_cons, List.sum_cons] at ih ⊢
      exact Nat.add_le_add hcred ih

theorem paidOf_le (h : LessCredited rs rs') (fee : Nat) : paidOf fee rs ≤ paidOf fee rs' := by
  unfold paidOf
  rw [h.rawSum_eq]
  exact Nat.div_le_div_right (Nat.mul_le_mul_left fee h.credSum_le)

end LessCredited

theorem lessCredited_rowsOf {rows : List RawRow} {ppm ppm' : List Nat}
    (h : List.Forall₂ (· ≤ ·) ppm ppm') (user : UserId) :
    LessCredited (rowsOf rows ppm user) (rowsOf rows ppm' user) := by
  induction h generalizing rows with
  | nil =>
      simp [rowsOf, LessCredited]
  | cons hle _ ih =>
      cases rows with
      | nil =>
          simp [rowsOf, LessCredited]
      | cons row rows =>
          have hrest := @ih rows
          unfold rowsOf LessCredited at hrest ⊢
          by_cases huser : row.user = user
          · simp only [List.zip_cons_cons, List.filter_cons, huser, decide_true, if_true,
              List.map_cons]
            exact List.Forall₂.cons ⟨rfl, by omega⟩ hrest
          · simpa only [List.zip_cons_cons, List.filter_cons, huser, decide_false,
              Bool.false_eq_true, if_false] using hrest

/-- A user's rows are paid all of the part of the fee that is paid out. -/
theorem sum_rowShares {tierFees : BTreeMap UserId Nat} {rows : List RawRow} {ppm : List Nat}
    {p : Payouts} {user : UserId} {fee : Nat} (hrows : rows.length < 2 ^ 64)
    (h : allocateFromRawWithRowCredibility tierFees rows ppm = .ok p)
    (hfee : tierFees[user]? = some fee) :
    (rowShares fee (rowsOf rows ppm user)).sum = paidOf fee (rowsOf rows ppm user) := by
  rcases allocate_ok h with ⟨st, hst, -⟩
  have hshares := hst.shares (user, fee) (mem_toList.2 hfee)
  have hlen : (rowsOf rows ppm user).length < 2 ^ 64 :=
    Nat.lt_of_le_of_lt (length_rowsOf_le rows ppm user) hrows
  dsimp only at hshares
  generalize rowsOf rows ppm user = rs at hshares hlen ⊢
  unfold rowShares
  split
  · rename_i hzero
    rw [paidOf_eq_zero hzero]
    simp
  · rename_i hpos
    rw [not_or] at hpos
    exact apportion_sum (Nat.pos_of_ne_zero hpos.2) rfl (by simpa using hlen)
      (hshares hpos.1 hpos.2)

/-- No user pays works more, and no less stays unallocated. -/
theorem discount_lowers {tierFees : BTreeMap UserId Nat} {rows : List RawRow}
    {ppm ppm' : List Nat} {p p' : Payouts} (hrows : rows.length < 2 ^ 64)
    (hppm : List.Forall₂ (· ≤ ·) ppm ppm')
    (h : allocateFromRawWithRowCredibility tierFees rows ppm = .ok p)
    (h' : allocateFromRawWithRowCredibility tierFees rows ppm' = .ok p') :
    (∀ user fee, tierFees[user]? = some fee →
      (rowShares fee (rowsOf rows ppm user)).sum ≤ (rowShares fee (rowsOf rows ppm' user)).sum) ∧
    p'.unallocated ≤ p.unallocated := by
  refine ⟨?_, ?_⟩
  · intro user fee hfee
    rw [sum_rowShares hrows h hfee, sum_rowShares hrows h' hfee]
    exact (lessCredited_rowsOf hppm user).paidOf_le fee
  · rcases allocate_ok h with ⟨st, hst, rfl⟩
    rcases allocate_ok h' with ⟨st', hst', rfl⟩
    dsimp only
    rw [hst.unallocated, hst'.unallocated]
    refine List.sum_le_sum fun u _ => ?_
    have hless : LessCredited (rowsOf rows ppm u.1) (rowsOf rows ppm' u.1) :=
      lessCredited_rowsOf hppm u.1
    have hpaid := hless.paidOf_le u.2
    omega

end Dapr
end CleanWeb
