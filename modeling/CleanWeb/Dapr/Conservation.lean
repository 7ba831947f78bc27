import CleanWeb.Dapr.Diminishing
import CleanWeb.Dapr.FeePass

/-!
# Conservation of the tier fees

The three entry points of the payout library.  Whatever they return, the credit of the works and
the unallocated remainder are together the fees, and no plain operator left its range.
-/

namespace CleanWeb
namespace Dapr

open Lib Lib.Exec Lib.BTreeMap

/-! ## The payout core -/

/-- `p` accounts for exactly the tier fees, and summing its credits does not overflow. -/
structure Conserves (tierFees : BTreeMap UserId Nat) (p : Payouts) : Prop where
  conserved : total p.perWork + p.unallocated = total tierFees
  totalToWorks : p.totalToWorks = .ok (total p.perWork)

/-- The two families of sums and products that have to fit into 128 bits. -/
structure FeesFit (rowsOfUser : UserId → List (RawRow × Nat)) (us : List (UserId × Nat)) :
    Prop where
  usage : ∀ w, usageOn rowsOfUser us w < 2 ^ 128
  products : ∀ u ∈ us, ∀ e ∈ rowsOfUser u.1, paidOf u.2 (rowsOfUser u.1) * credOf e < 2 ^ 128

/-- What a returned allocation satisfies. -/
structure Allocated (tierFees : BTreeMap UserId Nat) (rows : List RawRow)
    (credibilityPpm : List Nat) (p : Payouts) : Prop extends Conserves tierFees p where
  paid : total p.perWork =
    (tierFees.toList.map fun u => paidOf u.2 (rowsOf rows credibilityPpm u.1)).sum
  credited : ∀ w ∈ p.perWork, ∃ r ∈ rows, r.work = w
  fits : FeesFit (rowsOf rows credibilityPpm) tierFees.toList

theorem conserves_of_conserved {tierFees : BTreeMap UserId Nat} {p : Payouts}
    (hfees : total tierFees < 2 ^ 128)
    (h : total p.perWork + p.unallocated = total tierFees) : Conserves tierFees p := by
  have hfit : (p.perWork.toList.map Prod.snd).sum < 2 ^ 128 := by
    change total p.perWork < 2 ^ 128
    omega
  exact ⟨h, sumU_eq_ok hfit⟩

theorem allocateFromRawWithRowCredibility_meets {tierFees : BTreeMap UserId Nat}
    {rows : List RawRow} {credibilityPpm : List Nat}
    (hlen : credibilityPpm.length = rows.length)
    (hrows : ∀ u, (rowsOf rows credibilityPpm u).length < 2 ^ 64)
    (hfees : total tierFees < 2 ^ 128) :
    Meets (allocateFromRawWithRowCredibility tierFees rows credibilityPpm)
      (Allocated tierFees rows credibilityPpm)
      (OverflowsBy (FeesOverflow (rowsOf rows credibilityPpm) tierFees.toList)) := by
  unfold allocateFromRawWithRowCredibility
  rw [if_neg (by simpa using hlen)]
  dsimp only
  refine (feeLoop_meets (groupRows_getD rows credibilityPpm)
    (rowsOf_clamped rows credibilityPpm) hrows hfees).bind ?_
  intro st hst
  refine ⟨conserves_of_conserved hfees hst.conserved, hst.paid, ?_,
    ⟨hst.usageFits, hst.productsFit⟩⟩
  intro w hw
  rcases hst.keys w hw with ⟨u, -, e, he, rfl⟩
  exact ⟨e.1, (mem_of_mem_rowsOf he).1, rfl⟩

/-- The payout core conserves the fees, also when the two slices differ in length. -/
theorem allocateFromRawWithRowCredibility_conserves {tierFees : BTreeMap UserId Nat}
    {rows : List RawRow} (credibilityPpm : List Nat) (hrows : rows.length < 2 ^ 64)
    (hfees : total tierFees < 2 ^ 128) :
    Meets (allocateFromRawWithRowCredibility tierFees rows credibilityPpm)
      (fun p => Conserves tierFees p ∧ ∀ w ∈ p.perWork, ∃ r ∈ rows, r.work = w) Returned := by
  by_cases hlen : credibilityPpm.length = rows.length
  · have hrowsOf : ∀ u, (rowsOf rows credibilityPpm u).length < 2 ^ 64 := by
      intro u
      exact (length_rowsOf_le rows credibilityPpm u).trans_lt hrows
    refine (allocateFromRawWithRowCredibility_meets hlen hrowsOf hfees).mono ?_ ?_
    · rintro p - hp
      exact ⟨hp.toConserves, hp.credited⟩
    · intro t ht
      exact ht.returned
  · unfold allocateFromRawWithRowCredibility
    rw [if_pos hlen]
    simp

theorem allocateFromRaw_conserves {tierFees : BTreeMap UserId Nat} {rows : List RawRow}
    (bandwidthPpm : BTreeMap WorkId Nat) (hrows : rows.length < 2 ^ 64)
    (hfees : total tierFees < 2 ^ 128) :
    Meets (allocateFromRaw tierFees rows bandwidthPpm)
      (fun p => Conserves tierFees p ∧ ∀ w ∈ p.perWork, ∃ r ∈ rows, r.work = w) Returned :=
  allocateFromRawWithRowCredibility_conserves _ hrows hfees

/-! ## Reducing usage rows to weights -/

theorem rawRowOf_meets {kPpm : Nat} (hk : kPpm < 2 ^ 64) (row : UsageRow) :
    Meets (rawRowOf kPpm row) (fun r => r.user = row.user ∧ r.work = row.work) Returned := by
  unfold rawRowOf UsageRow.value
  refine Meets.bind (Q := fun _ => True) ?_ ?_
  · cases h : (checkedMul 128 row.minutes row.pricePpm).bind (checkedMul 128 · row.regionPpm) with
    | none =>
        simp [okOr]
    | some v =>
        simp [okOr]
  intro value _
  rcases exists_dPpm row.plays hk with ⟨d, hd, -⟩
  rw [hd, ok_bind]
  refine ((mulDiv_meets (by omega)).mono (fun _ _ _ => trivial) fun t ht => ht.returned).bind ?_
  intro raw _
  exact ⟨rfl, rfl⟩

theorem allocate_conserves {dataset : Dataset} {params : DaprParams}
    (hk : params.diminishingKPpm < 2 ^ 64) (hrows : dataset.usage.length < 2 ^ 64)
    (hfees : total dataset.tierFees < 2 ^ 128) :
    Meets (allocate dataset params)
      (fun p => Conserves dataset.tierFees p ∧ ∀ w ∈ p.perWork, ∃ r ∈ dataset.usage, r.work = w)
      Returned := by
  unfold allocate
  refine (meets_mapM fun row _ => rawRowOf_meets hk row).bind ?_
  intro rawRows hall
  have hlength : dataset.usage.length = rawRows.length := hall.length_eq
  refine (allocateFromRaw_conserves dataset.bandwidthPpm (by omega) hfees).mono ?_ fun _ h => h
  rintro p - ⟨hp, hcredited⟩
  refine ⟨hp, ?_⟩
  intro w hw
  rcases hcredited w hw with ⟨r, hr, rfl⟩
  rcases List.mem_iff_getElem.1 hr with ⟨i, hi, rfl⟩
  have hrow := hall.get (by omega) hi
  exact ⟨_, List.getElem_mem (by omega), hrow.2.symm⟩

theorem totalFees_eq {dataset : Dataset} (hfees : total dataset.tierFees < 2 ^ 128) :
    dataset.totalFees = .ok (total dataset.tierFees) :=
  sumU_eq_ok hfees

end Dapr
end CleanWeb
