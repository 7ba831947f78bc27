import CleanWeb.Dapr.Contribution

/-!
# The share of each row

A row is paid its discounted part of the user's fee, up to rounding, and whatever a discount takes
away is not given to the user's other rows.
-/

namespace CleanWeb
namespace Dapr

open Lib Lib.Exec Lib.BTreeMap Lib.ProportionalShare

/-- The shares of a user's rows, zero where there is nothing to apportion. -/
def rowShares (fee : Nat) (rs : List (RawRow × Nat)) : List Nat :=
  if rawSum rs = 0 ∨ credSum rs = 0 then rs.map fun _ => 0 else sharesOf fee rs

/-- The share `s` is the row's part `fee * cred / raw` of the fee, at most one unit below its floor
and at most its ceiling; a row without credit gets nothing. -/
structure RowShare (fee : Nat) (rs : List (RawRow × Nat)) (e : RawRow × Nat) (s : Nat) : Prop where
  lower : fee * credOf e / rawSum rs ≤ s + 1
  upper : s ≤ fee * credOf e ⌈/⌉ rawSum rs
  burned : credOf e = 0 → s = 0

/-- There is a share for each row. -/
structure SharesFee (fee : Nat) (rs : List (RawRow × Nat)) (shares : List Nat) : Prop where
  length : shares.length = rs.length
  row : ∀ (i : Nat) (e : RawRow × Nat) (s : Nat), rs[i]? = some e → shares[i]? = some s →
    RowShare fee rs e s

theorem credOf_le_credSum {rs : List (RawRow × Nat)} {i : Nat} {e : RawRow × Nat}
    (hi : rs[i]? = some e) : credOf e ≤ credSum rs :=
  List.single_le_sum (by simp) _ (List.mem_map_of_mem (List.mem_of_getElem? hi))

/-- The shares that `apportion` returns for a user share out the fee. -/
theorem sharesFee_of_apportion {fee : Nat} {rs : List (RawRow × Nat)} {shares : List Nat}
    (hraw : 0 < rawSum rs) (hcred : 0 < credSum rs)
    (h : apportion (paidOf fee rs) (rs.map credOf) (credSum rs) = .ok shares) :
    SharesFee fee rs shares := by
  refine ⟨by simpa using (apportion_ok hcred rfl h).1, ?_⟩
  intro i e s hi hs
  have hweight : (rs.map credOf)[i]? = some (credOf e) := by
    rw [List.getElem?_map, hi, Option.map_some]
  have hfloor : fee * credOf e / rawSum rs ≤ paidOf fee rs * credOf e / credSum rs + 1 :=
    share_le_part_succ hcred hraw (credOf_le_credSum hi)
  have hburned : credOf e = 0 → s = 0 := by
    intro hzero
    rw [hzero] at hweight
    exact Option.some.inj (hs.symm.trans ((apportion_ok hcred rfl h).2.2 i hweight))
  -- The share is the floor of the exact share, or one more.
  rcases apportion_share hcred rfl h hweight with heq | ⟨heq, hrem⟩
  · have hs' : s = paidOf fee rs * credOf e / credSum rs := Option.some.inj (hs.symm.trans heq)
    refine ⟨by omega, ?_, hburned⟩
    calc
      s = paidOf fee rs * credOf e / credSum rs := hs'
      _ ≤ fee * credOf e / rawSum rs := part_share_le hcred hraw
      _ ≤ fee * credOf e ⌈/⌉ rawSum rs := by
          rw [← Nat.floorDiv_eq_div]
          exact floorDiv_le_ceilDiv
  · have hs' : s = paidOf fee rs * credOf e / credSum rs + 1 := Option.some.inj (hs.symm.trans heq)
    refine ⟨by omega, ?_, hburned⟩
    rw [hs']
    exact part_share_lt_ceil hraw hrem

/-- So do the shares of the rows, also where no row has credit. -/
theorem sharesFee_rowShares {fee : Nat} {rs : List (RawRow × Nat)} (hraw : 0 < rawSum rs)
    (h : rawSum rs ≠ 0 → credSum rs ≠ 0 →
      apportion (paidOf fee rs) (rs.map credOf) (credSum rs) = .ok (sharesOf fee rs)) :
    SharesFee fee rs (rowShares fee rs) := by
  by_cases hcred : credSum rs = 0
  · have hnone : rowShares fee rs = rs.map fun _ => 0 := if_pos (Or.inr hcred)
    rw [hnone]
    refine ⟨List.length_map _, ?_⟩
    intro i e s hi hs
    have hle := credOf_le_credSum hi
    have hnothing : credOf e = 0 := by
      omega
    rw [List.getElem?_map, hi] at hs
    cases hs
    refine ⟨?_, Nat.zero_le _, fun _ => rfl⟩
    rw [hnothing, Nat.mul_zero, Nat.zero_div]
    exact Nat.zero_le _
  · have hsome : rowShares fee rs = sharesOf fee rs := if_neg (by omega)
    rw [hsome]
    exact sharesFee_of_apportion hraw (Nat.pos_of_ne_zero hcred) (h (by omega) hcred)

/-- What a user pays a work is what the user's rows on it are paid. -/
theorem amountAt_paymentsOf (w : WorkId) {fee : Nat} {rs : List (RawRow × Nat)} :
    amountAt w (paymentsOf fee rs) = paidTo w (rs.zip (rowShares fee rs)) := by
  unfold paymentsOf rowShares
  split
  · have hzero : ∀ l : List (RawRow × Nat), paidTo w (l.zip (l.map fun _ => 0)) = 0 := by
      intro l
      induction l with
      | nil => rfl
      | cons e l ih =>
          simp only [paidTo, List.map_cons, List.zip_cons_cons, List.filter_cons] at ih ⊢
          split
          · simpa using ih
          · exact ih
    exact (hzero rs).symm
  · simp [amountAt, paidTo, List.filter_map, Function.comp_def]

/-! ## Every row of an allocation -/

/-- The rows of a user do not depend on the credibilities. -/
theorem map_fst_rowsOf {rows : List RawRow} {credibilityPpm : List Nat}
    (hlen : credibilityPpm.length = rows.length) (user : UserId) :
    (rowsOf rows credibilityPpm user).map Prod.fst = rows.filter fun r => r.user = user := by
  have hzip : (rows.zip credibilityPpm).map Prod.fst = rows := List.map_fst_zip (by omega)
  calc
    (rowsOf rows credibilityPpm user).map Prod.fst
        = ((rows.zip credibilityPpm).map Prod.fst).filter fun r => r.user = user := by
          rw [rowsOf, List.map_map, List.filter_map]
          rfl
    _ = rows.filter fun r => r.user = user := by rw [hzip]

theorem rawSum_rowsOf {rows : List RawRow} {credibilityPpm : List Nat}
    (hlen : credibilityPpm.length = rows.length) (user : UserId) :
    rawSum (rowsOf rows credibilityPpm user) =
      ((rows.filter fun r => r.user = user).map RawRow.raw).sum := by
  rw [← map_fst_rowsOf hlen, List.map_map]
  rfl

theorem length_of_allocate {tierFees : BTreeMap UserId Nat} {rows : List RawRow}
    {credibilityPpm : List Nat} {p : Payouts}
    (h : allocateFromRawWithRowCredibility tierFees rows credibilityPpm = .ok p) :
    credibilityPpm.length = rows.length := by
  unfold allocateFromRawWithRowCredibility at h
  split at h
  · cases h
  · rename_i hlen
    exact not_not.1 hlen

/-- The rows of a fee payer share out the fee. -/
theorem sharesFee_of_allocate {tierFees : BTreeMap UserId Nat} {rows : List RawRow}
    {credibilityPpm : List Nat} {p : Payouts} {user : UserId} {fee : Nat}
    (h : allocateFromRawWithRowCredibility tierFees rows credibilityPpm = .ok p)
    (hfee : tierFees[user]? = some fee) (hraw : 0 < rawSum (rowsOf rows credibilityPpm user)) :
    SharesFee fee (rowsOf rows credibilityPpm user)
      (rowShares fee (rowsOf rows credibilityPpm user)) := by
  rcases allocate_ok h with ⟨st, hst, -⟩
  exact sharesFee_rowShares hraw (hst.shares (user, fee) (mem_toList.2 hfee))

/-- Of two shares of a row in the same fee and the same raw weights, neither exceeds the other by
more than two units. -/
theorem RowShare.close {fee s s' : Nat} {rs rs' : List (RawRow × Nat)} {e : RawRow × Nat}
    (h : RowShare fee rs e s) (h' : RowShare fee rs' e s') (hraw : 0 < rawSum rs)
    (hsame : rawSum rs' = rawSum rs) : s' ≤ s + 2 := by
  have hceil : fee * credOf e ⌈/⌉ rawSum rs ≤ fee * credOf e / rawSum rs + 1 := by
    rw [ceilDiv_le_iff_le_mul hraw]
    exact (Nat.lt_mul_div_succ _ hraw).le
  have hupper := h'.upper
  have hlower := h.lower
  rw [hsame] at hupper
  omega

/-- In a returned allocation each work is paid the shares of the rows on it, and each row of a fee
payer with raw weight is paid its discounted part of the fee within rounding.  Other credibilities
for the same rows leave the share of a row that keeps its own within two units, so that a discount
on one row is not handed to another. -/
theorem row_shares (tierFees : BTreeMap UserId Nat) (rows : List RawRow)
    (credibilityPpm : List Nat) (p : Payouts)
    (h : allocateFromRawWithRowCredibility tierFees rows credibilityPpm = .ok p) :
    (∀ w, p.perWork.getD w 0 = (tierFees.toList.map fun u =>
      paidTo w ((rowsOf rows credibilityPpm u.1).zip
        (rowShares u.2 (rowsOf rows credibilityPpm u.1)))).sum) ∧
    ∀ (user : UserId) (fee : Nat), tierFees[user]? = some fee →
      0 < rawSum (rowsOf rows credibilityPpm user) →
        SharesFee fee (rowsOf rows credibilityPpm user)
          (rowShares fee (rowsOf rows credibilityPpm user)) ∧
        ∀ (credibilityPpm' : List Nat) (p' : Payouts),
          allocateFromRawWithRowCredibility tierFees rows credibilityPpm' = .ok p' →
            ∀ (i : Nat) (e : RawRow × Nat) (s s' : Nat),
              (rowsOf rows credibilityPpm user)[i]? = some e →
              (rowsOf rows credibilityPpm' user)[i]? = some e →
              (rowShares fee (rowsOf rows credibilityPpm user))[i]? = some s →
              (rowShares fee (rowsOf rows credibilityPpm' user))[i]? = some s' → s' ≤ s + 2 := by
  refine ⟨?_, ?_⟩
  · intro w
    rcases allocate_ok h with ⟨st, hst, rfl⟩
    calc
      st.perWork.getD w 0
          = amountAt w (tierFees.toList.flatMap fun u =>
              paymentsOf u.2 (rowsOf rows credibilityPpm u.1)) := hst.perWork.amount w
      _ = (tierFees.toList.map fun u =>
            amountAt w (paymentsOf u.2 (rowsOf rows credibilityPpm u.1))).sum :=
          amountAt_flatMap _ _ _
      _ = _ := congrArg List.sum (List.map_congr_left fun u _ => amountAt_paymentsOf w)
  · intro user fee hfee hraw
    have hshares := sharesFee_of_allocate h hfee hraw
    refine ⟨hshares, ?_⟩
    intro credibilityPpm' p' h' i e s s' hi hi' hs hs'
    have hsame : rawSum (rowsOf rows credibilityPpm' user) =
        rawSum (rowsOf rows credibilityPpm user) := by
      rw [rawSum_rowsOf (length_of_allocate h'), rawSum_rowsOf (length_of_allocate h)]
    have hshares' := sharesFee_of_allocate h' hfee (by rw [hsame]; exact hraw)
    exact (hshares.row i e s hi hs).close (hshares'.row i e s' hi' hs') hraw hsame

/-- A user's three rows. -/
def sampleRows : List RawRow :=
  [⟨"u", "wA", 10⟩, ⟨"u", "wB", 10⟩, ⟨"u", "wC", 10⟩]

/-- The second row is burned, and then the third: the share of the first does not grow by more than
two units. -/
theorem row_shares_burned :
    ∃ p p', allocateFromRawWithRowCredibility {("u", 100)} sampleRows [1000000, 0, 500000] = .ok p ∧
      allocateFromRawWithRowCredibility {("u", 100)} sampleRows [1000000, 0, 0] = .ok p' ∧
      SharesFee 100 (rowsOf sampleRows [1000000, 0, 500000] "u")
        (rowShares 100 (rowsOf sampleRows [1000000, 0, 500000] "u")) ∧
      ∀ s s', (rowShares 100 (rowsOf sampleRows [1000000, 0, 500000] "u"))[0]? = some s →
        (rowShares 100 (rowsOf sampleRows [1000000, 0, 0] "u"))[0]? = some s' → s' ≤ s + 2 := by
  have hok : trap (allocateFromRawWithRowCredibility {("u", 100)} sampleRows
      [1000000, 0, 500000]) = none := by
    decide +kernel
  have hok' : trap (allocateFromRawWithRowCredibility {("u", 100)} sampleRows
      [1000000, 0, 0]) = none := by
    decide +kernel
  rcases exists_ok_of_trap hok with ⟨p, hp⟩
  rcases exists_ok_of_trap hok' with ⟨p', hp'⟩
  rcases row_shares _ _ _ p hp with ⟨-, hrows⟩
  rcases hrows "u" 100 (by decide +kernel) (by decide +kernel) with ⟨hshares, hclose⟩
  refine ⟨p, p', hp, hp', hshares, ?_⟩
  intro s s' hs hs'
  exact hclose [1000000, 0, 0] p' hp' 0 (⟨"u", "wA", 10⟩, 1000000) s s' (by decide +kernel)
    (by decide +kernel) hs hs'

end Dapr
end CleanWeb
