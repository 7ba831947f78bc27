import CleanWeb.Dapr.Conservation

/-!
# When the payout core overflows

The circuit admits at most sixteen rows a user and weights below `2 ^ 120`.  Under these bounds the
per-user sums always fit; what can still leave 128 bits is the product inside `apportion` and the
usage a work gathers over all users.
-/

namespace CleanWeb
namespace Dapr

open Lib Lib.Exec Lib.BTreeMap

/-- The bounds the usage circuit enforces on a row list. -/
structure CircuitRows (rows : List RawRow) : Prop where
  perUser : ∀ u, (rows.filter fun r => r.user = u).length ≤ 16
  weight : ∀ r ∈ rows, r.raw < 2 ^ 120

theorem length_rowsOf_eq {rows : List RawRow} {credibilityPpm : List Nat}
    (hlen : credibilityPpm.length = rows.length) (user : UserId) :
    (rowsOf rows credibilityPpm user).length = (rows.filter fun r => r.user = user).length := by
  have hfst : (rows.zip credibilityPpm).map Prod.fst = rows := List.map_fst_zip hlen.ge
  calc
    (rowsOf rows credibilityPpm user).length
        = (((rows.zip credibilityPpm).filter fun e => e.1.user = user).map Prod.fst).length := by
          simp [rowsOf]
    _ = (((rows.zip credibilityPpm).map Prod.fst).filter fun r => r.user = user).length := by
          rw [List.filter_map]
          rfl
    _ = (rows.filter fun r => r.user = user).length := by
          rw [hfst]

theorem CircuitRows.rawSum_lt {rows : List RawRow} {credibilityPpm : List Nat}
    (h : CircuitRows rows) (hlen : credibilityPpm.length = rows.length) (user : UserId) :
    rawSum (rowsOf rows credibilityPpm user) < 2 ^ 128 := by
  have hcount : (rowsOf rows credibilityPpm user).length ≤ 16 := by
    rw [length_rowsOf_eq hlen]
    exact h.perUser user
  have hbound : ∀ x ∈ (rowsOf rows credibilityPpm user).map fun e => e.1.raw, x ≤ 2 ^ 120 := by
    intro x hx
    rcases List.mem_map.1 hx with ⟨e, he, rfl⟩
    exact (h.weight e.1 (mem_of_mem_rowsOf he).1).le
  have hsum := List.sum_le_card_nsmul _ _ hbound
  rw [List.length_map, nsmul_eq_mul, Nat.cast_id] at hsum
  unfold rawSum
  omega

theorem not_feesFit_of_overflow {rowsOfUser : UserId → List (RawRow × Nat)}
    {us : List (UserId × Nat)} (hraw : ∀ u, rawSum (rowsOfUser u) < 2 ^ 128)
    (h : FeesOverflow rowsOfUser us) : ¬ FeesFit rowsOfUser us := by
  intro hfit
  rcases h with ⟨u, -, h⟩ | ⟨w, h⟩ | ⟨u, hu, e, he, h⟩
  · exact absurd (hraw u.1) (by omega)
  · exact absurd (hfit.usage w) (by omega)
  · exact absurd (hfit.products u hu e he) (by omega)

/-- On rows the circuit admits, the payout core returns exactly when the fee products and the
usage of every work fit into 128 bits, and overflows otherwise. -/
theorem allocateFromRawWithRowCredibility_ok_iff {tierFees : BTreeMap UserId Nat}
    {rows : List RawRow} {credibilityPpm : List Nat} (hfees : total tierFees < 2 ^ 128)
    (hrows : CircuitRows rows) (hlen : credibilityPpm.length = rows.length) :
    ((∃ p, allocateFromRawWithRowCredibility tierFees rows credibilityPpm = .ok p) ↔
        FeesFit (rowsOf rows credibilityPpm) tierFees.toList) ∧
      (allocateFromRawWithRowCredibility tierFees rows credibilityPpm =
          .error (.err .overflow) ↔
        ¬ FeesFit (rowsOf rows credibilityPpm) tierFees.toList) := by
  have hshort : ∀ u, (rowsOf rows credibilityPpm u).length < 2 ^ 64 := by
    intro u
    have hcount := hrows.perUser u
    rw [length_rowsOf_eq hlen]
    omega
  have hmeets := allocateFromRawWithRowCredibility_meets hlen hshort hfees
  cases hx : allocateFromRawWithRowCredibility tierFees rows credibilityPpm with
  | ok p =>
      have hp := hmeets.of_ok hx
      simp [hp.fits]
  | error t =>
      rcases hmeets.of_error hx with ⟨rfl, hover⟩
      have hnot := not_feesFit_of_overflow (hrows.rawSum_lt hlen) hover
      simp [hnot]

/-- One subscriber with a fee of `10 ^ 3` and a single row. -/
theorem allocateFromRawWithRowCredibility_ok_iff_small :
    (∃ p, allocateFromRawWithRowCredibility {("u1", 1000)} [⟨"u1", "wA", 60⟩] [1000000] =
      .ok p) ↔
    FeesFit (rowsOf [⟨"u1", "wA", 60⟩] [1000000])
      (Std.ExtTreeMap.toList ({("u1", 1000)} : BTreeMap UserId Nat)) := by
  refine (allocateFromRawWithRowCredibility_ok_iff (by decide +kernel) ⟨?_, ?_⟩ rfl).1
  · intro u
    exact (List.length_filter_le _ _).trans (by decide)
  · simp

/-- A fee of `10 ^ 18` and one weight of `10 ^ 21`, both far inside their bounds, overflow. -/
theorem allocateFromRawWithRowCredibility_overflows :
    ¬ ∀ (tierFees : BTreeMap UserId Nat) (rows : List RawRow) (credibilityPpm : List Nat),
      total tierFees < 2 ^ 128 → CircuitRows rows → credibilityPpm.length = rows.length →
        ∃ p, allocateFromRawWithRowCredibility tierFees rows credibilityPpm = .ok p := by
  intro h
  have hrows : CircuitRows [⟨"u1", "wA", 10 ^ 21⟩] := by
    refine ⟨?_, by simp⟩
    intro u
    exact (List.length_filter_le _ _).trans (by decide)
  rcases h {("u1", 10 ^ 18)} [⟨"u1", "wA", 10 ^ 21⟩] [1000000] (by decide +kernel) hrows rfl
    with ⟨p, hp⟩
  have herr : allocateFromRawWithRowCredibility {("u1", 10 ^ 18)} [⟨"u1", "wA", 10 ^ 21⟩]
      [1000000] = .error (.err .overflow) := by
    rfl
  rw [herr] at hp
  simp at hp

end Dapr
end CleanWeb
