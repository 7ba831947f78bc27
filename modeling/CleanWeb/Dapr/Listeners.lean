import CleanWeb.Dapr.Separable

/-!
# Who counts as a listener

The reputation of a work has two signals: how much credited usage its listeners brought, and how
many listeners there were.  The usage is discounted by the bandwidth layer, row by row; the row loop
records the user before it looks at what the row was credited, so a row credited nothing still
brings a listener.  Both signals are then those of credited listening exactly when no fee payer has
a work on which every row is credited nothing.
-/

namespace CleanWeb
namespace Dapr

open Lib Lib.Exec Lib.BTreeMap

/-! ## The signals of credited listening -/

/-- What a row is credited under its credibility, clamped to neutral. -/
def creditedOf (e : RawRow × Nat) : Nat :=
  e.1.raw * min e.2 1000000 / 1000000

/-- The fee payers with at least one row on `w` that is credited something. -/
def creditedOn (tierFees : BTreeMap UserId Nat) (rows : List RawRow) (credibilityPpm : List Nat)
    (w : WorkId) : List UserId :=
  tierFees.keys.filter fun user => ∃ e ∈ rows.zip credibilityPpm,
    e.1.user = user ∧ e.1.work = w ∧ 0 < creditedOf e

/-- The reputation counts credited listening only. -/
structure CountsCredited (tierFees : BTreeMap UserId Nat) (rows : List RawRow)
    (credibilityPpm : List Nat) (p : Payouts) : Prop where
  weightedUsage : ∀ w, (p.reputation.getD w .zero).weightedUsage =
    (((rows.zip credibilityPpm).filter fun e => e.1.user ∈ tierFees ∧ e.1.work = w).map
      creditedOf).sum
  distinctUsers : ∀ w, (p.reputation.getD w .zero).distinctUsers =
    (creditedOn tierFees rows credibilityPpm w).length
  usage_pos : ∀ w, 0 < (p.reputation.getD w .zero).distinctUsers →
    0 < (p.reputation.getD w .zero).weightedUsage

/-- Every fee payer with a row on a work has a row on it whose weight survives the discount. -/
def Evidenced (tierFees : BTreeMap UserId Nat) (rows : List RawRow)
    (credibilityPpm : List Nat) : Prop :=
  ∀ e ∈ rows.zip credibilityPpm, e.1.user ∈ tierFees →
    ∃ e' ∈ rows.zip credibilityPpm, e'.1.user = e.1.user ∧ e'.1.work = e.1.work ∧
      1000000 ≤ e'.1.raw * min e'.2 1000000

theorem creditedOf_pos {e : RawRow × Nat} :
    0 < creditedOf e ↔ 1000000 ≤ e.1.raw * min e.2 1000000 := by
  rw [creditedOf, Nat.div_pos_iff]
  exact and_iff_right (by decide)

/-! ## The usage -/

variable {tierFees : BTreeMap UserId Nat} {rows : List RawRow} {credibilityPpm : List Nat}
  {p : Payouts}

/-- The credited usage of the rows on `w`, recorded under their users. -/
def usageBy (rows : List RawRow) (credibilityPpm : List Nat) (w : WorkId) : List (UserId × Nat) :=
  ((rows.zip credibilityPpm).filter fun e => e.1.work = w).map fun e => (e.1.user, creditedOf e)

theorem amountAt_usageOf (user : UserId) (w : WorkId) :
    amountAt w (usageOf (rowsOf rows credibilityPpm user)) =
      amountAt user (usageBy rows credibilityPpm w) := by
  -- Both select the rows of `user` on `w`, by one key before the other.
  simp only [amountAt, usageOf, usageBy, rowsOf, List.map_map, List.filter_map, List.filter_filter,
    Function.comp_def, credOf, creditedOf, Bool.and_comm]

theorem mem_keys {user : UserId} : user ∈ tierFees.toList.map Prod.fst ↔ user ∈ tierFees := by
  rw [Std.ExtTreeMap.map_fst_toList_eq_keys, Std.ExtTreeMap.mem_keys]

/-- User by user or row by row, the usage of a work is the same. -/
theorem sum_usage (w : WorkId) :
    amountAt w (tierFees.toList.flatMap fun u => usageOf (rowsOf rows credibilityPpm u.1)) =
      (((rows.zip credibilityPpm).filter fun e => e.1.user ∈ tierFees ∧ e.1.work = w).map
        creditedOf).sum := by
  calc
    amountAt w (tierFees.toList.flatMap fun u => usageOf (rowsOf rows credibilityPpm u.1))
        = ((tierFees.toList.map Prod.fst).map fun user =>
            amountAt user (usageBy rows credibilityPpm w)).sum := by
          rw [amountAt_flatMap, List.map_map]
          simp only [amountAt_usageOf, Function.comp_def]
    _ = (((usageBy rows credibilityPpm w).filter fun e =>
            e.1 ∈ tierFees.toList.map Prod.fst).map Prod.snd).sum :=
          sum_amountAt (nodup_keys tierFees) _
    _ = (((rows.zip credibilityPpm).filter fun e => e.1.user ∈ tierFees ∧ e.1.work = w).map
          creditedOf).sum := by
          simp only [mem_keys, usageBy, List.filter_map, List.filter_filter, List.map_map,
            Function.comp_def, Bool.decide_and]

/-! ## The listeners -/

theorem mem_usersOn {user : UserId} {w : WorkId} :
    user ∈ usersOn (rowsOf rows credibilityPpm) tierFees.toList w ↔
      user ∈ tierFees ∧ ∃ e ∈ rows.zip credibilityPpm, e.1.user = user ∧ e.1.work = w := by
  rw [usersOn, List.mem_filter, mem_keys, decide_eq_true_eq]
  refine and_congr_right fun _ => ?_
  simp [rowsOf, and_assoc]

theorem mem_creditedOn {user : UserId} {w : WorkId} :
    user ∈ creditedOn tierFees rows credibilityPpm w ↔
      user ∈ tierFees ∧ ∃ e ∈ rows.zip credibilityPpm,
        e.1.user = user ∧ e.1.work = w ∧ 0 < creditedOf e := by
  rw [creditedOn, List.mem_filter, Std.ExtTreeMap.mem_keys, decide_eq_true_eq]

/-- The credited listeners are among those counted. -/
theorem creditedOn_sublist (w : WorkId) :
    (creditedOn tierFees rows credibilityPpm w).Sublist
      (usersOn (rowsOf rows credibilityPpm) tierFees.toList w) := by
  rw [usersOn, Std.ExtTreeMap.map_fst_toList_eq_keys, creditedOn]
  refine List.monotone_filter_right _ ?_
  intro user huser
  rw [decide_eq_true_eq] at huser ⊢
  rcases huser with ⟨e, he, rfl, rfl, -⟩
  exact List.mem_map.2 ⟨(e.1, min e.2 1000000), List.mem_map.2 ⟨e, by simp [he], rfl⟩, rfl⟩

/-- The two counts agree when whoever has a row on the work has a credited one. -/
theorem length_creditedOn_eq_iff (w : WorkId) :
    (usersOn (rowsOf rows credibilityPpm) tierFees.toList w).length =
        (creditedOn tierFees rows credibilityPpm w).length ↔
      ∀ user ∈ usersOn (rowsOf rows credibilityPpm) tierFees.toList w,
        user ∈ creditedOn tierFees rows credibilityPpm w := by
  have hsub := @creditedOn_sublist tierFees rows credibilityPpm w
  constructor
  · intro hlen user huser
    rwa [hsub.eq_of_length hlen.symm]
  · intro hall
    apply Nat.le_antisymm
    · have hnodup : (usersOn (rowsOf rows credibilityPpm) tierFees.toList w).Nodup :=
        (nodup_keys tierFees).filter _
      exact (hnodup.subperm hall).length_le
    · exact hsub.length_le

/-! ## The reputation of a returned allocation -/

/-- What the two accumulators hold at the end: all of the credited usage, and everyone with a
row. -/
theorem reputation_of_allocate (hrows : rows.length < 2 ^ 64)
    (h : allocateFromRawWithRowCredibility tierFees rows credibilityPpm = .ok p) (w : WorkId) :
    p.reputation.getD w .zero =
      ⟨(usersOn (rowsOf rows credibilityPpm) tierFees.toList w).length,
        (((rows.zip credibilityPpm).filter fun e => e.1.user ∈ tierFees ∧ e.1.work = w).map
          creditedOf).sum⟩ := by
  rcases allocate_ok h with ⟨st, hst, rfl⟩
  rw [reputation_getD hrows hst (nodup_keys _), sum_usage]

/-- One credited listener is usage. -/
theorem usage_pos_of_mem {user : UserId} {w : WorkId}
    (h : user ∈ creditedOn tierFees rows credibilityPpm w) :
    0 < (((rows.zip credibilityPpm).filter fun e => e.1.user ∈ tierFees ∧ e.1.work = w).map
      creditedOf).sum := by
  rcases mem_creditedOn.1 h with ⟨hfee, e, he, rfl, rfl, hpos⟩
  have hmem : creditedOf e ∈ ((rows.zip credibilityPpm).filter fun e' =>
      e'.1.user ∈ tierFees ∧ e'.1.work = e.1.work).map creditedOf :=
    List.mem_map_of_mem (List.mem_filter.2 ⟨he, by simp [hfee]⟩)
  calc
    0 < creditedOf e := hpos
    _ ≤ _ := List.single_le_sum (by simp) _ hmem

/-- For every returned allocation: the reputation counts credited listening only exactly when every
fee payer with a row on a work has one there whose weight survives the discount. -/
theorem reputation_credited_iff (tierFees : BTreeMap UserId Nat) (rows : List RawRow)
    (credibilityPpm : List Nat) (p : Payouts) (hrows : rows.length < 2 ^ 64)
    (h : allocateFromRawWithRowCredibility tierFees rows credibilityPpm = .ok p) :
    CountsCredited tierFees rows credibilityPpm p ↔ Evidenced tierFees rows credibilityPpm := by
  have hrep := reputation_of_allocate hrows h
  constructor
  · -- Equal counts leave no room for a listener without credit.
    intro hcounts e he hfee
    have hlen := hcounts.distinctUsers e.1.work
    rw [hrep, length_creditedOn_eq_iff] at hlen
    have huser := hlen e.1.user (mem_usersOn.2 ⟨hfee, e, he, rfl, rfl⟩)
    rcases mem_creditedOn.1 huser with ⟨-, e', he', huser', hwork', hpos⟩
    exact ⟨e', he', huser', hwork', creditedOf_pos.1 hpos⟩
  · intro hevidence
    have hall : ∀ w, ∀ user ∈ usersOn (rowsOf rows credibilityPpm) tierFees.toList w,
        user ∈ creditedOn tierFees rows credibilityPpm w := by
      intro w user huser
      rcases mem_usersOn.1 huser with ⟨hfee, e, he, rfl, rfl⟩
      rcases hevidence e he hfee with ⟨e', he', huser', hwork', hpos⟩
      exact mem_creditedOn.2 ⟨hfee, e', he', huser', hwork', creditedOf_pos.2 hpos⟩
    refine ⟨?_, ?_, ?_⟩
    · intro w
      rw [hrep]
    · intro w
      rw [hrep]
      exact (length_creditedOn_eq_iff w).2 (hall w)
    · intro w
      rw [hrep]
      intro hpos
      rcases List.exists_mem_of_length_pos hpos with ⟨user, huser⟩
      exact usage_pos_of_mem (hall w user huser)

/-- A subscriber with a row that was discredited next to one that was not. -/
theorem reputation_credited_iff_mixed :
    ∃ p, CountsCredited {("u1", 10)} [⟨"u1", "wA", 2⟩, ⟨"u1", "wA", 5⟩] [500000, 0] p := by
  have htrap : trap (allocateFromRawWithRowCredibility {("u1", 10)}
      [⟨"u1", "wA", 2⟩, ⟨"u1", "wA", 5⟩] [500000, 0]) = none := by
    decide +kernel
  rcases exists_ok_of_trap htrap with ⟨p, hp⟩
  refine ⟨p, (reputation_credited_iff _ _ _ p (by decide) hp).2 ?_⟩
  have hevidence : ∀ e ∈ [(⟨"u1", "wA", 2⟩, 500000), ((⟨"u1", "wA", 5⟩, 0) : RawRow × Nat)],
      e.1.user = "u1" ∧ e.1.work = "wA" := by
    decide
  intro e he _
  rcases hevidence e he with ⟨huser, hwork⟩
  exact ⟨(⟨"u1", "wA", 2⟩, 500000), by simp, huser.symm, hwork.symm, by decide⟩

/-- A listener whose only row is credited nothing is counted all the same. -/
theorem reputation_discredited :
    ∃ p, allocateFromRawWithRowCredibility {("u1", 10)} [⟨"u1", "wA", 5⟩] [0] = .ok p ∧
      p.reputation.getD "wA" .zero = ⟨1, 0⟩ ∧
      creditedOn {("u1", 10)} [⟨"u1", "wA", 5⟩] [0] "wA" = [] ∧
      ¬ CountsCredited {("u1", 10)} [⟨"u1", "wA", 5⟩] [0] p := by
  have htrap : trap (allocateFromRawWithRowCredibility {("u1", 10)} [⟨"u1", "wA", 5⟩] [0]) =
      none := by
    decide +kernel
  rcases exists_ok_of_trap htrap with ⟨p, hp⟩
  have hrep : p.reputation.getD "wA" .zero = ⟨1, 0⟩ := by
    rw [reputation_of_allocate (by decide) hp]
    decide +kernel
  refine ⟨p, hp, hrep, by decide +kernel, ?_⟩
  intro hcounts
  -- A listener would have to bring usage.
  have hpos := hcounts.usage_pos "wA"
  rw [hrep] at hpos
  exact absurd (hpos Nat.one_pos) (Nat.lt_irrefl 0)

end Dapr
end CleanWeb
