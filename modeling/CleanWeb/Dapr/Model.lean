import Mathlib.Data.List.Sort
import Mathlib.Data.String.Basic
import CleanWeb.Lib.Exec
import CleanWeb.Lib.BTreeMap

/-!
# The payout library `cwe_dapr` (`sims/src/lib.rs`)

The usage-to-payout computation, function by function.  `u128` and `u64` values are naturals and
every operator carries its own range check: `checked_*` returns `DaprError.overflow`, a plain
operator panics (`Lib.Exec`).  Loops over a `Vec` or a `BTreeMap` are monadic folds in iteration
order.
-/

namespace CleanWeb
namespace Dapr

open Lib Lib.Exec

/-! ## Data -/

/-- Identifier for a subscriber. -/
abbrev UserId := String

/-- Identifier for a work. -/
abbrev WorkId := String

/-- Errors the DAPR computation can raise. -/
inductive DaprError where
  | overflow
  | rowCredibilityLen
  deriving DecidableEq, Repr

/-- One user's time on one work, with the pricing that applied. -/
structure UsageRow where
  user : UserId
  work : WorkId
  minutes : Nat
  pricePpm : Nat
  regionPpm : Nat
  plays : Nat
  deriving DecidableEq, Repr

/-- What each user paid, and every usage row for the epoch. -/
structure Dataset where
  tierFees : BTreeMap UserId Nat
  usage : List UsageRow
  bandwidthPpm : BTreeMap WorkId Nat

/-- Governance-tunable parameters. -/
structure DaprParams where
  diminishingKPpm : Nat := 1000000

/-- A usage row already reduced to its proven `raw` weight. -/
structure RawRow where
  user : UserId
  work : WorkId
  raw : Nat
  deriving DecidableEq, Repr

/-- A per-work discovery signal. -/
structure Reputation where
  distinctUsers : Nat
  weightedUsage : Nat
  deriving DecidableEq, Repr

/-- How much each work is owed, and the fee that reached no work. -/
structure Payouts where
  perWork : BTreeMap WorkId Nat
  unallocated : Nat
  reputation : BTreeMap WorkId Reputation

/-- `values().copied().sum()` over the tier fees. -/
def Dataset.totalFees (d : Dataset) : Exec DaprError Nat :=
  sumU 128 (d.tierFees.toList.map Prod.snd)

/-- Total credit routed to works. -/
def Payouts.totalToWorks (p : Payouts) : Exec DaprError Nat :=
  sumU 128 (p.perWork.toList.map Prod.snd)

/-! ## Row weights -/

/-- `a · b / denom` through a 256-bit intermediate. -/
def mulDiv (a b denom : Nat) : Exec DaprError Nat :=
  if denom = 0 then fail .overflow
  else
    let quot := a * b / denom
    if quot < 2 ^ 128 then .ok quot else fail .overflow

/-- The row's raw value `minutes · price_ppm · region_ppm`. -/
def UsageRow.value (row : UsageRow) : Exec DaprError Nat :=
  okOr ((checkedMul 128 row.minutes row.pricePpm).bind (checkedMul 128 · row.regionPpm)) .overflow

/-- Upper bound on the play count `dPpm` iterates over. -/
def playsCap : Nat := 100000

/-- One iteration of the loop of `dPpm`: add the `j`-th play's value in ppm. -/
def dPpmStep (kPpm sumPpm j : Nat) : Exec DaprError Nat := do
  let prev ← subU j 1
  let scaled ← mulU 128 kPpm prev
  let denomPpm ← addU 128 1000000 scaled
  let term ← divU (1000000 * 1000000) denomPpm
  addU 128 sumPpm term

/-- The diminishing-returns multiplier for `plays` repeat plays, in ppm. -/
def dPpm (plays kPpm : Nat) : Exec DaprError Nat := do
  let v := max 1 (min plays playsCap)
  let sumPpm ← (List.range' 1 v).foldlM (dPpmStep kPpm) 0
  pure (sumPpm / v % 2 ^ 64)

/-- The bandwidth credibility for `work`: neutral when absent, never above neutral. -/
def bwPpm (bandwidthPpm : BTreeMap WorkId Nat) (work : WorkId) : Nat :=
  min (bandwidthPpm.getD work 1000000) 1000000

/-! ## Apportionment -/

/-- The accumulators of the flooring loop of `apportion`. -/
structure FloorPass where
  base : List Nat
  remainders : List Nat
  assigned : Nat

/-- One iteration of the flooring loop. -/
def floorStep (total weightSum : Nat) (st : FloorPass) (w : Nat) : Exec DaprError FloorPass := do
  let numerator ← okOr (checkedMul 128 total w) .overflow
  let floor ← divU numerator weightSum
  let rem := numerator % weightSum
  let assigned ← addU 128 st.assigned floor
  pure { base := st.base ++ [floor], remainders := st.remainders ++ [rem], assigned := assigned }

/-- The comparison `order` is sorted by: larger remainder first, then lower index. -/
def RanksBefore (remainders : List Nat) (a b : Nat) : Prop :=
  remainders.getD b 0 < remainders.getD a 0 ∨
    (remainders.getD b 0 = remainders.getD a 0 ∧ a ≤ b)

instance (remainders : List Nat) : DecidableRel (RanksBefore remainders) := by
  intro a b
  unfold RanksBefore
  infer_instance

/-- `base[idx] += 1`. -/
def bumpAt (base : List Nat) (idx : Nat) : Exec DaprError (List Nat) :=
  match base[idx]? with
  | none => panics
  | some b => do
      let b' ← addU 128 b 1
      pure (base.set idx b')

/-- Split `total` in proportion to `weights`, by largest remainder. -/
def apportion (total : Nat) (weights : List Nat) (weightSum : Nat) :
    Exec DaprError (List Nat) := do
  let pass ← weights.foldlM (floorStep total weightSum) ⟨[], [], 0⟩
  let leftover ← subU total pass.assigned
  let order := (List.range weights.length).insertionSort (RanksBefore pass.remainders)
  -- `leftover as usize` keeps the low 64 bits.
  (order.take (leftover % 2 ^ 64)).foldlM bumpAt pass.base

/-! ## Allocation -/

/-- The accumulators of the pass over one user's rows. -/
structure RowPass where
  creds : List Nat
  rwU : Nat
  sumCred : Nat
  repUsage : BTreeMap WorkId Nat
  repUsers : BTreeMap WorkId (BTreeSet UserId)

/-- One row of the user: its credited weight, the user's totals and the reputation signal. -/
def rowStep (user : UserId) (st : RowPass) (entry : RawRow × Nat) : Exec DaprError RowPass := do
  let row := entry.1
  let cred ← mulDiv row.raw entry.2 1000000
  let rwU ← okOr (checkedAdd 128 st.rwU row.raw) .overflow
  let sumCred ← okOr (checkedAdd 128 st.sumCred cred) .overflow
  let updated ← okOr (checkedAdd 128 (st.repUsage.getD row.work 0) cred) .overflow
  pure
    { creds := st.creds ++ [cred]
      rwU := rwU
      sumCred := sumCred
      repUsage := st.repUsage.insert row.work updated
      repUsers := st.repUsers.insert row.work ((st.repUsers.getD row.work ∅).insert user) }

/-- `*per_work.entry(work).or_insert(0) += share`, checked. -/
def payShare (perWork : BTreeMap WorkId Nat) (entry : (RawRow × Nat) × Nat) :
    Exec DaprError (BTreeMap WorkId Nat) := do
  let work := entry.1.1.work
  let paid ← okOr (checkedAdd 128 (perWork.getD work 0) entry.2) .overflow
  pure (perWork.insert work paid)

/-- The accumulators of the pass over the tier fees. -/
structure FeePass where
  perWork : BTreeMap WorkId Nat
  unallocated : Nat
  repUsage : BTreeMap WorkId Nat
  repUsers : BTreeMap WorkId (BTreeSet UserId)

/-- Apportion one paying user's fee. -/
def userStep (rowsByUser : BTreeMap UserId (List (RawRow × Nat))) (st : FeePass)
    (entry : UserId × Nat) : Exec DaprError FeePass := do
  let user := entry.1
  let fee := entry.2
  let userRows := rowsByUser.getD user []
  let pass ← userRows.foldlM (rowStep user) ⟨[], 0, 0, st.repUsage, st.repUsers⟩
  if pass.rwU = 0 ∨ pass.sumCred = 0 then
    let unallocated ← okOr (checkedAdd 128 st.unallocated fee) .overflow
    pure ⟨st.perWork, unallocated, pass.repUsage, pass.repUsers⟩
  else
    let target ← mulDiv fee pass.sumCred pass.rwU
    let short ← okOr (checkedSub fee target) .overflow
    let unallocated ← okOr (checkedAdd 128 st.unallocated short) .overflow
    let shares ← apportion target pass.creds pass.sumCred
    let perWork ← (userRows.zip shares).foldlM payShare st.perWork
    pure ⟨perWork, unallocated, pass.repUsage, pass.repUsers⟩

/-- Rows grouped by user, in order, each with its credibility clamped to neutral. -/
def groupRows (rows : List RawRow) (credibilityPpm : List Nat) :
    BTreeMap UserId (List (RawRow × Nat)) :=
  (rows.zip credibilityPpm).foldl
    (fun m e => m.insert e.1.user (m.getD e.1.user [] ++ [(e.1, min e.2 1000000)])) ∅

/-- The payout core: per-row weights with a per-row credibility. -/
def allocateFromRawWithRowCredibility (tierFees : BTreeMap UserId Nat) (rows : List RawRow)
    (credibilityPpm : List Nat) : Exec DaprError Payouts :=
  if credibilityPpm.length ≠ rows.length then fail .rowCredibilityLen
  else do
    let rowsByUser := groupRows rows credibilityPpm
    let pass ← tierFees.toList.foldlM (userStep rowsByUser) ⟨∅, 0, ∅, ∅⟩
    let reputation := pass.repUsage.map fun w weightedUsage =>
      { distinctUsers := (pass.repUsers.getD w ∅).size % 2 ^ 64, weightedUsage := weightedUsage }
    pure ⟨pass.perWork, pass.unallocated, reputation⟩

/-- As above, with a per-work credibility map. -/
def allocateFromRaw (tierFees : BTreeMap UserId Nat) (rows : List RawRow)
    (bandwidthPpm : BTreeMap WorkId Nat) : Exec DaprError Payouts :=
  allocateFromRawWithRowCredibility tierFees rows (rows.map fun r => bwPpm bandwidthPpm r.work)

/-- Reduce a usage row to its weight. -/
def rawRowOf (kPpm : Nat) (row : UsageRow) : Exec DaprError RawRow := do
  let value ← row.value
  let d ← dPpm row.plays kPpm
  let raw ← mulDiv value d 1000000
  pure { user := row.user, work := row.work, raw := raw }

/-- Compute per-work payouts from a dataset. -/
def allocate (dataset : Dataset) (params : DaprParams) : Exec DaprError Payouts := do
  let rawRows ← dataset.usage.mapM (rawRowOf params.diminishingKPpm)
  allocateFromRaw dataset.tierFees rawRows dataset.bandwidthPpm

end Dapr
end CleanWeb
