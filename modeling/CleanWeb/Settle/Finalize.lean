import CleanWeb.Dapr.Model
import CleanWeb.Settle.Merkle

/-!
# The settlement computation (`services/settlement/src/settle.rs`)

From the payouts of an epoch to the committable root, the withdrawal proofs and the escrow list.
-/

namespace CleanWeb
namespace Settle

open Lib Lib.Exec Dapr

/-! ## Data -/

structure SettlementEntry where
  workId : Bytes32
  amount : Nat
  proof : List Bytes32
  deriving DecidableEq, Repr

structure EscrowEntry where
  workId : Bytes32
  amount : Nat
  deriving DecidableEq, Repr

/-- The result of settling an epoch, split by recognition tier. -/
structure Settlement where
  epoch : Nat
  merkleRoot : Bytes32
  totalCredits : Nat
  unallocated : Nat
  entries : List SettlementEntry
  escrow : List EscrowEntry
  escrowTotal : Nat
  deriving DecidableEq, Repr

inductive SettleError where
  | dapr (e : DaprError)
  | badWorkId (work : WorkId)
  | noCredits
  deriving DecidableEq, Repr

section

variable (hex : HexCodec) (keccak256 : Keccak)

/-! ## Routing -/

/-- The accumulators of the routing loop of `finalize`. -/
structure RoutePass where
  directIds : List Bytes32
  directAmounts : List Nat
  leaves : List Bytes32
  escrow : List EscrowEntry
  escrowTotal : Nat

/-- `Bytes32::from_str(work_hex).map_err(|_| BadWorkId(work_hex))`. -/
def parseWorkId (workHex : WorkId) : Exec SettleError Bytes32 :=
  mapErr (fun _ => .badWorkId workHex) (Bytes32.fromStr hex workHex)

/-- Route one credited work to escrow (Tier 2) or to the direct tree (Tier 1). -/
def routeStep (escrowWorks : BTreeSet WorkId) (st : RoutePass) (entry : WorkId × Nat) :
    Exec SettleError RoutePass := do
  let work ← parseWorkId hex entry.1
  if escrowWorks.contains entry.1 then
    let escrowTotal ← addU 128 st.escrowTotal entry.2
    pure { st with
      escrow := st.escrow ++ [{ workId := work, amount := entry.2 }]
      escrowTotal := escrowTotal }
  else
    pure { st with
      directIds := st.directIds ++ [work]
      directAmounts := st.directAmounts ++ [entry.2]
      leaves := st.leaves ++ [leafHash keccak256 work entry.2] }

/-- The direct entry at index `i`. -/
def directEntry (st : RoutePass) (tree : MerkleTree) (i : Nat) :
    Exec SettleError SettlementEntry :=
  match st.directIds[i]?, st.directAmounts[i]? with
  | some workId, some amount => pure { workId := workId, amount := amount, proof := tree.proof i }
  | _, _ => panics

/-- The root, the entries and the total of the direct tree. -/
def directTree (st : RoutePass) : Exec SettleError (Bytes32 × List SettlementEntry × Nat) :=
  if st.directIds.isEmpty then pure (0, [], 0)
  else do
    let tree ← MerkleTree.build keccak256 st.leaves
    let root ← tree.root
    let entries ← (List.range st.directIds.length).mapM (directEntry st tree)
    let total ← sumU 128 st.directAmounts
    pure (root, entries, total)

/-- The shared tail of the settlement entry points. -/
def finalize (epoch : Nat) (payouts : Payouts) (escrowWorks : BTreeSet WorkId) :
    Exec SettleError Settlement :=
  if payouts.perWork.isEmpty then fail .noCredits
  else do
    let st ← payouts.perWork.toList.foldlM (routeStep hex keccak256 escrowWorks) ⟨[], [], [], [], 0⟩
    let (root, entries, totalCredits) ← directTree keccak256 st
    pure
      { epoch := epoch
        merkleRoot := root
        totalCredits := totalCredits
        unallocated := payouts.unallocated
        entries := entries
        escrow := st.escrow
        escrowTotal := st.escrowTotal }

/-! ## Entry points -/

/-- Settle a fully opened dataset. -/
def settle (epoch : Nat) (dataset : Dataset) (escrowWorks : BTreeSet WorkId) :
    Exec SettleError Settlement := do
  let payouts ← mapErr .dapr (allocate dataset {})
  finalize hex keccak256 epoch payouts escrowWorks

/-- Settle proven weights with a per-work credibility. -/
def settleRaw (epoch : Nat) (tierFees : BTreeMap UserId Nat) (rows : List RawRow)
    (bandwidthPpm : BTreeMap WorkId Nat) (escrowWorks : BTreeSet WorkId) :
    Exec SettleError Settlement := do
  let payouts ← mapErr .dapr (allocateFromRaw tierFees rows bandwidthPpm)
  finalize hex keccak256 epoch payouts escrowWorks

/-- Settle proven weights with a per-row credibility. -/
def settleRawWithRowCredibility (epoch : Nat) (tierFees : BTreeMap UserId Nat)
    (rows : List RawRow) (credibilityPpm : List Nat) (escrowWorks : BTreeSet WorkId) :
    Exec SettleError Settlement := do
  let payouts ← mapErr .dapr (allocateFromRawWithRowCredibility tierFees rows credibilityPpm)
  finalize hex keccak256 epoch payouts escrowWorks

end

end Settle
end CleanWeb
