import CleanWeb.Contracts.Payouts
import CleanWeb.Contracts.Records
import CleanWeb.Lib.Callback
import CleanWeb.Settle.Finalize

/-!
# The payout pool with its registry

The contract sees a root and a total; the world also keeps the entries of the settlement that each
committed epoch was made from, and the withdrawals so far.  `poolSystem` is the machine, and
`PoolEffect` says once what a call can do to the world.
-/

namespace CleanWeb
namespace Contracts

open Lib Lib.Exec Settle

/-! ## The world -/

/-- The functions outside the contracts, and the addresses fixed at deployment. -/
structure PoolDeployment where
  hex : HexCodec
  keccak256 : Keccak
  ecrecover : Ecrecover
  aggregator : Address
  identityOwner : Address
  registryOwner : Address
  timestamp : Nat

/-- A settlement that the job has produced, of pairwise distinct works. -/
structure FinalizedSettlement (d : PoolDeployment) where
  settlement : Settlement
  produced : ∃ epoch payouts escrowWorks,
    finalize d.hex d.keccak256 epoch payouts escrowWorks = .ok settlement
  distinct : (settlement.entries.map SettlementEntry.workId).Nodup

structure PoolWorld extends Records where
  timestamp : Nat
  payouts : CWEPayouts
  /-- The entries behind each committed epoch. -/
  entries : Nat → List SettlementEntry
  /-- The `Withdrawn` events. -/
  history : List (Nat × Bytes32 × Nat)

inductive PoolCall (d : PoolDeployment) where
  | records (c : RecordCall)
  | commitEpoch (epochId : Nat) (s : FinalizedSettlement d)
  | withdraw (epochId : Nat) (workId : Bytes32) (amount : Nat) (proof : List Bytes32)

inductive PoolInput (d : PoolDeployment) where
  | elapse (seconds : Nat)
  | receive (value : Nat)
  | tx (sender : Address) (c : PoolCall d)

variable {d : PoolDeployment}

namespace PoolWorld

def init (d : PoolDeployment) : PoolWorld :=
  { identity := CWEIdentity.init d.identityOwner
    registry := CWERegistry.init d.registryOwner
    timestamp := d.timestamp
    payouts := CWEPayouts.init
    entries := fun _ => []
    history := [] }

def exec (w : PoolWorld) (sender : Address) : PoolCall d → Exec Revert (PoolWorld × Option Payment)
  | .records c => do
      let records ← w.toRecords.exec d.keccak256 d.ecrecover w.timestamp sender c
      pure ({ w with toRecords := records }, none)
  | .commitEpoch epochId s => do
      let payouts ←
        CWEPayouts.commitEpoch d.aggregator w.payouts sender epochId s.settlement.merkleRoot
          s.settlement.totalCredits
      pure ({ w with
        payouts := payouts
        entries := Function.update w.entries epochId s.settlement.entries }, none)
  | .withdraw epochId workId amount proof => do
      let (payouts, s) ←
        CWEPayouts.withdraw d.keccak256 w.registry w.payouts epochId workId amount proof
      pure ({ w with
        payouts := payouts
        history := w.history ++ [(epochId, workId, amount)] }, some s.payment)

def input (w : PoolWorld) : PoolInput d → Exec Revert (PoolWorld × Option Payment)
  | .elapse seconds => pure ({ w with timestamp := w.timestamp + seconds }, none)
  | .receive value => pure ({ w with payouts := w.payouts.receive value }, none)
  | .tx sender c => w.exec sender c

/-- The rest of a withdrawal, once a payee has accepted. -/
def resume (w : PoolWorld) (p : Payment) : Exec Revert (PoolWorld × Option Payment) := do
  let (payouts, sending) ← w.payouts.payeeReturned p
  pure ({ w with payouts := payouts }, sending.map Payment.Sending.payment)

/-- A withdrawal from a committed epoch is of one of its entries. -/
def listed (w : PoolWorld) : PoolInput d → Bool
  | .tx _ (.withdraw epochId workId amount proof) =>
      !w.payouts.epochCommitted epochId || decide (⟨workId, amount, proof⟩ ∈ w.entries epochId)
  | _ => true

/-- Inside a transaction time stands still, and the aggregator is not among the callers. -/
def admits (w : PoolWorld) (nested : List Payment) (k : PoolInput d) : Bool :=
  w.listed k && (nested.isEmpty || match k with
    | .elapse _ => false
    | .receive _ => true
    | .tx sender _ => sender != d.aggregator)

end PoolWorld

def poolSystem (d : PoolDeployment) : Machine PoolWorld (PoolInput d) Payment Revert :=
  { admits := PoolWorld.admits
    call := PoolWorld.input
    resume := PoolWorld.resume }

/-! ## What a call can do -/

/-- One successful call on `w`, with the payments `ps` under way. -/
inductive PoolEffect (d : PoolDeployment) (w : PoolWorld) (ps : List Payment) :
    PoolWorld × Option Payment → Prop where
  | elapse (seconds : Nat) :
      PoolEffect d w ps ({ w with timestamp := w.timestamp + seconds }, none)
  | receive (value : Nat) : PoolEffect d w ps ({ w with payouts := w.payouts.receive value }, none)
  | records (c : RecordCall) (records : Records)
      (heffect : RecordEffect w.timestamp w.toRecords c records) :
      PoolEffect d w ps ({ w with toRecords := records }, none)
  | commitEpoch (epochId : Nat) (s : FinalizedSettlement d) (hrest : ps = [])
      (hfresh : w.payouts.epochCommitted epochId = false)
      (hfit : w.payouts.liability + s.settlement.totalCredits < 2 ^ 256)
      (hfunds : w.payouts.liability + s.settlement.totalCredits ≤ w.payouts.balance) :
      PoolEffect d w ps ({ w with
        payouts := { w.payouts with
          epochRoot := Function.update w.payouts.epochRoot epochId s.settlement.merkleRoot
          epochTotal := Function.update w.payouts.epochTotal epochId s.settlement.totalCredits
          epochCommitted := Function.update w.payouts.epochCommitted epochId true
          liability := w.payouts.liability + s.settlement.totalCredits }
        entries := Function.update w.entries epochId s.settlement.entries }, none)
  | withdraw (epochId : Nat) (e : SettlementEntry) (s : Payment.Sending)
      (hlisted : e ∈ w.entries epochId)
      (hstatus : w.payouts.status = .notEntered)
      (hwithdrawn : w.payouts.withdrawn (epochId, e.workId) = false)
      (hpayees : w.registry.payeesOf e.workId ≠ [])
      (hamount : e.amount ≤ w.payouts.liability)
      (hsend : Payment.send w.payouts.balance
        (CWEPayouts.payment w.registry epochId e.workId e.amount) = .ok s) :
      PoolEffect d w ps ({ w with
        payouts := w.payouts.withdrawing epochId e.workId e.amount s.balance
        history := w.history ++ [(epochId, e.workId, e.amount)] }, some s.payment)

theorem poolEffect_of_call {w : PoolWorld} {ps : List Payment} {k : PoolInput d}
    {out : PoolWorld × Option Payment} (hallowed : w.admits ps k = true)
    (h : w.input k = .ok out) : PoolEffect d w ps out := by
  cases k with
  | elapse seconds =>
      cases h
      exact .elapse seconds
  | receive value =>
      cases h
      exact .receive value
  | tx sender c =>
      cases c with
      | records c =>
          rcases bind_eq_ok.1 h with ⟨records, hrecords, h⟩
          cases h
          exact .records c records (recordEffect_of_exec hrecords)
      | commitEpoch epochId s =>
          rcases bind_eq_ok.1 h with ⟨payouts, hcommit, h⟩
          cases h
          rcases CWEPayouts.commitEpoch_cases hcommit with ⟨rfl, hfresh, hfit, hfunds, rfl⟩
          have hrest : ps = [] := by
            simpa [PoolWorld.admits, PoolWorld.listed] using hallowed
          exact .commitEpoch epochId s hrest hfresh hfit hfunds
      | withdraw epochId workId amount proof =>
          rcases bind_eq_ok.1 h with ⟨⟨payouts, s⟩, hwithdraw, h⟩
          cases h
          rcases CWEPayouts.withdraw_cases hwithdraw with
            ⟨hstatus, hcommitted, hwithdrawn, hpayees, hamount, hsend, hpayouts⟩
          dsimp only at hsend hpayouts
          subst hpayouts
          have hlisted : ⟨workId, amount, proof⟩ ∈ w.entries epochId := by
            simp only [PoolWorld.admits, PoolWorld.listed, hcommitted, Bool.not_true,
              Bool.false_or, Bool.and_eq_true, decide_eq_true_eq] at hallowed
            exact hallowed.1
          exact .withdraw epochId ⟨workId, amount, proof⟩ s hlisted hstatus hwithdrawn hpayees
            hamount hsend

theorem poolResume_cases {w : PoolWorld} {p : Payment} {out : PoolWorld × Option Payment}
    (h : w.resume p = .ok out) :
    (p.advance = none ∧
        out = ({ w with payouts := { w.payouts with status := .notEntered } }, none)) ∨
      ∃ q s, p.advance = some q ∧ Payment.send w.payouts.balance q = .ok s ∧
        out = ({ w with payouts := { w.payouts with balance := s.balance } }, some s.payment) := by
  rcases bind_eq_ok.1 h with ⟨⟨payouts, sending⟩, hreturned, h⟩
  cases h
  rcases CWEPayouts.payeeReturned_cases hreturned with ⟨hlast, heq⟩ | ⟨q, s, hnext, hsend, heq⟩
  · cases heq
    exact Or.inl ⟨hlast, rfl⟩
  · cases heq
    exact Or.inr ⟨q, s, hnext, hsend, rfl⟩

end Contracts
end CleanWeb
