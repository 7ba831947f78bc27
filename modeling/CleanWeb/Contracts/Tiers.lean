import CleanWeb.Contracts.Consumption
import CleanWeb.Contracts.Identity

/-!
# Subscription tiers (`contracts/CWETiers.sol`)

The fee table and the payments.  Histories interleave the calls of this contract with consumption
submissions; every successful subscription is recorded as a payment.
-/

namespace CleanWeb
namespace Contracts

open Lib Lib.Exec

/-! ## The contract -/

structure CWETiers where
  owner : Address
  fees : Bytes32 → Nat
  activeTier : Address → Bytes32
  payoutPool : Address

namespace CWETiers

def init (initialOwner : Address) : CWETiers :=
  ⟨initialOwner, fun _ => 0, fun _ => 0, 0⟩

def setFee (st : CWETiers) (sender : Address) (tierId : Bytes32) (fee : Nat) :
    Exec Revert CWETiers := do
  onlyOwner st.owner sender
  pure { st with fees := Function.update st.fees tierId fee }

def setPayoutPool (st : CWETiers) (sender pool : Address) : Exec Revert CWETiers := do
  onlyOwner st.owner sender
  pure { st with payoutPool := pool }

def feeOf (st : CWETiers) (tierId : Bytes32) : Nat :=
  st.fees tierId

/-- `forwarded` is whether the pool takes the fee. -/
def subscribe (st : CWETiers) (sender : Address) (value : Nat) (forwarded : Bool)
    (tierId : Bytes32) : Exec Revert CWETiers :=
  let fee := st.fees tierId
  if fee = 0 then fail (.unknownTier tierId)
  else if value ≠ fee then fail (.wrongFee value fee)
  else if st.payoutPool = 0 then fail .payoutPoolUnset
  else if !forwarded then fail .feeForwardFailed
  else .ok { st with activeTier := Function.update st.activeTier sender tierId }

end CWETiers

/-! ## Histories -/

/-- A payment taken by `subscribe`. -/
structure TierPayment where
  user : Address
  tierId : Bytes32
  amount : Nat
  deriving DecidableEq, Repr

/-- A transaction to either contract. -/
inductive TierAction where
  | setFee (sender : Address) (tierId : Bytes32) (fee : Nat)
  | setPayoutPool (sender pool : Address)
  | transferOwnership (sender newOwner : Address)
  | subscribe (sender : Address) (value : Nat) (forwarded : Bool) (tierId : Bytes32)
  | submitConsumption (c : Submission)

/-- Both contracts, their log, and every payment taken so far. -/
structure TierWorld where
  tiers : CWETiers
  consumption : CWEConsumption × List ConsumptionSubmitted
  payments : List TierPayment

namespace TierWorld

def init (owner : Address) : TierWorld :=
  ⟨CWETiers.init owner, (CWEConsumption.init, []), []⟩

/-- A transaction takes effect or reverts. -/
def next (w : TierWorld) : TierAction → TierWorld
  | .setFee sender tierId fee =>
      match w.tiers.setFee sender tierId fee with
      | .ok tiers => { w with tiers := tiers }
      | .error _ => w
  | .setPayoutPool sender pool =>
      match w.tiers.setPayoutPool sender pool with
      | .ok tiers => { w with tiers := tiers }
      | .error _ => w
  | .transferOwnership sender newOwner =>
      match transferOwnership w.tiers.owner sender newOwner with
      | .ok owner => { w with tiers := { w.tiers with owner := owner } }
      | .error _ => w
  | .subscribe sender value forwarded tierId =>
      match w.tiers.subscribe sender value forwarded tierId with
      | .ok tiers =>
          { w with tiers := tiers, payments := w.payments ++ [⟨sender, tierId, value⟩] }
      | .error _ => w
  | .submitConsumption c => { w with consumption := CWEConsumption.next w.consumption c }

def run (owner : Address) (history : List TierAction) : TierWorld :=
  history.foldl next (init owner)

def log (w : TierWorld) : List ConsumptionSubmitted :=
  w.consumption.2

/-- The submissions among the transactions. -/
def submissions (history : List TierAction) : List Submission :=
  history.filterMap fun
    | .submitConsumption c => some c
    | _ => none

/-- The log depends on the submissions alone. -/
theorem log_run (owner : Address) (history : List TierAction) :
    (run owner history).log = CWEConsumption.logAfter (submissions history) := by
  have hfold : ∀ (w : TierWorld), (history.foldl next w).consumption =
      (submissions history).foldl CWEConsumption.next w.consumption := by
    induction history with
    | nil => exact fun w => rfl
    | cons a history ih =>
        intro w
        rw [List.foldl_cons, ih (next w a)]
        cases a with
        | submitConsumption c => rfl
        | setFee sender tierId fee =>
            simp only [next]
            split <;> rfl
        | setPayoutPool sender pool =>
            simp only [next]
            split <;> rfl
        | transferOwnership sender newOwner =>
            simp only [next]
            split <;> rfl
        | subscribe sender value forwarded tierId =>
            simp only [next]
            split <;> rfl
  exact congrArg Prod.snd (hfold (init owner))

end TierWorld
end Contracts
end CleanWeb
