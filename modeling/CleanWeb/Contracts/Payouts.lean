import CleanWeb.Contracts.MerkleProof
import CleanWeb.Contracts.SplitPay

/-!
# The payout pool (`contracts/CWEPayouts.sol`)

The contract keeps a root and a total for each epoch; `withdraw` and `payeeReturned` are the two
halves of `withdraw` around a payee's code.
-/

namespace CleanWeb
namespace Contracts

open Lib Lib.Exec

/-- The storage, and the ETH that the contract holds. -/
structure CWEPayouts where
  balance : Nat
  epochRoot : Nat → Bytes32
  epochTotal : Nat → Nat
  epochCommitted : Nat → Bool
  withdrawn : Nat × Bytes32 → Bool
  liability : Nat
  status : GuardStatus

namespace CWEPayouts

def init : CWEPayouts :=
  ⟨0, fun _ => 0, fun _ => 0, fun _ => false, fun _ => false, 0, .notEntered⟩

def receive (st : CWEPayouts) (value : Nat) : CWEPayouts :=
  { st with balance := st.balance + value }

def commitEpoch (aggregator : Address) (st : CWEPayouts) (sender : Address) (epochId : Nat)
    (merkleRoot : Bytes32) (totalCredits : Nat) : Exec Revert CWEPayouts :=
  if sender ≠ aggregator then fail .notAggregator
  else if st.epochCommitted epochId then fail (.epochAlreadyCommitted epochId)
  else do
    let liability ← addU 256 st.liability totalCredits
    if st.balance < liability then fail (.insolvent st.balance liability)
    else
      pure { st with
        epochRoot := Function.update st.epochRoot epochId merkleRoot
        epochTotal := Function.update st.epochTotal epochId totalCredits
        epochCommitted := Function.update st.epochCommitted epochId true
        liability := liability }

/-- `withdraw` up to the first payee's code. -/
def withdraw (keccak256 : Keccak) (registry : CWERegistry) (st : CWEPayouts) (epochId : Nat)
    (workId : Bytes32) (amount : Nat) (proof : List Bytes32) :
    Exec Revert (CWEPayouts × Payment.Sending) := do
  let status ← nonReentrant st.status
  if !st.epochCommitted epochId then fail (.epochNotCommitted epochId)
  else if st.withdrawn (epochId, workId) then fail (.alreadyWithdrawn epochId workId)
  else
    let leaf := leafHash keccak256 workId amount
    if !MerkleProof.verify keccak256 proof (st.epochRoot epochId) leaf then fail .badProof
    else
      let payees := registry.payeesOf workId
      let splits := registry.splitsOf workId
      if payees = [] then fail (.workNotRegistered workId)
      else
        let liability ← subU st.liability amount
        let s ← Payment.send st.balance (Payment.start epochId workId payees splits amount)
        pure ({ st with
          balance := s.balance
          withdrawn := Function.update st.withdrawn (epochId, workId) true
          liability := liability
          status := status }, s)

/-- `withdraw` from a payee's return to the next payee's code, or to the end. -/
def payeeReturned (st : CWEPayouts) (p : Payment) :
    Exec Revert (CWEPayouts × Option Payment.Sending) :=
  match p.advance with
  | none => pure ({ st with status := .notEntered }, none)
  | some q => do
      let s ← Payment.send st.balance q
      pure ({ st with balance := s.balance }, some s)

/-! ## What each entry point leaves -/

section Cases

variable {keccak256 : Keccak} {registry : CWERegistry} {st : CWEPayouts}
variable {sender aggregator : Address} {epochId amount totalCredits : Nat}
variable {workId merkleRoot : Bytes32} {proof : List Bytes32}

theorem commitEpoch_cases {st' : CWEPayouts}
    (h : commitEpoch aggregator st sender epochId merkleRoot totalCredits = .ok st') :
    sender = aggregator ∧ st.epochCommitted epochId = false ∧
      st.liability + totalCredits < 2 ^ 256 ∧ st.liability + totalCredits ≤ st.balance ∧
      st' = { st with
        epochRoot := Function.update st.epochRoot epochId merkleRoot
        epochTotal := Function.update st.epochTotal epochId totalCredits
        epochCommitted := Function.update st.epochCommitted epochId true
        liability := st.liability + totalCredits } := by
  unfold commitEpoch at h
  split at h
  · simp [fail] at h
  rename_i hsender
  split at h
  · simp [fail] at h
  rename_i hfresh
  rcases bind_eq_ok.1 h with ⟨liability, hliability, h⟩
  rcases addU_eq_ok.1 hliability with ⟨hfit, rfl⟩
  split at h
  · simp [fail] at h
  rename_i hfunds
  cases h
  exact ⟨not_not.1 hsender, eq_false_of_ne_true hfresh, hfit, Nat.le_of_not_lt hfunds, rfl⟩

/-- The payment that a withdrawal starts. -/
def payment (registry : CWERegistry) (epochId : Nat) (workId : Bytes32) (amount : Nat) :
    Payment :=
  Payment.start epochId workId (registry.payeesOf workId) (registry.splitsOf workId) amount

/-- The pool once the entry is paid out of it, with the loop under way. -/
def withdrawing (st : CWEPayouts) (epochId : Nat) (workId : Bytes32) (amount balance : Nat) :
    CWEPayouts :=
  { st with
    balance := balance
    withdrawn := Function.update st.withdrawn (epochId, workId) true
    liability := st.liability - amount
    status := .entered }

theorem withdraw_cases {out : CWEPayouts × Payment.Sending}
    (h : withdraw keccak256 registry st epochId workId amount proof = .ok out) :
    st.status = .notEntered ∧ st.epochCommitted epochId = true ∧
      st.withdrawn (epochId, workId) = false ∧ registry.payeesOf workId ≠ [] ∧
      amount ≤ st.liability ∧
      Payment.send st.balance (payment registry epochId workId amount) = .ok out.2 ∧
      out.1 = withdrawing st epochId workId amount out.2.balance := by
  unfold withdraw at h
  rcases bind_eq_ok.1 h with ⟨status, hguard, h⟩
  unfold nonReentrant at hguard
  split at hguard
  · simp [fail] at hguard
  rename_i hstatus
  cases hguard
  split at h
  · simp [fail] at h
  rename_i hcommitted
  split at h
  · simp [fail] at h
  rename_i hwithdrawn
  dsimp only at h
  split at h
  · simp [fail] at h
  split at h
  · simp [fail] at h
  rename_i hpayees
  rcases bind_eq_ok.1 h with ⟨liability, hliability, h⟩
  rcases bind_eq_ok.1 h with ⟨s, hsend, h⟩
  rcases subU_eq_ok.1 hliability with ⟨hle, rfl⟩
  cases h
  refine ⟨?_, by simpa using hcommitted, eq_false_of_ne_true hwithdrawn, hpayees, hle, hsend, rfl⟩
  cases hst : st.status with
  | notEntered => rfl
  | entered => exact absurd hst hstatus

/-- With the guard open, a provable credit of a registered work gets as far as the first
transfer. -/
theorem withdraw_of_provable (hstatus : st.status = .notEntered)
    (hcommitted : st.epochCommitted epochId = true)
    (hwithdrawn : st.withdrawn (epochId, workId) = false)
    (hproof : MerkleProof.verify keccak256 proof (st.epochRoot epochId)
      (leafHash keccak256 workId amount) = true)
    (hpayees : registry.payeesOf workId ≠ []) (hamount : amount ≤ st.liability) :
    withdraw keccak256 registry st epochId workId amount proof =
      (Payment.send st.balance (payment registry epochId workId amount) >>= fun s =>
        .ok (withdrawing st epochId workId amount s.balance, s)) := by
  have hguard : nonReentrant st.status = .ok .entered := by
    rw [hstatus]
    rfl
  unfold withdraw
  rw [hguard, ok_bind, if_neg (by simp [hcommitted]), if_neg (by simp [hwithdrawn])]
  dsimp only
  rw [if_neg (by simp [hproof]), if_neg hpayees, subU, if_pos hamount]
  rfl

theorem payeeReturned_cases {p : Payment} {out : CWEPayouts × Option Payment.Sending}
    (h : payeeReturned st p = .ok out) :
    (p.advance = none ∧ out = ({ st with status := .notEntered }, none)) ∨
      ∃ q s, p.advance = some q ∧ Payment.send st.balance q = .ok s ∧
        out = ({ st with balance := s.balance }, some s) := by
  unfold payeeReturned at h
  split at h
  · rename_i hlast
    cases h
    exact Or.inl ⟨hlast, rfl⟩
  · rename_i q hnext
    rcases bind_eq_ok.1 h with ⟨s, hsend, h⟩
    cases h
    exact Or.inr ⟨q, s, hnext, hsend, rfl⟩

end Cases

end CWEPayouts
end Contracts
end CleanWeb
