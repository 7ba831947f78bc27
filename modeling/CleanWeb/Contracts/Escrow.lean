import CleanWeb.Contracts.Jury
import CleanWeb.Contracts.SplitPay

/-!
# The escrow (`contracts/CWEEscrow.sol`, `utils/ReentrancyGuard.sol`)

The mapping of mappings is a function of the pair (epoch, work).  `release` and `payeeReturned`
are the two halves of `release` around a payee's code; each entry point has one `_cases` lemma
that says when it succeeds and what it leaves.
-/

namespace CleanWeb
namespace Contracts

open Lib Lib.Exec

structure Escrow where
  amount : Nat
  releaseEpoch : Nat
  contentId : Bytes32
  committed : Bool
  released : Bool
  disputeId : Nat
  challenger : Bytes32
  deriving DecidableEq, Repr

instance : Inhabited Escrow :=
  ⟨0, 0, 0, false, false, 0, 0⟩

@[simp] theorem Escrow.default_amount : (default : Escrow).amount = 0 := rfl

@[simp] theorem Escrow.default_committed : (default : Escrow).committed = false := rfl

@[simp] theorem Escrow.default_disputeId : (default : Escrow).disputeId = 0 := rfl

/-- The storage, and the ETH that the contract holds. -/
structure CWEEscrow where
  balance : Nat
  escrows : Nat × Bytes32 → Escrow
  liability : Nat
  status : GuardStatus

namespace CWEEscrow

/-- `30 days`. -/
def epochLength : Nat := 2592000

def challengeWindow : Nat := 1

def init : CWEEscrow :=
  ⟨0, fun _ => default, 0, .notEntered⟩

def currentEpoch (timestamp : Nat) : Nat :=
  timestamp / epochLength

def receive (st : CWEEscrow) (value : Nat) : CWEEscrow :=
  { st with balance := st.balance + value }

def commit (registry : CWERegistry) (aggregator : Address) (st : CWEEscrow) (sender : Address)
    (timestamp epochId : Nat) (workId : Bytes32) (amount : Nat) : Exec Revert CWEEscrow :=
  if sender ≠ aggregator then fail .notAggregator
  else if !registry.isRegistered workId then fail (.workNotRegistered workId)
  else
    let e := st.escrows (epochId, workId)
    if e.committed then fail (.alreadyCommitted epochId workId)
    else do
      let releaseEpoch ← addU 256 (currentEpoch timestamp) challengeWindow
      let liability ← addU 256 st.liability amount
      if st.balance < liability then fail (.insolvent st.balance liability)
      else
        pure { st with
          escrows := Function.update st.escrows (epochId, workId)
            { e with
              amount := amount
              releaseEpoch := releaseEpoch
              contentId := registry.contentIdOf workId
              committed := true }
          liability := liability }

/-- `self` is the escrow's own address, the sender that the jury sees. -/
def challenge (registry : CWERegistry) (self : Address) (jury : CWEJury) (st : CWEEscrow)
    (timestamp epochId : Nat) (escrowedWork challengerWork : Bytes32) :
    Exec Revert (CWEJury × CWEEscrow × Nat) :=
  if escrowedWork = challengerWork then fail (.selfChallenge escrowedWork)
  else
    let e := st.escrows (epochId, escrowedWork)
    if !e.committed then fail (.notEscrowed epochId escrowedWork)
    else if e.released then fail (.alreadyReleased epochId escrowedWork)
    else if e.releaseEpoch ≤ currentEpoch timestamp then fail (.windowClosed epochId escrowedWork)
    else if e.disputeId ≠ 0 then fail (.alreadyDisputed epochId escrowedWork)
    else
      let challengerContentId := registry.contentIdOf challengerWork
      if challengerContentId ≠ e.contentId then
        fail (.contentMismatch e.contentId challengerContentId)
      else do
        let (jury', disputeId) ← jury.openDispute self timestamp escrowedWork challengerWork
        pure (jury', { st with
          escrows := Function.update st.escrows (epochId, escrowedWork)
            { e with disputeId := disputeId, challenger := challengerWork } }, disputeId)

/-- What the challenger's slot holds after it has won `e`. -/
def merge (e to_ : Escrow) : Exec Revert Escrow := do
  let amount ← addU 256 to_.amount e.amount
  pure { to_ with
    amount := amount
    releaseEpoch := if to_.releaseEpoch < e.releaseEpoch then e.releaseEpoch else to_.releaseEpoch
    contentId := e.contentId
    committed := true
    released := false }

/-- The second component is the winner, as the event names it. -/
def resolveDispute (jury : CWEJury) (st : CWEEscrow) (epochId : Nat) (escrowedWork : Bytes32) :
    Exec Revert (CWEEscrow × Bytes32) :=
  let e := st.escrows (epochId, escrowedWork)
  if e.disputeId = 0 then fail (.notDisputed epochId escrowedWork)
  else if e.released then fail (.alreadyReleased epochId escrowedWork)
  else if !jury.isResolved e.disputeId then fail (.disputeNotResolved epochId escrowedWork)
  else do
    let winner ← jury.verdictOf e.disputeId
    if winner = e.challenger then
      -- `delete` the slot, then read the challenger's.
      let cleared := Function.update st.escrows (epochId, escrowedWork) default
      let to_ ← merge e (cleared (epochId, e.challenger))
      pure ({ st with escrows := Function.update cleared (epochId, e.challenger) to_ },
        e.challenger)
    else
      pure ({ st with
        escrows := Function.update st.escrows (epochId, escrowedWork)
          { e with disputeId := 0, challenger := 0 } }, escrowedWork)

/-- `release` up to the first payee's code. -/
def release (registry : CWERegistry) (st : CWEEscrow) (timestamp epochId : Nat)
    (workId : Bytes32) : Exec Revert (CWEEscrow × Payment.Sending) := do
  let status ← nonReentrant st.status
  let e := st.escrows (epochId, workId)
  if !e.committed then fail (.notEscrowed epochId workId)
  else if e.released then fail (.alreadyReleased epochId workId)
  else if e.disputeId ≠ 0 then fail (.disputed epochId workId)
  else if currentEpoch timestamp < e.releaseEpoch then fail (.tooEarly epochId workId)
  else
    let payees := registry.payeesOf workId
    let splits := registry.splitsOf workId
    if payees = [] then fail (.workNotRegistered workId)
    else
      let liability ← subU st.liability e.amount
      let s ← Payment.send st.balance (Payment.start epochId workId payees splits e.amount)
      pure ({ balance := s.balance
              escrows := Function.update st.escrows (epochId, workId)
                { e with released := true, amount := 0 }
              liability := liability
              status := status }, s)

/-- `release` from a payee's return to the next payee's code, or to the end. -/
def payeeReturned (st : CWEEscrow) (p : Payment) :
    Exec Revert (CWEEscrow × Option Payment.Sending) :=
  match p.advance with
  | none => pure ({ st with status := .notEntered }, none)
  | some q => do
      let s ← Payment.send st.balance q
      pure ({ st with balance := s.balance }, some s)

/-! ## What each entry point leaves -/

section Cases

variable {registry : CWERegistry} {jury : CWEJury} {st : CWEEscrow} {sender aggregator : Address}
variable {timestamp epochId : Nat} {workId escrowedWork challengerWork : Bytes32} {amount : Nat}

theorem commit_cases {st' : CWEEscrow}
    (h : commit registry aggregator st sender timestamp epochId workId amount = .ok st') :
    sender = aggregator ∧ registry.isRegistered workId = true ∧
      (st.escrows (epochId, workId)).committed = false ∧
      st.liability + amount < 2 ^ 256 ∧ st.liability + amount ≤ st.balance ∧
      st' = { st with
        escrows := Function.update st.escrows (epochId, workId)
          { st.escrows (epochId, workId) with
            amount := amount
            releaseEpoch := currentEpoch timestamp + challengeWindow
            contentId := registry.contentIdOf workId
            committed := true }
        liability := st.liability + amount } := by
  unfold commit at h
  split at h
  · simp [fail] at h
  rename_i hsender
  split at h
  · simp [fail] at h
  rename_i hregistered
  dsimp only at h
  split at h
  · simp [fail] at h
  rename_i hfresh
  rcases bind_eq_ok.1 h with ⟨releaseEpoch, hepoch, h⟩
  rcases bind_eq_ok.1 h with ⟨liability, hliability, h⟩
  rcases addU_eq_ok.1 hepoch with ⟨-, rfl⟩
  rcases addU_eq_ok.1 hliability with ⟨hfit, rfl⟩
  split at h
  · simp [fail] at h
  rename_i hfunds
  cases h
  exact ⟨not_not.1 hsender, by simpa using hregistered, eq_false_of_ne_true hfresh, hfit,
    Nat.le_of_not_lt hfunds, rfl⟩

theorem challenge_cases {self : Address} {out : CWEJury × CWEEscrow × Nat}
    (h : challenge registry self jury st timestamp epochId escrowedWork challengerWork = .ok out) :
    escrowedWork ≠ challengerWork ∧ (st.escrows (epochId, escrowedWork)).committed = true ∧
      (st.escrows (epochId, escrowedWork)).released = false ∧
      registry.contentIdOf challengerWork = (st.escrows (epochId, escrowedWork)).contentId ∧
      jury.openDispute self timestamp escrowedWork challengerWork = .ok (out.1, out.2.2) ∧
      out.2.1 = { st with
        escrows := Function.update st.escrows (epochId, escrowedWork)
          { st.escrows (epochId, escrowedWork) with
            disputeId := out.2.2, challenger := challengerWork } } := by
  unfold challenge at h
  split at h
  · simp [fail] at h
  rename_i hself
  dsimp only at h
  split at h
  · simp [fail] at h
  rename_i hcommitted
  split at h
  · simp [fail] at h
  rename_i hreleased
  split at h
  · simp [fail] at h
  split at h
  · simp [fail] at h
  split at h
  · simp [fail] at h
  rename_i hcontent
  rcases bind_eq_ok.1 h with ⟨⟨jury', disputeId⟩, hopen, h⟩
  cases h
  exact ⟨hself, by simpa using hcommitted, eq_false_of_ne_true hreleased, not_not.1 hcontent,
    hopen, rfl⟩

/-- A challenge finds the window open and no other dispute. -/
theorem challenge_open {self : Address} {out : CWEJury × CWEEscrow × Nat}
    (h : challenge registry self jury st timestamp epochId escrowedWork challengerWork = .ok out) :
    currentEpoch timestamp < (st.escrows (epochId, escrowedWork)).releaseEpoch ∧
      (st.escrows (epochId, escrowedWork)).disputeId = 0 := by
  unfold challenge at h
  split at h
  · simp [fail] at h
  dsimp only at h
  split at h
  · simp [fail] at h
  split at h
  · simp [fail] at h
  split at h
  · simp [fail] at h
  rename_i hwindow
  split at h
  · simp [fail] at h
  rename_i hdispute
  exact ⟨Nat.lt_of_not_le hwindow, not_not.1 hdispute⟩

/-- The jury has decided the slot's dispute for the challenger. -/
def ChallengerWins (jury : CWEJury) (e : Escrow) : Prop :=
  e.disputeId ≠ 0 ∧ (jury.disputes e.disputeId).finalized = true ∧
    (jury.disputes e.disputeId).verdict = e.challenger

instance (jury : CWEJury) (e : Escrow) : Decidable (ChallengerWins jury e) :=
  inferInstanceAs (Decidable (_ ∧ _ ∧ _))

/-- The challenger's slot with the won credit merged into it. -/
def merged (e to_ : Escrow) : Escrow :=
  { to_ with
    amount := to_.amount + e.amount
    releaseEpoch := max to_.releaseEpoch e.releaseEpoch
    contentId := e.contentId
    committed := true
    released := false }

theorem merge_cases {e to_ out : Escrow} (h : merge e to_ = .ok out) : out = merged e to_ := by
  unfold merge at h
  rcases bind_eq_ok.1 h with ⟨sum, hsum, h⟩
  rcases addU_eq_ok.1 hsum with ⟨-, rfl⟩
  cases h
  unfold merged
  congr 1
  split
  · omega
  · omega

theorem resolveDispute_cases {out : CWEEscrow × Bytes32}
    (h : resolveDispute jury st epochId escrowedWork = .ok out) :
    (st.escrows (epochId, escrowedWork)).disputeId ≠ 0 ∧
      (st.escrows (epochId, escrowedWork)).released = false ∧
      (ChallengerWins jury (st.escrows (epochId, escrowedWork)) ∧
          out.2 = (st.escrows (epochId, escrowedWork)).challenger ∧
          out.1 = { st with
            escrows := Function.update (Function.update st.escrows (epochId, escrowedWork) default)
              (epochId, (st.escrows (epochId, escrowedWork)).challenger)
              (merged (st.escrows (epochId, escrowedWork))
                (Function.update st.escrows (epochId, escrowedWork) default
                  (epochId, (st.escrows (epochId, escrowedWork)).challenger))) } ∨
        ¬ ChallengerWins jury (st.escrows (epochId, escrowedWork)) ∧ out.2 = escrowedWork ∧
          out.1 = { st with
            escrows := Function.update st.escrows (epochId, escrowedWork)
              { st.escrows (epochId, escrowedWork) with disputeId := 0, challenger := 0 } }) := by
  unfold resolveDispute at h
  dsimp only at h
  split at h
  · simp [fail] at h
  rename_i hdispute
  split at h
  · simp [fail] at h
  rename_i hreleased
  split at h
  · simp [fail] at h
  rename_i hresolved
  have hfinal :
      (jury.disputes (st.escrows (epochId, escrowedWork)).disputeId).finalized = true := by
    simpa [CWEJury.isResolved] using hresolved
  rcases bind_eq_ok.1 h with ⟨winner, hverdict, h⟩
  unfold CWEJury.verdictOf at hverdict
  simp only [hfinal, Bool.not_true, Bool.false_eq_true, if_false] at hverdict
  cases hverdict
  refine ⟨hdispute, eq_false_of_ne_true hreleased, ?_⟩
  split at h
  · rename_i hwins
    rcases bind_eq_ok.1 h with ⟨to_, hmerge, h⟩
    cases h
    refine Or.inl ⟨⟨hdispute, hfinal, hwins⟩, rfl, ?_⟩
    rw [merge_cases hmerge]
  · rename_i hkeeps
    cases h
    refine Or.inr ⟨?_, rfl, rfl⟩
    intro hwins
    exact hkeeps hwins.2.2

/-- A verdict for the challenger can be applied whenever the merged amount fits. -/
theorem resolveDispute_of_wins (hreleased : (st.escrows (epochId, escrowedWork)).released = false)
    (hwins : ChallengerWins jury (st.escrows (epochId, escrowedWork)))
    (hfit : (Function.update st.escrows (epochId, escrowedWork) default
        (epochId, (st.escrows (epochId, escrowedWork)).challenger)).amount +
      (st.escrows (epochId, escrowedWork)).amount < 2 ^ 256) :
    ∃ out, resolveDispute jury st epochId escrowedWork = .ok out := by
  have hverdict : jury.verdictOf (st.escrows (epochId, escrowedWork)).disputeId =
      .ok (st.escrows (epochId, escrowedWork)).challenger := by
    rw [CWEJury.verdictOf]
    simp only [hwins.2.1, hwins.2.2]
    rfl
  have hmerge : ∃ to_, merge (st.escrows (epochId, escrowedWork))
      (Function.update st.escrows (epochId, escrowedWork) default
        (epochId, (st.escrows (epochId, escrowedWork)).challenger)) = .ok to_ := by
    unfold merge
    rw [addU, if_pos hfit]
    exact ⟨_, rfl⟩
  rcases hmerge with ⟨to_, hto⟩
  have hresolve : resolveDispute jury st epochId escrowedWork =
      .ok ({ st with
        escrows := Function.update (Function.update st.escrows (epochId, escrowedWork) default)
          (epochId, (st.escrows (epochId, escrowedWork)).challenger) to_ },
        (st.escrows (epochId, escrowedWork)).challenger) := by
    unfold resolveDispute
    dsimp only
    rw [if_neg hwins.1, if_neg (by simp [hreleased]),
      if_neg (by simp [CWEJury.isResolved, hwins.2.1]), hverdict, ok_bind, if_pos rfl, hto]
    rfl
  exact ⟨_, hresolve⟩

/-- The slot can be released now. -/
structure Mature (timestamp : Nat) (e : Escrow) : Prop where
  committed : e.committed = true
  unreleased : e.released = false
  undisputed : e.disputeId = 0
  due : e.releaseEpoch ≤ currentEpoch timestamp

/-- The payment that a release of the slot starts. -/
def payment (registry : CWERegistry) (st : CWEEscrow) (epochId : Nat) (workId : Bytes32) :
    Payment :=
  Payment.start epochId workId (registry.payeesOf workId) (registry.splitsOf workId)
    (st.escrows (epochId, workId)).amount

/-- The escrow once the slot is paid out of it, with the loop under way. -/
def releasing (st : CWEEscrow) (epochId : Nat) (workId : Bytes32) (balance : Nat) : CWEEscrow :=
  { balance := balance
    escrows := Function.update st.escrows (epochId, workId)
      { st.escrows (epochId, workId) with released := true, amount := 0 }
    liability := st.liability - (st.escrows (epochId, workId)).amount
    status := .entered }

theorem release_cases {out : CWEEscrow × Payment.Sending}
    (h : release registry st timestamp epochId workId = .ok out) :
    st.status = .notEntered ∧ Mature timestamp (st.escrows (epochId, workId)) ∧
      registry.payeesOf workId ≠ [] ∧
      (st.escrows (epochId, workId)).amount ≤ st.liability ∧
      Payment.send st.balance (payment registry st epochId workId) = .ok out.2 ∧
      out.1 = releasing st epochId workId out.2.balance := by
  unfold release at h
  rcases bind_eq_ok.1 h with ⟨status, hguard, h⟩
  unfold nonReentrant at hguard
  split at hguard
  · simp [fail] at hguard
  rename_i hstatus
  cases hguard
  dsimp only at h
  split at h
  · simp [fail] at h
  rename_i hcommitted
  split at h
  · simp [fail] at h
  rename_i hreleased
  split at h
  · simp [fail] at h
  rename_i hdispute
  split at h
  · simp [fail] at h
  rename_i hdue
  split at h
  · simp [fail] at h
  rename_i hpayees
  rcases bind_eq_ok.1 h with ⟨liability, hliability, h⟩
  rcases bind_eq_ok.1 h with ⟨s, hsend, h⟩
  rcases subU_eq_ok.1 hliability with ⟨hle, rfl⟩
  cases h
  refine ⟨?_, ⟨by simpa using hcommitted, eq_false_of_ne_true hreleased, not_not.1 hdispute,
    Nat.le_of_not_lt hdue⟩, hpayees, hle, hsend, rfl⟩
  cases hst : st.status with
  | notEntered => rfl
  | entered => exact absurd hst hstatus

/-- With the guard open, a mature slot's release gets as far as the first transfer. -/
theorem release_of_mature (hstatus : st.status = .notEntered)
    (hmature : Mature timestamp (st.escrows (epochId, workId)))
    (hpayees : registry.payeesOf workId ≠ [])
    (hamount : (st.escrows (epochId, workId)).amount ≤ st.liability) :
    release registry st timestamp epochId workId =
      (Payment.send st.balance (payment registry st epochId workId) >>= fun s =>
        .ok (releasing st epochId workId s.balance, s)) := by
  have hdue : ¬ currentEpoch timestamp < (st.escrows (epochId, workId)).releaseEpoch :=
    Nat.not_lt.2 hmature.due
  have hguard : nonReentrant st.status = .ok .entered := by
    rw [hstatus]
    rfl
  unfold release
  rw [hguard, ok_bind]
  dsimp only
  rw [if_neg (by simp [hmature.committed]), if_neg (by simp [hmature.unreleased]),
    if_neg (by simp [hmature.undisputed]), if_neg hdue, if_neg hpayees, subU, if_pos hamount]
  rfl

theorem payeeReturned_cases {p : Payment} {out : CWEEscrow × Option Payment.Sending}
    (h : payeeReturned st p = .ok out) :
    (p.advance = none ∧ out = ({ st with status := .notEntered }, none)) ∨
      ∃ q s, p.advance = some q ∧ Payment.send st.balance q = .ok s ∧
        out = ({ st with balance := s.balance }, some s) := by
  unfold payeeReturned at h
  split at h
  · rename_i hlast
    cases h
    exact Or.inl ⟨hlast, rfl⟩
  · rename_i q hnext
    rcases bind_eq_ok.1 h with ⟨s, hsend, h⟩
    cases h
    exact Or.inr ⟨q, s, hnext, hsend, rfl⟩

end Cases

end CWEEscrow
end Contracts
end CleanWeb
