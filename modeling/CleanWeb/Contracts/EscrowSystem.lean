import CleanWeb.Contracts.Escrow
import CleanWeb.Contracts.Records
import CleanWeb.Lib.Callback

/-!
# The escrow with its registry, jury and credentials

One world holds the four contracts, the clock and a history of what transactions did; `exec` is
every entry point that an account can call.  `escrowSystem` is the machine: a payee called by
`release` may call anything back except under the aggregator's name, time stands still inside a
transaction, and what is undone is undone with its history.  `Effect` says once what a call can
do to the world.
-/

namespace CleanWeb
namespace Contracts

open Lib Lib.Exec

/-! ## The world -/

/-- What a transaction leaves in the history: the contracts' events, with the content id and the
time of a registration, the content id of a challenged slot, and every transfer to a payee. -/
inductive Entry where
  | workRegistered (workId contentId : Bytes32) (timestamp : Nat)
  | disputeOpened (epochId : Nat) (escrowedWork challengerWork : Bytes32) (disputeId : Nat)
      (contentId : Bytes32)
  | disputeFinalized (disputeId : Nat) (verdict : Bytes32) (votesA votesB : Nat)
  | disputeResolved (epochId : Nat) (escrowedWork winner : Bytes32) (disputeId : Nat)
  | escrowCommitted (epochId : Nat) (workId : Bytes32) (amount : Nat)
  | escrowReleased (epochId : Nat) (workId : Bytes32) (amount : Nat)
  | paid (payee : Address) (value : Nat)
  deriving DecidableEq, Repr

/-- The functions outside the contracts, and the addresses fixed at deployment. -/
structure Deployment where
  keccak256 : Keccak
  ecrecover : Ecrecover
  aggregator : Address
  escrow : Address
  identityOwner : Address
  registryOwner : Address
  juryOwner : Address
  timestamp : Nat
  timestamp_pos : 0 < timestamp

structure World extends Records where
  timestamp : Nat
  jury : CWEJury
  escrow : CWEEscrow
  history : List Entry

/-- The entry points. -/
inductive Call where
  | records (c : RecordCall)
  | transferJuryOwnership (newOwner : Address)
  | setEscrow (escrow : Address)
  | openDispute (workA workB : Bytes32)
  | vote (disputeId : Nat) (forWork : Bytes32)
  | finalize (disputeId : Nat)
  | commit (epochId : Nat) (workId : Bytes32) (amount : Nat)
  | challenge (epochId : Nat) (escrowedWork challengerWork : Bytes32)
  | resolveDispute (epochId : Nat) (escrowedWork : Bytes32)
  | release (epochId : Nat) (workId : Bytes32)
  deriving DecidableEq, Repr

/-- What the environment can bring about: time passing, ETH for the escrow, a call. -/
inductive Input where
  | elapse (seconds : Nat)
  | receive (value : Nat)
  | tx (sender : Address) (c : Call)
  deriving DecidableEq, Repr

namespace World

/-- All contracts as their constructors leave them. -/
def init (d : Deployment) : World :=
  { timestamp := d.timestamp
    identity := CWEIdentity.init d.identityOwner
    registry := CWERegistry.init d.registryOwner
    jury := CWEJury.init d.juryOwner
    escrow := CWEEscrow.init
    history := [] }

/-- The record of a slot. -/
def slot (w : World) (epochId : Nat) (workId : Bytes32) : Escrow :=
  w.escrow.escrows (epochId, workId)

/-- What a call on the records adds to the history. -/
def recordEntries (timestamp : Nat) : RecordCall → List Entry
  | .registerWork r => [.workRegistered r.workId r.contentId timestamp]
  | _ => []

def exec (d : Deployment) (w : World) (sender : Address) :
    Call → Exec Revert (World × Option Payment)
  | .records c => do
      let records ← w.toRecords.exec d.keccak256 d.ecrecover w.timestamp sender c
      pure ({ w with
        toRecords := records
        history := w.history ++ recordEntries w.timestamp c }, none)
  | .transferJuryOwnership newOwner => do
      let owner ← transferOwnership w.jury.owner sender newOwner
      pure ({ w with jury := { w.jury with owner := owner } }, none)
  | .setEscrow escrow => do
      let jury ← w.jury.setEscrow sender escrow
      pure ({ w with jury := jury }, none)
  | .openDispute workA workB => do
      let (jury, _) ← w.jury.openDispute sender w.timestamp workA workB
      pure ({ w with jury := jury }, none)
  | .vote disputeId forWork => do
      let jury ← CWEJury.vote d.keccak256 w.identity w.jury sender w.timestamp disputeId forWork
      pure ({ w with jury := jury }, none)
  | .finalize disputeId => do
      let jury ← CWEJury.finalize w.registry w.jury w.timestamp disputeId
      let dispute := jury.disputes disputeId
      pure ({ w with
        jury := jury
        history := w.history ++
          [.disputeFinalized disputeId dispute.verdict dispute.votesA dispute.votesB] }, none)
  | .commit epochId workId amount => do
      let escrow ←
        CWEEscrow.commit w.registry d.aggregator w.escrow sender w.timestamp epochId workId amount
      pure ({ w with
        escrow := escrow
        history := w.history ++ [.escrowCommitted epochId workId amount] }, none)
  | .challenge epochId escrowedWork challengerWork => do
      let (jury, escrow, disputeId) ←
        CWEEscrow.challenge w.registry d.escrow w.jury w.escrow w.timestamp epochId escrowedWork
          challengerWork
      let contentId := (w.slot epochId escrowedWork).contentId
      pure ({ w with
        jury := jury
        escrow := escrow
        history := w.history ++
          [.disputeOpened epochId escrowedWork challengerWork disputeId contentId] }, none)
  | .resolveDispute epochId escrowedWork => do
      let (escrow, winner) ← CWEEscrow.resolveDispute w.jury w.escrow epochId escrowedWork
      let disputeId := (w.slot epochId escrowedWork).disputeId
      pure ({ w with
        escrow := escrow
        history := w.history ++ [.disputeResolved epochId escrowedWork winner disputeId] }, none)
  | .release epochId workId => do
      let (escrow, s) ← CWEEscrow.release w.registry w.escrow w.timestamp epochId workId
      let amount := (w.slot epochId workId).amount
      pure ({ w with
        escrow := escrow
        history := w.history ++ [.escrowReleased epochId workId amount, .paid s.payee s.value] },
        some s.payment)

def input (d : Deployment) (w : World) : Input → Exec Revert (World × Option Payment)
  | .elapse seconds => pure ({ w with timestamp := w.timestamp + seconds }, none)
  | .receive value => pure ({ w with escrow := w.escrow.receive value }, none)
  | .tx sender c => w.exec d sender c

/-- The rest of a release, once a payee has accepted. -/
def resume (w : World) (p : Payment) : Exec Revert (World × Option Payment) := do
  let (escrow, sending) ← w.escrow.payeeReturned p
  match sending with
  | none => pure ({ w with escrow := escrow }, none)
  | some s =>
      pure ({ w with escrow := escrow, history := w.history ++ [.paid s.payee s.value] },
        some s.payment)

end World

/-- Inside a transaction time stands still, and the aggregator is not among the callers; the
escrow itself makes no call of this kind. -/
def admits (d : Deployment) (nested : List Payment) : Input → Bool
  | .elapse _ => nested.isEmpty
  | .receive _ => true
  | .tx sender _ => sender != d.escrow && (nested.isEmpty || sender != d.aggregator)

def escrowSystem (d : Deployment) : Machine World Input Payment Revert :=
  { admits := fun _ nested k => admits d nested k
    call := fun w k => w.input d k
    resume := fun w p => w.resume p }

/-! ## What a call can do -/

/-- One successful input to `w`, with the payments `ps` under way, and its outcome. -/
inductive Effect (w : World) (ps : List Payment) : Input → World × Option Payment → Prop where
  | elapse (seconds : Nat) (hrest : ps = []) :
      Effect w ps (.elapse seconds) ({ w with timestamp := w.timestamp + seconds }, none)
  | receive (value : Nat) :
      Effect w ps (.receive value) ({ w with escrow := w.escrow.receive value }, none)
  | records (sender : Address) (c : RecordCall) (records : Records)
      (heffect : RecordEffect w.timestamp w.toRecords c records) :
      Effect w ps (.tx sender (.records c)) ({ w with
        toRecords := records
        history := w.history ++ World.recordEntries w.timestamp c }, none)
  | jurySettings (k : Input) (owner escrow : Address) :
      Effect w ps k ({ w with jury := { w.jury with owner := owner, escrow := escrow } }, none)
  | openDispute (sender : Address) (workA workB : Bytes32) (out : CWEJury × Nat)
      (hopen : w.jury.openDispute sender w.timestamp workA workB = .ok out) :
      Effect w ps (.tx sender (.openDispute workA workB)) ({ w with jury := out.1 }, none)
  | vote (juror : Address) (disputeId : Nat) (forWork : Bytes32) (d' : Dispute)
      (hvote : CWEJury.castVote (w.jury.disputes disputeId) juror forWork = .ok d')
      (hopen : (w.jury.disputes disputeId).finalized = false) :
      Effect w ps (.tx juror (.vote disputeId forWork)) ({ w with
        jury := { w.jury with disputes := Function.update w.jury.disputes disputeId d' } }, none)
  | finalize (sender : Address) (disputeId : Nat)
      (hopened : (w.jury.disputes disputeId).voteEnd ≠ 0)
      (hopen : (w.jury.disputes disputeId).finalized = false) :
      Effect w ps (.tx sender (.finalize disputeId)) ({ w with
        jury := { w.jury with
          disputes := Function.update w.jury.disputes disputeId
            { w.jury.disputes disputeId with
              verdict := CWEJury.tally w.registry (w.jury.disputes disputeId), finalized := true } }
        history := w.history ++
          [.disputeFinalized disputeId (CWEJury.tally w.registry (w.jury.disputes disputeId))
            (w.jury.disputes disputeId).votesA (w.jury.disputes disputeId).votesB] }, none)
  | commit (sender : Address) (epochId : Nat) (workId : Bytes32) (amount : Nat)
      (hrest : ps = [])
      (hregistered : w.registry.isRegistered workId = true)
      (hfresh : (w.slot epochId workId).committed = false)
      (hfit : w.escrow.liability + amount < 2 ^ 256)
      (hfunds : w.escrow.liability + amount ≤ w.escrow.balance) :
      Effect w ps (.tx sender (.commit epochId workId amount)) ({ w with
        escrow := { w.escrow with
          escrows := Function.update w.escrow.escrows (epochId, workId)
            { w.slot epochId workId with
              amount := amount
              releaseEpoch := CWEEscrow.currentEpoch w.timestamp + CWEEscrow.challengeWindow
              contentId := w.registry.contentIdOf workId
              committed := true }
          liability := w.escrow.liability + amount }
        history := w.history ++ [.escrowCommitted epochId workId amount] }, none)
  | challenge (sender : Address) (epochId : Nat) (escrowedWork challengerWork : Bytes32)
      (self : Address) (out : CWEJury × Nat) (hne : escrowedWork ≠ challengerWork)
      (hcommitted : (w.slot epochId escrowedWork).committed = true)
      (hreleased : (w.slot epochId escrowedWork).released = false)
      (hcontent : w.registry.contentIdOf challengerWork = (w.slot epochId escrowedWork).contentId)
      (hopen : w.jury.openDispute self w.timestamp escrowedWork challengerWork = .ok out) :
      Effect w ps (.tx sender (.challenge epochId escrowedWork challengerWork)) ({ w with
        jury := out.1
        escrow := { w.escrow with
          escrows := Function.update w.escrow.escrows (epochId, escrowedWork)
            { w.slot epochId escrowedWork with
              disputeId := out.2, challenger := challengerWork } }
        history := w.history ++ [.disputeOpened epochId escrowedWork challengerWork out.2
          (w.slot epochId escrowedWork).contentId] }, none)
  | reassign (sender : Address) (epochId : Nat) (escrowedWork : Bytes32)
      (hreleased : (w.slot epochId escrowedWork).released = false)
      (hwins : CWEEscrow.ChallengerWins w.jury (w.slot epochId escrowedWork)) :
      Effect w ps (.tx sender (.resolveDispute epochId escrowedWork)) ({ w with
        escrow := { w.escrow with
          escrows := Function.update
            (Function.update w.escrow.escrows (epochId, escrowedWork) default)
            (epochId, (w.slot epochId escrowedWork).challenger)
            (CWEEscrow.merged (w.slot epochId escrowedWork)
              (Function.update w.escrow.escrows (epochId, escrowedWork) default
                (epochId, (w.slot epochId escrowedWork).challenger))) }
        history := w.history ++ [.disputeResolved epochId escrowedWork
          (w.slot epochId escrowedWork).challenger (w.slot epochId escrowedWork).disputeId] }, none)
  | keep (sender : Address) (epochId : Nat) (escrowedWork : Bytes32)
      (hreleased : (w.slot epochId escrowedWork).released = false) :
      Effect w ps (.tx sender (.resolveDispute epochId escrowedWork)) ({ w with
        escrow := { w.escrow with
          escrows := Function.update w.escrow.escrows (epochId, escrowedWork)
            { w.slot epochId escrowedWork with disputeId := 0, challenger := 0 } }
        history := w.history ++ [.disputeResolved epochId escrowedWork escrowedWork
          (w.slot epochId escrowedWork).disputeId] }, none)
  | release (sender : Address) (epochId : Nat) (workId : Bytes32) (s : Payment.Sending)
      (hstatus : w.escrow.status = .notEntered)
      (hmature : CWEEscrow.Mature w.timestamp (w.slot epochId workId))
      (hpayees : w.registry.payeesOf workId ≠ [])
      (hamount : (w.slot epochId workId).amount ≤ w.escrow.liability)
      (hsend : Payment.send w.escrow.balance
        (CWEEscrow.payment w.registry w.escrow epochId workId) = .ok s) :
      Effect w ps (.tx sender (.release epochId workId)) ({ w with
        escrow := w.escrow.releasing epochId workId s.balance
        history := w.history ++ [.escrowReleased epochId workId (w.slot epochId workId).amount,
          .paid s.payee s.value] }, some s.payment)

theorem effect_of_call {d : Deployment} {w : World} {ps : List Payment} {k : Input}
    {out : World × Option Payment} (hallowed : admits d ps k = true) (h : w.input d k = .ok out) :
    Effect w ps k out := by
  cases k with
  | elapse seconds =>
      cases h
      exact .elapse seconds (List.isEmpty_iff.1 hallowed)
  | receive value =>
      cases h
      exact .receive value
  | tx sender c =>
      cases c with
      | records c =>
          rcases bind_eq_ok.1 h with ⟨records, hrecords, h⟩
          cases h
          exact .records sender c records (recordEffect_of_exec hrecords)
      | transferJuryOwnership newOwner =>
          rcases bind_eq_ok.1 h with ⟨owner, -, h⟩
          cases h
          exact .jurySettings _ owner w.jury.escrow
      | setEscrow escrow =>
          rcases bind_eq_ok.1 h with ⟨jury, hjury, h⟩
          cases h
          rcases bind_eq_ok.1 hjury with ⟨_, -, hset⟩
          split at hset
          · cases hset
          · cases hset
            exact .jurySettings _ w.jury.owner escrow
      | openDispute workA workB =>
          rcases bind_eq_ok.1 h with ⟨out, hopen, h⟩
          cases h
          exact .openDispute sender workA workB out hopen
      | vote disputeId forWork =>
          rcases bind_eq_ok.1 h with ⟨jury, hjury, h⟩
          cases h
          rcases CWEJury.vote_cases hjury with ⟨d', hvote, hopen, rfl⟩
          exact .vote sender disputeId forWork d' hvote hopen
      | finalize disputeId =>
          rcases bind_eq_ok.1 h with ⟨jury, hjury, h⟩
          cases h
          rcases CWEJury.finalize_cases hjury with ⟨hopened, hopen, rfl⟩
          simpa using Effect.finalize sender disputeId hopened hopen
      | commit epochId workId amount =>
          rcases bind_eq_ok.1 h with ⟨escrow, hcommit, h⟩
          cases h
          rcases CWEEscrow.commit_cases hcommit with
            ⟨rfl, hregistered, hfresh, hfit, hfunds, rfl⟩
          have hrest : d.aggregator ≠ d.escrow ∧ ps = [] := by
            simpa [admits] using hallowed
          exact .commit _ epochId workId amount hrest.2 hregistered hfresh hfit hfunds
      | challenge epochId escrowedWork challengerWork =>
          rcases bind_eq_ok.1 h with ⟨⟨jury, escrow, disputeId⟩, hchallenge, h⟩
          cases h
          rcases CWEEscrow.challenge_cases hchallenge with
            ⟨hne, hcommitted, hreleased, hcontent, hopen, hescrow⟩
          dsimp only at hescrow
          subst hescrow
          exact .challenge sender epochId escrowedWork challengerWork d.escrow (jury, disputeId) hne
            hcommitted hreleased hcontent hopen
      | resolveDispute epochId escrowedWork =>
          rcases bind_eq_ok.1 h with ⟨⟨escrow, winner⟩, hresolve, h⟩
          cases h
          rcases CWEEscrow.resolveDispute_cases hresolve with
            ⟨-, hreleased, ⟨hwins, hwinner, hescrow⟩ | ⟨-, hwinner, hescrow⟩⟩
          · dsimp only at hwinner hescrow
            subst hwinner hescrow
            exact .reassign sender epochId escrowedWork hreleased hwins
          · dsimp only at hwinner hescrow
            subst hwinner hescrow
            exact .keep sender epochId _ hreleased
      | release epochId workId =>
          rcases bind_eq_ok.1 h with ⟨⟨escrow, s⟩, hrelease, h⟩
          cases h
          rcases CWEEscrow.release_cases hrelease with
            ⟨hstatus, hmature, hpayees, hamount, hsend, hescrow⟩
          dsimp only at hsend hescrow
          subst hescrow
          exact .release sender epochId workId s hstatus hmature hpayees hamount hsend

/-- A payee's return ends the release or starts the next transfer. -/
theorem resume_cases {w : World} {p : Payment} {out : World × Option Payment}
    (h : w.resume p = .ok out) :
    (p.advance = none ∧
        out = ({ w with escrow := { w.escrow with status := .notEntered } }, none)) ∨
      ∃ q s, p.advance = some q ∧ Payment.send w.escrow.balance q = .ok s ∧
        out = ({ w with
          escrow := { w.escrow with balance := s.balance }
          history := w.history ++ [.paid s.payee s.value] }, some s.payment) := by
  rcases bind_eq_ok.1 h with ⟨⟨escrow, sending⟩, hreturned, h⟩
  rcases CWEEscrow.payeeReturned_cases hreturned with ⟨hlast, heq⟩ | ⟨q, s, hnext, hsend, heq⟩
  · cases heq
    cases h
    exact Or.inl ⟨hlast, rfl⟩
  · cases heq
    cases h
    exact Or.inr ⟨q, s, hnext, hsend, rfl⟩

end Contracts
end CleanWeb
