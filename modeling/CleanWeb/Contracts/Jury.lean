import CleanWeb.Contracts.Registry

/-!
# Disputes (`contracts/CWEJury.sol`, `EarliestRegistrationArbiter.sol`)

A dispute is opened by the escrow, voted on by credentialed jurors, and tallied after its window;
a tie goes to the arbiter.  `resolve_eq_iff` says when the arbiter prefers the challenger.
-/

namespace CleanWeb
namespace Contracts

open Lib Lib.Exec

/-! ## The fallback -/

namespace EarliestRegistrationArbiter

def resolve (registry : CWERegistry) (workA workB : Bytes32) : Bytes32 :=
  let timeA := registry.registeredAtOf workA
  let timeB := registry.registeredAtOf workB
  if timeA = 0 ∧ timeB = 0 then workA
  else if timeA = 0 then workB
  else if timeB = 0 then workA
  else if timeB < timeA then workB
  else workA

/-- The challenger wins if it is registered and the incumbent is not, or is so only later. -/
theorem resolve_eq_iff (registry : CWERegistry) {workA workB : Bytes32} (hne : workA ≠ workB) :
    resolve registry workA workB = workB ↔
      registry.registeredAtOf workB ≠ 0 ∧
        (registry.registeredAtOf workA = 0 ∨
          registry.registeredAtOf workB < registry.registeredAtOf workA) := by
  unfold resolve
  dsimp only
  split
  · simp_all
  split
  · simp_all
  split
  · simp_all
  split
  · simp_all
  · simp_all

end EarliestRegistrationArbiter

/-! ## The jury -/

structure Dispute where
  workA : Bytes32
  workB : Bytes32
  voteEnd : Nat
  votesA : Nat
  votesB : Nat
  finalized : Bool
  verdict : Bytes32
  hasVoted : Address → Bool

instance : Inhabited Dispute :=
  ⟨0, 0, 0, 0, 0, false, 0, fun _ => false⟩

structure CWEJury where
  owner : Address
  escrow : Address
  nextDisputeId : Nat
  disputes : Nat → Dispute

namespace CWEJury

/-- `21 days`. -/
def votingWindow : Nat := 1814400

def init (initialOwner : Address) : CWEJury :=
  ⟨initialOwner, 0, 0, fun _ => default⟩

def setEscrow (st : CWEJury) (sender escrow : Address) : Exec Revert CWEJury := do
  onlyOwner st.owner sender
  if st.escrow ≠ 0 then fail .escrowAlreadySet else pure { st with escrow := escrow }

def openDispute (st : CWEJury) (sender : Address) (timestamp : Nat) (workA workB : Bytes32) :
    Exec Revert (CWEJury × Nat) :=
  if sender ≠ st.escrow then fail .notEscrow
  else do
    let disputeId ← addU 256 st.nextDisputeId 1
    let voteEnd ← addU 256 timestamp votingWindow
    let d := st.disputes disputeId
    pure ({ st with
        nextDisputeId := disputeId
        disputes := Function.update st.disputes disputeId
          { d with workA := workA, workB := workB, voteEnd := voteEnd } },
      disputeId)

/-- `votesA++` or `votesB++`, and the juror is marked. -/
def castVote (d : Dispute) (juror : Address) (forWork : Bytes32) : Exec Revert Dispute :=
  let marked := { d with hasVoted := Function.update d.hasVoted juror true }
  if forWork = d.workA then do
    let votesA ← addU 256 d.votesA 1
    pure { marked with votesA := votesA }
  else do
    let votesB ← addU 256 d.votesB 1
    pure { marked with votesB := votesB }

def vote (keccak256 : Keccak) (identity : CWEIdentity) (st : CWEJury) (sender : Address)
    (timestamp : Nat) (disputeId : Nat) (forWork : Bytes32) : Exec Revert CWEJury :=
  let d := st.disputes disputeId
  if !identity.isValid keccak256 timestamp sender (CredentialTypes.juror keccak256) then
    fail .notJuror
  else if d.voteEnd = 0 then fail (.noDispute disputeId)
  else if d.finalized then fail (.alreadyFinalized disputeId)
  else if d.voteEnd ≤ timestamp then fail (.votingClosed disputeId)
  else if d.hasVoted sender then fail (.alreadyVoted disputeId)
  else if forWork ≠ d.workA ∧ forWork ≠ d.workB then fail (.notAParty disputeId forWork)
  else do
    let d' ← castVote d sender forWork
    pure { st with disputes := Function.update st.disputes disputeId d' }

/-- A strict majority, else the arbiter. -/
def tally (registry : CWERegistry) (d : Dispute) : Bytes32 :=
  if d.votesB < d.votesA then d.workA
  else if d.votesA < d.votesB then d.workB
  else EarliestRegistrationArbiter.resolve registry d.workA d.workB

def finalize (registry : CWERegistry) (st : CWEJury) (timestamp disputeId : Nat) :
    Exec Revert CWEJury :=
  let d := st.disputes disputeId
  if d.voteEnd = 0 then fail (.noDispute disputeId)
  else if d.finalized then fail (.alreadyFinalized disputeId)
  else if timestamp < d.voteEnd then fail (.votingOpen disputeId)
  else
    pure { st with
      disputes := Function.update st.disputes disputeId
        { d with verdict := tally registry d, finalized := true } }

def isResolved (st : CWEJury) (disputeId : Nat) : Bool :=
  (st.disputes disputeId).finalized

def verdictOf (st : CWEJury) (disputeId : Nat) : Exec Revert Bytes32 :=
  let d := st.disputes disputeId
  if !d.finalized then fail (.notFinalized disputeId) else pure d.verdict

/-! ## What each entry point leaves -/

theorem openDispute_cases {st : CWEJury} {sender : Address} {timestamp : Nat}
    {workA workB : Bytes32} {out : CWEJury × Nat}
    (h : openDispute st sender timestamp workA workB = .ok out) :
    out.2 = st.nextDisputeId + 1 ∧ out.1 = { st with
      nextDisputeId := st.nextDisputeId + 1
      disputes := Function.update st.disputes (st.nextDisputeId + 1)
        { st.disputes (st.nextDisputeId + 1) with
          workA := workA, workB := workB, voteEnd := timestamp + votingWindow } } := by
  unfold openDispute at h
  split at h
  · simp [fail] at h
  rcases bind_eq_ok.1 h with ⟨disputeId, hid, h⟩
  rcases bind_eq_ok.1 h with ⟨voteEnd, hend, h⟩
  rcases addU_eq_ok.1 hid with ⟨-, rfl⟩
  rcases addU_eq_ok.1 hend with ⟨-, rfl⟩
  cases h
  exact ⟨rfl, rfl⟩

/-- The dispute with one more vote. -/
def withVote (d : Dispute) (juror : Address) (forWork : Bytes32) : Dispute :=
  { d with
    votesA := if forWork = d.workA then d.votesA + 1 else d.votesA
    votesB := if forWork = d.workA then d.votesB else d.votesB + 1
    hasVoted := Function.update d.hasVoted juror true }

theorem castVote_ok {d d' : Dispute} {juror : Address} {forWork : Bytes32}
    (h : castVote d juror forWork = .ok d') : d' = withVote d juror forWork := by
  unfold castVote at h
  dsimp only at h
  unfold withVote
  split at h
  · rename_i hA
    rcases bind_eq_ok.1 h with ⟨votes, hvotes, hd⟩
    rcases addU_eq_ok.1 hvotes with ⟨-, rfl⟩
    cases hd
    rw [if_pos hA, if_pos hA]
  · rename_i hB
    rcases bind_eq_ok.1 h with ⟨votes, hvotes, hd⟩
    rcases addU_eq_ok.1 hvotes with ⟨-, rfl⟩
    cases hd
    rw [if_neg hB, if_neg hB]

theorem castVote_cases {d d' : Dispute} {juror : Address} {forWork : Bytes32}
    (h : castVote d juror forWork = .ok d') :
    d'.workA = d.workA ∧ d'.workB = d.workB ∧ d'.finalized = d.finalized := by
  rw [castVote_ok h]
  exact ⟨rfl, rfl, rfl⟩

/-- What a vote is checked for. -/
structure MayVote (keccak256 : Keccak) (identity : CWEIdentity) (timestamp : Nat) (d : Dispute)
    (juror : Address) (forWork : Bytes32) : Prop where
  credential : identity.isValid keccak256 timestamp juror (CredentialTypes.juror keccak256) = true
  undecided : d.finalized = false
  inTime : timestamp < d.voteEnd
  first : d.hasVoted juror = false
  party : forWork = d.workA ∨ forWork = d.workB

theorem vote_ok {keccak256 : Keccak} {identity : CWEIdentity} {st st' : CWEJury}
    {sender : Address} {timestamp disputeId : Nat} {forWork : Bytes32}
    (h : vote keccak256 identity st sender timestamp disputeId forWork = .ok st') :
    MayVote keccak256 identity timestamp (st.disputes disputeId) sender forWork ∧
      ∃ d', castVote (st.disputes disputeId) sender forWork = .ok d' ∧
        st' = { st with disputes := Function.update st.disputes disputeId d' } := by
  unfold vote at h
  dsimp only at h
  split at h
  · simp [fail] at h
  rename_i hvalid
  split at h
  · simp [fail] at h
  split at h
  · simp [fail] at h
  rename_i hopen
  split at h
  · simp [fail] at h
  rename_i htime
  split at h
  · simp [fail] at h
  rename_i hfirst
  split at h
  · simp [fail] at h
  rename_i hparty
  rcases bind_eq_ok.1 h with ⟨d', hd, hst⟩
  cases hst
  refine ⟨⟨by simpa using hvalid, eq_false_of_ne_true hopen, Nat.lt_of_not_le htime,
    eq_false_of_ne_true hfirst, ?_⟩, d', hd, rfl⟩
  by_contra hnone
  exact hparty (not_or.1 hnone)

theorem vote_cases {keccak256 : Keccak} {identity : CWEIdentity} {st st' : CWEJury}
    {sender : Address} {timestamp disputeId : Nat} {forWork : Bytes32}
    (h : vote keccak256 identity st sender timestamp disputeId forWork = .ok st') :
    ∃ d', castVote (st.disputes disputeId) sender forWork = .ok d' ∧
      (st.disputes disputeId).finalized = false ∧
      st' = { st with disputes := Function.update st.disputes disputeId d' } := by
  rcases vote_ok h with ⟨hmay, d', hd, hst⟩
  exact ⟨d', hd, hmay.undecided, hst⟩

theorem finalize_ok {registry : CWERegistry} {st st' : CWEJury} {timestamp disputeId : Nat}
    (h : finalize registry st timestamp disputeId = .ok st') :
    (st.disputes disputeId).voteEnd ≠ 0 ∧ (st.disputes disputeId).finalized = false ∧
      (st.disputes disputeId).voteEnd ≤ timestamp ∧
      st' = { st with
        disputes := Function.update st.disputes disputeId
          { st.disputes disputeId with
            verdict := tally registry (st.disputes disputeId), finalized := true } } := by
  unfold finalize at h
  dsimp only at h
  split at h
  · simp [fail] at h
  rename_i hopened
  split at h
  · simp [fail] at h
  rename_i hopen
  split at h
  · simp [fail] at h
  rename_i htime
  cases h
  exact ⟨hopened, eq_false_of_ne_true hopen, Nat.le_of_not_lt htime, rfl⟩

theorem finalize_cases {registry : CWERegistry} {st st' : CWEJury} {timestamp disputeId : Nat}
    (h : finalize registry st timestamp disputeId = .ok st') :
    (st.disputes disputeId).voteEnd ≠ 0 ∧ (st.disputes disputeId).finalized = false ∧
      st' = { st with
        disputes := Function.update st.disputes disputeId
          { st.disputes disputeId with
            verdict := tally registry (st.disputes disputeId), finalized := true } } := by
  rcases finalize_ok h with ⟨hopened, hopen, -, hst⟩
  exact ⟨hopened, hopen, hst⟩

/-- A verdict is for one of the two works. -/
theorem tally_mem (registry : CWERegistry) (d : Dispute) :
    tally registry d = d.workA ∨ tally registry d = d.workB := by
  unfold tally EarliestRegistrationArbiter.resolve
  dsimp only
  split
  · exact Or.inl rfl
  split
  · exact Or.inr rfl
  split
  · exact Or.inl rfl
  split
  · exact Or.inr rfl
  split
  · exact Or.inl rfl
  split
  · exact Or.inr rfl
  · exact Or.inl rfl

end CWEJury

/-! ## The works of a dispute -/

/-- The disputes opened so far keep their works, and no id is reused. -/
def SameDisputes (j j' : CWEJury) : Prop :=
  j.nextDisputeId ≤ j'.nextDisputeId ∧ ∀ id ≤ j.nextDisputeId,
    (j'.disputes id).workA = (j.disputes id).workA ∧
      (j'.disputes id).workB = (j.disputes id).workB

theorem SameDisputes.refl (j : CWEJury) : SameDisputes j j :=
  ⟨Nat.le_refl _, fun _ _ => ⟨rfl, rfl⟩⟩

/-- Rewriting one dispute without touching its works. -/
theorem SameDisputes.update {j : CWEJury} {id : Nat} {d' : Dispute}
    (hA : d'.workA = (j.disputes id).workA) (hB : d'.workB = (j.disputes id).workB) :
    SameDisputes j { j with disputes := Function.update j.disputes id d' } := by
  refine ⟨Nat.le_refl _, ?_⟩
  intro x _
  by_cases hx : x = id
  · subst hx
    simpa using ⟨hA, hB⟩
  · simp [hx]

/-- A new dispute takes a fresh id. -/
theorem SameDisputes.open {j : CWEJury} {sender : Address} {timestamp : Nat}
    {workA workB : Bytes32} {out : CWEJury × Nat}
    (h : j.openDispute sender timestamp workA workB = .ok out) : SameDisputes j out.1 := by
  rcases CWEJury.openDispute_cases h with ⟨-, hout⟩
  rw [hout]
  refine ⟨Nat.le_succ _, ?_⟩
  intro x hx
  have hne : x ≠ j.nextDisputeId + 1 := by omega
  simp [hne]

end Contracts
end CleanWeb
