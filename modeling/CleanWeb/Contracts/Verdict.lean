import CleanWeb.Contracts.CommitOnce
import CleanWeb.Lib.Clocked

/-!
# The verdicts of the jury

`CWEJury` with the credentials that it asks and the registrations that its arbiter reads.  The
ballots of a dispute are read off the calls that went through; `Tallied` says that the dispute's
record agrees with them, and `verdict_correct` what a verdict then is.
-/

namespace CleanWeb
namespace Contracts

open Lib Lib.Exec

structure JuryWorld extends Records where
  jury : CWEJury

inductive JuryCall where
  | records (c : RecordCall)
  | transferJuryOwnership (newOwner : Address)
  | setEscrow (escrow : Address)
  | openDispute (workA workB : Bytes32)
  | vote (disputeId : Nat) (forWork : Bytes32)
  | finalize (disputeId : Nat)
  deriving DecidableEq, Repr

namespace JuryWorld

def deployed (identityOwner registryOwner juryOwner : Address) (timestamp : Nat) :
    Clocked JuryWorld :=
  ⟨timestamp,
    { identity := CWEIdentity.init identityOwner
      registry := CWERegistry.init registryOwner
      jury := CWEJury.init juryOwner }⟩

def exec (keccak256 : Keccak) (ecrecover : Ecrecover) (timestamp : Nat) (w : JuryWorld)
    (sender : Address) : JuryCall → Exec Revert JuryWorld
  | .records c => do
      let records ← w.toRecords.exec keccak256 ecrecover timestamp sender c
      pure { w with toRecords := records }
  | .transferJuryOwnership newOwner => do
      let owner ← transferOwnership w.jury.owner sender newOwner
      pure { w with jury := { w.jury with owner := owner } }
  | .setEscrow escrow => do
      let jury ← w.jury.setEscrow sender escrow
      pure { w with jury := jury }
  | .openDispute workA workB => do
      let out ← w.jury.openDispute sender timestamp workA workB
      pure { w with jury := out.1 }
  | .vote disputeId forWork => do
      let jury ← CWEJury.vote keccak256 w.identity w.jury sender timestamp disputeId forWork
      pure { w with jury := jury }
  | .finalize disputeId => do
      let jury ← w.jury.finalize w.registry timestamp disputeId
      pure { w with jury := jury }

end JuryWorld

/-! ## Ballots -/

/-- The work that the call is a vote for, if it is one in this dispute. -/
def JuryCall.voteIn (disputeId : Nat) : JuryCall → Option Bytes32
  | .vote id forWork => if id = disputeId then some forWork else none
  | _ => none

theorem JuryCall.voteIn_self {disputeId : Nat} {forWork : Bytes32} :
    (JuryCall.vote disputeId forWork).voteIn disputeId = some forWork :=
  if_pos rfl

theorem JuryCall.voteIn_of_ne {id disputeId : Nat} (h : disputeId ≠ id) (forWork : Bytes32) :
    (JuryCall.vote id forWork).voteIn disputeId = none :=
  if_neg (Ne.symm h)

structure Ballot where
  juror : Address
  forWork : Bytes32
  before : Clocked JuryWorld

/-- The calls of a run that went through. -/
abbrev JuryCalls := List (Accepted JuryWorld Address JuryCall)

def ballots (disputeId : Nat) (calls : JuryCalls) : List Ballot :=
  calls.filterMap fun e => (e.call.voteIn disputeId).map fun w => ⟨e.sender, w, e.before⟩

/-- The addresses that voted. -/
def voters (disputeId : Nat) (calls : JuryCalls) : Finset Address :=
  ((ballots disputeId calls).map Ballot.juror).toFinset

def votesFor (work : Bytes32) (bs : List Ballot) : Nat :=
  bs.countP fun b => b.forWork = work

section Ballots

variable {disputeId : Nat} {calls more : JuryCalls} {e : Accepted JuryWorld Address JuryCall}

@[simp] theorem ballots_append :
    ballots disputeId (calls ++ more) = ballots disputeId calls ++ ballots disputeId more :=
  List.filterMap_append

theorem ballots_of_none (h : e.call.voteIn disputeId = none) : ballots disputeId [e] = [] := by
  simp [ballots, h]

theorem ballots_of_some {w : Bytes32} (h : e.call.voteIn disputeId = some w) :
    ballots disputeId [e] = [⟨e.sender, w, e.before⟩] := by
  simp [ballots, h]

end Ballots

/-! ## What one call does to the disputes -/

inductive JuryEffect (keccak256 : Keccak) (timestamp : Nat) (w : JuryWorld) (sender : Address) :
    JuryCall → JuryWorld → Prop where
  | other (c : JuryCall) (w' : JuryWorld) (hc : ∀ id, c.voteIn id = none)
      (hnext : w'.jury.nextDisputeId = w.jury.nextDisputeId)
      (hdisputes : w'.jury.disputes = w.jury.disputes) :
      JuryEffect keccak256 timestamp w sender c w'
  | openDispute (workA workB : Bytes32) :
      JuryEffect keccak256 timestamp w sender (.openDispute workA workB) { w with
        jury := { w.jury with
          nextDisputeId := w.jury.nextDisputeId + 1
          disputes := Function.update w.jury.disputes (w.jury.nextDisputeId + 1)
            { w.jury.disputes (w.jury.nextDisputeId + 1) with
              workA := workA
              workB := workB
              voteEnd := timestamp + CWEJury.votingWindow } } }
  | vote (disputeId : Nat) (forWork : Bytes32)
      (hmay : CWEJury.MayVote keccak256 w.identity timestamp (w.jury.disputes disputeId) sender
        forWork) :
      JuryEffect keccak256 timestamp w sender (.vote disputeId forWork) { w with
        jury := { w.jury with
          disputes := Function.update w.jury.disputes disputeId
            (CWEJury.withVote (w.jury.disputes disputeId) sender forWork) } }
  | finalize (disputeId : Nat) (hopened : (w.jury.disputes disputeId).voteEnd ≠ 0)
      (hopen : (w.jury.disputes disputeId).finalized = false)
      (htime : (w.jury.disputes disputeId).voteEnd ≤ timestamp) :
      JuryEffect keccak256 timestamp w sender (.finalize disputeId) { w with
        jury := { w.jury with
          disputes := Function.update w.jury.disputes disputeId
            { w.jury.disputes disputeId with
              verdict := CWEJury.tally w.registry (w.jury.disputes disputeId)
              finalized := true } } }

theorem juryEffect_of_exec {keccak256 : Keccak} {ecrecover : Ecrecover} {timestamp : Nat}
    {w w' : JuryWorld} {sender : Address} {c : JuryCall}
    (h : w.exec keccak256 ecrecover timestamp sender c = .ok w') :
    JuryEffect keccak256 timestamp w sender c w' := by
  cases c with
  | records c =>
      rcases bind_eq_ok.1 h with ⟨records, -, h⟩
      cases h
      exact .other _ _ (fun _ => rfl) rfl rfl
  | transferJuryOwnership newOwner =>
      rcases bind_eq_ok.1 h with ⟨owner, -, h⟩
      cases h
      exact .other _ _ (fun _ => rfl) rfl rfl
  | setEscrow escrow =>
      rcases bind_eq_ok.1 h with ⟨jury, hjury, h⟩
      cases h
      rcases bind_eq_ok.1 hjury with ⟨_, -, hset⟩
      split at hset
      · simp [fail] at hset
      · cases hset
        exact .other _ _ (fun _ => rfl) rfl rfl
  | openDispute workA workB =>
      rcases bind_eq_ok.1 h with ⟨⟨jury, disputeId⟩, hopen, h⟩
      cases h
      rcases CWEJury.openDispute_cases hopen with ⟨-, hjury⟩
      dsimp only at hjury ⊢
      rw [hjury]
      exact .openDispute workA workB
  | vote disputeId forWork =>
      rcases bind_eq_ok.1 h with ⟨jury, hvote, h⟩
      cases h
      rcases CWEJury.vote_ok hvote with ⟨hmay, d', hcast, rfl⟩
      rw [CWEJury.castVote_ok hcast]
      exact .vote disputeId forWork hmay
  | finalize disputeId =>
      rcases bind_eq_ok.1 h with ⟨jury, hfinalize, h⟩
      cases h
      rcases CWEJury.finalize_ok hfinalize with ⟨hopened, hopen, htime, rfl⟩
      exact .finalize disputeId hopened hopen htime

/-! ## The record and the ballots -/

/-- The ballot was cast by a credentialed juror, in time, for one of the two works. -/
structure Lawful (keccak256 : Keccak) (d : Dispute) (b : Ballot) : Prop where
  credential : b.before.state.identity.isValid keccak256 b.before.timestamp b.juror
    (CredentialTypes.juror keccak256) = true
  inTime : b.before.timestamp < d.voteEnd
  party : b.forWork = d.workA ∨ b.forWork = d.workB

/-- The dispute was finalized by one of the calls: not before the end of the vote, with the tally
as it still stands, and no ballot came after. -/
def FinalizedBy (calls : JuryCalls) (disputeId : Nat) (d : Dispute) : Prop :=
  ∃ pre e post, calls = pre ++ e :: post ∧ e.call = .finalize disputeId ∧
    d.voteEnd ≤ e.before.timestamp ∧ ballots disputeId post = [] ∧
      d.verdict = CWEJury.tally e.before.state.registry d

/-- The record of a dispute agrees with the ballots. -/
structure Tallied (keccak256 : Keccak) (calls : JuryCalls) (disputeId : Nat) (d : Dispute) :
    Prop where
  once : ((ballots disputeId calls).map Ballot.juror).Nodup
  marked : ∀ juror, d.hasVoted juror = true ↔ juror ∈ (ballots disputeId calls).map Ballot.juror
  votesA : d.votesA = (ballots disputeId calls).countP fun b => b.forWork = d.workA
  votesB : d.votesB = (ballots disputeId calls).countP fun b => b.forWork ≠ d.workA
  lawful : ∀ b ∈ ballots disputeId calls, Lawful keccak256 d b
  decided : d.finalized = true → FinalizedBy calls disputeId d

section Tallied

variable {keccak256 : Keccak} {calls : JuryCalls} {disputeId : Nat} {d : Dispute}
variable {e : Accepted JuryWorld Address JuryCall}

/-- A call that is no ballot here. -/
theorem Tallied.frame (h : Tallied keccak256 calls disputeId d)
    (he : e.call.voteIn disputeId = none) : Tallied keccak256 (calls ++ [e]) disputeId d := by
  have hsame : ballots disputeId (calls ++ [e]) = ballots disputeId calls := by
    rw [ballots_append, ballots_of_none he, List.append_nil]
  refine ⟨hsame ▸ h.once, hsame ▸ h.marked, hsame ▸ h.votesA, hsame ▸ h.votesB, hsame ▸ h.lawful,
    ?_⟩
  intro hfinal
  rcases h.decided hfinal with ⟨pre, f, post, rfl, hcall, htime, hpost, hverdict⟩
  refine ⟨pre, f, post ++ [e], by simp, hcall, htime, ?_, hverdict⟩
  rw [ballots_append, ballots_of_none he, hpost, List.append_nil]

/-- Nobody has voted in a dispute that was never opened. -/
theorem Tallied.unopened (h : Tallied keccak256 calls disputeId default) :
    ballots disputeId calls = [] := by
  refine List.eq_nil_iff_forall_not_mem.2 ?_
  intro b hb
  exact Nat.not_lt_zero _ (h.lawful b hb).inTime

/-- A dispute is opened on a blank record. -/
theorem Tallied.opened (h : Tallied keccak256 calls disputeId default) (workA workB : Bytes32)
    (voteEnd : Nat) :
    Tallied keccak256 calls disputeId
      { (default : Dispute) with workA := workA, workB := workB, voteEnd := voteEnd } := by
  have hnone := h.unopened
  refine ⟨h.once, h.marked, ?_, ?_, ?_, ?_⟩
  · rw [hnone]
    rfl
  · rw [hnone]
    rfl
  · intro b hb
    rw [hnone] at hb
    cases hb
  · intro hfinal
    cases hfinal

/-- One more ballot. -/
theorem Tallied.vote {w : JuryWorld} {timestamp : Nat} {juror : Address} {forWork : Bytes32}
    (h : Tallied keccak256 calls disputeId d)
    (hmay : CWEJury.MayVote keccak256 w.identity timestamp d juror forWork) :
    Tallied keccak256 (calls ++ [⟨⟨timestamp, w⟩, juror, .vote disputeId forWork⟩]) disputeId
      (CWEJury.withVote d juror forWork) := by
  have hnew : ballots disputeId (calls ++ [⟨⟨timestamp, w⟩, juror, .vote disputeId forWork⟩]) =
      ballots disputeId calls ++ [⟨juror, forWork, ⟨timestamp, w⟩⟩] := by
    rw [ballots_append, ballots_of_some JuryCall.voteIn_self]
  have hfresh : juror ∉ (ballots disputeId calls).map Ballot.juror := by
    rw [← h.marked, hmay.first]
    exact Bool.false_ne_true
  refine ⟨?_, ?_, ?_, ?_, ?_, ?_⟩
  · rw [hnew, List.map_append]
    refine List.nodup_append.2 ⟨h.once, List.nodup_singleton _, ?_⟩
    intro a ha b hb
    rw [List.map_singleton, List.mem_singleton] at hb
    subst hb
    exact fun hab => hfresh (hab ▸ ha)
  · intro a
    rw [hnew, List.map_append, List.mem_append, ← h.marked]
    change Function.update d.hasVoted juror true a = true ↔ _
    by_cases ha : a = juror
    · subst ha
      simp
    · simp [ha]
  · rw [hnew, List.countP_append]
    change (if forWork = d.workA then d.votesA + 1 else d.votesA) =
      (ballots disputeId calls).countP (fun b => b.forWork = d.workA) + _
    rw [← h.votesA]
    by_cases hA : forWork = d.workA
    · simp [CWEJury.withVote, hA]
    · simp [CWEJury.withVote, hA]
  · rw [hnew, List.countP_append]
    change (if forWork = d.workA then d.votesB else d.votesB + 1) =
      (ballots disputeId calls).countP (fun b => b.forWork ≠ d.workA) + _
    rw [← h.votesB]
    by_cases hA : forWork = d.workA
    · simp [CWEJury.withVote, hA]
    · simp [CWEJury.withVote, hA]
  · intro b hb
    rw [hnew] at hb
    rcases List.mem_append.1 hb with hb | hb
    · exact ⟨(h.lawful b hb).credential, (h.lawful b hb).inTime, (h.lawful b hb).party⟩
    · rw [List.mem_singleton] at hb
      subst hb
      exact ⟨hmay.credential, hmay.inTime, hmay.party⟩
  · intro hfinal
    change d.finalized = true at hfinal
    rw [hmay.undecided] at hfinal
    cases hfinal

theorem Tallied.finalize {w : JuryWorld} {timestamp : Nat} {sender : Address}
    (h : Tallied keccak256 calls disputeId d) (htime : d.voteEnd ≤ timestamp) :
    Tallied keccak256 (calls ++ [⟨⟨timestamp, w⟩, sender, .finalize disputeId⟩]) disputeId
      { d with verdict := CWEJury.tally w.registry d, finalized := true } := by
  have hsame : ballots disputeId (calls ++ [⟨⟨timestamp, w⟩, sender, .finalize disputeId⟩]) =
      ballots disputeId calls := by
    rw [ballots_append, ballots_of_none rfl, List.append_nil]
  refine ⟨hsame ▸ h.once, hsame ▸ h.marked, hsame ▸ h.votesA, hsame ▸ h.votesB, ?_, ?_⟩
  · intro b hb
    rw [hsame] at hb
    exact ⟨(h.lawful b hb).credential, (h.lawful b hb).inTime, (h.lawful b hb).party⟩
  · intro _
    exact ⟨calls, _, [], rfl, rfl, htime, rfl, rfl⟩

end Tallied

/-- No id is ahead of the counter, and every record agrees with its ballots. -/
structure Docket (keccak256 : Keccak) (calls : JuryCalls) (jury : CWEJury) : Prop where
  fresh : ∀ id, jury.nextDisputeId < id → jury.disputes id = default
  tallied : ∀ id, Tallied keccak256 calls id (jury.disputes id)

section Docket

variable {keccak256 : Keccak} {ecrecover : Ecrecover} {calls : JuryCalls} {timestamp : Nat}
variable {w w' : JuryWorld} {sender : Address} {c : JuryCall}

theorem docket_init (owner : Address) : Docket keccak256 [] (CWEJury.init owner) := by
  refine ⟨fun _ _ => rfl, ?_⟩
  intro id
  refine ⟨List.nodup_nil, ?_, rfl, rfl, ?_, ?_⟩
  · intro juror
    constructor
    · intro h
      cases h
    · intro h
      cases h
  · intro b hb
    cases hb
  · intro hfinal
    cases hfinal

/-- Rewriting the record of one dispute that was opened. -/
theorem Docket.update (h : Docket keccak256 calls w.jury) {disputeId : Nat} {d : Dispute}
    {e : Accepted JuryWorld Address JuryCall}
    (hopened : (w.jury.disputes disputeId).voteEnd ≠ 0)
    (hothers : ∀ id, id ≠ disputeId → e.call.voteIn id = none)
    (hd : Tallied keccak256 (calls ++ [e]) disputeId d) :
    Docket keccak256 (calls ++ [e])
      { w.jury with disputes := Function.update w.jury.disputes disputeId d } := by
  refine ⟨?_, ?_⟩
  · intro id hid
    have hne : id ≠ disputeId := by
      rintro rfl
      rw [h.fresh id hid] at hopened
      exact hopened rfl
    dsimp only
    rw [Function.update_of_ne hne]
    exact h.fresh id hid
  · intro id
    by_cases hid : id = disputeId
    · subst hid
      simpa using hd
    · simpa [hid] using (h.tallied id).frame (hothers id hid)

theorem docket_effect (h : Docket keccak256 calls w.jury)
    (heffect : JuryEffect keccak256 timestamp w sender c w') :
    Docket keccak256 (calls ++ [⟨⟨timestamp, w⟩, sender, c⟩]) w'.jury := by
  cases heffect with
  | other c w' hc hnext hdisputes =>
      refine ⟨?_, ?_⟩
      · rw [hnext, hdisputes]
        exact h.fresh
      · intro id
        rw [hdisputes]
        exact (h.tallied id).frame (hc id)
  | openDispute workA workB =>
      have hblank := h.fresh (w.jury.nextDisputeId + 1) (Nat.lt_succ_self _)
      refine ⟨?_, ?_⟩
      · intro id hid
        dsimp only at hid ⊢
        rw [Function.update_of_ne (by omega)]
        exact h.fresh id (by omega)
      · intro id
        dsimp only
        by_cases hid : id = w.jury.nextDisputeId + 1
        · subst hid
          have htallied := h.tallied (w.jury.nextDisputeId + 1)
          rw [Function.update_self, hblank]
          rw [hblank] at htallied
          exact (htallied.frame rfl).opened workA workB (timestamp + CWEJury.votingWindow)
        · rw [Function.update_of_ne hid]
          exact (h.tallied id).frame rfl
  | vote disputeId forWork hmay =>
      refine h.update (Nat.ne_of_gt (Nat.zero_lt_of_lt hmay.inTime)) ?_
        ((h.tallied disputeId).vote hmay)
      intro id hid
      exact JuryCall.voteIn_of_ne hid forWork
  | finalize disputeId hopened hopen htime =>
      exact h.update hopened (fun _ _ => rfl) ((h.tallied disputeId).finalize htime)

/-- A verdict that has been given is kept, with its votes. -/
structure SameVerdict (d d' : Dispute) : Prop where
  finalized : d'.finalized = true
  verdict : d'.verdict = d.verdict
  votesA : d'.votesA = d.votesA
  votesB : d'.votesB = d.votesB

theorem SameVerdict.effect {d : Dispute} {disputeId : Nat}
    (heffect : JuryEffect keccak256 timestamp w sender c w')
    (hfresh : ∀ id, w.jury.nextDisputeId < id → w.jury.disputes id = default)
    (h : SameVerdict d (w.jury.disputes disputeId)) :
    SameVerdict d (w'.jury.disputes disputeId) := by
  cases heffect with
  | other c w' hc hnext hdisputes =>
      rw [hdisputes]
      exact h
  | openDispute workA workB =>
      have hne : disputeId ≠ w.jury.nextDisputeId + 1 := by
        rintro rfl
        have hfinal := h.finalized
        rw [hfresh _ (Nat.lt_succ_self _)] at hfinal
        cases hfinal
      dsimp only
      rw [Function.update_of_ne hne]
      exact h
  | vote id forWork hmay =>
      have hne : disputeId ≠ id := by
        rintro rfl
        have hfinal := h.finalized
        rw [hmay.undecided] at hfinal
        cases hfinal
      dsimp only
      rw [Function.update_of_ne hne]
      exact h
  | finalize id hopened hopen htime =>
      have hne : disputeId ≠ id := by
        rintro rfl
        have hfinal := h.finalized
        rw [hopen] at hfinal
        cases hfinal
      dsimp only
      rw [Function.update_of_ne hne]
      exact h

end Docket

/-! ## The verdict -/

/-- The verdict follows the ballots, and on equality the arbiter. -/
structure Follows (registry : CWERegistry) (d : Dispute) (bs : List Ballot) : Prop where
  majorityA : votesFor d.workB bs < votesFor d.workA bs → d.verdict = d.workA
  majorityB : votesFor d.workA bs < votesFor d.workB bs → d.verdict = d.workB
  tie : votesFor d.workA bs = votesFor d.workB bs →
    d.verdict = EarliestRegistrationArbiter.resolve registry d.workA d.workB
  party : d.verdict = d.workA ∨ d.verdict = d.workB

section Outcome

variable {keccak256 : Keccak} {calls : JuryCalls} {disputeId : Nat} {d : Dispute}

/-- Every ballot is counted once, for the one work or the other. -/
theorem Tallied.total (h : Tallied keccak256 calls disputeId d) :
    d.votesA + d.votesB = (voters disputeId calls).card := by
  have hsplit := List.length_eq_countP_add_countP
    (fun b : Ballot => decide (b.forWork = d.workA)) (l := ballots disputeId calls)
  rw [voters, List.toFinset_card_of_nodup h.once, List.length_map, h.votesA, h.votesB, hsplit]
  simp only [decide_not, Bool.not_eq_true, Bool.decide_eq_false, ne_eq]

theorem Tallied.votesFor_workB (h : Tallied keccak256 calls disputeId d)
    (hne : d.workA ≠ d.workB) : votesFor d.workB (ballots disputeId calls) = d.votesB := by
  rw [h.votesB]
  refine List.countP_congr ?_
  intro b hb
  rw [decide_eq_true_iff, decide_eq_true_iff]
  constructor
  · intro hB hA
    exact hne (hA.symm.trans hB)
  · intro hA
    exact (h.lawful b hb).party.resolve_left hA

theorem Tallied.follows (h : Tallied keccak256 calls disputeId d) {registry : CWERegistry}
    (hverdict : d.verdict = CWEJury.tally registry d) :
    Follows registry d (ballots disputeId calls) := by
  have hA : votesFor d.workA (ballots disputeId calls) = d.votesA := h.votesA.symm
  have hparty := CWEJury.tally_mem registry d
  rw [← hverdict] at hparty
  by_cases hsame : d.workA = d.workB
  · -- A dispute of a work with itself: there is one answer only.
    have honly : d.verdict = d.workA := by
      rcases hparty with hv | hv
      · exact hv
      · exact hv.trans hsame.symm
    refine ⟨fun _ => honly, fun _ => honly.trans hsame, ?_, hparty⟩
    intro _
    rw [honly, ← hsame]
    unfold EarliestRegistrationArbiter.resolve
    dsimp only
    simp
  · have hB := h.votesFor_workB hsame
    refine ⟨?_, ?_, ?_, hparty⟩
    · intro hlt
      rw [hA, hB] at hlt
      rw [hverdict, CWEJury.tally, if_pos hlt]
    · intro hlt
      rw [hA, hB] at hlt
      rw [hverdict, CWEJury.tally, if_neg (Nat.lt_asymm hlt), if_pos hlt]
    · intro heq
      rw [hA, hB] at heq
      rw [hverdict, CWEJury.tally, if_neg (by omega), if_neg (by omega)]

end Outcome

section Run

variable (keccak256 : Keccak) (ecrecover : Ecrecover)
variable (identityOwner registryOwner juryOwner : Address) (timestamp : Nat)

theorem docket_run (txs : List (Tx Address JuryCall)) :
    let start := JuryWorld.deployed identityOwner registryOwner juryOwner timestamp
    Docket keccak256 (Clocked.log (JuryWorld.exec keccak256 ecrecover) start txs)
      (Clocked.run (JuryWorld.exec keccak256 ecrecover) start txs).state.jury := by
  intro start
  refine Clocked.run_inv (P := fun (calls : JuryCalls) (d : Clocked JuryWorld) =>
    Docket keccak256 calls d.state.jury) (docket_init juryOwner) ?_ ?_ txs
  · intro calls d seconds h
    exact h
  · intro calls d sender k state h hok
    exact docket_effect h (juryEffect_of_exec hok)

/-- A verdict stands along the rest of the run, where all ids stay fresh ahead of the counter. -/
theorem sameVerdict_run {calls : JuryCalls} {c : Clocked JuryWorld} {disputeId : Nat} {d : Dispute}
    (hc : Docket keccak256 calls c.state.jury)
    (hd : SameVerdict d (c.state.jury.disputes disputeId))
    (more : List (Tx Address JuryCall)) :
    Docket keccak256 (calls ++ Clocked.log (JuryWorld.exec keccak256 ecrecover) c more)
        (Clocked.run (JuryWorld.exec keccak256 ecrecover) c more).state.jury ∧
      SameVerdict d ((Clocked.run (JuryWorld.exec keccak256 ecrecover) c more).state.jury.disputes
        disputeId) := by
  refine Clocked.run_inv (P := fun (after : JuryCalls) (d' : Clocked JuryWorld) =>
    Docket keccak256 (calls ++ after) d'.state.jury ∧
      SameVerdict d (d'.state.jury.disputes disputeId)) ?_ ?_ ?_ more
  · rw [List.append_nil]
    exact ⟨hc, hd⟩
  · intro after d' seconds h
    exact h
  · intro after d' sender k state h hok
    have heffect := juryEffect_of_exec hok
    refine ⟨?_, h.2.effect heffect h.1.fresh⟩
    rw [← List.append_assoc]
    exact docket_effect h.1 heffect

/-- In every reachable state, for every dispute: the votes are those of distinct credentialed jurors
cast in time; it is finalized after them, and then its verdict follows them and stands. -/
theorem verdict_correct (txs : List (Tx Address JuryCall)) (disputeId : Nat) :
    let start := JuryWorld.deployed identityOwner registryOwner juryOwner timestamp
    let calls := Clocked.log (JuryWorld.exec keccak256 ecrecover) start txs
    let c := Clocked.run (JuryWorld.exec keccak256 ecrecover) start txs
    let d := c.state.jury.disputes disputeId
    d.votesA + d.votesB = (voters disputeId calls).card ∧
      ((ballots disputeId calls).map Ballot.juror).Nodup ∧
      (∀ b ∈ ballots disputeId calls, Lawful keccak256 d b) ∧
      (d.finalized = true →
        (∃ pre e post, calls = pre ++ e :: post ∧ e.call = .finalize disputeId ∧
          d.voteEnd ≤ e.before.timestamp ∧ ballots disputeId post = [] ∧
            Follows e.before.state.registry d (ballots disputeId calls)) ∧
          ∀ more, SameVerdict d
            ((Clocked.run (JuryWorld.exec keccak256 ecrecover) c more).state.jury.disputes
              disputeId)) := by
  intro start calls c d
  have hdocket : Docket keccak256 calls c.state.jury :=
    docket_run keccak256 ecrecover identityOwner registryOwner juryOwner timestamp txs
  have htallied : Tallied keccak256 calls disputeId d := hdocket.tallied disputeId
  refine ⟨htallied.total, htallied.once, htallied.lawful, ?_⟩
  intro hfinal
  refine ⟨?_, ?_⟩
  · rcases htallied.decided hfinal with ⟨pre, e, post, hcalls, hcall, htime, hpost, hverdict⟩
    exact ⟨pre, e, post, hcalls, hcall, htime, hpost, htallied.follows hverdict⟩
  · intro more
    exact (sameVerdict_run keccak256 ecrecover hdocket ⟨hfinal, rfl, rfl, rfl⟩ more).2

end Run

/-- One juror votes for the challenger, and the dispute is finalized after its window. -/
def sampleTrial : List (Tx Address JuryCall) :=
  [.call 0xa0 (.records (.setIssuer 0xb0 true)),
    .call 0xb0 (.records (.attest 0xd0 (CredentialTypes.juror sampleKeccak) 10000000000)),
    .call 0xa0 (.setEscrow 0xe5),
    .call 0xe5 (.openDispute 1 2),
    .call 0xd0 (.vote 1 2),
    .elapse 1814400,
    .call 0xff (.finalize 1)]

theorem verdict_correct_sample :
    let c := Clocked.run (JuryWorld.exec sampleKeccak sampleEcrecover)
      (JuryWorld.deployed 0xa0 0xa0 0xa0 1000) sampleTrial
    (c.state.jury.disputes 1).verdict = 2 ∧ ∀ more, SameVerdict (c.state.jury.disputes 1)
      ((Clocked.run (JuryWorld.exec sampleKeccak sampleEcrecover) c more).state.jury.disputes 1) :=
  ⟨by decide +kernel,
    ((verdict_correct sampleKeccak sampleEcrecover 0xa0 0xa0 0xa0 1000 sampleTrial 1).2.2.2
      (by decide +kernel)).2⟩

end Contracts
end CleanWeb
