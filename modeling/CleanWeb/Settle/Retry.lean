import CleanWeb.Contracts.Escrow
import CleanWeb.Contracts.Payouts
import CleanWeb.Lib.Script
import CleanWeb.Settle.Finalize

/-!
# Committing a settlement (`services/settlement/src/chain.rs`, `run`)

The tail of `run` is a script: the epoch root, the escrow funding, one commit for each escrow entry,
the proofs file.  A call that would revert is refused when it is sent, and `?` ends the run.
`commitEpoch` works once for an epoch, so that it decides what a second run can do.
-/

namespace CleanWeb
namespace Settle

open Lib Lib.Exec Contracts

/-- The contracts that the job writes to, the ETH of its account, and the proofs file. -/
structure Books where
  payouts : CWEPayouts
  escrow : CWEEscrow
  registry : CWERegistry
  timestamp : Nat
  funds : Nat
  proofsFile : Option Settlement

/-- The account that signs, and the aggregator that each contract was deployed with. -/
structure Accounts where
  signer : Address
  payoutsAggregator : Address
  escrowAggregator : Address

inductive TailStep where
  | commitEpoch
  | fundEscrow
  | commit (entry : EscrowEntry)
  | writeProofs
  deriving DecidableEq, Repr

inductive TailError where
  | revert (r : Revert)
  | insufficientFunds
  deriving DecidableEq, Repr

/-- One step of the tail. -/
def tailStep (acc : Accounts) (s : Settlement) (b : Books) : TailStep → Exec TailError Books
  | .commitEpoch => do
      let payouts ← mapErr .revert
        (b.payouts.commitEpoch acc.payoutsAggregator acc.signer s.epoch s.merkleRoot s.totalCredits)
      pure { b with payouts := payouts }
  | .fundEscrow =>
      if b.funds < s.escrowTotal then fail .insufficientFunds
      else
        pure { b with
          funds := b.funds - s.escrowTotal
          escrow := b.escrow.receive s.escrowTotal }
  | .commit entry => do
      let escrow ← mapErr .revert
        (b.escrow.commit b.registry acc.escrowAggregator acc.signer b.timestamp s.epoch entry.workId
          entry.amount)
      pure { b with escrow := escrow }
  | .writeProofs => pure { b with proofsFile := some s }

/-- The steps on the escrow contract; there are none without escrow entries. -/
def escrowSteps (s : Settlement) : List TailStep :=
  if s.escrow.isEmpty then [] else .fundEscrow :: s.escrow.map .commit

/-- The steps after the first. -/
def laterSteps (s : Settlement) : List TailStep :=
  escrowSteps s ++ [.writeProofs]

/-- The tail of `run`: how it ends, and what it leaves. -/
def commitSettlement (acc : Accounts) (s : Settlement) (b : Books) : Exec TailError Unit × Books :=
  perform (tailStep acc s) b (.commitEpoch :: laterSteps s)

/-- What runs leave that fail from outside after the given numbers of steps. -/
def failedRuns (acc : Accounts) (s : Settlement) (b : Books) (cuts : List Nat) : Books :=
  attempts (tailStep acc s) (.commitEpoch :: laterSteps s) b cuts

/-! ## What each step leaves -/

section Cases

variable {acc : Accounts} {s : Settlement} {b b' : Books} {entry : EscrowEntry}

theorem commitEpoch_ok (h : tailStep acc s b .commitEpoch = .ok b') :
    acc.signer = acc.payoutsAggregator ∧ b' = { b with payouts := { b.payouts with
      epochRoot := Function.update b.payouts.epochRoot s.epoch s.merkleRoot
      epochTotal := Function.update b.payouts.epochTotal s.epoch s.totalCredits
      epochCommitted := Function.update b.payouts.epochCommitted s.epoch true
      liability := b.payouts.liability + s.totalCredits } } := by
  rcases bind_eq_ok.1 h with ⟨payouts, hcommit, h⟩
  cases h
  rcases CWEPayouts.commitEpoch_cases (mapErr_eq_ok.1 hcommit) with ⟨hsigner, -, -, -, rfl⟩
  exact ⟨hsigner, rfl⟩

theorem fundEscrow_ok (h : tailStep acc s b .fundEscrow = .ok b') :
    b' = { b with funds := b.funds - s.escrowTotal, escrow := b.escrow.receive s.escrowTotal } := by
  rw [tailStep] at h
  split at h
  · cases h
  · cases h
    rfl

theorem commit_ok (h : tailStep acc s b (.commit entry) = .ok b') :
    (b.escrow.escrows (s.epoch, entry.workId)).committed = false ∧ ∃ slot : Escrow,
      slot.committed = true ∧ slot.amount = entry.amount ∧
      b' = { b with escrow := { b.escrow with
        escrows := Function.update b.escrow.escrows (s.epoch, entry.workId) slot
        liability := b.escrow.liability + entry.amount } } := by
  rcases bind_eq_ok.1 h with ⟨escrow, hcommit, h⟩
  cases h
  rcases CWEEscrow.commit_cases (mapErr_eq_ok.1 hcommit) with ⟨-, -, hfresh, -, -, rfl⟩
  exact ⟨hfresh, _, rfl, rfl, rfl⟩

/-- No step unsets a committed epoch. -/
theorem epochCommitted_tailStep (epoch : Nat) (t : TailStep)
    (hb : b.payouts.epochCommitted epoch = true) (h : tailStep acc s b t = .ok b') :
    b'.payouts.epochCommitted epoch = true := by
  cases t with
  | commitEpoch =>
      rw [(commitEpoch_ok h).2]
      by_cases heq : epoch = s.epoch
      · simp [heq]
      · simp [heq, hb]
  | fundEscrow =>
      rw [fundEscrow_ok h]
      exact hb
  | commit entry =>
      rcases (commit_ok h).2 with ⟨slot, -, -, rfl⟩
      exact hb
  | writeProofs =>
      cases h
      exact hb

end Cases

/-! ## A run that completes -/

/-- The epoch is committed once with its root and total, every escrow entry once with its amount,
and the proofs are written. -/
structure Completed (s : Settlement) (before after : Books) : Prop where
  committed : after.payouts.epochCommitted s.epoch = true
  root : after.payouts.epochRoot s.epoch = s.merkleRoot
  total : after.payouts.epochTotal s.epoch = s.totalCredits
  liability : after.payouts.liability = before.payouts.liability + s.totalCredits
  escrowed : ∀ e ∈ s.escrow, (after.escrow.escrows (s.epoch, e.workId)).committed = true ∧
    (after.escrow.escrows (s.epoch, e.workId)).amount = e.amount
  escrowLiability : after.escrow.liability =
    before.escrow.liability + (s.escrow.map EscrowEntry.amount).sum
  written : after.proofsFile = some s

/-- What a list of commits leaves: each entry in its slot, and the slots in use as they were. -/
structure CommitsLeave (s : Settlement) (entries : List EscrowEntry) (b b' : Books) : Prop where
  payouts : b'.payouts = b.payouts
  escrowed : ∀ e ∈ entries, (b'.escrow.escrows (s.epoch, e.workId)).committed = true ∧
    (b'.escrow.escrows (s.epoch, e.workId)).amount = e.amount
  kept : ∀ k, (b.escrow.escrows k).committed = true → b'.escrow.escrows k = b.escrow.escrows k
  liability : b'.escrow.liability = b.escrow.liability + (entries.map EscrowEntry.amount).sum

theorem commitsLeave_of_perform {acc : Accounts} {s : Settlement} {entries : List EscrowEntry}
    {b b' : Books}
    (h : perform (tailStep acc s) b (entries.map .commit) = (.ok (), b')) :
    CommitsLeave s entries b b' := by
  induction entries generalizing b with
  | nil =>
      cases h
      exact ⟨rfl, by simp, fun _ _ => rfl, by simp⟩
  | cons entry entries ih =>
      rcases perform_cons_eq_ok h with ⟨mid, hfirst, hrest⟩
      have hlater := ih hrest
      rcases commit_ok hfirst with ⟨hfresh, slot, hcommitted, hamount, rfl⟩
      -- The slot just written is in use, so the later commits leave it alone.
      have hslot : b'.escrow.escrows (s.epoch, entry.workId) = slot := by
        rw [hlater.kept _ (by simpa using hcommitted)]
        simp
      refine ⟨hlater.payouts, ?_, ?_, ?_⟩
      · intro e he
        rcases List.mem_cons.1 he with rfl | he
        · rw [hslot]
          exact ⟨hcommitted, hamount⟩
        · exact hlater.escrowed e he
      · intro k hk
        have hne : k ≠ (s.epoch, entry.workId) := by
          rintro rfl
          rw [hfresh] at hk
          cases hk
        rw [hlater.kept k (by simpa [hne] using hk)]
        simp [hne]
      · rw [hlater.liability, List.map_cons, List.sum_cons]
        exact Nat.add_assoc _ _ _

theorem commitsLeave_escrowSteps {acc : Accounts} {s : Settlement} {b b' : Books}
    (h : perform (tailStep acc s) b (escrowSteps s) = (.ok (), b')) :
    CommitsLeave s s.escrow b b' := by
  rw [escrowSteps] at h
  split at h
  · rename_i hempty
    cases h
    rw [List.isEmpty_iff.1 hempty]
    exact ⟨rfl, by simp, fun _ _ => rfl, by simp⟩
  · rcases perform_cons_eq_ok h with ⟨funded, hfund, hcommits⟩
    rw [fundEscrow_ok hfund] at hcommits
    have hleave := commitsLeave_of_perform hcommits
    exact ⟨hleave.payouts, hleave.escrowed, hleave.kept, hleave.liability⟩

theorem completed_of_commitSettlement {acc : Accounts} {s : Settlement} {b final : Books}
    (h : commitSettlement acc s b = (.ok (), final)) : Completed s b final := by
  rcases perform_cons_eq_ok h with ⟨opened, hfirst, hrest⟩
  rcases perform_append_eq_ok hrest with ⟨filled, hescrow, hwrite⟩
  have hleave := commitsLeave_escrowSteps hescrow
  cases hwrite
  rw [(commitEpoch_ok hfirst).2] at hleave
  refine ⟨?_, ?_, ?_, ?_, hleave.escrowed, hleave.liability, rfl⟩
  · rw [hleave.payouts]
    simp
  · rw [hleave.payouts]
    simp
  · rw [hleave.payouts]
    simp
  · rw [hleave.payouts]

/-! ## Running again -/

/-- The epoch root can be committed once. -/
theorem onceOnly_commitEpoch {acc : Accounts} (hsigner : acc.signer = acc.payoutsAggregator)
    (s : Settlement) :
    OnceOnly (tailStep acc s) .commitEpoch (.err (.revert (.epochAlreadyCommitted s.epoch)))
      (fun b => b.payouts.epochCommitted s.epoch = true) := by
  refine ⟨?_, fun t hb h => epochCommitted_tailStep s.epoch t hb h, ?_⟩
  · intro b b' h
    rw [(commitEpoch_ok h).2]
    simp
  · intro b hb
    simp only [tailStep, CWEPayouts.commitEpoch, hsigner, hb, ne_eq, not_true_eq_false, if_false,
      if_true]
    rfl

/-- A run that would complete leaves the epoch, the escrow entries and the proofs each recorded
once.  After any runs that failed from outside it still completes, in the same state, exactly when
none of them committed the epoch root; after one that did, it is refused and changes nothing. -/
theorem commitSettlement_after_failures (acc : Accounts) (s : Settlement) (b final : Books)
    (h : commitSettlement acc s b = (.ok (), final)) (cuts : List Nat) :
    Completed s b final ∧
      (commitSettlement acc s (failedRuns acc s b cuts) = (.ok (), final) ↔
        ∀ cut ∈ cuts, cut = 0) ∧
      ((∃ cut ∈ cuts, cut ≠ 0) →
        commitSettlement acc s (failedRuns acc s b cuts) =
          (.error (.err (.revert (.epochAlreadyCommitted s.epoch))), failedRuns acc s b cuts)) := by
  rcases perform_cons_eq_ok h with ⟨opened, hfirst, -⟩
  have honce := onceOnly_commitEpoch (commitEpoch_ok hfirst).1 s
  exact ⟨completed_of_commitSettlement h, honce.completes_iff h cuts, honce.refused h⟩

/-! ## A run that fails between the root and the escrow -/

/-- One direct work and one escrowed work. -/
def sampleSettlement : Settlement :=
  { epoch := 0
    merkleRoot := 0x76f821bd39721ec0e26efc55d7b667d20aab74992e0feae7d7755e386ecd694d
    totalCredits := 70
    unallocated := 0
    entries := [⟨1, 70, []⟩]
    escrow := [⟨2, 30⟩]
    escrowTotal := 30 }

def sampleAccounts : Accounts :=
  ⟨0xe0, 0xe0, 0xe0⟩

/-- The pool holds the fees, and the escrowed work is registered. -/
def sampleBooks : Books :=
  { payouts := CWEPayouts.init.receive 100
    escrow := CWEEscrow.init
    registry :=
      { owner := 0xa0
        works := fun workId =>
          if workId = 2 then
            { payees := [0xc0]
              splits := [1000000]
              pricePerMin := 1000000
              regionRule := 0
              registrant := 0xc0
              exists_ := true
              contentId := 7
              registeredAt := 1000
              bandwidthRate := 960000 }
          else default }
    timestamp := 2592000
    funds := 1000
    proofsFile := none }

/-- The state of the whole run. -/
def sampleFinal : Books :=
  (commitSettlement sampleAccounts sampleSettlement sampleBooks).2

theorem sampleSettlement_commits :
    commitSettlement sampleAccounts sampleSettlement sampleBooks = (.ok (), sampleFinal) := by
  have hok : trap (commitSettlement sampleAccounts sampleSettlement sampleBooks).1 = none := by
    decide +kernel
  rcases exists_ok_of_trap hok with ⟨u, hu⟩
  exact Prod.ext hu rfl

/-- The run completes undisturbed; cut off after the root, it is refused when it is run again, and
the escrowed work is never committed. -/
theorem sampleSettlement_not_resumed :
    commitSettlement sampleAccounts sampleSettlement sampleBooks = (.ok (), sampleFinal) ∧
      ¬ commitSettlement sampleAccounts sampleSettlement
        (failedRuns sampleAccounts sampleSettlement sampleBooks [1]) = (.ok (), sampleFinal) := by
  refine ⟨sampleSettlement_commits, ?_⟩
  have hrefused : trap (commitSettlement sampleAccounts sampleSettlement
      (failedRuns sampleAccounts sampleSettlement sampleBooks [1])).1 =
        some (.err (.revert (.epochAlreadyCommitted 0))) := by
    decide +kernel
  intro h
  rw [h] at hrefused
  cases hrefused

/-- Two runs that fail at once do no harm; one that fails after the escrow was funded does. -/
theorem commitSettlement_after_failures_sample :
    commitSettlement sampleAccounts sampleSettlement
        (failedRuns sampleAccounts sampleSettlement sampleBooks [0, 0]) = (.ok (), sampleFinal) ∧
      (commitSettlement sampleAccounts sampleSettlement
        (failedRuns sampleAccounts sampleSettlement sampleBooks [0, 2])).1 =
          .error (.err (.revert (.epochAlreadyCommitted 0))) := by
  rcases commitSettlement_after_failures sampleAccounts sampleSettlement sampleBooks sampleFinal
    sampleSettlement_commits [0, 0] with ⟨-, hcompletes, -⟩
  rcases commitSettlement_after_failures sampleAccounts sampleSettlement sampleBooks sampleFinal
    sampleSettlement_commits [0, 2] with ⟨-, -, hrefused⟩
  exact ⟨hcompletes.2 (by decide), congrArg Prod.fst (hrefused (by decide))⟩

end Settle
end CleanWeb
