import CleanWeb.Lib.Tally
import CleanWeb.Contracts.Tiers
import CleanWeb.Settle.Accepted

/-!
# Whether the settled fees were paid

The fee of an accepted submission is the one that its self-declared tier has when the epoch is
settled; no payment is looked up.  The fees are backed by payments exactly when every accepted
submitter has paid that very amount for that very tier.
-/

namespace CleanWeb
namespace Settle

open Lib Lib.Exec Lib.BTreeMap Dapr Zk Contracts CWEConsumption

/-! ## Sums over distinct users -/

/-- Distinct users' payments, summed user by user. -/
theorem sum_filter_user {payments : List TierPayment} {users : List Address} (h : users.Nodup) :
    (users.map fun u => ((payments.filter fun p => p.user = u).map (·.amount)).sum).sum =
      ((payments.filter fun p => p.user ∈ users).map (·.amount)).sum := by
  have hsum := sum_amountAt h (payments.map fun p => (p.user, p.amount))
  simpa [amountAt, List.filter_map, Function.comp_def] using hsum

/-- A payment is at most what its payer paid altogether. -/
theorem amount_le_sum {payments : List TierPayment} {p : TierPayment} (hp : p ∈ payments) :
    p.amount ≤ ((payments.filter fun q => q.user = p.user).map (·.amount)).sum :=
  List.le_sum_of_mem (List.mem_map_of_mem (List.mem_filter.2 ⟨hp, by simp⟩))

/-! ## Settling a history -/

/-- The chain as the settlement reads it: the fees are those of the tier contract. -/
def readsAt (chain : ChainReads) (w : TierWorld) : ChainReads :=
  { chain with feeOf := fun t => some (w.tiers.feeOf t) }

/-- The epoch's part of the log. -/
def epochLogs (epoch : Nat) (w : TierWorld) : List ConsumptionSubmitted :=
  w.log.filter fun e => e.epoch = epoch

/-- The accepted submissions of the epoch. -/
def acceptedAt (x : Externals) (cfg : Config) (kEpoch : Bytes32) (w : TierWorld) :
    List ConsumptionSubmitted :=
  acceptedOf x.poseidonHash cfg.epoch kEpoch (epochLogs cfg.epoch w)

/-- Each user's entry is an amount that this user paid for the tier of an accepted submission. -/
def EntriesPaid (x : Externals) (w : TierWorld) (accepted : List ConsumptionSubmitted)
    (tierFees : BTreeMap UserId Nat) : Prop :=
  ∀ (user : UserId) (fee : Nat), tierFees[user]? = some fee →
    ∃ e ∈ accepted, Address.display x.hex e.user = user ∧ ⟨e.user, e.tierId, fee⟩ ∈ w.payments

/-- What the users of the accepted submissions have paid in. -/
def paidIn (w : TierWorld) (accepted : List ConsumptionSubmitted) : Nat :=
  ((w.payments.filter fun p => p.user ∈ accepted.map (·.user)).map (·.amount)).sum

/-- Every accepted submitter has paid, for the tier named, the fee in force at settlement. -/
def SubmittersPaid (w : TierWorld) (accepted : List ConsumptionSubmitted) : Prop :=
  ∀ e ∈ accepted, ⟨e.user, e.tierId, w.tiers.feeOf e.tierId⟩ ∈ w.payments

variable {x : Externals} {chain : ChainReads} {cfg : Config} {kEpoch : Bytes32}
variable {w : TierWorld} {pass : EventPass}

theorem users_nodup (owner : Address) (history : List TierAction) (epoch : Nat) :
    ((epochLogs epoch (TierWorld.run owner history)).map (·.user)).Nodup := by
  refine ((emittedFor_iff epoch _).1 ⟨TierWorld.submissions history, ?_⟩).2
  rw [epochLogs, TierWorld.log_run]

theorem acceptedAt_nodup (husers : ((epochLogs cfg.epoch w).map (·.user)).Nodup) :
    ((acceptedAt x cfg kEpoch w).map (·.user)).Nodup :=
  husers.sublist ((List.filter_sublist).map _)

/-- The entries are the fees of the tiers that the accepted submissions name. -/
theorem tierFees_perm (husers : ((epochLogs cfg.epoch w).map (·.user)).Nodup)
    (h : (epochLogs cfg.epoch w).foldlM (eventStep x (readsAt chain w) cfg kEpoch) ⟨∅, []⟩ =
      .ok pass) :
    pass.tierFees.toList.Perm ((acceptedAt x cfg kEpoch w).map fun e =>
      (Address.display x.hex e.user, w.tiers.feeOf e.tierId)) := by
  rcases eventPass_fees h husers with ⟨hentries, hothers⟩
  refine perm_of_getElem? ?_ ?_
  · -- A user has one accepted submission, and the names of users are injective.
    refine List.Nodup.of_map Prod.fst ?_
    rw [List.map_map]
    have hnames := (@acceptedAt_nodup x cfg kEpoch w husers).map (Address.display_injective x.hex)
    rwa [List.map_map] at hnames
  · intro user fee
    rw [List.mem_map]
    constructor
    · intro hget
      -- An entry that no accepted submission explains would have been there from the start.
      by_contra hnone
      rw [hothers user] at hget
      · simp at hget
      · rintro e he rfl
        refine hnone ⟨e, he, ?_⟩
        have hfee := hentries e he
        rw [hget] at hfee
        exact Prod.ext rfl (Option.some.inj hfee).symm
    · rintro ⟨e, he, heq⟩
      have hname : Address.display x.hex e.user = user := congrArg Prod.fst heq
      have hfee : w.tiers.feeOf e.tierId = fee := congrArg Prod.snd heq
      rw [← hname, hentries e he, ← hfee]
      rfl

/-- Paid submitters leave every entry, and the sum of the entries, backed. -/
theorem backed_of_submittersPaid (husers : ((epochLogs cfg.epoch w).map (·.user)).Nodup)
    (h : (epochLogs cfg.epoch w).foldlM (eventStep x (readsAt chain w) cfg kEpoch) ⟨∅, []⟩ =
      .ok pass)
    (hpaid : SubmittersPaid w (acceptedAt x cfg kEpoch w)) :
    EntriesPaid x w (acceptedAt x cfg kEpoch w) pass.tierFees ∧
      total pass.tierFees ≤ paidIn w (acceptedAt x cfg kEpoch w) := by
  have hperm := tierFees_perm husers h
  refine ⟨?_, ?_⟩
  · intro user fee hget
    rcases List.mem_map.1 (hperm.mem_iff.1 (mem_toList.2 hget)) with ⟨e, he, heq⟩
    have hfee : w.tiers.feeOf e.tierId = fee := congrArg Prod.snd heq
    refine ⟨e, he, congrArg Prod.fst heq, ?_⟩
    rw [← hfee]
    exact hpaid e he
  · -- Each fee is one of the payments of its user, and the users are distinct.
    have htotal : total pass.tierFees =
        ((acceptedAt x cfg kEpoch w).map fun e => w.tiers.feeOf e.tierId).sum := by
      rw [total, (hperm.map Prod.snd).sum_eq, List.map_map]
      rfl
    rw [htotal, paidIn, ← sum_filter_user (acceptedAt_nodup husers), List.map_map]
    apply List.sum_le_sum
    intro e he
    exact amount_le_sum (hpaid e he)

/-- After every history of tier calls and submissions, and for every epoch whose log is settled:
what `run_events` pays out are fees that their users paid for the tiers they named, and in sum no
more than these users paid in, if and only if every accepted submitter has paid the fee in force at
settlement for the tier named. -/
theorem fees_backed_iff (x : Externals) (chain : ChainReads) (cfg : Config) (kEpoch : Bytes32)
    (owner : Address) (history : List TierAction) (pass : EventPass)
    (hkey : chain.keyFor cfg.epoch = some kEpoch)
    (hpass : (epochLogs cfg.epoch (TierWorld.run owner history)).foldlM
      (eventStep x (readsAt chain (TierWorld.run owner history)) cfg kEpoch) ⟨∅, []⟩ =
        .ok pass) :
    let w := TierWorld.run owner history
    let accepted := acceptedAt x cfg kEpoch w
    runEvents x (readsAt chain w) cfg (epochLogs cfg.epoch w) =
        payAccepted x (readsAt chain w) cfg pass ∧
      ((EntriesPaid x w accepted pass.tierFees ∧ total pass.tierFees ≤ paidIn w accepted) ↔
        SubmittersPaid w accepted) := by
  intro w accepted
  have husers := users_nodup owner history cfg.epoch
  refine ⟨runEvents_of_pass hkey hpass, ?_, backed_of_submittersPaid husers hpass⟩
  -- The entry of a submitter is the fee in force, and someone paid it under this name.
  rintro ⟨hentries, -⟩ e he
  have hget := (eventPass_fees hpass husers).1 e he
  rcases hentries _ _ hget with ⟨e', he', hname, hmem⟩
  have huser : e'.user = e.user := Address.display_injective x.hex hname
  -- A user has one submission in the epoch's log.
  have hsame : e' = e :=
    List.inj_on_of_nodup_map (acceptedAt_nodup husers) he' he huser
  rwa [hsame] at hmem

/-! ## A submission that was never paid for -/

/-- Tier 0 costs one; a user who never subscribed submits for it. -/
def sampleUnpaid : List TierAction :=
  [.setFee 9 0 1,
    .submitConsumption (submissionOf (honest bareExternals.poseidonHash 3 7 1))]

/-- The user subscribes first. -/
def samplePaid : List TierAction :=
  [.setFee 9 0 1, .setPayoutPool 9 8, .subscribe 1 1 true 0,
    .submitConsumption (submissionOf (honest bareExternals.poseidonHash 3 7 1))]

/-- Either way the tier costs one and the log has the one submission. -/
theorem samples_run {history : List TierAction} (h : history ∈ [sampleUnpaid, samplePaid]) :
    epochLogs 3 (TierWorld.run 9 history) = [honest bareExternals.poseidonHash 3 7 1] ∧
      (TierWorld.run 9 history).tiers.feeOf 0 = 1 := by
  have hlog : CWEConsumption.logAfter [submissionOf (honest bareExternals.poseidonHash 3 7 1)] =
      [honest bareExternals.poseidonHash 3 7 1] := by
    rfl
  have hsubmissions : TierWorld.submissions history =
      [submissionOf (honest bareExternals.poseidonHash 3 7 1)] := by
    rcases List.mem_pair.1 h with rfl | rfl
    · rfl
    · rfl
  refine ⟨?_, ?_⟩
  · rw [epochLogs, TierWorld.log_run, hsubmissions, hlog]
    rfl
  · rcases List.mem_pair.1 h with rfl | rfl
    · rfl
    · rfl

/-- So the pass takes the submission at a fee of one. -/
theorem samples_pass {history : List TierAction} (h : history ∈ [sampleUnpaid, samplePaid]) :
    (epochLogs 3 (TierWorld.run 9 history)).foldlM
      (eventStep bareExternals (readsAt (flatFees 7) (TierWorld.run 9 history)) (plainConfig 3) 7)
        ⟨∅, []⟩ =
      .ok ⟨(∅ : BTreeMap UserId Nat).insert (Address.display Hex.codec 1) 1,
        [⟨Address.display Hex.codec 1, Bytes32.display Hex.codec 1, 1⟩]⟩ := by
  rcases samples_run h with ⟨hlogs, hfee⟩
  have hstep := @eventStep_honest bareExternals
    (readsAt (flatFees 7) (TierWorld.run 9 history)) (plainConfig 3) 7 1 (congrArg some hfee)
    (by decide) 1 ⟨∅, []⟩
  have hepoch : (plainConfig 3).epoch = 3 := rfl
  rw [hepoch] at hstep
  rw [hlogs, List.foldlM_cons, hstep]
  rfl

theorem sampleUnpaid_payments : (TierWorld.run 9 sampleUnpaid).payments = [] := rfl

/-- The user who never subscribed is settled with a fee of one, and has paid in nothing. -/
theorem sampleUnpaid_not_backed :
    ∃ pass, (epochLogs 3 (TierWorld.run 9 sampleUnpaid)).foldlM
        (eventStep bareExternals (readsAt (flatFees 7) (TierWorld.run 9 sampleUnpaid))
          (plainConfig 3) 7) ⟨∅, []⟩ = .ok pass ∧
      let w := TierWorld.run 9 sampleUnpaid
      let accepted := acceptedAt bareExternals (plainConfig 3) 7 w
      ¬ EntriesPaid bareExternals w accepted pass.tierFees ∧
        ¬ total pass.tierFees ≤ paidIn w accepted := by
  refine ⟨_, samples_pass (by simp), ?_, ?_⟩
  · intro hpaid
    rcases hpaid (Address.display Hex.codec 1) 1 (by simp) with ⟨e, -, -, hmem⟩
    rw [sampleUnpaid_payments] at hmem
    cases hmem
  · rw [paidIn, sampleUnpaid_payments]
    simp [total, toList_insert_empty]

/-- The condition at the user who subscribed. -/
theorem fees_backed_iff_sample :
    ∃ pass, (epochLogs 3 (TierWorld.run 9 samplePaid)).foldlM
        (eventStep bareExternals (readsAt (flatFees 7) (TierWorld.run 9 samplePaid))
          (plainConfig 3) 7) ⟨∅, []⟩ = .ok pass ∧
      let w := TierWorld.run 9 samplePaid
      let accepted := acceptedAt bareExternals (plainConfig 3) 7 w
      runEvents bareExternals (readsAt (flatFees 7) w) (plainConfig 3) (epochLogs 3 w) =
          payAccepted bareExternals (readsAt (flatFees 7) w) (plainConfig 3) pass ∧
        ((EntriesPaid bareExternals w accepted pass.tierFees ∧
          total pass.tierFees ≤ paidIn w accepted) ↔ SubmittersPaid w accepted) :=
  have hpass := @samples_pass samplePaid (by simp)
  ⟨_, hpass, fees_backed_iff bareExternals (flatFees 7) (plainConfig 3) 7 9 samplePaid _ rfl hpass⟩

end Settle
end CleanWeb
