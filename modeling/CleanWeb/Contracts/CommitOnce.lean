import CleanWeb.Contracts.EscrowSystem

/-!
# Commits of one slot

A slot that has been committed stays committed until a dispute over it is decided for the
challenger: then the record is deleted, flag included, and the pair can be committed again.
`commit_at_most_once` is the guarantee while that is not done, `sampleRecommit` a run that does it.
-/

namespace CleanWeb
namespace Contracts

open Lib Lib.Exec Lib.BigEndian Bytes32

def Entry.commits (epochId : Nat) (workId : Bytes32) : Entry → Bool
  | .escrowCommitted e w _ => e == epochId && w == workId
  | _ => false

/-- How many commits of the pair have succeeded. -/
def commitsOf (epochId : Nat) (workId : Bytes32) (history : List Entry) : Nat :=
  history.countP (Entry.commits epochId workId)

def Entry.handsOver (epochId : Nat) (workId : Bytes32) : Entry → Bool
  | .disputeResolved e w winner _ => e == epochId && w == workId && winner != workId
  | _ => false

/-- A verdict has moved the slot's escrow to a challenger. -/
def handedOver (epochId : Nat) (workId : Bytes32) (history : List Entry) : Bool :=
  history.any (Entry.handsOver epochId workId)

def commits (aggregator : Address) (epochId : Nat) (workId : Bytes32) : Action Input → Bool
  | .call (.tx sender (.commit e w _)) => sender == aggregator && e == epochId && w == workId
  | _ => false

/-- The action is no commit by the aggregator that finds the flag clear although the slot has been
handed over. -/
def NoRecommit (d : Deployment) (epochId : Nat) (workId : Bytes32) (c : Config World Payment)
    (a : Action Input) : Prop :=
  commits d.aggregator epochId workId a = true → (c.world.slot epochId workId).committed = false →
    handedOver epochId workId c.world.history = false

instance (d : Deployment) (epochId : Nat) (workId : Bytes32) (c : Config World Payment)
    (a : Action Input) : Decidable (NoRecommit d epochId workId c a) :=
  inferInstanceAs (Decidable (_ → _ → _))

/-- There is no second commit, and until the slot is handed over the flag says why. -/
structure CommittedOnce (epochId : Nat) (workId : Bytes32) (w : World) : Prop where
  once : commitsOf epochId workId w.history ≤ 1
  marked : handedOver epochId workId w.history = false →
    commitsOf epochId workId w.history ≤ (w.slot epochId workId).committed.toNat

section Step

variable {epochId : Nat} {workId : Bytes32} {w w' : World}

/-- No commit happens, and a committed slot stays committed unless it is handed over. -/
theorem CommittedOnce.keep (h : CommittedOnce epochId workId w)
    (hcommits : commitsOf epochId workId w'.history = commitsOf epochId workId w.history)
    (hhanded : handedOver epochId workId w'.history = false →
      handedOver epochId workId w.history = false)
    (hslot : handedOver epochId workId w'.history = false →
      (w.slot epochId workId).committed = true → (w'.slot epochId workId).committed = true) :
    CommittedOnce epochId workId w' := by
  refine ⟨hcommits ▸ h.once, ?_⟩
  intro hnot
  rw [hcommits]
  refine (h.marked (hhanded hnot)).trans ?_
  cases hcommitted : (w.slot epochId workId).committed with
  | false => exact Nat.zero_le _
  | true => rw [hslot hnot hcommitted]

theorem handedOver_append {as bs : List Entry} (h : handedOver epochId workId (as ++ bs) = false) :
    handedOver epochId workId as = false := by
  rw [handedOver, List.any_append, Bool.or_eq_false_iff] at h
  exact h.1

theorem commitsOf_append_of_not {history : List Entry} {entry : Entry}
    (h : Entry.commits epochId workId entry = false) :
    commitsOf epochId workId (history ++ [entry]) = commitsOf epochId workId history := by
  simp [commitsOf, h]

/-- Writing a committed record leaves every committed slot committed. -/
theorem committed_update {escrows : Nat × Bytes32 → Escrow} {k x : Nat × Bytes32} {e : Escrow}
    (he : (escrows k).committed = true → e.committed = true)
    (h : (escrows x).committed = true) : (Function.update escrows k e x).committed = true := by
  by_cases hx : x = k
  · subst hx
    simpa using he h
  · simpa [hx] using h

/-- A verdict that does not hand the slot over, nor make it the winner's, is about another slot. -/
theorem ne_of_not_handsOver {e disputeId : Nat} {escrowedWork winner : Bytes32}
    (hwinner : (epochId, workId) ≠ (e, winner))
    (hnot : [Entry.disputeResolved e escrowedWork winner disputeId].any
      (Entry.handsOver epochId workId) = false) : (epochId, workId) ≠ (e, escrowedWork) := by
  intro heq
  cases heq
  have hmoved : winner ≠ workId := by
    rintro rfl
    exact hwinner rfl
  simp [Entry.handsOver, hmoved] at hnot

theorem committedOnce_effect {ps : List Payment} {k : Input} {out : World × Option Payment}
    (hw : CommittedOnce epochId workId w) (h : Effect w ps k out)
    (hfirst : ∀ sender amount, k = .tx sender (.commit epochId workId amount) →
      handedOver epochId workId w.history = false) : CommittedOnce epochId workId out.1 := by
  cases h with
  | elapse seconds hrest => exact hw.keep rfl id fun _ => id
  | receive value => exact hw.keep rfl id fun _ => id
  | records sender c records heffect =>
      refine hw.keep ?_ handedOver_append fun _ => id
      cases c <;> simp [commitsOf, World.recordEntries, Entry.commits]
  | jurySettings _ owner escrow => exact hw.keep rfl id fun _ => id
  | openDispute sender workA workB out hopen => exact hw.keep rfl id fun _ => id
  | vote juror disputeId forWork d' hvote hopen => exact hw.keep rfl id fun _ => id
  | finalize sender disputeId hopened hopen =>
      exact hw.keep (commitsOf_append_of_not rfl) handedOver_append fun _ => id
  | commit sender e x amount hrest hregistered hfresh hfit hfunds =>
      by_cases hpair : e = epochId ∧ x = workId
      · -- The guard: the slot was not committed, so no commit of the pair had succeeded.
        rcases hpair with ⟨rfl, rfl⟩
        have hnone := hw.marked (hfirst sender amount rfl)
        rw [hfresh] at hnone
        have hone : commitsOf e x (w.history ++ [.escrowCommitted e x amount]) ≤ 1 := by
          simpa [commitsOf, Entry.commits] using hnone
        refine ⟨hone, ?_⟩
        intro _
        simpa [World.slot] using hone
      · refine hw.keep (commitsOf_append_of_not ?_) handedOver_append fun _ => ?_
        · simpa [Entry.commits] using hpair
        · exact committed_update fun _ => rfl
  | challenge sender e escrowedWork challengerWork self out hne hcommitted hreleased hcontent
      hopen =>
      exact hw.keep (commitsOf_append_of_not rfl) handedOver_append fun _ =>
        committed_update fun h => h
  | reassign sender e escrowedWork hreleased hwins =>
      refine hw.keep (commitsOf_append_of_not rfl) handedOver_append ?_
      intro hnot hcommitted
      simp only [World.slot] at hnot hcommitted ⊢
      by_cases hself : (epochId, workId) = (e, (w.escrow.escrows (e, escrowedWork)).challenger)
      · -- The challenger's slot ends up committed.
        rw [hself, Function.update_self]
        rfl
      · -- The deleted slot is another one, or the history would say so.
        have hother : (epochId, workId) ≠ (e, escrowedWork) := by
          rw [handedOver, List.any_append, Bool.or_eq_false_iff] at hnot
          exact ne_of_not_handsOver hself hnot.2
        rw [Function.update_of_ne hself, Function.update_of_ne hother]
        exact hcommitted
  | keep sender e escrowedWork hreleased =>
      exact hw.keep (commitsOf_append_of_not rfl) handedOver_append fun _ =>
        committed_update fun h => h
  | release sender e x s hstatus hmature hpayees hamount hsend =>
      refine hw.keep ?_ handedOver_append fun _ => committed_update fun h => h
      simp [commitsOf, Entry.commits]

theorem committedOnce_resume {p : Payment} {out : World × Option Payment}
    (hw : CommittedOnce epochId workId w) (h : w.resume p = .ok out) :
    CommittedOnce epochId workId out.1 := by
  rcases resume_cases h with ⟨-, rfl⟩ | ⟨q, s, -, -, rfl⟩
  · exact hw.keep rfl id fun _ => id
  · exact hw.keep (commitsOf_append_of_not rfl) handedOver_append fun _ => id

/-- Only the aggregator's commits that find the flag clear go through. -/
theorem handedOver_of_noRecommit {d : Deployment} {c : Config World Payment} {k : Input}
    {out : World × Option Payment} (hstep : NoRecommit d epochId workId c (.call k))
    (hout : c.world.input d k = .ok out) :
    ∀ sender amount, k = .tx sender (.commit epochId workId amount) →
      handedOver epochId workId c.world.history = false := by
  rintro sender amount rfl
  rcases bind_eq_ok.1 hout with ⟨escrow, hcommit, -⟩
  rcases CWEEscrow.commit_cases hcommit with ⟨rfl, -, hfresh, -⟩
  exact hstep (by simp [commits]) hfresh

end Step

/-- In every run in which the aggregator does not commit the pair, its flag clear, after a verdict
has moved its escrow to a challenger, at most one commit of the pair succeeds. -/
theorem commit_at_most_once (d : Deployment) (acts : List (Action Input)) (epochId : Nat)
    (workId : Bytes32)
    (h : (escrowSystem d).Steps (NoRecommit d epochId workId) (World.init d) acts) :
    commitsOf epochId workId ((escrowSystem d).run (World.init d) acts).world.history ≤ 1 := by
  have hinv : CommittedOnce epochId workId ((escrowSystem d).run (World.init d) acts).world := by
    refine Machine.run_inv_of_steps (P := fun c => CommittedOnce epochId workId c.world)
      ⟨Nat.zero_le _, fun _ => Nat.zero_le _⟩ ?_ ?_ h
    · intro c k out hc hfirst hallowed hout
      rw [Config.world_enter]
      exact committedOnce_effect hc (effect_of_call hallowed hout)
        (handedOver_of_noRecommit hfirst hout)
    · intro c f fs out hc _ _ hout
      rw [Config.world_enter]
      exact committedOnce_resume hc hout
  exact hinv.once

/-! ## A run that commits twice -/

/-- The address of the private key 1. -/
def samplePayee : Address :=
  0x7e5f4552091a69125d5dfcb7b8c2659029395bdf

/-- `keccak256` on the strings that the sample runs hash. -/
def sampleKeccak : Keccak :=
  Keccak.ofTable
    [(ascii "cwe.credential.verified-creator",
        0xfcfd6435536e55a655965bc01614ade2de333b661cbabc5cc989438859c434b5),
      (ascii "cwe.credential.juror",
        0xd6daf933f4b876b9755df698ec6f1b7852a7f08847a0f636ae8cbdf3ab9cbfb3),
      (addressWord 0xc0 ++ bytes 0xfcfd6435536e55a655965bc01614ade2de333b661cbabc5cc989438859c434b5,
        0xe1cf6706360acfe977c4c3c00cd88af8eba0888c2fa064993fc7dcefa4890ccb),
      (addressWord 0xd0 ++ bytes 0xd6daf933f4b876b9755df698ec6f1b7852a7f08847a0f636ae8cbdf3ab9cbfb3,
        0x02fb774b60fc7f9e49ec3a9d3fc41680afcb0ce9beb71775493c6979663be817),
      (bytes 1 ++ bytes 7 ++ addressWord samplePayee ++ toBytes 32 1000000,
        0x49b57c862e7c94d9f9ea79707837abfb2369f308416d6d1140cc8edd07805dbb),
      (25 :: ascii "Ethereum Signed Message:\n32" ++
          bytes 0x49b57c862e7c94d9f9ea79707837abfb2369f308416d6d1140cc8edd07805dbb,
        0x6cdc148d8579286722296b4c34dc0254038fcef9dae2cc2a3ea13085c2fb54b0),
      (bytes 2 ++ bytes 7 ++ addressWord samplePayee ++ toBytes 32 1000000,
        0xd1d4e4f78d2891c3e17591579e07af14bf2267f5862cbf9333a4dd98ca0fea44),
      (25 :: ascii "Ethereum Signed Message:\n32" ++
          bytes 0xd1d4e4f78d2891c3e17591579e07af14bf2267f5862cbf9333a4dd98ca0fea44,
        0x6aa0b151d7dc1d82196c6d8532f33b1097eadc89c82c060ae2aa28c2ee5627d7),
      (bytes 2 ++ bytes 5 ++ addressWord samplePayee ++ toBytes 32 1000000,
        0x3107a8daf39fdcc9831a3174c6031492a39c7f8eb4bc3d7a90f523e8096b328b),
      (25 :: ascii "Ethereum Signed Message:\n32" ++
          bytes 0x3107a8daf39fdcc9831a3174c6031492a39c7f8eb4bc3d7a90f523e8096b328b,
        0x0d3e00ef9b221de23e8d7cffc205609e7a2e3758f000e52bae7715d54a4e1c83),
      (bytes 1 ++ bytes 0 ++ addressWord samplePayee ++ toBytes 32 1000000,
        0xdc1b3201c1623fbc751b132cd1845f291b652ad8aba66ea7c6f9e3d56d933367),
      (25 :: ascii "Ethereum Signed Message:\n32" ++
          bytes 0xdc1b3201c1623fbc751b132cd1845f291b652ad8aba66ea7c6f9e3d56d933367,
        0x9941e805ef09f8022790f91cf4903fd57417b2108c7387dcaa3f501c8b1e1554)]

/-- `ecrecover` on the signatures of the sample registrations. -/
def sampleEcrecover : Ecrecover :=
  fun hash v r s =>
    (List.lookup (hash, v, r, s) [
      ((0x6cdc148d8579286722296b4c34dc0254038fcef9dae2cc2a3ea13085c2fb54b0, 27,
          0xb24a1507565e52d6b8066b0d283f5608cceb237db0e398bb373c1af8fbce003c,
          0x3d015a27504871e4926ef31cf8e3e2e15efcfec49b760e0bf2605fc2fbb43599), samplePayee),
      ((0x6aa0b151d7dc1d82196c6d8532f33b1097eadc89c82c060ae2aa28c2ee5627d7, 27,
          0xe516427887b516a59a8eb6e35a6e02fd4023fb2d13fafb11cabe838569c8595a,
          0x7c546f4e7979db4cd491246f3fa6e7c1e6b595fab5852035f0ced885650a930c), samplePayee),
      ((0x0d3e00ef9b221de23e8d7cffc205609e7a2e3758f000e52bae7715d54a4e1c83, 27,
          0x2b0bfe2364379f400e7d94ed7f2ffd37a487dacaae6fa639a47c6e14edb15baf,
          0x392e9b07634cd29006a6be2ac6f9f7263d4658ba5a12b099f33da84e5770d07f), samplePayee),
      ((0x9941e805ef09f8022790f91cf4903fd57417b2108c7387dcaa3f501c8b1e1554, 27,
          0xf7e509d8603616b9a1fe71484facaf4334e1843a987758668d1b847862571b71,
          0x18fb686f40929d999b98bd3890f4f69a1c718aa5d608ac3de16a40267fc7200e), samplePayee)]).getD 0

/-- The consent of `samplePayee` to the whole share of a work under a content id. -/
def sampleConsent : Nat → Nat → List UInt8
  | 1, 7 =>
      bytes 0xb24a1507565e52d6b8066b0d283f5608cceb237db0e398bb373c1af8fbce003c ++
        bytes 0x3d015a27504871e4926ef31cf8e3e2e15efcfec49b760e0bf2605fc2fbb43599 ++ [27]
  | 2, 7 =>
      bytes 0xe516427887b516a59a8eb6e35a6e02fd4023fb2d13fafb11cabe838569c8595a ++
        bytes 0x7c546f4e7979db4cd491246f3fa6e7c1e6b595fab5852035f0ced885650a930c ++ [27]
  | 2, 5 =>
      bytes 0x2b0bfe2364379f400e7d94ed7f2ffd37a487dacaae6fa639a47c6e14edb15baf ++
        bytes 0x392e9b07634cd29006a6be2ac6f9f7263d4658ba5a12b099f33da84e5770d07f ++ [27]
  | 1, 0 =>
      bytes 0xf7e509d8603616b9a1fe71484facaf4334e1843a987758668d1b847862571b71 ++
        bytes 0x18fb686f40929d999b98bd3890f4f69a1c718aa5d608ac3de16a40267fc7200e ++ [27]
  | _, _ => []

def sampleRegistration (workId contentId : Nat) : Registration :=
  { workId := BitVec.ofNat 256 workId
    contentId := BitVec.ofNat 256 contentId
    payees := [samplePayee]
    splits := [1000000]
    consentSigs := [sampleConsent workId contentId]
    pricePerMin := 0
    regionRule := 0 }

def sampleDeployment : Deployment :=
  { keccak256 := sampleKeccak
    ecrecover := sampleEcrecover
    aggregator := 0xe0
    escrow := 0xe5
    identityOwner := 0xa0
    registryOwner := 0xa0
    juryOwner := 0xa0
    timestamp := 1000
    timestamp_pos := by decide }

/-- A creator and a juror with credentials, the escrow known to the jury, and some ETH in it. -/
def sampleSetup : List (Action Input) :=
  [.call (.tx 0xa0 (.records (.setIssuer 0xb0 true))),
    .call (.tx 0xb0 (.records
      (.attest 0xc0 (CredentialTypes.verifiedCreator sampleKeccak) 10000000000))),
    .call (.tx 0xb0 (.records (.attest 0xd0 (CredentialTypes.juror sampleKeccak) 10000000000))),
    .call (.tx 0xa0 (.setEscrow 0xe5)),
    .call (.receive 100)]

/-- Work 2 registers first, work 1 under the same content id later; work 1's credit is challenged,
the silent jury leaves it to the earlier registration, and the aggregator commits again. -/
def sampleRecommit : List (Action Input) :=
  sampleSetup ++
    [.call (.tx 0xc0 (.records (.registerWork (sampleRegistration 2 7)))),
      .call (.elapse 10),
      .call (.tx 0xc0 (.records (.registerWork (sampleRegistration 1 7)))),
      .call (.tx 0xe0 (.commit 0 1 30)),
      .call (.tx 0xff (.challenge 0 1 2)),
      .call (.elapse 1814400),
      .call (.tx 0xff (.finalize 1)),
      .call (.tx 0xff (.resolveDispute 0 1)),
      .call (.tx 0xe0 (.commit 0 1 30))]

/-- Both commits of work 1 succeed. -/
theorem sampleRecommit_commits_twice :
    ¬ commitsOf 0 1
      ((escrowSystem sampleDeployment).run (World.init sampleDeployment)
        sampleRecommit).world.history
        ≤ 1 := by
  decide +kernel

/-- The guarantee on the part of the run before the second commit. -/
theorem commit_at_most_once_sample :
    commitsOf 0 1
      ((escrowSystem sampleDeployment).run (World.init sampleDeployment)
        (sampleRecommit.take 13)).world.history ≤ 1 :=
  commit_at_most_once sampleDeployment (sampleRecommit.take 13) 0 1 (by decide +kernel)

end Contracts
end CleanWeb
